import AgentSideCar.Audit.Histories

namespace AgentSideCar.Audit
open Json (Scalar)

-- The request as the caller holds it; only keyed digests of it are stored.
structure AuditIdentity where
  agent : String
  sessionId : String
  project : String
  executableBasename : String
  confirmationMode : String
  message : List UInt8
deriving DecidableEq

structure AuditReceipt where
  requestId : String
  agent : String
  outcome : String
  delivery : String
  returncode : Option Int
  error : Option String
deriving DecidableEq

-- `digest` is the hexadecimal HMAC-SHA256 under the namespace's key.
structure AuditNamespace where
  namespaceEpoch : String
  digest : List UInt8 → String

def utf8 (s : String) : List UInt8 := s.toByteArray.data.toList

def ascii (s : List Char) : List UInt8 := s.map fun c => UInt8.ofNat c.toNat

-- A tag, the length, a colon, the bytes and a semicolon.
def hashBytes (tag : Char) (bytes : List UInt8) : List UInt8 :=
  ascii (tag :: Digits.digits bytes.length ++ [':']) ++ bytes ++ ascii [';']

def hashText (s : String) : List UInt8 := hashBytes 's' (utf8 s)

def targetText (identity : AuditIdentity) : List UInt8 :=
  hashText "target" ++ hashText identity.agent ++ hashText identity.sessionId ++ hashText identity.project

def requestText (identity : AuditIdentity) : List UInt8 :=
  hashText "request" ++ hashText identity.agent ++ hashText identity.sessionId ++ hashText identity.project
    ++ hashBytes 'y' identity.message

def identityTuple (identity : AuditIdentity) (space : AuditNamespace) : Identity :=
  (identity.agent,space.digest (targetText identity),space.digest (requestText identity),identity.confirmationMode)

-- A clock reading, as repr writes it.
structure Clock where
  negative : Bool
  whole : Nat
  places : Json.Places
deriving DecidableEq

def Clock.stamp (now : Clock) : Scalar := .float now.negative now.whole now.places

def baseRecord (requestId : String) (identity : AuditIdentity) (space : AuditNamespace) (now : Clock)
    (terminal : Option Terminal) : Record :=
  {timestamp := now.stamp, requestId := requestId, namespaceEpoch := space.namespaceEpoch, agent := identity.agent,
   targetHmac := (identityTuple identity space).2.1, requestHmac := (identityTuple identity space).2.2.1,
   executableBasename := identity.executableBasename, confirmationMode := identity.confirmationMode,
   terminal := terminal}

def receipt (r : Record) : AuditReceipt :=
  match r.terminal with
  | none => {requestId := r.requestId, agent := r.agent, outcome := "request_pending", delivery := "unknown",
             returncode := none, error := some "request_pending"}
  | some t => {requestId := r.requestId, agent := r.agent, outcome := t.outcome, delivery := t.delivery,
               returncode := t.returncode, error := t.error}

theorem baseRecord_requestId : (baseRecord request identity space now terminal).requestId = request := rfl

-- What the request digest is taken over: everything but the executable and the confirmation mode.
def SameRequest (a b : AuditIdentity) : Prop :=
  a.agent = b.agent ∧ a.sessionId = b.sessionId ∧ a.project = b.project ∧ a.message = b.message ∧
    a.confirmationMode = b.confirmationMode

instance : Decidable (SameRequest a b) := by unfold SameRequest; infer_instance

theorem ascii_injective (low : ∀ c ∈ s, c.toNat < 256) (low' : ∀ c ∈ s', c.toNat < 256)
    (same : ascii s = ascii s') : s = s' := by
  induction s generalizing s' with
  | nil => exact (List.map_eq_nil_iff.mp same.symm).symm
  | cons c s ih =>
    cases s' with
    | nil => cases same
    | cons d s' =>
      obtain ⟨head,tail⟩ := List.cons.inj same
      have first := low c List.mem_cons_self
      have second := low' d List.mem_cons_self
      have values : c.toNat = d.toNat := by
        have := congrArg UInt8.toNat head
        simpa [UInt8.toNat_ofNat',Nat.mod_eq_of_lt first,Nat.mod_eq_of_lt second] using this
      rw [Char.toNat_inj.mp values,ih (fun e inside => low e (List.mem_cons_of_mem _ inside))
        (fun e inside => low' e (List.mem_cons_of_mem _ inside)) tail]

theorem utf8_injective (same : utf8 s = utf8 t) : s = t :=
  String.toByteArray_inj.mp (ByteArray.ext (Array.toList_inj.mp same))

theorem digits_low (n : Nat) : ∀ c ∈ Digits.digits n, c.toNat < 256 ∧ c ≠ ':' := by
  intro c inside
  have digit := Digits.digits_digit inside
  simp only [Char.isDigit,Bool.and_eq_true,decide_eq_true_eq,UInt32.le_iff_toNat_le] at digit
  have value : c.val.toNat = c.toNat := rfl
  refine ⟨by simp [value] at digit; omega,?_⟩
  rintro rfl
  simp at digit

theorem ascii_digits_clean (n : Nat) : (58 : UInt8) ∉ ascii (Digits.digits n) := by
  intro inside
  obtain ⟨c,digit,same⟩ := List.mem_map.mp inside
  obtain ⟨low,apart⟩ := digits_low n c digit
  have := congrArg UInt8.toNat same
  simp only [UInt8.toNat_ofNat',Nat.mod_eq_of_lt low] at this
  exact apart (Char.toNat_inj.mp this)

theorem hashBytes_split (same : hashBytes tag a ++ x = hashBytes tag b ++ y) : a = b ∧ x = y := by
  have split : ∀ bytes rest : List UInt8, hashBytes tag bytes ++ rest =
      UInt8.ofNat tag.toNat :: (ascii (Digits.digits bytes.length) ++ 58 :: (bytes ++ 59 :: rest)) := by
    intro bytes rest
    simp [hashBytes,ascii]
  rw [split,split] at same
  have counted := (List.cons.inj same).2
  have lengths : ascii (Digits.digits a.length) = ascii (Digits.digits b.length) := by
    have lines := congrArg (fun stream => (Lines.feed (58 : UInt8) [] stream).1.head?) counted
    simpa [Lines.feed_line _ _ _ (ascii_digits_clean _)] using lines
  have length : a.length = b.length := Digits.digits_injective
    (ascii_injective (fun c inside => (digits_low _ c inside).1) (fun c inside => (digits_low _ c inside).1) lengths)
  rw [lengths] at counted
  have bodies := (List.cons.inj (List.append_cancel_left counted)).2
  obtain ⟨value,rest⟩ := List.append_inj bodies length
  exact ⟨value,(List.cons.inj rest).2⟩

theorem hashText_split (same : hashText s ++ x = hashText t ++ y) : s = t ∧ x = y :=
  let ⟨bytes,rest⟩ := hashBytes_split same; ⟨utf8_injective bytes,rest⟩

theorem requestText_injective (same : requestText a = requestText b) :
    a.agent = b.agent ∧ a.sessionId = b.sessionId ∧ a.project = b.project ∧ a.message = b.message := by
  simp only [requestText,List.append_assoc] at same
  obtain ⟨_,same⟩ := hashText_split same
  obtain ⟨agent,same⟩ := hashText_split same
  obtain ⟨session,same⟩ := hashText_split same
  obtain ⟨project,same⟩ := hashText_split same
  have message := hashBytes_split (x := []) (y := []) (by simpa using same)
  exact ⟨agent,session,project,message.1⟩

theorem identityTuple_same (same : SameRequest a b) : identityTuple a space = identityTuple b space := by
  obtain ⟨agent,session,project,message,mode⟩ := same
  simp [identityTuple,targetText,requestText,agent,session,project,message,mode]

theorem identityTuple_exact (apart : space.digest (requestText a) = space.digest (requestText b) →
    requestText a = requestText b) : identityTuple a space = identityTuple b space ↔ SameRequest a b := by
  refine ⟨fun same => ?_,identityTuple_same⟩
  simp only [identityTuple,Prod.mk.injEq] at same
  obtain ⟨_,_,digests,mode⟩ := same
  obtain ⟨agent,session,project,message⟩ := requestText_injective (apart digests)
  exact ⟨agent,session,project,message,mode⟩

end AgentSideCar.Audit
