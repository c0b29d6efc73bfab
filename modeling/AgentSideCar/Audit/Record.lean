import AgentSideCar.Library.Json
import AgentSideCar.Library.Lines
import Mathlib.Algebra.Group.Int.Defs
import Mathlib.Algebra.Group.Nat.Defs

namespace AgentSideCar.Audit
open Json (Scalar Fields)

abbrev Text := List Char

def maxAuditBytes : Nat := 8 * 1024 * 1024
def maxAuditLineBytes : Nat := 4096
def maxActivePendingRecords : Nat := 4096
def maxActivePendingBytes : Nat := 4 * 1024 * 1024

inductive AuditError where
  | auditCorrupt
  | auditError
  | auditBusy
  | invalidRequestId
  | requestConflict
  | unsafeAudit
  | auditArchiveFull
deriving DecidableEq

def AuditError.code : AuditError → String
  | .auditCorrupt => "audit_corrupt"
  | .auditError => "audit_error"
  | .auditBusy => "audit_busy"
  | .invalidRequestId => "invalid_request_id"
  | .requestConflict => "request_conflict"
  | .unsafeAudit => "unsafe_audit"
  | .auditArchiveFull => "audit_archive_full"

-- A full match of one leading character and at most `most` further ones.
def pattern (lead body : Char → Bool) (most : Nat) (s : String) : Bool :=
  match s.toList with
  | [] => false
  | c :: rest => lead c && rest.length ≤ most && rest.all body

def lowerAlpha (c : Char) : Bool := 'a' ≤ c && c ≤ 'z'
def requestIdRe (s : String) : Bool :=
  pattern Char.isAlphanum (fun c => c.isAlphanum || c = '.' || c = '_' || c = ':' || c = '-') 127 s
def hashRe (s : String) : Bool := s.toList.length = 64 && s.toList.all fun c => c.isDigit || ('a' ≤ c && c ≤ 'f')
def agentRe (s : String) : Bool := pattern lowerAlpha (fun c => lowerAlpha c || c.isDigit || c = '-') 31 s
def basenameRe (s : String) : Bool :=
  pattern Char.isAlphanum (fun c => c.isAlphanum || c = '.' || c = '_' || c = '+' || c = '-') 127 s
def errorRe (s : String) : Bool := pattern lowerAlpha (fun c => lowerAlpha c || c.isDigit || c = '_') 63 s
def epochRe (s : String) : Bool :=
  match s.toList with
  | 'e' :: '_' :: rest => 32 ≤ rest.length && rest.length ≤ 64 && rest.all fun c => c.isAlphanum || c = '_' || c = '-'
  | _ => false

def terminalOutcomes : List String := ["completed","failed","timed_out","overflow"]
def deliveryStates : List String := ["delivered","unknown"]
def commonKeys : List String := ["schema_version","timestamp","request_id","namespace_epoch","agent","target_hmac",
  "request_hmac","executable_basename","confirmation_mode","outcome"]
def terminalKeys : List String := ["delivery","error","returncode"]

structure Terminal where
  outcome : String
  delivery : String
  error : Option String
  returncode : Option Int
deriving DecidableEq

-- A line of the log. A record without a terminal is pending.
structure Record where
  timestamp : Scalar
  requestId : String
  namespaceEpoch : String
  agent : String
  targetHmac : String
  requestHmac : String
  executableBasename : String
  confirmationMode : String
  terminal : Option Terminal
deriving DecidableEq

def Record.isPending (r : Record) : Bool := r.terminal.isNone

def optionText : Option String → Scalar
  | none => .null
  | some s => .text s

def optionInt : Option Int → Scalar
  | none => .null
  | some n => .int n

-- The record's items under sort_keys.
def Record.fields (r : Record) : Fields :=
  match r.terminal with
  | none => [("agent",.text r.agent),("confirmation_mode",.text r.confirmationMode),
      ("executable_basename",.text r.executableBasename),("namespace_epoch",.text r.namespaceEpoch),
      ("outcome",.text "pending"),("request_hmac",.text r.requestHmac),("request_id",.text r.requestId),
      ("schema_version",.int 1),("target_hmac",.text r.targetHmac),("timestamp",r.timestamp)]
  | some t => [("agent",.text r.agent),("confirmation_mode",.text r.confirmationMode),
      ("delivery",.text t.delivery),("error",optionText t.error),
      ("executable_basename",.text r.executableBasename),("namespace_epoch",.text r.namespaceEpoch),
      ("outcome",.text t.outcome),("request_hmac",.text r.requestHmac),("request_id",.text r.requestId),
      ("returncode",optionInt t.returncode),("schema_version",.int 1),("target_hmac",.text r.targetHmac),
      ("timestamp",r.timestamp)]

def textField (value : Fields) (key : String) : Option String :=
  match value.lookup key with
  | some (.text s) => some s
  | _ => none

def optionalText (value : Fields) (key : String) : Option (Option String) :=
  match value.lookup key with
  | some .null => some none
  | some (.text s) => some (some s)
  | _ => none

def optionalInt (value : Fields) (key : String) : Option (Option Int) :=
  match value.lookup key with
  | some .null => some none
  | some (.int n) => some (some n)
  | _ => none

-- The key set and the types: every nested value and every other type is refused.
def readRecord (value : Fields) : Option Record := do
  let outcome ← textField value "outcome"
  let expected := if outcome = "pending" then commonKeys else commonKeys ++ terminalKeys
  let keys := value.map Prod.fst
  guard (keys.all (· ∈ expected) && expected.all (· ∈ keys))
  guard (value.lookup "schema_version" = some (.int 1))
  let timestamp ← value.lookup "timestamp"
  let requestId ← textField value "request_id"
  let namespaceEpoch ← textField value "namespace_epoch"
  let agent ← textField value "agent"
  let targetHmac ← textField value "target_hmac"
  let requestHmac ← textField value "request_hmac"
  let executableBasename ← textField value "executable_basename"
  let confirmationMode ← textField value "confirmation_mode"
  let terminal ← if outcome = "pending" then some none else do
    let delivery ← textField value "delivery"
    let error ← optionalText value "error"
    let returncode ← optionalInt value "returncode"
    some (some {outcome := outcome, delivery := delivery, error := error, returncode := returncode})
  some {timestamp := timestamp, requestId := requestId, namespaceEpoch := namespaceEpoch, agent := agent,
        targetHmac := targetHmac, requestHmac := requestHmac, executableBasename := executableBasename,
        confirmationMode := confirmationMode, terminal := terminal}

-- The first integer that rounds to no finite double.
def doubleLimit : Nat := 2 ^ 1024 - 2 ^ 970

def validTimestamp : Scalar → Bool
  | .int n => 0 ≤ n && n < doubleLimit
  | .float negative whole places => whole < doubleLimit && (!negative || (whole = 0 && places.val.all (· = '0')))
  | _ => false

def validReturncode : Option Int → Bool
  | none => true
  | some n => -2 ^ 31 ≤ n && n ≤ 2 ^ 31 - 1

def Terminal.valid (t : Terminal) : Bool :=
  t.outcome ∈ terminalOutcomes && t.delivery ∈ deliveryStates && validReturncode t.returncode
    && t.error.all errorRe
    && (if t.outcome = "completed" then
          (t.delivery = "delivered" && t.returncode = some 0 && t.error = none)
            || (t.delivery = "unknown" && t.returncode = some 0 && t.error = some "cleanup_incomplete")
        else t.delivery = "unknown")

def Record.valid (r : Record) : Bool :=
  validTimestamp r.timestamp && epochRe r.namespaceEpoch && agentRe r.agent && hashRe r.targetHmac
    && hashRe r.requestHmac && basenameRe r.executableBasename && r.confirmationMode = "allow_write"
    && requestIdRe r.requestId && r.terminal.all Terminal.valid

def validateRecord (value : Fields) : Except AuditError Record :=
  match readRecord value with
  | some r => if r.valid then .ok r else .error .auditCorrupt
  | none => .error .auditCorrupt

def encodedRecord (r : Record) : Except AuditError Text :=
  let encoded := Json.dumps r.fields ++ ['\n']
  if encoded.length ≤ maxAuditLineBytes then .ok encoded else .error .auditError

-- splitlines ends a line at a newline, a carriage return or the two together.
def universal : Text → Text
  | '\r' :: '\n' :: rest => '\n' :: universal rest
  | '\r' :: rest => '\n' :: universal rest
  | c :: rest => c :: universal rest
  | [] => []

def parseLine (line : Text) : Except AuditError Record :=
  if line = [] ∨ line.length > maxAuditLineBytes then .error .auditCorrupt
  else match Json.loads line with
    | some value => validateRecord value
    | none => .error .auditCorrupt

def parseFile (payload : Text) : Except AuditError (List Record) :=
  if payload = [] then .ok []
  else if payload.getLast? ≠ some '\n' then .error .auditCorrupt
  else (Lines.lines '\n' (universal payload)).mapM parseLine

theorem optionalText_optionText (found : List.lookup key value = some (optionText e)) :
    optionalText value key = some e := by
  cases e <;> simp [optionalText,found,optionText]

theorem optionalInt_optionInt (found : List.lookup key value = some (optionInt n)) :
    optionalInt value key = some n := by
  cases n <;> simp [optionalInt,found,optionInt]

theorem readRecord_fields (r : Record) (closed : ∀ t, r.terminal = some t → t.outcome ≠ "pending") :
    readRecord r.fields = some r := by
  rcases r with ⟨timestamp,requestId,namespaceEpoch,agent,targetHmac,requestHmac,executable,mode,terminal⟩
  cases terminal with
  | none => rfl
  | some t =>
    rcases t with ⟨outcome,delivery,error,returncode⟩
    have other : outcome ≠ "pending" := closed _ rfl
    have errors : optionalText (Record.fields ⟨timestamp,requestId,namespaceEpoch,agent,targetHmac,requestHmac,
        executable,mode,some ⟨outcome,delivery,error,returncode⟩⟩) "error" = some error :=
      optionalText_optionText rfl
    have returns : optionalInt (Record.fields ⟨timestamp,requestId,namespaceEpoch,agent,targetHmac,requestHmac,
        executable,mode,some ⟨outcome,delivery,error,returncode⟩⟩) "returncode" = some returncode :=
      optionalInt_optionInt rfl
    simp only [Record.fields] at errors returns ⊢
    simp [readRecord,textField,errors,returns,List.lookup_cons,other,commonKeys,terminalKeys,guard]

theorem readRecord_reopened (r : Record) (settled : r.terminal = some t) (same : t.outcome = "pending") :
    readRecord r.fields = none := by
  simp [readRecord,Record.fields,settled,textField,List.lookup_cons,same,commonKeys,guard]

theorem validateRecord_fields (r : Record) :
    validateRecord r.fields = if r.valid then .ok r else .error .auditCorrupt := by
  by_cases closed : ∀ t, r.terminal = some t → t.outcome ≠ "pending"
  · rw [validateRecord,readRecord_fields r closed]
  · push Not at closed
    obtain ⟨t,settled,same⟩ := closed
    have refused : r.valid = false := by
      simp [Record.valid,settled,Terminal.valid,same,terminalOutcomes]
    rw [validateRecord,readRecord_reopened r settled same,refused]
    rfl

theorem pattern_plain {lead body : Char → Bool} (first : ∀ c, lead c = true → Json.plain c = true)
    (later : ∀ c, body c = true → Json.plain c = true) (fits : pattern lead body most s = true) : Json.Plain s := by
  intro c inside
  unfold pattern at fits
  split at fits
  · rename_i none_left; rw [none_left] at inside; cases inside
  · rename_i c' rest same
    rw [same] at inside
    simp only [Bool.and_eq_true,List.all_eq_true] at fits
    rcases List.mem_cons.mp inside with rfl | inside
    · exact first _ fits.1.1
    · exact later _ (fits.2 _ inside)

end AgentSideCar.Audit
