import AgentSideCar.Audit.Identity
import AgentSideCar.Library.Digits
import AgentSideCar.Library.Prefixes
import AgentSideCar.Library.Utf8
import Mathlib.Algebra.Group.Nat.Defs

namespace AgentSideCar.Audit
open Framing

-- A double: one not-a-number whatever its payload, the others by sign, exponent and fraction.
inductive Double where
  | nan
  | infinite (negative : Bool)
  | finite (negative : Bool) (exponent : Fin 2047) (fraction : Fin (2 ^ 52))
  deriving DecidableEq

def signOf (negative : Bool) : List Char := if negative then ['-'] else []
def exponentText (n : Int) : List Char := (if 0 ≤ n then '+' else '-') :: Digits.digits n.natAbs

-- float.hex: the fraction in thirteen digits, the least exponent for a subnormal number.
def Double.mantissa (exponent : Fin 2047) (fraction : Fin (2 ^ 52)) : List Char :=
  if exponent.val = 0 ∧ fraction.val = 0 then ['0','x','0','.','0','p','+','0']
  else ['0','x',if exponent.val = 0 then '0' else '1','.'] ++ (Hex.hexDigits Nat.digitChar 13 fraction.val ++
    'p' :: exponentText (if exponent.val = 0 then -1022 else (exponent.val : Int) - 1023))

def Double.hex : Double → List Char
  | .nan => ['n','a','n']
  | .infinite negative => signOf negative ++ ['i','n','f']
  | .finite negative exponent fraction => signOf negative ++ mantissa exponent fraction

abbrev Point := Fin 1114112

-- What is hashed; a mapping, or any other object, is refused.
inductive Hashed where
  | none
  | bool (b : Bool)
  | int (n : Int)
  | float (x : Double)
  | str (points : List Point)
  | bytes (raw : List UInt8)
  | tuple (items : List Hashed)
  | list (items : List Hashed)
  | other

inductive Refusal where | auditError | valueError
  deriving DecidableEq

-- str of an integer refuses more digits than the interpreter's limit.
def decimal (limit : Option Nat) (n : Int) : Except Refusal (List Char) :=
  if limit.any (· < (Digits.digits n.natAbs).length) then .error .valueError else .ok (Digits.signed n)

mutual

-- What the digest is fed, or the exception that stops it.
def hashValue (limit : Option Nat) (depth : Nat) (value : Hashed) : Except Refusal (List UInt8) :=
  if 8 < depth then .error .auditError
  else match value with
    | .none => .ok (ascii ['n',';'])
    | .bool b => .ok (ascii (if b then ['b','1',';'] else ['b','0',';']))
    | .int n => (decimal limit n).map fun digits => ascii ('i' :: digits ++ [';'])
    | .float x => .ok (ascii ('f' :: x.hex ++ [';']))
    | .str points =>
      match Utf8.encode (points.map (·.val)) with
      | some raw => .ok (hashBytes 's' raw)
      | none => .error .auditError
    | .bytes raw => .ok (hashBytes 'y' raw)
    | .tuple items => (hashItems limit (depth + 1) items).map fun inner => ascii ['['] ++ inner ++ ascii [']',';']
    | .list items => (hashItems limit (depth + 1) items).map fun inner => ascii ['['] ++ inner ++ ascii [']',';']
    | .other => .error .auditError

def hashItems (limit : Option Nat) (depth : Nat) : List Hashed → Except Refusal (List UInt8)
  | [] => .ok []
  | item :: rest => (hashValue limit depth item).bind fun first => (hashItems limit depth rest).map (first ++ ·)

end

-- What _hmac_identity feeds to its digest.
def fed (limit : Option Nat) (label : List Point) (values : List Hashed) : Except Refusal (List UInt8) :=
  hashItems limit 0 (.str label :: values)

def points (label : String) : List Point := label.toList.map fun c => ⟨c.toNat,by
  have value : c.val.toNat = c.toNat := rfl
  rcases c.valid with low | ⟨_,high⟩ <;> omega⟩

-- A reservation as objects.
structure Reservation where
  agent : Hashed
  sessionId : Hashed
  project : Hashed
  message : Hashed

def targetFed (limit : Option Nat) (i : Reservation) : Except Refusal (List UInt8) :=
  fed limit (points "target") [i.agent,i.sessionId,i.project]

def requestFed (limit : Option Nat) (i : Reservation) : Except Refusal (List UInt8) :=
  fed limit (points "request") [i.agent,i.sessionId,i.project,i.message]

mutual

-- Lists and tuples are hashed alike.
def plain : Hashed → Hashed
  | .tuple items => .list (plainItems items)
  | .list items => .list (plainItems items)
  | value => value

def plainItems : List Hashed → List Hashed
  | [] => []
  | item :: rest => plain item :: plainItems rest

end

theorem plainItems_map (items : List Hashed) : plainItems items = items.map plain := by
  induction items with
  | nil => rfl
  | cons item rest ih => rw [plainItems,ih,List.map_cons]

mutual

theorem hash_plain (limit : Option Nat) (depth : Nat) : (value : Hashed) →
    hashValue limit depth (plain value) = hashValue limit depth value
  | .tuple items => by rw [plain,hashValue,hashValue,hash_plainItems limit (depth + 1) items]
  | .list items => by rw [plain,hashValue,hashValue,hash_plainItems limit (depth + 1) items]
  | .none | .bool _ | .int _ | .float _ | .str _ | .bytes _ | .other => rfl

theorem hash_plainItems (limit : Option Nat) (depth : Nat) : (items : List Hashed) →
    hashItems limit depth (plainItems items) = hashItems limit depth items
  | [] => rfl
  | item :: rest => by
    rw [plainItems,hashItems,hashItems,hash_plain limit depth item,hash_plainItems limit depth rest]

end

theorem digitChar_apart : ∀ d < 16, ∀ e < 16, Nat.digitChar d = Nat.digitChar e → d = e := by decide

theorem digit_quiet {c : Char} (digit : c.isDigit = true) : c.toNat < 256 ∧ c ≠ ';' := by
  simp only [Char.isDigit,Bool.and_eq_true,decide_eq_true_eq,UInt32.le_iff_toNat_le] at digit
  have value : c.val.toNat = c.toNat := rfl
  refine ⟨by simp [value] at digit; omega,?_⟩
  rintro rfl
  simp at digit

theorem signed_quiet (inside : c ∈ Digits.signed n) : c.toNat < 256 ∧ c ≠ ';' := by
  rcases Digits.signed_chars inside with rfl | digit
  · decide
  · exact digit_quiet digit

theorem hex_quiet (inside : c ∈ Double.hex x) : c.toNat < 256 ∧ c ≠ ';' := by
  have few : ∀ l : List Char, (l.all fun c => decide (c.toNat < 256 ∧ c ≠ ';')) = true → c ∈ l → c.toNat < 256 ∧ c ≠ ';' :=
    fun l all inside => by simpa using List.all_eq_true.mp all c inside
  have signs : ∀ negative, c ∈ signOf negative → c.toNat < 256 ∧ c ≠ ';' := by
    intro negative inside
    cases negative
    · cases inside
    · exact few ['-'] (by decide) inside
  have powers : ∀ n : Int, (if 0 ≤ n then '+' else '-').toNat < 256 ∧ (if 0 ≤ n then '+' else '-') ≠ ';' := by
    intro n
    split <;> decide
  cases x with
  | nan => exact few _ (by decide) inside
  | infinite negative => exact (List.mem_append.mp inside).elim (signs negative) (few _ (by decide))
  | finite negative exponent fraction =>
    rcases List.mem_append.mp inside with sign | body
    · exact signs negative sign
    · unfold Double.mantissa at body
      split at body
      · exact few _ (by decide) body
      · rcases List.mem_append.mp body with lead | body
        · split at lead <;> exact few _ (by decide) lead
        rcases List.mem_append.mp body with digits | power
        · obtain ⟨d,small,rfl⟩ := Hex.hexDigits_digit digits
          have all : ∀ d < 16, (Nat.digitChar d).toNat < 256 ∧ Nat.digitChar d ≠ ';' := by decide
          exact all d small
        · rcases List.mem_cons.mp power with rfl | power
          · decide
          · rcases List.mem_cons.mp power with rfl | digits
            · exact powers _
            · exact digit_quiet (Digits.digits_digit digits)

theorem exponentText_injective (same : exponentText m = exponentText n) : m = n := by
  obtain ⟨signs,digits⟩ := List.cons.inj same
  have sizes := Digits.digits_injective digits
  split at signs <;> split at signs
  · omega
  · exact absurd signs (by decide)
  · exact absurd signs (by decide)
  · omega

theorem mantissa_injective (same : Double.mantissa e f = Double.mantissa e' f') : e = e' ∧ f = f' := by
  have long : ∀ (e : Fin 2047) (f : Fin (2 ^ 52)) (n : Int),
      ['0','x','0','.','0','p','+','0'] ≠ ['0','x',if e.val = 0 then '0' else '1','.'] ++
        (Hex.hexDigits Nat.digitChar 13 f.val ++ 'p' :: exponentText n) := by
    intro e f n same
    have := congrArg List.length same
    simp only [List.length_append,Hex.hexDigits_length,List.length_cons,List.length_nil] at this
    omega
  unfold Double.mantissa at same
  by_cases zero : e.val = 0 ∧ f.val = 0 <;> by_cases zero' : e'.val = 0 ∧ f'.val = 0
  · exact ⟨Fin.ext (zero.1.trans zero'.1.symm),Fin.ext (zero.2.trans zero'.2.symm)⟩
  · rw [if_pos zero,if_neg zero'] at same
    exact absurd same (long _ _ _)
  · rw [if_neg zero,if_pos zero'] at same
    exact absurd same.symm (long _ _ _)
  · rw [if_neg zero,if_neg zero'] at same
    obtain ⟨leads,rest⟩ := List.append_inj same rfl
    obtain ⟨digits,powers⟩ := List.append_inj rest (by rw [Hex.hexDigits_length,Hex.hexDigits_length])
    have fractions := Hex.hexDigits_injective digitChar_apart (Nat.lt_of_lt_of_le f.isLt (by decide))
      (Nat.lt_of_lt_of_le f'.isLt (by decide)) digits
    have exponents := exponentText_injective (List.cons.inj powers).2
    have subnormal : e.val = 0 ↔ e'.val = 0 := by
      simp only [List.cons.injEq,and_true,true_and] at leads
      split at leads <;> split at leads <;> simp_all
    refine ⟨Fin.ext ?_,Fin.ext fractions⟩
    by_cases low : e.val = 0
    · exact low.trans (subnormal.mp low).symm
    · rw [if_neg low,if_neg fun low' => low (subnormal.mpr low')] at exponents
      omega

theorem mantissa_opens (e : Fin 2047) (f : Fin (2 ^ 52)) : ∃ rest, Double.mantissa e f = '0' :: rest := by
  unfold Double.mantissa
  split <;> exact ⟨_,rfl⟩

theorem sign_split (left : a.head? ≠ some '-') (right : b.head? ≠ some '-') (same : signOf n ++ a = signOf n' ++ b) :
    n = n' ∧ a = b := by
  cases n <;> cases n'
  · exact ⟨rfl,same⟩
  · exact absurd (congrArg List.head? same) left
  · exact absurd (congrArg List.head? same).symm right
  · exact ⟨rfl,(List.cons.inj same).2⟩

-- A double's text behind its sign.
def Double.parts : Double → Bool × List Char
  | .nan => (false,['n','a','n'])
  | .infinite negative => (negative,['i','n','f'])
  | .finite negative exponent fraction => (negative,mantissa exponent fraction)

theorem hex_parts (x : Double) : x.hex = signOf x.parts.1 ++ x.parts.2 := by cases x <;> rfl

theorem parts_sign (x : Double) : x.parts.2.head? ≠ some '-' := by
  cases x with
  | nan => decide
  | infinite _ => simp [Double.parts]
  | finite _ exponent fraction =>
    obtain ⟨rest,opened⟩ := mantissa_opens exponent fraction
    simp [Double.parts,opened]

theorem hex_injective (same : Double.hex x = Double.hex y) : x = y := by
  rw [hex_parts,hex_parts] at same
  obtain ⟨signs,tails⟩ := sign_split (parts_sign x) (parts_sign y) same
  have heads := congrArg List.head? tails
  have opened : ∀ e f, (Double.mantissa e f).head? = some '0' := by
    intro e f
    obtain ⟨rest,opened⟩ := mantissa_opens e f
    rw [opened]; rfl
  cases x with
  | nan => cases y <;> simp [Double.parts,opened] at heads ⊢
  | infinite _ =>
    cases y with
    | infinite _ => exact congrArg Double.infinite signs
    | nan | finite _ _ _ => simp [Double.parts,opened] at heads
  | finite _ e f =>
    cases y with
    | finite _ e' f' =>
      obtain ⟨exponents,fractions⟩ := mantissa_injective tails
      simp only [Double.parts] at signs
      rw [signs,exponents,fractions]
    | nan | infinite _ => simp [Double.parts,opened] at heads

theorem map_ok {α β ε : Type} {f : α → β} {e : Except ε α} {b : β} (mapped : e.map f = .ok b) : ∃ a, e = .ok a ∧ b = f a := by
  cases e with
  | error _ => cases mapped
  | ok a => exact ⟨a,rfl,(Except.ok.inj mapped).symm⟩

abbrev hashes (limit : Option Nat) (depth : Nat) : Writes Hashed UInt8 := fun value s => hashValue limit depth value = .ok s

theorem hashItems_run (hashed : hashItems limit depth items = .ok s) : Run (hashes limit depth) items s := by
  induction items generalizing s with
  | nil =>
    rw [hashItems] at hashed
    cases hashed
    exact .nil
  | cons item rest ih =>
    rw [hashItems] at hashed
    cases one : hashValue limit depth item with
    | error e => rw [one] at hashed; cases hashed
    | ok first =>
      cases more : hashItems limit depth rest with
      | error e => rw [one,more] at hashed; cases hashed
      | ok later =>
        rw [one,more] at hashed
        cases hashed
        exact .cons one (ih more)

def tag : Hashed → UInt8
  | .none => 110
  | .bool _ => 98
  | .int _ => 105
  | .float _ => 102
  | .str _ => 115
  | .bytes _ => 121
  | .tuple _ | .list _ => 91
  | .other => 0

def members : Hashed → Option (List Hashed)
  | .tuple items | .list items => some items
  | _ => none

theorem hash_opens (hashed : hashValue limit depth v = .ok s) : ∃ rest, s = tag v :: rest := by
  unfold hashValue at hashed
  split at hashed
  · cases hashed
  cases v with
  | none | float _ | bytes _ => cases hashed; exact ⟨_,rfl⟩
  | bool b => cases b <;> cases hashed <;> exact ⟨_,rfl⟩
  | int n =>
    obtain ⟨digits,-,rfl⟩ := map_ok hashed
    exact ⟨_,rfl⟩
  | str points =>
    simp only at hashed
    split at hashed <;> cases hashed
    exact ⟨_,rfl⟩
  | tuple items | list items =>
    obtain ⟨inner,-,rfl⟩ := map_ok hashed
    exact ⟨_,rfl⟩
  | other => cases hashed

theorem hashes_clear (limit : Option Nat) (depth : Nat) : Clear (hashes limit depth) 93 := by
  intro v s hashed
  obtain ⟨rest,rfl⟩ := hash_opens hashed
  exact ⟨_,rest,rfl,by cases v <;> simp [tag]⟩

theorem quiet_ends (left : ∀ c ∈ a, c.toNat < 256 ∧ c ≠ ';') (right : ∀ c ∈ b, c.toNat < 256 ∧ c ≠ ';')
    (same : ascii (a ++ [';']) ++ x = ascii (b ++ [';']) ++ y) : a = b ∧ x = y := by
  have clean : ∀ l : List Char, (∀ c ∈ l, c.toNat < 256 ∧ c ≠ ';') → (59 : UInt8) ∉ ascii l := by
    intro l quiet inside
    obtain ⟨c,held,equal⟩ := List.mem_map.mp inside
    obtain ⟨low,apart⟩ := quiet c held
    have := congrArg UInt8.toNat equal
    simp only [UInt8.toNat_ofNat',Nat.mod_eq_of_lt low] at this
    exact apart (Char.toNat_inj.mp this)
  have cut : ∀ l rest, ascii (l ++ [';']) ++ rest = ascii l ++ 59 :: rest := by
    intro l rest
    simp [ascii]
  rw [cut,cut] at same
  obtain ⟨equal,rest⟩ := Digits.split_unique (clean a left) (clean b right) same
  exact ⟨ascii_injective (fun c inside => (left c inside).1) (fun c inside => (right c inside).1) equal,rest⟩

theorem decimal_exact (written : decimal limit n = .ok digits) : digits = Digits.signed n := by
  unfold decimal at written
  split at written
  · cases written
  · exact (Except.ok.inj written).symm

theorem points_injective {s t : List Point} (first : Utf8.encode (s.map (·.val)) = some raw)
    (second : Utf8.encode (t.map (·.val)) = some raw) : s = t := by
  have inRange : ∀ l : List Point, ∀ c ∈ l.map (·.val), c < 1114112 := by
    intro l c inside
    obtain ⟨point,-,rfl⟩ := List.mem_map.mp inside
    exact point.isLt
  exact List.map_injective_iff.mpr (fun _ _ equal => Fin.ext equal) (Utf8.encode_injective (inRange s) (inRange t) first second)

theorem atom_ends (limit : Option Nat) (depth : Nat) (v : Hashed) (atom : members v = none) :
    Ends (hashes limit depth) plain v := by
  intro w s t x y first second same
  have tags : tag v = tag w := by
    obtain ⟨_,rfl⟩ := hash_opens first
    obtain ⟨_,rfl⟩ := hash_opens second
    exact (List.cons.inj same).1
  unfold hashes hashValue at first second
  split at first
  · cases first
  rename_i shallow
  rw [if_neg shallow] at second
  cases v with
  | none =>
    cases w <;> simp [tag] at tags
    cases first
    cases second
    exact ⟨rfl,List.append_cancel_left same⟩
  | bool b =>
    cases w with
    | bool b' =>
      cases first
      cases second
      cases b <;> cases b'
      · exact ⟨rfl,List.append_cancel_left same⟩
      · simp [ascii] at same
      · simp [ascii] at same
      · exact ⟨rfl,List.append_cancel_left same⟩
    | _ => simp [tag] at tags
  | int n =>
    cases w with
    | int n' =>
      obtain ⟨digits,written,rfl⟩ := map_ok first
      obtain ⟨digits',written',rfl⟩ := map_ok second
      cases decimal_exact written
      cases decimal_exact written'
      obtain ⟨equal,rest⟩ := quiet_ends (fun c inside => signed_quiet inside) (fun c inside => signed_quiet inside)
        (List.cons.inj same).2
      exact ⟨by rw [Digits.signed_injective equal],rest⟩
    | _ => simp [tag] at tags
  | float f =>
    cases w with
    | float f' =>
      cases first
      cases second
      obtain ⟨equal,rest⟩ := quiet_ends (fun c inside => hex_quiet inside) (fun c inside => hex_quiet inside)
        (List.cons.inj same).2
      exact ⟨by rw [hex_injective equal],rest⟩
    | _ => simp [tag] at tags
  | str points =>
    cases w with
    | str points' =>
      simp only at first second
      split at first <;> cases first
      rename_i raw encoded
      split at second <;> cases second
      rename_i raw' encoded'
      obtain ⟨rfl,rest⟩ := hashBytes_split same
      exact ⟨by rw [points_injective encoded encoded'],rest⟩
    | _ => simp [tag] at tags
  | bytes raw =>
    cases w with
    | bytes raw' =>
      cases first
      cases second
      obtain ⟨rfl,rest⟩ := hashBytes_split same
      exact ⟨rfl,rest⟩
    | _ => simp [tag] at tags
  | tuple items | list items => cases atom
  | other => cases first

theorem hash_members (held : members v = some items) (hashed : hashValue limit depth v = .ok s) :
    ∃ inner, hashItems limit (depth + 1) items = .ok inner ∧ s = 91 :: (inner ++ [93,59]) := by
  unfold hashValue at hashed
  split at hashed
  · cases hashed
  cases v with
  | tuple _ | list _ =>
    cases held
    obtain ⟨inner,gathered,rfl⟩ := map_ok hashed
    exact ⟨inner,gathered,rfl⟩
  | _ => cases held

theorem members_plain (held : members v = some items) : plain v = .list (items.map plain) := by
  cases v with
  | tuple _ | list _ => cases held; rw [plain,plainItems_map]
  | _ => cases held

theorem sequence_ends (held : members v = some items)
    (each : ∀ item ∈ items, Ends (hashes limit (depth + 1)) plain item) : Ends (hashes limit depth) plain v := by
  intro w s t x y first second same
  obtain ⟨inner,hashed,rfl⟩ := hash_members held first
  obtain ⟨rest,rfl⟩ := hash_opens second
  have tagged : tag w = 91 := (List.cons.inj same).1.symm
  obtain ⟨items',held'⟩ : ∃ items', members w = some items' := by
    cases w with
    | tuple items' | list items' => exact ⟨items',rfl⟩
    | _ => simp [tag] at tagged
  obtain ⟨inner',hashed',opened⟩ := hash_members held' second
  rw [(List.cons.inj opened).2] at same
  have bodies : inner ++ 93 :: 59 :: x = inner' ++ 93 :: 59 :: y := by simpa using (List.cons.inj same).2
  obtain ⟨keys,rest⟩ := run_ends (hashes_clear limit (depth + 1)) each (hashItems_run hashed) (hashItems_run hashed') bodies
  exact ⟨by rw [members_plain held,members_plain held',keys],(List.cons.inj rest).2⟩

mutual

theorem value_ends (limit : Option Nat) (depth : Nat) : (v : Hashed) → Ends (hashes limit depth) plain v
  | .tuple items => sequence_ends rfl (items_end limit (depth + 1) items)
  | .list items => sequence_ends rfl (items_end limit (depth + 1) items)
  | .none => atom_ends limit depth .none rfl
  | .bool b => atom_ends limit depth (.bool b) rfl
  | .int n => atom_ends limit depth (.int n) rfl
  | .float x => atom_ends limit depth (.float x) rfl
  | .str points => atom_ends limit depth (.str points) rfl
  | .bytes raw => atom_ends limit depth (.bytes raw) rfl
  | .other => atom_ends limit depth .other rfl

theorem items_end (limit : Option Nat) (depth : Nat) : (items : List Hashed) → ∀ v ∈ items, Ends (hashes limit depth) plain v
  | [],_,inside => absurd inside List.not_mem_nil
  | item :: rest,v,inside => by
    rcases List.mem_cons.mp inside with same | later
    · exact same ▸ value_ends limit depth item
    · exact items_end limit depth rest v later

end

theorem fed_unique (first : fed limit label values = .ok s) (second : fed limit label' values' = .ok s) :
    label = label' ∧ values.map plain = values'.map plain := by
  have keys := run_unique (hashes_clear limit 0) (value_ends limit 0) (hashItems_run first) (hashItems_run second)
  rw [List.map_cons,List.map_cons] at keys
  obtain ⟨labels,rest⟩ := List.cons.inj keys
  exact ⟨Hashed.str.inj labels,rest⟩

-- The request that a digest stands for, up to lists and tuples.
def Reservation.request (i : Reservation) : Hashed × Hashed × Hashed × Hashed :=
  (plain i.agent,plain i.sessionId,plain i.project,plain i.message)

-- What is fed to the digest is read back: labels and values from the bytes, so requests that
-- differ never share them, nor a request and a target; a list and a tuple always do.
theorem hash_value_decodable (limit : Option Nat) :
    (∀ label values label' values' s, fed limit label values = .ok s → fed limit label' values' = .ok s →
      label = label' ∧ values.map plain = values'.map plain) ∧
    (∀ i j s, requestFed limit i = .ok s → requestFed limit j = .ok s → i.request = j.request) ∧
    (∀ i j s, targetFed limit i = .ok s → requestFed limit j ≠ .ok s) ∧
    ∀ depth value, hashValue limit depth (plain value) = hashValue limit depth value := by
  refine ⟨fun _ _ _ _ _ => fed_unique,?_,?_,hash_plain limit⟩
  · intro i j s first second
    have values := (fed_unique first second).2
    simp only [List.map_cons,List.cons.injEq] at values
    obtain ⟨agent,session,project,message,-⟩ := values
    rw [Reservation.request,Reservation.request,agent,session,project,message]
  · intro i j s first second
    exact absurd (fed_unique first second).1 (by decide)

-- A session named in a tuple, and the same in a list.
def listed (items : List Hashed → Hashed) : Reservation :=
  ⟨.str (points "claude"),items [.int (-7),.float (.finite true 1023 0),.none],.str [],.bytes [104,105]⟩

theorem listed_hash_value_decodable : (listed .list).request = (listed .tuple).request := by
  have fine : (requestFed (some 4300) (listed .list)).toBool = true := by decide +kernel
  have alike : requestFed (some 4300) (listed .tuple) = requestFed (some 4300) (listed .list) := by
    rw [requestFed,requestFed,fed,fed,← hash_plainItems,← hash_plainItems _ _ (.str _ :: [(listed .list).agent,_,_,_])]
    rfl
  cases computed : requestFed (some 4300) (listed .list) with
  | error e => rw [computed] at fine; cases fine
  | ok s => exact (hash_value_decodable (some 4300)).2.1 _ _ s computed (alike.trans computed)

end AgentSideCar.Audit
