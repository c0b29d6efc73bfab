import Mathlib.Data.List.TakeWhile
import AgentSideCar.Library.Loads

namespace AgentSideCar.Loads

-- A reader with the defaults of json.loads. The interpreter gives its limits, and the numbers that
-- NaN, Infinity and -Infinity read as.
structure Plain where
  depth : Nat
  digits : Option Nat
  constant : Text → Value

namespace Plain
variable (p : Plain)

def hooks : Hooks where
  depth := p.depth
  integer := fun whole => if p.digits.any (· < whole.length) then some .integer else none

def atomValue (literal : Text) : Option Value :=
  if literal ∈ [str "NaN",str "Infinity",str "-Infinity"] then some (p.constant literal) else Loads.atomValue literal

-- A key given again keeps its place and takes the later value.
def settle (s : State) : State :=
  match s.stack with
  | .dict ((key,value) :: fields) next :: rest =>
    if key ∈ fields.map Prod.fst then
      ⟨s.mode,.dict (fields.map fun field => if field.1 = key then (key,value) else field) next :: rest⟩
    else s
  | _ => s

def step (s : State) (c : Nat) : Option State :=
  match s.mode with
  | .atom literal =>
    if endsAtom c then
      (p.atomValue literal.reverse).bind fun value => (pass (settle (complete value s.stack)) c).map settle
    else some ⟨.atom (c :: literal),s.stack⟩
  | _ => (Loads.step s c).map settle

def read : State → Text → Except LoadsError State
  | s,[] => .ok s
  | s,c :: rest =>
    match p.hooks.refuses s c,p.step s c with
    | some e,_ => .error e
    | none,none => .error .malformed
    | none,some s => read s rest

def result (s : State) : Option Value :=
  match s.mode,s.stack with
  | .done value,[] => some value
  | .atom literal,[] => p.atomValue literal.reverse
  | _,_ => none

def finish (s : State) : Except LoadsError Value :=
  match s.mode with
  | .atom literal =>
    match p.hooks.atom literal.reverse,p.result s with
    | some e,_ => .error e
    | none,some value => .ok value
    | none,none => .error .malformed
  | _ => (p.result s).elim (.error .malformed) .ok

def loads (text : Text) : Except LoadsError Value := (p.read start text).bind p.finish

-- The reading of a text gets to an integer of more digits than the interpreter converts.
def Overlong (text : Text) : Prop := ∃ before after literal n s, text = before ++ after ∧ p.read start before = .ok s ∧
  s.mode = .atom literal ∧ after.head?.all endsAtom = true ∧ scanNumber literal.reverse = some n ∧ n.integral = true ∧
    ∃ most, p.digits = some most ∧ most < n.whole.length

variable {p} {s t : State} {c : Nat} {text literal : Text}

theorem atom_integer : p.hooks.atom literal = some .integer ↔ ∃ n, scanNumber literal = some n ∧ n.integral = true ∧
    ∃ most, p.digits = some most ∧ most < n.whole.length := by
  unfold Hooks.atom
  cases scanNumber literal with
  | none => simp
  | some n => cases limited : p.digits <;> simp [hooks,limited]

theorem refuses_integer : p.hooks.refuses s c = some .integer ↔
    ∃ literal, s.mode = .atom literal ∧ endsAtom c = true ∧ p.hooks.atom literal.reverse = some .integer := by
  unfold Hooks.refuses
  cases mode : s.mode <;> simp

theorem read_integer : p.read s text = .error .integer ↔ ∃ before c after t, text = before ++ c :: after ∧
    p.read s before = .ok t ∧ p.hooks.refuses t c = some .integer := by
  induction text generalizing s with
  | nil => simp [read]
  | cons c rest ih =>
    constructor
    · intro raised
      rw [read] at raised
      split at raised
      · rename_i refused
        cases raised
        exact ⟨[],c,rest,s,rfl,rfl,refused⟩
      · cases raised
      · rename_i free stepped
        obtain ⟨before,d,after,t,rfl,reached,refused⟩ := ih.mp raised
        refine ⟨c :: before,d,after,t,rfl,?_,refused⟩
        rw [read,free,stepped]
        exact reached
    · rintro ⟨before,d,after,t,same,reached,refused⟩
      cases before with
      | nil =>
        cases reached
        cases same
        rw [read,refused]
      | cons b before =>
        obtain ⟨rfl,rfl⟩ := List.cons.inj same
        rw [read] at reached ⊢
        split at reached
        · cases reached
        · cases reached
        · exact ih.mpr ⟨before,d,after,t,rfl,reached,refused⟩

theorem finish_integer : p.finish s = .error .integer ↔
    ∃ literal, s.mode = .atom literal ∧ p.hooks.atom literal.reverse = some .integer := by
  unfold finish
  cases mode : s.mode with
  | atom literal =>
    simp only [Mode.atom.injEq,exists_eq_left']
    cases p.hooks.atom literal.reverse <;> cases p.result s <;> simp
  | _ => cases p.result s <;> simp

theorem loads_integer : p.loads text = .error .integer ↔ p.Overlong text := by
  constructor
  · intro raised
    unfold loads at raised
    cases whole : p.read start text with
    | error e =>
      rw [whole] at raised
      cases raised
      obtain ⟨before,c,after,s,rfl,reached,refused⟩ := read_integer.mp whole
      obtain ⟨literal,mode,ends,overlong⟩ := refuses_integer.mp refused
      obtain ⟨n,scanned,integral,most⟩ := atom_integer.mp overlong
      exact ⟨before,c :: after,literal,n,s,rfl,reached,mode,ends,scanned,integral,most⟩
    | ok s =>
      rw [whole] at raised
      obtain ⟨literal,mode,overlong⟩ := finish_integer.mp raised
      obtain ⟨n,scanned,integral,most⟩ := atom_integer.mp overlong
      exact ⟨text,[],literal,n,s,(List.append_nil _).symm,whole,mode,rfl,scanned,integral,most⟩
  · rintro ⟨before,after,literal,n,s,rfl,reached,mode,ends,scanned,integral,most⟩
    have overlong := (atom_integer (p := p)).mpr ⟨n,scanned,integral,most⟩
    unfold loads
    cases after with
    | nil =>
      rw [List.append_nil,reached]
      exact finish_integer.mpr ⟨literal,mode,overlong⟩
    | cons c after =>
      rw [read_integer.mpr ⟨before,c,after,s,rfl,reached,refuses_integer.mpr ⟨literal,mode,ends,overlong⟩⟩]
      rfl

theorem read_digits (digits literal : Text) (ascii : ∀ c ∈ digits, isDigit c = true) :
    p.read ⟨.atom literal,[]⟩ digits = .ok ⟨.atom (digits.reverse ++ literal),[]⟩ := by
  induction digits generalizing literal with
  | nil => rfl
  | cons c rest ih =>
    have inside : endsAtom c = false := by
      have digit : 48 ≤ c ∧ c ≤ 57 := by simpa [isDigit] using ascii c List.mem_cons_self
      have all : ∀ c < 58, 48 ≤ c → endsAtom c = false := by decide
      exact all c (Nat.lt_succ_of_le digit.2) digit.1
    have refused : p.hooks.refuses ⟨.atom literal,[]⟩ c = none := if_neg (by simp [inside])
    have stepped : p.step ⟨.atom literal,[]⟩ c = some ⟨.atom (c :: literal),[]⟩ := if_neg (by simp [inside])
    rw [read,refused,stepped]
    simp only
    rw [ih (c :: literal) fun d later => ascii d (List.mem_cons_of_mem _ later),List.reverse_cons,List.append_assoc]
    rfl

theorem digits_overlong {digits : Text} (first : c ≠ 48) (ascii : ∀ d ∈ c :: digits, isDigit d = true)
    (limited : p.digits = some most) (more : most ≤ digits.length) : p.Overlong (c :: digits) := by
  have digit := ascii c List.mem_cons_self
  have bounds : 48 ≤ c ∧ c ≤ 57 := by simpa [isDigit] using digit
  have opened : p.read start (c :: digits) = .ok ⟨.atom (digits.reverse ++ [c]),[]⟩ := by
    have started : startValue c [] = some ⟨.atom [c],[]⟩ := by
      unfold startValue quote openList openDict comma colon closeList closeDict
      rw [if_neg (by omega),if_neg (by omega),if_neg (by omega),if_neg (by omega)]
    have unblank : blank c = false := by simp [blank]; omega
    have stepped : Loads.step start c = some ⟨.atom [c],[]⟩ := by simp [Loads.step,start,unblank,started]
    have refused : p.hooks.refuses start c = none := by
      unfold Hooks.refuses
      simp only [start] at stepped ⊢
      simp [stepped]
    have moved : p.step start c = some ⟨.atom [c],[]⟩ := by
      unfold Plain.step
      simp only [start] at stepped ⊢
      simp [stepped,settle]
    rw [read,refused,moved]
    exact read_digits digits [c] fun d later => ascii d (List.mem_cons_of_mem _ later)
  have whole : digits.takeWhile isDigit = digits :=
    List.takeWhile_eq_self_iff.mpr fun d later => ascii d (List.mem_cons_of_mem _ later)
  have scanned : scanNumber (c :: digits) = some ⟨false,c :: digits,[],none,[]⟩ := by
    have unsigned : c ≠ 45 := by omega
    simp [scanNumber,unsigned,digit,first,whole,scanFraction,scanExponent]
  refine ⟨c :: digits,[],digits.reverse ++ [c],_,_,(List.append_nil _).symm,opened,rfl,rfl,by simpa using scanned,rfl,
    most,limited,?_⟩
  exact Nat.lt_succ_of_le more

section Walks

-- A way through signs of which none ends a number, at no more than a depth.
def walk (most : Nat) : State → Text → Option State
  | s,[] => some s
  | s,c :: rest =>
    match s.mode with
    | .atom _ => none
    | _ => match Loads.step s c with
      | some t => if t.stack.length ≤ most then walk most (settle t) rest else none
      | none => none

theorem read_walk (deep : most ≤ p.depth) (walked : walk most s text = some t) (rest : Text) : p.read s (text ++ rest) = p.read t rest := by
  induction text generalizing s with
  | nil =>
    cases walked
    rfl
  | cons c text ih =>
    cases mode : s.mode with
    | atom literal => simp [walk,mode] at walked
    | _ =>
      simp only [walk,mode] at walked
      split at walked
      · rename_i next stepped
        split at walked
        · rename_i shallow
          have refused : p.hooks.refuses s c = none := by
            simp only [Hooks.refuses,mode,stepped]
            exact if_neg fun beyond => Nat.not_lt.mpr (Nat.le_trans shallow deep) (of_decide_eq_true beyond)
          have moved : p.step s c = some (settle next) := by simp only [step,mode,stepped,Option.map_some]
          rw [List.cons_append,read,refused,moved]
          exact ih walked
        · cases walked
      · cases walked

theorem walk_string (isKey : Bool) (out : Text) (stack : List Open) (within : stack.length ≤ most)
    (plain : ∀ c ∈ text, c ≠ quote ∧ c ≠ backslash ∧ 32 ≤ c) (settled : ∀ mode, settle ⟨mode,stack⟩ = ⟨mode,stack⟩) :
    walk most ⟨.string isKey out,stack⟩ text = some ⟨.string isKey (text.reverse ++ out),stack⟩ := by
  induction text generalizing out with
  | nil => rfl
  | cons c text ih =>
    obtain ⟨⟨apart,unescaped,solid⟩,later⟩ := List.forall_mem_cons.mp plain
    have stepped : Loads.step ⟨.string isKey out,stack⟩ c = some ⟨.string isKey (c :: out),stack⟩ := by
      simp only [Loads.step]
      rw [if_neg apart,if_neg unescaped,if_neg (by omega)]
    simp only [walk,stepped,if_pos within,settled]
    rw [ih (c :: out) later,List.reverse_cons,List.append_assoc]
    rfl

theorem read_inner (inner : ∀ c ∈ text, endsAtom c = false) (literal : Text) (stack : List Open) (rest : Text) :
    p.read ⟨.atom literal,stack⟩ (text ++ rest) = p.read ⟨.atom (text.reverse ++ literal),stack⟩ rest := by
  induction text generalizing literal with
  | nil => rfl
  | cons c text ih =>
    obtain ⟨here,later⟩ := List.forall_mem_cons.mp inner
    have refused : p.hooks.refuses ⟨.atom literal,stack⟩ c = none := if_neg (by simp [here])
    have stepped : p.step ⟨.atom literal,stack⟩ c = some ⟨.atom (c :: literal),stack⟩ := if_neg (by simp [here])
    rw [List.cons_append,read,refused,stepped]
    simp only
    rw [ih later (c :: literal),List.reverse_cons,List.append_assoc]
    rfl

theorem scan_digits (lead : c ≠ 48) (ascii : ∀ d ∈ c :: text, isDigit d = true) :
    scanNumber (c :: text) = some ⟨false,c :: text,[],none,[]⟩ := by
  obtain ⟨first,later⟩ := List.forall_mem_cons.mp ascii
  have digit : 48 ≤ c ∧ c ≤ 57 := by simpa [isDigit] using first
  have unsigned : c ≠ 45 := by omega
  have whole : text.takeWhile isDigit = text := List.takeWhile_eq_self_iff.mpr later
  simp [scanNumber,unsigned,first,lead,whole,scanFraction,scanExponent]

theorem read_integer_end (lead : c ≠ 48) (ascii : ∀ d ∈ c :: text, isDigit d = true)
    (within : ∀ most, p.digits = some most → (c :: text).length ≤ most) {stack : List Open} (shallow : stack.length ≤ p.depth)
    (settled : ∀ mode, settle ⟨mode,stack⟩ = ⟨mode,stack⟩) (ends : endsAtom e = true)
    (passed : pass (settle (complete (.int (digitsValue (c :: text))) stack)) e = some t) (rest : Text) :
    p.read ⟨.value,stack⟩ (c :: text ++ e :: rest) = p.read (settle t) rest := by
  obtain ⟨first,later⟩ := List.forall_mem_cons.mp ascii
  have digit : 48 ≤ c ∧ c ≤ 57 := by simpa [isDigit] using first
  have started : Loads.step ⟨.value,stack⟩ c = some ⟨.atom [c],stack⟩ := by
    have unblank : blank c = false := by simp [blank]; omega
    simp only [Loads.step,unblank]
    unfold startValue quote openList openDict comma colon closeList closeDict
    rw [if_neg (by simp),if_neg (by omega),if_neg (by omega),if_neg (by omega),if_neg (by omega)]
  have inside : ∀ d ∈ text, endsAtom d = false := by
    intro d among
    have figure : 48 ≤ d ∧ d ≤ 57 := by simpa [isDigit] using later d among
    have all : ∀ d < 58, 48 ≤ d → endsAtom d = false := by decide
    exact all d (Nat.lt_succ_of_le figure.2) figure.1
  have free : p.hooks.atom (c :: text) = none := by
    have few : p.digits.any (· < (c :: text).length) = false := by
      cases limited : p.digits with
      | none => rfl
      | some most => exact decide_eq_false (Nat.not_lt.mpr (within most limited))
    simp only [Hooks.atom,scan_digits lead ascii]
    simp [Number.integral,hooks] at few ⊢
    exact few
  have value : p.atomValue (c :: text) = some (.int (digitsValue (c :: text))) := by
    have words : ∀ word ∈ ["NaN","Infinity","-Infinity","null","true","false"], c :: text ≠ str word := by
      have heads : ∀ word ∈ ["NaN","Infinity","-Infinity","null","true","false"], ∀ d, (str word).head? = some d → isDigit d = false := by decide
      intro word inside same
      rw [heads word inside c (by rw [← same]; rfl)] at first
      cases first
    have unnamed : c :: text ∉ [str "NaN",str "Infinity",str "-Infinity"] := by
      simp only [List.mem_cons,List.not_mem_nil,or_false,not_or]
      exact ⟨words "NaN" (by decide),words "Infinity" (by decide),words "-Infinity" (by decide)⟩
    rw [atomValue,if_neg unnamed,Loads.atomValue,if_neg (words "null" (by decide)),if_neg (words "true" (by decide)),
      if_neg (words "false" (by decide)),scan_digits lead ascii]
    simp [Number.value]
  have refused : p.hooks.refuses ⟨.value,stack⟩ c = none := by
    simp only [Hooks.refuses,started]
    exact if_neg fun beyond => Nat.not_lt.mpr shallow (of_decide_eq_true beyond)
  have moved : p.step ⟨.value,stack⟩ c = some ⟨.atom [c],stack⟩ := by simp only [step,started,Option.map_some,settled]
  have whole : (text.reverse ++ [c]).reverse = c :: text := by simp
  have allowed : p.hooks.refuses ⟨.atom (text.reverse ++ [c]),stack⟩ e = none := by
    simp only [Hooks.refuses,if_pos ends,whole,free]
  have ended : p.step ⟨.atom (text.reverse ++ [c]),stack⟩ e = some (settle t) := by
    simp only [step,if_pos ends,whole,value,Option.bind_some,passed,Option.map_some]
  rw [List.cons_append,read,refused,moved]
  simp only
  rw [read_inner inside,read,allowed,ended]

end Walks

end Plain
end AgentSideCar.Loads
