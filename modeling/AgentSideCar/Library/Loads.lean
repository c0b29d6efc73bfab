import Mathlib.Algebra.GroupWithZero.Nat
import Mathlib.Data.List.Nodup

namespace AgentSideCar.Loads

-- A text is its code points; a lone surrogate of an escape is one too.
abbrev Text := List Nat
instance : LawfulBEq Text := inferInstance

def str (s : String) : Text := s.toList.map Char.toNat

-- A float is a mantissa and a power of ten.
inductive Value where
  | null
  | bool (value : Bool)
  | int (value : Int)
  | float (mantissa exponent : Int)
  | text (value : Text)
  | list (items : List Value)
  | dict (fields : List (Text × Value))

-- The open arrays and objects, innermost first, each with what it holds in reverse.
inductive Open where
  | list (items : List Value)
  | dict (fields : List (Text × Value)) (key : Text)

inductive Mode where
  -- a value must follow
  | value
  -- an array or an object has just opened
  | first
  -- a key must follow
  | key
  -- inside a key or a text, what it has in reverse
  | string (isKey : Bool) (out : Text)
  | escape (isKey : Bool) (out : Text)
  | unicode (isKey : Bool) (out digits : Text)
  -- after a key
  | colon
  -- a number or a word, in reverse
  | atom (literal : Text)
  -- after a value that an array or object holds
  | after
  -- after the whole value
  | done (value : Value)

structure State where
  mode : Mode
  stack : List Open

def blank (c : Nat) : Bool := c = 32 || c = 9 || c = 10 || c = 13

def quote : Nat := 34
def comma : Nat := 44
def colon : Nat := 58
def openList : Nat := 91
def backslash : Nat := 92
def closeList : Nat := 93
def openDict : Nat := 123
def closeDict : Nat := 125

def isDigit (c : Nat) : Bool := 48 ≤ c && c ≤ 57

def digitsValue (digits : Text) : Nat := digits.foldl (fun n c => 10 * n + (c - 48)) 0

-- A complete value goes to the innermost open array or object.
def complete (value : Value) : List Open → State
  | [] => ⟨.done value,[]⟩
  | .list items :: rest => ⟨.after,.list (value :: items) :: rest⟩
  | .dict fields key :: rest => ⟨.after,.dict ((key,value) :: fields) [] :: rest⟩

-- The longest number that begins a literal: its digits and what follows them.
structure Number where
  negative : Bool
  whole : Text
  fraction : Text
  exponent : Option (Bool × Text)
  rest : Text

def scanExponent (text : Text) : Option (Bool × Text) × Text :=
  match text with
  | e :: rest =>
    if e = 101 ∨ e = 69 then
      let (negative,rest) := match rest with
        | 45 :: rest => (true,rest)
        | 43 :: rest => (false,rest)
        | rest => (false,rest)
      let digits := rest.takeWhile isDigit
      if digits = [] then (none,text) else (some (negative,digits),rest.dropWhile isDigit)
    else (none,text)
  | [] => (none,text)

def scanFraction (text : Text) : Text × Text :=
  match text with
  | 46 :: rest =>
    let digits := rest.takeWhile isDigit
    if digits = [] then ([],text) else (digits,rest.dropWhile isDigit)
  | _ => ([],text)

def scanNumber (text : Text) : Option Number :=
  let (negative,text) := match text with
    | 45 :: rest => (true,rest)
    | text => (false,text)
  match text with
  | [] => none
  | c :: rest =>
    if isDigit c = false then none
    else
      let whole := if c = 48 then [c] else c :: rest.takeWhile isDigit
      let (fraction,rest) := scanFraction ((c :: rest).drop whole.length)
      let (exponent,rest) := scanExponent rest
      some ⟨negative,whole,fraction,exponent,rest⟩

def Number.integral (n : Number) : Bool := n.fraction = [] && n.exponent.isNone

def Number.value (n : Number) : Value :=
  let mantissa : Int := digitsValue (n.whole ++ n.fraction)
  let signed := if n.negative then -mantissa else mantissa
  match n.exponent with
  | none => if n.fraction = [] then .int signed else .float signed (-n.fraction.length)
  | some (negative,digits) =>
    .float signed ((if negative then -(digitsValue digits : Int) else digitsValue digits) - n.fraction.length)

-- NaN and Infinity are refused.
def atomValue (literal : Text) : Option Value :=
  if literal = str "null" then some .null
  else if literal = str "true" then some (.bool true)
  else if literal = str "false" then some (.bool false)
  else match scanNumber literal with
    | some n => if n.rest = [] then some n.value else none
    | none => none

def hexValue (c : Nat) : Option Nat :=
  if isDigit c then some (c - 48)
  else if 97 ≤ c ∧ c ≤ 102 then some (c - 87)
  else if 65 ≤ c ∧ c ≤ 70 then some (c - 55)
  else none

def escaped (c : Nat) : Option Nat :=
  if c = quote ∨ c = backslash ∨ c = 47 then some c
  else if c = 98 then some 8
  else if c = 102 then some 12
  else if c = 110 then some 10
  else if c = 114 then some 13
  else if c = 116 then some 9
  else none

-- A low surrogate right after a high one is a pair.
def putUnit (unit : Nat) (out : Text) : Text :=
  match out with
  | high :: rest =>
    if 55296 ≤ high ∧ high < 56320 ∧ 56320 ≤ unit ∧ unit < 57344 then
      (65536 + (high - 55296) * 1024 + (unit - 56320)) :: rest
    else unit :: out
  | [] => [unit]

def startValue (c : Nat) (stack : List Open) : Option State :=
  if c = quote then some ⟨.string false [],stack⟩
  else if c = openList then some ⟨.first,.list [] :: stack⟩
  else if c = openDict then some ⟨.first,.dict [] [] :: stack⟩
  else if c = comma ∨ c = colon ∨ c = closeList ∨ c = closeDict then none
  else some ⟨.atom [c],stack⟩

-- A duplicate key refuses its object.
def closeDictionary (fields : List (Text × Value)) (stack : List Open) : Option State :=
  if (fields.map Prod.fst).Nodup then some (complete (.dict fields.reverse) stack) else none

def afterValue (c : Nat) (stack : List Open) : Option State :=
  match stack with
  | .list items :: rest =>
    if c = comma then some ⟨.value,stack⟩
    else if c = closeList then some (complete (.list items.reverse) rest) else none
  | .dict fields _ :: rest =>
    if c = comma then some ⟨.key,stack⟩
    else if c = closeDict then closeDictionary fields rest else none
  | [] => none

def setKey (key : Text) : List Open → List Open
  | .dict fields _ :: rest => .dict fields key :: rest
  | stack => stack

def endsAtom (c : Nat) : Bool :=
  blank c || c = quote || c = comma || c = colon || c = openList || c = closeList || c = openDict || c = closeDict

-- A blank or separator after a value.
def pass (s : State) (c : Nat) : Option State :=
  if blank c then some s
  else match s.mode with
    | .after => afterValue c s.stack
    | _ => none

def step (s : State) (c : Nat) : Option State :=
  match s.mode with
  | .value => if blank c then some s else startValue c s.stack
  | .first =>
    if blank c then some s
    else match s.stack with
      | .list items :: rest => if c = closeList then some (complete (.list items.reverse) rest) else startValue c s.stack
      | .dict fields _ :: rest =>
        if c = closeDict then closeDictionary fields rest
        else if c = quote then some ⟨.string true [],s.stack⟩ else none
      | [] => none
  | .key => if blank c then some s else if c = quote then some ⟨.string true [],s.stack⟩ else none
  | .string isKey out =>
    if c = quote then
      if isKey then some ⟨.colon,setKey out.reverse s.stack⟩ else some (complete (.text out.reverse) s.stack)
    else if c = backslash then some ⟨.escape isKey out,s.stack⟩
    else if c < 32 then none
    else some ⟨.string isKey (c :: out),s.stack⟩
  | .escape isKey out =>
    if c = 117 then some ⟨.unicode isKey out [],s.stack⟩
    else (escaped c).map fun c => ⟨.string isKey (c :: out),s.stack⟩
  | .unicode isKey out digits =>
    match hexValue c with
    | none => none
    | some digit =>
      if digits.length = 3 then
        some ⟨.string isKey (putUnit ((digits ++ [digit]).foldl (fun n d => 16 * n + d) 0) out),s.stack⟩
      else some ⟨.unicode isKey out (digits ++ [digit]),s.stack⟩
  | .colon => if blank c then some s else if c = colon then some ⟨.value,s.stack⟩ else none
  | .atom literal =>
    if endsAtom c then (atomValue literal.reverse).bind fun value => pass (complete value s.stack) c
    else some ⟨.atom (c :: literal),s.stack⟩
  | .after => pass s c
  | .done _ => pass s c

def run : State → Text → Option State
  | s,[] => some s
  | s,c :: rest => (step s c).bind (run · rest)

def start : State := ⟨.value,[]⟩

-- A text is read when nothing is left open at its end.
def result (s : State) : Option Value :=
  match s.mode,s.stack with
  | .done value,[] => some value
  | .atom literal,[] => atomValue literal.reverse
  | _,_ => none

def parse (text : Text) : Option Value := (run start text).bind result


-- What an interpreter refuses beyond the grammar: a nesting, and integers by their digits.
inductive LoadsError where
  | recursion
  | integer
  | malformed
  deriving DecidableEq

structure Hooks where
  depth : Nat
  integer : Text → Option LoadsError

def Hooks.atom (h : Hooks) (literal : Text) : Option LoadsError :=
  match scanNumber literal with
  | some n => if n.integral then h.integer n.whole else none
  | none => none

def Hooks.refuses (h : Hooks) (s : State) (c : Nat) : Option LoadsError :=
  match s.mode with
  | .atom literal => if endsAtom c then h.atom literal.reverse else none
  | _ => if (step s c).any (h.depth < ·.stack.length) then some .recursion else none

def read (h : Hooks) : State → Text → Except LoadsError State
  | s,[] => .ok s
  | s,c :: rest =>
    match h.refuses s c,step s c with
    | some e,_ => .error e
    | none,none => .error .malformed
    | none,some s => read h s rest

def finish (h : Hooks) (s : State) : Except LoadsError Value :=
  match s.mode with
  | .atom literal =>
    match h.atom literal.reverse,result s with
    | some e,_ => .error e
    | none,some value => .ok value
    | none,none => .error .malformed
  | _ => (result s).elim (.error .malformed) .ok

def loads (h : Hooks) (text : Text) : Except LoadsError Value := (read h start text).bind (finish h)

-- UTF-8 as it is read: the text in reverse, and what an unfinished character still needs.
structure Decoder where
  out : Text
  need : Nat
  code : Nat
  least : Nat

-- A lead byte says how many follow.
def decodeLead (d : Decoder) (b : Nat) : Option Decoder :=
  if b < 128 then some {d with out := b :: d.out}
  else if 192 ≤ b ∧ b < 224 then some {d with need := 1,code := b - 192,least := 128}
  else if 224 ≤ b ∧ b < 240 then some {d with need := 2,code := b - 224,least := 2048}
  else if 240 ≤ b ∧ b < 248 then some {d with need := 3,code := b - 240,least := 65536}
  else none

-- The last byte of a character refuses an overlong form, a surrogate and a code out of range.
def decodeTail (d : Decoder) (code : Nat) : Option Decoder :=
  if d.need ≠ 1 then some {d with need := d.need - 1,code := code}
  else if code < d.least ∨ 55296 ≤ code ∧ code < 57344 ∨ 1114112 ≤ code then none
  else some {d with out := code :: d.out,need := 0}

def decodeByte (d : Decoder) (b : UInt8) : Option Decoder :=
  if d.need = 0 then decodeLead d b.toNat
  else if b.toNat < 128 ∨ 192 ≤ b.toNat then none
  else decodeTail d (d.code * 64 + (b.toNat - 128))

def decodeBytes : Decoder → List UInt8 → Option Decoder
  | d,[] => some d
  | d,b :: rest => (decodeByte d b).bind (decodeBytes · rest)

def decode (bytes : List UInt8) : Option Text :=
  (decodeBytes ⟨[],0,0,0⟩ bytes).bind fun d => if d.need = 0 then some d.out.reverse else none

def loadsBytes (h : Hooks) (bytes : List UInt8) : Except LoadsError Value :=
  match decode bytes with
  | some text => loads h text
  | none => .error .malformed

section Facts
variable {s t : State} {text : Text} {value : Value}

theorem run_append (s : State) (early late : Text) : run s (early ++ late) = (run s early).bind (run · late) := by
  induction early generalizing s with
  | nil => rfl
  | cons c early ih =>
    simp only [List.cons_append,run]
    cases step s c with
    | none => rfl
    | some t => exact ih t

theorem read_run {h : Hooks} (read : read h s text = .ok t) : run s text = some t := by
  induction text generalizing s with
  | nil =>
    cases read
    rfl
  | cons c rest ih =>
    rw [Loads.read] at read
    split at read
    · cases read
    · cases read
    · rename_i stepped
      rw [run,stepped]
      exact ih read

theorem finish_result {h : Hooks} (finished : finish h s = .ok value) : result s = some value := by
  unfold finish at finished
  split at finished
  · split at finished
    · cases finished
    · rename_i same
      cases finished
      exact same
    · cases finished
  · cases same : result s with
    | none => simp [same] at finished
    | some other => simpa [same] using finished

theorem loads_parse {h : Hooks} (loaded : loads h text = .ok value) : parse text = some value := by
  unfold loads at loaded
  cases whole : read h start text with
  | error e =>
    rw [whole] at loaded
    cases loaded
  | ok s =>
    rw [whole] at loaded
    rw [parse,read_run whole]
    exact finish_result loaded

theorem complete_length (value : Value) (stack : List Open) : (complete value stack).stack.length = stack.length := by
  cases stack with
  | nil => rfl
  | cons top rest => cases top <;> rfl

theorem setKey_length (key : Text) (stack : List Open) : (setKey key stack).length = stack.length := by
  unfold setKey
  split <;> rfl

def closing (c : Nat) : Nat := if c = closeList ∨ c = closeDict then 1 else 0

def Begun (s : State) : Prop := s.stack ≠ [] ∨ ∃ value, s.mode = .done value

theorem complete_begun (value : Value) (stack : List Open) : Begun (complete value stack) := by
  cases stack with
  | nil => exact .inr ⟨value,rfl⟩
  | cons top rest => cases top <;> exact .inl (List.cons_ne_nil _ _)

def Value.isDict : Value → Bool
  | .dict _ => true
  | _ => false

def Open.isDict : Open → Bool
  | .dict _ _ => true
  | .list _ => false

def Mode.isDict : Mode → Option Bool
  | .done value => some value.isDict
  | .string false _ => some false
  | .escape false _ => some false
  | .unicode false _ _ => some false
  | .atom _ => some false
  | _ => none

def root : List Open → Option Bool
  | [] => none
  | top :: rest => (root rest).or (some top.isDict)

-- Whether the whole value is an object, once its first character is read.
def kind (s : State) : Option Bool := (root s.stack).or s.mode.isDict

theorem kind_complete (value : Value) (stack : List Open) :
    kind (complete value stack) = (root stack).or (some value.isDict) := by
  cases stack with
  | nil => rfl
  | cons top rest => cases top <;> simp [complete,kind,root,Open.isDict]

theorem root_setKey (key : Text) (stack : List Open) : root (setKey key stack) = root stack := by
  unfold setKey
  split <;> rfl

-- Only a bracket closes an array or an object, and it closes one; what has begun stays so,
-- and an object stays an object.
structure Leads (c : Nat) (s t : State) : Prop where
  level : s.stack.length ≤ t.stack.length + closing c
  begun : Begun s → Begun t
  kind : ∀ object, kind s = some object → kind t = some object

theorem Leads.stays : Leads c s s := ⟨Nat.le_add_right _ _,id,fun _ same => same⟩

def Mode.alive : Mode → Bool
  | .done _ => false
  | _ => true

theorem Begun.opened (begun : Begun s) (alive : s.mode.alive = true) : s.stack ≠ [] := by
  rcases begun with opened | ⟨value,ended⟩
  · exact opened
  · rw [ended] at alive
    cases alive

theorem Leads.turns (alive : s.mode.alive = true) (mode : Mode) (fits : s.mode.isDict = none ∨ mode.isDict = s.mode.isDict) :
    Leads c s ⟨mode,s.stack⟩ := by
  refine ⟨Nat.le_add_right _ _,fun begun => .inl (begun.opened alive),fun object same => ?_⟩
  rw [Loads.kind] at same ⊢
  rcases fits with none | fits
  · rw [none,Option.or_none] at same
    rw [same,Option.some_or]
  · rw [fits,same]

theorem Leads.opens (unrooted : s.mode.isDict = none) (top : Open) :
    Leads c s ⟨.first,top :: s.stack⟩ := by
  refine ⟨Nat.le_add_right_of_le (Nat.le_succ _),fun _ => .inl (List.cons_ne_nil _ _),fun object same => ?_⟩
  rw [Loads.kind,unrooted,Option.or_none] at same
  rw [Loads.kind,root,same,Option.some_or,Option.some_or]

theorem Leads.keys (alive : s.mode.alive = true) (unrooted : s.mode.isDict = none) (key : Text) :
    Leads c s ⟨.colon,setKey key s.stack⟩ := by
  refine ⟨Nat.le_add_right_of_le (Nat.le_of_eq (setKey_length ..).symm),fun begun => .inl ?_,fun object same => ?_⟩
  · exact List.ne_nil_of_length_pos (by rw [setKey_length]; exact List.length_pos_iff.mpr (begun.opened alive))
  · rw [Loads.kind,unrooted,Option.or_none] at same
    rw [Loads.kind,root_setKey,same,Option.some_or]

theorem Leads.fills (value : Value) (kept : s.mode.isDict = some value.isDict) : Leads c s (complete value s.stack) := by
  refine ⟨?_,fun _ => complete_begun value s.stack,fun object same => ?_⟩
  · rw [complete_length]
    exact Nat.le_add_right _ _
  · rw [kind_complete,← kept]
    exact same

theorem Leads.closes (value : Value) (same : s.stack = top :: rest) (kept : value.isDict = top.isDict)
    (closed : c = closeList ∨ c = closeDict) : Leads c s (complete value rest) := by
  refine ⟨?_,fun _ => complete_begun value rest,fun object whole => ?_⟩
  · rw [complete_length,same,closing,if_pos closed]
    exact Nat.le_refl _
  · rw [kind_complete,kept]
    rwa [Loads.kind,same,root,Option.or_assoc,Option.some_or] at whole

theorem startValue_leads (alive : s.mode.alive = true) (unrooted : s.mode.isDict = none)
    (stepped : startValue c s.stack = some t) : Leads c s t := by
  unfold startValue at stepped
  split at stepped
  · cases stepped
    exact .turns alive _ (.inl unrooted)
  · split at stepped
    · cases stepped
      exact .opens unrooted _
    · split at stepped
      · cases stepped
        exact .opens unrooted _
      · split at stepped
        · cases stepped
        · cases stepped
          exact .turns alive _ (.inl unrooted)

theorem closeDictionary_leads (closed : closeDictionary fields rest = some t) (same : s.stack = .dict fields key :: rest)
    (bracket : c = closeDict) : Leads c s t := by
  unfold closeDictionary at closed
  split at closed
  · cases closed
    exact .closes _ same rfl (.inr bracket)
  · cases closed

theorem pass_leads (passed : pass s c = some t) : Leads c s t := by
  unfold pass at passed
  split at passed
  · cases passed
    exact .stays
  · split at passed
    · rename_i mode
      have alive : s.mode.alive = true := by rw [mode]; rfl
      have unrooted : s.mode.isDict = none := by rw [mode]; rfl
      unfold afterValue at passed
      split at passed
      · rename_i same
        split at passed
        · cases passed
          exact .turns alive _ (.inl unrooted)
        · split at passed
          · rename_i closed
            cases passed
            exact .closes _ same rfl (.inl closed)
          · cases passed
      · rename_i same
        split at passed
        · cases passed
          exact .turns alive _ (.inl unrooted)
        · split at passed
          · rename_i closed
            exact closeDictionary_leads passed same closed
          · cases passed
      · cases passed
    · cases passed

theorem atomValue_scalar (read : atomValue literal = some value) : value.isDict = false := by
  unfold atomValue at read
  split at read
  · cases read
    rfl
  · split at read
    · cases read
      rfl
    · split at read
      · cases read
        rfl
      · split at read
        · split at read
          · cases read
            unfold Number.value
            dsimp only
            split
            · split <;> rfl
            · rfl
          · cases read
        · cases read

theorem Leads.trans_pass (first : Leads c s u) (steady : s.stack.length ≤ u.stack.length) (second : Leads c u t) : Leads c s t :=
  ⟨Nat.le_trans steady second.level,fun begun => second.begun (first.begun begun),
    fun object same => second.kind object (first.kind object same)⟩

theorem step_leads (stepped : step s c = some t) : Leads c s t := by
  unfold step at stepped
  split at stepped
  · rename_i mode
    split at stepped
    · cases stepped
      exact .stays
    · exact startValue_leads (by rw [mode]; rfl) (by rw [mode]; rfl) stepped
  · rename_i mode
    split at stepped
    · cases stepped
      exact .stays
    · split at stepped
      · rename_i same
        split at stepped
        · rename_i closed
          cases stepped
          exact .closes _ same rfl (.inl closed)
        · exact startValue_leads (by rw [mode]; rfl) (by rw [mode]; rfl) stepped
      · rename_i same
        split at stepped
        · rename_i closed
          exact closeDictionary_leads stepped same closed
        · split at stepped
          · cases stepped
            exact .turns (by rw [mode]; rfl) _ (.inl (by rw [mode]; rfl))
          · cases stepped
      · cases stepped
  · rename_i mode
    split at stepped
    · cases stepped
      exact .stays
    · split at stepped
      · cases stepped
        exact .turns (by rw [mode]; rfl) _ (.inl (by rw [mode]; rfl))
      · cases stepped
  · rename_i isKey out mode
    split at stepped
    · split at stepped
      · rename_i key
        cases stepped
        exact .keys (by rw [mode]; rfl) (by rw [mode,key]; rfl) _
      · rename_i text
        cases stepped
        exact .fills _ (by rw [mode,Bool.not_eq_true _ |>.mp text]; rfl)
    · split at stepped
      · cases stepped
        exact .turns (by rw [mode]; rfl) _ (.inr (by rw [mode]; cases isKey <;> rfl))
      · split at stepped
        · cases stepped
        · cases stepped
          exact .turns (by rw [mode]; rfl) _ (.inr (by rw [mode]; cases isKey <;> rfl))
  · rename_i isKey out mode
    split at stepped
    · cases stepped
      exact .turns (by rw [mode]; rfl) _ (.inr (by rw [mode]; cases isKey <;> rfl))
    · obtain ⟨_,_,rfl⟩ := Option.map_eq_some_iff.mp stepped
      exact .turns (by rw [mode]; rfl) _ (.inr (by rw [mode]; cases isKey <;> rfl))
  · rename_i isKey out digits mode
    split at stepped
    · cases stepped
    · split at stepped
      · cases stepped
        exact .turns (by rw [mode]; rfl) _ (.inr (by rw [mode]; cases isKey <;> rfl))
      · cases stepped
        exact .turns (by rw [mode]; rfl) _ (.inr (by rw [mode]; cases isKey <;> rfl))
  · rename_i mode
    split at stepped
    · cases stepped
      exact .stays
    · split at stepped
      · cases stepped
        exact .turns (by rw [mode]; rfl) _ (.inl (by rw [mode]; rfl))
      · cases stepped
  · rename_i mode
    split at stepped
    · obtain ⟨value,read,passed⟩ := Option.bind_eq_some_iff.mp stepped
      have filled : Leads c s (complete value s.stack) := .fills value (by rw [mode,atomValue_scalar read]; rfl)
      exact filled.trans_pass (Nat.le_of_eq (complete_length ..).symm) (pass_leads passed)
    · cases stepped
      exact .turns (by rw [mode]; rfl) _ (.inr (by rw [mode]; rfl))
  · exact pass_leads stepped
  · exact pass_leads stepped

theorem run_kind (ran : run s text = some t) (same : kind s = some object) : kind t = some object := by
  induction text generalizing s with
  | nil =>
    cases ran
    exact same
  | cons c rest ih =>
    obtain ⟨u,stepped,later⟩ := Option.bind_eq_some_iff.mp ran
    exact ih later ((step_leads stepped).kind object same)

theorem run_level (ran : run s text = some t) : s.stack.length ≤ t.stack.length + (text.map closing).sum := by
  induction text generalizing s with
  | nil =>
    cases ran
    exact Nat.le_add_right _ _
  | cons c rest ih =>
    obtain ⟨u,stepped,later⟩ := Option.bind_eq_some_iff.mp ran
    have := (step_leads stepped).level
    have := ih later
    rw [List.map_cons,List.sum_cons]
    omega

theorem run_begun (ran : run s text = some t) (begun : Begun s) : Begun t := by
  induction text generalizing s with
  | nil =>
    cases ran
    exact begun
  | cons c rest ih =>
    obtain ⟨u,stepped,later⟩ := Option.bind_eq_some_iff.mp ran
    exact ih later ((step_leads stepped).begun begun)

theorem result_closed (read : result s = some value) : s.stack = [] := by
  unfold result at read
  split at read
  · rename_i empty
    exact empty
  · rename_i empty
    exact empty
  · cases read

theorem result_kind (read : result s = some value) : kind s = some value.isDict := by
  unfold result at read
  split at read
  · rename_i mode empty
    cases read
    rw [kind,mode,empty]
    rfl
  · rename_i mode empty
    rw [kind,mode,empty,atomValue_scalar read]
    rfl
  · cases read

theorem parse_brace (parsed : parse (c :: text) = some (.dict fields)) (solid : blank c = false) : c = openDict := by
  obtain ⟨s,ran,read⟩ := Option.bind_eq_some_iff.mp parsed
  obtain ⟨t,stepped,later⟩ := Option.bind_eq_some_iff.mp ran
  simp only [step,start,solid,Bool.false_eq_true,if_false,startValue] at stepped
  have object := result_kind read
  split at stepped
  · cases stepped
    cases (run_kind later (rfl : kind _ = some false)).symm.trans object
  · split at stepped
    · cases stepped
      cases (run_kind later (rfl : kind _ = some false)).symm.trans object
    · split at stepped
      · assumption
      · split at stepped
        · cases stepped
        · cases stepped
          cases (run_kind later (rfl : kind _ = some false)).symm.trans object

theorem startValue_brace (stack : List Open) : startValue openDict stack = some ⟨.first,.dict [] [] :: stack⟩ := rfl

theorem pass_solid (s : State) (solid : blank c = false) (separates : c ≠ comma ∧ c ≠ closeList ∧ c ≠ closeDict) :
    pass s c = none := by
  unfold pass
  rw [solid,if_neg Bool.false_ne_true]
  split
  · unfold afterValue
    split
    · rw [if_neg separates.1,if_neg separates.2.1]
    · rw [if_neg separates.1,if_neg separates.2.2]
    · rfl
  · rfl

theorem step_brace (stepped : step s openDict = some t) :
    t.stack.length = s.stack.length + 1 ∨ ∃ isKey out, t.mode = .string isKey out := by
  have passes (s : State) : pass s openDict = none := pass_solid s rfl (by decide)
  unfold step at stepped
  split at stepped
  · rw [if_neg (by decide),startValue_brace] at stepped
    cases stepped
    exact .inl rfl
  · rw [if_neg (by decide)] at stepped
    split at stepped
    · rw [if_neg (by decide),startValue_brace] at stepped
      cases stepped
      exact .inl rfl
    · rw [if_neg (by decide),if_neg (by decide)] at stepped
      cases stepped
    · cases stepped
  · rw [if_neg (by decide),if_neg (by decide)] at stepped
    cases stepped
  · rw [if_neg (by decide),if_neg (by decide),if_neg (by decide)] at stepped
    cases stepped
    exact .inr ⟨_,_,rfl⟩
  · rw [if_neg (by decide)] at stepped
    cases stepped
  · cases stepped
  · rw [if_neg (by decide),if_neg (by decide)] at stepped
    cases stepped
  · rw [if_pos (by decide)] at stepped
    obtain ⟨value,_,passed⟩ := Option.bind_eq_some_iff.mp stepped
    rw [passes] at passed
    cases passed
  · rw [passes] at stepped
    cases stepped
  · rw [passes] at stepped
    cases stepped

theorem step_complete (value : Value) (stack : List Open) (c : Nat) :
    step (complete value stack) c = pass (complete value stack) c := by
  cases stack with
  | nil => rfl
  | cons top rest => cases top <;> rfl

theorem string_ends (string : s.mode = .string isKey out) (c : Nat) (letter : blank c = false)
    (separates : c ≠ comma ∧ c ≠ closeList ∧ c ≠ closeDict ∧ c ≠ colon) : run s [quote,c] = none := by
  have closes : run s [quote,c] = if isKey then step ⟨.colon,setKey out.reverse s.stack⟩ c
      else step (complete (.text out.reverse) s.stack) c := by
    rw [run,step,string]
    simp only [if_true]
    cases isKey <;> simp [run]
  rw [closes]
  split
  · simp [step,letter,separates]
  · have passes := fun s => pass_solid s letter ⟨separates.1,separates.2.1,separates.2.2.1⟩
    rw [step_complete,passes]

theorem open_unread (level : (text.map closing).sum < s.stack.length) : (run s text).bind result = none := by
  cases ran : run s text with
  | none => rfl
  | some t =>
    cases read : result t with
    | none => exact read
    | some value =>
      have deep := run_level ran
      rw [result_closed read,List.length_nil] at deep
      omega

theorem spliced_unread {more : Text} (begun : Begun s) (some_text : more ≠ [])
    (within : more <+: (openDict :: quote :: c :: middle) ++ [closeDict]) (letter : blank c = false)
    (separates : c ≠ comma ∧ c ≠ closeList ∧ c ≠ closeDict ∧ c ≠ colon) (plain : (middle.map closing).sum = 0) :
    (run s more).bind result = none := by
  have other : closing c = 0 := if_neg fun closes => closes.elim separates.2.1 separates.2.2.1
  obtain ⟨first,later,rfl⟩ := List.exists_cons_of_ne_nil some_text
  have brace : first = openDict := by
    have := within.head (List.cons_ne_nil _ _)
    simpa using this
  subst brace
  cases stepped : step s openDict with
  | none => simp [run,stepped]
  | some t =>
    have opened : 0 < s.stack.length := by
      rcases begun with opened | ⟨value,ended⟩
      · exact List.length_pos_iff.mpr opened
      · rw [step,ended] at stepped
        rw [show pass s openDict = none from pass_solid s rfl (by decide)] at stepped
        cases stepped
    rcases List.prefix_concat_iff.mp within with whole | part
    · obtain rfl : later = [quote,c] ++ (middle ++ [closeDict]) := (List.cons.inj whole).2
      rw [run,stepped,Option.bind_some]
      rcases step_brace stepped with pushed | ⟨isKey,out,string⟩
      · apply open_unread
        rw [List.map_append,List.map_append,List.sum_append,List.sum_append,plain,pushed]
        simp only [List.map_cons,List.map_nil,List.sum_cons,List.sum_nil,other]
        have : closing quote = 0 := rfl
        have : closing closeDict = 1 := rfl
        omega
      · rw [run_append,string_ends string c letter separates]
        rfl
    · apply open_unread
      obtain ⟨rest,same⟩ := part
      have sums := congrArg (fun text => (text.map closing).sum) same
      simp only [List.cons_append,List.map_cons,List.map_append,List.sum_cons,List.sum_append,plain,other] at sums
      have : closing quote = 0 := rfl
      have : closing openDict = 0 := rfl
      simp only [List.map_cons,List.sum_cons]
      omega

theorem begun_done (begun : Begun s) (read : result s = some value) : s = ⟨.done value,[]⟩ := by
  have closed := result_closed read
  rcases begun with opened | ⟨other,ended⟩
  · exact absurd closed opened
  · obtain ⟨mode,stack⟩ := s
    subst closed ended
    cases read
    rfl

theorem done_run (ran : run ⟨.done value,[]⟩ text = some t) : t = ⟨.done value,[]⟩ := by
  induction text with
  | nil =>
    cases ran
    rfl
  | cons c rest ih =>
    obtain ⟨u,stepped,later⟩ := Option.bind_eq_some_iff.mp ran
    simp only [step,pass] at stepped
    split at stepped
    · cases stepped
      exact ih later
    · cases stepped

theorem begun_parse (begun : Begun s) (whole : (run s text).bind result = some value) :
    result s = none ∨ result s = some value := by
  cases read : result s with
  | none => exact .inl rfl
  | some other =>
    have ended := begun_done begun read
    subst ended
    obtain ⟨t,ran,finished⟩ := Option.bind_eq_some_iff.mp whole
    rw [done_run ran,read] at finished
    exact .inr finished

theorem brace_begun (text : Text) (ran : run start (openDict :: text) = some s) : Begun s :=
  run_begun (s := ⟨.first,[.dict [] []]⟩) ran (.inl (List.cons_ne_nil _ _))

end Facts

def parseBytes (bytes : List UInt8) : Option Value := (decode bytes).bind parse

theorem loadsBytes_parse {h : Hooks} (loaded : loadsBytes h bytes = .ok value) : parseBytes bytes = some value := by
  unfold loadsBytes at loaded
  split at loaded
  · rename_i decoded
    rw [parseBytes,decoded]
    exact loads_parse loaded
  · cases loaded

theorem decodeBytes_append (d : Decoder) (early late : List UInt8) :
    decodeBytes d (early ++ late) = (decodeBytes d early).bind (decodeBytes · late) := by
  induction early generalizing d with
  | nil => rfl
  | cons b early ih =>
    simp only [List.cons_append,decodeBytes]
    cases decodeByte d b with
    | none => rfl
    | some e => exact ih e

theorem decodeLead_out (decoded : decodeLead d b = some e) : ∃ more, e.out = more ++ d.out := by
  unfold decodeLead at decoded
  split at decoded
  · cases decoded
    exact ⟨[_],rfl⟩
  · split at decoded
    · cases decoded
      exact ⟨[],rfl⟩
    · split at decoded
      · cases decoded
        exact ⟨[],rfl⟩
      · split at decoded
        · cases decoded
          exact ⟨[],rfl⟩
        · cases decoded

theorem decodeTail_out (decoded : decodeTail d code = some e) : ∃ more, e.out = more ++ d.out := by
  unfold decodeTail at decoded
  split at decoded
  · cases decoded
    exact ⟨[],rfl⟩
  · split at decoded
    · cases decoded
    · cases decoded
      exact ⟨[_],rfl⟩

theorem decodeByte_out (decoded : decodeByte d b = some e) : ∃ more, e.out = more ++ d.out := by
  unfold decodeByte at decoded
  split at decoded
  · exact decodeLead_out decoded
  · split at decoded
    · cases decoded
    · exact decodeTail_out decoded

theorem decodeBytes_out (decoded : decodeBytes d bytes = some e) : ∃ more, e.out = more ++ d.out := by
  induction bytes generalizing d with
  | nil =>
    cases decoded
    exact ⟨[],rfl⟩
  | cons b rest ih =>
    obtain ⟨c,first,later⟩ := Option.bind_eq_some_iff.mp decoded
    obtain ⟨early,same⟩ := decodeByte_out first
    obtain ⟨late,whole⟩ := ih later
    exact ⟨late ++ early,by rw [whole,same,List.append_assoc]⟩

def Ascii (bytes : List UInt8) : Prop := ∀ b ∈ bytes, b.toNat < 128

instance (bytes : List UInt8) : Decidable (Ascii bytes) :=
  show Decidable (∀ b ∈ bytes, b.toNat < 128) from List.decidableBAll (fun b : UInt8 => b.toNat < 128) bytes

theorem decodeBytes_ascii (ascii : Ascii bytes) (d : Decoder) (between : d.need = 0) :
    decodeBytes d bytes = some {d with out := (bytes.map UInt8.toNat).reverse ++ d.out} := by
  induction bytes generalizing d with
  | nil => rfl
  | cons b rest ih =>
    have small := ascii b List.mem_cons_self
    have byte : decodeByte d b = some {d with out := b.toNat :: d.out} := by
      rw [decodeByte,if_pos between,decodeLead,if_pos small]
    rw [decodeBytes,byte,Option.bind_some,ih (fun c inside => ascii c (List.mem_cons_of_mem _ inside)) {d with out := b.toNat :: d.out} between]
    simp

theorem decode_append (ascii : Ascii late) (decoded : decode (early ++ late) = some text) :
    ∃ before, decode early = some before ∧ text = before ++ late.map UInt8.toNat := by
  rw [decode,decodeBytes_append] at decoded
  rw [decode]
  cases first : decodeBytes ⟨[],0,0,0⟩ early with
  | none =>
    rw [first] at decoded
    cases decoded
  | some d =>
    rw [first,Option.bind_some] at decoded
    rw [Option.bind_some]
    by_cases between : d.need = 0
    · rw [decodeBytes_ascii ascii d between,Option.bind_some,if_pos between] at decoded
      cases decoded
      exact ⟨_,if_pos between,by simp⟩
    · cases late with
      | nil =>
        simp only [decodeBytes,Option.bind_some,if_neg between] at decoded
        cases decoded
      | cons b rest =>
        have stuck : decodeByte d b = none := by
          rw [decodeByte,if_neg between,if_pos (.inl (ascii b List.mem_cons_self))]
        rw [decodeBytes,stuck] at decoded
        cases decoded

theorem decode_begins (first : decode early = some before) (decoded : decode (early ++ late) = some text) : before <+: text := by
  rw [decode] at first decoded
  rw [decodeBytes_append] at decoded
  obtain ⟨d,begun,ended⟩ := Option.bind_eq_some_iff.mp first
  rw [begun,Option.bind_some] at decoded
  obtain ⟨e,later,last⟩ := Option.bind_eq_some_iff.mp decoded
  obtain ⟨more,same⟩ := decodeBytes_out later
  split at ended
  · split at last
    · cases ended
      cases last
      rw [same,List.reverse_append]
      exact List.prefix_append _ _
    · cases last
  · cases ended

theorem decode_brace (decoded : decode (123 :: bytes) = some text) : ∃ rest, text = openDict :: rest := by
  have first : decode [123] = some [openDict] := rfl
  obtain ⟨rest,same⟩ := decode_begins first (decoded : decode ([123] ++ bytes) = some text)
  exact ⟨rest,same.symm⟩

theorem parseBytes_beginning (whole : parseBytes (123 :: early ++ late) = some value) :
    parseBytes (123 :: early) = none ∨ parseBytes (123 :: early) = some value := by
  obtain ⟨text,decoded,parsed⟩ := Option.bind_eq_some_iff.mp whole
  rw [parseBytes]
  cases first : decode (123 :: early) with
  | none => exact .inl rfl
  | some before =>
    obtain ⟨rest,brace⟩ := decode_brace first
    obtain ⟨after,rfl⟩ := decode_begins first decoded
    rw [parse,run_append,Option.bind_assoc] at parsed
    rw [Option.bind_some,parse]
    cases ran : run start before with
    | none => exact .inl rfl
    | some s =>
      rw [ran,Option.bind_some] at parsed
      rw [Option.bind_some]
      rw [brace] at ran
      exact begun_parse (brace_begun rest ran) parsed

-- What an object's bytes begin is not read when another object follows, cut anywhere.
theorem parseBytes_spliced {more : List UInt8} (some_bytes : more ≠ []) (ascii : Ascii more)
    (within : more.map UInt8.toNat <+: (openDict :: quote :: c :: middle) ++ [closeDict]) (letter : blank c = false)
    (separates : c ≠ comma ∧ c ≠ closeList ∧ c ≠ closeDict ∧ c ≠ colon) (plain : (middle.map closing).sum = 0) :
    parseBytes (123 :: early ++ more) = none := by
  rw [parseBytes]
  cases decoded : decode (123 :: early ++ more) with
  | none => rfl
  | some text =>
    obtain ⟨before,first,rfl⟩ := decode_append ascii decoded
    obtain ⟨rest,brace⟩ := decode_brace first
    rw [Option.bind_some,parse,run_append]
    cases ran : run start before with
    | none => rfl
    | some s =>
      rw [brace] at ran
      rw [Option.bind_some]
      exact spliced_unread (brace_begun rest ran) (by simpa using some_bytes) within letter separates plain

-- A text whose first byte is no ASCII begins with no ASCII.
def Wide (d : Decoder) : Prop :=
  d.out = [] ∧ d.need ≠ 0 ∧ 128 ≤ d.least ∨ ∃ early first, d.out = early ++ [first] ∧ 128 ≤ first

theorem decodeByte_wide (wide : Wide d) (decoded : decodeByte d b = some e) : Wide e := by
  rcases wide with ⟨empty,needs,least⟩ | ⟨early,first,same,large⟩
  · rw [decodeByte,if_neg needs] at decoded
    split at decoded
    · cases decoded
    · unfold decodeTail at decoded
      split at decoded
      · rename_i several
        cases decoded
        exact .inl ⟨empty,by simp only; omega,least⟩
      · split at decoded
        · cases decoded
        · rename_i fits
          cases decoded
          refine .inr ⟨[],_,by rw [empty]; rfl,?_⟩
          omega
  · obtain ⟨more,whole⟩ := decodeByte_out decoded
    exact .inr ⟨more ++ early,first,by rw [whole,same,List.append_assoc],large⟩

theorem decodeBytes_wide (wide : Wide d) (decoded : decodeBytes d bytes = some e) : Wide e := by
  induction bytes generalizing d with
  | nil =>
    cases decoded
    exact wide
  | cons b rest ih =>
    obtain ⟨c,first,later⟩ := Option.bind_eq_some_iff.mp decoded
    exact ih (decodeByte_wide wide first) later

theorem decodeLead_wide (large : ¬b.toNat < 128) (decoded : decodeByte ⟨[],0,0,0⟩ b = some d) : Wide d := by
  rw [decodeByte,if_pos rfl,decodeLead,if_neg large] at decoded
  split at decoded
  · cases decoded
    exact .inl ⟨rfl,by simp,by simp⟩
  · split at decoded
    · cases decoded
      exact .inl ⟨rfl,by simp,by simp⟩
    · split at decoded
      · cases decoded
        exact .inl ⟨rfl,by simp,by simp⟩
      · cases decoded

theorem decode_head (decoded : decode (b :: bytes) = some (c :: text)) (small : c < 128) : b.toNat = c := by
  by_cases ascii : b.toNat < 128
  · have single : decode [b] = some [b.toNat] := by
      simp [decode,decodeBytes,decodeByte,decodeLead,ascii]
    obtain ⟨rest,same⟩ := decode_begins single (decoded : decode ([b] ++ bytes) = some (c :: text))
    exact (List.cons.inj same).1
  · obtain ⟨e,whole,last⟩ := Option.bind_eq_some_iff.mp decoded
    obtain ⟨d,first,later⟩ := Option.bind_eq_some_iff.mp whole
    split at last
    · rename_i between
      rcases decodeBytes_wide (decodeLead_wide ascii first) later with ⟨_,needs,_⟩ | ⟨early,code,same,large⟩
      · exact absurd between needs
      · rw [same,List.reverse_append] at last
        have : code = c := (List.cons.inj (Option.some.inj last)).1
        omega
    · cases last

theorem parseBytes_brace (parsed : parseBytes (b :: bytes) = some (.dict fields)) (solid : blank b.toNat = false) : b = 123 := by
  obtain ⟨text,decoded,read⟩ := Option.bind_eq_some_iff.mp parsed
  cases text with
  | nil => cases read
  | cons c text =>
    have solid' : blank c = false := by
      cases white : blank c with
      | false => rfl
      | true =>
        have small : c < 128 := by
          simp only [blank,Bool.or_eq_true,decide_eq_true_eq] at white
          omega
        rw [decode_head decoded small,white] at solid
        cases solid
    have brace := parse_brace read solid'
    subst brace
    have same := decode_head decoded (by decide)
    exact UInt8.toNat_inj.mp same

end AgentSideCar.Loads
