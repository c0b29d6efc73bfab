import AgentSideCar.Library.Digits
import Mathlib.Data.List.Nodup
import Mathlib.Data.List.TakeWhile

namespace AgentSideCar.Json

-- The digits after a decimal point.
def Places : Type := {digits : List Char // digits ≠ [] ∧ digits.all Char.isDigit = true}

instance : DecidableEq Places := inferInstanceAs (DecidableEq (Subtype _))

-- A float is its decimal literal. Literals with an exponent are not read.
inductive Scalar where
  | null
  | bool (value : Bool)
  | int (value : Int)
  | float (negative : Bool) (whole : Nat) (places : Places)
  | text (value : String)
deriving DecidableEq

abbrev Fields := List (String × Scalar)

def hexDigit (n : Nat) : Char := (Nat.toDigits 16 n).headD '0'

def unicodeEscape (unit : Nat) : List Char :=
  ['\\','u',hexDigit (unit / 4096 % 16),hexDigit (unit / 256 % 16),hexDigit (unit / 16 % 16),hexDigit (unit % 16)]

-- ensure_ascii: a character outside the printable ASCII range is written as UTF-16 units.
def escape (c : Char) : List Char :=
  if c = '"' then ['\\','"']
  else if c = '\\' then ['\\','\\']
  else if c = '\n' then ['\\','n']
  else if c = '\r' then ['\\','r']
  else if c = '\t' then ['\\','t']
  else if c.toNat = 8 then ['\\','b']
  else if c.toNat = 12 then ['\\','f']
  else if 32 ≤ c.toNat ∧ c.toNat < 127 then [c]
  else if c.toNat < 65536 then unicodeEscape c.toNat
  else unicodeEscape (55296 + (c.toNat - 65536) / 1024) ++ unicodeEscape (56320 + (c.toNat - 65536) % 1024)

def quote (s : String) : List Char := '"' :: (s.toList.flatMap escape ++ ['"'])

def Scalar.dumps : Scalar → List Char
  | .null => ['n','u','l','l']
  | .bool true => ['t','r','u','e']
  | .bool false => ['f','a','l','s','e']
  | .int n => Digits.signed n
  | .float negative whole places => (if negative then ['-'] else []) ++ Digits.digits whole ++ '.' :: places.val
  | .text s => quote s

def member (field : String × Scalar) : List Char := quote field.1 ++ ':' :: field.2.dumps

def members : Fields → List Char
  | [] => []
  | [field] => member field
  | field :: next :: rest => member field ++ ',' :: members (next :: rest)

def dumps (fields : Fields) : List Char := '{' :: (members fields ++ ['}'])

def blank (c : Char) : Bool := c == ' ' || c == '\t' || c == '\n' || c == '\r'

def skip (s : List Char) : List Char := s.dropWhile blank

def hexValue (c : Char) : Option Nat :=
  if c.isDigit then some (c.toNat - 48)
  else if 'a' ≤ c ∧ c ≤ 'f' then some (c.toNat - 87)
  else if 'A' ≤ c ∧ c ≤ 'F' then some (c.toNat - 55)
  else none

def escaped (c : Char) : Option Char :=
  if c = '"' ∨ c = '\\' ∨ c = '/' then some c
  else if c = 'b' then some (Char.ofNat 8)
  else if c = 'f' then some (Char.ofNat 12)
  else if c = 'n' then some '\n'
  else if c = 'r' then some '\r'
  else if c = 't' then some '\t'
  else none

-- What follows an opening quote. A surrogate unit is read as the NUL character.
def scanText : List Char → Option (List Char × List Char)
  | [] => none
  | '\\' :: 'u' :: a :: b :: c :: d :: rest => do
    let unit := (← hexValue a) * 4096 + (← hexValue b) * 256 + (← hexValue c) * 16 + (← hexValue d)
    let (s,rest) ← scanText rest
    some (Char.ofNat unit :: s,rest)
  | '\\' :: c :: rest => do
    let c ← escaped c
    let (s,rest) ← scanText rest
    some (c :: s,rest)
  | c :: rest =>
    if c = '"' then some ([],rest)
    else if c = '\\' ∨ c.toNat < 32 then none
    else do
      let (s,rest) ← scanText rest
      some (c :: s,rest)

def scanUnsigned (negative : Bool) (s : List Char) : Option (Scalar × List Char) :=
  let digits := s.takeWhile Char.isDigit
  let whole := Nat.ofDigitChars 10 digits 0
  if digits = [] ∨ (digits.head? = some '0' ∧ digits.length ≠ 1) then none
  else match s.dropWhile Char.isDigit with
    | '.' :: rest =>
      let places := rest.takeWhile Char.isDigit
      if written : places ≠ [] ∧ places.all Char.isDigit = true then
        some (.float negative whole ⟨places,written⟩,rest.dropWhile Char.isDigit)
      else none
    | rest => some (.int (if negative then -whole else whole),rest)

def scanScalar : List Char → Option (Scalar × List Char)
  | 'n' :: 'u' :: 'l' :: 'l' :: rest => some (.null,rest)
  | 't' :: 'r' :: 'u' :: 'e' :: rest => some (.bool true,rest)
  | 'f' :: 'a' :: 'l' :: 's' :: 'e' :: rest => some (.bool false,rest)
  | '"' :: rest => (scanText rest).map fun (s,rest) => (.text (String.ofList s),rest)
  | '-' :: rest => scanUnsigned true rest
  | s => scanUnsigned false s

def scanMembers : Nat → List Char → Option (Fields × List Char)
  | 0,_ => none
  | fuel + 1,s =>
    match skip s with
    | '"' :: rest => do
      let (key,rest) ← scanText rest
      match skip rest with
      | ':' :: rest => do
        let (value,rest) ← scanScalar (skip rest)
        match skip rest with
        | ',' :: rest => do
          let (fields,rest) ← scanMembers fuel rest
          some ((String.ofList key,value) :: fields,rest)
        | '}' :: rest => some ([(String.ofList key,value)],rest)
        | _ => none
      | _ => none
    | _ => none

-- One flat object, and nothing after it. A duplicate key refuses the whole text.
def loads (s : List Char) : Option Fields :=
  match skip s with
  | '{' :: rest =>
    match skip rest with
    | '}' :: rest => if skip rest = [] then some [] else none
    | _ =>
      match scanMembers s.length rest with
      | some (fields,rest) => if skip rest = [] ∧ (fields.map Prod.fst).Nodup then some fields else none
      | none => none
  | _ => none

-- Printable ASCII with neither a quote nor a backslash is written as it is.
def plain (c : Char) : Bool := 32 ≤ c.toNat && c.toNat < 127 && c != '"' && c != '\\'

def Plain (s : String) : Prop := ∀ c ∈ s.toList, plain c = true

instance (s : String) : Decidable (Plain s) := decidable_of_iff (s.toList.all plain = true) List.all_eq_true

def Scalar.Plain : Scalar → Prop
  | .text s => Json.Plain s
  | _ => True

theorem alphanum_cases (c : Char) : c.isAlphanum = (c.isUpper || c.isLower || c.isDigit) := rfl

theorem upper_between (c : Char) : c.isUpper = decide ('A'.val ≤ c.val ∧ c.val ≤ 'Z'.val) := rfl

theorem lower_between (c : Char) : c.isLower = (decide ('a'.val ≤ c.val) && decide (c.val ≤ 'z'.val)) := rfl

theorem alphanum_plain (fits : c.isAlphanum = true) : plain c = true := by
  simp only [alphanum_cases,upper_between,lower_between,Char.isDigit,Bool.or_eq_true,Bool.and_eq_true,
    decide_eq_true_eq,UInt32.le_iff_toNat_le] at fits
  have value : c.val.toNat = c.toNat := rfl
  have quoted : c ≠ '"' := by rintro rfl; simp at fits
  have slash : c ≠ '\\' := by rintro rfl; simp at fits
  simp only [value] at fits
  simp only [plain,Bool.and_eq_true,decide_eq_true_eq,bne_iff_ne,ne_eq,quoted,slash,not_false_eq_true,and_true]
  constructor <;> (simp at fits; omega)

theorem plain_escape (fits : plain c = true) : escape c = [c] := by
  simp only [plain,Bool.and_eq_true,decide_eq_true_eq,bne_iff_ne,ne_eq] at fits
  obtain ⟨⟨⟨low,high⟩,quoted⟩,slash⟩ := fits
  have newline : c ≠ '\n' := by rintro rfl; simp at low
  have carriage : c ≠ '\r' := by rintro rfl; simp at low
  have tab : c ≠ '\t' := by rintro rfl; simp at low
  simp [escape,quoted,slash,newline,carriage,tab,low,high,show c.toNat ≠ 8 by omega,show c.toNat ≠ 12 by omega]

theorem plain_quote (fits : Plain s) : quote s = '"' :: (s.toList ++ ['"']) := by
  have kept : s.toList.flatMap escape = s.toList := by
    rw [List.flatMap_congr fun c inside => plain_escape (fits c inside),List.flatMap_singleton']
  rw [quote,kept]

theorem scanText_plain (fits : ∀ c ∈ s, plain c = true) : scanText (s ++ '"' :: r) = some (s,r) := by
  induction s with
  | nil => simp [scanText]
  | cons c s ih =>
    have here := fits c List.mem_cons_self
    simp only [plain,Bool.and_eq_true,decide_eq_true_eq,bne_iff_ne,ne_eq] at here
    obtain ⟨⟨⟨low,high⟩,quoted⟩,slash⟩ := here
    have later := ih fun d inside => fits d (List.mem_cons_of_mem _ inside)
    rw [List.cons_append,scanText]
    · simp [quoted,slash,later,show ¬ c.toNat < 32 by omega]
    · rintro _ _ _ _ _ rfl; exact absurd rfl slash
    · rintro _ _ rfl; exact absurd rfl slash

-- A number ends where no digit and no decimal point follows.
def Ends (rest : List Char) : Prop := ∀ c, rest.head? = some c → c.isDigit = false ∧ c ≠ '.'

theorem digits_taken {ds r : List Char} (tail : ∀ c, r.head? = some c → c.isDigit = false)
    (whole : ds.all Char.isDigit = true) :
    (ds ++ r).takeWhile Char.isDigit = ds ∧ (ds ++ r).dropWhile Char.isDigit = r := by
  rw [List.all_eq_true] at whole
  have stop : r.takeWhile Char.isDigit = [] ∧ r.dropWhile Char.isDigit = r := by
    cases r with
    | nil => exact ⟨rfl,rfl⟩
    | cons c rest => simp [tail c rfl]
  rw [List.takeWhile_append_of_pos whole,List.dropWhile_append_of_pos whole,stop.1,stop.2,List.append_nil]
  exact ⟨rfl,rfl⟩

theorem digits_all (n : Nat) : (Digits.digits n).all Char.isDigit = true :=
  List.all_eq_true.mpr fun _ inside => Digits.digits_digit inside

theorem scanUnsigned_int (negative : Bool) (n : Nat) (ends : Ends rest) :
    scanUnsigned negative (Digits.digits n ++ rest) = some (.int (if negative then -n else n),rest) := by
  obtain ⟨taken,dropped⟩ := digits_taken (fun c first => (ends c first).1) (digits_all n)
  simp only [scanUnsigned,taken,dropped,Digits.digits_value,Digits.digits_nonempty,Digits.digits_canonical,or_self,
    if_false]
  cases rest with
  | nil => rfl
  | cons c rest =>
    have other := (ends c rfl).2
    split
    · rename_i same; exact absurd (List.cons.inj same).1 other
    · rfl

theorem scanUnsigned_float (negative : Bool) (n : Nat) (places : Places) (ends : Ends rest) :
    scanUnsigned negative (Digits.digits n ++ '.' :: (places.val ++ rest)) = some (.float negative n places,rest) := by
  obtain ⟨taken,dropped⟩ := digits_taken (r := '.' :: (places.val ++ rest))
    (fun c first => by cases first; rfl) (digits_all n)
  obtain ⟨fraction,after⟩ := digits_taken (fun c first => (ends c first).1) places.2.2
  simp only [scanUnsigned,taken,dropped,Digits.digits_value,Digits.digits_nonempty,Digits.digits_canonical,or_self,
    if_false,fraction,after]
  exact dif_pos places.2

theorem scanScalar_digit (digit : c.isDigit = true) : scanScalar (c :: s) = scanUnsigned false (c :: s) := by
  unfold scanScalar
  split <;> first | rfl | (rename_i same; cases same; simp at digit)

theorem digits_cons (n : Nat) : ∃ c ds, Digits.digits n = c :: ds ∧ c.isDigit = true := by
  obtain ⟨c,ds,same⟩ := List.exists_cons_of_ne_nil (Digits.digits_nonempty n)
  exact ⟨c,ds,same,Digits.digits_digit (same ▸ List.mem_cons_self)⟩

theorem scanScalar_dumps (value : Scalar) (fits : value.Plain) (ends : Ends rest) :
    scanScalar (value.dumps ++ rest) = some (value,rest) := by
  cases value with
  | null => rfl
  | bool b => cases b <;> rfl
  | int n =>
    rw [Scalar.dumps,Digits.signed_split]
    obtain ⟨c,ds,same,digit⟩ := digits_cons n.natAbs
    split
    · have read := scanUnsigned_int false n.natAbs ends
      have value : (n.natAbs : Int) = n := by omega
      rw [same,List.cons_append] at read ⊢
      rw [scanScalar_digit digit,read]
      simp only [Bool.false_eq_true,if_false,value]
    · have read := scanUnsigned_int true n.natAbs ends
      have value : -(n.natAbs : Int) = n := by omega
      rw [List.cons_append,scanScalar,read]
      simp only [if_true,value]
  | float negative whole places =>
    obtain ⟨c,ds,same,digit⟩ := digits_cons whole
    have read := scanUnsigned_float negative whole places ends
    cases negative with
    | false =>
      rw [same,List.cons_append] at read
      simp only [Scalar.dumps,Bool.false_eq_true,if_false,List.nil_append,same,List.cons_append,List.append_assoc]
      rw [scanScalar_digit digit,read]
    | true => simpa [Scalar.dumps,scanScalar] using read
  | text s =>
    have read := scanText_plain (r := rest) fits
    rw [Scalar.dumps,plain_quote fits,List.cons_append,List.append_assoc,List.singleton_append]
    simp [scanScalar,read]

-- No printed scalar starts with a blank, so nothing is skipped before it.
def PlainField (field : String × Scalar) : Prop := Plain field.1 ∧ field.2.Plain

theorem digit_solid (digit : c.isDigit = true) : blank c = false := by
  simp only [blank,Bool.or_eq_false_iff,beq_eq_false_iff_ne,ne_eq]
  refine ⟨⟨⟨?_,?_⟩,?_⟩,?_⟩ <;> rintro rfl <;> simp at digit

theorem skip_solid (solid : blank c = false) : skip (c :: s) = c :: s := by simp [skip,solid]

theorem skip_dumps (value : Scalar) : skip (value.dumps ++ rest) = value.dumps ++ rest := by
  have first : ∃ c s, value.dumps = c :: s ∧ blank c = false := by
    cases value with
    | null => exact ⟨_,_,rfl,rfl⟩
    | bool b => cases b <;> exact ⟨_,_,rfl,rfl⟩
    | int n =>
      rw [Scalar.dumps,Digits.signed_split]
      obtain ⟨c,ds,same,digit⟩ := digits_cons n.natAbs
      split
      · exact ⟨c,ds,same,digit_solid digit⟩
      · exact ⟨_,_,rfl,rfl⟩
    | float negative whole places =>
      obtain ⟨c,ds,same,digit⟩ := digits_cons whole
      cases negative with
      | false => exact ⟨c,ds ++ '.' :: places.val,by simp [Scalar.dumps,same],digit_solid digit⟩
      | true => exact ⟨'-',Digits.digits whole ++ '.' :: places.val,by simp [Scalar.dumps],rfl⟩
    | text s => exact ⟨_,_,rfl,rfl⟩
  obtain ⟨c,s,same,solid⟩ := first
  rw [same,List.cons_append,skip_solid solid]

theorem members_cons (field : String × Scalar) (rest : Fields) :
    members (field :: rest) = member field ++ (if rest = [] then [] else ',' :: members rest) := by
  cases rest <;> simp [members]

theorem scanMembers_members (fields : Fields) (some_field : fields ≠ [])
    (fits : ∀ field ∈ fields, PlainField field) (enough : fields.length ≤ n) :
    scanMembers n (members fields ++ '}' :: rest) = some (fields,rest) := by
  induction fields generalizing n with
  | nil => exact absurd rfl some_field
  | cons field fields ih =>
    obtain ⟨fuel,rfl⟩ := Nat.exists_eq_add_of_le' (Nat.le_trans (by simp : 1 ≤ _) enough)
    have here := fits field List.mem_cons_self
    have keyed := scanText_plain
      (r := ':' :: (field.2.dumps ++ ((if fields = [] then [] else ',' :: members fields) ++ '}' :: rest))) here.1
    have shape : members (field :: fields) ++ '}' :: rest = '"' :: (field.1.toList ++ '"' :: ':' ::
        (field.2.dumps ++ ((if fields = [] then [] else ',' :: members fields) ++ '}' :: rest))) := by
      rw [members_cons,member,plain_quote here.1]
      simp
    rw [shape,scanMembers,skip_solid (by rfl)]
    simp only [keyed,Option.bind_eq_bind,Option.bind_some,skip_solid (show blank ':' = false from rfl),skip_dumps]
    cases fields with
    | nil =>
      have ends : Ends ('}' :: rest) := by intro c first; cases first; exact ⟨rfl,by decide⟩
      have read := scanScalar_dumps field.2 here.2 ends
      simp [read,skip_solid (show blank '}' = false from rfl)]
    | cons next fields =>
      have ends : Ends (',' :: (members (next :: fields) ++ '}' :: rest)) := by
        intro c first; cases first; exact ⟨rfl,by decide⟩
      have read := scanScalar_dumps field.2 here.2 ends
      have later := ih (List.cons_ne_nil _ _) (fun other inside => fits other (List.mem_cons_of_mem _ inside))
        (n := fuel) (by simpa using enough)
      simp [read,later,skip_solid (show blank ',' = false from rfl)]

theorem digit_solid_line (digit : c.isDigit = true) : c ≠ '\n' ∧ c ≠ '\r' := by
  constructor <;> rintro rfl <;> simp at digit

theorem quote_line (fits : Plain s) : ∀ c ∈ quote s, c ≠ '\n' ∧ c ≠ '\r' := by
  rw [plain_quote fits]
  intro c inside
  simp only [List.mem_cons,List.mem_append,List.not_mem_nil,or_false] at inside
  rcases inside with rfl | inside | rfl
  · decide
  · have := fits c inside
    constructor <;> rintro rfl <;> simp [plain] at this
  · decide

theorem dumps_scalar_line (value : Scalar) (fits : value.Plain) : ∀ c ∈ value.dumps, c ≠ '\n' ∧ c ≠ '\r' := by
  cases value with
  | null => simp [Scalar.dumps]
  | bool b => cases b <;> simp [Scalar.dumps]
  | int n =>
    intro c inside
    rcases Digits.signed_chars inside with rfl | digit
    · decide
    · exact digit_solid_line digit
  | float negative whole places =>
    intro c inside
    simp only [Scalar.dumps,List.mem_append,List.mem_cons] at inside
    rcases inside with (sign | digit) | rfl | digit
    · cases negative with
      | false => cases sign
      | true => cases List.mem_singleton.mp sign; decide
    · exact digit_solid_line (Digits.digits_digit digit)
    · decide
    · exact digit_solid_line (List.all_eq_true.mp places.2.2 c digit)
  | text s => exact quote_line fits

theorem members_line (fields : Fields) (fits : ∀ field ∈ fields, PlainField field) :
    ∀ c ∈ members fields, c ≠ '\n' ∧ c ≠ '\r' := by
  induction fields with
  | nil => intro c inside; cases inside
  | cons field fields ih =>
    have here := fits field List.mem_cons_self
    have later := ih fun other inside => fits other (List.mem_cons_of_mem _ inside)
    intro c inside
    rw [members_cons,member,List.mem_append,List.mem_append,List.mem_cons] at inside
    rcases inside with (inside | rfl | inside) | inside
    · exact quote_line here.1 c inside
    · decide
    · exact dumps_scalar_line field.2 here.2 c inside
    · split at inside
      · cases inside
      · rcases List.mem_cons.mp inside with rfl | inside
        · decide
        · exact later c inside

theorem dumps_line (fields : Fields) (fits : ∀ field ∈ fields, PlainField field) :
    ∀ c ∈ dumps fields, c ≠ '\n' ∧ c ≠ '\r' := by
  intro c inside
  rw [dumps,List.mem_cons,List.mem_append,List.mem_singleton] at inside
  rcases inside with rfl | inside | rfl
  · decide
  · exact members_line fields fits c inside
  · decide

theorem members_length (fields : Fields) : fields.length ≤ (members fields).length := by
  induction fields with
  | nil => exact Nat.zero_le _
  | cons field fields ih =>
    rw [members_cons,List.length_append,List.length_cons]
    have : 1 ≤ (member field).length := by simp [member,quote]
    split
    · rename_i none_left; subst none_left; simpa using this
    · simp only [List.length_cons]; omega

theorem loads_dumps (fields : Fields) (some_field : fields ≠ []) (fits : ∀ field ∈ fields, PlainField field)
    (distinct : (fields.map Prod.fst).Nodup) : loads (dumps fields) = some fields := by
  have enough : fields.length ≤ (dumps fields).length := by
    have := members_length fields
    simp only [dumps,List.length_cons,List.length_append]; omega
  have read : scanMembers _ (members fields ++ ['}']) = some (fields,[]) :=
    scanMembers_members fields some_field fits enough
  obtain ⟨s,opened⟩ : ∃ s, members fields ++ ['}'] = '"' :: s := by
    obtain ⟨field,others,rfl⟩ := List.exists_cons_of_ne_nil some_field
    rw [members_cons,member,quote]; exact ⟨_,rfl⟩
  rw [loads,dumps] at *
  rw [opened] at read ⊢
  simp only [skip_solid (show blank '{' = false from rfl),skip_solid (show blank '"' = false from rfl),read]
  simp [skip,distinct]

end AgentSideCar.Json
