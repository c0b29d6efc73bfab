import AgentSideCar.Library.Digits
import Mathlib.Data.List.DropRight
import Mathlib.Data.Rat.Defs
import Mathlib.Tactic.Common

namespace AgentSideCar.Number

-- A decimal fraction 0.d₁d₂…dₖ times ten to the point, written in one way; zero has no digits
-- and no sign.
structure Decimal where
  negative : Bool
  digits : List Char
  point : Int
  figures : ∀ c ∈ digits, c.isDigit = true
  lead : digits.head? ≠ some '0'
  trail : digits.getLast? ≠ some '0'
  zero : digits = [] → negative = false ∧ point = 0
  deriving DecidableEq

theorem Decimal.ext {a b : Decimal} (negative : a.negative = b.negative) (digits : a.digits = b.digits)
    (point : a.point = b.point) : a = b := by
  cases a; cases b
  simp_all

def naught : Decimal := ⟨false,[],0,by simp,by simp,by simp,by simp⟩

-- A number of the language. A double is known by the shortest decimal that reads back as it.
inductive JsNumber where
  | nan
  | infinite (negative : Bool)
  | finite (value : Decimal)
  deriving DecidableEq

def JsNumber.isInteger : JsNumber → Bool
  | .finite d => decide ((d.digits.length : Int) ≤ d.point)
  | _ => false
def JsNumber.isNegative : JsNumber → Bool
  | .nan => false
  | .infinite negative => negative
  | .finite d => d.negative

def strip (digits : List Char) : List Char := (digits.dropWhile (· = '0')).rdropWhile (· = '0')

theorem strip_figures {digits : List Char} (figures : ∀ c ∈ digits, c.isDigit = true) : ∀ c ∈ strip digits, c.isDigit = true :=
  fun c inside => figures c ((List.dropWhile_suffix _).subset ((List.rdropWhile_prefix _ _).subset inside))

theorem strip_lead (digits : List Char) : (strip digits).head? ≠ some '0' := by
  intro zero
  obtain ⟨rest,cut⟩ := List.rdropWhile_prefix (· = '0') (digits.dropWhile (· = '0'))
  have lead : (digits.dropWhile (· = '0')).head? = some '0' := by
    rw [←cut,List.head?_append]
    simp only [strip] at zero
    simp [zero]
  have not' := List.head?_dropWhile_not (fun c => decide (c = '0')) digits
  simp [lead] at not'

theorem strip_trail (digits : List Char) : (strip digits).getLast? ≠ some '0' := by
  intro zero
  obtain ⟨some',last⟩ := List.getLast?_eq_some_iff.mp zero
  have there : strip digits ≠ [] := by simp [last]
  have not' := List.rdropWhile_last_not (· = '0') (digits.dropWhile (· = '0')) there
  simp [strip] at last
  simp [last] at not'

-- The decimal 0.d₁d₂… times ten to the point, for any digits.
def normal (negative : Bool) (digits : List Char) (point : Int) (figures : ∀ c ∈ digits, c.isDigit = true) : Decimal :=
  if some' : strip digits = [] then naught
  else ⟨negative,strip digits,point - (digits.length - (digits.dropWhile (· = '0')).length : Nat),strip_figures figures,
    strip_lead digits,strip_trail digits,fun none => absurd none some'⟩

def exponentText (e : Int) : List Char := 'e' :: (if e < 0 then '-' else '+') :: Digits.digits e.natAbs

def magnitudeText (d : Decimal) : List Char :=
  let k : Int := d.digits.length
  if d.digits = [] then ['0']
  else if k ≤ d.point ∧ d.point ≤ 21 then d.digits ++ List.replicate (d.point - k).toNat '0'
  else if 0 < d.point ∧ d.point ≤ 21 then d.digits.take d.point.toNat ++ '.' :: d.digits.drop d.point.toNat
  else if -6 < d.point ∧ d.point ≤ 0 then '0' :: '.' :: (List.replicate (-d.point).toNat '0' ++ d.digits)
  else if k = 1 then d.digits ++ exponentText (d.point - 1)
  else d.digits.take 1 ++ '.' :: d.digits.drop 1 ++ exponentText (d.point - 1)

def minus (negative : Bool) (text : List Char) : List Char := if negative then '-' :: text else text

def nanText : List Char := ['N','a','N']
def infinityText : List Char := ['I','n','f','i','n','i','t','y']

-- String(x).
def text : JsNumber → List Char
  | .nan => nanText
  | .infinite negative => minus negative infinityText
  | .finite d => minus d.negative (magnitudeText d)

def isWhite (c : Char) : Bool :=
  let n := c.toNat
  decide (9 ≤ n ∧ n ≤ 13 ∨ n = 32 ∨ n = 160 ∨ n = 0x1680 ∨ 0x2000 ≤ n ∧ n ≤ 0x200a ∨ n = 0x2028 ∨ n = 0x2029 ∨
    n = 0x202f ∨ n = 0x205f ∨ n = 0x3000 ∨ n = 0xfeff)

def trim (cs : List Char) : List Char := (cs.dropWhile isWhite).rdropWhile isWhite

def natural (cs : List Char) : Option Nat :=
  if cs ≠ [] ∧ cs.all Char.isDigit then some (Nat.ofDigitChars 10 cs 0) else none

def exponent : List Char → Option Int
  | [] => some 0
  | c :: rest =>
    if c = 'e' ∨ c = 'E' then
      match rest with
      | '+' :: cs => (natural cs).map fun n => (n : Int)
      | '-' :: cs => (natural cs).map fun n => -(n : Int)
      | cs => (natural cs).map fun n => (n : Int)
    else none

theorem takeWhile_figures (cs : List Char) : ∀ c ∈ cs.takeWhile Char.isDigit, c.isDigit = true :=
  fun _ inside => List.mem_takeWhile_imp inside

theorem both_figures {a b : List Char} (left : ∀ c ∈ a, c.isDigit = true) (right : ∀ c ∈ b, c.isDigit = true) :
    ∀ c ∈ a ++ b, c.isDigit = true := fun c inside => (List.mem_append.mp inside).elim (left c) (right c)

def fraction : List Char → List Char × List Char
  | '.' :: cs => (cs.takeWhile Char.isDigit,cs.dropWhile Char.isDigit)
  | cs => ([],cs)

theorem fraction_figures (cs : List Char) : ∀ c ∈ (fraction cs).1, c.isDigit = true := by
  unfold fraction
  split
  · exact takeWhile_figures _
  · simp

def unsignedDecimal (negative : Bool) (cs : List Char) : Option Decimal :=
  let whole := cs.takeWhile Char.isDigit
  let rest := cs.dropWhile Char.isDigit
  if whole = [] ∧ (fraction rest).1 = [] then none
  else (exponent (fraction rest).2).map fun e => normal negative (whole ++ (fraction rest).1) (whole.length + e)
    (both_figures (takeWhile_figures cs) (fraction_figures rest))

def radix (c : Char) : Option Nat :=
  if c = 'x' ∨ c = 'X' then some 16 else if c = 'o' ∨ c = 'O' then some 8 else if c = 'b' ∨ c = 'B' then some 2 else none

def digitValue (c : Char) : Nat :=
  if c.isDigit then c.toNat - 48 else if 'a' ≤ c ∧ c ≤ 'f' then c.toNat - 87 else if 'A' ≤ c ∧ c ≤ 'F' then c.toNat - 55 else 99

def nonDecimal : List Char → Option Nat
  | '0' :: c :: cs => (radix c).bind fun base =>
      if cs ≠ [] ∧ cs.all (fun d => decide (digitValue d < base)) then
        some (cs.foldl (fun n d => n * base + digitValue d) 0)
      else none
  | _ => none

-- `round` is the double nearest to a decimal.
section Reading
variable (round : Decimal → JsNumber)

def magnitude (negative : Bool) (cs : List Char) : JsNumber :=
  if cs = infinityText then .infinite negative
  else match unsignedDecimal negative cs with
    | some d => round d
    | none => .nan

def literal : List Char → JsNumber
  | '+' :: cs => magnitude round false cs
  | '-' :: cs => magnitude round true cs
  | cs => magnitude round false cs

-- Number(text).
def ofText (cs : List Char) : JsNumber :=
  if trim cs = [] then .finite naught
  else match nonDecimal (trim cs) with
    | some n => round (normal false (Digits.digits n) (Digits.digits n).length fun _ inside => Digits.digits_digit inside)
    | none => literal round (trim cs)

end Reading

-- The doubles are what rounding leaves as it is.
def IsDouble (round : Decimal → JsNumber) (x : JsNumber) : Prop := ∀ d, x = .finite d → round d = x

theorem dropWhile_zeros {digits : List Char} (lead : digits.head? ≠ some '0') (i : Nat) :
    (List.replicate i '0' ++ digits).dropWhile (· = '0') = digits := by
  induction i with
  | zero =>
    cases digits with
    | nil => rfl
    | cons c rest =>
      have other : c ≠ '0' := fun same => lead (by rw [same]; rfl)
      simp [other]
  | succ i ih => simpa [List.replicate_succ] using ih

theorem strip_zeros {d : Decimal} (some' : d.digits ≠ []) (i j : Nat) :
    strip (List.replicate i '0' ++ (d.digits ++ List.replicate j '0')) = d.digits := by
  have lead : (d.digits ++ List.replicate j '0').head? ≠ some '0' := by
    rw [List.head?_append_of_ne_nil _ some']
    exact d.lead
  have trail : d.digits.reverse.head? ≠ some '0' := by
    rw [List.head?_reverse]
    exact d.trail
  rw [strip,dropWhile_zeros lead,List.rdropWhile,List.reverse_append,List.reverse_replicate,dropWhile_zeros trail,
    List.reverse_reverse]

theorem normal_zeros {d : Decimal} (some' : d.digits ≠ []) {digits : List Char} (i j : Nat)
    (shape : digits = List.replicate i '0' ++ (d.digits ++ List.replicate j '0')) {point : Int} (moved : point = d.point + i)
    (figures : ∀ c ∈ digits, c.isDigit = true) : normal d.negative digits point figures = d := by
  subst shape
  have stripped := strip_zeros some' i j
  have lead : (d.digits ++ List.replicate j '0').head? ≠ some '0' := by
    rw [List.head?_append_of_ne_nil _ some']
    exact d.lead
  have there : strip (List.replicate i '0' ++ (d.digits ++ List.replicate j '0')) ≠ [] := by rw [stripped]; exact some'
  rw [normal,dif_neg there]
  refine Decimal.ext rfl stripped ?_
  simp only [dropWhile_zeros lead,List.length_append,List.length_replicate]
  omega

theorem natural_digits (n : Nat) : natural (Digits.digits n) = some n := by
  have figures : (Digits.digits n).all Char.isDigit = true := List.all_eq_true.mpr fun _ inside => Digits.digits_digit inside
  rw [natural,if_pos ⟨Digits.digits_nonempty n,figures⟩,Digits.digits_value]

theorem exponent_text (e : Int) : exponent (exponentText e) = some e := by
  unfold exponentText
  split
  · rename_i negative
    have read : exponent ('e' :: '-' :: Digits.digits e.natAbs) = some (-(e.natAbs : Int)) := by
      show (natural (Digits.digits e.natAbs)).map (fun n => -(n : Int)) = _
      rw [natural_digits]
      rfl
    rw [read,show -(e.natAbs : Int) = e by omega]
  · rename_i positive
    have read : exponent ('e' :: '+' :: Digits.digits e.natAbs) = some (e.natAbs : Int) := by
      show (natural (Digits.digits e.natAbs)).map (fun n => (n : Int)) = _
      rw [natural_digits]
      rfl
    rw [read,show (e.natAbs : Int) = e by omega]

theorem takeWhile_cut {digits : List Char} (rest : List Char) (figures : ∀ c ∈ digits, c.isDigit = true)
    (stops : rest.head?.all (!Char.isDigit ·) = true) :
    (digits ++ rest).takeWhile Char.isDigit = digits ∧ (digits ++ rest).dropWhile Char.isDigit = rest := by
  induction digits with
  | nil =>
    cases rest with
    | nil => exact ⟨rfl,rfl⟩
    | cons c rest => simp_all
  | cons c digits ih =>
    have first := figures c List.mem_cons_self
    obtain ⟨taken,dropped⟩ := ih fun c inside => figures c (List.mem_cons_of_mem _ inside)
    simp [first,taken,dropped]

theorem read_plain {whole : List Char} {e : Int} (negative : Bool) (tail : List Char) (there : whole ≠ [])
    (figures : ∀ c ∈ whole, c.isDigit = true) (stops : tail.head?.all (!Char.isDigit ·) = true)
    (plain : fraction tail = ([],tail)) (power : exponent tail = some e) :
    unsignedDecimal negative (whole ++ tail) = some (normal negative whole (whole.length + e) figures) := by
  obtain ⟨taken,dropped⟩ := takeWhile_cut tail figures stops
  simp only [unsignedDecimal,taken,dropped,plain,power,there,false_and,if_false,Option.map_some,List.append_nil]

theorem read_pointed {whole frac : List Char} {e : Int} (negative : Bool) (tail : List Char) (there : whole ≠ [])
    (figures : ∀ c ∈ whole ++ frac, c.isDigit = true) (stops : tail.head?.all (!Char.isDigit ·) = true)
    (power : exponent tail = some e) :
    unsignedDecimal negative (whole ++ '.' :: (frac ++ tail)) =
      some (normal negative (whole ++ frac) (whole.length + e) figures) := by
  obtain ⟨taken,dropped⟩ := takeWhile_cut ('.' :: (frac ++ tail)) (fun c inside => figures c (List.mem_append_left _ inside)) rfl
  obtain ⟨fracTaken,fracDropped⟩ := takeWhile_cut tail (fun c inside => figures c (List.mem_append_right _ inside)) stops
  have cut : fraction ('.' :: (frac ++ tail)) = (frac,tail) := by rw [fraction,fracTaken,fracDropped]
  simp only [unsignedDecimal,taken,dropped,cut,power,there,false_and,if_false,Option.map_some]

theorem exponentText_stops (e : Int) : (exponentText e).head?.all (!Char.isDigit ·) = true := rfl

theorem read_whole {d : Decimal} (some' : d.digits ≠ []) (short : (d.digits.length : Int) ≤ d.point) :
    unsignedDecimal d.negative (d.digits ++ List.replicate (d.point - d.digits.length).toNat '0') = some d := by
  have figures : ∀ c ∈ d.digits ++ List.replicate (d.point - d.digits.length).toNat '0', c.isDigit = true :=
    both_figures d.figures fun c inside => by rw [List.eq_of_mem_replicate inside]; rfl
  have read := read_plain d.negative [] (by simp [some']) figures rfl rfl rfl
  rw [List.append_nil] at read
  rw [read]
  refine congrArg some (normal_zeros some' 0 (d.point - d.digits.length).toNat (by simp) ?_ _)
  simp only [List.length_append,List.length_replicate]
  omega

theorem read_inside {d : Decimal} {n : Nat} {tail : List Char} {e : Int} (some' : d.digits ≠ []) (first : 0 < n)
    (inside : n ≤ d.digits.length) (stops : tail.head?.all (!Char.isDigit ·) = true) (power : exponent tail = some e)
    (moved : n + e = d.point) :
    unsignedDecimal d.negative (d.digits.take n ++ '.' :: (d.digits.drop n ++ tail)) = some d := by
  have whole : d.digits.take n ++ d.digits.drop n = d.digits := List.take_append_drop n d.digits
  have there : d.digits.take n ≠ [] := by simp [some']; omega
  rw [read_pointed d.negative tail there (by rw [whole]; exact d.figures) stops power]
  refine congrArg some (normal_zeros some' 0 0 (by simp) ?_ _)
  rw [List.length_take]
  omega

theorem read_small {d : Decimal} (some' : d.digits ≠ []) (low : d.point ≤ 0) :
    unsignedDecimal d.negative ('0' :: '.' :: (List.replicate (-d.point).toNat '0' ++ d.digits)) = some d := by
  have figures : ∀ c ∈ ['0'] ++ (List.replicate (-d.point).toNat '0' ++ d.digits), c.isDigit = true := by
    intro c inside
    rcases List.mem_append.mp inside with zero | inside
    · rw [List.mem_singleton.mp zero]
      rfl
    · exact both_figures (fun c inside => by rw [List.eq_of_mem_replicate inside]; rfl) d.figures c inside
  have read := read_pointed d.negative [] (List.cons_ne_nil _ _) figures rfl rfl
  rw [List.append_nil] at read
  refine read.trans (congrArg some (normal_zeros some' ((-d.point).toNat + 1) 0 ?_ ?_ _))
  · simp [List.replicate_succ]
  · simp only [List.length_singleton]
    omega

theorem read_magnitude (d : Decimal) : unsignedDecimal d.negative (magnitudeText d) = some d := by
  unfold magnitudeText
  dsimp only
  split
  · rename_i none'
    obtain ⟨positive,point⟩ := d.zero none'
    have same : d = naught := Decimal.ext positive none' point
    rw [same]
    decide
  · rename_i some'
    have there := List.length_pos_of_ne_nil some'
    split
    · rename_i whole
      exact read_whole some' whole.1
    · split
      · rename_i long inside
        have read := @read_inside d d.point.toNat [] 0 some' (by omega) (by omega) rfl rfl (by omega)
        rwa [List.append_nil] at read
      · split
        · rename_i small
          exact read_small some' small.2
        · split
          · rename_i one
            rw [read_plain d.negative _ some' d.figures (exponentText_stops _) rfl (exponent_text _)]
            exact congrArg some (normal_zeros some' 0 0 (by simp) (by omega) _)
          · have read := @read_inside d 1 (exponentText (d.point - 1)) _ some' Nat.one_pos there (exponentText_stops _)
              (exponent_text _) (by omega)
            simpa using read

-- The characters that String(x) is made of.
def IsPlain (c : Char) : Prop := c.isDigit = true ∨ c ∈ '-' :: '.' :: '+' :: 'e' :: (nanText ++ infinityText)

theorem exponentText_plain (e : Int) : ∀ c ∈ exponentText e, IsPlain c := by
  intro c inside
  unfold exponentText at inside
  rcases List.mem_cons.mp inside with rfl | inside
  · exact .inr (by decide)
  · rcases List.mem_cons.mp inside with rfl | inside
    · split <;> exact .inr (by decide)
    · exact .inl (Digits.digits_digit inside)

theorem magnitude_plain (d : Decimal) : ∀ c ∈ magnitudeText d, IsPlain c := by
  have zero : IsPlain '0' := .inl rfl
  have point : IsPlain '.' := .inr (by decide)
  have figure : ∀ c ∈ d.digits, IsPlain c := fun c inside => .inl (d.figures c inside)
  have zeros : ∀ n, ∀ c ∈ List.replicate n '0', IsPlain c := fun n c inside => by
    rw [List.eq_of_mem_replicate inside]
    exact zero
  have begins : ∀ n, ∀ c ∈ d.digits.take n, IsPlain c := fun n c inside => figure c (List.mem_of_mem_take inside)
  have ends : ∀ n, ∀ c ∈ d.digits.drop n, IsPlain c := fun n c inside => figure c (List.mem_of_mem_drop inside)
  have power := exponentText_plain (d.point - 1)
  intro c inside
  unfold magnitudeText at inside
  dsimp only at inside
  split at inside
  · rw [List.mem_singleton.mp inside]
    exact zero
  · split at inside
    · exact (List.mem_append.mp inside).elim (figure c) (zeros _ c)
    · split at inside
      · rcases List.mem_append.mp inside with early | late
        · exact begins _ c early
        · rcases List.mem_cons.mp late with rfl | late
          · exact point
          · exact ends _ c late
      · split at inside
        · rcases List.mem_cons.mp inside with rfl | inside
          · exact zero
          · rcases List.mem_cons.mp inside with rfl | inside
            · exact point
            · exact (List.mem_append.mp inside).elim (zeros _ c) (figure c)
        · split at inside
          · exact (List.mem_append.mp inside).elim (figure c) (power c)
          · rcases List.mem_append.mp inside with early | late
            · rcases List.mem_append.mp early with early | late
              · exact begins _ c early
              · rcases List.mem_cons.mp late with rfl | late
                · exact point
                · exact ends _ c late
            · exact power c late

theorem minus_plain {cs : List Char} (plain : ∀ c ∈ cs, IsPlain c) (negative : Bool) : ∀ c ∈ minus negative cs, IsPlain c := by
  intro c inside
  cases negative with
  | false => exact plain c inside
  | true =>
    rcases List.mem_cons.mp inside with rfl | inside
    · exact .inr (by decide)
    · exact plain c inside

theorem text_plain (x : JsNumber) : ∀ c ∈ text x, IsPlain c := by
  cases x with
  | nan => exact fun c inside => .inr (by simp only [text] at inside; simp [inside])
  | infinite negative => exact minus_plain (fun c inside => .inr (by simp [inside])) negative
  | finite d => exact minus_plain (magnitude_plain d) d.negative

theorem IsPlain.among (plain : IsPlain c) : (48 ≤ c.toNat ∧ c.toNat ≤ 57) ∨
    c ∈ ['-','.','+','e','N','a','I','n','f','i','t','y'] := by
  rcases plain with digit | other
  · exact .inl (Char.isDigit_iff_toNat.mp digit)
  · simp only [nanText,infinityText] at other
    exact .inr (by simp at other ⊢; tauto)

theorem IsPlain.not_white (plain : IsPlain c) : isWhite c = false := by
  rcases plain.among with digit | other
  · simp only [isWhite,decide_eq_false_iff_not]
    omega
  · revert other
    simp only [List.mem_cons,List.not_mem_nil,or_false]
    rintro (rfl|rfl|rfl|rfl|rfl|rfl|rfl|rfl|rfl|rfl|rfl|rfl) <;> rfl

theorem IsPlain.apart (plain : IsPlain c) (d : Char) (wide : 57 < d.toNat ∨ d.toNat < 48)
    (other : d ∉ ['-','.','+','e','N','a','I','n','f','i','t','y']) : c ≠ d := by
  rintro rfl
  rcases plain.among with digit | letter
  · omega
  · exact other letter

theorem IsPlain.not_radix (plain : IsPlain c) : radix c = none := by
  simp [radix,plain.apart 'x' (.inl (by decide)) (by decide),plain.apart 'X' (.inl (by decide)) (by decide),
    plain.apart 'o' (.inl (by decide)) (by decide),plain.apart 'O' (.inl (by decide)) (by decide),
    plain.apart 'b' (.inl (by decide)) (by decide),plain.apart 'B' (.inl (by decide)) (by decide)]

theorem trim_plain {cs : List Char} (plain : ∀ c ∈ cs, IsPlain c) : trim cs = cs := by
  have kept : cs.dropWhile isWhite = cs := by
    cases cs with
    | nil => rfl
    | cons c rest => simp [(plain c List.mem_cons_self).not_white]
  rw [trim,kept,List.rdropWhile_eq_self_iff]
  exact fun there => by simp [(plain _ (List.getLast_mem there)).not_white]

theorem nonDecimal_plain {cs : List Char} (plain : ∀ c ∈ cs, IsPlain c) : nonDecimal cs = none := by
  unfold nonDecimal
  split
  · rename_i c _
    rw [(plain c (List.mem_cons_of_mem _ List.mem_cons_self)).not_radix]
    rfl
  · rfl

theorem magnitude_digit (d : Decimal) : ∃ c rest, magnitudeText d = c :: rest ∧ c.isDigit = true := by
  unfold magnitudeText
  dsimp only
  split
  · exact ⟨'0',[],rfl,rfl⟩
  · rename_i some'
    obtain ⟨c,more,cut⟩ := List.exists_cons_of_ne_nil some'
    have digit : c.isDigit = true := d.figures c (cut ▸ List.mem_cons_self)
    split
    · exact ⟨c,_,by rw [cut,List.cons_append],digit⟩
    · split
      · rename_i inside
        obtain ⟨n,positive⟩ := Nat.exists_eq_succ_of_ne_zero (show d.point.toNat ≠ 0 by omega)
        exact ⟨c,_,by rw [positive,cut,List.take_succ_cons,List.cons_append],digit⟩
      · split
        · exact ⟨'0',_,rfl,rfl⟩
        · split
          · exact ⟨c,_,by rw [cut,List.cons_append],digit⟩
          · exact ⟨c,_,by rw [cut,List.take_succ_cons,List.cons_append,List.cons_append],digit⟩

theorem magnitude_text {round : Decimal → JsNumber} {d : Decimal} (double : IsDouble round (.finite d)) :
    magnitude round d.negative (magnitudeText d) = .finite d := by
  obtain ⟨c,rest,cut,digit⟩ := magnitude_digit d
  have other : magnitudeText d ≠ infinityText := by
    rw [cut]
    intro same
    rw [(List.cons.inj same).1] at digit
    cases digit
  rw [magnitude,if_neg other,read_magnitude]
  exact double d rfl

theorem literal_text {round : Decimal → JsNumber} {x : JsNumber} (double : IsDouble round x) : literal round (text x) = x := by
  cases x with
  | nan => rfl
  | infinite negative => cases negative <;> rfl
  | finite d =>
    have read := magnitude_text double
    cases sign : d.negative with
    | true =>
      rw [sign] at read
      simp only [text,minus,sign,if_true,literal,read]
    | false =>
      obtain ⟨c,rest,cut,digit⟩ := magnitude_digit d
      have plus : c ≠ '+' := by rintro rfl; cases digit
      have dash : c ≠ '-' := by rintro rfl; cases digit
      rw [sign,cut] at read
      simpa [text,minus,sign,cut,literal,plus,dash] using read

theorem text_nonempty (x : JsNumber) : text x ≠ [] := by
  cases x with
  | nan => exact List.cons_ne_nil _ _
  | infinite negative => cases negative <;> exact List.cons_ne_nil _ _
  | finite d =>
    obtain ⟨c,rest,cut,_⟩ := magnitude_digit d
    cases sign : d.negative <;> simp [text,minus,sign,cut]

theorem ofText_text {round : Decimal → JsNumber} {x : JsNumber} (double : IsDouble round x) : ofText round (text x) = x := by
  have plain := text_plain x
  rw [ofText,trim_plain plain,nonDecimal_plain plain,if_neg (text_nonempty x)]
  exact literal_text double

example : ["1500e-9","0x10"," -12e2 ","1e21","0.10.2"].map (fun s => String.ofList (text (ofText .finite s.toList))) =
    ["0.0000015","16","-1200","1e+21","NaN"] := by decide +kernel

theorem text_not {c : Char} (x : JsNumber) (wide : 57 < c.toNat ∨ c.toNat < 48)
    (other : c ∉ ['-','.','+','e','N','a','I','n','f','i','t','y']) : c ∉ text x :=
  fun inside => (text_plain x c inside).apart c wide other rfl

theorem text_not_dash (x : JsNumber) : text x ≠ ['-'] := by
  intro dash
  have read : ofText (fun _ => x) (text x) = x := ofText_text fun _ _ => rfl
  have none' : ofText (fun _ => x) ['-'] = .nan := rfl
  rw [dash,none'] at read
  subst read
  exact absurd dash (by decide)

-- Comparison as the language does it: nothing compares with NaN.
def Decimal.value (d : Decimal) : Rat :=
  (if d.negative then -1 else 1) * (Nat.ofDigitChars 10 d.digits 0 : Nat) * (10 : Rat) ^ (d.point - d.digits.length)
def JsNumber.lt : JsNumber → JsNumber → Bool
  | .nan,_ | _,.nan => false
  | .infinite a,.infinite b => a && !b
  | .infinite a,.finite _ => a
  | .finite _,.infinite b => !b
  | .finite a,.finite b => decide (a.value < b.value)
def ofInt (n : Int) : JsNumber :=
  .finite (normal (decide (n < 0)) (Digits.digits n.natAbs) (Digits.digits n.natAbs).length
    fun _ inside => Digits.digits_digit inside)
def JsNumber.equal (a b : JsNumber) : Bool := decide (a ≠ .nan ∧ a = b)

end AgentSideCar.Number
