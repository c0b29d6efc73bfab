import Mathlib.Data.List.Basic
import Mathlib.Algebra.Group.Nat.Defs

namespace AgentSideCar.Digits

-- Decimal digits of a natural number, as toString writes them.
def digits (n : Nat) : List Char := Nat.toDigits 10 n

theorem toString_digits (n : Nat) : (toString n).toList = digits n := by
  rw [Nat.toString_eq_repr,Nat.toList_repr,digits]

theorem digits_digit (inside : c ∈ digits n) : c.isDigit = true :=
  Nat.isDigit_of_mem_toDigits (by omega) (by omega) inside

theorem digits_nonempty (n : Nat) : digits n ≠ [] := Nat.toDigits_ne_nil

theorem digits_value (n : Nat) : Nat.ofDigitChars 10 (digits n) 0 = n := Nat.ofDigitChars_ten_toDigits

theorem digits_lead (positive : 0 < n) : (digits n).head? ≠ some '0' := by
  induction n using Nat.strongRecOn with
  | ind n ih =>
    by_cases small : n < 10
    · have leading : ∀ m < 10, 0 < m → Nat.digitChar m ≠ '0' := by decide
      rw [digits,Nat.toDigits_of_lt_base small]
      simpa using leading n small positive
    · have shorter := ih (n / 10) (by omega) (by omega)
      rw [digits,Nat.toDigits_of_base_le (by omega) (by omega)]
      rwa [List.head?_append_of_ne_nil _ Nat.toDigits_ne_nil]

theorem digits_canonical (n : Nat) : ¬ ((digits n).head? = some '0' ∧ (digits n).length ≠ 1) := by
  rcases Nat.eq_zero_or_pos n with rfl | positive
  · decide
  · exact fun wide => digits_lead positive wide.1

theorem digits_injective (same : digits m = digits n) : m = n := by
  have := congrArg (Nat.ofDigitChars 10 · 0) same
  simpa [digits,Nat.ofDigitChars_ten_toDigits] using this

def signed (n : Int) : List Char := (toString n).toList

theorem signed_split (n : Int) : signed n = if 0 ≤ n then digits n.natAbs else '-' :: digits n.natAbs := by
  rw [signed,Int.toString_eq_repr,Int.repr_eq_if]
  split
  · rw [Nat.toList_repr,digits,show n.toNat = n.natAbs by omega]
  · rw [String.toList_append,Nat.toList_repr,digits,show (-n).toNat = n.natAbs by omega]; rfl

theorem signed_chars (inside : c ∈ signed n) : c = '-' ∨ c.isDigit = true := by
  rw [signed_split] at inside
  split at inside
  · exact .inr (digits_digit inside)
  · exact (List.mem_cons.mp inside).imp_right digits_digit

theorem signed_injective (same : signed m = signed n) : m = n := by
  rw [signed_split,signed_split] at same
  have dash : ∀ k : Nat, ∀ rest : List Char, digits k ≠ '-' :: rest := by
    intro k rest eq
    have := digits_digit (eq ▸ List.mem_cons_self : '-' ∈ digits k)
    simp at this
  split at same <;> split at same
  · have := digits_injective same; omega
  · exact absurd same (dash _ _)
  · exact absurd same.symm (dash _ _)
  · have := digits_injective (List.cons.inj same).2; omega

theorem split_unique {α : Type} {sep : α} {a b c d : List α} (left : sep ∉ a) (right : sep ∉ c)
    (same : a ++ sep :: b = c ++ sep :: d) : a = c ∧ b = d := by
  induction a generalizing c with
  | nil =>
    cases c with
    | nil => exact ⟨rfl,(List.cons.inj same).2⟩
    | cons y c => exact absurd ((List.cons.inj same).1 ▸ List.mem_cons_self) right
  | cons x a ih =>
    cases c with
    | nil => exact absurd ((List.cons.inj same).1 ▸ List.mem_cons_self) left
    | cons y c =>
      obtain ⟨head,tail⟩ := List.cons.inj same
      obtain ⟨rest,last⟩ := ih (fun inside => left (List.mem_cons_of_mem _ inside))
        (fun inside => right (List.mem_cons_of_mem _ inside)) tail
      exact ⟨by rw [head,rest],last⟩

end AgentSideCar.Digits

namespace AgentSideCar.Hex
variable {α : Type}

-- The last `width` hexadecimal digits of a number, in the digits of some alphabet.
def hexDigits (digit : Nat → α) : Nat → Nat → List α
  | 0,_ => []
  | width+1,n => hexDigits digit width (n / 16) ++ [digit (n % 16)]

variable {digit : Nat → α}

@[simp] theorem hexDigits_length (digit : Nat → α) (width n : Nat) : (hexDigits digit width n).length = width := by
  induction width generalizing n with
  | zero => rfl
  | succ width ih => rw [hexDigits,List.length_append,ih]; rfl

theorem hexDigits_digit (inside : c ∈ hexDigits digit width n) : ∃ d < 16, c = digit d := by
  induction width generalizing n with
  | zero => cases inside
  | succ width ih =>
    rcases List.mem_append.mp inside with early | last
    · exact ih early
    · exact ⟨n % 16,Nat.mod_lt _ (by decide),List.mem_singleton.mp last⟩

theorem hexDigits_injective (apart : ∀ d < 16, ∀ e < 16, digit d = digit e → d = e) (left : m < 16 ^ width)
    (right : n < 16 ^ width) (same : hexDigits digit width m = hexDigits digit width n) : m = n := by
  induction width generalizing m n with
  | zero =>
    rw [Nat.pow_zero] at left right
    omega
  | succ width ih =>
    rw [Nat.pow_succ] at left right
    obtain ⟨early,last⟩ := List.append_inj same (by rw [hexDigits_length,hexDigits_length])
    have high := ih (Nat.div_lt_of_lt_mul (by omega)) (Nat.div_lt_of_lt_mul (by omega)) early
    have low := apart _ (Nat.mod_lt _ (by decide)) _ (Nat.mod_lt _ (by decide)) (List.singleton_inj.mp last)
    omega

end AgentSideCar.Hex
