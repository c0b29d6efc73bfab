import Mathlib.Algebra.Group.Nat.Defs
import Mathlib.Tactic.Ring

namespace AgentSideCar.Varint

-- Groups of seven bits, the lowest first; all but the last have the high bit set. A number has
-- many spellings, as groups of zeros may follow.
inductive Spells : List UInt8 → Nat → Prop where
  | last : b.toNat < 128 → Spells [b] b.toNat
  | more : 128 ≤ b.toNat → Spells rest n → Spells (b :: rest) (b.toNat - 128 + 128 * n)

-- The shortest of them.
def encode (n : Nat) : List UInt8 := if n < 128 then [n.toUInt8] else (n % 128 + 128).toUInt8 :: encode (n / 128)
termination_by n
decreasing_by omega

theorem toUInt8_toNat (small : n < 256) : n.toUInt8.toNat = n := Nat.mod_eq_of_lt small

theorem encode_spells (n : Nat) : Spells (encode n) n := by
  induction n using Nat.strongRecOn with
  | ind n ih =>
    rw [encode]
    split
    · rename_i small
      have same := toUInt8_toNat (show n < 256 by omega)
      have spelled := Spells.last (b := n.toUInt8) (by rw [same]; exact small)
      rwa [same] at spelled
    · rename_i large
      have same := toUInt8_toNat (show n % 128 + 128 < 256 by omega)
      have spelled := Spells.more (b := (n % 128 + 128).toUInt8) (by omega) (ih (n / 128) (by omega))
      have value : (n % 128 + 128).toUInt8.toNat - 128 + 128 * (n / 128) = n := by omega
      rwa [value] at spelled

theorem encode_length (groups : Nat) (fits : n < 128 ^ (groups + 1)) : (encode n).length ≤ groups + 1 := by
  induction groups generalizing n with
  | zero =>
    rw [encode,if_pos (by simpa using fits)]
    exact Nat.le_refl 1
  | succ groups ih =>
    rw [encode]
    split
    · rw [List.length_singleton]
      omega
    · have fewer := ih (n := n / 128) (Nat.div_lt_of_lt_mul (by rwa [Nat.mul_comm,← Nat.pow_succ]))
      rw [List.length_cons]
      omega

theorem Spells.nonempty (spelled : Spells bytes n) : 0 < bytes.length := by
  cases spelled with
  | last => exact Nat.one_pos
  | more => exact Nat.succ_pos _

theorem spells_alone (left : Spells early m) (right : Spells late n) (same : early ++ rest = late ++ rest') :
    early = late ∧ m = n ∧ rest = rest' := by
  induction left generalizing late n with
  | last small =>
    cases right with
    | last => cases same; exact ⟨rfl,rfl,rfl⟩
    | more large =>
      injection same with first
      subst first
      omega
  | more large _ ih =>
    cases right with
    | last small =>
      injection same with first
      subst first
      omega
    | more _ right =>
      injection same with first others
      subst first
      obtain ⟨rfl,rfl,rfl⟩ := ih right others
      exact ⟨rfl,rfl,rfl⟩

-- The spellings of 64-bit numbers that are read: ten groups at most.
structure Reads (bytes : List UInt8) (n : Nat) : Prop where
  spelled : Spells bytes n
  short : bytes.length ≤ 10
  fits : n < 2 ^ 64

theorem encode_reads (fits : n < 2 ^ 64) : Reads (encode n) n :=
  ⟨encode_spells n,encode_length 9 (fits.trans (by decide)),fits⟩

end AgentSideCar.Varint
