import Mathlib.Data.List.Basic
import Mathlib.Algebra.Order.Group.Nat

namespace AgentSideCar.Base64

-- Three octets are four sextets; what is left over at the end is filled up with zero bits and
-- not padded.
def sextets : List UInt8 → List Nat
  | a :: b :: c :: rest =>
    let n := a.toNat * 65536 + b.toNat * 256 + c.toNat
    n / 262144 :: n / 4096 % 64 :: n / 64 % 64 :: n % 64 :: sextets rest
  | [a,b] =>
    let n := a.toNat * 1024 + b.toNat * 4
    [n / 4096,n / 64 % 64,n % 64]
  | [a] => [a.toNat / 4,a.toNat % 4 * 16]
  | [] => []

def octets : List Nat → Option (List UInt8)
  | p :: q :: r :: s :: rest =>
    let n := p * 262144 + q * 4096 + r * 64 + s
    (octets rest).map fun later => (n / 65536).toUInt8 :: (n / 256 % 256).toUInt8 :: (n % 256).toUInt8 :: later
  | [p,q,r] =>
    let n := p * 4096 + q * 64 + r
    some [(n / 1024).toUInt8,(n / 4 % 256).toUInt8]
  | [p,q] => some [(p * 4 + q / 16).toUInt8]
  | [_] => none
  | [] => some []

-- The signs that are safe in a URL; the plain ones are read too.
def sign (n : Nat) : UInt8 :=
  if n < 26 then (65 + n).toUInt8
  else if n < 52 then (71 + n).toUInt8
  else if n < 62 then (n - 4).toUInt8
  else if n = 62 then 45
  else 95

def value (b : UInt8) : Option Nat :=
  if 65 ≤ b ∧ b ≤ 90 then some (b.toNat - 65)
  else if 97 ≤ b ∧ b ≤ 122 then some (b.toNat - 71)
  else if 48 ≤ b ∧ b ≤ 57 then some (b.toNat + 4)
  else if b = 45 ∨ b = 43 then some 62
  else if b = 95 ∨ b = 47 then some 63
  else none

def encode (bytes : List UInt8) : List UInt8 := (sextets bytes).map sign
def decode (text : List UInt8) : Option (List UInt8) := (text.mapM value).bind octets

theorem octet (b : UInt8) {n : Nat} (same : n = b.toNat) : n.toUInt8 = b := by
  rw [← UInt8.toNat_inj,same]
  simp [Nat.toUInt8]

theorem octets_sextets (bytes : List UInt8) : octets (sextets bytes) = some bytes := by
  fun_induction sextets bytes with
  | case1 a b c rest n ih =>
    have small := a.toNat_lt
    have middle := b.toNat_lt
    have low := c.toNat_lt
    rw [octets,ih,Option.map_some,octet a (by omega),octet b (by omega),octet c (by omega)]
  | case2 a b n =>
    have small := a.toNat_lt
    have low := b.toNat_lt
    rw [octets,octet a (by omega),octet b (by omega)]
  | case3 a => rw [octets,octet a (by omega)]
  | case4 => rfl

theorem sextets_small (bytes : List UInt8) : ∀ n ∈ sextets bytes, n < 64 := by
  fun_induction sextets bytes with
  | case1 a b c rest n ih =>
    have small := a.toNat_lt
    have middle := b.toNat_lt
    have low := c.toNat_lt
    simp only [List.forall_mem_cons]
    exact ⟨by omega,by omega,by omega,by omega,ih⟩
  | case2 a b n =>
    have small := a.toNat_lt
    have low := b.toNat_lt
    simp only [List.forall_mem_cons]
    exact ⟨by omega,by omega,by omega,nofun⟩
  | case3 a =>
    have small := a.toNat_lt
    simp only [List.forall_mem_cons]
    exact ⟨by omega,by omega,nofun⟩
  | case4 => exact nofun

theorem sextets_length (bytes : List UInt8) : (sextets bytes).length ≤ 2 * bytes.length := by
  fun_induction sextets bytes with
  | case1 a b c rest n ih =>
    simp only [List.length_cons]
    omega
  | case2 | case3 | case4 => simp

theorem encode_length (bytes : List UInt8) : (encode bytes).length ≤ 2 * bytes.length := by
  rw [encode,List.length_map]
  exact sextets_length bytes

theorem value_sign : ∀ n < 64, value (sign n) = some n := by decide

theorem signs_read {ns : List Nat} (small : ∀ n ∈ ns, n < 64) : (ns.map sign).mapM value = some ns := by
  induction ns with
  | nil => rfl
  | cons n ns ih =>
    obtain ⟨here,later⟩ := List.forall_mem_cons.mp small
    rw [List.map_cons,List.mapM_cons,value_sign n here,ih later]
    rfl

theorem decode_encode (bytes : List UInt8) : decode (encode bytes) = some bytes := by
  rw [decode,encode,signs_read (sextets_small bytes),Option.bind_some,octets_sextets]

theorem encode_injective : Function.Injective encode := by
  intro s t same
  have := congrArg decode same
  rwa [decode_encode,decode_encode,Option.some.injEq] at this

theorem sign_plain : ∀ n < 64, (48 ≤ sign n ∧ sign n ≤ 57) ∨ (65 ≤ sign n ∧ sign n ≤ 90) ∨ (97 ≤ sign n ∧ sign n ≤ 122) ∨
    sign n = 45 ∨ sign n = 95 := by decide

theorem encode_plain (bytes : List UInt8) : ∀ b ∈ encode bytes, (48 ≤ b ∧ b ≤ 57) ∨ (65 ≤ b ∧ b ≤ 90) ∨ (97 ≤ b ∧ b ≤ 122) ∨
    b = 45 ∨ b = 95 := by
  intro b inside
  obtain ⟨n,own,rfl⟩ := List.mem_map.mp inside
  exact sign_plain n (sextets_small bytes n own)

theorem encode_some {bytes : List UInt8} (some' : bytes ≠ []) : encode bytes ≠ [] := by
  intro none'
  have := decode_encode bytes
  rw [none'] at this
  exact some' (Option.some.inj this).symm

end AgentSideCar.Base64
