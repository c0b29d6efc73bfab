import Mathlib.Tactic.SplitIfs
import AgentSideCar.Library.Prefixes

namespace AgentSideCar.Utf8

-- A text is its code points, and a lone surrogate may be one.
def surrogate (c : Nat) : Bool := 55296 ≤ c && c < 57344

def encodeChar (c : Nat) : Option (List UInt8) :=
  if surrogate c then none
  else if c < 128 then some [c.toUInt8]
  else if c < 2048 then some [(192 + c / 64).toUInt8,(128 + c % 64).toUInt8]
  else if c < 65536 then some [(224 + c / 4096).toUInt8,(128 + c / 64 % 64).toUInt8,(128 + c % 64).toUInt8]
  else some [(240 + c / 262144).toUInt8,(128 + c / 4096 % 64).toUInt8,(128 + c / 64 % 64).toUInt8,(128 + c % 64).toUInt8]

def encode : List Nat → Option (List UInt8)
  | [] => some []
  | c :: rest => (encodeChar c).bind fun bytes => (encode rest).map (bytes ++ ·)

-- The bytes a character still owes, the range of the next one, and its code so far.
structure Owed where
  tails : Nat
  low : Nat
  high : Nat
  code : Nat

-- What a first byte opens when it is no character by itself.
def opens (b : Nat) : Option Owed :=
  if 194 ≤ b ∧ b < 224 then some ⟨1,128,191,b - 192⟩
  else if b = 224 then some ⟨2,160,191,0⟩
  else if b = 237 then some ⟨2,128,159,13⟩
  else if 225 ≤ b ∧ b < 240 then some ⟨2,128,191,b - 224⟩
  else if b = 240 then some ⟨3,144,191,0⟩
  else if 241 ≤ b ∧ b < 244 then some ⟨3,128,191,b - 240⟩
  else if b = 244 then some ⟨3,128,143,4⟩
  else none

def fresh (mark : List Nat) (b : Nat) : List Nat × Option Owed :=
  if b < 128 then ([b],none)
  else match opens b with
    | some owed => ([],some owed)
    | none => (mark,none)

-- Bytes that are no character leave one mark for each beginning that breaks off, and the byte
-- that breaks it off is read afresh.
def decodeFrom (mark : List Nat) : Option Owed → List UInt8 → List Nat
  | none,[] => []
  | some _,[] => mark
  | none,b :: rest => (fresh mark b.toNat).1 ++ decodeFrom mark (fresh mark b.toNat).2 rest
  | some owed,b :: rest =>
    if owed.low ≤ b.toNat ∧ b.toNat ≤ owed.high then
      let code := owed.code * 64 + (b.toNat - 128)
      if owed.tails = 1 then code :: decodeFrom mark none rest
      else decodeFrom mark (some ⟨owed.tails - 1,128,191,code⟩) rest
    else mark ++ (fresh mark b.toNat).1 ++ decodeFrom mark (fresh mark b.toNat).2 rest

def decode (mark : List Nat) (bytes : List UInt8) : List Nat := decodeFrom mark none bytes

theorem encodeChar_some {c : Nat} (scalar : surrogate c = false) : ∃ bytes, encodeChar c = some bytes := by
  unfold encodeChar
  rw [if_neg (by simp [scalar])]
  split
  · exact ⟨_,rfl⟩
  · split
    · exact ⟨_,rfl⟩
    · split <;> exact ⟨_,rfl⟩

theorem encode_some {text : List Nat} (scalars : ∀ c ∈ text, surrogate c = false) : ∃ bytes, encode text = some bytes := by
  induction text with
  | nil => exact ⟨[],rfl⟩
  | cons c rest ih =>
    obtain ⟨first,encoded⟩ := encodeChar_some (scalars c List.mem_cons_self)
    obtain ⟨later,rested⟩ := ih fun d inside => scalars d (List.mem_cons_of_mem _ inside)
    exact ⟨first ++ later,by rw [encode,encoded,Option.bind_some,rested,Option.map_some]⟩

theorem encodeChar_sign (small : c < 1114112) (encoded : encodeChar c = some bytes) (inside : b ∈ bytes) (narrow : b.toNat < 128) : b.toNat = c := by
  have octet : ∀ n : Nat, n.toUInt8.toNat = n % 256 := fun n => by simp [Nat.toUInt8]
  unfold encodeChar at encoded
  split_ifs at encoded <;> cases encoded
  · rw [List.mem_singleton.mp inside,octet]
    omega
  · exfalso
    simp only [List.mem_cons,List.not_mem_nil,or_false] at inside
    rcases inside with rfl | rfl <;> rw [octet] at narrow <;> omega
  · exfalso
    simp only [List.mem_cons,List.not_mem_nil,or_false] at inside
    rcases inside with rfl | rfl | rfl <;> rw [octet] at narrow <;> omega
  · exfalso
    simp only [List.mem_cons,List.not_mem_nil,or_false] at inside
    rcases inside with rfl | rfl | rfl | rfl <;> rw [octet] at narrow <;> omega

theorem encode_sign {text : List Nat} (small : ∀ c ∈ text, c < 1114112) (encoded : encode text = some bytes) (inside : b ∈ bytes)
    (narrow : b.toNat < 128) : b.toNat ∈ text := by
  induction text generalizing bytes with
  | nil =>
    cases encoded
    cases inside
  | cons c rest ih =>
    rw [encode] at encoded
    obtain ⟨first,own,later⟩ := Option.bind_eq_some_iff.mp encoded
    obtain ⟨second,rested,rfl⟩ := Option.map_eq_some_iff.mp later
    rcases List.mem_append.mp inside with here | there
    · exact encodeChar_sign (small c List.mem_cons_self) own here narrow ▸ List.mem_cons_self
    · exact List.mem_cons_of_mem _ (ih (fun d among => small d (List.mem_cons_of_mem _ among)) rested there)

-- The first byte of a character tells how many follow it.
theorem encodeChar_ends (left : c < 1114112) (right : d < 1114112) (first : encodeChar c = some s)
    (second : encodeChar d = some t) (same : s ++ x = t ++ y) : c = d ∧ x = y := by
  have bytes : ∀ m n : Nat, m.toUInt8 = n.toUInt8 ↔ m % 256 = n % 256 := by
    intro m n
    rw [← UInt8.toNat_inj]
    simp [Nat.toUInt8]
  unfold encodeChar at first second
  split_ifs at first <;> cases first <;> split_ifs at second <;> cases second <;>
    simp only [List.cons_append,List.nil_append,List.cons.injEq,bytes] at same <;>
    first
    | omega
    | exact ⟨by omega,same.2⟩
    | exact ⟨by omega,same.2.2⟩
    | exact ⟨by omega,same.2.2.2⟩
    | exact ⟨by omega,same.2.2.2.2⟩

theorem encode_run (inRange : ∀ c ∈ text, c < 1114112) (encoded : encode text = some raw) :
    Framing.Run (fun c s => c < 1114112 ∧ encodeChar c = some s) text raw := by
  induction text generalizing raw with
  | nil =>
    cases encoded
    exact .nil
  | cons c rest ih =>
    rw [encode] at encoded
    obtain ⟨s,first,later⟩ := Option.bind_eq_some_iff.mp encoded
    obtain ⟨t,rested,rfl⟩ := Option.map_eq_some_iff.mp later
    exact .cons ⟨inRange c List.mem_cons_self,first⟩ (ih (fun d inside => inRange d (List.mem_cons_of_mem _ inside)) rested)

theorem encode_injective {s t : List Nat} (left : ∀ c ∈ s, c < 1114112) (right : ∀ c ∈ t, c < 1114112)
    (first : encode s = some raw) (second : encode t = some raw) : s = t := by
  have clear : Framing.Clear (fun c s => c < 1114112 ∧ encodeChar c = some s) 255 := by
    rintro c s ⟨small,encoded⟩
    unfold encodeChar at encoded
    split_ifs at encoded <;> cases encoded <;> refine ⟨_,_,rfl,fun full => ?_⟩ <;>
      have := congrArg UInt8.toNat full <;> simp [Nat.toUInt8] at this <;> omega
  have ends : ∀ c, Framing.Ends (fun c s => c < 1114112 ∧ encodeChar c = some s) (fun c => c) c :=
    fun c d s t x y one two same => encodeChar_ends one.1 two.1 one.2 two.2 same
  simpa using Framing.run_unique clear ends (encode_run left first) (encode_run right second)

theorem decode_ascii (mark : List Nat) {bytes : List UInt8} (ascii : ∀ b ∈ bytes, b.toNat < 128) :
    decode mark bytes = bytes.map UInt8.toNat := by
  induction bytes with
  | nil => rfl
  | cons b rest ih =>
    have plain : fresh mark b.toNat = ([b.toNat],none) := if_pos (ascii b List.mem_cons_self)
    rw [decode,decodeFrom,plain,List.map_cons,← ih fun c inside => ascii c (List.mem_cons_of_mem _ inside)]
    rfl

example : decode [65533] [240,159,104,226,130,172,237,160] = [65533,104,8364,65533,65533] := by decide

end AgentSideCar.Utf8
