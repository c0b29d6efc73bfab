import AgentSideCar.Library.Utf8

namespace AgentSideCar.Utf16
open Utf8 (surrogate)

-- The units of a text. A lone surrogate passes as itself, both ways.
def encodeChar (c : Nat) : List Nat :=
  if c < 65536 then [c] else [55296 + (c - 65536) / 1024,56320 + (c - 65536) % 1024]

def encode (text : List Nat) : List Nat := text.flatMap encodeChar

def leads (u : Nat) : Bool := 55296 ≤ u && u < 56320
def trails (u : Nat) : Bool := 56320 ≤ u && u < 57344

def decode : List Nat → List Nat
  | [] => []
  | [u] => [u]
  | u :: v :: rest =>
    if leads u && trails v then (65536 + (u - 55296) * 1024 + (v - 56320)) :: decode rest else u :: decode (v :: rest)

def Scalar (c : Nat) : Prop := c < 1114112 ∧ surrogate c = false

theorem encode_units (inRange : ∀ c ∈ text, c < 1114112) : ∀ u ∈ encode text, u < 65536 := by
  intro u inside
  obtain ⟨c,held,unit⟩ := List.mem_flatMap.mp inside
  have bound := inRange c held
  unfold encodeChar at unit
  split at unit
  · rename_i small
    exact List.mem_singleton.mp unit ▸ small
  · simp only [List.mem_cons,List.not_mem_nil,or_false] at unit
    omega

theorem encode_low (low : ∀ u ∈ encode text, u < 55296) : encode text = text := by
  induction text with
  | nil => rfl
  | cons c rest ih =>
    have early : ∀ u ∈ encodeChar c, u < 55296 := fun u inside => low u (List.mem_append_left _ inside)
    have later : ∀ u ∈ encode rest, u < 55296 := fun u inside => low u (List.mem_append_right _ inside)
    have single : encodeChar c = [c] := by
      unfold encodeChar at early ⊢
      split at early
      · exact if_pos (by assumption)
      · have := early _ List.mem_cons_self
        omega
    rw [encode,List.flatMap_cons,single]
    exact congrArg (c :: ·) (ih later)

theorem decode_plain (apart : leads u = false) (rest : List Nat) : decode (u :: rest) = u :: decode rest := by
  cases rest with
  | nil => rfl
  | cons v rest => rw [decode,apart,Bool.false_and,if_neg Bool.false_ne_true]

theorem decode_char (scalar : Scalar c) (rest : List Nat) : decode (encodeChar c ++ rest) = c :: decode rest := by
  obtain ⟨bound,whole⟩ := scalar
  unfold encodeChar
  split
  · refine decode_plain ?_ rest
    simp only [surrogate,leads,Bool.and_eq_false_iff,decide_eq_false_iff_not] at whole ⊢
    omega
  · rename_i large
    have pair : (leads (55296 + (c - 65536) / 1024) && trails (56320 + (c - 65536) % 1024)) = true := by
      simp only [leads,trails,Bool.and_eq_true,decide_eq_true_eq]
      omega
    have joined : 65536 + (55296 + (c - 65536) / 1024 - 55296) * 1024 + (56320 + (c - 65536) % 1024 - 56320) = c := by
      omega
    rw [List.cons_append,List.cons_append,List.nil_append,decode,if_pos pair,joined]

theorem decode_encode (scalars : ∀ c ∈ text, Scalar c) : decode (encode text) = text := by
  induction text with
  | nil => rfl
  | cons c rest ih =>
    rw [encode,List.flatMap_cons,decode_char (scalars c List.mem_cons_self)]
    exact congrArg (c :: ·) (ih fun d inside => scalars d (List.mem_cons_of_mem _ inside))

example : decode (encode [104,128512]) = [104,128512] := by decide

end AgentSideCar.Utf16
