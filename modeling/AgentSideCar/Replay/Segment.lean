import AgentSideCar.Library.Digits
import AgentSideCar.Library.Utf16

namespace AgentSideCar.Replay.Segment

-- A name is its code points, lone surrogates among them.
abbrev Point := Fin 1114112
abbrev Name := List Point
abbrev Path := List Nat

def tilde : Nat := 126
def dot : Nat := 46

def alphanumeric (u : Nat) : Bool := 48 ≤ u && u ≤ 57 || 65 ≤ u && u ≤ 90 || 97 ≤ u && u ≤ 122
def stands (u : Nat) : Bool := alphanumeric u || u = dot || u = 95 || u = 45

-- The digits of {:04X}; a unit has no more than four.
def hexDigit (d : Nat) : Nat := if d < 10 then 48 + d else 55 + d
def hexValue (c : Nat) : Option Nat :=
  if 48 ≤ c ∧ c ≤ 57 then some (c - 48) else if 65 ≤ c ∧ c ≤ 70 then some (c - 55) else none

def encodeUnit (u : Nat) : Path := if u ≠ tilde && stands u then [u] else tilde :: Hex.hexDigits hexDigit 4 u

def utf16Units (value : Name) : List Nat := Utf16.encode (value.map (·.val))

-- An empty name raises ValueError.
def encodeSegment (value : Name) : Option Path :=
  if value = [] then none
  else if value.map (·.val) = [dot] then some (tilde :: Hex.hexDigits hexDigit 4 dot)
  else if value.map (·.val) = [dot,dot] then
    some (tilde :: Hex.hexDigits hexDigit 4 dot ++ tilde :: Hex.hexDigits hexDigit 4 dot)
  else some ((utf16Units value).flatMap encodeUnit)

def escaped (a b c d : Nat) : Option Nat :=
  match hexValue a,hexValue b,hexValue c,hexValue d with
  | some a,some b,some c,some d => some (((a * 16 + b) * 16 + c) * 16 + d)
  | _,_,_,_ => none

def unitsOf : Path → Option (List Nat)
  | [] => some []
  | char :: rest =>
    if char = tilde then
      match rest with
      | a :: b :: c :: d :: more => (escaped a b c d).bind fun u => (unitsOf more).map (u :: ·)
      | _ => none
    else if stands char then (unitsOf rest).map (char :: ·)
    else none

-- Every unit is at most ~FFFF, so the decoded points are in range.
def pointOf (c : Nat) : Point := Fin.ofNat 1114112 c

def decodeSegment (value : Path) : Option Name :=
  if value = [] ∨ value = [dot] ∨ value = [dot,dot] then none
  else (unitsOf value).bind fun units =>
    let decoded := (Utf16.decode units).map pointOf
    if decoded = [] ∨ encodeSegment decoded ≠ some value then none else some decoded

theorem hexValue_digit : ∀ d < 16, hexValue (hexDigit d) = some d := by decide

theorem escaped_unit (small : u < 65536) (rest : Path) :
    unitsOf (tilde :: Hex.hexDigits hexDigit 4 u ++ rest) = (unitsOf rest).map (u :: ·) := by
  have digits : Hex.hexDigits hexDigit 4 u =
      [hexDigit (u / 16 / 16 / 16 % 16),hexDigit (u / 16 / 16 % 16),hexDigit (u / 16 % 16),hexDigit (u % 16)] := rfl
  have read : escaped (hexDigit (u / 16 / 16 / 16 % 16)) (hexDigit (u / 16 / 16 % 16)) (hexDigit (u / 16 % 16))
      (hexDigit (u % 16)) = some u := by
    have below : ∀ n : Nat, n % 16 < 16 := fun n => Nat.mod_lt n (by decide)
    rw [escaped,hexValue_digit _ (below _),hexValue_digit _ (below _),hexValue_digit _ (below _),hexValue_digit _ (below _)]
    simp only [Option.some.injEq]
    omega
  rw [digits]
  simp only [List.cons_append,List.nil_append,unitsOf,if_true,read,Option.bind_some]

theorem unit_read (small : u < 65536) (rest : Path) : unitsOf (encodeUnit u ++ rest) = (unitsOf rest).map (u :: ·) := by
  unfold encodeUnit
  split
  · rename_i plain
    simp only [ne_eq,decide_not,Bool.and_eq_true,Bool.not_eq_true',decide_eq_false_iff_not] at plain
    rw [List.cons_append,List.nil_append,unitsOf.eq_def]
    exact (if_neg plain.1).trans (if_pos plain.2)
  · exact escaped_unit small rest

theorem units_read (small : ∀ u ∈ units, u < 65536) : unitsOf (units.flatMap encodeUnit) = some units := by
  induction units with
  | nil => rfl
  | cons u rest ih =>
    rw [List.flatMap_cons,unit_read (small u List.mem_cons_self),ih fun v inside => small v (List.mem_cons_of_mem _ inside)]
    rfl

theorem points_inRange (value : Name) : ∀ c ∈ value.map (·.val), c < 1114112 := by
  intro c inside
  obtain ⟨point,-,rfl⟩ := List.mem_map.mp inside
  exact point.isLt

theorem pointOf_val (value : Name) : (value.map (·.val)).map pointOf = value := by
  rw [List.map_map]
  conv => rhs; rw [← List.map_id value]
  refine List.map_congr_left fun point _ => Fin.ext ?_
  exact Nat.mod_eq_of_lt point.isLt

theorem encodeSegment_units (encoded : encodeSegment value = some t) : unitsOf t = some (utf16Units value) := by
  unfold encodeSegment at encoded
  split at encoded
  · cases encoded
  split at encoded
  · rename_i single
    rw [utf16Units,single]
    cases encoded
    decide
  split at encoded
  · rename_i double
    rw [utf16Units,double]
    cases encoded
    decide
  · cases encoded
    exact units_read (Utf16.encode_units (points_inRange value))

theorem encodeSegment_some (some' : value ≠ []) : ∃ t, encodeSegment value = some t := by
  unfold encodeSegment
  rw [if_neg some']
  split
  · exact ⟨_,rfl⟩
  · split <;> exact ⟨_,rfl⟩

theorem encodeSegment_nonempty (encoded : encodeSegment value = some t) : value ≠ [] ∧ utf16Units value ≠ [] := by
  have some' : value ≠ [] := by
    rintro rfl
    cases encoded
  refine ⟨some',fun empty => ?_⟩
  obtain ⟨point,rest,rfl⟩ := List.exists_cons_of_ne_nil some'
  rw [utf16Units,List.map_cons,Utf16.encode,List.flatMap_cons,Utf16.encodeChar] at empty
  split at empty <;> cases empty

theorem encodeSegment_dots (encoded : encodeSegment value = some t) : t ≠ [dot] ∧ t ≠ [dot,dot] := by
  have units := encodeSegment_units encoded
  have dots : ∀ l : Path, (∀ u ∈ l, u < 55296) → utf16Units value = l → value.map (·.val) = l := by
    intro l low same
    rw [← same]
    exact (Utf16.encode_low (by rw [← utf16Units,same]; exact low)).symm
  unfold encodeSegment at encoded
  split at encoded
  · cases encoded
  split at encoded
  · cases encoded
    decide
  rename_i notSingle
  split at encoded
  · cases encoded
    decide
  rename_i notDouble
  constructor
  · rintro rfl
    exact notSingle (dots [dot] (by decide) (Option.some.inj units).symm)
  · rintro rfl
    exact notDouble (dots [dot,dot] (by decide) (Option.some.inj units).symm)

def written (c : Nat) : Bool := c = tilde || stands c

theorem encodeUnit_written (inside : c ∈ encodeUnit u) : written c = true := by
  unfold encodeUnit at inside
  split at inside
  · rename_i plain
    cases List.mem_singleton.mp inside
    simp only [Bool.and_eq_true] at plain
    rw [written,plain.2,Bool.or_true]
  · rcases List.mem_cons.mp inside with rfl | digit
    · decide
    · obtain ⟨d,small,rfl⟩ := Hex.hexDigits_digit digit
      have all : ∀ d < 16, written (hexDigit d) = true := by decide
      exact all d small

theorem encodeSegment_written (encoded : encodeSegment value = some t) : ∀ c ∈ t, written c = true := by
  unfold encodeSegment at encoded
  split at encoded
  · cases encoded
  split at encoded
  · cases encoded
    decide
  split at encoded
  · cases encoded
    decide
  · cases encoded
    intro c inside
    obtain ⟨u,-,char⟩ := List.mem_flatMap.mp inside
    exact encodeUnit_written char

-- A name without lone surrogates.
structure WellFormed where
  name : Name
  nonempty : name ≠ []
  scalars : ∀ point ∈ name, Utf8.surrogate point.val = false

theorem WellFormed.decoded (n : WellFormed) : (Utf16.decode (utf16Units n.name)).map pointOf = n.name := by
  rw [utf16Units,Utf16.decode_encode,pointOf_val]
  intro c inside
  obtain ⟨point,held,rfl⟩ := List.mem_map.mp inside
  exact ⟨point.isLt,n.scalars point held⟩

theorem decode_encoded (n : WellFormed) (encoded : encodeSegment n.name = some t) : decodeSegment t = some n.name := by
  obtain ⟨single,double⟩ := encodeSegment_dots encoded
  have units := encodeSegment_units encoded
  have full : t ≠ [] := by
    rintro rfl
    exact (encodeSegment_nonempty encoded).2 (Option.some.inj units).symm
  rw [decodeSegment,if_neg (by simp [full,single,double]),units,Option.bind_some,n.decoded]
  exact if_neg (by simp [n.nonempty,encoded])

theorem encode_decoded (decoded : decodeSegment t = some s) : encodeSegment s = some t := by
  unfold decodeSegment at decoded
  split at decoded
  · cases decoded
  obtain ⟨units,-,decoded⟩ := Option.bind_eq_some_iff.mp decoded
  simp only at decoded
  split at decoded
  · cases decoded
  · rename_i accepted
    cases decoded
    exact of_not_not fun differs => accepted (.inr differs)

-- Names without lone surrogates come back from their segments, an accepted segment is the
-- only one of its name, and no segment names a directory of its own or leaves its own.
theorem segment_round_trip :
    (∀ n : WellFormed, ∃ t, encodeSegment n.name = some t ∧ decodeSegment t = some n.name) ∧
    (∀ t s, decodeSegment t = some s → encodeSegment s = some t) ∧
    (∀ m n : WellFormed, encodeSegment m.name = encodeSegment n.name → m.name = n.name) ∧
    ∀ s t, encodeSegment s = some t → t ≠ [dot] ∧ t ≠ [dot,dot] ∧ 47 ∉ t ∧ 92 ∉ t := by
  refine ⟨fun n => ?_,fun t s => encode_decoded,fun m n same => ?_,fun s t encoded => ?_⟩
  · obtain ⟨t,encoded⟩ := encodeSegment_some n.nonempty
    exact ⟨t,encoded,decode_encoded n encoded⟩
  · obtain ⟨t,encoded⟩ := encodeSegment_some m.nonempty
    have left := decode_encoded m encoded
    rw [decode_encoded n (same ▸ encoded)] at left
    exact (Option.some.inj left).symm
  · obtain ⟨single,double⟩ := encodeSegment_dots encoded
    refine ⟨single,double,fun slash => ?_,fun backslash => ?_⟩
    · exact absurd (encodeSegment_written encoded _ slash) (by decide)
    · exact absurd (encodeSegment_written encoded _ backslash) (by decide)

-- A lone surrogate beside its partner is the name that would collide.
example : encodeSegment [55357,56832] = encodeSegment [128512] := by decide +kernel

end AgentSideCar.Replay.Segment
