import Mathlib.Data.List.Basic

namespace AgentSideCar.Rotation
variable {β : Type}

-- The places of a ring, in turn from a cursor.
def turns (n cursor : Nat) : List Nat := (List.range n).map fun offset => (cursor + offset) % n

-- The first place in turn that offers something.
def scan (offers : Nat → Option β) (n cursor : Nat) : Option (Nat × β) :=
  (turns n cursor).findSome? fun index => (offers index).map (index,·)

def Ahead (n cursor steps index : Nat) : Prop := steps < n ∧ (cursor + steps) % n = index

theorem turns_get (n cursor steps : Nat) : (turns n cursor)[steps]? = if steps < n then some ((cursor + steps) % n) else none := by
  rw [turns,List.getElem?_map]
  split
  · rename_i inside
    rw [List.getElem?_range inside]
    rfl
  · rename_i outside
    rw [List.getElem?_eq_none (by simpa using outside)]
    rfl

theorem ahead_exists (cursor : Nat) (inside : index < n) : ∃ steps, Ahead n cursor steps index := by
  refine ⟨(index + n - cursor % n) % n,Nat.mod_lt _ (by omega),?_⟩
  have low := Nat.mod_lt cursor (show 0 < n by omega)
  rw [Nat.add_mod,Nat.mod_mod,← Nat.add_mod]
  have turned : cursor + (index + n - cursor % n) = index + n * (cursor / n + 1) := by
    have := Nat.div_add_mod cursor n
    rw [Nat.mul_add,Nat.mul_one]
    omega
  rw [turned,Nat.add_mul_mod_self_left,Nat.mod_eq_of_lt inside]

theorem scan_some {offers : Nat → Option β} (found : scan offers n cursor = some (index,x)) :
    ∃ steps, Ahead n cursor steps index ∧ offers index = some x ∧
      ∀ earlier < steps, offers ((cursor + earlier) % n) = none := by
  obtain ⟨before,place,rest,whole,offered,passed⟩ := List.findSome?_eq_some_iff.mp found
  obtain ⟨y,given,same⟩ := Option.map_eq_some_iff.mp offered
  cases same
  have here : (turns n cursor)[before.length]? = some index := by rw [whole]; simp
  rw [turns_get] at here
  split at here
  · rename_i within
    refine ⟨before.length,⟨within,Option.some.inj here⟩,given,fun earlier low => ?_⟩
    have there : (turns n cursor)[earlier]? = before[earlier]? := by
      rw [whole,List.getElem?_append_left low]
    rw [turns_get,if_pos (by omega),List.getElem?_eq_getElem low] at there
    have none' := passed _ (List.getElem_mem low)
    rw [← Option.some.inj there] at none'
    simpa using none'
  · cases here

-- A turn taken before a place that waits brings the cursor nearer to it.
theorem scan_nearer {offers : Nat → Option β} (ahead : Ahead n cursor steps index) (waits : offers index ≠ none)
    (found : scan offers n cursor = some (other,x)) (apart : other ≠ index) :
    ∃ fewer < steps, Ahead n ((other + 1) % n) fewer index := by
  obtain ⟨taken,place,_,passed⟩ := scan_some found
  have before : taken < steps := by
    rcases Nat.lt_trichotomy taken steps with less | same | more
    · exact less
    · exact absurd (place.2.symm.trans (same ▸ ahead.2)) apart
    · exact absurd (passed steps more) (by rw [ahead.2]; exact waits)
  refine ⟨steps - taken - 1,by omega,by have := ahead.1; omega,?_⟩
  rw [← place.2,Nat.mod_add_mod,Nat.add_assoc,Nat.mod_add_mod]
  rw [← Nat.add_assoc,show cursor + taken + 1 + (steps - taken - 1) = cursor + steps by omega]
  exact ahead.2

end AgentSideCar.Rotation
