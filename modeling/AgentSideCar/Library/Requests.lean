import Mathlib.Logic.Basic

namespace AgentSideCar.Requests
variable {κ ι : Type} [DecidableEq κ]

-- A request that was started, with what it was started with.
structure Request (κ ι : Type) where
  kind : κ
  asked : ι
  aborted : Bool := false
  settled : Bool := false

def Request.flies (k : κ) (r : Request κ ι) : Bool := decide (r.kind = k) && !r.aborted && !r.settled

-- How many requests of a kind are under way: neither settled nor aborted.
def flying (k : κ) (rs : List (Request κ ι)) : Nat := rs.countP (Request.flies k)

def start (k : κ) (asked : ι) (rs : List (Request κ ι)) : List (Request κ ι) := rs ++ [⟨k,asked,false,false⟩]
def abort (p : κ → Bool) (rs : List (Request κ ι)) : List (Request κ ι) :=
  rs.map fun r => if p r.kind && !r.settled then {r with aborted := true} else r
def abortAt (i : Nat) (rs : List (Request κ ι)) : List (Request κ ι) := rs.modify i fun r => {r with aborted := true}
def settle (i : Nat) (rs : List (Request κ ι)) : List (Request κ ι) := rs.modify i fun r => {r with settled := true}

-- What holds of every request of a kind that is under way.
def Fits (k : κ) (fits : ι → Prop) (rs : List (Request κ ι)) : Prop := ∀ r ∈ rs, r.flies k = true → fits r.asked

variable {k : κ} {rs : List (Request κ ι)} {i : Nat} {r : Request κ ι} {fits : ι → Prop}

theorem flies_iff : r.flies k = true ↔ r.kind = k ∧ r.aborted = false ∧ r.settled = false := by
  simp [Request.flies,and_assoc]

theorem flying_start (k' : κ) (asked : ι) : flying k (start k' asked rs) = flying k rs + if k' = k then 1 else 0 := by
  rw [flying,start,List.countP_append]
  by_cases same : k' = k <;> simp [flying,Request.flies,same]

theorem flying_abort (p : κ → Bool) : flying k (abort p rs) = if p k then 0 else flying k rs := by
  induction rs with
  | nil => split <;> rfl
  | cons r rest ih =>
    have one : (if p r.kind && !r.settled then {r with aborted := true} else r : Request κ ι).flies k = (r.flies k && !p k) := by
      by_cases same : r.kind = k
      · subst same
        cases p r.kind <;> cases sets : r.settled <;> simp [Request.flies,sets]
      · split <;> simp [Request.flies,same]
    rw [flying] at ih ⊢
    rw [abort,List.map_cons,List.countP_cons,one,show rest.map _ = abort p rest from rfl,ih,flying,flying,List.countP_cons]
    cases p k <;> simp

omit [DecidableEq κ] in
theorem modify_of_get {f : Request κ ι → Request κ ι} (there : rs[i]? = some r) : rs.modify i f = rs.set i (f r) := by
  apply List.ext_getElem?
  intro j
  rw [List.getElem?_modify,List.getElem?_set]
  have bound := (List.getElem?_eq_some_iff.mp there).1
  by_cases same : i = j
  · subst same
    rw [there,if_pos rfl,if_pos bound]
    simp
  · simp [same]

theorem flying_modify {f : Request κ ι → Request κ ι} (there : rs[i]? = some r) (lands : (f r).flies k = false) :
    flying k (rs.modify i f) + (if r.flies k then 1 else 0) = flying k rs := by
  obtain ⟨bound,same⟩ := List.getElem?_eq_some_iff.mp there
  have pos : r.flies k = true → 0 < rs.countP (Request.flies k) := fun flies =>
    List.countP_pos_iff.mpr ⟨r,List.mem_of_getElem? there,flies⟩
  rw [modify_of_get there,flying,flying,List.countP_set bound,same,lands]
  split
  · rename_i flies
    have := pos flies
    simp
    omega
  · simp

theorem flying_settle (there : rs[i]? = some r) : flying k (settle i rs) + (if r.flies k then 1 else 0) = flying k rs :=
  flying_modify there (by simp [Request.flies])

theorem flying_abortAt (there : rs[i]? = some r) : flying k (abortAt i rs) + (if r.flies k then 1 else 0) = flying k rs :=
  flying_modify there (by simp [Request.flies])

theorem flying_pos : 0 < flying k rs ↔ ∃ r ∈ rs, r.flies k = true := List.countP_pos_iff

theorem Fits.none (idle : flying k rs = 0) : Fits k fits rs := fun r inside flies =>
  absurd flies (List.countP_eq_zero.mp idle r inside)

theorem Fits.start (all : Fits k fits rs) {k' : κ} {asked : ι} (new : k' = k → fits asked) : Fits k fits (start k' asked rs) := by
  intro r inside flies
  rcases List.mem_append.mp inside with old | last
  · exact all r old flies
  · cases List.mem_singleton.mp last
    exact new (flies_iff.mp flies).1

theorem Fits.abort (all : Fits k fits rs) (p : κ → Bool) : Fits k fits (abort p rs) := by
  intro r inside flies
  obtain ⟨old,was,rfl⟩ := List.mem_map.mp inside
  split at flies
  · cases (flies_iff.mp flies).2.1
  · rename_i kept
    simp only [kept]
    exact all old was flies

section Places
omit [DecidableEq κ]

theorem mem_modify {f : Request κ ι → Request κ ι} (inside : r ∈ rs.modify i f) : r ∈ rs ∨ ∃ old ∈ rs, r = f old := by
  obtain ⟨j,there⟩ := List.getElem?_of_mem inside
  rw [List.getElem?_modify] at there
  obtain ⟨old,was,same⟩ := Option.map_eq_some_iff.mp there
  have held := List.mem_of_getElem? was
  split at same
  · exact .inr ⟨old,held,same.symm⟩
  · exact .inl (same ▸ held)

theorem mem_modify_of_get {f : Request κ ι → Request κ ι} (there : rs[i]? = some r) {other : Request κ ι}
    (inside : other ∈ rs.modify i f) : other ∈ rs ∨ other = f r := by
  rw [modify_of_get there] at inside
  exact List.mem_or_eq_of_mem_set inside

theorem get_start (there : rs[i]? = some r) (k : κ) (asked : ι) : (start k asked rs)[i]? = some r :=
  (List.getElem?_append_left (List.getElem?_eq_some_iff.mp there).1).trans there

theorem get_start_last (k : κ) (asked : ι) : (start k asked rs)[rs.length]? = some ⟨k,asked,false,false⟩ := by simp [start]

theorem get_abort (there : rs[i]? = some r) {p : κ → Bool} (spared : p r.kind = false) : (abort p rs)[i]? = some r := by
  rw [abort,List.getElem?_map,there,Option.map_some,spared]
  rfl

theorem get_modify {f : Request κ ι → Request κ ι} (there : rs[i]? = some r) : (rs.modify i f)[i]? = some (f r) := by
  simp [there]

theorem get_modify_other {f : Request κ ι → Request κ ι} {j : Nat} (apart : i ≠ j) : (rs.modify i f)[j]? = rs[j]? := by
  simp [apart]

end Places

theorem Fits.modify {f : Request κ ι → Request κ ι} (all : Fits k fits rs) (lands : ∀ r, (f r).flies k = false) :
    Fits k fits (rs.modify i f) := by
  intro r inside flies
  rcases mem_modify inside with old | ⟨old,_,rfl⟩
  · exact all r old flies
  · cases (lands old).symm.trans flies

theorem Fits.settle (all : Fits k fits rs) (i : Nat) : Fits k fits (settle i rs) :=
  all.modify fun r => by simp [Request.flies]

theorem Fits.abortAt (all : Fits k fits rs) (i : Nat) : Fits k fits (abortAt i rs) :=
  all.modify fun r => by simp [Request.flies]

theorem Fits.mono {weaker : ι → Prop} (all : Fits k fits rs) (weaken : ∀ asked, fits asked → weaker asked) : Fits k weaker rs :=
  fun r inside flies => weaken _ (all r inside flies)

end AgentSideCar.Requests
