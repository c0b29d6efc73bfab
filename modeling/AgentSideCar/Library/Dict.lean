import Mathlib.Algebra.GroupWithZero.Nat
import Mathlib.Data.List.Nodup

namespace AgentSideCar
variable {κ ν : Type}

-- An insertion-ordered map: a key keeps its place when its value is replaced.
structure Dict (κ ν : Type) where
  entries : List (κ × ν)
  unique : (entries.map Prod.fst).Nodup
  deriving DecidableEq

namespace Dict

def empty : Dict κ ν := ⟨[],List.nodup_nil⟩

def keys (d : Dict κ ν) : List κ := d.entries.map Prod.fst
def values (d : Dict κ ν) : List ν := d.entries.map Prod.snd

def filter (d : Dict κ ν) (keep : κ → ν → Bool) : Dict κ ν :=
  ⟨d.entries.filter fun e => keep e.1 e.2,d.unique.sublist (List.filter_sublist.map _)⟩

def mapValues (d : Dict κ ν) (f : ν → ν) : Dict κ ν :=
  ⟨d.entries.map fun e => (e.1,f e.2),by rw [List.map_map]; exact d.unique⟩

-- What the values of a map weigh together; with a weight of one each, how many there are.
def weigh (d : Dict κ ν) (f : ν → Nat) : Nat := (d.entries.map fun e => f e.2).sum

def size (d : Dict κ ν) : Nat := d.entries.length

theorem size_weigh (d : Dict κ ν) : d.size = d.weigh fun _ => 1 := by simp [size,weigh]

theorem weigh_filter (d : Dict κ ν) (keep : κ → ν → Bool) (f : ν → Nat) : (d.filter keep).weigh f ≤ d.weigh f := by
  rcases d with ⟨entries,unique⟩
  simp only [weigh,filter]
  clear unique
  induction entries with
  | nil => exact Nat.le_refl _
  | cons e rest ih =>
    rw [List.filter_cons,List.map_cons,List.sum_cons]
    split
    · rw [List.map_cons,List.sum_cons]
      omega
    · omega

theorem weigh_mono (d : Dict κ ν) {f g : ν → Nat} (less : ∀ v, f v ≤ g v) : d.weigh f ≤ d.weigh g := by
  rcases d with ⟨entries,unique⟩
  simp only [weigh]
  clear unique
  induction entries with
  | nil => exact Nat.le_refl _
  | cons e rest ih =>
    rw [List.map_cons,List.sum_cons,List.map_cons,List.sum_cons]
    have := less e.2
    omega

section Lookup
variable [DecidableEq κ]

def get (d : Dict κ ν) (k : κ) : Option ν := (d.entries.find? fun e => e.1 = k).map Prod.snd

def erase (d : Dict κ ν) (k : κ) : Dict κ ν := d.filter fun key _ => key ≠ k

theorem set_unique (d : Dict κ ν) (k : κ) (v : ν) :
    ((if k ∈ d.keys then d.entries.map fun e => if e.1 = k then (k,v) else e
      else d.entries ++ [(k,v)]).map Prod.fst).Nodup := by
  split
  · have same : (d.entries.map fun e => if e.1 = k then (k,v) else e).map Prod.fst = d.entries.map Prod.fst := by
      rw [List.map_map]
      refine List.map_congr_left fun e _ => ?_
      simp only [Function.comp]
      split <;> simp_all
    rw [same]; exact d.unique
  · rename_i absent
    rw [List.map_append]
    refine List.nodup_append.mpr ⟨d.unique,by simp,?_⟩
    rintro a old b new rfl
    cases List.mem_singleton.mp new
    exact absent old

def set (d : Dict κ ν) (k : κ) (v : ν) : Dict κ ν := ⟨_,set_unique d k v⟩

theorem get_iff (d : Dict κ ν) : d.get k = some v ↔ (k,v) ∈ d.entries := by
  constructor
  · intro found
    obtain ⟨e,present,same⟩ := Option.map_eq_some_iff.mp found
    have named : e.1 = k := by simpa using List.find?_some present
    rw [← named,← same]
    exact List.mem_of_find?_eq_some present
  · intro present
    unfold get
    cases found : d.entries.find? fun e => e.1 = k with
    | none => simpa using List.find?_eq_none.mp found (k,v) present
    | some e =>
      have named : e.1 = k := by simpa using List.find?_some found
      have same := List.inj_on_of_nodup_map d.unique (List.mem_of_find?_eq_some found) present named
      simp [same]

theorem get_none (d : Dict κ ν) : d.get k = none ↔ k ∉ d.keys := by
  rw [Option.eq_none_iff_forall_not_mem]
  simp only [Option.mem_def,get_iff,keys,List.mem_map,Prod.exists,not_exists,not_and]
  constructor
  · rintro absent a v present rfl; exact absent v present
  · intro absent v present; exact absent k v present rfl

theorem mem_keys (d : Dict κ ν) : k ∈ d.keys ↔ ∃ v, d.get k = some v := by
  rw [← Option.isSome_iff_exists,← Option.ne_none_iff_isSome,ne_eq,get_none,not_not]

theorem values_map (d : Dict κ ν) {f : ν → α} {g : κ → α} (same : ∀ k v, d.get k = some v → f v = g k) :
    d.values.map f = d.keys.map g := by
  rw [values,keys,List.map_map,List.map_map]
  refine List.map_congr_left fun e inside => ?_
  exact same e.1 e.2 ((get_iff d).mpr inside)

theorem get_empty : (empty : Dict κ ν).get k = none := rfl

theorem get_filter (d : Dict κ ν) (keep : κ → ν → Bool) :
    (d.filter keep).get k = (d.get k).filter (keep k) := by
  ext v
  simp [get_iff,filter,Option.filter_eq_some_iff]

theorem get_mapValues (d : Dict κ ν) (f : ν → ν) : (d.mapValues f).get k = (d.get k).map f := by
  rw [get,mapValues,List.find?_map,get,Option.map_map,Option.map_map]
  rfl

theorem get_erase (d : Dict κ ν) : (d.erase k).get j = if j = k then none else d.get j := by
  unfold erase
  rw [get_filter]
  split <;> cases d.get j <;> simp_all

theorem get_set (d : Dict κ ν) : (d.set k v).get j = if j = k then some v else d.get j := by
  ext w
  rw [get_iff]
  by_cases present : k ∈ d.keys
  · simp only [set,present,if_true,List.mem_map,Prod.exists]
    constructor
    · rintro ⟨a,u,old,same⟩
      split at same
      · cases same; simp
      · cases same
        rename_i differs
        simpa [differs,get_iff] using old
    · intro found
      split at found
      · rename_i same
        cases found
        obtain ⟨a,u,old⟩ := List.mem_map.mp present
        exact ⟨a.1,a.2,u,by simp [old,same]⟩
      · rename_i differs
        exact ⟨j,w,(get_iff d).mp found,by simp [differs]⟩
  · simp only [set,present,if_false,List.mem_append,List.mem_singleton,Prod.mk.injEq]
    by_cases same : j = k
    · subst same
      have absent : (j,w) ∉ d.entries := fun old => present (List.mem_map.mpr ⟨_,old,rfl⟩)
      simp [absent,eq_comm]
    · simp [same,get_iff]

theorem erase_set (d : Dict κ ν) : (d.set k v).erase k = d.erase k := by
  rcases d with ⟨entries,unique⟩
  simp only [erase,filter,set,keys,mk.injEq]
  have replaced : ∀ entries : List (κ × ν), (entries.map fun e => if e.1 = k then (k,v) else e).filter (fun e => decide (e.1 ≠ k)) =
      entries.filter fun e => decide (e.1 ≠ k) := by
    intro entries
    induction entries with
    | nil => rfl
    | cons e rest ih =>
      rw [List.map_cons,List.filter_cons,List.filter_cons,ih]
      by_cases same : e.1 = k <;> simp [same]
  by_cases present : k ∈ entries.map Prod.fst
  · simp only [present,if_true,replaced]
  · simp only [present,if_false,List.filter_append]
    simp

theorem filter_key (d : Dict κ ν) : d.entries.filter (fun e => e.1 = k) = (d.get k).toList.map (k,·) := by
  rcases d with ⟨entries,unique⟩
  simp only [get]
  induction entries with
  | nil => rfl
  | cons e rest ih =>
    rw [List.map_cons,List.nodup_cons] at unique
    rw [List.filter_cons,List.find?_cons]
    by_cases same : e.1 = k
    · subst same
      have alone : rest.filter (fun other => other.1 = e.1) = [] := by
        refine List.filter_eq_nil_iff.mpr fun other inside => ?_
        have apart : other.1 ≠ e.1 := fun again => unique.1 (List.mem_map.mpr ⟨other,inside,again⟩)
        simpa using apart
      simp [alone]
    · simpa [same] using ih unique.2

theorem weigh_erase (d : Dict κ ν) (f : ν → Nat) (found : d.get k = some v) : (d.erase k).weigh f + f v = d.weigh f := by
  rw [get_iff] at found
  rcases d with ⟨entries,unique⟩
  simp only [weigh,erase,filter] at found ⊢
  induction entries with
  | nil => cases found
  | cons e rest ih =>
    obtain ⟨fresh,unique⟩ := List.nodup_cons.mp unique
    rw [List.map_cons,List.sum_cons]
    rcases List.mem_cons.mp found with same | later
    · subst same
      have kept : rest.filter (fun other => decide (other.1 ≠ k)) = rest := by
        refine List.filter_eq_self.mpr fun other inside => ?_
        simpa using fun again : other.1 = k => fresh (List.mem_map.mpr ⟨other,inside,again⟩)
      rw [List.filter_cons_of_neg (by simp),kept,Nat.add_comm]
    · have apart : e.1 ≠ k := fun same => fresh (List.mem_map.mpr ⟨_,later,same.symm⟩)
      rw [List.filter_cons_of_pos (by simpa using apart),List.map_cons,List.sum_cons]
      have := ih unique later
      omega

theorem size_erase (d : Dict κ ν) (found : d.get k = some v) : (d.erase k).size + 1 = d.size := by
  rw [size_weigh,size_weigh]
  exact d.weigh_erase (fun _ => 1) found

theorem set_absent (d : Dict κ ν) (absent : d.get k = none) (v : ν) : (d.set k v).entries = d.entries ++ [(k,v)] := by
  rw [get_none] at absent
  simp [set,absent]

theorem weigh_set (d : Dict κ ν) (absent : d.get k = none) (v : ν) (f : ν → Nat) :
    (d.set k v).weigh f = d.weigh f + f v := by
  rw [weigh,set_absent d absent,List.map_append,List.sum_append,weigh]
  simp

theorem weigh_replace (d : Dict κ ν) (found : d.get k = some u) (v : ν) (f : ν → Nat) :
    (d.set k v).weigh f + f u = d.weigh f + f v := by
  have old := d.weigh_erase f found
  have new := (d.set k v).weigh_erase f (v := v) (k := k) (by rw [get_set,if_pos rfl])
  rw [erase_set] at new
  omega

theorem size_set (d : Dict κ ν) (absent : d.get k = none) (v : ν) : (d.set k v).size = d.size + 1 := by
  rw [size_weigh,size_weigh,weigh_set d absent]

end Lookup
end Dict
end AgentSideCar
