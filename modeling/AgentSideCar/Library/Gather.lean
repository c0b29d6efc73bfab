import Mathlib.Data.List.Dedup
import Mathlib.Data.List.Induction
import Mathlib.Data.List.Perm.Subperm
import AgentSideCar.Library.Dict

namespace AgentSideCar.Gather
variable {α κ ν : Type}

-- What the elements of a list make of the first one's start.
def collect (start : α → ν) (put : ν → α → ν) : List α → Option ν
  | [] => none
  | a :: rest => some ((a :: rest).foldl put (start a))

theorem collect_snoc (start : α → ν) (put : ν → α → ν) (l : List α) (a : α) :
    collect start put (l ++ [a]) = some (put ((collect start put l).getD (start a)) a) := by
  cases l with
  | nil => rfl
  | cons b rest => simp [collect]

section Grouping
variable [DecidableEq κ]

-- Elements are gathered under their keys, in the order of the first of each.
def gather (key : α → κ) (start : α → ν) (put : ν → α → ν) (l : List α) : Dict κ ν :=
  l.foldl (fun d a => d.set (key a) (put ((d.get (key a)).getD (start a)) a)) Dict.empty

theorem gather_get (key : α → κ) (start : α → ν) (put : ν → α → ν) (l : List α) (k : κ) :
    (gather key start put l).get k = collect start put (l.filter fun a => key a = k) := by
  induction l using List.reverseRecOn with
  | nil => rfl
  | append_singleton l a ih =>
    rw [gather,List.foldl_append,List.foldl_cons,List.foldl_nil,← gather,Dict.get_set,List.filter_append]
    by_cases same : k = key a
    · subst same
      rw [if_pos rfl,ih,List.filter_cons_of_pos (by simp),List.filter_nil,collect_snoc]
    · have apart : decide (key a = k) = false := by simpa using fun again : key a = k => same again.symm
      rw [if_neg same,ih,List.filter_cons_of_neg (by simp [apart]),List.filter_nil,List.append_nil]

theorem gather_keys (key : α → κ) (start : α → ν) (put : ν → α → ν) (l : List α) :
    k ∈ (gather key start put l).keys ↔ ∃ a ∈ l, key a = k := by
  rw [Dict.mem_keys,gather_get]
  cases here : l.filter fun a => key a = k with
  | nil =>
    have none_here := List.filter_eq_nil_iff.mp here
    simp only [collect,reduceCtorEq,exists_false,false_iff]
    rintro ⟨a,inside,same⟩
    exact none_here a inside (by simpa using same)
  | cons a rest =>
    have first : a ∈ l.filter fun a => key a = k := here ▸ List.mem_cons_self
    rw [List.mem_filter,decide_eq_true_eq] at first
    exact ⟨fun _ => ⟨a,first⟩,fun _ => ⟨_,rfl⟩⟩

theorem classes_perm (key : α → Option κ) (ks : List κ) (l : List α) (nodup : ks.Nodup) :
    (ks.flatMap fun k => l.filter (key · = some k)).Perm (l.filter fun a => ∃ k ∈ ks, key a = some k) := by
  induction ks with
  | nil => simp
  | cons k ks ih =>
    obtain ⟨fresh,nodup⟩ := List.nodup_cons.mp nodup
    have whole := List.filter_append_perm (key · = some k) (l.filter fun a => ∃ j ∈ k :: ks, key a = some j)
    refine .trans ?_ whole
    rw [List.flatMap_cons,List.filter_filter,List.filter_filter]
    refine .append (.of_eq (List.filter_congr fun a _ => ?_)) ((ih nodup).trans (.of_eq (List.filter_congr fun a _ => ?_)))
    · by_cases here : key a = some k <;> simp [here]
    · by_cases here : key a = some k
      · simp [here,fresh]
      · simp [here]

end Grouping

section Fresh
variable [DecidableEq α]

-- A value is kept the first time, while fewer than the cap are.
def keepNew (cap : Option Nat) (seen : List α) (value : α) : List α :=
  if value ∈ seen ∨ ∃ most ∈ cap, most ≤ seen.length then seen else seen ++ [value]

theorem keepNew_nodup (cap : Option Nat) {seen : List α} (value : α) (distinct : seen.Nodup) : (keepNew cap seen value).Nodup := by
  unfold keepNew
  split
  · exact distinct
  · rename_i fresh
    rw [not_or] at fresh
    refine List.nodup_append.mpr ⟨distinct,List.nodup_singleton value,?_⟩
    rintro a inside b alone rfl
    cases List.mem_singleton.mp alone
    exact fresh.1 inside

theorem foldl_keepNew_nodup (cap : Option Nat) (l : List α) {seen : List α} (distinct : seen.Nodup) :
    (l.foldl (keepNew cap) seen).Nodup := by
  induction l generalizing seen with
  | nil => exact distinct
  | cons value l ih => exact ih (keepNew_nodup cap value distinct)

theorem keepNew_mem {cap : Option Nat} {seen : List α} (room : value ∉ seen → ∀ most ∈ cap, seen.length < most) :
    a ∈ keepNew cap seen value ↔ a ∈ seen ∨ a = value := by
  unfold keepNew
  split
  · rename_i full
    rcases full with old | full
    · constructor
      · exact .inl
      · rintro (inside | rfl)
        · exact inside
        · exact old
    · by_cases old : value ∈ seen
      · constructor
        · exact .inl
        · rintro (inside | rfl)
          · exact inside
          · exact old
      · obtain ⟨most,capped,full⟩ := full
        have := room old most capped
        omega
  · simp

theorem foldl_keepNew_mem {cap : Option Nat} {l seen whole : List α} (distinct : seen.Nodup) (inside : seen ⊆ whole)
    (rest : l ⊆ whole) (few : ∀ most ∈ cap, whole.dedup.length ≤ most) : a ∈ l.foldl (keepNew cap) seen ↔ a ∈ seen ∨ a ∈ l := by
  induction l generalizing seen with
  | nil => simp
  | cons value l ih =>
    have room : value ∉ seen → ∀ most ∈ cap, seen.length < most := by
      intro fresh most capped
      have nodup : (value :: seen).Nodup := List.nodup_cons.mpr ⟨fresh,distinct⟩
      have among : value :: seen ⊆ whole.dedup := by
        intro b there
        rw [List.mem_dedup]
        rcases List.mem_cons.mp there with rfl | there
        · exact rest List.mem_cons_self
        · exact inside there
      have := (List.subperm_of_subset nodup among).length_le
      rw [List.length_cons] at this
      have := few most capped
      omega
    have grown : keepNew cap seen value ⊆ whole := by
      intro b there
      rcases (keepNew_mem room).mp there with there | rfl
      · exact inside there
      · exact rest List.mem_cons_self
    rw [List.foldl_cons,ih (keepNew_nodup cap value distinct) grown (fun b there => rest (List.mem_cons_of_mem _ there)),
      keepNew_mem room,List.mem_cons,or_assoc]

end Fresh

-- While fewer than `cap` are there, a value goes to the end.
def keepFirst (cap : Nat) (seen : List α) (value : α) : List α := if seen.length < cap then seen ++ [value] else seen

theorem foldl_keepFirst {cap : Nat} {l seen : List α} (few : seen.length + l.length ≤ cap) :
    l.foldl (keepFirst cap) seen = seen ++ l := by
  induction l generalizing seen with
  | nil => simp
  | cons value l ih =>
    rw [List.length_cons] at few
    have room : seen.length < cap := by omega
    rw [List.foldl_cons,keepFirst,if_pos room,ih (by rw [List.length_append,List.length_singleton]; omega),
      List.append_assoc,List.singleton_append]

section Keyed
variable {key : α → κ} {owner : α → ν}

-- What comes of adding the elements of a list whose keys are new.
structure AddedFrom (key : α → κ) (l added : List α) : Prop where
  distinct : (added.map key).Nodup
  inside : added ⊆ l
  stands : ∀ a ∈ l, ∃ b ∈ added, key b = key a

-- The added elements show each owner once, and none stands for another's element, exactly
-- if the keys tell owners apart and nothing else.
theorem AddedFrom.owners_iff (from' : AddedFrom key l added) :
    ((added.map owner).Nodup ∧ (∀ a ∈ l, owner a ∈ added.map owner) ∧
      ∀ a ∈ l, ∀ b ∈ added, key b = key a → owner b = owner a) ↔
    ∀ a ∈ l, ∀ b ∈ l, key a = key b ↔ owner a = owner b := by
  constructor
  · rintro ⟨once,_,own⟩ a ina b inb
    obtain ⟨c,addedc,samec⟩ := from'.stands a ina
    obtain ⟨d,addedd,samed⟩ := from'.stands b inb
    constructor
    · intro same
      rw [← own a ina c addedc samec]
      exact own b inb c addedc (samec.trans same)
    · intro same
      have owners : owner c = owner d := by rw [own a ina c addedc samec,own b inb d addedd samed,same]
      rw [← samec,← samed,List.inj_on_of_nodup_map once addedc addedd owners]
  · intro tells
    refine ⟨?_,fun a ina => ?_,fun a ina b addedb same => (tells b (from'.inside addedb) a ina).mp same⟩
    · refine List.Nodup.map_on (fun c addedc d addedd same => ?_) (List.Nodup.of_map key from'.distinct)
      have keys := (tells c (from'.inside addedc) d (from'.inside addedd)).mpr same
      exact List.inj_on_of_nodup_map from'.distinct addedc addedd keys
    · obtain ⟨c,addedc,same⟩ := from'.stands a ina
      exact List.mem_map.mpr ⟨c,addedc,(tells c (from'.inside addedc) a ina).mp same⟩

variable [DecidableEq κ]

-- An element is added unless one of its key is there.
def addKeyed (key : α → κ) (added : List α) (a : α) : List α := if key a ∈ added.map key then added else added ++ [a]

theorem foldl_addKeyed (key : α → κ) (l : List α) : AddedFrom key l (l.foldl (addKeyed key) []) := by
  induction l using List.reverseRecOn with
  | nil => exact ⟨List.nodup_nil,List.Subset.refl _,by simp⟩
  | append_singleton l a ih =>
    rw [List.foldl_append,List.foldl_cons,List.foldl_nil]
    generalize l.foldl (addKeyed key) [] = added at ih ⊢
    have inside : added ⊆ l ++ [a] := fun b there => List.mem_append_left _ (ih.inside there)
    unfold addKeyed
    split
    · rename_i old
      obtain ⟨c,there,same⟩ := List.mem_map.mp old
      refine ⟨ih.distinct,inside,fun b given => ?_⟩
      rcases List.mem_append.mp given with before | new
      · exact ih.stands b before
      · rw [List.mem_singleton.mp new]
        exact ⟨c,there,same⟩
    · rename_i fresh
      refine ⟨?_,?_,fun b given => ?_⟩
      · rw [List.map_append]
        refine List.nodup_append.mpr ⟨ih.distinct,List.nodup_singleton _,?_⟩
        rintro k old k' alone rfl
        cases List.mem_singleton.mp alone
        exact fresh old
      · exact List.append_subset.mpr ⟨inside,by simp⟩
      · rcases List.mem_append.mp given with before | new
        · obtain ⟨c,there,same⟩ := ih.stands b before
          exact ⟨c,List.mem_append_left _ there,same⟩
        · rw [List.mem_singleton.mp new]
          exact ⟨a,by simp,rfl⟩

theorem foldl_addKeyed_map (show' : β → α) (l : List β) : (l.foldl (addKeyed fun b => key (show' b)) []).map show' =
    (l.map show').foldl (addKeyed key) [] := by
  induction l using List.reverseRecOn with
  | nil => rfl
  | append_singleton l b ih =>
    rw [List.map_append,List.map_singleton,List.foldl_append,List.foldl_append,← ih]
    simp only [List.foldl_cons,List.foldl_nil,addKeyed,List.map_map,Function.comp_def]
    split <;> simp

end Keyed

end AgentSideCar.Gather
