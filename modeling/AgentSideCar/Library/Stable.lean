import Mathlib.Data.List.Sort
import Mathlib.Data.Prod.Lex

namespace AgentSideCar.Stable
variable {α κ : Type} [LinearOrder κ] {key : α → κ}

-- A stable sort by the elements' keys.
def sortBy (key : α → κ) (l : List α) : List α := l.insertionSort fun a b => key a ≤ key b

theorem sortBy_perm (key : α → κ) (l : List α) : (sortBy key l).Perm l := List.perm_insertionSort _ l

theorem sortBy_mem {key : α → κ} {l : List α} : a ∈ sortBy key l ↔ a ∈ l := (sortBy_perm key l).mem_iff

theorem sortBy_sorted (key : α → κ) (l : List α) : (sortBy key l).Pairwise fun a b => key a ≤ key b :=
  haveI : IsTrans α fun a b => key a ≤ key b := ⟨fun _ _ _ => le_trans⟩
  haveI : Std.Total fun a b => key a ≤ key b := ⟨fun a b => le_total (key a) (key b)⟩
  List.pairwise_insertionSort _ l

-- Where no two elements share a key, only what a list holds matters to its sort.
theorem sortBy_congr {key : α → κ} {l m : List α} (perm : l.Perm m)
    (apart : ∀ a ∈ l, ∀ b ∈ l, key a = key b → a = b) : sortBy key l = sortBy key m := by
  apply List.Perm.eq_of_pairwise ?_ (sortBy_sorted key l) (sortBy_sorted key m)
  · exact (sortBy_perm key l).trans (perm.trans (sortBy_perm key m).symm)
  · intro a b ina inb ab ba
    exact apart a (sortBy_mem.mp ina) b (perm.mem_iff.mpr (sortBy_mem.mp inb)) (le_antisymm ab ba)

theorem sortBy_nil (key : α → κ) : sortBy key [] = [] := rfl

theorem sortBy_id (sorted : l.Pairwise fun a b => key a ≤ key b) : sortBy key l = l := sorted.insertionSort_eq

theorem insert_low {rest : List α} (above : ∀ b ∈ rest, key e ≤ key b) (low : List α) :
    (low ++ rest).orderedInsert (fun a b => key a ≤ key b) e = low.orderedInsert (fun a b => key a ≤ key b) e ++ rest := by
  induction low with
  | nil =>
    cases rest with
    | nil => rfl
    | cons b later => exact if_pos (above b List.mem_cons_self)
  | cons a low ih =>
    rw [List.cons_append,List.orderedInsert_cons,List.orderedInsert_cons]
    split
    · rfl
    · rw [ih,List.cons_append]

theorem insert_high {low : List α} (below : ∀ a ∈ low, ¬ key e ≤ key a) (rest : List α) :
    (low ++ rest).orderedInsert (fun a b => key a ≤ key b) e = low ++ rest.orderedInsert (fun a b => key a ≤ key b) e := by
  induction low with
  | nil => rfl
  | cons a low ih =>
    rw [List.cons_append,List.orderedInsert_cons,if_neg (below a List.mem_cons_self),
      ih fun b inside => below b (List.mem_cons_of_mem a inside),List.cons_append]

theorem sortBy_append (xs : List α) {ys : List α} (same : ∀ y ∈ ys, key y = k) :
    sortBy key (xs ++ ys) = sortBy key (xs.filter (key · ≤ k)) ++ (ys ++ sortBy key (xs.filter (k < key ·))) := by
  induction xs with
  | nil =>
    have sorted : ys.Pairwise fun a b => key a ≤ key b :=
      List.pairwise_of_forall_mem_list fun a left b right => (same a left).trans_le (same b right).ge
    rw [List.nil_append,sortBy_id sorted]
    exact (List.append_nil ys).symm
  | cons x rest ih =>
    have step : sortBy key (x :: rest ++ ys) = (sortBy key (rest ++ ys)).orderedInsert (fun a b => key a ≤ key b) x := rfl
    have high : ∀ b ∈ sortBy key (rest.filter (k < key ·)), k < key b := fun b inside => by
      simpa using (List.mem_filter.mp (sortBy_mem.mp inside)).2
    have low : ∀ a ∈ sortBy key (rest.filter (key · ≤ k)), key a ≤ k := fun a inside => by
      simpa using (List.mem_filter.mp (sortBy_mem.mp inside)).2
    rw [step,ih]
    by_cases early : key x ≤ k
    · rw [insert_low,List.filter_cons_of_pos (by simpa using early),List.filter_cons_of_neg (by simpa using early)]
      · rfl
      · intro b inside
        rcases List.mem_append.mp inside with own | later
        · exact early.trans (same b own).ge
        · exact early.trans (high b later).le
    · have late := lt_of_not_ge early
      rw [insert_high,insert_high,List.filter_cons_of_neg (by simpa using early),List.filter_cons_of_pos (by simpa using late)]
      · rfl
      · exact fun b own => not_le_of_gt ((same b own).trans_lt late)
      · exact fun a inside => not_le_of_gt ((low a inside).trans_lt late)

theorem dropped_least (m : Nat) (l : List α) (out : a ∈ (sortBy key l).take m) (kept : b ∈ (sortBy key l).drop m) : key a ≤ key b := by
  have sorted := sortBy_sorted key l
  rw [← List.take_append_drop m (sortBy key l)] at sorted
  exact (List.pairwise_append.mp sorted).2.2 a out b kept

end AgentSideCar.Stable
