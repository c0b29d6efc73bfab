import Mathlib.Data.List.Infix
import Mathlib.Data.List.Forall2

namespace AgentSideCar.Prefixes
variable {α : Type} [DecidableEq α]

-- How long two lists agree.
def lcp : List α → List α → Nat
  | x :: xs,y :: ys => if x = y then lcp xs ys + 1 else 0
  | _,_ => 0

theorem lcp_take (xs ys : List α) : xs.take (lcp xs ys) = ys.take (lcp xs ys) := by
  induction xs generalizing ys with
  | nil => simp [lcp]
  | cons x xs ih =>
    cases ys with
    | nil => simp [lcp]
    | cons y ys =>
      rw [lcp]
      split
      · rename_i same
        rw [List.take_succ_cons,List.take_succ_cons,ih,same]
      · rfl

theorem lcp_le (xs ys : List α) : lcp xs ys ≤ ys.length := by
  induction xs generalizing ys with
  | nil => simp [lcp]
  | cons x xs ih =>
    cases ys with
    | nil => simp [lcp]
    | cons y ys =>
      rw [lcp,List.length_cons]
      have := ih ys
      split <;> omega

theorem lcp_begins {xs ys : List α} (begins : xs <+: ys) : lcp xs ys = xs.length := by
  obtain ⟨rest,rfl⟩ := begins
  induction xs with
  | nil => simp [lcp]
  | cons x xs ih => rw [List.cons_append,lcp,if_pos rfl,ih,List.length_cons]

end AgentSideCar.Prefixes

namespace AgentSideCar.Framing
variable {α β γ : Type}

-- How values are written: a word for each, some values having none.
abbrev Writes (α β : Type) := α → List β → Prop

-- The words of a value end where they end, whatever follows, up to what a key keeps of it.
def Ends (writes : Writes α β) (key : α → γ) (a : α) : Prop :=
  ∀ b s t x y, writes a s → writes b t → s ++ x = t ++ y → key a = key b ∧ x = y

-- No word is empty, and none begins with the mark.
def Clear (writes : Writes α β) (mark : β) : Prop := ∀ a s, writes a s → ∃ first rest, s = first :: rest ∧ first ≠ mark

inductive Run (writes : Writes α β) : Writes (List α) β where
  | nil : Run writes [] []
  | cons : writes a s → Run writes rest t → Run writes (a :: rest) (s ++ t)

variable {writes : Writes α β} {key : α → γ} {mark : β}

-- Words one after another, up to a mark that begins none of them.
theorem run_ends (clear : Clear writes mark) (ends : ∀ a ∈ as, Ends writes key a) (first : Run writes as s)
    (second : Run writes bs t) (same : s ++ mark :: x = t ++ mark :: y) : as.map key = bs.map key ∧ x = y := by
  induction first generalizing bs t with
  | nil =>
    cases second with
    | nil => exact ⟨rfl,(List.cons.inj same).2⟩
    | cons word _ =>
      obtain ⟨first,rest,rfl,differs⟩ := clear _ _ word
      exact absurd (List.cons.inj same).1.symm differs
  | @cons a s as u word _ ih =>
    cases second with
    | nil =>
      obtain ⟨first,rest,rfl,differs⟩ := clear _ _ word
      exact absurd (List.cons.inj same).1 differs
    | cons word' later =>
      rw [List.append_assoc,List.append_assoc] at same
      obtain ⟨keyed,same⟩ := ends a List.mem_cons_self _ _ _ _ _ word word' same
      obtain ⟨rested,same⟩ := ih (fun b inside => ends b (List.mem_cons_of_mem _ inside)) later same
      exact ⟨by rw [List.map_cons,List.map_cons,keyed,rested],same⟩

theorem run_unique (clear : Clear writes mark) (ends : ∀ a, Ends writes key a) (first : Run writes as s)
    (second : Run writes bs s) : as.map key = bs.map key :=
  (run_ends clear (fun a _ => ends a) first second (x := []) (y := []) rfl).1

end AgentSideCar.Framing
