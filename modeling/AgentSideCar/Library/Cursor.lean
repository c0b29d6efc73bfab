import Mathlib.Data.List.Basic
import Mathlib.Data.List.Infix

namespace AgentSideCar.Cursor
variable {α : Type}

-- Forward paging: a page asked for after a cursor, and whether its reader is told to go on.
structure Page (α : Type) where
  entries : List α
  more : Bool

def next (mark : α → Int) (cursor : Int) (p : Page α) : Int := (p.entries.getLast?.map mark).getD cursor

-- The reader's loop; a page may depend on when it is asked for. None when the fuel runs out.
def walk (mark : α → Int) (page : Nat → Int → Page α) : Nat → Nat → Int → Option (List α)
  | 0,_,_ => none
  | fuel+1,turn,cursor =>
    if (page turn cursor).more then
      (walk mark page fuel (turn + 1) (next mark cursor (page turn cursor))).map ((page turn cursor).entries ++ ·)
    else some (page turn cursor).entries

def after (mark : α → Int) (entries : List α) (cursor : Int) : List α := entries.filter (cursor < mark ·)

structure Serves (mark : α → Int) (entries : List α) (page : Nat → Int → Page α) : Prop where
  begins : ∀ turn cursor, (page turn cursor).entries <+: after mark entries cursor
  moves : ∀ turn cursor, (page turn cursor).more = true → (page turn cursor).entries ≠ []

variable {mark : α → Int}

theorem after_last {part rest : List α} (sorted : (part ++ rest).Pairwise fun a b => mark a < mark b)
    (some' : part ≠ []) (cursor : Int) : after mark (part ++ rest) (next mark cursor ⟨part,true⟩) = rest := by
  obtain ⟨before,last,rfl⟩ := List.eq_nil_or_concat' part |>.resolve_left some'
  have stop : next mark cursor ⟨before ++ [last],true⟩ = mark last := by simp [next]
  rw [stop,after,List.filter_append]
  rw [List.pairwise_append] at sorted
  have early : (before ++ [last]).filter (mark last < mark ·) = [] := by
    apply List.filter_eq_nil_iff.mpr
    intro a inside
    rcases List.mem_append.mp inside with inside | alone
    · have := (List.pairwise_append.mp sorted.1).2.2 a inside last (by simp)
      simp only [decide_eq_true_eq]
      omega
    · cases List.mem_singleton.mp alone
      simp
  have late : rest.filter (mark last < mark ·) = rest := by
    apply List.filter_eq_self.mpr
    intro b inside
    simpa using sorted.2.2 last (by simp) b inside
  rw [early,late,List.nil_append]

theorem after_after (entries : List α) {low high : Int} (rises : low ≤ high) :
    after mark (after mark entries low) high = after mark entries high := by
  rw [after,after,after,List.filter_filter]
  apply List.filter_congr
  intro a _
  simp only [← Bool.decide_and,decide_eq_decide]
  omega

theorem next_rises {entries : List α} {cursor : Int} {p : Page α} (begins : p.entries <+: after mark entries cursor) :
    cursor ≤ next mark cursor p := by
  unfold next
  cases last : p.entries.getLast? with
  | none => exact Int.le_refl cursor
  | some a =>
    have inside : a ∈ after mark entries cursor := begins.subset (List.mem_of_getLast? last)
    have := List.of_mem_filter inside
    simp only [decide_eq_true_eq] at this
    simp only [Option.map_some,Option.getD_some]
    omega

-- Following the cursor ends, with a first part of the entries after it, each once and
-- in order: what it leaves out is what its last page left out.
theorem walk_exact {entries : List α} {page : Nat → Int → Page α} (sorted : entries.Pairwise fun a b => mark a < mark b)
    (serves : Serves mark entries page) (turn : Nat) (cursor : Int) :
    ∃ turns early lastCursor,
      walk mark page (turns + 1) turn cursor = some (early ++ (page (turn + turns) lastCursor).entries) ∧
      walk mark page turns turn cursor = none ∧
      after mark entries cursor = early ++ after mark entries lastCursor ∧
      (page (turn + turns) lastCursor).more = false := by
  generalize count : (after mark entries cursor).length = n
  induction n using Nat.strong_induction_on generalizing turn cursor with
  | _ n ih =>
    have begins := serves.begins turn cursor
    cases more : (page turn cursor).more with
    | false => exact ⟨0,[],cursor,by rw [walk,if_neg (by simp [more])]; rfl,rfl,rfl,more⟩
    | true =>
      have some' := serves.moves turn cursor more
      have rises := next_rises begins
      obtain ⟨rest,whole⟩ := begins
      have later : after mark entries (next mark cursor (page turn cursor)) = rest := by
        rw [← after_after entries rises,← whole]
        exact after_last (by rw [whole]; exact sorted.filter _) some' cursor
      have shorter : rest.length < n := by
        have := congrArg List.length whole
        have := List.length_pos_iff.mpr some'
        rw [List.length_append] at *
        omega
      obtain ⟨turns,early,lastCursor,walked,shorter,split,ended⟩ := ih rest.length shorter (turn + 1)
        (next mark cursor (page turn cursor)) (by rw [later])
      rw [Nat.add_right_comm,Nat.add_assoc] at walked ended
      refine ⟨turns + 1,(page turn cursor).entries ++ early,lastCursor,?_,?_,?_,ended⟩
      · rw [walk,if_pos more,walked,Option.map_some,List.append_assoc]
      · rw [walk,if_pos more,shorter,Option.map_none]
      · rw [← whole,← later,split,List.append_assoc]

end AgentSideCar.Cursor
