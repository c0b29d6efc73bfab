import Mathlib.Data.List.Infix

namespace AgentSideCar.Replace
variable {α : Type}

-- Occurrences are taken from the left and do not overlap; what is left of one is skipped.
def sweep [DecidableEq α] (old new : List α) : Nat → List α → List α
  | _,[] => []
  | skip+1,_ :: rest => sweep old new skip rest
  | 0,x :: rest => if old <+: x :: rest then new ++ sweep old new (old.length - 1) rest else x :: sweep old new 0 rest

def replace [DecidableEq α] (old new text : List α) : List α := sweep old new 0 text

-- A form and a marker that cannot stand in each other's place, nor run into each other.
structure Apart (form marker : List α) : Prop where
  outside : ¬ form <:+: marker
  free : ¬ marker <:+: form
  ahead : ∀ border, border ≠ [] → border <:+ form → ¬ border <+: marker
  behind : ∀ border, border ≠ [] → border <:+ marker → ¬ border <+: form

theorem apart_exact (form marker : List α) : (¬ form <:+: marker ∧ ¬ marker <:+: form ∧
    (∀ border ∈ form.tails, border ≠ [] → ¬ border <+: marker) ∧
    ∀ border ∈ marker.tails, border ≠ [] → ¬ border <+: form) ↔ Apart form marker := by
  constructor
  · rintro ⟨outside,free,ahead,behind⟩
    exact ⟨outside,free,fun border some' ends => ahead border ((List.mem_tails _ _).mpr ends) some',
      fun border some' ends => behind border ((List.mem_tails _ _).mpr ends) some'⟩
  · rintro ⟨outside,free,ahead,behind⟩
    exact ⟨outside,free,fun border ends some' => ahead border some' ((List.mem_tails _ _).mp ends),
      fun border ends some' => behind border some' ((List.mem_tails _ _).mp ends)⟩

instance [DecidableEq α] (form marker : List α) : Decidable (Apart form marker) := decidable_of_iff _ (apart_exact form marker)

variable {form marker old text : List α}

theorem apart_nonempty (apart : Apart form marker) : form ≠ [] := by
  intro none
  exact apart.outside (none ▸ List.nil_infix)

theorem part_refused (apart : Apart form marker) {part : List α} (some' : part ≠ []) (ends : part <:+ form)
    (rest : List α) : ¬ part <+: marker ++ rest := by
  intro begins
  rcases List.prefix_or_prefix_of_prefix begins (List.prefix_append marker rest) with short | long
  · exact apart.ahead part some' ends short
  · exact apart.free (long.isInfix.trans ends.isInfix)

theorem infix_marker (apart : Apart form marker) {part : List α} (ends : part <:+ marker) {rest : List α}
    (occurs : form <:+: part ++ rest) : form <:+: rest := by
  induction part with
  | nil => exact occurs
  | cons m later ih =>
    rcases List.infix_cons_iff.mp occurs with begins | within
    · rcases List.prefix_or_prefix_of_prefix begins (List.prefix_append (m :: later) rest) with short | long
      · exact absurd (short.isInfix.trans ends.isInfix) apart.outside
      · exact absurd long (apart.behind _ (List.cons_ne_nil m later) ends)
    · exact ih ((List.suffix_cons m later).trans ends) within

variable [DecidableEq α]

theorem sweep_found (here : old <+: x :: rest) (marker : List α) :
    sweep old marker 0 (x :: rest) = marker ++ sweep old marker (old.length - 1) rest := if_pos here

theorem sweep_kept (here : ¬ old <+: x :: rest) (marker : List α) :
    sweep old marker 0 (x :: rest) = x :: sweep old marker 0 rest := if_neg here

theorem part_swept (apart : Apart form marker) {part : List α} (ends : part <:+ form)
    (begins : part <+: sweep old marker 0 text) : part <+: text := by
  induction text generalizing part with
  | nil => exact begins
  | cons x rest ih =>
    cases part with
    | nil => exact List.nil_prefix
    | cons c later =>
      by_cases here : old <+: x :: rest
      · rw [sweep_found here] at begins
        exact absurd begins (part_refused apart (List.cons_ne_nil c later) ends _)
      · rw [sweep_kept here] at begins
        obtain ⟨same,onward⟩ := List.cons_prefix_cons.mp begins
        exact List.cons_prefix_cons.mpr ⟨same,ih ((List.suffix_cons c later).trans ends) onward⟩

theorem infix_swept (apart : Apart form marker) (skip : Nat) (occurs : form <:+: sweep old marker skip text) :
    form <:+: text := by
  induction text generalizing skip with
  | nil =>
    cases skip with
    | zero => exact occurs
    | succ skip => exact occurs
  | cons x rest ih =>
    cases skip with
    | succ skip => exact List.infix_cons (ih skip occurs)
    | zero =>
      by_cases here : old <+: x :: rest
      · rw [sweep_found here] at occurs
        exact List.infix_cons (ih _ (infix_marker apart List.suffix_rfl occurs))
      · have kept := occurs
        rw [sweep_kept here] at kept
        rcases List.infix_cons_iff.mp kept with begins | within
        · rw [← sweep_kept here] at begins
          exact (part_swept apart List.suffix_rfl begins).isInfix
        · exact List.infix_cons (ih 0 within)

theorem swept_gone (apart : Apart old marker) (skip : Nat) : ¬ old <:+: sweep old marker skip text := by
  induction text generalizing skip with
  | nil =>
    have some' := apart_nonempty apart
    cases skip with
    | zero => simpa [sweep] using some'
    | succ skip => simpa [sweep] using some'
  | cons x rest ih =>
    cases skip with
    | succ skip => exact ih skip
    | zero =>
      intro occurs
      by_cases here : old <+: x :: rest
      · rw [sweep_found here] at occurs
        exact ih _ (infix_marker apart List.suffix_rfl occurs)
      · rw [sweep_kept here] at occurs
        rcases List.infix_cons_iff.mp occurs with begins | within
        · rw [← sweep_kept here] at begins
          exact here (part_swept apart List.suffix_rfl begins)
        · exact ih 0 within

theorem replaced_gone (apart : Apart old marker) (text : List α) : ¬ old <:+: replace old marker text := swept_gone apart 0

-- Replacements one after another: a form is gone once its turn has come, or was never there.
theorem replacements_gone (olds : List (List α)) (apart : ∀ old ∈ olds, Apart old marker) (own : Apart form marker)
    (settled : form ∈ olds ∨ ¬ form <:+: text) : ¬ form <:+: olds.foldl (fun text old => replace old marker text) text := by
  induction olds generalizing text with
  | nil => exact settled.resolve_left List.not_mem_nil
  | cons first rest ih =>
    refine ih (fun old inside => apart old (List.mem_cons_of_mem _ inside)) ?_
    rcases settled with inside | absent
    · rcases List.mem_cons.mp inside with rfl | later
      · exact .inr (replaced_gone own text)
      · exact .inl later
    · exact .inr fun occurs => absent (infix_swept own 0 occurs)

end AgentSideCar.Replace
