import AgentSideCar.Library.Inbound
import AgentSideCar.Library.Markers

namespace AgentSideCar.Probe
open Inbound
variable {α ε : Type} {word text buffer : List α} {w : Wire α ε}

theorem recv_length (received : w.recv size = (.ok chunk,later)) (positive : 0 < size) : chunk.length ≤ size := by
  unfold Wire.recv at received
  split at received
  · cases received
  · cases received
    rw [List.length_cons,List.length_take]
    omega

variable [DecidableEq α]

-- What looking for a word in what arrives comes to: its place, more than the limit without
-- it, no turn left, or the way the connection went on instead.
inductive Outcome (ε : Type) where
  | found (place : Nat)
  | beyond
  | late
  | ended (ending : Ending ε)

structure State (α ε : Type) where
  buffer : List α
  wire : Wire α ε
  turns : Nat

def State.stream (s : State α ε) : List α := s.buffer ++ s.wire.unread

-- Each turn reads at most what would take the buffer one past the limit.
def seek (word : List α) (limit size : Nat) : Nat → List α → Wire α ε → Outcome ε × State α ε
  | turns,buffer,w =>
    match Markers.first word buffer with
    | some place => (.found place,⟨buffer,w,turns⟩)
    | none =>
      if limit < buffer.length then (.beyond,⟨buffer,w,turns⟩)
      else match turns with
        | 0 => (.late,⟨buffer,w,0⟩)
        | turns+1 => match w.recv (min size (limit - buffer.length + 1)) with
          | (.ok chunk,w) => seek word limit size turns (buffer ++ chunk) w
          | (.error ending,w) => (.ended ending,⟨buffer,w,turns⟩)

-- The same of the whole stream.
def sought (word : List α) (limit : Nat) (stream : List α) (ending : Ending ε) : Outcome ε :=
  match Markers.first word (stream.take (limit + 1)) with
  | some place => .found place
  | none => if limit < stream.length then .beyond else .ended ending

theorem first_exact : Markers.first word text = some k ↔ word <+: text.drop k ∧ ∀ j < k, ¬ word <+: text.drop j := by
  constructor
  · exact Markers.first_found
  · rintro ⟨begins,before⟩
    cases found : Markers.first word text with
    | none => exact absurd begins (Markers.first_absent found k)
    | some i =>
      obtain ⟨here,earlier⟩ := Markers.first_found found
      rcases Nat.lt_trichotomy i k with less | same | more
      · exact absurd here (before i less)
      · rw [same]
      · exact absurd begins (earlier k more)

theorem first_room (some' : word ≠ []) (found : Markers.first word text = some k) : k + word.length ≤ text.length := by
  have fits := (Markers.first_found found).1.length_le
  have more := List.length_pos_of_ne_nil some'
  rw [List.length_drop] at fits
  omega

theorem first_append (some' : word ≠ []) (found : Markers.first word text = some k) (rest : List α) :
    Markers.first word (text ++ rest) = some k := by
  obtain ⟨begins,before⟩ := Markers.first_found found
  have room := first_room some' found
  refine first_exact.mpr ⟨?_,?_⟩
  · rw [List.drop_append_of_le_length (by omega)]
    exact begins.trans (List.prefix_append _ _)
  · intro j less early
    rw [List.drop_append_of_le_length (by omega)] at early
    refine before j less ?_
    exact List.prefix_of_prefix_length_le early (List.prefix_append _ _) (by rw [List.length_drop]; omega)

-- Where a search stops, and what it leaves.
structure Sought (word : List α) (limit turns : Nat) (buffer : List α) (w : Wire α ε) (out : Outcome ε × State α ε) : Prop where
  same : out.1 = .late ∨ out.1 = sought word limit (buffer ++ w.unread) w.ending
  stream : out.2.stream = buffer ++ w.unread
  ending : out.2.wire.ending = w.ending
  room : out.2.buffer.length ≤ limit + 1
  grown : buffer <+: out.2.buffer
  late : out.1 = .late → turns + buffer.length ≤ out.2.buffer.length
  patience : ∀ place, out.1 = .found place → turns + buffer.length ≤ out.2.turns + out.2.buffer.length
  found : ∀ place, out.1 = .found place → Markers.first word out.2.buffer = some place

theorem sought_found (some' : word ≠ []) (room : buffer.length ≤ limit + 1) (found : Markers.first word buffer = some place)
    (rest : List α) (ending : Ending ε) : sought word limit (buffer ++ rest) ending = .found place := by
  rw [sought,List.take_append,List.take_of_length_le room,first_append some' found]

theorem sought_beyond (full : buffer.length = limit + 1) (absent : Markers.first word buffer = none) (rest : List α)
    (ending : Ending ε) : sought word limit (buffer ++ rest) ending = .beyond := by
  rw [sought,← full,List.take_left,absent]
  exact if_pos (by rw [List.length_append]; omega)

theorem sought_ended (short : buffer.length ≤ limit) (absent : Markers.first word buffer = none) (ending : Ending ε) :
    sought word limit buffer ending = .ended ending := by
  rw [sought,List.take_of_length_le (by omega),absent]
  exact if_neg (by omega)

-- However the bytes are cut, a search with patience finds what the stream holds.
theorem seek_exact (some' : word ≠ []) (positive : 0 < size) (turns : Nat) (buffer : List α) (w : Wire α ε)
    (room : buffer.length ≤ limit + 1) : Sought word limit turns buffer w (seek word limit size turns buffer w) := by
  induction turns generalizing buffer w with
  | zero =>
    unfold seek
    split
    · rename_i found
      exact ⟨.inr (sought_found some' room found w.unread w.ending).symm,rfl,rfl,room,List.prefix_rfl,nofun,
        fun _ _ => Nat.le_refl _,fun _ own => by cases own; exact found⟩
    · rename_i absent
      split
      · rename_i full
        exact ⟨.inr (sought_beyond (by omega) absent w.unread w.ending).symm,rfl,rfl,room,List.prefix_rfl,nofun,nofun,nofun⟩
      · exact ⟨.inl rfl,rfl,rfl,room,List.prefix_rfl,fun _ => by simp,nofun,nofun⟩
  | succ turns ih =>
    unfold seek
    split
    · rename_i found
      exact ⟨.inr (sought_found some' room found w.unread w.ending).symm,rfl,rfl,room,List.prefix_rfl,nofun,
        fun _ _ => Nat.le_refl _,fun _ own => by cases own; exact found⟩
    · rename_i absent
      split
      · rename_i full
        exact ⟨.inr (sought_beyond (by omega) absent w.unread w.ending).symm,rfl,rfl,room,List.prefix_rfl,nofun,nofun,nofun⟩
      · rename_i short
        simp only
        by_cases none' : w.unread = []
        · rw [recv_none none']
          refine ⟨.inr ?_,rfl,rfl,room,List.prefix_rfl,nofun,nofun,nofun⟩
          rw [none',List.append_nil]
          exact (sought_ended (by omega) absent w.ending).symm
        · obtain ⟨chunk,later,nonempty,cut,received⟩ := recv_some none' (min size (limit - buffer.length + 1))
          have fits := recv_length received (by omega)
          have more := List.length_pos_of_ne_nil nonempty
          rw [received]
          have next := ih (buffer ++ chunk) {w with unread := later} (by rw [List.length_append]; omega)
          have whole : buffer ++ chunk ++ later = buffer ++ w.unread := by rw [cut,List.append_assoc]
          show Sought word limit (turns + 1) buffer w (seek word limit size turns (buffer ++ chunk) {w with unread := later})
          exact
            { same := by have := next.same; rwa [whole] at this
              stream := next.stream.trans whole
              ending := next.ending
              room := next.room
              grown := (List.prefix_append buffer chunk).trans next.grown
              late := fun own => by have := next.late own; rw [List.length_append] at this; omega
              patience := fun place own => by have := next.patience place own; rw [List.length_append] at this; omega
              found := next.found }

theorem sought_exact (some' : word ≠ []) (limit : Nat) (stream : List α) (ending : Ending ε) : sought word limit stream ending =
    match Markers.first word stream with
    | some place => if place + word.length ≤ limit + 1 then .found place else .beyond
    | none => if limit < stream.length then .beyond else .ended ending := by
  have whole : stream.take (limit + 1) ++ stream.drop (limit + 1) = stream := List.take_append_drop _ _
  unfold sought
  cases within : Markers.first word (stream.take (limit + 1)) with
  | some place =>
    have room := first_room some' within
    rw [List.length_take] at room
    have found := first_append some' within (stream.drop (limit + 1))
    rw [whole] at found
    rw [found]
    exact (if_pos (by omega)).symm
  | none =>
    cases found : Markers.first word stream with
    | none => rfl
    | some place =>
      have room := first_room some' found
      have far : ¬ place + word.length ≤ limit + 1 := by
        intro near
        obtain ⟨begins,_⟩ := Markers.first_found found
        refine Markers.first_absent within place ?_
        rw [List.drop_take]
        exact List.prefix_take_iff.mpr ⟨begins,by omega⟩
      simp only
      rw [if_neg far]
      exact if_pos (by omega)

theorem first_sign {sign : α} {line : List α} (clean : sign ∉ line) (rest : List α) :
    Markers.first [sign] (line ++ sign :: rest) = some line.length := by
  refine first_exact.mpr ⟨?_,?_⟩
  · rw [List.drop_left]
    exact List.prefix_append [sign] rest
  · intro j less begins
    rw [List.drop_append_of_le_length (by omega)] at begins
    obtain ⟨c,later,own⟩ := List.exists_cons_of_ne_nil (show line.drop j ≠ [] by rw [Ne,List.drop_eq_nil_iff]; omega)
    rw [own,List.cons_append,List.cons_prefix_cons] at begins
    exact clean (List.mem_of_mem_drop (own ▸ begins.1 ▸ List.mem_cons_self : sign ∈ line.drop j))

theorem sign_first {sign : α} (found : Markers.first [sign] text = some k) :
    sign ∉ text.take k ∧ text = text.take k ++ sign :: text.drop (k + 1) := by
  obtain ⟨⟨later,own⟩,before⟩ := Markers.first_found found
  constructor
  · intro inside
    obtain ⟨j,less,same⟩ := List.getElem_of_mem inside
    rw [List.length_take] at less
    refine before j (by omega) ?_
    rw [List.drop_eq_getElem_cons (by omega),← same,List.getElem_take]
    exact List.prefix_append [_] _
  · have behind : text.drop (k + 1) = later := by rw [← List.drop_drop,← own]; rfl
    conv => lhs; rw [← List.take_append_drop k text,← own]
    rw [behind]
    rfl

theorem beyond_cases (some' : word ≠ []) (same : sought word limit stream ending = .beyond) :
    (∃ place, Markers.first word stream = some place ∧ limit + 1 < place + word.length) ∨
      Markers.first word stream = none ∧ limit < stream.length := by
  rw [sought_exact some'] at same
  split at same
  · rename_i place found
    split at same
    · cases same
    · rename_i far
      exact .inl ⟨place,found,by omega⟩
  · rename_i absent
    split at same
    · rename_i more
      exact .inr ⟨absent,more⟩
    · cases same

theorem ended_cases (some' : word ≠ []) (same : sought word limit stream ending = .ended final) :
    Markers.first word stream = none ∧ ¬ limit < stream.length ∧ final = ending := by
  rw [sought_exact some'] at same
  split at same
  · split at same <;> cases same
  · rename_i absent
    split at same
    · cases same
    · rename_i few
      cases same
      exact ⟨absent,few,rfl⟩

end AgentSideCar.Probe
