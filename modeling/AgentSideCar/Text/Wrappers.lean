import AgentSideCar.Library.Markers
import AgentSideCar.Text.Points

namespace AgentSideCar.Wrappers
open Points Markers

-- What one character becomes in lower case, and where a sigma stands at a word's end, after
-- and before which texts.
structure Casing where
  mapping : Nat → Text
  finalSigma : Text → Text → Bool

def lowerAfter (casing : Casing) : Text → Text → Text
  | _,[] => []
  | before,c :: rest => (if c = 0x3A3 then [if casing.finalSigma before rest then 0x3C2 else 0x3C3] else casing.mapping c) ++
      lowerAfter casing (before ++ [c]) rest

def lower (casing : Casing) (text : Text) : Text := lowerAfter casing [] text

def openingMarker (tag : Text) : Text := lit "<" ++ (tag ++ lit ">")

def closingMarker (tag : Text) : Text := lit "</" ++ (tag ++ lit ">")

def slice (text : Text) (start stop : Nat) : Text := (text.drop start).take (stop - start)

structure Span where
  start : Nat
  stop : Nat
  contentStart : Nat
  contentEnd : Nat
  deriving DecidableEq

-- A nested opening marker where it stands before the next closing one, else that one.
def ahead (lowered tag : Text) (scan : Nat) : Option (Nat × Bool) :=
  let nested := find (openingMarker tag) lowered scan
  match find (closingMarker tag) lowered scan with
  | none => none
  | some closing =>
    match nested with
    | some nested => if nested < closing then some (nested,true) else some (closing,false)
    | none => some (closing,false)

theorem opening_length (tag : Text) : (openingMarker tag).length = tag.length + 2 := by simp [openingMarker,lit]

theorem closing_length (tag : Text) : (closingMarker tag).length = tag.length + 3 := by simp [closingMarker,lit]

theorem opening_nonempty (tag : Text) : openingMarker tag ≠ [] := by simp [openingMarker,lit]

theorem closing_nonempty (tag : Text) : closingMarker tag ≠ [] := by simp [closingMarker,lit]

theorem ahead_last (last : ahead lowered tag scan = none) : find (closingMarker tag) lowered scan = none := by
  unfold ahead at last
  cases closed : find (closingMarker tag) lowered scan with
  | none => rfl
  | some closing =>
    cases opened : find (openingMarker tag) lowered scan with
    | none => simp [closed,opened] at last
    | some nested =>
      simp only [closed,opened] at last
      split at last <;> cases last

theorem ahead_closing (next : ahead lowered tag scan = some (place,false)) : find (closingMarker tag) lowered scan = some place ∧
    ∀ nested, find (openingMarker tag) lowered scan = some nested → place ≤ nested := by
  unfold ahead at next
  cases closed : find (closingMarker tag) lowered scan with
  | none => simp [closed] at next
  | some closing =>
    cases opened : find (openingMarker tag) lowered scan with
    | none =>
      simp only [closed,opened,Option.some.injEq,Prod.mk.injEq,and_true] at next
      exact ⟨by rw [next],fun nested none => by cases none⟩
    | some nested =>
      simp only [closed,opened] at next
      split at next
      · cases next
      · rename_i later
        cases next
        exact ⟨rfl,fun other same => by cases same; exact Nat.le_of_not_lt later⟩

theorem ahead_nested (next : ahead lowered tag scan = some (place,true)) : find (openingMarker tag) lowered scan = some place ∧
    ∃ closing, find (closingMarker tag) lowered scan = some closing ∧ place < closing := by
  unfold ahead at next
  cases closed : find (closingMarker tag) lowered scan with
  | none => simp [closed] at next
  | some closing =>
    cases opened : find (openingMarker tag) lowered scan with
    | none => simp [closed,opened] at next
    | some nested =>
      simp only [closed,opened] at next
      split at next
      · rename_i earlier
        cases next
        exact ⟨rfl,closing,rfl,earlier⟩
      · cases next

-- Where the closing marker is that brings the depth to none, from a scan's place and depth on.
def closes (lowered tag : Text) (scan depth : Nat) : Option Nat :=
  match _ : ahead lowered tag scan with
  | none => none
  | some (nested,true) => closes lowered tag (nested + (openingMarker tag).length) (depth + 1)
  | some (closing,false) => if depth = 1 then some closing else closes lowered tag (closing + (closingMarker tag).length) (depth - 1)
termination_by lowered.length - scan
decreasing_by
  · have place := find_found (opening_nonempty tag) (ahead_nested ‹_›).1
    have := opening_length tag
    omega
  · have place := find_found (closing_nonempty tag) (ahead_closing ‹_›).1
    have := closing_length tag
    omega

theorem closes_last (last : ahead lowered tag scan = none) (depth : Nat) : closes lowered tag scan depth = none := by
  rw [closes]
  split <;> simp_all

theorem closes_nested (next : ahead lowered tag scan = some (nested,true)) (depth : Nat) :
    closes lowered tag scan depth = closes lowered tag (nested + (openingMarker tag).length) (depth + 1) := by
  rw [closes]
  split <;> simp_all

theorem closes_end (next : ahead lowered tag scan = some (closing,false)) : closes lowered tag scan 1 = some closing := by
  rw [closes]
  split <;> simp_all

theorem closes_inner (next : ahead lowered tag scan = some (closing,false)) (deep : ¬ depth = 1) :
    closes lowered tag scan depth = closes lowered tag (closing + (closingMarker tag).length) (depth - 1) := by
  rw [closes]
  split <;> simp_all

theorem closes_later (found : closes lowered tag scan depth = some stop) : scan ≤ stop := by
  induction scan,depth using closes.induct lowered tag with
  | case1 scan depth last =>
    rw [closes_last last] at found
    cases found
  | case2 scan depth nested next ih =>
    have place := find_found (opening_nonempty tag) (ahead_nested next).1
    rw [closes_nested next] at found
    have := ih found
    omega
  | case3 scan closing next =>
    have place := find_found (closing_nonempty tag) (ahead_closing next).1
    rw [closes_end next] at found
    cases found
    exact place.1
  | case4 scan depth closing next deep ih =>
    have place := find_found (closing_nonempty tag) (ahead_closing next).1
    rw [closes_inner next deep] at found
    have := ih found
    omega

def sectionsFrom (text lowered tag : Text) (cursor : Nat) : List Span :=
  if cursor < text.length then
    match _ : find (openingMarker tag) lowered cursor with
    | none => []
    | some opening =>
      let contentStart := opening + (openingMarker tag).length
      match _ : closes lowered tag contentStart 1 with
      | none => [⟨opening,text.length,contentStart,text.length⟩]
      | some closing =>
        ⟨opening,closing + (closingMarker tag).length,contentStart,closing⟩ ::
          sectionsFrom text lowered tag (closing + (closingMarker tag).length)
  else []
termination_by text.length - cursor
decreasing_by
  have place := find_found (opening_nonempty tag) ‹_›
  have later := closes_later ‹_›
  have := closing_length tag
  omega

section Sections
variable {text lowered tag : Text} {cursor : Nat}

theorem sections_end (outside : ¬ cursor < text.length) : sectionsFrom text lowered tag cursor = [] := by
  rw [sectionsFrom,if_neg outside]

theorem sections_none (last : find (openingMarker tag) lowered cursor = none) : sectionsFrom text lowered tag cursor = [] := by
  rw [sectionsFrom]
  split
  · split <;> simp_all
  · rfl

theorem sections_unclosed (inside : cursor < text.length) (found : find (openingMarker tag) lowered cursor = some opening)
    (stuck : closes lowered tag (opening + (openingMarker tag).length) 1 = none) :
    sectionsFrom text lowered tag cursor = [⟨opening,text.length,opening + (openingMarker tag).length,text.length⟩] := by
  rw [sectionsFrom,if_pos inside]
  split
  · simp_all
  · rename_i place own
    rw [found] at own
    cases own
    dsimp only
    split
    · rfl
    · simp_all

theorem sections_closed (inside : cursor < text.length) (found : find (openingMarker tag) lowered cursor = some opening)
    (closed : closes lowered tag (opening + (openingMarker tag).length) 1 = some closing) :
    sectionsFrom text lowered tag cursor =
      ⟨opening,closing + (closingMarker tag).length,opening + (openingMarker tag).length,closing⟩ ::
        sectionsFrom text lowered tag (closing + (closingMarker tag).length) := by
  rw [sectionsFrom,if_pos inside]
  split
  · simp_all
  · rename_i place own
    rw [found] at own
    cases own
    dsimp only
    split
    · simp_all
    · rename_i stop ends
      rw [closed] at ends
      cases ends
      rfl

end Sections

-- The outermost wrappers of a tag, the last to the text's end where it is not closed.
def wrapperSections (casing : Casing) (text tag : Text) : List Span := sectionsFrom text (lower casing text) tag 0

-- The first marker of either kind.
def earliest (lowered tag : Text) (cursor : Nat) : Option (Nat × Text) :=
  match find (openingMarker tag) lowered cursor,find (closingMarker tag) lowered cursor with
  | none,none => none
  | some opening,none => some (opening,openingMarker tag)
  | none,some closing => some (closing,closingMarker tag)
  | some opening,some closing => if closing < opening then some (closing,closingMarker tag) else some (opening,openingMarker tag)

theorem earliest_found (found : earliest lowered tag cursor = some (place,marker)) :
    (marker = openingMarker tag ∨ marker = closingMarker tag) ∧ find marker lowered cursor = some place := by
  unfold earliest at found
  split at found
  · cases found
  · cases found
    exact ⟨.inl rfl,‹_›⟩
  · cases found
    exact ⟨.inr rfl,‹_›⟩
  · split at found
    · cases found
      exact ⟨.inr rfl,‹_›⟩
    · cases found
      exact ⟨.inl rfl,‹_›⟩

theorem earliest_none (last : earliest lowered tag cursor = none) :
    find (openingMarker tag) lowered cursor = none ∧ find (closingMarker tag) lowered cursor = none := by
  unfold earliest at last
  split at last
  · exact ⟨‹_›,‹_›⟩
  · cases last
  · cases last
  · split at last <;> cases last

theorem earliest_first (found : earliest lowered tag cursor = some (place,marker)) :
    ∀ word, word = openingMarker tag ∨ word = closingMarker tag → ∀ other, find word lowered cursor = some other → place ≤ other := by
  intro word kind other there
  unfold earliest at found
  split at found
  · cases found
  · cases found
    rcases kind with own | own
    · simp_all
    · simp_all
  · cases found
    rcases kind with own | own
    · simp_all
    · simp_all
  · split at found
    · cases found
      rcases kind with own | own
      · simp_all
        omega
      · simp_all
    · cases found
      rcases kind with own | own
      · simp_all
      · simp_all

def tokensRemovedFrom (text lowered tag : Text) (cursor : Nat) : Text :=
  if cursor < text.length then
    match _ : earliest lowered tag cursor with
    | none => text.drop cursor
    | some (place,marker) => slice text cursor place ++ tokensRemovedFrom text lowered tag (place + marker.length)
  else []
termination_by text.length - cursor
decreasing_by
  obtain ⟨kind,found⟩ := earliest_found ‹_›
  have first := opening_length tag
  have second := closing_length tag
  rcases kind with own | own
  · rw [own] at found ⊢
    have place := find_found (opening_nonempty tag) found
    omega
  · rw [own] at found ⊢
    have place := find_found (closing_nonempty tag) found
    omega

def removeTagTokens (casing : Casing) (text tag : Text) : Text := tokensRemovedFrom text (lower casing text) tag 0

def outsideFrom (text : Text) : Nat → List Span → Text
  | cursor,[] => text.drop cursor
  | cursor,span :: rest => slice text cursor span.start ++ outsideFrom text span.stop rest

-- A closing marker left over is malformed metadata, and nothing is kept.
def removeWrappedSections (casing : Casing) (text tag : Text) : Text :=
  let residual := outsideFrom text 0 (wrapperSections casing text tag)
  if closingMarker tag <:+: lower casing residual then [] else removeTagTokens casing residual tag

-- Every character becomes one in lower case, so that places in both texts are the same.
def Even (casing : Casing) (text : Text) : Prop := ∀ c ∈ text, (lower casing [c]).length = 1

instance (casing : Casing) (text : Text) : Decidable (Even casing text) := inferInstanceAs (Decidable (∀ _ ∈ _, _))

def unsigma (c : Nat) : Nat := if c = 0x3C2 then 0x3C3 else c

def fold (casing : Casing) (c : Nat) : Nat := unsigma ((lower casing [c]).headD c)

theorem fold_single {casing : Casing} (single : (lower casing [c]).length = 1) (before rest : Text) :
    (if c = 0x3A3 then [if casing.finalSigma before rest then 0x3C2 else 0x3C3] else casing.mapping c).map unsigma = [fold casing c] := by
  unfold fold
  simp only [lower,lowerAfter,List.append_nil] at single ⊢
  by_cases sigma : c = 0x3A3
  · simp only [sigma,if_true,List.map_cons,List.map_nil,List.headD_cons]
    split <;> split <;> rfl
  · rw [if_neg sigma] at single ⊢
    obtain ⟨d,own⟩ := List.length_eq_one_iff.mp single
    simp [own,sigma]

-- The final sigma apart, lower case goes by single characters.
theorem lower_fold {casing : Casing} {text : Text} (even : Even casing text) : (lower casing text).map unsigma = text.map (fold casing) := by
  unfold lower
  generalize before : ([] : Text) = prior
  clear before
  induction text generalizing prior with
  | nil => rfl
  | cons c rest ih =>
    have later := ih (fun d inside => even d (List.mem_cons_of_mem c inside)) (prior ++ [c])
    rw [lowerAfter,List.map_append,fold_single (even c List.mem_cons_self),later]
    rfl

theorem lower_length {casing : Casing} {text : Text} (even : Even casing text) : (lower casing text).length = text.length := by
  have := congrArg List.length (lower_fold even)
  rwa [List.length_map,List.length_map] at this

-- The letters of a tag and of its markers.
def Letters (word : Text) : Prop := ∀ c ∈ word, c < 128

theorem unsigma_letters (letters : Letters word) : ∀ c ∈ word, ∀ x, unsigma x = c ↔ x = c := by
  intro c inside x
  have := letters c inside
  unfold unsigma
  split <;> omega

theorem lower_letters {casing : Casing} {text : Text} (even : Even casing text) (letters : Letters word) :
    lower casing text = word ↔ text.map (fold casing) = word := by
  rw [← lower_fold even,map_letters (unsigma_letters letters)]

theorem find_fold {casing : Casing} {text : Text} (even : Even casing text) (letters : Letters word) (start : Nat) :
    find word (lower casing text) start = find word (text.map (fold casing)) start := by
  rw [find,find,← lower_fold even,← List.map_drop,first_map (unsigma_letters letters)]

-- A word stands in the text itself, in any case.
def Stands (casing : Casing) (text word : Text) (place : Nat) : Prop :=
  place + word.length ≤ text.length ∧ lower casing (slice text place (place + word.length)) = word

instance (casing : Casing) (text word : Text) (place : Nat) : Decidable (Stands casing text word place) :=
  inferInstanceAs (Decidable (_ ∧ _))

theorem slice_even {casing : Casing} {text : Text} (even : Even casing text) (start stop : Nat) : Even casing (slice text start stop) := by
  intro c inside
  exact even c (List.mem_of_mem_drop (List.mem_of_mem_take inside))

theorem stands_exact {casing : Casing} {text word : Text} (even : Even casing text) (letters : Letters word) (some' : word ≠ [])
    (place : Nat) : word <+: (lower casing text).drop place ↔ Stands casing text word place := by
  have more := List.length_pos_of_ne_nil some'
  rw [← prefix_map (unsigma_letters letters),List.map_drop,lower_fold even,Stands,lower_letters (slice_even even _ _) letters,
    List.prefix_iff_eq_take,slice,Nat.add_sub_cancel_left,List.map_take,List.map_drop,eq_comm]
  constructor
  · intro own
    refine ⟨?_,own⟩
    have room := congrArg List.length own
    rw [List.length_take,List.length_drop,List.length_map] at room
    omega
  · exact And.right

def Tag (tag : Text) : Prop := ∀ c ∈ tag, c < 128 ∧ c ≠ 60 ∧ c ≠ 62 ∧ c ≠ 47

instance (tag : Text) : Decidable (Tag tag) := inferInstanceAs (Decidable (∀ _ ∈ _, _))

theorem opening_letters (named : Tag tag) : Letters (openingMarker tag) := by
  intro c inside
  rcases List.mem_append.mp inside with sign | inside
  · rw [List.mem_singleton.mp sign]
    decide
  · rcases List.mem_append.mp inside with letter | sign
    · exact (named c letter).1
    · rw [List.mem_singleton.mp sign]
      decide

theorem closing_letters (named : Tag tag) : Letters (closingMarker tag) := by
  intro c inside
  rcases List.mem_cons.mp inside with sign | inside
  · rw [sign]
    decide
  · rcases List.mem_cons.mp inside with slash | inside
    · rw [slash]
      decide
    · exact opening_letters named c (List.mem_cons_of_mem _ inside)

theorem opening_marker (named : Tag tag) : Marker 60 62 (openingMarker tag) :=
  ⟨⟨tag,rfl,fun inside => (named 60 inside).2.1 rfl,fun inside => (named 62 inside).2.2.1 rfl⟩,by decide⟩

theorem closing_marker (named : Tag tag) : Marker 60 62 (closingMarker tag) := by
  refine ⟨⟨47 :: tag,rfl,?_,?_⟩,by decide⟩
  · rw [List.mem_cons,not_or]
    exact ⟨by decide,fun inside => (named 60 inside).2.1 rfl⟩
  · rw [List.mem_cons,not_or]
    exact ⟨by decide,fun inside => (named 62 inside).2.2.1 rfl⟩

theorem kinds_apart (named : Tag tag) (other : Text) : openingMarker tag ≠ closingMarker other := by
  intro same
  have inner : tag ++ lit ">" = 47 :: (other ++ lit ">") := (List.cons.inj same).2
  cases tag with
  | nil => cases (List.cons.inj inner).1
  | cons c rest =>
    have slash := (named c List.mem_cons_self).2.2.2
    exact slash (List.cons.inj inner).1

theorem kinds_stand (named : Tag tag) (opens : openingMarker tag <+: text) : ¬ closingMarker tag <+: text := by
  intro closes
  rcases List.prefix_or_prefix_of_prefix opens closes with short | long
  · exact kinds_apart named tag (marker_begins (opening_marker named) (closing_marker named) short)
  · exact kinds_apart named tag (marker_begins (closing_marker named) (opening_marker named) long).symm

theorem opening_injective (same : openingMarker tag = openingMarker other) : tag = other :=
  List.append_cancel_right (List.append_cancel_left same)

theorem closing_injective (same : closingMarker tag = closingMarker other) : tag = other :=
  List.append_cancel_right (List.append_cancel_left same)

-- How many of a word stand from one place to before another.
def standing (casing : Casing) (text word : Text) (start stop : Nat) : Nat := count (fun place => decide (Stands casing text word place)) start stop

-- The marker that opens the wrapper, and the one that closes it: more are open all the way.
structure Wraps (casing : Casing) (text tag : Text) (span : Span) : Prop where
  opening : Stands casing text (openingMarker tag) span.start
  content : span.contentStart = span.start + (openingMarker tag).length
  inside : ∀ place, span.start < place → place ≤ span.contentEnd →
    standing casing text (closingMarker tag) span.start place < standing casing text (openingMarker tag) span.start place
  ending : (Stands casing text (closingMarker tag) span.contentEnd ∧ span.stop = span.contentEnd + (closingMarker tag).length ∧
      standing casing text (openingMarker tag) span.start span.contentEnd = standing casing text (closingMarker tag) span.start span.contentEnd + 1) ∨
    span.contentEnd = text.length ∧ span.stop = text.length

-- The tag's markers are cut out of a text, in any case, and all else is kept.
inductive Cut (casing : Casing) (tag : Text) : Text → Text → Prop where
  | rest : (∀ place, ¬ Stands casing text (openingMarker tag) place ∧ ¬ Stands casing text (closingMarker tag) place) → Cut casing tag text text
  | token : (∀ place < before.length, ¬ Stands casing (before ++ (marker ++ rest)) (openingMarker tag) place ∧
      ¬ Stands casing (before ++ (marker ++ rest)) (closingMarker tag) place) →
      lower casing marker = openingMarker tag ∨ lower casing marker = closingMarker tag → Cut casing tag rest out →
      Cut casing tag (before ++ (marker ++ rest)) (before ++ out)

section Places
variable {casing : Casing} {text tag : Text}

theorem standing_none (none : ∀ i, start ≤ i → i < stop → ¬ Stands casing text word i) : standing casing text word start stop = 0 :=
  count_none fun i least less => decide_eq_false (none i least less)

theorem standing_one (here : Stands casing text word start) (less : start < stop)
    (none : ∀ i, start < i → i < stop → ¬ Stands casing text word i) : standing casing text word start stop = 1 :=
  count_one (decide_eq_true here) less fun i least less => decide_eq_false (none i least less)

theorem standing_split (casing : Casing) (text word : Text) (first : a ≤ b) (second : b ≤ c) :
    standing casing text word a c = standing casing text word a b + standing casing text word b c := count_split _ first second

theorem opening_stands (even : Even casing text) (named : Tag tag) (place : Nat) :
    openingMarker tag <+: (lower casing text).drop place ↔ Stands casing text (openingMarker tag) place :=
  stands_exact even (opening_letters named) (opening_nonempty tag) place

theorem closing_stands (even : Even casing text) (named : Tag tag) (place : Nat) :
    closingMarker tag <+: (lower casing text).drop place ↔ Stands casing text (closingMarker tag) place :=
  stands_exact even (closing_letters named) (closing_nonempty tag) place

-- Up to what comes next none stands, and it stands there, and no other within it.
theorem nested_stands (even : Even casing text) (named : Tag tag) (next : ahead (lower casing text) tag scan = some (nested,true)) :
    scan ≤ nested ∧ standing casing text (openingMarker tag) scan (nested + (openingMarker tag).length) = 1 ∧
      standing casing text (closingMarker tag) scan (nested + (openingMarker tag).length) = 0 := by
  obtain ⟨opened,closing,closed,earlier⟩ := ahead_nested next
  obtain ⟨least,_,begins,freeOpen⟩ := find_found (opening_nonempty tag) opened
  obtain ⟨_,_,_,freeClose⟩ := find_found (closing_nonempty tag) closed
  have long := opening_length tag
  refine ⟨least,?_,standing_none ?_⟩
  · rw [standing_split casing text _ least (by omega : nested ≤ nested + (openingMarker tag).length),standing_none,standing_one]
    · exact (opening_stands even named nested).mp begins
    · omega
    · intro i less near
      rw [← opening_stands even named]
      exact marker_apart (opening_marker named) (opening_marker named) begins less near
    · intro i from' less
      rw [← opening_stands even named]
      exact freeOpen i from' less
  · intro i from' less
    rw [← closing_stands even named]
    by_cases before : i < closing
    · exact freeClose i from' before
    · exact marker_apart (opening_marker named) (closing_marker named) begins (by omega) less

theorem closing_next (even : Even casing text) (named : Tag tag) (next : ahead (lower casing text) tag scan = some (closing,false)) :
    scan ≤ closing ∧ Stands casing text (closingMarker tag) closing ∧ standing casing text (closingMarker tag) scan closing = 0 ∧
      standing casing text (openingMarker tag) scan (closing + (closingMarker tag).length) = 0 ∧
      standing casing text (closingMarker tag) closing (closing + (closingMarker tag).length) = 1 := by
  obtain ⟨closed,first⟩ := ahead_closing next
  obtain ⟨least,_,begins,freeClose⟩ := find_found (closing_nonempty tag) closed
  have long := closing_length tag
  have here := (closing_stands even named closing).mp begins
  refine ⟨least,here,standing_none ?_,standing_none ?_,standing_one here (by omega) ?_⟩
  · intro i from' less
    rw [← closing_stands even named]
    exact freeClose i from' less
  · intro i from' less
    rw [← opening_stands even named]
    rcases Nat.lt_trichotomy i closing with before | same | after
    · cases opened : find (openingMarker tag) (lower casing text) scan with
      | none => exact find_absent opened i from'
      | some nested => exact (find_found (opening_nonempty tag) opened).2.2.2 i from' (Nat.lt_of_lt_of_le before (first nested opened))
    · intro opens
      rw [same] at opens
      exact kinds_stand named opens begins
    · exact marker_apart (closing_marker named) (opening_marker named) begins after less
  · intro i less near
    rw [← closing_stands even named]
    exact marker_apart (closing_marker named) (closing_marker named) begins less near

-- As many more are open as the depth tells, and some all the way.
structure Open (casing : Casing) (text tag : Text) (start scan depth : Nat) : Prop where
  from' : start ≤ scan
  depth : standing casing text (openingMarker tag) start scan = standing casing text (closingMarker tag) start scan + depth
  inside : ∀ place, start < place → place ≤ scan →
    standing casing text (closingMarker tag) start place < standing casing text (openingMarker tag) start place

theorem open_onward (opens : Open casing text tag start scan depth)
    (few : standing casing text (closingMarker tag) scan stop < depth) : ∀ place, start < place → place ≤ stop →
    standing casing text (closingMarker tag) start place < standing casing text (openingMarker tag) start place := by
  intro place less near
  by_cases before : place ≤ scan
  · exact opens.inside place less before
  · have level := opens.depth
    have parts := standing_split casing text (openingMarker tag) opens.from' (show scan ≤ place by omega)
    have others := standing_split casing text (closingMarker tag) opens.from' (show scan ≤ place by omega)
    have most := standing_split casing text (closingMarker tag) (show scan ≤ place by omega) near
    omega

theorem closes_matched (even : Even casing text) (named : Tag tag) (scan depth : Nat) (positive : 0 < depth)
    (opens : Open casing text tag start scan depth) :
    (∀ stop, closes (lower casing text) tag scan depth = some stop → Stands casing text (closingMarker tag) stop ∧
      Open casing text tag start stop 1) ∧
    (closes (lower casing text) tag scan depth = none → ∀ place, start < place →
      standing casing text (closingMarker tag) start place < standing casing text (openingMarker tag) start place) := by
  induction scan,depth using closes.induct (lower casing text) tag with
  | case1 scan depth last =>
    have stuck := closes_last last depth
    refine ⟨fun stop found => by simp [stuck] at found,fun _ place less => ?_⟩
    have none : standing casing text (closingMarker tag) scan place = 0 := by
      refine standing_none ?_
      intro i from' _
      rw [← closing_stands even named]
      exact find_absent (ahead_last last) i from'
    exact open_onward opens (none ▸ positive) place less (Nat.le_refl place)
  | case2 scan depth nested next ih =>
    obtain ⟨least,one,none⟩ := nested_stands even named next
    rw [closes_nested next]
    have most : scan ≤ nested + (openingMarker tag).length := by omega
    refine ih (Nat.succ_pos depth) ⟨Nat.le_trans opens.from' most,?_,open_onward opens (by omega)⟩
    have level := opens.depth
    have parts := standing_split casing text (openingMarker tag) opens.from' most
    have others := standing_split casing text (closingMarker tag) opens.from' most
    omega
  | case3 scan closing next =>
    obtain ⟨least,here,none,few,one⟩ := closing_next even named next
    rw [closes_end next]
    refine ⟨fun stop found => ?_,fun stuck => by cases stuck⟩
    cases found
    refine ⟨here,Nat.le_trans opens.from' least,?_,open_onward opens (by omega)⟩
    have level := opens.depth
    have parts := standing_split casing text (openingMarker tag) opens.from' least
    have others := standing_split casing text (closingMarker tag) opens.from' least
    have fewer := standing_split casing text (openingMarker tag) least (Nat.le_add_right closing (closingMarker tag).length)
    omega
  | case4 scan depth closing next deep ih =>
    obtain ⟨least,_,none,few,one⟩ := closing_next even named next
    rw [closes_inner next deep]
    have most : scan ≤ closing + (closingMarker tag).length := by omega
    have ends := standing_split casing text (closingMarker tag) least (Nat.le_add_right closing (closingMarker tag).length)
    refine ih (by omega) ⟨Nat.le_trans opens.from' most,?_,open_onward opens (by omega)⟩
    have level := opens.depth
    have parts := standing_split casing text (openingMarker tag) opens.from' most
    have others := standing_split casing text (closingMarker tag) opens.from' most
    omega

theorem opened_wraps (even : Even casing text) (named : Tag tag) (here : Stands casing text (openingMarker tag) opening) :
    Open casing text tag opening (opening + (openingMarker tag).length) 1 := by
  have begins := (opening_stands even named opening).mpr here
  have long := opening_length tag
  have own (stop) (less : opening < stop) (near : stop ≤ opening + (openingMarker tag).length) :
      standing casing text (openingMarker tag) opening stop = 1 := by
    refine standing_one here less ?_
    intro i after before
    rw [← opening_stands even named]
    exact marker_apart (opening_marker named) (opening_marker named) begins after (by omega)
  have other (stop) (near : stop ≤ opening + (openingMarker tag).length) : standing casing text (closingMarker tag) opening stop = 0 := by
    refine standing_none ?_
    intro i from' before
    rw [← closing_stands even named]
    rcases Nat.eq_or_lt_of_le from' with same | after
    · rw [← same]
      exact kinds_stand named begins
    · exact marker_apart (opening_marker named) (closing_marker named) begins after (by omega)
  refine ⟨by omega,?_,?_⟩
  · rw [own _ (by omega) (Nat.le_refl _),other _ (Nat.le_refl _)]
  · intro place less near
    rw [own place less near,other place near]
    exact Nat.zero_lt_one

theorem sections_exact (even : Even casing text) (named : Tag tag) (cursor : Nat) :
    (∀ span ∈ sectionsFrom text (lower casing text) tag cursor, cursor ≤ span.start ∧ Wraps casing text tag span) ∧
    (sectionsFrom text (lower casing text) tag cursor).Pairwise (fun a b => a.stop ≤ b.start) ∧
    ∀ place, cursor ≤ place → Stands casing text (openingMarker tag) place →
      ∃ span ∈ sectionsFrom text (lower casing text) tag cursor, span.start ≤ place ∧ place < span.stop := by
  have beyond (place) (here : Stands casing text (openingMarker tag) place) : place < text.length := by
    have room := here.1
    have := opening_length tag
    omega
  induction cursor using sectionsFrom.induct text (lower casing text) tag with
  | case1 cursor inside last =>
    rw [sections_none last]
    refine ⟨fun span none => by simp at none,.nil,?_⟩
    intro place from' here
    exact absurd ((opening_stands even named place).mpr here) (find_absent last place from')
  | case2 cursor inside opening found contentStart stuck =>
    obtain ⟨least,_,begins,before⟩ := find_found (opening_nonempty tag) found
    have here := (opening_stands even named opening).mp begins
    have matched := closes_matched even named contentStart 1 Nat.one_pos (opened_wraps even named here)
    rw [sections_unclosed inside found stuck]
    refine ⟨?_,List.pairwise_singleton ..,?_⟩
    · intro span own
      rw [List.mem_singleton.mp own]
      exact ⟨least,here,rfl,fun place less _ => matched.2 stuck place less,.inr ⟨rfl,rfl⟩⟩
    · intro place from' stands
      refine ⟨_,List.mem_singleton_self _,?_,beyond place stands⟩
      by_contra less
      exact before place from' (Nat.lt_of_not_le less) ((opening_stands even named place).mpr stands)
  | case3 cursor inside opening found contentStart closing closed ih =>
    obtain ⟨least,_,begins,before⟩ := find_found (opening_nonempty tag) found
    have here := (opening_stands even named opening).mp begins
    have matched := (closes_matched even named contentStart 1 Nat.one_pos (opened_wraps even named here)).1 closing closed
    obtain ⟨all,order,cover⟩ := ih
    have forward := matched.2.from'
    rw [sections_closed inside found closed]
    refine ⟨?_,List.pairwise_cons.mpr ⟨fun span inside => (all span inside).1,order⟩,?_⟩
    · intro span own
      rcases List.mem_cons.mp own with first | later
      · rw [first]
        exact ⟨least,here,rfl,matched.2.inside,.inl ⟨matched.1,rfl,matched.2.depth⟩⟩
      · refine ⟨?_,(all span later).2⟩
        have := (all span later).1
        omega
    · intro place from' stands
      by_cases within : place < closing + (closingMarker tag).length
      · refine ⟨_,List.mem_cons_self,?_,within⟩
        by_contra less
        exact before place from' (Nat.lt_of_not_le less) ((opening_stands even named place).mpr stands)
      · obtain ⟨span,among,covers⟩ := cover place (Nat.le_of_not_lt within) stands
        exact ⟨span,List.mem_cons_of_mem _ among,covers⟩
  | case4 cursor outside =>
    rw [sections_end outside]
    refine ⟨fun span none => by simp at none,.nil,?_⟩
    intro place from' here
    have := beyond place here
    omega

theorem drop_parts (text : Text) (first : cursor ≤ place) (long : Nat) :
    text.drop cursor = slice text cursor place ++ (slice text place (place + long) ++ text.drop (place + long)) := by
  have outer := (List.take_append_drop (place - cursor) (text.drop cursor)).symm
  have inner := (List.take_append_drop long (text.drop place)).symm
  rw [List.drop_drop,Nat.add_sub_cancel' first] at outer
  rw [List.drop_drop] at inner
  rw [slice,slice,Nat.add_sub_cancel_left,← inner,← outer]

theorem slice_length (text : Text) (room : stop ≤ text.length) : (slice text start stop).length = stop - start := by
  rw [slice,List.length_take,List.length_drop]
  omega

theorem tokens_none (last : earliest lowered tag cursor = none) (inside : cursor < text.length) :
    tokensRemovedFrom text lowered tag cursor = text.drop cursor := by
  rw [tokensRemovedFrom,if_pos inside]
  split <;> simp_all

theorem tokens_next (found : earliest lowered tag cursor = some (place,marker)) (inside : cursor < text.length) :
    tokensRemovedFrom text lowered tag cursor = slice text cursor place ++ tokensRemovedFrom text lowered tag (place + marker.length) := by
  rw [tokensRemovedFrom,if_pos inside]
  split <;> simp_all

theorem tokens_end (outside : ¬ cursor < text.length) : tokensRemovedFrom text lowered tag cursor = [] := by
  rw [tokensRemovedFrom,if_neg outside]

theorem stands_drop {casing : Casing} {word : Text} (some' : word ≠ []) (there : Stands casing (text.drop start) word place) :
    Stands casing text word (start + place) := by
  obtain ⟨room,own⟩ := there
  rw [List.length_drop] at room
  have more := List.length_pos_of_ne_nil some'
  refine ⟨by omega,?_⟩
  rw [slice,List.drop_drop] at own
  rwa [slice,Nat.add_assoc,Nat.add_sub_add_left]

theorem kind_stands (even : Even casing text) (named : Tag tag) (kind : word = openingMarker tag ∨ word = closingMarker tag) (place : Nat) :
    word <+: (lower casing text).drop place ↔ Stands casing text word place := by
  rcases kind with own | own
  · rw [own]
    exact opening_stands even named place
  · rw [own]
    exact closing_stands even named place

theorem kind_nonempty (kind : word = openingMarker tag ∨ word = closingMarker tag) : word ≠ [] := by
  rcases kind with own | own
  · rw [own]
    exact opening_nonempty tag
  · rw [own]
    exact closing_nonempty tag

theorem tokens_cut (even : Even casing text) (named : Tag tag) (cursor : Nat) :
    Cut casing tag (text.drop cursor) (tokensRemovedFrom text (lower casing text) tag cursor) := by
  induction cursor using tokensRemovedFrom.induct text (lower casing text) tag with
  | case1 cursor inside last =>
    rw [tokens_none last inside]
    obtain ⟨opening,closing⟩ := earliest_none last
    refine .rest fun place => ⟨?_,?_⟩
    · intro here
      have there := (opening_stands even named _).mpr (stands_drop (opening_nonempty tag) here)
      exact find_absent opening _ (Nat.le_add_right cursor place) there
    · intro here
      have there := (closing_stands even named _).mpr (stands_drop (closing_nonempty tag) here)
      exact find_absent closing _ (Nat.le_add_right cursor place) there
  | case2 cursor inside place marker found ih =>
    rw [tokens_next found inside]
    obtain ⟨kind,there⟩ := earliest_found found
    obtain ⟨least,_,begins,_⟩ := find_found (kind_nonempty kind) there
    have here := (kind_stands even named kind place).mp begins
    have room : place ≤ text.length := by
      have := here.1
      omega
    have long : (slice text cursor place).length = place - cursor := slice_length text room
    have free (word) (sort : word = openingMarker tag ∨ word = closingMarker tag) (i) (less : i < (slice text cursor place).length) :
        ¬ Stands casing (text.drop cursor) word i := by
      intro stands
      have earlier := (kind_stands even named sort _).mpr (stands_drop (kind_nonempty sort) stands)
      cases next : find word (lower casing text) cursor with
      | none => exact find_absent next _ (Nat.le_add_right cursor i) earlier
      | some other =>
        have first := earliest_first found word sort other next
        exact (find_found (kind_nonempty sort) next).2.2.2 _ (Nat.le_add_right cursor i) (by omega) earlier
    have parts := drop_parts text least marker.length
    rw [parts] at free ⊢
    refine .token (fun i less => ⟨free _ (.inl rfl) i less,free _ (.inr rfl) i less⟩) ?_ ih
    rw [here.2]
    exact kind
  | case3 cursor outside =>
    rw [tokens_end outside,List.drop_eq_nil_of_le (Nat.le_of_not_lt outside)]
    refine .rest fun place => ⟨?_,?_⟩
    · intro here
      have room := here.1
      simp [opening_length] at room
    · intro here
      have room := here.1
      simp [closing_length] at room

end Places

end AgentSideCar.Wrappers
