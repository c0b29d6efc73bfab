import AgentSideCar.Text.Wrappers
import Mathlib.Algebra.Group.Nat.Defs
import Mathlib.Algebra.GroupWithZero.Nat

namespace AgentSideCar.CursorTitle
open Points Wrappers Markers

def cursorTitleLimit : Nat := 160

def cursorTitleMaxInputChars : Nat := 64 * 1024

def cursorTitleMaxTexts : Nat := 256

def cursorMetadataTags : List Text := ["user_info","open_and_recently_viewed_files","attached_files","agent_transcripts","git_status",
  "rules","system_reminder","timestamp"].map lit

def userQuery : Text := lit "user_query"

def snip (value : Text) (limit : Nat) : Text :=
  let text := join (split value)
  if limit = 0 then [] else if text.length ≤ limit then text else text.take (limit - 1) ++ [0x2026]

-- The first user query that is not empty.
def queryTitle (casing : Casing) (bounded : Text) : Option Text :=
  ((wrapperSections casing bounded userQuery).map fun span =>
    snip (removeTagTokens casing (slice bounded span.contentStart span.contentEnd) userQuery) cursorTitleLimit).find? (· ≠ [])

def removeAll (casing : Casing) : List Text → Text → Text
  | [],residual => residual
  | tag :: tags,residual =>
    let rest := removeWrappedSections casing residual tag
    if rest = [] then rest else removeAll casing tags rest

def candidateTitle (casing : Casing) (bounded : Text) : Text :=
  let residual := removeAll casing cursorMetadataTags bounded
  snip (if residual = [] then residual else removeWrappedSections casing residual userQuery) cursorTitleLimit

-- A value is none where it is not text.
def titleFrom (casing : Casing) (fallback : Option Text) : Nat → Text → List (Option Text) → Text
  | _,fallbackUser,[] => if fallbackUser = [] then snip (fallback.getD []) cursorTitleLimit else fallbackUser
  | remaining,fallbackUser,value :: rest =>
    if remaining = 0 then if fallbackUser = [] then snip (fallback.getD []) cursorTitleLimit else fallbackUser
    else match value with
      | none => titleFrom casing fallback remaining fallbackUser rest
      | some text =>
        let bounded := text.take remaining
        if bounded = [] then titleFrom casing fallback remaining fallbackUser rest
        else match queryTitle casing bounded with
          | some title => title
          | none => titleFrom casing fallback (remaining - bounded.length)
              (if fallbackUser = [] then candidateTitle casing bounded else fallbackUser) rest

def extractCursorTitle (casing : Casing) (texts : List (Option Text)) (fallback : Option Text) : Text :=
  titleFrom casing fallback cursorTitleMaxInputChars [] (texts.take cursorTitleMaxTexts)

def wrapperTags : List Text := cursorMetadataTags ++ [userQuery]

theorem wrapperTags_named : ∀ tag ∈ wrapperTags, Tag tag := by decide

-- A text with its wrappers: plain up to the first, that has a text of its own, and on from it.
inductive Doc where
  | plain (text : Text)
  | wrapper (before tag opening closing : Text) (body rest : Doc)

def render : Doc → Text
  | .plain text => text
  | .wrapper before _ opening closing body rest => before ++ (opening ++ (render body ++ (closing ++ render rest)))

def outside : Doc → Text
  | .plain text => text
  | .wrapper before _ _ _ _ rest => before ++ outside rest

def Bare (casing : Casing) (text : Text) : Prop :=
  ∀ tag ∈ wrapperTags, ¬ openingMarker tag <:+: lower casing text ∧ ¬ closingMarker tag <:+: lower casing text

instance (casing : Casing) (text : Text) : Decidable (Bare casing text) := inferInstanceAs (Decidable (∀ _ ∈ _, _))

-- Every wrapper is opened and closed, in any case, and in the text outside the wrappers,
-- of the whole or within one, there is no marker.
def Sound (casing : Casing) : Doc → Prop
  | .plain _ => True
  | .wrapper _ tag opening closing body rest => tag ∈ wrapperTags ∧ lower casing opening = openingMarker tag ∧
      lower casing closing = closingMarker tag ∧ Bare casing (outside body) ∧ Sound casing body ∧ Sound casing rest

structure Fits (casing : Casing) (doc : Doc) : Prop where
  sound : Sound casing doc
  bare : Bare casing (outside doc)
  even : Even casing (render doc)

structure Document (casing : Casing) where
  doc : Doc
  fits : Fits casing doc

def prepend (text : Text) : Doc → Doc
  | .plain later => .plain (text ++ later)
  | .wrapper before tag opening closing body rest => .wrapper (text ++ before) tag opening closing body rest

-- The wrappers of a tag are taken out, wherever they are.
def strip (tag : Text) : Doc → Doc
  | .plain text => .plain text
  | .wrapper before other opening closing body rest =>
    if other = tag then prepend before (strip tag rest) else .wrapper before other opening closing (strip tag body) (strip tag rest)

-- What is in the outermost wrappers of a tag.
def inner (tag : Text) : Doc → List Doc
  | .plain _ => []
  | .wrapper _ other _ _ body rest => (if other = tag then [body] else inner tag body) ++ inner tag rest

-- The markers of a tag are taken out, and what is between them is kept.
def peel (tag : Text) : Doc → Text
  | .plain text => text
  | .wrapper before other opening closing body rest =>
    before ++ ((if other = tag then peel tag body else opening ++ (peel tag body ++ closing)) ++ peel tag rest)

def Lacks (tag : Text) : Doc → Prop
  | .plain _ => True
  | .wrapper _ other _ _ body rest => other ≠ tag ∧ Lacks tag body ∧ Lacks tag rest

section Passing
variable {casing : Casing} {tag word : Text} {before part rest : Text}

-- The search goes over a part: nothing of a word begins there.
def Skips (casing : Casing) (word part rest : Text) : Prop :=
  first word ((part ++ rest).map (fold casing)) = (first word (rest.map (fold casing))).map (· + part.length)

def Passed (casing : Casing) (tag part rest : Text) : Prop :=
  Skips casing (openingMarker tag) part rest ∧ Skips casing (closingMarker tag) part rest

-- What comes next begins a marker, or nothing comes.
def Starts (casing : Casing) (rest : Text) : Prop := ∀ c, (rest.map (fold casing)).head? = some c → c = 60

theorem skips_append (first' : Skips casing word part (middle ++ rest)) (second : Skips casing word middle rest) :
    Skips casing word (part ++ middle) rest := by
  unfold Skips at *
  rw [List.append_assoc,first',second,Option.map_map,List.length_append]
  congr 1
  funext n
  simp only [Function.comp]
  omega

theorem passed_append (first' : Passed casing tag part (middle ++ rest)) (second : Passed casing tag middle rest) :
    Passed casing tag (part ++ middle) rest := ⟨skips_append first'.1 second.1,skips_append first'.2 second.2⟩

theorem infix_lower (even : Even casing text) (letters : Letters word) : word <:+: text.map (fold casing) ↔ word <:+: lower casing text := by
  rw [← lower_fold even]
  have place : ∀ t : Text, word <:+: t ↔ ∃ j, word <+: t.drop j := by
    intro t
    constructor
    · intro ⟨before,after,own⟩
      refine ⟨before.length,?_⟩
      rw [← own,List.append_assoc,List.drop_left]
      exact List.prefix_append word after
    · intro ⟨j,begins⟩
      exact begins.isInfix.trans (List.drop_suffix j t).isInfix
  rw [place,place]
  refine exists_congr fun j => ?_
  rw [← List.map_drop,prefix_map (unsigma_letters letters)]

theorem plain_skips (even : Even casing part) (marker : Marker 60 62 word) (letters : Letters word)
    (free : ¬ word <:+: lower casing part) (starts : Starts casing rest) : Skips casing word part rest := by
  have beyond := first_over marker (mt (infix_lower even letters).mp free) starts
  rw [Skips,List.map_append,beyond,List.length_map]

theorem plain_passed (even : Even casing part) (bare : Bare casing part) (known : tag ∈ wrapperTags) (starts : Starts casing rest) :
    Passed casing tag part rest :=
  have named := wrapperTags_named tag known
  ⟨plain_skips even (opening_marker named) (opening_letters named) (bare tag known).1 starts,
    plain_skips even (closing_marker named) (closing_letters named) (bare tag known).2 starts⟩

theorem marker_skips (own : part.map (fold casing) = other) (marker : Marker 60 62 word) (another : Marker 60 62 other) (apart : word ≠ other) :
    Skips casing word part rest := by
  have long := congrArg List.length own
  rw [List.length_map] at long
  rw [Skips,List.map_append,own,first_other marker another apart,long]

theorem opening_passed (named : Tag tag) (others : Tag other) (apart : tag ≠ other) (own : part.map (fold casing) = openingMarker other) :
    Passed casing tag part rest :=
  ⟨marker_skips own (opening_marker named) (opening_marker others) (fun same => apart (opening_injective same)),
    marker_skips own (closing_marker named) (opening_marker others) (fun same => kinds_apart others tag same.symm)⟩

theorem closing_passed (named : Tag tag) (others : Tag other) (apart : tag ≠ other) (own : part.map (fold casing) = closingMarker other) :
    Passed casing tag part rest :=
  ⟨marker_skips own (opening_marker named) (closing_marker others) (kinds_apart named other),
    marker_skips own (closing_marker named) (closing_marker others) (fun same => apart (closing_injective same))⟩

theorem marker_starts (own : part.map (fold casing) = word) (marker : Marker 60 62 word) : Starts casing (part ++ rest) := by
  intro c head
  rw [List.map_append,own,List.head?_append,marker_head marker] at head
  cases head
  rfl

variable {text : Text}

theorem skips_find (even : Even casing text) (letters : Letters word) (parts : text = before ++ (part ++ rest))
    (skips : Skips casing word part rest) :
    find word (lower casing text) before.length = find word (lower casing text) (before.length + part.length) := by
  have mapped : first word (part.map (fold casing) ++ rest.map (fold casing)) =
      (first word (rest.map (fold casing))).map (· + (part.map (fold casing)).length) := by
    rw [← List.map_append,skips,List.length_map]
  have beyond := find_beyond (before.map (fold casing)) mapped
  rw [find_fold even letters,find_fold even letters,parts]
  simpa only [List.map_append,List.length_map] using beyond

theorem own_find (even : Even casing text) (letters : Letters word) (parts : text = before ++ (part ++ rest))
    (own : part.map (fold casing) = word) : find word (lower casing text) before.length = some before.length := by
  have here := find_here word (before.map (fold casing)) (rest.map (fold casing))
  rw [find_fold even letters,parts]
  simpa only [List.map_append,List.length_map,own] using here

variable (named : Tag tag) (even : Even casing text) (parts : text = before ++ (part ++ rest))

theorem slice_part (parts : text = before ++ (part ++ rest)) (most : before.length + part.length ≤ stop) :
    slice text before.length stop = part ++ slice text (before.length + part.length) stop := by
  have onward : text.drop (before.length + part.length) = rest := by
    rw [parts,← List.append_assoc,← List.length_append,List.drop_left]
  rw [slice,slice,onward,parts,List.drop_left,List.take_append,List.take_of_length_le (by omega),Nat.sub_sub]

include named even parts

theorem passed_ahead (passed : Passed casing tag part rest) :
    ahead (lower casing text) tag before.length = ahead (lower casing text) tag (before.length + part.length) := by
  rw [ahead,ahead,skips_find even (opening_letters named) parts passed.1,skips_find even (closing_letters named) parts passed.2]

theorem passed_closes (passed : Passed casing tag part rest) (depth : Nat) :
    closes (lower casing text) tag before.length depth = closes (lower casing text) tag (before.length + part.length) depth := by
  have same := passed_ahead named even parts passed
  cases next : ahead (lower casing text) tag (before.length + part.length) with
  | none => rw [closes_last next,closes_last (same.trans next)]
  | some place =>
    obtain ⟨place,kind⟩ := place
    cases kind with
    | true => rw [closes_nested next,closes_nested (same.trans next)]
    | false =>
      by_cases last : depth = 1
      · rw [last,closes_end next,closes_end (same.trans next)]
      · rw [closes_inner next last,closes_inner (same.trans next) last]

theorem passed_sections (passed : Passed casing tag part rest) : sectionsFrom text (lower casing text) tag before.length =
    sectionsFrom text (lower casing text) tag (before.length + part.length) := by
  have same := skips_find even (opening_letters named) parts passed.1
  cases next : find (openingMarker tag) (lower casing text) (before.length + part.length) with
  | none => rw [sections_none next,sections_none (same.trans next)]
  | some opening =>
    obtain ⟨least,room,_⟩ := find_found (opening_nonempty tag) next
    have long := opening_length tag
    rw [lower_length even] at room
    have inside : before.length + part.length < text.length := by omega
    have earlier : before.length < text.length := by omega
    cases closed : closes (lower casing text) tag (opening + (openingMarker tag).length) 1 with
    | none => rw [sections_unclosed inside next closed,sections_unclosed earlier (same.trans next) closed]
    | some closing => rw [sections_closed inside next closed,sections_closed earlier (same.trans next) closed]

-- What is kept from a place on.
def kept (text lowered tag : Text) (cursor : Nat) : Text := outsideFrom text cursor (sectionsFrom text lowered tag cursor)

theorem passed_kept (passed : Passed casing tag part rest) : kept text (lower casing text) tag before.length =
    part ++ kept text (lower casing text) tag (before.length + part.length) := by
  have later := (sections_exact even named (before.length + part.length)).1
  unfold kept
  rw [passed_sections named even parts passed]
  cases spans : sectionsFrom text (lower casing text) tag (before.length + part.length) with
  | nil =>
    rw [outsideFrom,outsideFrom,parts,List.drop_left,← List.length_append,← List.append_assoc,List.drop_left]
  | cons span spans' =>
    have most := (later span (spans ▸ List.mem_cons_self)).1
    rw [outsideFrom,outsideFrom,slice_part parts most,List.append_assoc]

theorem passed_tokens (passed : Passed casing tag part rest) : tokensRemovedFrom text (lower casing text) tag before.length =
    part ++ tokensRemovedFrom text (lower casing text) tag (before.length + part.length) := by
  have same : earliest (lower casing text) tag before.length = earliest (lower casing text) tag (before.length + part.length) := by
    rw [earliest,earliest,skips_find even (opening_letters named) parts passed.1,skips_find even (closing_letters named) parts passed.2]
  have whole : text.drop before.length = part ++ text.drop (before.length + part.length) := by
    rw [parts,List.drop_left,← List.length_append,← List.append_assoc,List.drop_left]
  cases next : earliest (lower casing text) tag (before.length + part.length) with
  | none =>
    by_cases inside : before.length < text.length
    · rw [tokens_none (same.trans next) inside,whole]
      by_cases onward : before.length + part.length < text.length
      · rw [tokens_none next onward]
      · rw [tokens_end onward,List.drop_eq_nil_of_le (Nat.le_of_not_lt onward)]
    · have empty : part = [] := by
        rw [List.drop_eq_nil_of_le (Nat.le_of_not_lt inside)] at whole
        exact (List.append_eq_nil_iff.mp whole.symm).1
      rw [empty]
      rfl
  | some found =>
    obtain ⟨place,marker⟩ := found
    obtain ⟨kind,there⟩ := earliest_found next
    obtain ⟨least,room,_⟩ := find_found (kind_nonempty kind) there
    have long := List.length_pos_of_ne_nil (kind_nonempty kind)
    rw [lower_length even] at room
    rw [tokens_next next (by omega),tokens_next (same.trans next) (by omega),slice_part parts least,List.append_assoc]

theorem opening_ahead (own : part.map (fold casing) = openingMarker tag) (closed : closingMarker tag <:+: rest.map (fold casing)) :
    ahead (lower casing text) tag before.length = some (before.length,true) := by
  have opened := own_find even (opening_letters named) parts own
  have beyond := skips_find even (closing_letters named) parts
    (marker_skips own (closing_marker named) (opening_marker named) (kinds_apart named tag).symm)
  have onward : (text.map (fold casing)).drop (before.length + part.length) = rest.map (fold casing) := by
    rw [← List.map_drop,parts,← List.append_assoc,← List.length_append,List.drop_left]
  obtain ⟨k,there⟩ := first_some closed
  have stops : find (closingMarker tag) (lower casing text) (before.length + part.length) = some (before.length + part.length + k) := by
    rw [find_fold even (closing_letters named),find,onward,there]
    rfl
  have long := congrArg List.length own
  rw [List.length_map,opening_length] at long
  rw [ahead,opened,beyond,stops]
  exact if_pos (by omega)

theorem closing_ahead (own : part.map (fold casing) = closingMarker tag) :
    ahead (lower casing text) tag before.length = some (before.length,false) := by
  have closed := own_find even (closing_letters named) parts own
  have beyond := skips_find even (opening_letters named) parts
    (marker_skips own (opening_marker named) (closing_marker named) (kinds_apart named tag))
  rw [ahead,closed,beyond]
  cases opened : find (openingMarker tag) (lower casing text) (before.length + part.length) with
  | none => rfl
  | some nested =>
    have least := (find_found (opening_nonempty tag) opened).1
    exact if_neg (by omega)

theorem own_tokens (own : part.map (fold casing) = openingMarker tag ∨ part.map (fold casing) = closingMarker tag) :
    tokensRemovedFrom text (lower casing text) tag before.length =
      tokensRemovedFrom text (lower casing text) tag (before.length + part.length) := by
  have long : (part.map (fold casing)).length = part.length := List.length_map ..
  have some' : 0 < part.length := by
    rw [← long]
    exact List.length_pos_of_ne_nil (kind_nonempty own)
  have inside : before.length < text.length := by
    rw [parts,List.length_append,List.length_append]
    omega
  have next : earliest (lower casing text) tag before.length = some (before.length,part.map (fold casing)) := by
    rcases own with opens | ends
    · have beyond := skips_find even (closing_letters named) parts
        (marker_skips opens (closing_marker named) (opening_marker named) (kinds_apart named tag).symm)
      rw [earliest,own_find even (opening_letters named) parts opens,beyond,opens]
      cases later : find (closingMarker tag) (lower casing text) (before.length + part.length) with
      | none => rfl
      | some closing =>
        have least := (find_found (closing_nonempty tag) later).1
        exact if_neg (by omega)
    · have beyond := skips_find even (opening_letters named) parts
        (marker_skips ends (opening_marker named) (closing_marker named) (kinds_apart named tag))
      rw [earliest,own_find even (closing_letters named) parts ends,beyond,ends]
      cases later : find (openingMarker tag) (lower casing text) (before.length + part.length) with
      | none => rfl
      | some opening =>
        have least := (find_found (opening_nonempty tag) later).1
        exact if_pos (by omega)
  rw [tokens_next next inside,long,slice,Nat.sub_self,List.take_zero,List.nil_append]

end Passing

section Documents
variable {casing : Casing}

theorem outside_mem (inside : c ∈ outside doc) : c ∈ render doc := by
  induction doc with
  | plain text => exact inside
  | wrapper before tag opening closing body rest _ ih =>
    rcases List.mem_append.mp inside with first | later
    · exact List.mem_append_left _ first
    · simp [render,ih later]

theorem bare_parts (even : Even casing (text ++ more)) (bare : Bare casing (text ++ more)) : Bare casing text ∧ Bare casing more := by
  have first : Even casing text := fun c inside => even c (List.mem_append_left more inside)
  have second : Even casing more := fun c inside => even c (List.mem_append_right text inside)
  have carried : ∀ word part, Letters word → Even casing part → part <:+: text ++ more → word <:+: lower casing part →
      word <:+: lower casing (text ++ more) := by
    intro word part letters own within occurs
    rw [← infix_lower own letters] at occurs
    rw [← infix_lower even letters]
    exact occurs.trans (within.map _)
  constructor
  · intro tag known
    have named := wrapperTags_named tag known
    obtain ⟨opening,closing⟩ := bare tag known
    have within := (List.prefix_append text more).isInfix
    exact ⟨mt (carried _ _ (opening_letters named) first within) opening,mt (carried _ _ (closing_letters named) first within) closing⟩
  · intro tag known
    have named := wrapperTags_named tag known
    obtain ⟨opening,closing⟩ := bare tag known
    have within := (List.suffix_append text more).isInfix
    exact ⟨mt (carried _ _ (opening_letters named) second within) opening,mt (carried _ _ (closing_letters named) second within) closing⟩

-- A document that begins with a wrapper, in its parts.
structure Parts (casing : Casing) (before tag opening closing : Text) (body rest : Doc) : Prop where
  even : Even casing before
  bare : Bare casing before
  known : tag ∈ wrapperTags
  opens : opening.map (fold casing) = openingMarker tag
  ends : closing.map (fold casing) = closingMarker tag
  body : Fits casing body
  rest : Fits casing rest

theorem fits_parts (fits : Fits casing (.wrapper before tag opening closing body rest)) : Parts casing before tag opening closing body rest := by
  obtain ⟨⟨known,opens,ends,clear,inner,later⟩,bare,even⟩ := fits
  have named := wrapperTags_named tag known
  have part : ∀ text : Text, (∀ c ∈ text, c ∈ render (.wrapper before tag opening closing body rest)) → Even casing text :=
    fun text within c inside => even c (within c inside)
  have own : Even casing before := part before fun c inside => by simp [render,inside]
  have tail : Even casing (render rest) := part _ fun c inside => by simp [render,inside]
  have whole : Even casing (before ++ outside rest) := part _ fun c inside => outside_mem inside
  obtain ⟨first,second⟩ := bare_parts whole bare
  refine ⟨own,first,known,?_,?_,⟨inner,clear,part _ fun c inside => by simp [render,inside]⟩,⟨later,second,tail⟩⟩
  · exact (lower_letters (part opening fun c inside => by simp [render,inside]) (opening_letters named)).mp opens
  · exact (lower_letters (part closing fun c inside => by simp [render,inside]) (closing_letters named)).mp ends

-- Where each part of such a document stands in a text.
structure Laid (text prior before opening : Text) (body : Doc) (closing : Text) (tail : Doc) (rest : Text) : Prop where
  plain : text = prior ++ (before ++ (opening ++ (render body ++ (closing ++ (render tail ++ rest)))))
  opens : text = (prior ++ before) ++ (opening ++ (render body ++ (closing ++ (render tail ++ rest))))
  inner : text = (prior ++ before ++ opening) ++ (render body ++ (closing ++ (render tail ++ rest)))
  ends : text = (prior ++ before ++ opening ++ render body) ++ (closing ++ (render tail ++ rest))
  onward : text = (prior ++ before ++ opening ++ render body ++ closing) ++ (render tail ++ rest)
  long : ∀ tag, prior.length + (render (.wrapper before tag opening closing body tail)).length =
    (prior ++ before ++ opening ++ render body ++ closing).length + (render tail).length

theorem laid_out (own : text = prior ++ (render (.wrapper before tag opening closing body tail) ++ rest)) :
    Laid text prior before opening body closing tail rest := by
  refine ⟨?_,?_,?_,?_,?_,fun other => ?_⟩
  all_goals simp only [own,render,List.append_assoc,List.length_append,Nat.add_assoc]

theorem Parts.starts_open {within after : Doc} (parts : Parts casing before tag opening closing within after) (more : Text) :
    Starts casing (opening ++ more) :=
  marker_starts parts.opens (opening_marker (wrapperTags_named tag parts.known))

theorem Parts.starts_end {within after : Doc} (parts : Parts casing before tag opening closing within after) (more : Text) :
    Starts casing (closing ++ more) :=
  marker_starts parts.ends (closing_marker (wrapperTags_named tag parts.known))

theorem render_prepend (text : Text) (doc : Doc) : render (prepend text doc) = text ++ render doc := by
  cases doc <;> simp [prepend,render]

variable {text tag : Text} {doc : Doc}

theorem doc_closes (known : tag ∈ wrapperTags) (even : Even casing text) (fits : Fits casing doc) : ∀ prior rest depth,
    text = prior ++ (render doc ++ rest) → Starts casing rest → 0 < depth →
    closes (lower casing text) tag prior.length depth = closes (lower casing text) tag (prior.length + (render doc).length) depth := by
  have named := wrapperTags_named tag known
  induction doc with
  | plain part =>
    intro prior rest depth own starts _
    exact passed_closes named even own (plain_passed fits.even fits.bare known starts) depth
  | wrapper before other opening closing body tail ihBody ihTail =>
    intro prior rest depth own starts positive
    have parts := fits_parts fits
    have others := wrapperTags_named other parts.known
    have laid := laid_out own
    have plain := passed_closes named even laid.plain (plain_passed parts.even parts.bare known (parts.starts_open _)) depth
    have last := ihTail parts.rest _ rest depth laid.onward starts positive
    rw [laid.long,← last,plain,← List.length_append]
    by_cases same : other = tag
    · have first : closingMarker tag <:+: (render body ++ (closing ++ (render tail ++ rest))).map (fold casing) := by
        rw [List.map_append,List.map_append,parts.ends,same]
        exact ⟨_,_,List.append_assoc ..⟩
      have longOpen := congrArg List.length (same ▸ parts.opens)
      have longEnd := congrArg List.length (same ▸ parts.ends)
      rw [List.length_map] at longOpen longEnd
      rw [closes_nested (opening_ahead named even laid.opens (same ▸ parts.opens) first),← longOpen,← List.length_append,
        ihBody parts.body _ _ (depth + 1) laid.inner (parts.starts_end _) (Nat.succ_pos depth),← List.length_append,
        closes_inner (closing_ahead named even laid.ends (same ▸ parts.ends)) (by omega),← longEnd,← List.length_append]
      rfl
    · have overOpen := passed_closes named even laid.opens (opening_passed named others (Ne.symm same) parts.opens) depth
      have overBody := ihBody parts.body _ _ depth laid.inner (parts.starts_end _) positive
      have overEnd := passed_closes named even laid.ends (closing_passed named others (Ne.symm same) parts.ends) depth
      rw [overOpen,← List.length_append,overBody,← List.length_append,overEnd,← List.length_append]

theorem wrapper_section (even : Even casing text) (parts : Parts casing before tag opening closing body tail)
    (laid : Laid text prior before opening body closing tail rest) : sectionsFrom text (lower casing text) tag (prior ++ before).length =
      ⟨(prior ++ before).length,(prior ++ before ++ opening ++ render body ++ closing).length,(prior ++ before ++ opening).length,
        (prior ++ before ++ opening ++ render body).length⟩ ::
      sectionsFrom text (lower casing text) tag (prior ++ before ++ opening ++ render body ++ closing).length := by
  have named := wrapperTags_named tag parts.known
  have longOpen := congrArg List.length parts.opens
  have longEnd := congrArg List.length parts.ends
  rw [List.length_map] at longOpen longEnd
  have closed : closes (lower casing text) tag ((prior ++ before).length + (openingMarker tag).length) 1 =
      some (prior ++ before ++ opening ++ render body).length := by
    have within := doc_closes parts.known even parts.body _ _ 1 laid.inner (marker_starts parts.ends (closing_marker named)) Nat.one_pos
    rw [← longOpen,← List.length_append,within,← List.length_append]
    exact closes_end (closing_ahead named even laid.ends parts.ends)
  have inside : (prior ++ before).length < text.length := by
    have more := opening_length tag
    have whole := congrArg List.length laid.opens
    simp only [List.length_append] at whole ⊢
    omega
  rw [sections_closed inside (own_find even (opening_letters named) laid.opens parts.opens) closed,← longOpen,← longEnd]
  simp only [List.length_append]

theorem doc_sections (known : tag ∈ wrapperTags) (even : Even casing text) (fits : Fits casing doc) : ∀ prior rest,
    text = prior ++ (render doc ++ rest) → Starts casing rest →
    (sectionsFrom text (lower casing text) tag prior.length).map (fun span => slice text span.contentStart span.contentEnd) =
      (inner tag doc).map render ++ (sectionsFrom text (lower casing text) tag (prior.length + (render doc).length)).map
        fun span => slice text span.contentStart span.contentEnd := by
  have named := wrapperTags_named tag known
  induction doc with
  | plain part =>
    intro prior rest own starts
    rw [passed_sections named even own (plain_passed fits.even fits.bare known starts)]
    rfl
  | wrapper before other opening closing body tail ihBody ihTail =>
    intro prior rest own starts
    have parts := fits_parts fits
    have others := wrapperTags_named other parts.known
    have laid := laid_out own
    have plain := passed_sections named even laid.plain (plain_passed parts.even parts.bare known (parts.starts_open _))
    have last := ihTail parts.rest _ rest laid.onward starts
    rw [laid.long,plain,← List.length_append]
    by_cases same : other = tag
    · cases same
      have content : slice text (prior ++ before ++ opening).length (prior ++ before ++ opening ++ render body).length = render body := by
        have long : (prior ++ before ++ opening ++ render body).length = (prior ++ before ++ opening).length + (render body).length :=
          List.length_append
        rw [slice,long,Nat.add_sub_cancel_left]
        nth_rewrite 1 [laid.inner]
        rw [List.drop_left,List.take_left]
      rw [wrapper_section even parts laid,List.map_cons,content,last]
      simp [inner]
    · have overOpen := passed_sections named even laid.opens (opening_passed named others (Ne.symm same) parts.opens)
      have overBody := ihBody parts.body _ _ laid.inner (parts.starts_end _)
      have overEnd := passed_sections named even laid.ends (closing_passed named others (Ne.symm same) parts.ends)
      rw [overOpen,← List.length_append,overBody,← List.length_append,overEnd,← List.length_append,last]
      simp only [inner,if_neg same,List.map_append,List.append_assoc]

theorem doc_kept (known : tag ∈ wrapperTags) (even : Even casing text) (fits : Fits casing doc) : ∀ prior rest,
    text = prior ++ (render doc ++ rest) → Starts casing rest →
    kept text (lower casing text) tag prior.length =
      render (strip tag doc) ++ kept text (lower casing text) tag (prior.length + (render doc).length) := by
  have named := wrapperTags_named tag known
  induction doc with
  | plain part =>
    intro prior rest own starts
    exact passed_kept named even own (plain_passed fits.even fits.bare known starts)
  | wrapper before other opening closing body tail ihBody ihTail =>
    intro prior rest own starts
    have parts := fits_parts fits
    have others := wrapperTags_named other parts.known
    have laid := laid_out own
    have plain := passed_kept named even laid.plain (plain_passed parts.even parts.bare known (parts.starts_open _))
    have last := ihTail parts.rest _ rest laid.onward starts
    rw [laid.long,plain,← List.length_append]
    by_cases same : other = tag
    · cases same
      rw [kept,wrapper_section even parts laid,outsideFrom,slice,Nat.sub_self,List.take_zero,List.nil_append]
      refine (congrArg (before ++ ·) last).trans ?_
      rw [strip,if_pos rfl,render_prepend]
      exact (List.append_assoc ..).symm
    · have overOpen := passed_kept named even laid.opens (opening_passed named others (Ne.symm same) parts.opens)
      have overBody := ihBody parts.body _ _ laid.inner (parts.starts_end _)
      have overEnd := passed_kept named even laid.ends (closing_passed named others (Ne.symm same) parts.ends)
      rw [overOpen,← List.length_append,overBody,← List.length_append,overEnd,← List.length_append,last]
      simp only [strip,if_neg same,render,List.append_assoc]

theorem doc_tokens (known : tag ∈ wrapperTags) (even : Even casing text) (fits : Fits casing doc) : ∀ prior rest,
    text = prior ++ (render doc ++ rest) → Starts casing rest →
    tokensRemovedFrom text (lower casing text) tag prior.length =
      peel tag doc ++ tokensRemovedFrom text (lower casing text) tag (prior.length + (render doc).length) := by
  have named := wrapperTags_named tag known
  induction doc with
  | plain part =>
    intro prior rest own starts
    exact passed_tokens named even own (plain_passed fits.even fits.bare known starts)
  | wrapper before other opening closing body tail ihBody ihTail =>
    intro prior rest own starts
    have parts := fits_parts fits
    have others := wrapperTags_named other parts.known
    have laid := laid_out own
    have plain := passed_tokens named even laid.plain (plain_passed parts.even parts.bare known (parts.starts_open _))
    have overBody := ihBody parts.body _ _ laid.inner (parts.starts_end _)
    have last := ihTail parts.rest _ rest laid.onward starts
    rw [laid.long,plain,← List.length_append]
    by_cases same : other = tag
    · have overOpen := own_tokens named even laid.opens (.inl (same ▸ parts.opens))
      have overEnd := own_tokens named even laid.ends (.inr (same ▸ parts.ends))
      rw [overOpen,← List.length_append,overBody,← List.length_append,overEnd,← List.length_append,last]
      simp only [peel,if_pos same,List.append_assoc]
    · have overOpen := passed_tokens named even laid.opens (opening_passed named others (Ne.symm same) parts.opens)
      have overEnd := passed_tokens named even laid.ends (closing_passed named others (Ne.symm same) parts.ends)
      rw [overOpen,← List.length_append,overBody,← List.length_append,overEnd,← List.length_append,last]
      simp only [peel,if_neg same,List.append_assoc]

theorem doc_passed (known : tag ∈ wrapperTags) (fits : Fits casing doc) (lacks : Lacks tag doc) : ∀ rest, Starts casing rest →
    Passed casing tag (render doc) rest := by
  have named := wrapperTags_named tag known
  induction doc with
  | plain part =>
    intro rest starts
    exact plain_passed fits.even fits.bare known starts
  | wrapper before other opening closing body tail ihBody ihTail =>
    intro rest starts
    have parts := fits_parts fits
    have others := wrapperTags_named other parts.known
    have apart := Ne.symm lacks.1
    refine passed_append (plain_passed parts.even parts.bare known ?_) (passed_append (opening_passed named others apart parts.opens)
      (passed_append (ihBody parts.body lacks.2.1 _ ?_) (passed_append (closing_passed named others apart parts.ends)
        (ihTail parts.rest lacks.2.2 rest starts))))
    · simp only [List.append_assoc]
      exact parts.starts_open _
    · simp only [List.append_assoc]
      exact parts.starts_end _

theorem lacks_free (known : tag ∈ wrapperTags) (fits : Fits casing doc) (lacks : Lacks tag doc) :
    ¬ closingMarker tag <:+: lower casing (render doc) := by
  have named := wrapperTags_named tag known
  have passed := (doc_passed known fits lacks [] (fun c none => by cases none)).2
  rw [← infix_lower fits.even (closing_letters named)]
  intro occurs
  obtain ⟨k,found⟩ := first_some occurs
  rw [Skips,List.append_nil,found,List.map_nil,first,if_neg (closing_nonempty tag)] at passed
  cases passed

theorem lacks_peel (lacks : Lacks tag doc) : peel tag doc = render doc := by
  induction doc with
  | plain text => rfl
  | wrapper before other opening closing body tail ihBody ihTail =>
    simp only [peel,render,if_neg lacks.1,ihBody lacks.2.1,ihTail lacks.2.2,List.append_assoc]

theorem prepend_outside (text : Text) (doc : Doc) : outside (prepend text doc) = text ++ outside doc := by
  cases doc <;> simp [prepend,outside]

theorem prepend_lacks : Lacks tag (prepend text doc) ↔ Lacks tag doc := by
  cases doc <;> simp [prepend,Lacks]

theorem prepend_sound : Sound casing (prepend text doc) ↔ Sound casing doc := by
  cases doc <;> simp [prepend,Sound]

theorem strip_outside (tag : Text) (doc : Doc) : outside (strip tag doc) = outside doc := by
  induction doc with
  | plain text => rfl
  | wrapper before other opening closing body tail _ ih =>
    unfold strip
    split
    · rw [prepend_outside,ih,outside]
    · rw [outside,ih,outside]

theorem strip_lacks (tag : Text) (doc : Doc) : Lacks tag (strip tag doc) := by
  induction doc with
  | plain text => trivial
  | wrapper before other opening closing body tail ihBody ihTail =>
    unfold strip
    split
    · exact prepend_lacks.mpr ihTail
    · rename_i apart
      exact ⟨apart,ihBody,ihTail⟩

theorem strip_keeps (lacks : Lacks tag doc) (other : Text) : Lacks tag (strip other doc) := by
  induction doc with
  | plain text => trivial
  | wrapper before own opening closing body tail ihBody ihTail =>
    unfold strip
    split
    · exact prepend_lacks.mpr (ihTail lacks.2.2)
    · exact ⟨lacks.1,ihBody lacks.2.1,ihTail lacks.2.2⟩

theorem strip_sound (sound : Sound casing doc) (tag : Text) : Sound casing (strip tag doc) := by
  induction doc with
  | plain text => trivial
  | wrapper before other opening closing body tail ihBody ihTail =>
    obtain ⟨known,opens,ends,bare,inner,later⟩ := sound
    unfold strip
    split
    · exact prepend_sound.mpr (ihTail later)
    · exact ⟨known,opens,ends,by rwa [strip_outside],ihBody inner,ihTail later⟩

theorem strip_mem (inside : c ∈ render (strip tag doc)) : c ∈ render doc := by
  induction doc with
  | plain text => exact inside
  | wrapper before other opening closing body tail ihBody ihTail =>
    unfold strip at inside
    split at inside
    · rw [render_prepend] at inside
      rcases List.mem_append.mp inside with first | later
      · simp [render,first]
      · simp [render,ihTail later]
    · simp only [render,List.mem_append] at inside ⊢
      exact inside.imp_right (.imp_right (.imp ihBody (.imp_right ihTail)))

theorem strip_fits (fits : Fits casing doc) (tag : Text) : Fits casing (strip tag doc) :=
  ⟨strip_sound fits.sound tag,by rw [strip_outside]; exact fits.bare,fun c inside => fits.even c (strip_mem inside)⟩

theorem inner_fits (fits : Fits casing doc) : ∀ body ∈ inner tag doc, Fits casing body := by
  induction doc with
  | plain text => exact fun body none => by cases none
  | wrapper before other opening closing body tail ihBody ihTail =>
    have parts := fits_parts fits
    intro own among
    rcases List.mem_append.mp among with first | later
    · split at first
      · rw [List.mem_singleton.mp first]
        exact parts.body
      · exact ihBody parts.body own first
    · exact ihTail parts.rest own later

theorem tokens_doc (known : tag ∈ wrapperTags) (fits : Fits casing doc) : removeTagTokens casing (render doc) tag = peel tag doc := by
  have walked := doc_tokens known fits.even fits [] [] (List.append_nil _).symm (fun c none => by cases none)
  rw [List.length_nil,Nat.zero_add,tokens_end (Nat.lt_irrefl _),List.append_nil] at walked
  exact walked

theorem removed_doc (known : tag ∈ wrapperTags) (fits : Fits casing doc) :
    removeWrappedSections casing (render doc) tag = render (strip tag doc) := by
  have walked := doc_kept known fits.even fits [] [] (List.append_nil _).symm (fun c none => by cases none)
  rw [List.length_nil,Nat.zero_add,kept,kept,sections_end (Nat.lt_irrefl _),outsideFrom,List.drop_length,List.append_nil] at walked
  have rest := strip_fits fits tag
  have lacks := strip_lacks tag doc
  unfold removeWrappedSections wrapperSections
  dsimp only
  rw [walked,if_neg (lacks_free known rest lacks),tokens_doc known rest,lacks_peel lacks]

def stripAll (tags : List Text) (doc : Doc) : Doc := tags.foldl (fun doc tag => strip tag doc) doc

theorem stripAll_mem (tags : List Text) {doc : Doc} (inside : c ∈ render (stripAll tags doc)) : c ∈ render doc := by
  induction tags generalizing doc with
  | nil => exact inside
  | cons tag tags ih => exact strip_mem (ih inside)

theorem stripAll_empty (empty : render doc = []) (tags : List Text) : render (stripAll tags doc) = [] := by
  rw [List.eq_nil_iff_forall_not_mem]
  intro c inside
  have within := stripAll_mem tags inside
  rw [empty] at within
  cases within

theorem stripAll_fits (fits : Fits casing doc) (tags : List Text) : Fits casing (stripAll tags doc) := by
  induction tags generalizing doc with
  | nil => exact fits
  | cons tag tags ih => exact ih (strip_fits fits tag)

theorem stripAll_outside (tags : List Text) (doc : Doc) : outside (stripAll tags doc) = outside doc := by
  induction tags generalizing doc with
  | nil => rfl
  | cons tag tags ih => exact (ih (strip tag doc)).trans (strip_outside tag doc)

theorem stripAll_keeps (lacks : Lacks tag doc) (tags : List Text) : Lacks tag (stripAll tags doc) := by
  induction tags generalizing doc with
  | nil => exact lacks
  | cons other tags ih => exact ih (strip_keeps lacks other)

theorem stripAll_lacks (tags : List Text) (doc : Doc) : ∀ tag ∈ tags, Lacks tag (stripAll tags doc) := by
  induction tags generalizing doc with
  | nil => exact fun tag none => by cases none
  | cons first tags ih =>
    intro tag among
    rcases List.mem_cons.mp among with own | later
    · rw [own]
      exact stripAll_keeps (strip_lacks first doc) tags
    · exact ih (strip first doc) tag later

theorem removeAll_doc (known : ∀ tag ∈ tags, tag ∈ wrapperTags) (fits : Fits casing doc) :
    removeAll casing tags (render doc) = render (stripAll tags doc) := by
  induction tags generalizing doc with
  | nil => rfl
  | cons tag tags ih =>
    have own := removed_doc (known tag List.mem_cons_self) fits
    have later := ih (fun other inside => known other (List.mem_cons_of_mem tag inside)) (strip_fits fits tag)
    rw [removeAll,own]
    split
    · rename_i empty
      rw [empty]
      exact (stripAll_empty empty tags).symm
    · exact later

theorem plain_outside (sound : Sound casing doc) (lacks : ∀ tag ∈ wrapperTags, Lacks tag doc) : render doc = outside doc := by
  cases doc with
  | plain text => rfl
  | wrapper before tag opening closing body tail => exact absurd rfl (lacks tag sound.1).1

theorem candidate_doc (fits : Fits casing doc) : candidateTitle casing (render doc) = snip (outside doc) cursorTitleLimit := by
  have among : ∀ tag ∈ cursorMetadataTags, tag ∈ wrapperTags := fun tag inside => List.mem_append_left _ inside
  have query : userQuery ∈ wrapperTags := List.mem_append_right _ (List.mem_singleton_self _)
  have fewer := stripAll_fits fits cursorMetadataTags
  have whole : render (strip userQuery (stripAll cursorMetadataTags doc)) = outside doc := by
    rw [plain_outside (strip_fits fewer userQuery).sound,strip_outside,stripAll_outside]
    intro tag known
    rcases List.mem_append.mp known with metadata | last
    · exact strip_keeps (stripAll_lacks _ doc tag metadata) userQuery
    · rw [List.mem_singleton.mp last]
      exact strip_lacks userQuery _
  unfold candidateTitle
  rw [removeAll_doc among fits]
  dsimp only
  split
  · rename_i empty
    rw [empty,← whole]
    exact congrArg (snip · cursorTitleLimit) (stripAll_empty empty [userQuery]).symm
  · rw [removed_doc query fewer,whole]

-- The texts of the user queries, the markers of nested ones taken out.
def queries (doc : Doc) : List Text := (inner userQuery doc).map (peel userQuery)

theorem query_doc (fits : Fits casing doc) :
    queryTitle casing (render doc) = ((queries doc).map (snip · cursorTitleLimit)).find? (· ≠ []) := by
  have query : userQuery ∈ wrapperTags := List.mem_append_right _ (List.mem_singleton_self _)
  have walked := doc_sections query fits.even fits [] [] (List.append_nil _).symm (fun c none => by cases none)
  rw [List.length_nil,Nat.zero_add,sections_end (Nat.lt_irrefl _),List.map_nil,List.append_nil] at walked
  have titles : (wrapperSections casing (render doc) userQuery).map (fun span =>
      snip (removeTagTokens casing (slice (render doc) span.contentStart span.contentEnd) userQuery) cursorTitleLimit) =
      (queries doc).map (snip · cursorTitleLimit) := by
    have mapped := congrArg (List.map fun content => snip (removeTagTokens casing content userQuery) cursorTitleLimit) walked
    rw [List.map_map,List.map_map] at mapped
    refine mapped.trans ?_
    rw [queries,List.map_map]
    refine List.map_congr_left fun body inside => ?_
    exact congrArg (snip · cursorTitleLimit) (tokens_doc query (inner_fits fits body inside))
  rw [queryTitle,titles]

theorem empty_quiet (fits : Fits casing doc) (empty : render doc = []) : queries doc = [] ∧ outside doc = [] := by
  cases doc with
  | plain text => exact ⟨rfl,empty⟩
  | wrapper before tag opening closing body tail =>
    have opens := (fits_parts fits).opens
    have none : opening = [] := by
      simp only [render,List.append_eq_nil_iff] at empty
      exact empty.2.1
    rw [none] at opens
    exact absurd opens.symm (opening_nonempty tag)

-- The first text that is not empty.
def pick : List Text → Text
  | [] => []
  | text :: rest => if text = [] then pick rest else text

theorem pick_append (texts rest : List Text) : pick (texts ++ rest) = (texts.find? (· ≠ [])).getD (pick rest) := by
  induction texts with
  | nil => rfl
  | cons text texts ih =>
    by_cases empty : text = []
    · simp [pick,empty,ih]
    · simp [pick,empty]

theorem pick_user (user text : Text) (rest : List Text) : pick (user :: text :: rest) = pick ((if user = [] then text else user) :: rest) := by
  by_cases empty : user = []
  · simp [pick,empty]
  · simp [pick,empty]

def size (entry : Option (Document casing)) : Nat := (entry.map fun document => (render document.doc).length).getD 0

def documents (entries : List (Option (Document casing))) : List Doc := entries.filterMap (·.map Document.doc)

-- The user queries of all texts, then what is outside the wrappers, then the fallback.
def titles (docs : List Doc) (user : Text) (fallback : Option Text) : List Text :=
  (docs.flatMap queries).map (snip · cursorTitleLimit) ++
    user :: (docs.map (fun doc => snip (outside doc) cursorTitleLimit) ++ [snip (fallback.getD []) cursorTitleLimit])

theorem titles_next (doc : Doc) (docs : List Doc) (user : Text) (fallback : Option Text) :
    pick (titles (doc :: docs) user fallback) = (((queries doc).map (snip · cursorTitleLimit)).find? (· ≠ [])).getD
      (pick (titles docs (if user = [] then snip (outside doc) cursorTitleLimit else user) fallback)) := by
  unfold titles
  rw [List.flatMap_cons,List.map_append,List.append_assoc,pick_append]
  congr 1
  rw [pick_append,pick_append,List.map_cons,List.cons_append,pick_user]

theorem titles_idle (fits : Fits casing doc) (empty : render doc = []) (docs : List Doc) (user : Text) (fallback : Option Text) :
    pick (titles (doc :: docs) user fallback) = pick (titles docs user fallback) := by
  obtain ⟨none,clear⟩ := empty_quiet fits empty
  have same : (if user = [] then snip (outside doc) cursorTitleLimit else user) = user := by
    rw [clear]
    split
    · rename_i blank
      exact blank.symm
    · rfl
  rw [titles_next,none,same]
  rfl

theorem titles_none (entries : List (Option (Document casing))) (idle : (entries.map size).sum = 0) (user : Text) (fallback : Option Text) :
    pick (titles (documents entries) user fallback) = pick (titles [] user fallback) := by
  induction entries with
  | nil => rfl
  | cons entry entries ih =>
    rw [List.map_cons,List.sum_cons] at idle
    have later := ih (by omega)
    cases entry with
    | none => exact later
    | some document =>
      have empty : render document.doc = [] := List.eq_nil_of_length_eq_zero (Nat.eq_zero_of_add_eq_zero_right idle)
      exact (titles_idle document.fits empty _ user fallback).trans later

theorem titles_end (user : Text) (fallback : Option Text) :
    (if user = [] then snip (fallback.getD []) cursorTitleLimit else user) = pick (titles [] user fallback) := by
  by_cases empty : user = []
  · by_cases none : snip (fallback.getD []) cursorTitleLimit = []
    · simp [titles,pick,empty,none]
    · simp [titles,pick,empty,none]
  · simp [titles,pick,empty]

theorem titleFrom_exact (fallback : Option Text) (entries : List (Option (Document casing))) : ∀ remaining user,
    (entries.map size).sum ≤ remaining →
    titleFrom casing fallback remaining user (entries.map (·.map fun document => render document.doc)) =
      pick (titles (documents entries) user fallback) := by
  induction entries with
  | nil =>
    intro remaining user _
    exact titles_end user fallback
  | cons entry entries ih =>
    intro remaining user room
    by_cases spent : remaining = 0
    · rw [titles_none _ (by omega),← titles_end user fallback,spent]
      cases entry with
      | none => rfl
      | some document => rfl
    · rw [List.map_cons,List.sum_cons] at room
      rw [List.map_cons]
      cases entry with
      | none =>
        rw [Option.map_none,titleFrom,if_neg spent]
        exact ih remaining user (by omega)
      | some document =>
        have most : (render document.doc).length + (entries.map size).sum ≤ remaining := room
        have bounded : (render document.doc).take remaining = render document.doc := List.take_of_length_le (by omega)
        have next := titles_next document.doc (documents entries) user fallback
        rw [Option.map_some,titleFrom,if_neg spent]
        dsimp only
        rw [bounded]
        by_cases empty : render document.doc = []
        · rw [if_pos empty,ih remaining user (by omega)]
          exact (titles_idle document.fits empty _ user fallback).symm
        · rw [if_neg empty,query_doc document.fits]
          refine Eq.trans ?_ next.symm
          cases ((queries document.doc).map (snip · cursorTitleLimit)).find? (· ≠ []) with
          | some title => rfl
          | none =>
            rw [candidate_doc document.fits]
            exact ih _ _ (by omega)

theorem title_exact (entries : List (Option (Document casing))) (fallback : Option Text) (few : entries.length ≤ cursorTitleMaxTexts)
    (short : (entries.map size).sum ≤ cursorTitleMaxInputChars) :
    extractCursorTitle casing (entries.map (·.map fun document => render document.doc)) fallback =
      pick (titles (documents entries) [] fallback) := by
  unfold extractCursorTitle
  rw [List.take_of_length_le (by simpa using few)]
  exact titleFrom_exact fallback entries _ _ short

theorem lacks_queries (lacks : Lacks userQuery doc) : queries doc = [] := by
  have none : inner userQuery doc = [] := by
    induction doc with
    | plain text => rfl
    | wrapper before other opening closing body tail ihBody ihTail =>
      rw [inner,if_neg lacks.1,ihBody lacks.2.1,ihTail lacks.2.2]
      rfl
  rw [queries,none,List.map_nil]

theorem title_outside (document : Document casing) (lacks : Lacks userQuery document.doc)
    (short : (render document.doc).length ≤ cursorTitleMaxInputChars) :
    extractCursorTitle casing [some (render document.doc)] none = snip (outside document.doc) cursorTitleLimit := by
  refine (title_exact [some document] none (by decide : 1 ≤ 256) (by simpa [size] using short)).trans ?_
  have next := titles_next document.doc [] [] none
  rw [lacks_queries lacks] at next
  refine next.trans ?_
  rw [if_pos rfl,← titles_end]
  split
  · rename_i empty
    exact empty.symm
  · rfl

-- The spans and what is cut out are the tags that stand in the text, where each character
-- has one in lower case. The title is the first user query with a text, else what is
-- outside of all wrappers.
theorem wrappers_left_out (casing : Casing) :
    (∀ text, Even casing text → ∀ tag ∈ wrapperTags,
      (∀ span ∈ wrapperSections casing text tag, Wraps casing text tag span) ∧
      (wrapperSections casing text tag).Pairwise (fun a b => a.stop ≤ b.start) ∧
      (∀ place, Stands casing text (openingMarker tag) place →
        ∃ span ∈ wrapperSections casing text tag, span.start ≤ place ∧ place < span.stop) ∧
      Cut casing tag text (removeTagTokens casing text tag)) ∧
    (∀ (entries : List (Option (Document casing))) (fallback : Option Text), entries.length ≤ cursorTitleMaxTexts →
      (entries.map size).sum ≤ cursorTitleMaxInputChars →
      extractCursorTitle casing (entries.map (·.map fun document => render document.doc)) fallback =
        pick (titles (documents entries) [] fallback)) ∧
    ∀ document : Document casing, Lacks userQuery document.doc → (render document.doc).length ≤ cursorTitleMaxInputChars →
      extractCursorTitle casing [some (render document.doc)] none = snip (outside document.doc) cursorTitleLimit := by
  refine ⟨?_,title_exact,title_outside⟩
  intro text even tag known
  have named := wrapperTags_named tag known
  obtain ⟨all,order,cover⟩ := sections_exact even named 0
  exact ⟨fun span among => (all span among).2,order,fun place => cover place (Nat.zero_le place),tokens_cut even named 0⟩

def ascii : Casing := ⟨fun c => if 65 ≤ c ∧ c ≤ 90 then [c + 32] else [c],fun _ _ => false⟩

def greeting : Document ascii where
  doc := .wrapper (lit "hi ") (lit "rules") (lit "<Rules>") (lit "</RULES>") (.plain (lit "secret")) (.plain (lit "  there"))
  fits := ⟨⟨by decide,by decide,by decide,by decide,trivial,trivial⟩,by decide,by decide⟩

theorem greeting_titled : extractCursorTitle ascii [some (lit "hi <Rules>secret</RULES>  there")] none = lit "hi there" ∧
    Cut ascii (lit "rules") (lit "hi <Rules>secret</RULES>  there") (removeTagTokens ascii (lit "hi <Rules>secret</RULES>  there") (lit "rules")) :=
  ⟨((wrappers_left_out ascii).2.2 greeting ⟨by decide,trivial,trivial⟩ (by decide)).trans (by decide),
    ((wrappers_left_out ascii).1 _ greeting.fits.even (lit "rules") (by decide)).2.2.2⟩

def asked : Document ascii where
  doc := .wrapper (lit "bye ") userQuery (lit "<user_query>") (lit "</user_query>")
    (.wrapper [] (lit "rules") (lit "<rules>") (lit "</rules>") (.plain (lit "0")) (.plain [])) (.plain [])
  fits := ⟨⟨by decide,by decide,by decide,by decide,⟨by decide,by decide,by decide,by decide,trivial,trivial⟩,trivial⟩,by decide,by decide⟩

-- Of a user query all is kept, its own wrappers too, and of the text around it nothing.
theorem query_kept : extractCursorTitle ascii [some (lit "bye <user_query>" ++ (lit "<rules>" ++ (lit "0" ++ (lit "</rules>" ++ lit "</user_query>"))))]
    none = lit "<rules>0</rules>" ∧ lit "0" <:+: lit "<rules>0</rules>" ∧ ¬ lit "bye" <:+: lit "<rules>0</rules>" :=
  ⟨(title_exact [some asked] none (by decide) (by decide)).trans (by decide),by decide,by decide⟩

end Documents

end AgentSideCar.CursorTitle
