import AgentSideCar.Text.Points

namespace AgentSideCar.TerminalText
open Points

def escape : Nat := 0x1B

-- What is left of a text after a control sequence, and after a control string.
def consumeCsi : Text → Text
  | [] => []
  | c :: rest => if 0x40 ≤ c ∧ c ≤ 0x7E then rest else if 0x20 ≤ c ∧ c ≤ 0x3F then consumeCsi rest else c :: rest

def consumeControlString (allowBel : Bool) : Text → Text
  | [] => []
  | c :: rest =>
    if allowBel ∧ c = 0x07 then rest
    else if c = 0x9C then rest
    else if c = escape ∧ rest.head? = some 0x5C then rest.tail
    else consumeControlString allowBel rest

-- Zero or more intermediates, then one final.
def consumeEscape (t : Text) : Text :=
  match t.dropWhile fun c => 0x20 ≤ c && c ≤ 0x2F with
  | [] => []
  | c :: rest => if 0x30 ≤ c ∧ c ≤ 0x7E then rest else c :: rest

def controlStrings : List Nat := lit "]PX^_"
def c1ControlStrings : List Nat := [0x90,0x98,0x9D,0x9E,0x9F]

theorem consumeCsi_length (t : Text) : (consumeCsi t).length ≤ t.length := by
  induction t with
  | nil => exact le_rfl
  | cons c rest ih =>
    rw [consumeCsi,List.length_cons]
    split
    · omega
    split
    · omega
    · simp

theorem consumeControlString_length (allowBel : Bool) (t : Text) : (consumeControlString allowBel t).length ≤ t.length := by
  induction t with
  | nil => exact le_rfl
  | cons c rest ih =>
    rw [consumeControlString,List.length_cons]
    split
    · omega
    split
    · omega
    split
    · rw [List.length_tail]
      omega
    · omega

theorem consumeEscape_length (t : Text) : (consumeEscape t).length ≤ t.length := by
  have fewer := (List.dropWhile_sublist (fun c : Nat => 0x20 ≤ c && c ≤ 0x2F) (l := t)).length_le
  unfold consumeEscape
  split
  · exact Nat.zero_le _
  · rename_i shape
    rw [shape,List.length_cons] at fewer
    split
    · omega
    · rw [List.length_cons]
      omega

-- Every turn of the loop begins further on in the text, so it ends.
def stripTerminalSequences : Text → Text
  | [] => []
  | c :: rest =>
    if c = escape then
      match rest with
      | [] => []
      | introducer :: later =>
        if introducer = 0x5B then stripTerminalSequences (consumeCsi later)
        else if introducer ∈ controlStrings then
          stripTerminalSequences (consumeControlString (introducer = 0x5D) later)
        else stripTerminalSequences (consumeEscape (introducer :: later))
    else if c = 0x9B then stripTerminalSequences (consumeCsi rest)
    else if c ∈ c1ControlStrings then stripTerminalSequences (consumeControlString (c = 0x9D) rest)
    else c :: stripTerminalSequences rest
termination_by t => t.length
decreasing_by
  all_goals simp only [List.length_cons]
  · have := consumeCsi_length later; omega
  · have := consumeControlString_length (introducer = 0x5D) later; omega
  · have := consumeEscape_length (introducer :: later); simp only [List.length_cons] at this; omega
  · have := consumeCsi_length rest; omega
  · have := consumeControlString_length (c = 0x9D) rest; omega
  · omega

def isControl (c : Nat) : Bool := c < 0x20 || (0x7F ≤ c && c ≤ 0x9F)

def sanitizeTerminalText (t : Text) : Text :=
  (join (split (stripTerminalSequences t))).filter (!isControl ·)

def introduces (c : Nat) : Bool := c = escape || c = 0x9B || c ∈ c1ControlStrings

theorem strip_quiet {t : Text} (quiet : ∀ c ∈ t, introduces c = false) : stripTerminalSequences t = t := by
  induction t with
  | nil => rw [stripTerminalSequences]
  | cons c rest ih =>
    have own := quiet c List.mem_cons_self
    have later := ih fun d inside => quiet d (List.mem_cons_of_mem _ inside)
    simp only [introduces,Bool.or_eq_false_iff,decide_eq_false_iff_not] at own
    rw [stripTerminalSequences.eq_def]
    simp only
    rw [if_neg own.1.1,if_neg own.1.2,if_neg own.2,later]

theorem clean_quiet (clean : isControl c = false) : introduces c = false := by
  rw [Bool.eq_false_iff]
  intro begins
  simp only [introduces,Bool.or_eq_true,decide_eq_true_eq] at begins
  rcases begins with (rfl | rfl) | inside
  · cases clean
  · cases clean
  · have all : ∀ d ∈ c1ControlStrings, isControl d = true := by decide
    cases clean.symm.trans (all c inside)

def visible (word : Text) : Text := word.filter (!isControl ·)

theorem filter_join (words : List Text) : (join words).filter (!isControl ·) = join (words.map visible) := by
  induction words with
  | nil => rfl
  | cons word rest ih =>
    cases rest with
    | nil => rfl
    | cons next rest =>
      have shape : join (word :: next :: rest) = word ++ blank :: join (next :: rest) := rfl
      rw [shape,List.filter_append,List.filter_cons_of_pos (by rfl),ih]
      rfl

theorem visible_solid (words : List Text) (solid : ∀ w ∈ words, ∀ c ∈ w, isSpace c = false) :
    ∀ w ∈ words.map visible, ∀ c ∈ w, isSpace c = false := by
  intro w inside c among
  obtain ⟨word,there,rfl⟩ := List.mem_map.mp inside
  exact solid word there c (List.mem_filter.mp among).1

-- A word of control characters only.
def Bare (word : Text) : Prop := ∀ c ∈ word, isControl c = true

theorem visible_nil : visible word = [] ↔ Bare word := by
  rw [visible,List.filter_eq_nil_iff]
  exact forall₂_congr fun c _ => by simp

theorem visible_words (words : List Text) : (∀ w ∈ words.map visible, w ≠ []) ↔ ∀ w ∈ words, ¬ Bare w := by
  rw [List.forall_mem_map]
  exact forall₂_congr fun w _ => not_congr visible_nil

-- What is promised of the text that is returned.
structure Sanitized (out : Text) : Prop where
  inert : ∀ c ∈ out, isControl c = false
  sequences : stripTerminalSequences out = out
  tidy : Tidy out
  again : sanitizeTerminalText out = out

theorem sanitize_inert (t : Text) : ∀ c ∈ sanitizeTerminalText t, isControl c = false := fun c inside => by
  simpa using (List.mem_filter.mp inside).2

theorem strip_sanitized (t : Text) : stripTerminalSequences (sanitizeTerminalText t) = sanitizeTerminalText t :=
  strip_quiet fun c inside => clean_quiet (sanitize_inert t c inside)

theorem sanitize_words (t : Text) : sanitizeTerminalText t = join ((split (stripTerminalSequences t)).map visible) :=
  filter_join _

theorem sanitize_tidy (t : Text) : Tidy (sanitizeTerminalText t) ↔
    (split (stripTerminalSequences t)).length ≤ 1 ∨ ∀ w ∈ split (stripTerminalSequences t), ¬ Bare w := by
  have solid := visible_solid _ fun w inside => (split_solid (stripTerminalSequences t) w inside).2
  rw [sanitize_words,join_tidy _ solid,List.length_map,visible_words]

theorem split_tidied (words : List Text) (solid : ∀ w ∈ words, ∀ c ∈ w, isSpace c = false)
    (shown : words.length ≤ 1 ∨ ∀ w ∈ words, w ≠ []) : join (split (join words)) = join words := by
  rcases shown with few | all
  · match words,few with
    | [],_ => rfl
    | [[]],_ => rfl
    | [c :: rest],_ =>
      rw [split_join [c :: rest] fun w inside => ⟨?_,solid w inside⟩]
      rw [List.mem_singleton.mp inside]
      exact List.cons_ne_nil _ _
  · rw [split_join words fun w inside => ⟨all w inside,solid w inside⟩]

-- The text is as it should be where no word of control characters alone stands beside
-- another word.
theorem sanitized_exactly (t : Text) : Sanitized (sanitizeTerminalText t) ↔
    (split (stripTerminalSequences t)).length ≤ 1 ∨ ∀ w ∈ split (stripTerminalSequences t), ¬ Bare w := by
  constructor
  · intro sanitized
    exact (sanitize_tidy t).mp sanitized.tidy
  · intro shown
    refine ⟨sanitize_inert t,strip_sanitized t,(sanitize_tidy t).mpr shown,?_⟩
    have solid := visible_solid _ fun w inside => (split_solid (stripTerminalSequences t) w inside).2
    have again := split_tidied _ solid (by rw [List.length_map,visible_words]; exact shown)
    rw [← sanitize_words] at again
    rw [sanitizeTerminalText,strip_sanitized,again]
    exact List.filter_eq_self.mpr fun c inside => by simpa using sanitize_inert t c inside

-- A control character between two blanks leaves both of them.
theorem lone_control_doubles_blank : sanitizeTerminalText (lit "a \x01 b") = lit "a  b" ∧
    sanitizeTerminalText (lit "a  b") = lit "a b" ∧ ¬ Sanitized (sanitizeTerminalText (lit "a \x01 b")) := by
  have doubled : sanitizeTerminalText (lit "a \x01 b") = lit "a  b" := by
    rw [sanitizeTerminalText,strip_quiet (by decide)]
    decide
  have again : sanitizeTerminalText (lit "a  b") = lit "a b" := by
    rw [sanitizeTerminalText,strip_quiet (by decide)]
    decide
  refine ⟨doubled,again,fun sanitized => ?_⟩
  have same := sanitized.again
  rw [doubled,again] at same
  exact absurd same (by decide)

end AgentSideCar.TerminalText
