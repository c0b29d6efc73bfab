import AgentSideCar.Library.Digits
import AgentSideCar.Library.Replace
import AgentSideCar.Library.Utf16
import AgentSideCar.Text.Points
import Mathlib.Data.List.Dedup
import Mathlib.Data.List.Sort

namespace AgentSideCar.Redaction
open Points Replace

-- errors="replace"
def normalizeScalarText (t : Text) : Text := t.map fun c => if Utf8.surrogate c then 0xFFFD else c

def hexDigit (d : Nat) : Nat := if d < 10 then 48 + d else 87 + d

def unicodeEscape (unit : Nat) : Text := lit "\\u" ++ Hex.hexDigits hexDigit 4 unit

def escape (ensureAscii : Bool) (c : Nat) : Text :=
  if c = 0x22 then lit "\\\"" else if c = 0x5C then lit "\\\\" else if c = 0x0A then lit "\\n" else if c = 0x0D then lit "\\r"
  else if c = 0x09 then lit "\\t" else if c = 0x0C then lit "\\f" else if c = 0x08 then lit "\\b"
  else if c < 0x20 ∨ ensureAscii ∧ 0x7E < c then (Utf16.encodeChar c).flatMap unicodeEscape else [c]

-- What json.dumps writes between the quotes.
def dumps (ensureAscii : Bool) (t : Text) : Text := t.flatMap (escape ensureAscii)

def messageForms (message : Text) : List Text :=
  let normalized := normalizeScalarText message
  if normalized = message then [message] else [message,normalized]

-- A set: its order is left to the interpreter.
def candidates (text message : Text) : List Text :=
  (((messageForms message).filter fun form => form ≠ [] && form.length ≤ text.length).flatMap fun form =>
    form :: ([false,true].map (dumps · form)).filter (·.length ≤ text.length)).dedup

def marker : Text := lit "[message redacted]"

def redactMessage (iterate : List Text → List Text) (text message replacement : Text) : Text :=
  if text = [] ∨ message = [] then text
  else ((iterate (candidates text message)).insertionSort fun a b => b.length ≤ a.length).foldl
    (fun text candidate => replace candidate replacement text) text

-- Raw, with the surrogates taken out, and either escaped with and without ensure_ascii.
def forms (message : Text) : List Text :=
  [message,normalizeScalarText message].flatMap fun form => [form,dumps false form,dumps true form]

theorem messageForms_mem : form ∈ messageForms message ↔ form = message ∨ form = normalizeScalarText message := by
  by_cases same : normalizeScalarText message = message
  · rw [show messageForms message = [message] from if_pos same,same,List.mem_singleton,or_self]
  · rw [show messageForms message = [message,normalizeScalarText message] from if_neg same,List.mem_cons,List.mem_singleton]

theorem escape_nonempty (ensureAscii : Bool) (c : Nat) : 1 ≤ (escape ensureAscii c).length := by
  unfold escape Utf16.encodeChar
  split_ifs <;> simp [lit,unicodeEscape]

theorem dumps_length (ensureAscii : Bool) (t : Text) : t.length ≤ (dumps ensureAscii t).length := by
  induction t with
  | nil => exact le_rfl
  | cons c rest ih =>
    have first := escape_nonempty ensureAscii c
    rw [dumps,List.flatMap_cons,List.length_append,List.length_cons]
    have later : rest.length ≤ (rest.flatMap (escape ensureAscii)).length := ih
    omega

theorem forms_mem : form ∈ forms message ↔ ∃ base ∈ messageForms message, form = base ∨ ∃ ensureAscii, form = dumps ensureAscii base := by
  simp only [forms,List.mem_flatMap,List.mem_cons,List.not_mem_nil,or_false,messageForms_mem,Bool.exists_bool]

theorem candidates_forms (inside : form ∈ candidates text message) : form ∈ forms message := by
  obtain ⟨base,own,among⟩ := List.mem_flatMap.mp (List.mem_dedup.mp inside)
  refine forms_mem.mpr ⟨base,(List.mem_filter.mp own).1,?_⟩
  rcases List.mem_cons.mp among with same | encoded
  · exact .inl same
  · obtain ⟨ensureAscii,_,same⟩ := List.mem_map.mp (List.mem_filter.mp encoded).1
    exact .inr ⟨ensureAscii,same.symm⟩

theorem candidates_short (own : form ∈ forms message) (some' : form ≠ []) (fits : form.length ≤ text.length) :
    form ∈ candidates text message := by
  obtain ⟨base,among,shape⟩ := forms_mem.mp own
  have taken : base ≠ [] ∧ base.length ≤ text.length := by
    rcases shape with rfl | ⟨ensureAscii,rfl⟩
    · exact ⟨some',fits⟩
    · refine ⟨?_,(dumps_length ensureAscii base).trans fits⟩
      rintro rfl
      exact some' rfl
  refine List.mem_dedup.mpr (List.mem_flatMap.mpr ⟨base,List.mem_filter.mpr ⟨among,by simpa using taken⟩,?_⟩)
  rcases shape with rfl | ⟨ensureAscii,rfl⟩
  · exact List.mem_cons_self
  · refine List.mem_cons_of_mem _ (List.mem_filter.mpr ⟨List.mem_map.mpr ⟨ensureAscii,?_,rfl⟩,by simpa using fits⟩)
    cases ensureAscii with
    | false => exact List.mem_cons_self
    | true => exact List.mem_cons_of_mem _ List.mem_cons_self

-- In whatever order the set is listed, and whatever stands in for the message, no form
-- of it is left in the text, as long as none of them runs into what stands in.
theorem redacted_gone (iterate : List Text → List Text) (lists : ∀ set, (iterate set).Perm set) (text message replacement : Text)
    (apart : ∀ form ∈ forms message, Apart form replacement) :
    ∀ form ∈ forms message, ¬ form <:+: redactMessage iterate text message replacement := by
  intro form own
  have some' := apart_nonempty (apart form own)
  unfold redactMessage
  split
  · rename_i none
    rcases none with rfl | rfl
    · simpa using some'
    · exact absurd rfl (apart_nonempty (apart [] List.mem_cons_self))
  · have held : ∀ old, old ∈ (iterate (candidates text message)).insertionSort (fun a b => b.length ≤ a.length) ↔
        old ∈ candidates text message := fun old => by rw [List.mem_insertionSort,(lists _).mem_iff]
    refine replacements_gone _ (fun old inside => apart old (candidates_forms ((held old).mp inside))) (apart form own) ?_
    by_cases fits : form.length ≤ text.length
    · exact .inl ((held form).mpr (candidates_short own some' fits))
    · exact .inr fun occurs => fits occurs.length_le

theorem secret_gone : ¬ lit "se\\\"cret" <:+: redactMessage id (lit "se\"cret, or \"se\\\"cret\"") (lit "se\"cret") marker :=
  redacted_gone id (fun set => .refl set) _ _ marker (by decide) (lit "se\\\"cret") (by decide)

example : redactMessage id (lit "se\"cret, or \"se\\\"cret\"") (lit "se\"cret") marker =
    lit "[message redacted], or \"[message redacted]\"" := by decide

end AgentSideCar.Redaction
