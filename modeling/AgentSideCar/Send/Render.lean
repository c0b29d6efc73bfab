import AgentSideCar.Library.PlainLoads
import AgentSideCar.Library.Utf8
import AgentSideCar.Remote.Cluster
import AgentSideCar.Send.Execute
import Mathlib.Algebra.Group.Nat.Defs

namespace AgentSideCar.Send
open Loads (Text str Value Plain)
open Cluster (field hexDigit strip)

-- The exceptions that rendering may let out.
inductive Escape where
  | valueError
  | recursionError
  | unicodeEncodeError
  deriving DecidableEq

-- The interpreter's part: how it reads JSON, case folding, str of a value that is no text, and the
-- order in which it goes through a set of texts.
structure Interpreter where
  plain : Plain
  casefold : Text → Text
  spoken : Value → Except Escape Text
  arrange : List Text → List Text

-- What a runner hands over as a stream.
inductive Stream where
  | text (value : Text)
  | bytes (value : List UInt8)
  | other

section Texts

-- normalize_scalar_text with errors="replace".
def normalizeScalarText (text : Text) : Text := text.map fun c => if Utf8.surrogate c then 65533 else c

def encodeText (text : Text) : Except Escape (List UInt8) :=
  (Utf8.encode text).elim (.error .unicodeEncodeError) .ok

def outputBytes (value : Stream) (limit : Nat) : Except Escape (List UInt8 × Bool) := do
  let raw ← match value with
    | .text value => encodeText (normalizeScalarText value)
    | .bytes value => .ok value
    | .other => .ok []
  .ok (raw.take limit,decide (limit < raw.length))

def decodedOutput (value : Stream) (limit : Nat) : Except Escape (Text × Bool) := do
  let (raw,oversized) ← outputBytes value limit
  .ok (Utf8.decode [65533] raw,oversized)

def boundedResultText (text : Text) (limit : Nat) : Except Escape Text := do
  let normalized := normalizeScalarText text
  let raw ← encodeText normalized
  .ok (if raw.length ≤ limit then normalized else Utf8.decode [] (raw.take limit))

def lineEnd (c : Nat) : Bool := 10 ≤ c && c ≤ 13 || 28 ≤ c && c ≤ 30 || c = 133 || c = 8232 || c = 8233

-- str.splitlines, with the row so far in reverse.
def splitlinesFrom : Text → Text → List Text
  | row,[] => if row = [] then [] else [row.reverse]
  | row,13 :: 10 :: rest => row.reverse :: splitlinesFrom [] rest
  | row,c :: rest => if lineEnd c then row.reverse :: splitlinesFrom [] rest else splitlinesFrom (c :: row) rest

def splitlines (text : Text) : List Text := splitlinesFrom [] text

-- text.replace(old, new): what is left of an occurrence already replaced is skipped.
def replaceFrom (old new : Text) : Nat → Text → Text
  | _,[] => []
  | skip + 1,_ :: rest => replaceFrom old new skip rest
  | 0,c :: rest =>
    if old.isPrefixOf (c :: rest) then new ++ replaceFrom old new (old.length - 1) rest
    else c :: replaceFrom old new 0 rest

def unicodeEscape (unit : Nat) : Text :=
  str "\\u" ++ [hexDigit (unit / 4096),hexDigit (unit / 256 % 16),hexDigit (unit / 16 % 16),hexDigit (unit % 16)]

def escapeAscii (c : Nat) : Text :=
  if c < 127 then Cluster.escape c
  else if c < 65536 then unicodeEscape c
  else unicodeEscape (55296 + (c - 65536) / 1024) ++ unicodeEscape (56320 + (c - 65536) % 1024)

-- json.dumps(form, ensure_ascii=...) without its quotes.
def dumpsForm (ensureAscii : Bool) (form : Text) : Text :=
  form.flatMap (if ensureAscii then escapeAscii else Cluster.escape)

def candidates (text message : Text) : List Text :=
  let forms := if normalizeScalarText message = message then [message] else [message,normalizeScalarText message]
  ((forms.filter fun form => form ≠ [] ∧ form.length ≤ text.length).flatMap fun form =>
    form :: ([dumpsForm false form,dumpsForm true form].filter (·.length ≤ text.length))).dedup

variable (i : Interpreter)

def redactMessage (text message : Text) : Text :=
  if text = [] ∨ message = [] then text
  else ((i.arrange (candidates text message)).mergeSort fun a b => b.length ≤ a.length).foldl
    (fun text candidate => replaceFrom candidate (str "[message redacted]") 0 text) text

end Texts

section Records

-- json.loads of each line that is not blank; a refused line is passed over.
def lineValues (p : Plain) : List Text → Except Escape (List Value)
  | [] => .ok []
  | line :: rest =>
    if strip line = [] then lineValues p rest
    else match p.loads line with
      | .ok value => (lineValues p rest).map (value :: ·)
      | .error .integer => .error .valueError
      | .error _ => lineValues p rest

def jsonValues (p : Plain) (payload : Text) : Except Escape (List Value) :=
  match p.loads payload with
  | .ok value => .ok [value]
  | .error .integer => .error .valueError
  | .error _ => lineValues p (splitlines payload)

-- How many levels _content_text still goes down; it starts with nine.
def contentFrom : Nat → Value → Text
  | 0,_ => []
  | _ + 1,.text value => value
  | left + 1,.list items => List.intercalate [10] ((items.map (contentFrom left)).filter (· ≠ []))
  | left + 1,.dict fields =>
    ((["text","content","message","output","result"].filterMap (field (.dict fields))).map (contentFrom left)).find?
      (· ≠ []) |>.getD []
  | _ + 1,_ => []

def contentText (value : Option Value) : Text := value.elim [] (contentFrom 9)

def isMapping : Value → Bool
  | .dict _ => true
  | _ => false

-- A float is zero when it is no more than half the least one.
def truthy : Value → Bool
  | .null => false
  | .bool value => value
  | .int value => value ≠ 0
  | .float mantissa exponent =>
    if 0 ≤ exponent then mantissa ≠ 0 else 10 ^ (-exponent).toNat < mantissa.natAbs * 2 ^ 1075
  | .text value => value ≠ []
  | .list items => !items.isEmpty
  | .dict fields => !fields.isEmpty

variable (i : Interpreter)

def Interpreter.str : Value → Except Escape Text
  | .text value => .ok value
  | value => i.spoken value

-- str(value or otherwise).casefold()
def Interpreter.word (value : Option Value) (otherwise : Text) : Except Escape Text :=
  match value.filter truthy with
  | some value => (i.str value).map i.casefold
  | none => .ok (i.casefold otherwise)

def assistantRecordText (record : Value) : Except Escape Text :=
  let found := contentText (field record "result")
  if isMapping record = false then .ok []
  else if found ≠ [] then .ok found
  else do
    let recordType ← i.word (field record "type") []
    let role ← i.word (field record "role") []
    let message := (field record "message").filter isMapping
    let role ← match message with
      | some message => i.word (field message "role") role
      | none => .ok role
    if recordType ∉ [str "assistant",str "assistant_message",str "message"] ∧ role ≠ str "assistant" then .ok []
    else
      let source := message.getD record
      .ok (contentText ((field source "content").or (field source "text")))

def recordsOf : Value → List Value
  | .list items => items
  | value => [value]

def parseClaudeOrCursor (payload : Text) : Except Escape Text := do
  let values ← jsonValues i.plain payload
  let texts ← (values.flatMap recordsOf).mapM (assistantRecordText i)
  .ok ((texts.filter (· ≠ [])).getLast?.getD payload)

def containers (record : Value) : List Value :=
  record :: ["item","payload"].flatMap fun key =>
    match (field record key).filter isMapping with
    | some value => value :: ((field value "item").filter isMapping).toList
    | none => []

def codexFinal (record : Value) : Text :=
  ((record :: ["item","payload"].filterMap fun key => (field record key).filter isMapping).map fun value =>
    contentText (field value "last_agent_message")).find? (· ≠ []) |>.getD []

def codexItem (container : Value) : Except Escape Text := do
  let itemType ← i.word (field container "type") []
  if itemType.map (fun c => if c = 45 then 95 else c) ∈ [str "agent_message",str "assistant",str "assistant_message"] then
    .ok (contentText ((field container "text").or ((field container "message").or (field container "content"))))
  else .ok []

def firstItem : List Value → Except Escape Text
  | [] => .ok []
  | container :: rest => do
    let text ← codexItem i container
    if text ≠ [] then .ok text else firstItem rest

def codexRecordText (record : Value) : Except Escape (Text × Text) :=
  if isMapping record then (firstItem i (containers record)).map fun text => (text,codexFinal record) else .ok ([],[])

def addMessage (messages : List Text) (message : Text) : List Text :=
  if message ≠ [] ∧ messages.getLast? ≠ some message then messages ++ [message] else messages

def parseCodex (payload : Text) : Except Escape Text := do
  let values ← jsonValues i.plain payload
  let found ← (values.flatMap recordsOf).mapM (codexRecordText i)
  let messages := found.foldl (fun messages (message,_) => addMessage messages message) []
  match ((found.map Prod.snd).filter (· ≠ [])).getLast? with
  | some final => .ok final
  | none => .ok (if messages = [] then payload else List.intercalate [10] messages)

def parseOutput (agent : String) (payload : Text) : Except Escape Text :=
  if agent = "codex" then parseCodex i payload else parseClaudeOrCursor i payload

def renderOutput (agent : String) (stdout stderr : Stream) (message : Text) : Except Escape (Text × Text × Bool) := do
  let (outputText,stdoutOversized) ← decodedOutput stdout maxStdoutBytes
  let (errorText,stderrOversized) ← decodedOutput stderr maxStderrBytes
  let response ← parseOutput i agent outputText
  let response ← boundedResultText (redactMessage i response message) maxStdoutBytes
  let errorText ← boundedResultText (redactMessage i errorText message) maxStderrBytes
  .ok (response,errorText,stdoutOversized || stderrOversized)

end Records

-- An integer of too many digits is met in the whole text or, the text being no JSON, in a line of it.
def Overdigits (p : Plain) (payload : Text) : Prop :=
  p.Overlong payload ∨
    (∀ value, p.loads payload ≠ .ok value) ∧ ∃ line ∈ splitlines payload, strip line ≠ [] ∧ p.Overlong line

section Refusals
variable (i : Interpreter)

-- A value of which str is asked, and refused.
def Mute (value : Option Value) : Prop := ∃ v, value = some v ∧ truthy v = true ∧ ∃ e, i.str v = .error e

def AssistantMute (record : Value) : Prop := isMapping record = true ∧ contentText (field record "result") = [] ∧
  (Mute i (field record "type") ∨ Mute i (field record "role") ∨
    ∃ message, field record "message" = some message ∧ isMapping message = true ∧ Mute i (field message "role"))

def CodexMute (record : Value) : Prop := isMapping record = true ∧ ∃ before container after,
  containers record = before ++ container :: after ∧ (∀ earlier ∈ before, codexItem i earlier = .ok []) ∧
    Mute i (field container "type")

def Unspeakable (agent : String) (payload : Text) : Prop := ∃ values, jsonValues i.plain payload = .ok values ∧
  ∃ record ∈ values.flatMap recordsOf, if agent = "codex" then CodexMute i record else AssistantMute i record

def Renderable (agent : String) (stdout : Stream) : Prop := ∃ text oversized,
  decodedOutput stdout maxStdoutBytes = .ok (text,oversized) ∧ ¬ Overdigits i.plain text ∧ ¬ Unspeakable i agent text

end Refusals

section Answers
variable {x α β : Type}

-- A computation that raises nothing.
def Answers (computed : Except x α) : Prop := ∃ a, computed = .ok a

theorem answers_bind {computed : Except x α} {rest : α → Except x β} :
    Answers (computed >>= rest) ↔ ∃ a, computed = .ok a ∧ Answers (rest a) := by
  cases computed with
  | error e => exact ⟨nofun,nofun⟩
  | ok a => exact ⟨fun answers => ⟨a,rfl,answers⟩,fun ⟨_,same,answers⟩ => by cases same; exact answers⟩

theorem answers_map {computed : Except x α} {f : α → β} : Answers (computed.map f) ↔ Answers computed := by
  cases computed with
  | error e => exact ⟨nofun,nofun⟩
  | ok a => exact ⟨fun _ => ⟨a,rfl⟩,fun _ => ⟨f a,rfl⟩⟩

theorem answers_mapM {f : α → Except x β} {l : List α} : Answers (l.mapM f) ↔ ∀ a ∈ l, Answers (f a) := by
  induction l with
  | nil => exact ⟨fun _ => nofun,fun _ => ⟨[],rfl⟩⟩
  | cons a rest ih =>
    rw [List.mapM_cons,answers_bind,List.forall_mem_cons,← ih]
    constructor
    · rintro ⟨b,same,answers⟩
      obtain ⟨bs,rested,-⟩ := answers_bind.mp answers
      exact ⟨⟨b,same⟩,⟨bs,rested⟩⟩
    · rintro ⟨⟨b,same⟩,⟨bs,rested⟩⟩
      exact ⟨b,same,answers_bind.mpr ⟨bs,rested,⟨_,rfl⟩⟩⟩

end Answers

section Rendering
variable {i : Interpreter} {p : Plain} {payload text : Text} {record : Value}

theorem encode_normalized (text : Text) : Answers (encodeText (normalizeScalarText text)) := by
  have scalars : ∀ c ∈ normalizeScalarText text, Utf8.surrogate c = false := by
    intro c inside
    obtain ⟨d,-,rfl⟩ := List.mem_map.mp inside
    split
    · rfl
    · rename_i scalar
      exact Bool.not_eq_true _ ▸ scalar
  obtain ⟨bytes,encoded⟩ := Utf8.encode_some scalars
  exact ⟨bytes,by rw [encodeText,encoded]; rfl⟩

theorem decodedOutput_answers (value : Stream) (limit : Nat) : Answers (decodedOutput value limit) := by
  have raw : Answers (outputBytes value limit) := by
    cases value with
    | text value =>
      obtain ⟨bytes,encoded⟩ := encode_normalized value
      exact answers_bind.mpr ⟨bytes,encoded,⟨_,rfl⟩⟩
    | bytes value => exact ⟨_,rfl⟩
    | other => exact ⟨_,rfl⟩
  obtain ⟨raw,same⟩ := raw
  exact answers_bind.mpr ⟨raw,same,⟨_,rfl⟩⟩

theorem boundedResultText_answers (text : Text) (limit : Nat) : Answers (boundedResultText text limit) := by
  obtain ⟨raw,encoded⟩ := encode_normalized text
  exact answers_bind.mpr ⟨raw,encoded,⟨_,rfl⟩⟩

theorem lineValues_answers {lines : List Text} :
    Answers (lineValues p lines) ↔ ∀ line ∈ lines, strip line ≠ [] → ¬ p.Overlong line := by
  induction lines with
  | nil => exact ⟨fun _ => nofun,fun _ => ⟨[],rfl⟩⟩
  | cons line rest ih =>
    rw [List.forall_mem_cons,lineValues]
    split
    · rename_i blank
      exact ih.trans ⟨fun later => ⟨fun solid => absurd blank solid,later⟩,And.right⟩
    · rename_i solid
      split
      · rename_i value loaded
        have short : ¬ p.Overlong line := fun long => by cases (Plain.loads_integer.mpr long).symm.trans loaded
        exact answers_map.trans (ih.trans ⟨fun later => ⟨fun _ => short,later⟩,And.right⟩)
      · rename_i refused
        exact ⟨nofun,fun all => absurd (Plain.loads_integer.mp refused) (all.1 solid)⟩
      · rename_i e other refused
        have short : ¬ p.Overlong line := fun long =>
          other (Except.error.inj (refused.symm.trans (Plain.loads_integer.mpr long)))
        exact ih.trans ⟨fun later => ⟨fun _ => short,later⟩,And.right⟩

theorem jsonValues_answers : Answers (jsonValues p payload) ↔ ¬ Overdigits p payload := by
  unfold jsonValues Overdigits
  rw [← Plain.loads_integer]
  split
  · rename_i value loaded
    refine ⟨fun _ => ?_,fun _ => ⟨_,rfl⟩⟩
    rintro (refused | ⟨none,-⟩)
    · cases refused.symm.trans loaded
    · exact none value loaded
  · rename_i refused
    exact ⟨nofun,fun fine => absurd (.inl refused) fine⟩
  · rename_i e other refused
    rw [lineValues_answers]
    constructor
    · rintro lines (overlong | ⟨-,line,inside,solid,long⟩)
      · exact other (Except.error.inj (refused.symm.trans overlong))
      · exact lines line inside solid long
    · intro fine line inside solid long
      refine fine (.inr ⟨fun value loaded => ?_,line,inside,solid,long⟩)
      cases refused.symm.trans loaded

theorem word_answers {value : Option Value} {otherwise : Text} : Answers (i.word value otherwise) ↔ ¬ Mute i value := by
  unfold Interpreter.word
  cases value with
  | none => exact ⟨fun _ ⟨_,same,_⟩ => (by cases same),fun _ => ⟨_,rfl⟩⟩
  | some v =>
    cases solid : truthy v with
    | false =>
      rw [Option.filter_some,if_neg (by simp [solid])]
      refine ⟨fun _ ⟨w,same,full,_⟩ => ?_,fun _ => ⟨_,rfl⟩⟩
      cases same
      cases solid.symm.trans full
    | true =>
      rw [Option.filter_some,if_pos solid]
      simp only [answers_map]
      cases told : i.str v with
      | ok text => exact ⟨fun _ ⟨w,same,_,e,raised⟩ => (by cases same; cases told.symm.trans raised),fun _ => ⟨text,rfl⟩⟩
      | error e => exact ⟨nofun,fun fine => absurd ⟨v,rfl,solid,e,told⟩ fine⟩

theorem assistantRecordText_answers : Answers (assistantRecordText i record) ↔ ¬ AssistantMute i record := by
  unfold assistantRecordText AssistantMute
  simp only
  split
  · rename_i plain
    exact ⟨fun _ mute => (by cases plain.symm.trans mute.1),fun _ => ⟨_,rfl⟩⟩
  · rename_i mapping
    split
    · rename_i found
      exact ⟨fun _ mute => found mute.2.1,fun _ => ⟨_,rfl⟩⟩
    · rename_i silent
      have mapped : isMapping record = true := Bool.not_eq_false _ ▸ mapping
      have empty := not_not.mp silent
      constructor
      · rintro answers ⟨-,-,mute | mute | ⟨message,held,inner,mute⟩⟩
        all_goals obtain ⟨t,typed,answers⟩ := answers_bind.mp answers
        · exact word_answers.mp ⟨t,typed⟩ mute
        all_goals obtain ⟨r,roled,answers⟩ := answers_bind.mp answers
        · exact word_answers.mp ⟨r,roled⟩ mute
        · have kept : (field record "message").filter isMapping = some message := by rw [held,Option.filter_some,if_pos inner]
          rw [kept] at answers
          obtain ⟨r',inwards,-⟩ := answers_bind.mp answers
          exact word_answers.mp ⟨r',inwards⟩ mute
      · intro fine
        obtain ⟨t,typed⟩ := word_answers.mpr fun mute => fine ⟨mapped,empty,.inl mute⟩
        obtain ⟨r,roled⟩ := word_answers.mpr fun mute => fine ⟨mapped,empty,.inr (.inl mute)⟩
        refine answers_bind.mpr ⟨t,typed,answers_bind.mpr ⟨r,roled,?_⟩⟩
        cases kept : (field record "message").filter isMapping with
        | none =>
          refine answers_bind.mpr ⟨r,rfl,?_⟩
          split <;> exact ⟨_,rfl⟩
        | some message =>
          obtain ⟨held,inner⟩ := Option.filter_eq_some_iff.mp kept
          obtain ⟨r',inwards⟩ := word_answers.mpr fun mute => fine ⟨mapped,empty,.inr (.inr ⟨message,held,inner,mute⟩)⟩
          refine answers_bind.mpr ⟨r',inwards,?_⟩
          split <;> exact ⟨_,rfl⟩

theorem codexItem_answers {container : Value} : Answers (codexItem i container) ↔ ¬ Mute i (field container "type") := by
  unfold codexItem
  rw [answers_bind,← @word_answers i _ []]
  refine ⟨fun ⟨t,typed,_⟩ => ⟨t,typed⟩,fun ⟨t,typed⟩ => ⟨t,typed,?_⟩⟩
  split <;> exact ⟨_,rfl⟩

theorem firstItem_answers {all : List Value} : Answers (firstItem i all) ↔ ¬ ∃ before container after,
    all = before ++ container :: after ∧ (∀ earlier ∈ before, codexItem i earlier = .ok []) ∧ Mute i (field container "type") := by
  induction all with
  | nil =>
    refine ⟨fun _ => ?_,fun _ => ⟨[],rfl⟩⟩
    rintro ⟨before,container,after,same,-⟩
    exact absurd same (by simp)
  | cons container rest ih =>
    rw [firstItem,answers_bind]
    constructor
    · rintro ⟨text,found,answers⟩ ⟨before,mute,after,same,silent,refused⟩
      cases before with
      | nil =>
        cases same
        exact codexItem_answers.mp ⟨text,found⟩ refused
      | cons first before =>
        cases same
        cases found.symm.trans (silent _ List.mem_cons_self)
        exact ih.mp answers ⟨before,mute,after,rfl,fun c inside => silent c (List.mem_cons_of_mem _ inside),refused⟩
    · intro fine
      obtain ⟨text,found⟩ := codexItem_answers.mpr fun mute => fine ⟨[],container,rest,rfl,nofun,mute⟩
      refine ⟨text,found,?_⟩
      split
      · exact ⟨_,rfl⟩
      · rename_i silent
        cases not_not.mp silent
        refine ih.mpr ?_
        rintro ⟨before,mute,after,rfl,quiet,refused⟩
        exact fine ⟨container :: before,mute,after,rfl,List.forall_mem_cons.mpr ⟨found,quiet⟩,refused⟩

theorem codexRecordText_answers : Answers (codexRecordText i record) ↔ ¬ CodexMute i record := by
  unfold codexRecordText CodexMute
  split
  · rename_i mapping
    rw [answers_map,firstItem_answers]
    exact not_congr ⟨fun mute => ⟨mapping,mute⟩,And.right⟩
  · rename_i plain
    exact ⟨fun _ mute => plain mute.1,fun _ => ⟨_,rfl⟩⟩

theorem parseOutput_answers {agent : String} :
    Answers (parseOutput i agent payload) ↔ ¬ Overdigits i.plain payload ∧ ¬ Unspeakable i agent payload := by
  rw [← jsonValues_answers]
  unfold parseOutput Unspeakable
  by_cases codex : agent = "codex"
  · simp only [if_pos codex]
    unfold parseCodex
    rw [answers_bind]
    constructor
    · rintro ⟨values,parsed,answers⟩
      refine ⟨⟨values,parsed⟩,?_⟩
      rintro ⟨others,same,record,inside,mute⟩
      cases parsed.symm.trans same
      obtain ⟨found,all,-⟩ := answers_bind.mp answers
      exact codexRecordText_answers.mp (answers_mapM.mp ⟨found,all⟩ record inside) mute
    · rintro ⟨⟨values,parsed⟩,spoken⟩
      obtain ⟨found,all⟩ := answers_mapM.mpr fun record inside =>
        codexRecordText_answers.mpr fun mute => spoken ⟨values,parsed,record,inside,mute⟩
      refine ⟨values,parsed,answers_bind.mpr ⟨found,all,?_⟩⟩
      simp only
      split <;> exact ⟨_,rfl⟩
  · simp only [if_neg codex]
    unfold parseClaudeOrCursor
    rw [answers_bind]
    constructor
    · rintro ⟨values,parsed,answers⟩
      refine ⟨⟨values,parsed⟩,?_⟩
      rintro ⟨others,same,record,inside,mute⟩
      cases parsed.symm.trans same
      obtain ⟨found,all,-⟩ := answers_bind.mp answers
      exact assistantRecordText_answers.mp (answers_mapM.mp ⟨found,all⟩ record inside) mute
    · rintro ⟨⟨values,parsed⟩,spoken⟩
      obtain ⟨found,all⟩ := answers_mapM.mpr fun record inside =>
        assistantRecordText_answers.mpr fun mute => spoken ⟨values,parsed,record,inside,mute⟩
      exact ⟨values,parsed,answers_bind.mpr ⟨found,all,⟨_,rfl⟩⟩⟩

theorem renderOutput_answers {agent : String} {stdout stderr : Stream} {message : Text} :
    Answers (renderOutput i agent stdout stderr message) ↔ Renderable i agent stdout := by
  unfold renderOutput Renderable
  obtain ⟨⟨errors,errorsOver⟩,decoded⟩ := decodedOutput_answers stderr maxStderrBytes
  rw [answers_bind]
  constructor
  · rintro ⟨⟨text,oversized⟩,same,answers⟩
    obtain ⟨errors,-,answers⟩ := answers_bind.mp answers
    obtain ⟨response,parsed,-⟩ := answers_bind.mp answers
    exact ⟨text,oversized,same,parseOutput_answers.mp ⟨response,parsed⟩⟩
  · rintro ⟨text,oversized,same,fine⟩
    obtain ⟨response,parsed⟩ := parseOutput_answers.mpr fine
    obtain ⟨bounded,bound⟩ := boundedResultText_answers (redactMessage i response message) maxStdoutBytes
    obtain ⟨short,cut⟩ := boundedResultText_answers (redactMessage i errors message) maxStderrBytes
    exact ⟨(text,oversized),same,answers_bind.mpr ⟨_,decoded,answers_bind.mpr ⟨response,parsed,answers_bind.mpr ⟨bounded,bound,
      answers_bind.mpr ⟨short,cut,⟨_,rfl⟩⟩⟩⟩⟩⟩

end Rendering

-- A native run in which every call but the rendering does what it should, and whose request id passed its check.
structure Steady (w : World) (planned : SendPlan) : Prop where
  checks : ∀ c, w.check c = none
  slips : ∀ s, s ≠ .renderOutput → w.slip s = none
  fresh : w.replay = none
  started : w.unstarted = none
  kept : w.appended = none
  native : planned.transport ≠ "kimi_acp"
  identified : w.requestId = "" ∨ Audit.requestIdRe w.requestId = true

-- The runner returns what it captured, or the timeout has ended the child.
inductive Ended : Except Foreign BoundedProcessResult → Prop where
  | completed (result : BoundedProcessResult) : Ended (.ok result)
  | timedOut (cleanupIncomplete : Bool) : Ended (.error (.timeoutExpired cleanupIncomplete))

def scalars (text : Text) : String := String.ofList (text.map Char.ofNat)

-- The world whose runner hands over these streams.
def World.streaming (w : World) (i : Interpreter) (stdout stderr : Stream) (message : Text) : World :=
  match renderOutput i w.refreshed.agent stdout stderr message with
  | .ok (response,errors,oversized) =>
    {w with
      slip := fun s => match s with
        | .renderOutput => none
        | s => w.slip s
      rendered := (scalars response,scalars errors,oversized)}
  | .error _ =>
    {w with slip := fun s => match s with
      | .renderOutput => some .other
      | s => w.slip s}

-- What _run_native_send makes of what its runner gave it.
def ending (w : World) : Run SendResult :=
  match w.ran with
  | .ok completed => completedResult w w.refreshed completed
  | .error e => runnerFailed w w.refreshed (.foreign e)

section Sending
variable {w : World} {i : Interpreter} {planned : SendPlan} {stdout stderr : Stream} {message : Text}

theorem Steady.checked (steady : Steady w planned) (c : Check) : checked w c = .done () := by
  rw [Send.checked,steady.checks c]
  rfl

theorem Steady.slipped (steady : Steady w planned) {s : Slip} (other : s ≠ .renderOutput) : slipped w s = .done () := by
  rw [Send.slipped,steady.slips s other]
  rfl

theorem bind_done {α β : Type} (a : α) (rest : α → Run β) : ((Traced.done a : Run α) >>= rest) = rest a := rfl

theorem ensuring_done {α : Type} (t : Run α) : t.ensuring (.done ()) = t := by
  rw [Traced.ensuring,Traced.done,List.append_nil]

theorem Steady.bounded (steady : Steady w planned) :
    (runBounded w (revalidateAtSpawn w)).attempt (completedResult w w.refreshed) (runnerFailed w w.refreshed) =
      ⟨.released :: (ending w).trace,(ending w).outcome⟩ := by
  have cleaned : Send.slipped w .forceCleanup = .done () := steady.slipped (by simp)
  have spawned : Send.slipped w .spawn = .done () := steady.slipped (by simp)
  have gated : Send.slipped w .gate = .done () := steady.slipped (by simp)
  simp only [runBounded,steady.started,revalidateAtSpawn,steady.checked,cleaned,spawned,gated,bind_done]
  cases ran : w.ran <;> simp only [ending,ran] <;> rfl

theorem Steady.executed (steady : Steady w planned) : executeSend w planned true =
    (((⟨.released :: (ending w).trace,(ending w).outcome⟩ : Run SendResult).attempt (recorded w) nativeFailed).handled
      auditRaised) := by
  have unlocked : Send.slipped w .unlock = .done () := steady.slipped (by simp)
  have shut : Send.slipped w .closeNamespace = .done () := steady.slipped (by simp)
  have closed : Send.slipped w .closeKimi = .done () := steady.slipped (by simp)
  simp only [executeSend,steady.checked,bindKimi,if_neg steady.native,bind_done,reserved,ensuring_done,reservedSend,steady.fresh,
    runNativeSend,sessionLock,steady.bounded,unlocked,shut,closed,Bool.not_true,Bool.false_eq_true,if_false]

theorem Steady.settles (steady : Steady w planned) {r : SendResult} (answered : ending w = .done r) :
    executeSend w planned true = ⟨[.released,.terminal (auditTerminal r)],.ok r⟩ := by
  rw [steady.executed,answered]
  simp only [Traced.attempt,Traced.done,recorded,steady.kept]
  rfl

theorem Steady.breaks (steady : Steady w planned) (raised : ending w = .raise (.foreign .other)) : executeSend w planned true =
    ⟨[.released,.terminal ⟨"failed","unknown",some "execution_error",none⟩],.error (.foreign .other)⟩ := by
  rw [steady.executed,raised]
  rfl

theorem sendResult_done {r : SendResult} (valid : r.valid = true) : sendResult r = .done r := if_pos valid

theorem ending_answers (identified : w.requestId = "" ∨ Audit.requestIdRe w.requestId = true) (ended : Ended w.ran)
    (quiet : w.slip .renderOutput = none) : ∃ r, ending w = .done r := by
  have rendered : slipped w .renderOutput = .done () := by
    rw [slipped,quiet]
    rfl
  have named : (w.requestId = "" || Audit.requestIdRe w.requestId) = true := by simpa using identified
  unfold ending
  cases ran : w.ran with
  | ok completed =>
    simp only [completedResult,rendered,bind_done]
    split
    · exact ⟨_,sendResult_done (by simp [SendResult.valid,named,sendOutcomes,deliveryStates])⟩
    · split
      · refine ⟨_,sendResult_done ?_⟩
        by_cases answered : completed.returncode = some 0 ∧ w.rendered.1 ≠ "" <;>
          simp [SendResult.valid,named,sendOutcomes,deliveryStates,answered]
      · split
        · rename_i zero
          exact ⟨_,sendResult_done (by simp [SendResult.valid,named,sendOutcomes,deliveryStates,zero])⟩
        · exact ⟨_,sendResult_done (by simp [SendResult.valid,named,sendOutcomes,deliveryStates])⟩
  | error e =>
    rw [ran] at ended
    cases ended
    simp only [runnerFailed,rendered,bind_done]
    exact ⟨_,sendResult_done (by simp [SendResult.valid,named,sendOutcomes,deliveryStates])⟩

theorem ending_raises (ended : Ended w.ran) (raised : w.slip .renderOutput = some .other) :
    ending w = .raise (.foreign .other) := by
  have broken : slipped w .renderOutput = .raise (.foreign .other) := by
    rw [slipped,raised]
    rfl
  unfold ending
  cases ran : w.ran with
  | ok completed => simp only [completedResult,broken]; rfl
  | error e =>
    rw [ran] at ended
    cases ended
    simp only [runnerFailed,broken]
    rfl

theorem streaming_steady (steady : Steady w planned) : Steady (w.streaming i stdout stderr message) planned := by
  unfold World.streaming
  split
  all_goals
    refine ⟨steady.checks,fun s other => ?_,steady.fresh,steady.started,steady.kept,steady.native,steady.identified⟩
    cases s with
    | renderOutput => exact absurd rfl other
    | _ => exact steady.slips _ other

theorem streaming_ran : (w.streaming i stdout stderr message).ran = w.ran := by
  unfold World.streaming
  split <;> rfl

theorem streaming_answers (steady : Steady w planned) (ended : Ended w.ran)
    (rendered : Answers (renderOutput i w.refreshed.agent stdout stderr message)) :
    ∃ r, executeSend (w.streaming i stdout stderr message) planned true = ⟨[.released,.terminal (auditTerminal r)],.ok r⟩ := by
  have later : Steady (w.streaming i stdout stderr message) planned := streaming_steady steady
  have quiet : (w.streaming i stdout stderr message).slip .renderOutput = none := by
    obtain ⟨rendered,same⟩ := rendered
    unfold World.streaming
    rw [same]
  obtain ⟨r,answered⟩ := ending_answers later.identified (streaming_ran.symm ▸ ended) quiet
  exact ⟨r,later.settles answered⟩

-- What the rendering lets out takes the place of the result, and the record says execution_error.
theorem streaming_raises (steady : Steady w planned) (ended : Ended w.ran)
    (raised : renderOutput i w.refreshed.agent stdout stderr message = .error e) :
    executeSend (w.streaming i stdout stderr message) planned true =
      ⟨[.released,.terminal ⟨"failed","unknown",some "execution_error",none⟩],.error (.foreign .other)⟩ := by
  refine (streaming_steady steady).breaks (ending_raises (streaming_ran.symm ▸ ended) ?_)
  unfold World.streaming
  rw [raised]

-- Rendering raises nothing, and the send answers, exactly for the outputs without a number that is too long.
theorem render_output_settles (steady : Steady w planned) (ended : Ended w.ran) :
    (Answers (renderOutput i w.refreshed.agent stdout stderr message) ↔ Renderable i w.refreshed.agent stdout) ∧
    ((∃ r, executeSend (w.streaming i stdout stderr message) planned true = ⟨[.released,.terminal (auditTerminal r)],.ok r⟩) ↔
      Renderable i w.refreshed.agent stdout) := by
  refine ⟨renderOutput_answers,?_⟩
  rw [← @renderOutput_answers i w.refreshed.agent stdout stderr message]
  refine ⟨?_,streaming_answers steady ended⟩
  rintro ⟨r,answered⟩
  cases found : renderOutput i w.refreshed.agent stdout stderr message with
  | ok rendered => exact ⟨rendered,rfl⟩
  | error e =>
    rw [streaming_raises steady ended found] at answered
    cases congrArg Traced.outcome answered

end Sending

-- The limits of a CPython that nobody has changed.
def cpython : Interpreter where
  plain := ⟨994,some 4300,fun _ => .float 1 0⟩
  casefold := fun text => text.map fun c => if 65 ≤ c ∧ c ≤ 90 then c + 32 else c
  spoken := fun value => match value with
    | .bool true => .ok (str "True")
    | .int n => .ok (str (toString n))
    | _ => .error .recursionError
  arrange := id

def claude : World := {calm with refreshed := ⟨"claude","s1","argv-resume"⟩}

theorem claude_steady : Steady claude claude.refreshed :=
  ⟨fun _ => rfl,fun _ _ => rfl,rfl,rfl,rfl,by decide,.inr (by decide +kernel)⟩

def answered : Stream := .bytes ("\x7b\"result\":\"done\"\x7d".toList.map fun c => c.toNat.toUInt8)

theorem demo_render_output_settles : ∃ r, executeSend (claude.streaming cpython answered (.bytes []) (str "hello"))
    claude.refreshed true = ⟨[.released,.terminal (auditTerminal r)],.ok r⟩ :=
  have settles := @render_output_settles claude cpython _ answered (.bytes []) (str "hello") claude_steady (.completed _)
  settles.2.mpr (settles.1.mp ⟨(str "done",[],false),by decide +kernel⟩)

-- A line of digits, as an agent that has computed something prints it.
def digitsOutput : Stream := .bytes (List.replicate 4301 49)

theorem digits_refused : renderOutput cpython "claude" digitsOutput (.bytes []) (str "hello") = .error .valueError := by
  have decoded : decodedOutput digitsOutput maxStdoutBytes = .ok (List.replicate 4301 49,false) := by
    have short : (List.replicate 4301 (49 : UInt8)).take maxStdoutBytes = List.replicate 4301 49 :=
      List.take_of_length_le (by rw [List.length_replicate]; decide)
    have fits : ¬ maxStdoutBytes < (List.replicate 4301 (49 : UInt8)).length := by
      rw [List.length_replicate]
      decide
    have read : Utf8.decode [65533] (List.replicate 4301 49) = List.replicate 4301 49 := by
      rw [Utf8.decode_ascii _ fun b inside => by rw [List.eq_of_mem_replicate inside]; decide,List.map_replicate]
      rfl
    show Except.ok (Utf8.decode [65533] ((List.replicate 4301 (49 : UInt8)).take maxStdoutBytes),
      decide (maxStdoutBytes < (List.replicate 4301 (49 : UInt8)).length)) = _
    rw [short,read,decide_eq_false fits]
  have overlong : cpython.plain.loads (List.replicate 4301 49) = .error .integer :=
    Plain.loads_integer.mpr (show cpython.plain.Overlong (49 :: List.replicate 4300 49) from Plain.digits_overlong (by decide)
      (fun d inside => by rw [List.eq_of_mem_replicate (n := 4301) inside]; rfl) rfl (by rw [List.length_replicate]))
  have values : jsonValues cpython.plain (List.replicate 4301 49) = .error .valueError := by rw [jsonValues,overlong]
  unfold renderOutput parseOutput parseClaudeOrCursor
  rw [decoded]
  simp only [bind,Except.bind,values]
  rfl

theorem long_integer_unanswered : renderOutput cpython "claude" digitsOutput (.bytes []) (str "hello") = .error .valueError ∧
    executeSend (claude.streaming cpython digitsOutput (.bytes []) (str "hello")) claude.refreshed true =
      ⟨[.released,.terminal ⟨"failed","unknown",some "execution_error",none⟩],.error (.foreign .other)⟩ :=
  ⟨digits_refused,streaming_raises claude_steady (.completed _) digits_refused⟩

end AgentSideCar.Send
