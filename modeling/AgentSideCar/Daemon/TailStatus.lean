import AgentSideCar.Daemon.StateEngine
import Mathlib.Algebra.Field.Rat
import Mathlib.Algebra.Order.Ring.Rat
import Mathlib.Tactic.NormNum

namespace AgentSideCar.Inference
open Loads (Value str)

section Reading
variable {T : Type} (i : Interpreter T)

-- What a line is, where it is a JSON object.
def object (raw : Bytes) : Option Value :=
  if raw.all Tail.isSpace then none
  else match i.plain.loads (decodedLine raw) with
    | .ok (.dict fields) => some (.dict fields)
    | _ => none

-- A line at which json.loads raises what is no JSONDecodeError: a plain ValueError or a RecursionError.
def Raises (raw : Bytes) : Prop := raw.all Tail.isSpace = false ∧ ∃ e, i.plain.loads (decodedLine raw) = .error e ∧ e ≠ .malformed

-- The lines of a file, each with where it starts.
def placedLines (content : Bytes) : List (Nat × Bytes) := LineStarts.placed lineBreak carriageReturn newline false 0 [] content

-- The lines that are left of a window's when it is cut after its first newline.
def reachedLines (maxBytes : Nat) (content : Bytes) : List (Nat × Bytes) :=
  (placedLines content).filter fun line => LineStarts.reached newline (content.length - maxBytes) content line.1

def objects (lines : List (Nat × Bytes)) : List Value := lines.filterMap fun line => object i line.2

variable {i}

theorem jsonlRecords_fine (lines : List Bytes) (records : List Value) (fine : ∀ raw ∈ lines, ¬ Raises i raw) :
    jsonlRecords i none records lines = .ok (records ++ lines.filterMap (object i)) := by
  induction lines generalizing records with
  | nil => simp [jsonlRecords]
  | cons raw rest ih =>
    have later (records : List Value) := ih records fun other inside => fine other (List.mem_cons_of_mem _ inside)
    have first := fine raw List.mem_cons_self
    rw [jsonlRecords,List.filterMap_cons,object]
    split
    · exact later records
    · rename_i some'
      cases read : i.plain.loads (decodedLine raw) with
      | error e =>
        have plain : e = .malformed := by
          by_contra other
          exact first ⟨Bool.not_eq_true _ ▸ some',e,read,other⟩
        rw [plain]
        exact later records
      | ok value =>
        cases value with
        | dict fields =>
          simp only [Option.any_none,Bool.false_eq_true,if_false]
          rw [later,List.append_assoc,List.singleton_append]
        | _ => exact later records

theorem jsonlRecords_raises (lines : List Bytes) (records : List Value) (inside : raw ∈ lines) (raises : Raises i raw) :
    ∃ e, jsonlRecords i none records lines = .error e := by
  induction lines generalizing records with
  | nil => cases inside
  | cons other rest ih =>
    rw [jsonlRecords]
    rcases List.mem_cons.mp inside with rfl | later
    · obtain ⟨some',e,read,special⟩ := raises
      rw [if_neg (by simp [some']),read]
      cases e with
      | malformed => exact absurd rfl special
      | integer => exact ⟨_,rfl⟩
      | recursion => exact ⟨_,rfl⟩
    · split
      · exact ih records later
      · split
        · exact ih records later
        · exact ⟨_,rfl⟩
        · exact ih _ later
        · exact ih records later

theorem readJsonlTail_lines (content : Bytes) (positive : 0 < maxBytes) (maxRecords : Option Nat) :
    readJsonlTail i (some content) maxBytes maxRecords =
      (jsonlRecords i none [] ((reachedLines maxBytes content).map Prod.snd)).map (lastOf maxRecords) := by
  have lines : (LineStarts.tail newline maxBytes content).elim [] splitlines = (reachedLines maxBytes content).map Prod.snd :=
    LineStarts.tail_placed rfl (by decide) maxBytes content
  rw [readJsonlTail,if_neg (by omega),← lines]
  cases LineStarts.tail newline maxBytes content with
  | none =>
    cases maxRecords with
    | none => rfl
    | some most => simp [jsonlRecords,lastOf,Except.map]
  | some data => rfl

end Reading

section Windows
variable {T : Type} [Field T] [LinearOrder T] (i : Interpreter T) (e : StateEngine T) (content : Bytes)

def lineActivity (line : Nat × Bytes) : Option (Kind × Option T) := (object i line.2).bind (activity i)

-- The last activity record of a file: where its line starts, what it marks, and the lines after it.
def LastActivity (place : Nat) (marked : Kind × Option T) (later : List (Nat × Bytes)) : Prop := ∃ before raw,
  placedLines content = before ++ (place,raw) :: later ∧ lineActivity i (place,raw) = some marked ∧
    ∀ line ∈ later, lineActivity i line = none

-- The last activity record, if any, is within the window: in the last bytes, and among the last records.
def Within : Prop := ∀ place marked later, LastActivity i content place marked later →
  content.length - e.tailBytes ≤ place ∧ (objects i later).length + 1 ≤ e.tailRecords

-- What the cache keeps under a file's signature has been loaded from it.
def Cached (cached : Option (TailState T)) : Prop := ∀ tail, cached = some tail → loadTail i e content = .ok tail

-- The status a scan gives a session whose adapter is silent and that has no active terminal.
def derived (cached : Option (TailState T)) (updatedAt current : T) : Status :=
  scanned (inferStatus i e none (some content) cached updatedAt current false)

-- The status is that of the JSON objects among the lines read, and that of all JSON objects of
-- the file where its last activity is within the window.
structure Faithful : Prop where
  ignored : ∀ cached, Cached i e content cached → ∀ updatedAt current, derived i e content cached updatedAt current =
    statusOf e (tailState i (lastOf (some e.tailRecords) (objects i (reachedLines e.tailBytes content)))) updatedAt current
  whole : Within i e content → ∀ cached, Cached i e content cached → ∀ updatedAt current,
    derived i e content cached updatedAt current = statusOf e (tailState i (objects i (placedLines content))) updatedAt current

-- An assistant's text or a tool's result without a time leaves the status as no activity does.
def Unnoticed (marked : Kind × Option T) : Prop := marked.2 = none ∧ (marked.1 = .assistant ∨ marked.1 = .toolResult)

-- No line that is read makes json.loads raise what is no JSONDecodeError, and the cut spares the
-- last activity record: a newline stands ahead of it in the window, or right before the window.
structure Readable : Prop where
  decodes : ∀ line ∈ reachedLines e.tailBytes content, ¬ Raises i line.2
  spared : Within i e content → ∀ place marked later, LastActivity i content place marked later →
    LineStarts.reached newline (content.length - e.tailBytes) content place = true ∨ Unnoticed marked

end Windows

section Lasts
variable {α β : Type} {f : α → Option β}

theorem last_exists (f : α → Option β) (l : List α) : (∀ x ∈ l, f x = none) ∨
    ∃ before x later b, l = before ++ x :: later ∧ f x = some b ∧ ∀ y ∈ later, f y = none := by
  induction l using List.reverseRecOn with
  | nil => exact .inl (List.forall_mem_nil _)
  | append_singleton l x ih =>
    cases found : f x with
    | some b => exact .inr ⟨l,x,[],b,rfl,found,List.forall_mem_nil _⟩
    | none =>
      rcases ih with none' | ⟨before,y,later,b,rfl,marked,silent⟩
      · exact .inl fun z inside => (List.mem_append.mp inside).elim (none' z) fun last => List.mem_singleton.mp last ▸ found
      · refine .inr ⟨before,y,later ++ [x],b,by simp,marked,fun z inside => ?_⟩
        exact (List.mem_append.mp inside).elim (silent z) fun last => List.mem_singleton.mp last ▸ found

theorem last_marked (before : List α) (marked : f x = some b) (silent : ∀ y ∈ later, f y = none) :
    ((before ++ x :: later).filterMap f).getLast? = some b := by
  have quiet : later.filterMap f = [] := List.filterMap_eq_nil_iff.mpr silent
  rw [List.filterMap_append,List.filterMap_cons_some marked,quiet,List.getLast?_concat]

end Lasts

section Tails
variable {T : Type} [Field T] [LinearOrder T] {i : Interpreter T} {e : StateEngine T} {content : Bytes}

theorem objects_activity (lines : List (Nat × Bytes)) :
    lastActivity i (objects i lines) = shown (lines.filterMap (lineActivity i)).getLast? (none,none) := by
  rw [lastActivity,objects,List.filterMap_filterMap]
  rfl

theorem silent_activity (silent : ∀ line ∈ lines, lineActivity i line = none) : lastActivity i (objects i lines) = (none,none) := by
  rw [objects_activity,List.filterMap_eq_nil_iff.mpr silent]
  rfl

theorem marked_activity (before : List (Nat × Bytes)) (marked : lineActivity i line = some m) (silent : ∀ line ∈ later, lineActivity i line = none) :
    lastActivity i (objects i (before ++ line :: later)) = (some m.1,m.2) := by
  rw [objects_activity,last_marked before marked silent]
  rfl

theorem lastOf_activity (before : List (Nat × Bytes)) (marked : lineActivity i line = some m)
    (silent : ∀ line ∈ later, lineActivity i line = none) (few : (objects i later).length + 1 ≤ most) :
    lastActivity i (lastOf (some most) (objects i (before ++ line :: later))) = (some m.1,m.2) := by
  obtain ⟨record,taken,active⟩ := Option.bind_eq_some_iff.mp marked
  have whole : objects i (before ++ line :: later) = objects i before ++ record :: objects i later := by
    have step : objects i (line :: later) = record :: objects i later := List.filterMap_cons_some taken
    rw [objects,List.filterMap_append]
    exact congrArg _ step
  have quiet : ∀ other ∈ objects i later, activity i other = none := by
    intro other inside
    obtain ⟨at_,among,same⟩ := List.mem_filterMap.mp inside
    have := silent at_ among
    rwa [lineActivity,same] at this
  have long : (objects i before ++ record :: objects i later).length - most ≤ (objects i before).length := by
    rw [List.length_append,List.length_cons]
    omega
  rw [whole,lastOf,if_neg (by omega),List.drop_append_of_le_length long,lastActivity,last_marked _ active quiet]
  rfl

theorem lastOf_silent (silent : ∀ line ∈ lines, lineActivity i line = none) (most : Option Nat) :
    lastActivity i (lastOf most (objects i lines)) = (none,none) := by
  have quiet : ∀ record ∈ lastOf most (objects i lines), activity i record = none := by
    intro record inside
    have among : record ∈ objects i lines := by
      cases most with
      | none => exact inside
      | some most =>
        rw [lastOf] at inside
        split at inside
        · exact inside
        · exact List.mem_of_mem_drop inside
    obtain ⟨line,there,same⟩ := List.mem_filterMap.mp among
    have := silent line there
    rwa [lineActivity,same] at this
  rw [lastActivity,List.filterMap_eq_nil_iff.mpr quiet]
  rfl

theorem reached_activity (last : LastActivity i content place marked later) (few : (objects i later).length + 1 ≤ most) :
    lastActivity i (lastOf (some most) (objects i (reachedLines n content))) =
      if LineStarts.reached newline (content.length - n) content place then (some marked.1,marked.2) else (none,none) := by
  obtain ⟨before,raw,whole,active,silent⟩ := last
  have quiet : ∀ line ∈ later.filter fun line => LineStarts.reached newline (content.length - n) content line.1,
      lineActivity i line = none := fun line inside => silent line (List.mem_of_mem_filter inside)
  have fewer : (objects i (later.filter fun line => LineStarts.reached newline (content.length - n) content line.1)).length ≤
      (objects i later).length := (List.filter_sublist.filterMap _).length_le
  rw [reachedLines,whole,List.filter_append,List.filter_cons]
  split
  · exact lastOf_activity _ active quiet (by omega)
  · rename_i far
    have sorted : (placedLines content).Pairwise fun e d => e.1 < d.1 := LineStarts.placed_sorted false 0 [] content
    have gone : before.filter (fun line => LineStarts.reached newline (content.length - n) content line.1) = [] := by
      refine List.filter_eq_nil_iff.mpr fun line inside near => ?_
      have ahead := (List.pairwise_append.mp (whole ▸ sorted)).2.2 line inside (place,raw) List.mem_cons_self
      exact far (LineStarts.reached_mono (Nat.le_of_lt ahead) near)
    rw [gone,List.nil_append]
    exact lastOf_silent quiet _

theorem whole_activity (last : LastActivity i content place marked later) :
    lastActivity i (objects i (placedLines content)) = (some marked.1,marked.2) := by
  obtain ⟨before,raw,whole,active,silent⟩ := last
  rw [whole]
  exact marked_activity before active silent

theorem loadTail_fine (fine : ∀ line ∈ reachedLines e.tailBytes content, ¬ Raises i line.2) : loadTail i e content =
    .ok (tailState i (lastOf (some e.tailRecords) (objects i (reachedLines e.tailBytes content)))) := by
  have calm : ∀ raw ∈ (reachedLines e.tailBytes content).map Prod.snd, ¬ Raises i raw := by
    intro raw inside
    obtain ⟨line,among,rfl⟩ := List.mem_map.mp inside
    exact fine line among
  rw [loadTail,readJsonlTail_lines content e.bytes,jsonlRecords_fine _ _ calm,List.filterMap_map]
  rfl

theorem cached_none : Cached i e content none := fun _ never => by cases never

theorem inferStatus_load (kept : Cached i e content cached) (updatedAt current : T) :
    inferStatus i e none (some content) cached updatedAt current false =
      (loadTail i e content).map fun tail => statusOf e tail updatedAt current := by
  have loaded : cached.elim (loadTail i e content) .ok = loadTail i e content := by
    cases cached with
    | none => rfl
    | some tail => exact (kept tail rfl).symm
  rw [inferStatus,loaded]
  cases loadTail i e content with
  | error _ => rfl
  | ok tail =>
    show (if _ then _ else _) = _
    rw [if_neg (by simp)]
    rfl

theorem derived_fine (fine : ∀ line ∈ reachedLines e.tailBytes content, ¬ Raises i line.2) (kept : Cached i e content cached)
    (updatedAt current : T) : derived i e content cached updatedAt current =
      statusBy e (lastActivity i (lastOf (some e.tailRecords) (objects i (reachedLines e.tailBytes content)))) updatedAt current := by
  rw [derived,inferStatus_load kept,loadTail_fine fine,← statusOf_records]
  rfl

theorem derived_raises (inside : line ∈ reachedLines e.tailBytes content) (raises : Raises i line.2) (updatedAt current : T) :
    derived i e content none updatedAt current = .dead := by
  obtain ⟨error,raised⟩ := jsonlRecords_raises _ [] (List.mem_map_of_mem inside) raises
  rw [derived,inferStatus_load cached_none,loadTail,readJsonlTail_lines content e.bytes,raised]
  rfl

theorem reached_by (last : LastActivity i content place marked later) (within : Within i e content) :
    lastActivity i (lastOf (some e.tailRecords) (objects i (reachedLines e.tailBytes content))) =
      if LineStarts.reached newline (content.length - e.tailBytes) content place then (some marked.1,marked.2) else (none,none) :=
  reached_activity last (within place marked later last).2

end Tails

section Statuses
variable {T : Type} [Field T] [LinearOrder T] {e : StateEngine T}

theorem ageSeconds_now (current : T) : ageSeconds current current = 0 := by
  rw [ageSeconds,sub_self,max_self]

theorem statusBy_now (last : Option Kind × Option T) (current : T) (here : last.2.getD current = current) :
    statusBy e last current current = if atWork last.1 then .working else .waiting := by
  have aged : ¬ e.idleSeconds < 0 := not_lt.mpr (e.fresh.trans e.ordered)
  unfold statusBy
  rw [here,ageSeconds_now]
  dsimp only
  rw [if_neg aged]
  simp [e.fresh]

variable [IsStrictOrderedRing T]

theorem statusBy_unnoticed (marked : Kind × Option T) : (∀ updatedAt current,
    statusBy e (some marked.1,marked.2) updatedAt current = statusBy e (none,none) updatedAt current) ↔ Unnoticed marked := by
  obtain ⟨kind,timestamp⟩ := marked
  constructor
  · intro same
    have quiet : atWork (some kind) = false := by
      have now := same (timestamp.getD 0) (timestamp.getD 0)
      rw [statusBy_now _ _ (by cases timestamp <;> rfl),statusBy_now _ _ rfl] at now
      cases busy : atWork (some kind) with
      | false => rfl
      | true =>
        rw [busy] at now
        cases now
    refine ⟨?_,by cases kind <;> first | exact .inl rfl | exact .inr rfl | cases quiet⟩
    cases timestamp with
    | none => rfl
    | some time =>
      -- a session not touched since long before the activity
      have late := same (time - (e.idleSeconds + 1)) time
      have old : e.idleSeconds < ageSeconds (time - (e.idleSeconds + 1)) time := by
        rw [ageSeconds,sub_sub_cancel]
        exact lt_max_of_lt_right (lt_add_one _)
      have now : ¬ e.idleSeconds < ageSeconds time time := by
        rw [ageSeconds_now]
        exact not_lt.mpr (e.fresh.trans e.ordered)
      unfold statusBy at late
      dsimp only at late
      rw [Option.getD_some,Option.getD_none,if_neg now,if_pos old] at late
      split at late <;> cases late
  · rintro ⟨untimed,kinds⟩ updatedAt current
    dsimp only at untimed kinds
    unfold statusBy
    rw [untimed]
    rcases kinds with rfl | rfl <;> rfl

end Statuses

section Main
variable {T : Type} [Field T] [LinearOrder T] [IsStrictOrderedRing T] {i : Interpreter T} {e : StateEngine T} {content : Bytes}

theorem readable_faithful (readable : Readable i e content) : Faithful i e content := by
  refine ⟨fun cached kept updatedAt current => ?_,fun within cached kept updatedAt current => ?_⟩
  · rw [derived_fine readable.decodes kept,statusOf_records]
  · rw [derived_fine readable.decodes kept,statusOf_records]
    rcases last_exists (lineActivity i) (placedLines content) with silent | ⟨before,⟨place,raw⟩,later,marked,whole,active,quiet⟩
    · have quiet : ∀ line ∈ reachedLines e.tailBytes content, lineActivity i line = none :=
        fun line inside => silent line (List.mem_of_mem_filter inside)
      rw [silent_activity silent,lastOf_silent quiet]
    · have last : LastActivity i content place marked later := ⟨before,raw,whole,active,quiet⟩
      rw [reached_by last within,whole_activity last]
      rcases readable.spared within place marked later last with near | unnoticed
      · rw [if_pos near]
      · split
        · rfl
        · exact ((statusBy_unnoticed marked).mpr unnoticed updatedAt current).symm

theorem faithful_readable (faithful : Faithful i e content) : Readable i e content := by
  have decodes : ∀ line ∈ reachedLines e.tailBytes content, ¬ Raises i line.2 := by
    intro line inside raises
    have dead := faithful.ignored none cached_none 0 0
    rw [derived_raises inside raises] at dead
    exact statusOf_alive _ _ _ _ dead.symm
  refine ⟨decodes,fun within place marked later last => ?_⟩
  by_contra neither
  push Not at neither
  apply neither.2
  refine (statusBy_unnoticed (e := e) marked).mp fun updatedAt current => ?_
  have whole := faithful.whole within none cached_none updatedAt current
  rw [derived_fine decodes cached_none,statusOf_records,reached_by last within,whole_activity last,
    if_neg (by simpa using neither.1)] at whole
  exact whole.symm

-- The bounded tail gives every session at every time the status of the whole file, and lines that
-- are no JSON object change nothing, exactly where the tail is readable.
theorem status_exact (i : Interpreter T) (e : StateEngine T) (content : Bytes) : Faithful i e content ↔ Readable i e content :=
  ⟨faithful_readable,readable_faithful⟩

end Main

def demoInterpreter : Interpreter ℚ :=
  ⟨⟨1000,some 4300,fun _ => .null⟩,id,fun _ => [],fun n => some n,fun mantissa exponent => some (mantissa * 10 ^ exponent),
    fun _ => none,fun _ => none⟩

def demoEngine (tailBytes : Nat) (positive : 0 < tailBytes) : StateEngine ℚ :=
  ⟨90,900,tailBytes,512,by norm_num,by norm_num,positive,by decide⟩

def demoLine (content : String) : Bytes := (str content).map Nat.toUInt8 ++ [newline]

-- A window that opens within the line of a tool's call and holds the line of its result.
def demoContent : Bytes := demoLine "\x7b\"type\":\"tool_use\",\"id\":\"a\"\x7d" ++ demoLine "\x7b\"type\":\"tool_result\",\"id\":\"a\"\x7d"

theorem demo_status : Faithful demoInterpreter (demoEngine 40 (by decide)) demoContent := by
  have reads : ∀ line ∈ reachedLines 40 demoContent, (demoInterpreter.plain.loads (decodedLine line.2)).isOk = true := by decide +kernel
  have spared : ∀ line ∈ placedLines demoContent, demoContent.length - 40 ≤ line.1 →
      LineStarts.reached newline (demoContent.length - 40) demoContent line.1 = true := by decide +kernel
  refine (status_exact demoInterpreter (demoEngine 40 (by decide)) demoContent).mpr ⟨?_,?_⟩
  · rintro line inside ⟨_,error,raised,_⟩
    have read := reads line inside
    rw [raised] at read
    cases read
  · intro within place marked later last
    obtain ⟨before,raw,whole,_⟩ := id last
    have inside : (place,raw) ∈ placedLines demoContent := whole ▸ List.mem_append_right _ List.mem_cons_self
    exact .inl (spared (place,raw) inside (within place marked later last).1)

-- An integer of more digits than the interpreter converts, alone on a line.
def lengthyContent (n : Nat) : Bytes := List.replicate n 49 ++ demoLine "\n\x7b\"type\":\"thinking\"\x7d"

theorem lengthy_raises (long : 4300 < n) : Raises demoInterpreter (List.replicate n 49) := by
  obtain ⟨m,rfl⟩ : ∃ m, n = m + 1 := ⟨n - 1,by omega⟩
  have digits : ∀ d ∈ List.replicate (m + 1) 49, Loads.isDigit d = true := fun d inside => List.eq_of_mem_replicate inside ▸ rfl
  have overlong : demoInterpreter.plain.Overlong (List.replicate (m + 1) 49) :=
    Loads.Plain.digits_overlong (by decide) digits rfl (by rw [List.length_replicate]; omega)
  have ascii : ∀ b ∈ List.replicate (m + 1) (49 : UInt8), b.toNat < 128 := fun b inside => List.eq_of_mem_replicate inside ▸ by decide
  have decoded : decodedLine (List.replicate (m + 1) 49) = List.replicate (m + 1) 49 := by
    rw [decodedLine,Utf8.decode_ascii _ ascii,List.map_replicate]
    rfl
  refine ⟨by simp [List.replicate_succ,Tail.isSpace],.integer,?_,nofun⟩
  rw [decoded]
  exact Loads.Plain.loads_integer.mpr overlong

theorem lengthy_dead (long : 4300 < n) (fits : (lengthyContent n).length ≤ 65536) (updatedAt current : ℚ) :
    derived demoInterpreter (demoEngine 65536 (by decide)) (lengthyContent n) none updatedAt current = .dead := by
  have solid : ∀ b ∈ List.replicate n (49 : UInt8), lineBreak b = false := fun b inside => List.eq_of_mem_replicate inside ▸ rfl
  have placed : (0,List.replicate n 49) ∈ placedLines (lengthyContent n) := by
    rw [placedLines,lengthyContent,LineStarts.placed_solid solid]
    exact List.mem_cons_self
  have near : LineStarts.reached newline ((lengthyContent n).length - 65536) (lengthyContent n) 0 = true := by
    rw [Nat.sub_eq_zero_of_le fits]
    rfl
  have inside : (0,List.replicate n 49) ∈ reachedLines (demoEngine 65536 (by decide)).tailBytes (lengthyContent n) :=
    List.mem_filter.mpr ⟨placed,near⟩
  have raises : Raises demoInterpreter (0,List.replicate n 49).2 := lengthy_raises long
  exact derived_raises inside raises updatedAt current

-- json.loads raises a plain ValueError at 4301 digits, and the scan marks the session dead.
theorem long_integer_kills : ¬ (∀ (i : Interpreter ℚ) (e : StateEngine ℚ) (content : Bytes), Faithful i e content) ∧
    ∀ updatedAt current, derived demoInterpreter (demoEngine 65536 (by decide)) (lengthyContent 4301) none updatedAt current = .dead := by
  have dead (updatedAt current : ℚ) : derived demoInterpreter (demoEngine 65536 (by decide)) (lengthyContent 4301) none updatedAt current = .dead := by
    apply lengthy_dead (by decide)
    rw [lengthyContent,List.length_append,List.length_replicate]
    decide
  refine ⟨fun claimed => ?_,dead⟩
  have alive := (claimed demoInterpreter (demoEngine 65536 (by decide)) (lengthyContent 4301)).ignored none cached_none 0 0
  rw [dead] at alive
  exact statusOf_alive _ _ _ _ alive.symm

end AgentSideCar.Inference
