import AgentSideCar.Replay.Histories
import Mathlib.Algebra.Group.Int.Defs

namespace AgentSideCar.Replay
open Tail hiding kept
open Sieve
variable {ω τ ξ : Type}

-- An adapter of JSONL transcripts reads nothing off the ordinal that a replay attaches.
structure JsonlAdapter (ω τ ξ : Type) extends Adapter ω τ ξ where
  blind_moment : ∀ record, moment (record.erase "seq") = moment record
  blind_contents : ∀ session record, contents session (record.erase "seq") = contents session record

section Tailer
variable (a : Adapter ω τ ξ) (session : Session) (fallback : Nat → String) (r : Reader (Record ω)) (f : File)

-- What a tailer publishes over polls of one unchanging file; none if one of them raises.
def tailerPolls : Nat → Follower (Record ω) → Memory τ → Nat → Option (List (Event ξ))
  | 0,_,_,_ => some []
  | n+1,s,m,turn =>
    match poll r (some f) s with
    | (after,some records) =>
      let published := publish a session fallback m turn records
      (tailerPolls n after published.1 (turn + records.length)).map (published.2 ++ ·)
    | (_,none) => none

end Tailer

variable {session : Session} {fallback fallback' : Nat → String} {r : Reader (Record ω)} {m m' : Memory τ}

theorem tailerPolls_publish (a : Adapter ω τ ξ) (f : File) (n : Nat) (s : Follower (Record ω)) (m : Memory τ) (turn : Nat) :
    tailerPolls a session fallback r f n s m turn =
      (polls r f n s).map fun records => (publish a session fallback m turn records).2 := by
  induction n generalizing s m turn with
  | zero => rfl
  | succ n ih =>
    rw [tailerPolls,polls]
    cases poll r (some f) s with
    | mk after outcome =>
      cases outcome with
      | none => rfl
      | some records =>
        simp only [ih,Option.map_map]
        congr 1
        funext later
        simp [publish_append]

section Blind
variable {a : JsonlAdapter ω τ ξ}

theorem normalize_erase (m : Memory τ) (fallback : String) (record : Record ω) :
    normalize a.toAdapter session m fallback (record.erase "seq") = normalize a.toAdapter session m fallback record := by
  have named : source a.toAdapter (record.erase "seq") = source a.toAdapter record := by
    rw [source,source,Dict.get_erase,if_neg (by decide)]
  have timed : (record.erase "seq").get "time" = record.get "time" := by
    rw [Dict.get_erase,if_neg (by decide)]
  have stamped : stamp a.toAdapter session fallback (record.erase "seq") = stamp a.toAdapter session fallback record := by
    funext content
    rw [stamp,stamp,a.blind_moment]
  simp only [normalize,judge,deduplicateContent,a.blind_contents,named,timed,stamped]

theorem normalizeAll_erase (fallback : Nat → String) (m : Memory τ) (turn : Nat) (records : List (Record ω)) :
    normalizeAll a.toAdapter session fallback m turn (records.map (·.erase "seq")) =
      normalizeAll a.toAdapter session fallback m turn records := by
  induction records generalizing m turn with
  | nil => rfl
  | cons record rest ih => simp only [List.map_cons,normalizeAll,normalize_erase,ih]

end Blind

-- The events a tailer from the start publishes over its polls are those of the pages of the
-- daemon's replay, each normalized by an adapter with a memory of its own.
def EventsAgree (a : Adapter ω τ ξ) (session : Session) (fallback fallback' : Nat → String) (r : Reader (Record ω)) (limit : Nat)
    (f : File) (m m' : Memory τ) : Prop :=
  ∃ fuel enough events,
    iterateAnswers a session fallback limit (pageAt r ((Transcript.jsonl f.content).budget limit) jsonlChunkBytes f.content)
      fuel m 0 0 0 = some events ∧
    ∀ n ≥ enough, tailerPolls a session fallback' r f n (initializeFollower r.bounds true (some f)) m' 0 = some events

def recordsOf (r : Reader (Record ω)) (content : Bytes) : List (Record ω) := (Lines.lines newline content).filterMap (recordOf r)

-- What a page's scan can reach of a file, and a record off which nothing is read.
def scanned (content : Bytes) : Bytes := content.take (64 * 1024 * 1024)
def Silent (a : Adapter ω τ ξ) (session : Session) (record : Record ω) : Prop := (a.contents session record).getD [] = []

section Agree
variable {limit : Nat} {f : File} {a : JsonlAdapter ω τ ξ}

theorem budget_positive (some' : 0 < limit) (content : Bytes) : 0 < ((Transcript.jsonl content).budget limit).maxRecords ∧
    0 < ((Transcript.jsonl content).budget limit).maxScanBytes ∧ 0 < ((Transcript.jsonl content).budget limit).maxRetainedBytes ∧
    0 < ((Transcript.jsonl content).budget limit).maxLineBytes :=
  ⟨some',by simp [Transcript.budget]⟩

theorem jsonlRecords_all (same : r.bounds.maxLineBytes = 1024 * 1024) (whole content : Bytes) :
    (jsonlRecords r.loads ((Transcript.jsonl whole).budget limit) content).map (·.erase "seq") =
      (recordsOf r content).map (·.erase "seq") := by
  refine (jsonlRecords_fit r (by rw [same]; rfl) content).mpr fun line _ record loaded => ?_
  unfold recordOf at loaded
  split at loaded
  · cases loaded
  · rename_i plain
    simp only [Bool.or_eq_true,decide_eq_true_eq,not_or,same] at plain
    simp only [Transcript.budget]
    omega

theorem pages_said (a : JsonlAdapter ω τ ξ) (session : Session) (fallback : Nat → String) (m : Memory τ) (some' : 0 < limit) (same : r.bounds.maxLineBytes = 1024 * 1024)
    (spoken : ∀ line ∈ Lines.lines newline (scanned f.content), Spoken r.loads ((Transcript.jsonl f.content).budget limit) line) :
    ∃ enough, ∀ fuel ≥ enough, iterateAnswers a.toAdapter session fallback limit
        (pageAt r ((Transcript.jsonl f.content).budget limit) jsonlChunkBytes f.content) fuel m 0 0 0 =
      (normalizeAll a.toAdapter session fallback m 0 (recordsOf r (scanned f.content))).2 := by
  obtain ⟨fuel,walked⟩ := pages_reach r (budget_positive some' f.content) (show 0 < jsonlChunkBytes by decide) spoken
  refine ⟨fuel,fun more high => ?_⟩
  have iterated := iterate_more fuel 0 0 walked more high
  rw [iterateAnswers_normalize]
  refine (congrArg (Option.bind · _) iterated).trans ?_
  rw [Option.bind_some,← normalizeAll_erase,jsonlRecords_all same,normalizeAll_erase]
  rfl

theorem tailer_said (a : Adapter ω τ ξ) (session : Session) (fallback : Nat → String) (m : Memory τ) (opens : f.opens = true) (same : r.bounds.maxLineBytes = 1024 * 1024)
    (spoken : ∀ line ∈ Lines.lines newline f.content, Spoken r.loads ((Transcript.jsonl f.content).budget limit) line) :
    ∃ enough, ∀ n ≥ enough, tailerPolls a session fallback r f n (initializeFollower r.bounds true (some f)) m 0 =
      some (kept (eventAt a session fallback) (verdicts a session m 0 (recordsOf r f.content))) := by
  have shows : Shows r f.identity (some f) := by
    intro g found
    cases found
    refine ⟨rfl,opens,fun line inside short => ?_⟩
    rw [same] at short
    exact spoken line inside short
  obtain ⟨enough,out,whole,drained⟩ := polls_drain (initialize_start r f) f shows List.nil_prefix
  refine ⟨enough,fun n high => ?_⟩
  rw [tailerPolls_publish,drained n high,Option.map_some,publish_verdicts]
  have out_exact : out = recordsOf r f.content := by
    simpa [recordsSince,recordsOf,Lines.lines,Lines.feed] using whole
  rw [out_exact]

theorem pages_answer (some' : 0 < limit) (same : r.bounds.maxLineBytes = 1024 * 1024)
    (paged : iterateAnswers a.toAdapter session fallback limit
      (pageAt r ((Transcript.jsonl f.content).budget limit) jsonlChunkBytes f.content) fuel m 0 0 0 = some events) :
    (∀ line ∈ Lines.lines newline (scanned f.content), Spoken r.loads ((Transcript.jsonl f.content).budget limit) line) ∧
      (normalizeAll a.toAdapter session fallback m 0 (recordsOf r (scanned f.content))).2 = some events := by
  rw [iterateAnswers_normalize] at paged
  obtain ⟨records,walked,normalized⟩ := Option.bind_eq_some_iff.mp paged
  have spoken : ∀ line ∈ Lines.lines newline (scanned f.content), Spoken r.loads ((Transcript.jsonl f.content).budget limit) line :=
    (iterate_spoken (budget_positive some' f.content) (show 0 < jsonlChunkBytes by decide) fuel 0 0 walked).mem
  obtain ⟨fuel',whole⟩ := pages_reach r (budget_positive some' f.content) (show 0 < jsonlChunkBytes by decide) spoken
  refine ⟨spoken,?_⟩
  rw [iterate_unique fuel fuel' 0 0 walked whole,← normalizeAll_erase,jsonlRecords_all same,normalizeAll_erase] at normalized
  exact normalized

theorem normalizeAll_quiet (a : Adapter ω τ ξ) (m : Memory τ) (records : List (Record ω)) :
    (normalizeAll a session fallback m 0 records).2 = some events ↔
      (∀ record ∈ records, raises a session record = false) ∧
      kept (eventAt a session fallback) (verdicts a session m 0 records) = events := by
  rw [normalizeAll_verdicts]
  by_cases loud : records.any (raises a session) = true
  · obtain ⟨record,inside,fails⟩ := List.any_eq_true.mp loud
    rw [if_pos loud]
    refine ⟨fun none' => (nomatch none'),fun all => ?_⟩
    rw [all.1 record inside] at fails
    cases fails
  · rw [if_neg loud,Option.some.injEq]
    refine ⟨fun equal => ⟨fun record inside => ?_,equal⟩,fun both => both.2⟩
    rw [List.any_eq_true] at loud
    exact Bool.eq_false_iff.mpr fun fails => loud ⟨record,inside,fails⟩

theorem agree_normal (some' : 0 < limit) (same : r.bounds.maxLineBytes = 1024 * 1024)
    (agree : EventsAgree a.toAdapter session fallback fallback' r limit f m m') :
    ∀ record ∈ recordsOf r (scanned f.content), raises a.toAdapter session record = false := by
  obtain ⟨fuel,_,events,paged,_⟩ := agree
  exact ((normalizeAll_quiet a.toAdapter m _).mp (pages_answer some' same paged).2).1

theorem judge_silent (a : Adapter ω τ ξ) (m : Memory τ) (silent : Silent a session record) :
    (judge a session m record).2.getD [] = [] := by
  unfold Silent at silent
  unfold judge
  cases read : a.contents session record with
  | none => rfl
  | some contents =>
    rw [read] at silent
    cases silent
    simp only [deduplicateContent]
    split
    · split <;> rfl
    · rfl

theorem verdicts_silent (a : Adapter ω τ ξ) (m : Memory τ) (turn : Nat) (records later : List (Record ω))
    (silent : ∀ record ∈ later, Silent a session record) :
    verdicts a session m turn (records ++ later) = verdicts a session m turn records := by
  induction records generalizing m turn with
  | cons record rest ih => rw [List.cons_append,verdicts,verdicts,ih]
  | nil =>
    induction later generalizing m turn with
    | nil => rfl
    | cons record rest ih =>
      have here := judge_silent a m (silent record List.mem_cons_self)
      have quiet := ih (fun r inside => silent r (List.mem_cons_of_mem _ inside)) (judge a session m record).1 (turn + 1)
      rw [List.nil_append] at quiet ⊢
      simp only [verdicts,here,quiet]
      rfl

theorem recordsOf_split (r : Reader (Record ω)) (content : Bytes) :
    recordsOf r content = recordsOf r (scanned content) ++ recordsSince r (scanned content) content := by
  have begun : Lines.lines newline _ <+: Lines.lines newline _ := Lines.lines_begin (List.take_prefix (64 * 1024 * 1024) content)
  obtain ⟨rest,whole⟩ := begun
  rw [recordsOf,recordsOf,recordsSince,scanned,← whole,List.drop_left,List.filterMap_append]

-- Every line is one that json.loads takes or declines, no record that a page reaches makes
-- the adapter raise, neither what the two adapters remember nor their clocks tell a kept
-- event of these apart, and nothing is read off the records that no page reaches.
structure AgreeWhen (a : Adapter ω τ ξ) (session : Session) (fallback fallback' : Nat → String) (r : Reader (Record ω)) (limit : Nat)
    (f : File) (m m' : Memory τ) : Prop where
  spoken : ∀ line ∈ Lines.lines newline f.content, Spoken r.loads ((Transcript.jsonl f.content).budget limit) line
  quiet : ∀ record ∈ recordsOf r (scanned f.content), raises a session record = false
  indifferent : Indifferent a session fallback fallback' m m' (recordsOf r (scanned f.content))
  reached : ∀ record ∈ recordsSince r (scanned f.content) f.content, Silent a session record

end Agree

def kimiJsonl : JsonlAdapter Wire Int Unit where
  toAdapter := kimi
  blind_moment := fun record => by simp [kimi,wireMoment,Dict.get_erase]
  blind_contents := fun session record => by simp [kimi,wireContents,Dict.get_erase]

theorem wireLoads_spoken (b : Budget) (line : Bytes) : Spoken wireLoads b line := by
  intro _ _
  unfold wireLoads
  split
  · simp
  · split <;> simp

def wireFile : File := ⟨1,promptLine ++ newline :: messageLine ++ [newline],true⟩

theorem wireFile_scanned : scanned wireFile.content = wireFile.content := List.take_of_length_le (by decide +kernel)

-- {"type":"turn.prompt","time":1000...0,"input":"hi"}, the time 10^309.
def hugeLine : Bytes :=
  [123,34,116,121,112,101,34,58,34,116,117,114,110,46,112,114,111,109,112,116,34,44,34,116,105,109,101,34,58,49] ++
    List.replicate 309 48 ++ [44,34,105,110,112,117,116,34,58,34,104,105,34,125]

def hugeLoads (line : Bytes) : Loaded (Record Wire) :=
  if line = hugeLine then .object (promptRecord (10 ^ 309)) else wireLoads line

def hugeFile : File := ⟨1,hugeLine ++ newline :: messageLine ++ [newline],true⟩

end AgentSideCar.Replay
