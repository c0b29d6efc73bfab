import AgentSideCar.Library.Sieve
import AgentSideCar.Replay.Parity
import Mathlib.Algebra.Group.Nat.Defs

namespace AgentSideCar.Replay
open Tail hiding kept
open Sieve
variable {ω τ ξ : Type}

structure Session where
  agent : String
  sessionId : String
  deriving DecidableEq

-- What an adapter reads off a record before it is told when and whose it is.
structure Content (ξ : Type) where
  kind : String
  text : String
  extra : ξ
  deriving DecidableEq

structure Event (ξ : Type) where
  timestamp : String
  agent : String
  sessionId : String
  kind : String
  text : String
  extra : ξ
  deriving DecidableEq

-- How one adapter reads records, alike at every call: None where its reading raises, and
-- where a record carries no moment that local_timestamp takes.
structure Adapter (ω τ ξ : Type) where
  mirrored : List String
  nativeType : Option (Value ω) → String
  moment : Record ω → Option String
  contents : Session → Record ω → Option (List (Content ξ))
  seconds : Value ω → Option τ
  near : τ → τ → Bool

-- The record types whose messages the Kimi adapter checks for mirrors; no other adapter keeps any.
def kimiMirrored : List String := ["turn.prompt","context.append_message","context.append_loop_event"]

structure Remembered (τ : Type) where
  text : String
  source : String
  time : τ
  deriving DecidableEq

-- The adapter's _recent_content, by session id and event kind, in insertion order.
abbrev Memory (τ : Type) := Dict (String × String) (Remembered τ)

def contentDedupKeys : Nat := 512

-- float() takes no integer that rounds to 2^1024 or more.
def overflows (n : Int) : Bool := decide (2 ^ 1024 - 2 ^ 970 ≤ n.natAbs)

section Adapters
variable (a : Adapter ω τ ξ) (session : Session)

def source (record : Record ω) : String := a.nativeType (record.get "type")

-- None where float raises an OverflowError; no time, and the time 0, are none inside.
def epochSeconds (value : Option (Value ω)) : Option (Option τ) :=
  match value with
  | none => some none
  | some (.int n) => if overflows n then none else some (a.seconds (.int n))
  | some (.other other) => some (a.seconds (.other other))

def duplicate (previous : Option (Remembered τ)) (text source : String) (time : τ) : Bool :=
  match previous with
  | none => false
  | some previous => decide (previous.text = text) && decide (previous.source ≠ source) &&
      (previous.source = "context.append_message" || source = "context.append_message") &&
      a.near previous.time time

-- The events of one record with the verdict on each: whether it is no mirror.
def sift (source : String) (time : τ) : Memory τ → List (Content ξ) → Memory τ × List (Content ξ × Bool)
  | m,[] => (m,[])
  | m,content :: rest =>
    if content.kind = "user" ∨ content.kind = "assistant" then
      let key := (session.sessionId,content.kind)
      let previous := m.get key
      let later := sift source time ((m.erase key).set key ⟨content.text,source,time⟩) rest
      (later.1,(content,!duplicate a previous content.text source time) :: later.2)
    else
      let later := sift source time m rest
      (later.1,(content,true) :: later.2)

def prune (m : Memory τ) : Memory τ :=
  ⟨m.entries.drop (m.size - contentDedupKeys),m.unique.sublist ((List.drop_sublist _ _).map _)⟩

def deduplicateContent (m : Memory τ) (record : Record ω) (contents : List (Content ξ)) :
    Memory τ × Option (List (Content ξ × Bool)) :=
  match epochSeconds a (record.get "time") with
  | none => (m,none)
  | some none => (prune m,some (contents.map (·,true)))
  | some (some time) =>
    let sifted := sift a session (source a record) time m contents
    (prune sifted.1,some sifted.2)

def judge (m : Memory τ) (record : Record ω) : Memory τ × Option (List (Content ξ × Bool)) :=
  match a.contents session record with
  | none => (m,none)
  | some contents =>
    if source a record ∈ a.mirrored then deduplicateContent a session m record contents
    else (m,some (contents.map (·,true)))

-- `fallback` is what local_timestamp makes of its fallback, the clock or the session's own time.
def stamp (fallback : String) (record : Record ω) (content : Content ξ) : Event ξ :=
  ⟨(a.moment record).getD fallback,session.agent,session.sessionId,content.kind,content.text,content.extra⟩

def normalize (m : Memory τ) (fallback : String) (record : Record ω) : Memory τ × Option (List (Event ξ)) :=
  let judged := judge a session m record
  (judged.1,judged.2.map (kept (stamp a session fallback record)))

-- The loop of a replay: one record that raises fails the whole page.
def normalizeAll (fallback : Nat → String) : Memory τ → Nat → List (Record ω) → Memory τ × Option (List (Event ξ))
  | m,_,[] => (m,some [])
  | m,turn,record :: rest =>
    match normalize a session m (fallback turn) record with
    | (after,none) => (after,none)
    | (after,some events) =>
      let later := normalizeAll fallback after (turn + 1) rest
      (later.1,later.2.map (events ++ ·))

-- The loop of a tailer: a record that raises is left out.
def publish (fallback : Nat → String) : Memory τ → Nat → List (Record ω) → Memory τ × List (Event ξ)
  | m,_,[] => (m,[])
  | m,turn,record :: rest =>
    let normalized := normalize a session m (fallback turn) record
    let later := publish fallback normalized.1 (turn + 1) rest
    (later.1,normalized.2.getD [] ++ later.2)

-- Whether normalizing a record raises, whatever the adapter remembers.
def raises (record : Record ω) : Bool :=
  (a.contents session record).isNone ||
    (decide (source a record ∈ a.mirrored) && (epochSeconds a (record.get "time")).isNone)

-- One event of a run, with the record it comes from and the turn of that record.
structure Said (ω ξ : Type) where
  turn : Nat
  record : Record ω
  content : Content ξ

-- The kind a message is checked under for mirrors, where it is.
def judgedAs (said : Said ω ξ) : Option String :=
  match epochSeconds a (said.record.get "time") with
  | some (some _) =>
    if source a said.record ∈ a.mirrored ∧ (said.content.kind = "user" ∨ said.content.kind = "assistant") then
      some said.content.kind
    else none
  | _ => none

def verdicts : Memory τ → Nat → List (Record ω) → List (Said ω ξ × Bool)
  | _,_,[] => []
  | m,turn,record :: rest =>
    let judged := judge a session m record
    (judged.2.getD []).map (fun entry => (⟨turn,record,entry.1⟩,entry.2)) ++ verdicts judged.1 (turn + 1) rest

def eventAt (fallback : Nat → String) (said : Said ω ξ) : Event ξ :=
  stamp a session (fallback said.turn) said.record said.content

end Adapters

variable {a : Adapter ω τ ξ} {session : Session} {m m' : Memory τ}

theorem prune_entries (m : Memory τ) : (prune m).entries = m.entries.drop (m.size - contentDedupKeys) := by
  simp only [prune]

theorem judge_raises (a : Adapter ω τ ξ) (session : Session) (m : Memory τ) (record : Record ω) :
    (judge a session m record).2 = none ↔ raises a session record = true := by
  rw [judge,raises]
  cases a.contents session record with
  | none => simp
  | some contents =>
    by_cases checked : source a record ∈ a.mirrored
    · simp only [if_pos checked,deduplicateContent]
      cases read : epochSeconds a (record.get "time") with
      | none => simp [checked]
      | some time => cases time <;> simp
    · simp [checked]

theorem kept_said (fallback : Nat → String) (turn : Nat) (record : Record ω) (entries : List (Content ξ × Bool)) :
    kept (eventAt a session fallback) (entries.map fun entry => (⟨turn,record,entry.1⟩,entry.2)) =
      kept (stamp a session (fallback turn) record) entries := by
  rw [kept,List.filterMap_map]
  rfl

theorem publish_verdicts (fallback : Nat → String) (m : Memory τ) (turn : Nat) (records : List (Record ω)) :
    (publish a session fallback m turn records).2 = kept (eventAt a session fallback) (verdicts a session m turn records) := by
  induction records generalizing m turn with
  | nil => rfl
  | cons record rest ih =>
    simp only [publish,verdicts,kept_append,kept_said,ih,normalize]
    cases (judge a session m record).2 <;> rfl

theorem normalizeAll_verdicts (fallback : Nat → String) (m : Memory τ) (turn : Nat) (records : List (Record ω)) :
    (normalizeAll a session fallback m turn records).2 =
      if records.any (raises a session) then none
      else some (kept (eventAt a session fallback) (verdicts a session m turn records)) := by
  induction records generalizing m turn with
  | nil => rfl
  | cons record rest ih =>
    simp only [normalizeAll,verdicts,kept_append,kept_said,normalize,List.any_cons]
    have here := judge_raises a session m record
    cases judged : judge a session m record with
    | mk after outcome =>
      rw [judged] at here
      cases outcome with
      | none => simp [here.mp rfl]
      | some entries =>
        have quiet : raises a session record = false := by
          cases raised : raises a session record with
          | false => rfl
          | true => cases here.mpr raised
        simp only [Option.map_some,ih,quiet,Bool.false_or]
        cases rest.any (raises a session) <;> rfl

theorem normalizeAll_append (fallback : Nat → String) (m : Memory τ) (turn : Nat) (records later : List (Record ω)) :
    (normalizeAll a session fallback m turn (records ++ later)).2 =
      (normalizeAll a session fallback m turn records).2.bind fun events =>
        (normalizeAll a session fallback (normalizeAll a session fallback m turn records).1 (turn + records.length) later).2.map
          (events ++ ·) := by
  induction records generalizing m turn with
  | nil => simp [normalizeAll]
  | cons record rest ih =>
    rw [List.cons_append,normalizeAll,normalizeAll]
    cases normalize a session m (fallback turn) record with
    | mk after outcome =>
      cases outcome with
      | none => rfl
      | some events =>
        simp only [ih,List.length_cons,Nat.add_assoc,Nat.add_comm 1]
        cases (normalizeAll a session fallback after (turn + 1) rest).2 with
        | none => rfl
        | some middle =>
          simp only [Option.map_some,Option.bind_some,Option.map_map]
          congr 1
          funext rest'
          simp

theorem publish_append (fallback : Nat → String) (m : Memory τ) (turn : Nat) (records later : List (Record ω)) :
    (publish a session fallback m turn (records ++ later)).2 = (publish a session fallback m turn records).2 ++
      (publish a session fallback (publish a session fallback m turn records).1 (turn + records.length) later).2 := by
  induction records generalizing m turn with
  | nil => rfl
  | cons record rest ih =>
    simp only [List.cons_append,publish,ih,List.length_cons,List.append_assoc,Nat.add_assoc,Nat.add_comm 1]

theorem sift_contents (a : Adapter ω τ ξ) (source : String) (time : τ) (m : Memory τ) (contents : List (Content ξ)) :
    (sift a session source time m contents).2.map (·.1) = contents := by
  induction contents generalizing m with
  | nil => rfl
  | cons content rest ih =>
    rw [sift]
    split
    · rw [List.map_cons,ih]
    · rw [List.map_cons,ih]

theorem judge_contents (a : Adapter ω τ ξ) (m : Memory τ) (record : Record ω)
    (judged : (judge a session m record).2 = some entries) : a.contents session record = some (entries.map (·.1)) := by
  rw [judge] at judged
  cases read : a.contents session record with
  | none => simp [read] at judged
  | some contents =>
    simp only [read] at judged
    split at judged
    · rw [deduplicateContent] at judged
      split at judged
      · cases judged
      · cases judged
        simp [Function.comp_def]
      · cases judged
        rw [sift_contents]
    · cases judged
      simp [Function.comp_def]

theorem verdicts_stand (a : Adapter ω τ ξ) (m : Memory τ) (turn : Nat) (records : List (Record ω)) :
    ∀ entry ∈ verdicts a session m turn records, ∃ line part : Nat, entry.1.turn = turn + line ∧
      records[line]? = some entry.1.record ∧ (a.contents session entry.1.record).bind (·[part]?) = some entry.1.content := by
  induction records generalizing m turn with
  | nil => simp [verdicts]
  | cons record rest ih =>
    intro entry told
    rcases List.mem_append.mp told with here | later
    · obtain ⟨⟨content,verdict⟩,inside,rfl⟩ := List.mem_map.mp here
      cases judged : (judge a session m record).2 with
      | none => simp [judged] at inside
      | some entries =>
        rw [judged,Option.getD_some] at inside
        obtain ⟨part,found⟩ := List.mem_iff_getElem?.mp (List.mem_map_of_mem (f := (·.1)) inside)
        refine ⟨0,part,rfl,rfl,?_⟩
        rw [judge_contents a m record judged]
        exact found
    · obtain ⟨line,part,turn',stored,read⟩ := ih _ _ entry later
      exact ⟨line + 1,part,by omega,stored,read⟩

end AgentSideCar.Replay
