import AgentSideCar.Library.Gather
import AgentSideCar.Replay.Normalize
import AgentSideCar.Timeline.Arrival
import Mathlib.Data.Set.List

namespace AgentSideCar.Timeline
open Gather
open Replay (Adapter Content Event Memory Record Session eventAt normalizeAll normalizeAll_verdicts publish
  publish_verdicts stamp verdicts verdicts_stand)
variable {δ ε ω τ : Type}

def faceOf (event : Event (Option (Extra ε))) : SidecarEvent ε :=
  ⟨event.timestamp,event.kind,event.text,event.extra⟩

-- A copy of a transcript's event, as the replay or the live ring shows it: what the adapter
-- reads in that part of that line, and the time that this normalization gives a record
-- without a moment of its own.
structure Copy (a : Adapter ω τ (Option (Extra ε))) (session : Session) (records : List (Record ω)) where
  line : Nat
  part : Nat
  record : Record ω
  content : Content (Option (Extra ε))
  fallback : String
  stored : records[line]? = some record
  read : (a.contents session record).bind (·[part]?) = some content
  -- isoformat writes no NUL.
  clean : Char.ofNat 0 ∉ fallback.toList

section Copies
variable {a : Adapter ω τ (Option (Extra ε))} {session : Session} {records : List (Record ω)}

namespace Copy
variable (copy : Copy a session records)

def event : Nat × Nat := (copy.line,copy.part)
def face : SidecarEvent ε := faceOf (stamp a session copy.fallback copy.record copy.content)
def ts : String := (a.moment copy.record).getD copy.fallback
def seq : Option Int := copy.content.extra.bind (·.seq)

-- Its kind and its text on one line: two that read alike have both in common unless a kind holds a NUL.
def wording : List Char := copy.content.kind.toList ++ Char.ofNat 0 :: copy.content.text.toList

end Copy

def keyOf (copy : Copy a session records) : String := sidecarEventKey copy.face

-- The copies whose faces are fed to the merge.
def feed (copies : List (Copy a session records)) : List (Copy a session records) := copies.foldl (addKeyed keyOf) []

def facesOf (copies : List (Copy a session records)) : List (SidecarEvent ε) := copies.map (·.face)

theorem feed_faces (copies : List (Copy a session records)) : facesOf (feed copies) = (facesOf copies).foldl addSidecar [] :=
  foldl_addKeyed_map Copy.face copies

-- Each event is fed once, and no fed copy stands for a copy of another event.
structure EachOnce (copies fed : List (Copy a session records)) : Prop where
  once : (fed.map (·.event)).Nodup
  all : ∀ copy ∈ copies, copy.event ∈ fed.map (·.event)
  unmerged : ∀ copy ∈ copies, ∀ stands ∈ fed, keyOf stands = keyOf copy → stands.event = copy.event

-- Copies of one event without a seq are dated alike, by its record or by clocks that agree, and
-- those of two events differ in their seqs or in what they say, or, without a seq, in their dates.
structure Discerned (copies : List (Copy a session records)) : Prop where
  dated : ∀ one ∈ copies, ∀ other ∈ copies, one.event = other.event → one.seq = none → a.moment one.record = none →
    one.fallback = other.fallback
  apart : ∀ one ∈ copies, ∀ other ∈ copies, one.event ≠ other.event →
    one.seq ≠ other.seq ∨ one.wording ≠ other.wording ∨ one.seq = none ∧ one.ts ≠ other.ts

theorem same_reading (one other : Copy a session records) (same : one.event = other.event) :
    one.record = other.record ∧ one.content = other.content := by
  obtain ⟨line,part⟩ := Prod.mk.inj same
  have record : one.record = other.record := Option.some.inj (one.stored.symm.trans (line ▸ other.stored))
  exact ⟨record,Option.some.inj (one.read.symm.trans (record ▸ part ▸ other.read))⟩

theorem wording_iff (one other : Copy a session records) (plain : Char.ofNat 0 ∉ one.content.kind.toList)
    (plain' : Char.ofNat 0 ∉ other.content.kind.toList) :
    one.wording = other.wording ↔ one.content.kind = other.content.kind ∧ one.content.text = other.content.text := by
  constructor
  · intro same
    obtain ⟨kind,text⟩ := Digits.split_unique plain plain' same
    exact ⟨String.toList_injective kind,String.toList_injective text⟩
  · rintro ⟨kind,text⟩
    rw [Copy.wording,Copy.wording,kind,text]

theorem key_seq (copy : Copy a session records) (some' : copy.seq = some seq) : (keyOf copy).toList =
    's' :: ':' :: ((toString seq).toList ++ Char.ofNat 0 :: copy.wording) := by
  have read : seqOf copy.face = some seq := some'
  rw [keyOf,sidecarEventKey,read]
  simp [keySep,Copy.face,faceOf,stamp,Copy.wording]

theorem key_seqless (copy : Copy a session records) (seqless : copy.seq = none) : (keyOf copy).toList =
    't' :: ':' :: (copy.ts.toList ++ Char.ofNat 0 :: copy.wording) := by
  have read : seqOf copy.face = none := seqless
  rw [keyOf,sidecarEventKey,read]
  simp [keySep,Copy.face,faceOf,stamp,Copy.wording,Copy.ts]

theorem ts_clean (moments : ∀ record moment, a.moment record = some moment → Char.ofNat 0 ∉ moment.toList)
    (copy : Copy a session records) : Char.ofNat 0 ∉ copy.ts.toList := by
  rw [Copy.ts]
  cases found : a.moment copy.record with
  | none => exact copy.clean
  | some moment => exact moments copy.record moment found

theorem keys_iff (moments : ∀ record moment, a.moment record = some moment → Char.ofNat 0 ∉ moment.toList)
    (one other : Copy a session records) :
    keyOf one = keyOf other ↔ one.seq = other.seq ∧ one.wording = other.wording ∧ (one.seq = none → one.ts = other.ts) := by
  rw [← String.toList_inj]
  cases left : one.seq with
  | none =>
    rw [key_seqless one left]
    cases right : other.seq with
    | none =>
      rw [key_seqless other right]
      constructor
      · intro lists
        simp only [List.cons.injEq,true_and] at lists
        obtain ⟨ts,wording⟩ := Digits.split_unique (ts_clean moments one) (ts_clean moments other) lists
        exact ⟨rfl,wording,fun _ => String.toList_injective ts⟩
      · rintro ⟨_,wording,ts⟩
        rw [wording,ts rfl]
    | some q => simp [key_seq other right]
  | some p =>
    rw [key_seq one left]
    cases right : other.seq with
    | none => simp [key_seqless other right]
    | some q =>
      rw [key_seq other right]
      constructor
      · intro lists
        simp only [List.cons.injEq,true_and] at lists
        obtain ⟨seq,wording⟩ := Digits.split_unique (seq_no_sep p) (seq_no_sep q) lists
        rw [Digits.signed_injective seq]
        exact ⟨rfl,wording,nofun⟩
      · rintro ⟨seq,wording,_⟩
        rw [wording,Option.some.inj seq]

theorem discerned_iff (moments : ∀ record moment, a.moment record = some moment → Char.ofNat 0 ∉ moment.toList)
    (copies : List (Copy a session records)) :
    Discerned copies ↔ ∀ one ∈ copies, ∀ other ∈ copies, keyOf one = keyOf other ↔ one.event = other.event := by
  simp only [keys_iff moments]
  constructor
  · intro discerned one inone other inother
    constructor
    · rintro ⟨seq,wording,ts⟩
      by_contra different
      rcases discerned.apart one inone other inother different with seqs | wordings | ⟨seqless,dates⟩
      · exact seqs seq
      · exact wordings wording
      · exact dates (ts seqless)
    · intro same
      obtain ⟨record,content⟩ := same_reading one other same
      refine ⟨by rw [Copy.seq,Copy.seq,content],by rw [Copy.wording,Copy.wording,content],fun seqless => ?_⟩
      rw [Copy.ts,Copy.ts,← record]
      cases found : a.moment one.record with
      | none => exact discerned.dated one inone other inother same seqless found
      | some _ => rfl
  · intro tells
    refine ⟨fun one inone other inother same seqless undated => ?_,fun one inone other inother different => ?_⟩
    · have ts := ((tells one inone other inother).mpr same).2.2 seqless
      rw [Copy.ts,Copy.ts,← (same_reading one other same).1,undated] at ts
      exact ts
    · by_contra alike
      push Not at alike
      exact different ((tells one inone other inother).mp alike)

-- The feed of a timeline holds each event of its replay and its ring once, none merged with
-- another, exactly if the transcript and the clocks tell their copies apart.
theorem feed_each_once (i : TimelineInputs δ ε) (replayed ring : List (Copy a session records))
    (moments : ∀ record moment, a.moment record = some moment → Char.ofNat 0 ∉ moment.toList)
    (shown : i.sidecarReplay.value = facesOf replayed ∧ i.buffer = facesOf ring) :
    sidecarEventsOf i = facesOf (feed (replayed ++ ring)) ∧
      (EachOnce (replayed ++ ring) (feed (replayed ++ ring)) ↔ Discerned (replayed ++ ring)) := by
  constructor
  · rw [feed_faces,sidecarEventsOf,shown.1,shown.2,facesOf,facesOf,facesOf,List.map_append]
  · rw [discerned_iff moments,← (foldl_addKeyed keyOf (replayed ++ ring)).owners_iff]
    exact ⟨fun each => ⟨each.once,each.all,each.unmerged⟩,fun ⟨once,all,unmerged⟩ => ⟨once,all,unmerged⟩⟩

theorem verdicts_copies (m : Memory τ) (fallback : Nat → String) (clean : ∀ turn, Char.ofNat 0 ∉ (fallback turn).toList) :
    ∀ event ∈ Sieve.kept (eventAt a session fallback) (verdicts a session m 0 records),
      faceOf event ∈ Set.range fun copy : Copy a session records => copy.face := by
  intro event shown
  obtain ⟨entry,judged,kept⟩ := List.mem_filterMap.mp shown
  obtain ⟨line,part,_,stored,read⟩ := verdicts_stand a m 0 records entry judged
  refine ⟨⟨line,part,entry.1.record,entry.1.content,fallback entry.1.turn,stored,read,clean _⟩,?_⟩
  split at kept
  · cases kept
    rfl
  · cases kept

-- A replay of the transcript and the events published from it are made of such copies,
-- whichever of them a page or the ring still holds.
theorem shown_copies (m m' : Memory τ) (fallback fallback' : Nat → String) (clean : ∀ turn, Char.ofNat 0 ∉ (fallback turn).toList)
    (clean' : ∀ turn, Char.ofNat 0 ∉ (fallback' turn).toList) (shown : ∀ face ∈ faces,
      (∃ events, (normalizeAll a session fallback m 0 records).2 = some events ∧ face ∈ events.map faceOf) ∨
        face ∈ (publish a session fallback' m' 0 records).2.map faceOf) :
    ∃ copies : List (Copy a session records), faces = facesOf copies := by
  have range : faces ∈ {l | ∀ face ∈ l, face ∈ Set.range fun copy : Copy a session records => copy.face} := by
    intro face inside
    rcases shown face inside with ⟨events,replayed,there⟩ | there
    · rw [normalizeAll_verdicts] at replayed
      split at replayed
      · cases replayed
      · cases replayed
        obtain ⟨event,kept,rfl⟩ := List.mem_map.mp there
        exact verdicts_copies m fallback clean event kept
    · rw [publish_verdicts] at there
      obtain ⟨event,kept,rfl⟩ := List.mem_map.mp there
      exact verdicts_copies m' fallback' clean' event kept
  rw [← Set.range_list_map] at range
  obtain ⟨copies,same⟩ := range
  exact ⟨copies,same.symm⟩

end Copies

-- A transcript of plain records in the manner of Cursor, read where local time is UTC.
def isoChars : List Char := "0123456789-:T+".toList
def isoTime (text : String) : Option String := if text.toList.all (· ∈ isoChars) then some text else none

theorem isoTime_clean (timed : isoTime text = some moment) : Char.ofNat 0 ∉ moment.toList := by
  unfold isoTime at timed
  split at timed
  · rename_i plain
    cases timed
    intro inside
    have := List.all_eq_true.mp plain _ inside
    revert this
    decide
  · cases timed

def textOf (record : Record String) (field : String) : Option String :=
  match record.get field with
  | some (.other text) => some text
  | _ => none

def plainAdapter : Adapter String Int (Option (Extra Unit)) where
  mirrored := []
  nativeType := fun _ => ""
  moment := fun record => (textOf record "timestamp").bind isoTime
  contents := fun _ record => some [⟨(textOf record "role").getD "text",(textOf record "content").getD "",none⟩]
  seconds := fun _ => none
  near := fun _ _ => false

def plainSession : Session := ⟨"cursor","session"⟩

def reply (ts : String) : Record String :=
  ((Dict.empty.set "role" (.other "assistant")).set "timestamp" (.other ts)).set "content" (.other "ok")

def replyCopy {records : List (Record String)} (line : Nat) (fallback : String) (stored : line < records.length)
    (timed : isoTime fallback = some fallback) : Copy plainAdapter plainSession records :=
  ⟨line,0,records[line],_,fallback,List.getElem?_eq_getElem stored,rfl,isoTime_clean timed⟩

def inputsOf {records : List (Record String)} (replayed ring : List (Copy plainAdapter plainSession records)) :
    TimelineInputs Unit Unit :=
  ⟨.unwired,.unwired,.answered (facesOf replayed),facesOf ring⟩

def twoReplies : List (Record String) := [reply "2026-01-05T10:00:00+00:00",reply "2026-01-05T10:00:01+00:00"]

def firstReplayed : Copy plainAdapter plainSession twoReplies := replyCopy 0 "2026-01-05T10:00:07+00:00" (by decide) (by decide +kernel)
def firstHeard : Copy plainAdapter plainSession twoReplies := replyCopy 0 "2026-01-05T10:00:02+00:00" (by decide) (by decide +kernel)
def secondHeard : Copy plainAdapter plainSession twoReplies := replyCopy 1 "2026-01-05T10:00:02+00:00" (by decide) (by decide +kernel)

-- One event seen through both, at different times, and one that only the ring has yet.
theorem seen_twice_fed_once : EachOnce [firstReplayed,firstHeard,secondHeard] (feed [firstReplayed,firstHeard,secondHeard]) := by
  apply (feed_each_once (inputsOf [firstReplayed] [firstHeard,secondHeard]) [firstReplayed] [firstHeard,secondHeard] ?_
    ⟨rfl,rfl⟩).2.mpr
  · exact ⟨by decide +kernel,by decide +kernel⟩
  · intro record moment timed
    obtain ⟨text,_,timed⟩ := Option.bind_eq_some_iff.mp timed
    exact isoTime_clean timed

def oneSecond : List (Record String) := [reply "2026-01-05T10:00:00+00:00",reply "2026-01-05T10:00:00+00:00"]

def firstTwin : Copy plainAdapter plainSession oneSecond := replyCopy 0 "2026-01-05T10:00:07+00:00" (by decide) (by decide +kernel)
def secondTwin : Copy plainAdapter plainSession oneSecond := replyCopy 1 "2026-01-05T10:00:07+00:00" (by decide) (by decide +kernel)

-- Two replies of one second with the same text: the feed holds one of them.
theorem twin_replies_merged : ¬ EachOnce [firstTwin,secondTwin] (feed [firstTwin,secondTwin]) ∧
    (sidecarEventsOf (inputsOf [firstTwin,secondTwin] [])).length = 1 := by
  refine ⟨fun each => ?_,by decide +kernel⟩
  have missing : secondTwin.event ∉ (feed [firstTwin,secondTwin]).map (·.event) := by decide +kernel
  exact missing (each.all secondTwin (by simp))

end AgentSideCar.Timeline
