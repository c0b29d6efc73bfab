import Mathlib.Data.List.Perm.Subperm
import AgentSideCar.Replay.Normalize

namespace AgentSideCar.Replay
open Tail hiding kept
open Sieve
variable {ω τ ξ : Type}
variable {a : Adapter ω τ ξ} {session : Session} {m m' : Memory τ}

-- What two memories share once one session's events of some kinds have gone through both:
-- their latest entries, which the pruning of the oldest never reaches.
structure Alike (session : Session) (touched : List String) (m m' : Memory τ) : Prop where
  shared : ∃ older older' recent, m.entries = older ++ recent ∧ m'.entries = older' ++ recent ∧
    (∀ entry ∈ recent, entry.1 = (session.sessionId,"user") ∨ entry.1 = (session.sessionId,"assistant")) ∧
    ∀ kind ∈ touched, (session.sessionId,kind) ∈ recent.map Prod.fst

theorem alike_start (session : Session) (m m' : Memory τ) : Alike session [] m m' :=
  ⟨m.entries,m'.entries,[],by simp,by simp,by simp,by simp⟩

theorem Alike.remembered (alike : Alike session touched m m') (before : kind ∈ touched) :
    m.get (session.sessionId,kind) = m'.get (session.sessionId,kind) := by
  obtain ⟨older,older',recent,left,right,_,seen⟩ := alike
  obtain ⟨entry,inside,named⟩ := List.mem_map.mp (seen kind before)
  obtain ⟨key,remembered⟩ := entry
  cases named
  rw [(Dict.get_iff m).mpr (by rw [left]; exact List.mem_append_right _ inside),
    (Dict.get_iff m').mpr (by rw [right]; exact List.mem_append_right _ inside)]

theorem erase_set_entries (m : Memory τ) (key : String × String) (entry : Remembered τ) :
    ((m.erase key).set key entry).entries = (m.entries.filter fun e => decide (e.1 ≠ key)) ++ [(key,entry)] := by
  rw [Dict.set_absent _ (by rw [Dict.get_erase,if_pos rfl])]
  rfl

theorem Alike.remember (alike : Alike session touched m m') (message : kind = "user" ∨ kind = "assistant") (entry : Remembered τ) :
    Alike session (kind :: touched) ((m.erase (session.sessionId,kind)).set (session.sessionId,kind) entry)
      ((m'.erase (session.sessionId,kind)).set (session.sessionId,kind) entry) := by
  obtain ⟨older,older',recent,left,right,own,seen⟩ := alike
  refine ⟨_,_,(recent.filter fun e => decide (e.1 ≠ (session.sessionId,kind))) ++ [((session.sessionId,kind),entry)],
    by rw [erase_set_entries,left,List.filter_append,List.append_assoc],
    by rw [erase_set_entries,right,List.filter_append,List.append_assoc],?_,?_⟩
  · intro e inside
    rcases List.mem_append.mp inside with old | new
    · exact own e (List.mem_of_mem_filter old)
    · rw [List.mem_singleton.mp new]
      rcases message with rfl | rfl <;> simp
  · intro other inside
    rw [List.map_append,List.mem_append]
    by_cases same : other = kind
    · subst same
      right
      simp
    · left
      obtain ⟨e,held,named⟩ := List.mem_map.mp (seen other ((List.mem_cons.mp inside).resolve_left same))
      apply List.mem_map.mpr ⟨e,List.mem_filter.mpr ⟨held,?_⟩,named⟩
      rw [named]
      simpa using same

theorem Alike.few (alike : Alike session touched m m') : ∃ older older' recent, m.entries = older ++ recent ∧ m'.entries = older' ++ recent ∧
    recent.length ≤ 2 ∧
    (∀ entry ∈ recent, entry.1 = (session.sessionId,"user") ∨ entry.1 = (session.sessionId,"assistant")) ∧
    ∀ kind ∈ touched, (session.sessionId,kind) ∈ recent.map Prod.fst := by
  obtain ⟨older,older',recent,left,right,own,seen⟩ := alike
  refine ⟨older,older',recent,left,right,?_,own,seen⟩
  have unique := m.unique
  rw [left,List.map_append] at unique
  have distinct := (List.nodup_append.mp unique).2.1
  have among : recent.map Prod.fst ⊆ [(session.sessionId,"user"),(session.sessionId,"assistant")] := by
    intro key inside
    obtain ⟨entry,held,rfl⟩ := List.mem_map.mp inside
    simpa using own entry held
  simpa using (List.Nodup.subperm distinct among).length_le

theorem Alike.prune (alike : Alike session touched m m') : Alike session touched (prune m) (prune m') := by
  obtain ⟨older,older',recent,left,right,few,own,seen⟩ := alike.few
  have cut : ∀ (d : Memory τ) older, d.entries = older ++ recent →
      (Replay.prune d).entries = older.drop (d.size - contentDedupKeys) ++ recent := by
    intro d older whole
    have reach : d.size - contentDedupKeys ≤ older.length := by
      simp only [Dict.size,whole,List.length_append,contentDedupKeys]
      omega
    rw [prune_entries,whole,List.drop_append_of_le_length reach]
  exact ⟨_,_,recent,cut m older left,cut m' older' right,own,seen⟩

section Sifting
variable {turn : Nat} {record : Record ω}

def said (turn : Nat) (record : Record ω) (entry : Content ξ × Bool) : Said ω ξ × Bool := (⟨turn,record,entry.1⟩,entry.2)

theorem sift_sieved (a : Adapter ω τ ξ) (turn : Nat) (timed : epochSeconds a (record.get "time") = some (some time)) (checked : source a record ∈ a.mirrored)
    (contents : List (Content ξ)) (alike : Alike session touched m m') (later : Memory τ → List (Said ω ξ × Bool))
    (continues : ∀ touched m m', Alike session touched m m' → Sieved (judgedAs a) touched (later m) (later m')) :
    Sieved (judgedAs a) touched
      ((sift a session (source a record) time m contents).2.map (said turn record) ++ later (sift a session (source a record) time m contents).1)
      ((sift a session (source a record) time m' contents).2.map (said turn record) ++ later (sift a session (source a record) time m' contents).1) := by
  induction contents generalizing m m' touched with
  | nil => exact continues touched m m' alike
  | cons content rest ih =>
    rw [sift,sift]
    by_cases message : content.kind = "user" ∨ content.kind = "assistant"
    · have judged : judgedAs a ⟨turn,record,content⟩ = some content.kind := by
        simp [judgedAs,timed,checked,message]
      simp only [if_pos message,List.map_cons,List.cons_append,said]
      refine .cons ?_ ?_
      · by_cases before : content.kind ∈ touched
        · rw [alike.remembered before]
          exact .inl rfl
        · exact .inr ⟨content.kind,judged,before⟩
      · rw [judged]
        exact ih (alike.remember message _)
    · have judged : judgedAs a ⟨turn,record,content⟩ = none := by
        simp [judgedAs,timed,message]
      simp only [if_neg message,List.map_cons,List.cons_append,said]
      refine .cons (.inl rfl) ?_
      rw [judged]
      exact ih alike

theorem passing_sieved (contents : List (Content ξ)) (free : ∀ content, judgedAs a ⟨turn,record,content⟩ = none)
    (rest : Sieved (judgedAs a) touched later later') :
    Sieved (judgedAs a) touched ((contents.map (·,true)).map (said turn record) ++ later)
      ((contents.map (·,true)).map (said turn record) ++ later') := by
  induction contents with
  | nil => exact rest
  | cons content others ih =>
    refine .cons (.inl rfl) ?_
    rw [free content]
    exact ih

end Sifting

-- Two runs over the same records, from any two memories, differ at most in the verdict on
-- the first message of each kind.
theorem verdicts_sieved (a : Adapter ω τ ξ) (turn : Nat) (records : List (Record ω)) (alike : Alike session touched m m') :
    Sieved (judgedAs a) touched (verdicts a session m turn records) (verdicts a session m' turn records) := by
  induction records generalizing m m' touched turn with
  | nil => exact .nil
  | cons record rest ih =>
    simp only [verdicts,judge]
    cases read : a.contents session record with
    | none => exact ih (turn + 1) alike
    | some contents =>
      by_cases checked : source a record ∈ a.mirrored
      · simp only [if_pos checked,deduplicateContent]
        cases timed : epochSeconds a (record.get "time") with
        | none => exact ih (turn + 1) alike
        | some time =>
          cases time with
          | none =>
            exact passing_sieved contents (fun content => by simp [judgedAs,timed]) (ih (turn + 1) alike.prune)
          | some time =>
            exact sift_sieved a turn timed checked contents alike (fun m => verdicts a session (prune m) (turn + 1) rest)
              fun touched m m' alike => ih (turn + 1) alike.prune
      · simp only [if_neg checked]
        refine passing_sieved contents (fun content => ?_) (ih (turn + 1) alike)
        simp only [judgedAs,if_neg (fun both : source a record ∈ a.mirrored ∧ _ => checked both.1)]
        split <;> rfl

section Answers
variable (a : Adapter ω τ ξ) (session : Session) (fallback fallback' : Nat → String)

-- One call of the shared adapter by an earlier replay or poll.
structure Call (ω : Type) where
  session : Session
  fallback : String
  record : Record ω

def remember (calls : List (Call ω)) : Memory τ :=
  calls.foldl (fun m call => (normalize a call.session m call.fallback call.record).1) .empty

-- The answer to a replay request, with what the adapter remembers after it; `turn` counts the
-- records normalized before. None for replay_failed.
def answer (limit : Nat) (m : Memory τ) (turn : Nat) (afterSeq : Int) (replay : Option (ReplayPage (Record ω))) :
    Memory τ × Option (ReplayResponse (Event ξ)) :=
  match replay with
  | none => (m,none)
  | some page =>
    let normalized := normalizeAll a session fallback m turn page.records
    (normalized.1,normalized.2.map fun events => {
      afterSeq := afterSeq
      events := events
      lastSeq := lastSeqOf page.records
      truncated := decide (limit ≤ page.records.length) || (!page.exhausted && (lastSeqOf page.records).isSome)})

-- The events of a paged replay, whose pages the one adapter normalizes one after another.
def iterateAnswers (limit : Nat) (replayAt : Nat → Int → Option (ReplayPage (Record ω))) :
    Nat → Memory τ → Nat → Nat → Int → Option (List (Event ξ))
  | 0,_,_,_,_ => none
  | fuel+1,m,turn,page,afterSeq =>
    let replay := replayAt page afterSeq
    match answer a session fallback limit m turn afterSeq replay with
    | (_,none) => none
    | (after,some response) =>
      if response.truncated then
        (iterateAnswers limit replayAt fuel after (turn + replay.elim 0 (·.records.length)) (page + 1)
          (response.lastSeq.getD afterSeq)).map (response.events ++ ·)
      else some response.events

-- Two memories that judge the first message of each kind alike, and two clocks that read
-- alike wherever an event that is kept has no moment of its own.
def Indifferent (m m' : Memory τ) (records : List (Record ω)) : Prop :=
  (∀ kind, first (judgedAs a) kind (verdicts a session m 0 records) = first (judgedAs a) kind (verdicts a session m' 0 records)) ∧
  ∀ entry, (entry,true) ∈ verdicts a session m 0 records → a.moment entry.record = none →
    fallback entry.turn = fallback' entry.turn

end Answers

variable {fallback fallback' : Nat → String}

theorem eventAt_same (entry : Said ω ξ) : eventAt a session fallback entry = eventAt a session fallback' entry ↔
    (a.moment entry.record = none → fallback entry.turn = fallback' entry.turn) := by
  simp only [eventAt,stamp,Event.mk.injEq,and_true]
  cases a.moment entry.record with
  | none => simp
  | some moment => simp

theorem judgedAs_kind (judged : judgedAs a entry = some kind) : entry.content.kind = kind := by
  unfold judgedAs at judged
  split at judged
  · split at judged <;> cases judged
    rfl
  · cases judged

theorem kept_indifferent (m m' : Memory τ) (records : List (Record ω)) :
    kept (eventAt a session fallback) (verdicts a session m 0 records) =
      kept (eventAt a session fallback') (verdicts a session m' 0 records) ↔
    Indifferent a session fallback fallback' m m' records := by
  have named : ∀ (entry : Said ω ξ) kind, judgedAs a entry = some kind →
      (eventAt a session fallback entry).kind = kind ∧ (eventAt a session fallback' entry).kind = kind :=
    fun entry kind judged => ⟨judgedAs_kind judged,judgedAs_kind judged⟩
  rw [Sieved.kept_iff (f := eventAt a session fallback) (g := eventAt a session fallback')
    (verdicts_sieved a 0 records (alike_start session m m')) named fun entry => rfl]
  simp only [Indifferent,eventAt_same]

theorem normalizeAll_indifferent (m m' : Memory τ) (records : List (Record ω)) :
    (normalizeAll a session fallback m 0 records).2 = (normalizeAll a session fallback' m' 0 records).2 ↔
      (∃ record ∈ records, raises a session record = true) ∨ Indifferent a session fallback fallback' m m' records := by
  rw [normalizeAll_verdicts,normalizeAll_verdicts,← kept_indifferent]
  by_cases fails : records.any (raises a session) = true
  · simp only [if_pos fails,true_iff]
    exact .inl (List.any_eq_true.mp fails)
  · simp only [if_neg fails,Option.some.injEq]
    rw [List.any_eq_true] at fails
    exact (or_iff_right fails).symm

theorem answer_same (limit : Nat) (m m' : Memory τ) (afterSeq : Int) (page : ReplayPage (Record ω)) :
    (answer a session fallback limit m 0 afterSeq (some page)).2 = (answer a session fallback' limit m' 0 afterSeq (some page)).2 ↔
      (normalizeAll a session fallback m 0 page.records).2 = (normalizeAll a session fallback' m' 0 page.records).2 := by
  simp only [answer]
  constructor
  · intro same
    have events := congrArg (Option.map (·.events)) same
    simpa [Option.map_map,Function.comp_def] using events
  · intro same
    rw [same]

theorem iterateAnswers_normalize (limit : Nat) (replayAt : Nat → Int → Option (ReplayPage (Record ω))) (fuel : Nat) (m : Memory τ)
    (turn page : Nat) (afterSeq : Int) : iterateAnswers a session fallback limit replayAt fuel m turn page afterSeq =
      (iterate (respond (fun record => some [record]) limit replayAt) fuel page afterSeq).bind fun records =>
        (normalizeAll a session fallback m turn records).2 := by
  induction fuel generalizing m turn page afterSeq with
  | zero => rfl
  | succ fuel ih =>
    rw [iterateAnswers,iterate,respond_single]
    cases replayAt page afterSeq with
    | none => rfl
    | some replayed =>
      simp only [answer,Option.map_some,Option.bind_some,Option.elim_some]
      generalize stopped : (decide (limit ≤ replayed.records.length) ||
        (!replayed.exhausted && (lastSeqOf replayed.records).isSome)) = more
      generalize rest : iterate (respond (fun record => some [record]) limit replayAt) fuel (page + 1)
        ((lastSeqOf replayed.records).getD afterSeq) = later
      cases normalized : normalizeAll a session fallback m turn replayed.records with
      | mk after outcome =>
        cases outcome with
        | none =>
          cases more with
          | false => simp [normalized]
          | true => cases later <;> simp [normalizeAll_append,normalized]
        | some events =>
          cases more with
          | false => simp [normalized]
          | true =>
            simp only [Option.map_some,if_true,ih,rest]
            cases later with
            | none => rfl
            | some records => simp [normalizeAll_append,normalized]

theorem iterate_more {respond : Nat → Int → Option (ReplayResponse ε)} (fuel turn : Nat) (cursor : Int)
    (ended : iterate respond fuel turn cursor = some out) (more : Nat) (high : fuel ≤ more) :
    iterate respond more turn cursor = some out := by
  induction fuel generalizing more turn cursor out with
  | zero => cases ended
  | succ fuel ih =>
    obtain ⟨more,rfl⟩ := Nat.exists_eq_add_one.mpr (show 0 < more by omega)
    rw [iterate] at ended ⊢
    cases answer : respond turn cursor with
    | none => rw [answer] at ended; cases ended
    | some response =>
      rw [answer,Option.bind_some] at ended
      rw [Option.bind_some]
      split
      · rename_i on
        rw [if_pos on] at ended
        obtain ⟨later,next,rfl⟩ := Option.map_eq_some_iff.mp ended
        rw [ih _ _ next more (by omega)]
        rfl
      · rename_i off
        rwa [if_neg off] at ended

section Whole
variable {loads : Bytes → Loaded (Record ω)} {b : Budget}

theorem Quiet.spoken {select : Nat → Bytes → Selected (Record ω)} {lines : List Bytes} {ordinal : Nat}
    (loud : ∀ n line, line.length ≤ b.maxLineBytes → line.all isSpace = false → loads line = .raises → select (n + 1) line = .raises)
    (quiet : Quiet b select lines ordinal) : ∀ line ∈ lines, Spoken loads b line := by
  induction lines generalizing ordinal with
  | nil => intro line inside; cases inside
  | cons first rest ih =>
    intro line inside
    rcases List.mem_cons.mp inside with rfl | later
    · exact fun short plain raised => quiet.1 short (loud ordinal line short plain raised)
    · exact ih quiet.2 line later

theorem replay_spoken (limit : Nat) (some' : 0 < limit) (t : Transcript) (look : Look) (present : look.present = true)
    (replayed : replay loads limit t look 0 = some page) (whole : page.exhausted = true) :
    ∀ row ∈ t.rows, Spoken loads (t.budget limit) row := by
  cases t with
  | jsonl content =>
    obtain ⟨seen,eof,_,_,ended,_,scanned⟩ := replayJsonl_rows loads look.expired content 0
      (b := (Transcript.jsonl content).budget limit) ⟨some',by simp [Transcript.budget]⟩ (show 0 < jsonlChunkBytes by decide)
    rw [replay,if_pos present,scanned] at replayed
    cases taken : takeLines ((Transcript.jsonl content).budget limit) (jsonlSelect loads (0 : Int).toNat) (Lines.lines newline seen) 0 {} with
    | raised =>
      rw [taken] at replayed
      cases replayed
    | full records =>
      simp only [taken,Option.some.injEq] at replayed
      subst replayed
      cases whole
    | going taking =>
      simp only [taken,Option.some.injEq] at replayed
      subst replayed
      have quiet := not_imp_comm.mp (fun loud => takeLines_raises _ 0 {} loud taking) (not_not.mpr taken)
      rw [ended whole] at quiet
      exact quiet.spoken fun n line _ plain raised => by simp [jsonlSelect,plain,raised]
  | dsh stream =>
    obtain ⟨seen,eof,_,ended,_,scanned⟩ := replayDsh_rows loads look.turns stream (some 0)
      (b := (Transcript.dsh stream).budget limit) ⟨some',by simp [Transcript.budget]⟩
    rw [replay,if_pos present,scanned] at replayed
    cases taken : takeLines ((Transcript.dsh stream).budget limit) (dshSelect loads ((Transcript.dsh stream).budget limit) (some 0)) (rowsRead seen eof) 0 {} with
    | raised =>
      rw [taken] at replayed
      cases replayed
    | full records =>
      simp only [taken,Option.some.injEq] at replayed
      subst replayed
      cases whole
    | going taking =>
      simp only [taken,Option.some.injEq] at replayed
      subst replayed
      have quiet := not_imp_comm.mp (fun loud => takeLines_raises _ 0 {} loud taking) (not_not.mpr taken)
      simp only at whole
      rw [whole,ended whole] at quiet
      exact quiet.spoken fun n line short plain raised => by simp [dshSelect,plain,raised,Nat.not_lt.mpr short]

theorem selected_budget {select : Nat → Bytes → Selected ρ} {b c : Budget} (same : b.maxLineBytes = c.maxLineBytes) (lines : List Bytes) (ordinal : Nat) :
    selected b select lines ordinal = selected c select lines ordinal := by
  induction lines generalizing ordinal with
  | nil => rfl
  | cons line rest ih => rw [selected,selected,same,ih (ordinal + 1)]

theorem retained_limit (loads : Bytes → Loaded (Record ω)) (limit other : Nat) (t : Transcript) :
    retained loads limit t = retained loads other t := by
  cases t with
  | jsonl content =>
    rw [retained,retained,jsonlRecords,jsonlRecords,jsonlRows,jsonlRows,
      selected_budget (show ((Transcript.jsonl content).budget limit).maxLineBytes = ((Transcript.jsonl content).budget other).maxLineBytes from rfl)]
    rfl
  | dsh stream =>
    rw [retained,retained,dshRecords,dshRecords,
      selected_budget (show ((Transcript.dsh stream).budget limit).maxLineBytes = ((Transcript.dsh stream).budget other).maxLineBytes from rfl)]
    rfl

end Whole

section Repeat
variable {loads : Bytes → Loaded (Record ω)}

theorem iterate_retained (limit : Nat) (some' : 0 < limit) (t : Transcript) (looks : Nat → Look) (reaches : ∀ turn, Reaches limit t (looks turn))
    (spoken : ∀ row ∈ t.rows, Spoken loads (t.budget limit) row)
    (increasing : (retained loads limit t).Pairwise fun x y => mark x < mark y) : ∃ enough, ∀ fuel ≥ enough,
      iterate (respond (fun record => some [record]) limit fun turn => replay loads limit t (looks turn)) fuel 0 0 =
        some (Cursor.after mark (retained loads limit t) 0) := by
  have replays : Replays (fun turn => replay loads limit t (looks turn)) (retained loads limit t)
      fun turn => Reaches limit t (looks turn) :=
    ⟨increasing,retained_carried limit t,fun turn cursor => replay_page limit some' t (looks turn) cursor spoken⟩
  obtain ⟨last,returned,iterated,_,_,all⟩ := replays_iterate (fun record => some [record]) some' replays
    (fun _ _ => rfl) 0
  refine ⟨last + 1,fun more high => ?_⟩
  rw [iterate_more (last + 1) 0 0 iterated more high,← all (reaches last)]
  exact congrArg some (List.flatMap_singleton' _)

-- Two answers to one request, after any two histories of the adapter, are the same exactly
-- if normalizing fails or nothing remembered and no clock tells them apart; so are a paged
-- replay and the one whose only page holds the whole transcript.
theorem answers_repeat (a : Adapter ω τ ξ) (session : Session) (limit : Nat) (some' : 0 < limit) (t : Transcript)
    (calls calls' : List (Call ω)) (fallback fallback' : Nat → String) :
    (∀ look afterSeq,
      (answer a session fallback limit (remember a calls) 0 afterSeq (replay loads limit t look afterSeq)).2 =
          (answer a session fallback' limit (remember a calls') 0 afterSeq (replay loads limit t look afterSeq)).2 ↔
        ∀ page, replay loads limit t look afterSeq = some page →
          (∃ record ∈ page.records, raises a session record = true) ∨
            Indifferent a session fallback fallback' (remember a calls) (remember a calls') page.records) ∧
    ∀ big (looks : Nat → Look) look single, 0 < big → (∀ turn, Reaches limit t (looks turn)) → Reaches big t look →
      ((retained loads limit t).Pairwise fun x y => mark x < mark y) →
      replay loads big t look 0 = some single → single.exhausted = true →
      ((∃ enough, ∀ fuel ≥ enough,
          iterateAnswers a session fallback limit (fun turn => replay loads limit t (looks turn)) fuel (remember a calls) 0 0 0 =
            (answer a session fallback' big (remember a calls') 0 0 (some single)).2.map (·.events)) ↔
        (∃ record ∈ single.records, raises a session record = true) ∨
          Indifferent a session fallback fallback' (remember a calls) (remember a calls') single.records) := by
  refine ⟨fun look afterSeq => ?_,fun big looks look single large reaches reached increasing replayed whole => ?_⟩
  · cases replayed : replay loads limit t look afterSeq with
    | none => simp [answer]
    | some page =>
      rw [answer_same,normalizeAll_indifferent]
      simp
  · have spoken := replay_spoken big large t look reached.1 replayed whole
    obtain ⟨page,served,_,all,_⟩ := replay_page big large t look 0 spoken
    cases replayed.symm.trans served
    have records := all reached whole
    have spoken' : ∀ row ∈ t.rows, Spoken loads (t.budget limit) row := by
      cases t <;> exact spoken
    obtain ⟨enough,iterated⟩ := iterate_retained limit some' t looks reaches spoken' increasing
    have paged : ∀ fuel ≥ enough, iterateAnswers a session fallback limit (fun turn => replay loads limit t (looks turn)) fuel
        (remember a calls) 0 0 0 = (normalizeAll a session fallback (remember a calls) 0 single.records).2 := by
      intro fuel high
      rw [iterateAnswers_normalize,iterated fuel high,records,retained_limit loads big limit]
      rfl
    have alone : (answer a session fallback' big (remember a calls') 0 0 (some single)).2.map (·.events) =
        (normalizeAll a session fallback' (remember a calls') 0 single.records).2 := by
      simp [answer,Option.map_map,Function.comp_def]
    rw [alone,← normalizeAll_indifferent]
    constructor
    · rintro ⟨from',equal⟩
      rw [← paged (max enough from') (by omega),equal (max enough from') (by omega)]
    · exact fun equal => ⟨enough,fun fuel high => (paged fuel high).trans equal⟩

end Repeat

section Kimi

-- The values of a wire record below: a text, or a message with its role and content.
inductive Wire where
  | text (value : String)
  | message (role content : String)
  deriving DecidableEq

def wireMoment (record : Record Wire) : Option String :=
  match record.get "time" with
  | some (.int 1700000000) => some "2023-11-14T22:13:20+00:00"
  | some (.int 1700000001) => some "2023-11-14T22:13:21+00:00"
  | _ => none

def wireContents (record : Record Wire) : List (Content Unit) :=
  match record.get "type",record.get "input",record.get "message" with
  | some (.other (.text "turn.prompt")),some (.other (.text text)),_ => [⟨"user",text,()⟩]
  | some (.other (.text "context.append_message")),_,some (.other (.message role content)) => [⟨role,content,()⟩]
  | _,_,_ => []

def wireType (value : Option (Value Wire)) : String :=
  match value with
  | some (.other (.text name)) => name
  | _ => ""

def wireSeconds (value : Value Wire) : Option Int :=
  match value with
  | .int n => if n = 0 then none else some n
  | .other _ => none

-- The Kimi adapter, as it reads the records below; times in seconds.
def kimi : Adapter Wire Int Unit where
  mirrored := kimiMirrored
  nativeType := wireType
  moment := wireMoment
  contents := fun _ record => some (wireContents record)
  seconds := wireSeconds
  near := fun one other => decide ((one - other).natAbs ≤ 1)

def promptRecord (time : Int) : Record Wire :=
  ((Dict.empty.set "type" (.other (.text "turn.prompt"))).set "time" (.int time)).set "input" (.other (.text "hi"))

def messageRecord : Record Wire :=
  ((Dict.empty.set "type" (.other (.text "context.append_message"))).set "time" (.int 1700000001)).set "message"
    (.other (.message "user" "hi"))

-- {"type":"turn.prompt","time":1700000000,"input":"hi"}
def promptLine : Bytes :=
  [123,34,116,121,112,101,34,58,34,116,117,114,110,46,112,114,111,109,112,116,34,44,34,116,105,109,101,34,58,
    49,55,48,48,48,48,48,48,48,48,44,34,105,110,112,117,116,34,58,34,104,105,34,125]

-- {"type":"context.append_message","time":1700000001,"message":{"role":"user","content":"hi"}}
def messageLine : Bytes :=
  [123,34,116,121,112,101,34,58,34,99,111,110,116,101,120,116,46,97,112,112,101,110,100,95,109,101,115,115,97,
    103,101,34,44,34,116,105,109,101,34,58,49,55,48,48,48,48,48,48,48,49,44,34,109,101,115,115,97,103,101,34,58,
    123,34,114,111,108,101,34,58,34,117,115,101,114,34,44,34,99,111,110,116,101,110,116,34,58,34,104,105,34,125,
    125]

def wireLoads (line : Bytes) : Loaded (Record Wire) :=
  if line = promptLine then .object (promptRecord 1700000000)
  else if line = messageLine then .object messageRecord
  else .other

def kimiSession : Session := ⟨"kimi","session"⟩

def wire : Transcript := .jsonl (promptLine ++ newline :: messageLine ++ [newline])

def firstReplay : List (Call Wire) :=
  [⟨kimiSession,"",attachSeq (promptRecord 1700000000) 1⟩,⟨kimiSession,"",attachSeq messageRecord 2⟩]

theorem wire_reached (limit : Nat) : Reaches limit wire promptLook := by
  have short : (promptLine ++ newline :: messageLine ++ [newline]).length < 64 * 1024 * 1024 := by decide +kernel
  exact ⟨rfl,fun _ => rfl,short⟩

-- Pages of one record each say what the only page of a larger limit says.
theorem paged_wire_repeats : ∃ enough, ∀ fuel ≥ enough,
    iterateAnswers kimi kimiSession (fun _ => "") 1 (fun _ => replay wireLoads 1 wire promptLook) fuel (remember kimi []) 0 0 0 =
      some [⟨"2023-11-14T22:13:20+00:00","kimi","session","user","hi",()⟩] := by
  obtain ⟨single,served⟩ := Option.isSome_iff_exists.mp
    (show (replay wireLoads 256 wire promptLook 0).isSome = true by decide +kernel)
  have whole : (replay wireLoads 256 wire promptLook 0).map (·.exhausted) = some true := by decide +kernel
  have alone : (answer kimi kimiSession (fun _ => "") 256 (remember kimi []) 0 0 (replay wireLoads 256 wire promptLook 0)).2.map
      (·.events) = some [⟨"2023-11-14T22:13:20+00:00","kimi","session","user","hi",()⟩] := by decide +kernel
  rw [served] at whole alone
  have paged := (answers_repeat kimi kimiSession 1 (by decide) wire [] [] (fun _ => "") (fun _ => "")).2 256 (fun _ => promptLook)
    promptLook single (by decide) (fun _ => wire_reached 1) (wire_reached 256) (jsonlRecords_sorted _ _ _) served
    (Option.some.inj whole)
  rw [alone] at paged
  exact paged.mpr (.inr ⟨fun _ => rfl,fun _ _ _ => rfl⟩)

-- The same request twice: the second answer takes the prompt for a mirror of the message
-- that the first one has left behind.
theorem second_replay_differs :
    (answer kimi kimiSession (fun _ => "") 256 (remember kimi []) 0 0 (replay wireLoads 256 wire promptLook 0)).2.map (·.events) =
        some [⟨"2023-11-14T22:13:20+00:00","kimi","session","user","hi",()⟩] ∧
      (answer kimi kimiSession (fun _ => "") 256 (remember kimi firstReplay) 0 0 (replay wireLoads 256 wire promptLook 0)).2.map (·.events) =
        some [] := by
  decide +kernel

end Kimi

end AgentSideCar.Replay
