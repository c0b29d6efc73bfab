import AgentSideCar.Replay.Daemon

namespace AgentSideCar.Replay
open Tail
variable {ω ρ : Type} {r : Reader ρ}

-- Polls of one unchanging file, with all the records they hand over; none if one raises.
def polls (r : Reader ρ) (f : File) : Nat → Follower ρ → Option (List ρ)
  | 0,_ => some []
  | n+1,s =>
    match poll r (some f) s with
    | (after,some records) => (polls r f n after).map (records ++ ·)
    | (_,none) => none

def remaining (f : File) (s : Follower ρ) : Nat := 2 * (f.content.length - s.offset) + s.records.length

theorem poll_moves (follows : Follows r identity start seen s out) (f : File) (shows : Shows r identity (some f))
    (begun : seen <+: f.content) : ∃ after records later, poll r (some f) s = (after,some records) ∧
      Follows r identity start later after (out ++ records) ∧ later <+: f.content ∧
      (remaining f after < remaining f s ∨ remaining f after = 0 ∧ remaining f s = 0 ∧ records = []) := by
  have offset := follows.offset
  by_cases idle : s.records = []
  · obtain ⟨rest,whole⟩ := begun
    obtain ⟨after,records,polled,next⟩ := poll_reads r follows idle f shows whole.symm
    refine ⟨after,records,_,polled,next,?_,?_⟩
    · rw [← whole]
      exact (List.prefix_append_right_inj _).mpr (List.take_prefix _ _)
    · have moved := next.offset
      have length := congrArg List.length whole
      have before := follows.exact
      rw [idle,List.append_nil] at before
      have exact' := next.exact
      rw [recordsSince_append r follows.begun,before,List.append_assoc,List.append_right_inj] at exact'
      have few := (congrArg List.length exact').trans_le ((List.length_filterMap_le _ _).trans (Lines.feed_count _ _))
      simp only [List.length_append,List.length_take] at moved length few
      have reads := r.bounds.reads
      simp only [remaining,idle,List.length_nil]
      by_cases ended : rest = []
      · subst ended
        simp only [List.length_nil,Nat.min_zero] at moved length few
        exact .inr ⟨by omega,by omega,List.eq_nil_of_length_eq_zero (by omega)⟩
      · have := List.length_pos_iff.mpr ended
        left
        omega
  · refine ⟨_,_,seen,by unfold poll; rw [if_pos idle]; rfl,pop_follows follows,begun,.inl ?_⟩
    have := List.length_pos_iff.mpr idle
    have := r.bounds.polls
    simp only [remaining,popRecords,List.length_drop]
    omega

theorem polls_idle (follows : Follows r identity start seen s out) (f : File) (shows : Shows r identity (some f))
    (begun : seen <+: f.content) (done : remaining f s = 0) (n : Nat) : polls r f n s = some [] := by
  induction n generalizing s seen out with
  | zero => rfl
  | succ n ih =>
    obtain ⟨after,records,later,polled,next,within,moved⟩ := poll_moves follows f shows begun
    rcases moved with less | ⟨still,_,none'⟩
    · omega
    · subst none'
      rw [polls,polled]
      simp only [ih next within still,Option.map_some,List.nil_append]

theorem polls_drain (follows : Follows r identity start seen s out) (f : File) (shows : Shows r identity (some f))
    (begun : seen <+: f.content) : ∃ enough rest, out ++ rest = recordsSince r start f.content ∧
      ∀ n ≥ enough, polls r f n s = some rest := by
  generalize left : remaining f s = size
  induction size using Nat.strong_induction_on generalizing s seen out with
  | _ size ih =>
    obtain ⟨after,records,later,polled,next,within,moved⟩ := poll_moves follows f shows begun
    rcases moved with less | ⟨_,done,_⟩
    · obtain ⟨enough,rest,whole,drained⟩ := ih _ (left ▸ less) next within rfl
      refine ⟨enough + 1,records ++ rest,by rw [← List.append_assoc,whole],fun n high => ?_⟩
      obtain ⟨n,rfl⟩ := Nat.exists_eq_add_one.mpr (show 0 < n by omega)
      rw [polls,polled]
      simp only [drained n (by omega),Option.map_some]
    · refine ⟨0,[],?_,fun n _ => polls_idle follows f shows begun done n⟩
      simp only [remaining] at done
      have read : seen = f.content := begun.eq_of_length_le (by have := follows.offset; omega)
      rw [List.append_nil,← read,← follows.exact,List.eq_nil_of_length_eq_zero (show s.records.length = 0 by omega),
        List.append_nil]

section Raising
variable {loads : Bytes → Loaded (Record ω)} {b : Budget}

-- The lines of some ordinals are ones that json.loads takes or declines.
def SpokenAt (loads : Bytes → Loaded (Record ω)) (b : Budget) (among : Int → Prop) : List Bytes → Nat → Prop
  | [],_ => True
  | line :: rest,ordinal => (among ((ordinal : Int) + 1) → Spoken loads b line) ∧ SpokenAt loads b among rest (ordinal + 1)

theorem SpokenAt.none {ordinal : Nat} {among : Int → Prop} (nowhere : ∀ n, (ordinal : Int) < n → ¬ among n) : SpokenAt loads b among lines ordinal := by
  induction lines generalizing ordinal with
  | nil => trivial
  | cons line rest ih => exact ⟨fun inside => absurd inside (nowhere _ (by omega)),ih fun n high => nowhere n (by omega)⟩

theorem SpokenAt.mono {ordinal : Nat} {among fewer : Int → Prop} (spoken : SpokenAt loads b among lines ordinal) (less : ∀ n, (ordinal : Int) < n → fewer n → among n) :
    SpokenAt loads b fewer lines ordinal := by
  induction lines generalizing ordinal with
  | nil => trivial
  | cons line rest ih =>
    refine ⟨fun inside => spoken.1 (less _ (by omega) inside),ih spoken.2 fun n high inside => less n (by omega) inside⟩

theorem SpokenAt.or (first : SpokenAt loads b one lines ordinal) (second : SpokenAt loads b other lines ordinal) :
    SpokenAt loads b (fun n => one n ∨ other n) lines ordinal := by
  induction lines generalizing ordinal with
  | nil => trivial
  | cons line rest ih => exact ⟨fun either => either.elim first.1 second.1,ih first.2 second.2⟩

theorem SpokenAt.mem (spoken : SpokenAt loads b (0 < ·) lines ordinal) : ∀ line ∈ lines, Spoken loads b line := by
  induction lines generalizing ordinal with
  | nil => intro line inside; cases inside
  | cons first rest ih =>
    intro line inside
    rcases List.mem_cons.mp inside with rfl | later
    · exact spoken.1 (by omega)
    · exact ih spoken.2 line later

-- A pass that goes on has met no line that raises, and a full page none up to its records.
def Heard (loads : Bytes → Loaded (Record ω)) (b : Budget) (cursor : Int) (lines : List Bytes) (ordinal : Nat)
    (s : Taking (Record ω)) : Progress (Record ω) (Taking (Record ω)) → Prop
  | .raised => True
  | .full records => ∀ record ∈ records, record ∈ s.records ∨
      SpokenAt loads b (fun n => cursor < n ∧ n ≤ mark record) lines ordinal
  | .going _ => SpokenAt loads b (cursor < ·) lines ordinal

theorem heard_cons {cursor : Int} {ordinal : Nat} {s t : Taking (Record ω)} {outcome}
    (here : cursor < (ordinal : Int) + 1 → Spoken loads b line) (kept : s.records = t.records)
    (heard : Heard loads b cursor rest (ordinal + 1) s outcome) : Heard loads b cursor (line :: rest) ordinal t outcome := by
  cases outcome with
  | raised => trivial
  | full records =>
    intro record inside
    rcases heard record inside with old | later
    · exact .inl (kept ▸ old)
    · exact .inr ⟨fun within => here within.1,later⟩
  | going after => exact ⟨here,heard⟩

theorem takeRecord_heard {ordinal : Nat} {cursor : Int} (raw : Bytes) (record : Record ω) (s : Taking (Record ω))
    (next : Taking (Record ω) → Progress (Record ω) (Taking (Record ω))) (same : mark record = (ordinal : Int) + 1)
    (here : Spoken loads b line) (heard : ∀ t, Heard loads b cursor rest (ordinal + 1) t (next t)) :
    Heard loads b cursor (line :: rest) ordinal s ((takeRecord b raw record s).bind next) := by
  have alone : SpokenAt loads b (fun n => cursor < n ∧ n ≤ mark record) (line :: rest) ordinal :=
    ⟨fun _ => here,.none fun n high within => by omega⟩
  unfold takeRecord
  split
  · split
    · exact heard_cons (fun _ => here) rfl (heard s)
    · exact fun r inside => .inl inside
  · simp only
    split
    · intro r inside
      rcases List.mem_append.mp inside with old | new
      · exact .inl old
      · cases List.mem_singleton.mp new
        exact .inr alone
    · have later := heard ⟨s.records ++ [record],s.retained + raw.length⟩
      simp only [Progress.bind]
      cases outcome : next ⟨s.records ++ [record],s.retained + raw.length⟩ with
      | raised => trivial
      | going t =>
        rw [outcome] at later
        exact ⟨fun _ => here,later⟩
      | full records =>
        rw [outcome] at later
        intro r inside
        rcases later r inside with held | spoken
        · rcases List.mem_append.mp held with old | new
          · exact .inl old
          · cases List.mem_singleton.mp new
            exact .inr alone
        · exact .inr ⟨fun _ => here,spoken⟩

theorem takeLines_heard (skipThrough : Nat) (lines : List Bytes) (ordinal : Nat) (s : Taking (Record ω)) :
    Heard loads b skipThrough lines ordinal s (takeLines b (jsonlSelect loads skipThrough) lines ordinal s) := by
  induction lines generalizing ordinal s with
  | nil => trivial
  | cons line rest ih =>
    rw [takeLines]
    split
    · exact heard_cons (fun _ short => by omega) rfl (ih (ordinal + 1) s)
    · rw [consume]
      cases chosen : jsonlSelect loads skipThrough (ordinal + 1) line with
      | raises => trivial
      | skip =>
        refine heard_cons (fun above _ plain => ?_) rfl (ih (ordinal + 1) s)
        unfold jsonlSelect at chosen
        rw [plain,Bool.or_false,if_neg (by simp; omega)] at chosen
        intro raises
        rw [raises] at chosen
        cases chosen
      | take record =>
        refine takeRecord_heard line record s _ (jsonlSelect_take chosen) (fun _ plain => ?_) (ih (ordinal + 1))
        unfold jsonlSelect at chosen
        split at chosen
        · cases chosen
        · intro raises
          rw [raises] at chosen
          cases chosen

theorem takeRecord_full {P : Record ω → Prop} {s : Taking (Record ω)} {next : Taking (Record ω) → Progress (Record ω) (Taking (Record ω))}
    (holds : ∀ record ∈ s.records, P record) (here : P record)
    (later : ∀ t records, (∀ record ∈ t.records, P record) → next t = .full records → records ≠ [] ∧ ∀ record ∈ records, P record)
    (full : (takeRecord b raw record s).bind next = .full records) : records ≠ [] ∧ ∀ record ∈ records, P record := by
  have grown : ∀ r ∈ s.records ++ [record], P r := by
    intro r inside
    rcases List.mem_append.mp inside with old | new
    · exact holds r old
    · rw [List.mem_singleton.mp new]
      exact here
  unfold takeRecord at full
  split at full
  · split at full
    · exact later s records holds full
    · rename_i some'
      cases full
      exact ⟨some',holds⟩
  · simp only at full
    split at full
    · cases full
      exact ⟨by simp,grown⟩
    · exact later _ records grown full

theorem takeLines_full (lines : List Bytes) (ordinal : Nat) (s : Taking (Record ω)) (carried : ∀ record ∈ s.records, (seqOf record).isSome)
    (full : takeLines b (jsonlSelect loads skipThrough) lines ordinal s = .full records) :
    records ≠ [] ∧ ∀ record ∈ records, (seqOf record).isSome := by
  induction lines generalizing ordinal s records with
  | nil => cases full
  | cons line rest ih =>
    rw [takeLines] at full
    split at full
    · exact ih (ordinal + 1) s carried full
    · rw [consume] at full
      cases chosen : jsonlSelect loads skipThrough (ordinal + 1) line with
      | raises => rw [chosen] at full; cases full
      | skip =>
        rw [chosen] at full
        exact ih (ordinal + 1) s carried full
      | take record =>
        rw [chosen] at full
        apply takeRecord_full carried ?_ (fun t records held later => ih (ordinal + 1) t held later) full
        unfold jsonlSelect at chosen
        split at chosen
        · cases chosen
        · split at chosen <;> cases chosen
          rw [seqOf_attach]
          rfl

end Raising

theorem lastSeqOf_cases (records : List (Record ω)) :
    (lastSeqOf records = none ∧ ∀ record ∈ records, seqOf record = none) ∨
      ∃ record ∈ records, ∃ seq, seqOf record = some seq ∧ lastSeqOf records = some seq := by
  induction records using List.reverseRecOn with
  | nil => exact .inl ⟨rfl,fun record inside => by cases inside⟩
  | append_singleton rest record ih =>
    rw [lastSeqOf_snoc]
    rcases ih with ⟨last,none'⟩ | ⟨first,inside,seq,found,last⟩
    · cases here : seqOf record with
      | none =>
        refine .inl ⟨last,fun r inside => ?_⟩
        rcases List.mem_append.mp inside with old | new
        · exact none' r old
        · rw [List.mem_singleton.mp new,here]
      | some seq => exact .inr ⟨record,by simp,seq,here,by simp [last]⟩
    · refine .inr ?_
      cases here : seqOf record with
      | none => exact ⟨first,by simp [inside],seq,found,last⟩
      | some own =>
        simp only
        split
        · exact ⟨record,by simp,own,here,rfl⟩
        · exact ⟨first,by simp [inside],seq,found,last⟩

section Pages
variable (r : Reader (Record ω)) (b : Budget) (chunkBytes : Nat) (content : Bytes)

-- The pages of one unchanging file, asked for within the time a page may take.
def pageAt (_turn : Nat) (cursor : Int) : Option (ReplayPage (Record ω)) :=
  replayJsonlEvents r.loads b chunkBytes (some content) (fun _ => false) (some cursor)

def pages (fuel : Nat) : Option (List (Record ω)) :=
  iterate (respond (fun record => some [record]) b.maxRecords (pageAt r b chunkBytes content)) fuel 0 0

end Pages

variable {b : Budget} {chunkBytes : Nat} {content : Bytes}

theorem mapM_single (records : List ρ) : records.mapM (fun record => some [record]) = some (records.map ([·])) := by
  induction records with
  | nil => rfl
  | cons record rest ih =>
    rw [List.mapM_cons,ih]
    rfl

theorem respond_single (limit : Nat) (replayAt : Nat → Int → Option (ReplayPage (Record ω))) (turn : Nat) (cursor : Int) :
    respond (fun record => some [record]) limit replayAt turn cursor = (replayAt turn cursor).map fun page => {
      afterSeq := cursor
      events := page.records
      lastSeq := lastSeqOf page.records
      truncated := decide (limit ≤ page.records.length) || (!page.exhausted && (lastSeqOf page.records).isSome)} := by
  rw [respond,replayResponse]
  cases replayAt turn cursor with
  | none => rfl
  | some page =>
    rw [Option.bind_some,mapM_single]
    simp [← List.flatMap_def]

theorem iterate_spoken {r : Reader (Record ω)} (positive : 0 < b.maxRecords ∧ 0 < b.maxScanBytes ∧ 0 < b.maxRetainedBytes ∧ 0 < b.maxLineBytes)
    (chunked : 0 < chunkBytes) (fuel turn : Nat) (cursor : Int)
    (ended : iterate (respond (fun record => some [record]) b.maxRecords (pageAt r b chunkBytes content)) fuel turn cursor =
      some out) :
    SpokenAt r.loads b ((cursor.toNat : Int) < ·) (Lines.lines newline (content.take b.maxScanBytes)) 0 := by
  induction fuel generalizing turn cursor out with
  | zero => cases ended
  | succ fuel ih =>
    have scanned := replayJsonl_reads r.loads (fun _ => false) (fun _ => rfl) content cursor positive chunked
    rw [iterate,respond_single,pageAt,scanned] at ended
    generalize content.take b.maxScanBytes = seen at ended ih ⊢
    have heard : Heard r.loads b _ _ 0 {} _ := takeLines_heard cursor.toNat (Lines.lines newline seen) 0 {}
    cases taken : takeLines b (jsonlSelect r.loads cursor.toNat) (Lines.lines newline seen) 0 {} with
    | raised => simp [taken] at ended
    | going taking =>
      rw [taken] at heard
      exact heard
    | full records =>
      rw [taken] at heard
      obtain ⟨some',carried⟩ := takeLines_full (Lines.lines newline seen) 0 {} (by simp) taken
      simp only [taken,Option.map_some,Option.bind_some,Bool.not_false,Bool.true_and] at ended
      rcases lastSeqOf_cases records with ⟨_,none'⟩ | ⟨record,inside,seq,found,last⟩
      · obtain ⟨first,rest,rfl⟩ := List.exists_cons_of_ne_nil some'
        have := carried first List.mem_cons_self
        rw [none' first List.mem_cons_self] at this
        cases this
      · rw [last] at ended
        simp only [Option.isSome_some,Bool.or_true,if_true,Option.map_eq_some_iff,Option.getD_some] at ended
        obtain ⟨later,next,_⟩ := ended
        have early := (heard record inside).resolve_left (by simp)
        have marked : mark record = seq := by rw [mark,found]; rfl
        refine (early.or (ih _ _ next)).mono fun n positive above => ?_
        rw [marked]
        omega

theorem iterate_unique {respond : Nat → Int → Option (ReplayResponse ε)} (fuel other turn : Nat) (cursor : Int)
    (first : iterate respond fuel turn cursor = some out) (second : iterate respond other turn cursor = some out') :
    out = out' := by
  induction fuel generalizing other turn cursor out out' with
  | zero => cases first
  | succ fuel ih =>
    cases other with
    | zero => cases second
    | succ other =>
      rw [iterate] at first second
      cases answer : respond turn cursor with
      | none => rw [answer] at first; cases first
      | some response =>
        rw [answer,Option.bind_some] at first second
        split at first
        · rename_i more
          rw [if_pos more] at second
          obtain ⟨later,next,rfl⟩ := Option.map_eq_some_iff.mp first
          obtain ⟨later',next',rfl⟩ := Option.map_eq_some_iff.mp second
          rw [ih other _ _ next next']
        · rename_i last
          rw [if_neg last] at second
          exact Option.some.inj (first.symm.trans second)

theorem jsonlRows_records (r : Reader (Record ω)) (same : b.maxLineBytes = r.bounds.maxLineBytes) (lines : List Bytes) (ordinal : Nat) :
    (jsonlRows r.loads b lines ordinal).map (fun row => (row.1,row.2.erase "seq")) =
      lines.filterMap fun line => (recordOf r line).map fun record => (line,record.erase "seq") := by
  induction lines generalizing ordinal with
  | nil => rfl
  | cons line rest ih =>
    have later := ih (ordinal + 1)
    rw [jsonlRows] at later
    rw [jsonlRows,selected,List.filterMap_cons,recordOf]
    by_cases long : b.maxLineBytes < line.length
    · rw [if_pos long,if_pos (by simp [← same,long])]
      exact later
    · rw [if_neg long,jsonlSelect]
      by_cases blank : line.all isSpace = true
      · rw [if_pos (by simp [blank]),if_pos (by simp [blank])]
        exact later
      · rw [if_neg (by simp [blank]),if_neg (by simp [blank,← same]; omega)]
        cases r.loads line with
        | object record =>
          rw [List.map_cons,later,attachSeq,Dict.erase_set]
          rfl
        | other => exact later
        | raises => exact later

-- The polls of a file and the pages of its replay hand over the same records, those of
-- its complete lines.
def Agrees (r : Reader (Record ω)) (b : Budget) (chunkBytes : Nat) (f : File) : Prop :=
  ∃ fuel paged enough out, pages r b chunkBytes f.content fuel = some paged ∧
    (∀ n ≥ enough, polls r f n (initializeFollower r.bounds true (some f)) = some out) ∧
    paged.map (·.erase "seq") = out.map (·.erase "seq") ∧
    out = (Lines.lines newline f.content).filterMap (recordOf r)

theorem jsonlRecords_carried (loads : Bytes → Loaded (Record ω)) (b : Budget) (content : Bytes) :
    ∀ record ∈ jsonlRecords loads b content, (seqOf record).isSome ∧ (0 : Int) < mark record := by
  intro record inside
  obtain ⟨row,present,rfl⟩ := List.mem_map.mp inside
  have later := jsonlRows_later _ _ row (List.mem_of_mem_filter present)
  refine ⟨?_,by simpa using later⟩
  cases found : seqOf row.2 with
  | some seq => rfl
  | none => rw [mark,found] at later; simp at later

theorem page_reach (r : Reader (Record ω)) (positive : 0 < b.maxRecords ∧ 0 < b.maxScanBytes ∧ 0 < b.maxRetainedBytes ∧ 0 < b.maxLineBytes)
    (chunked : 0 < chunkBytes) (spoken : ∀ line ∈ Lines.lines newline (content.take b.maxScanBytes), Spoken r.loads b line)
    (turn : Nat) (cursor : Int) : ∃ page, pageAt r b chunkBytes content turn cursor = some page ∧
      page.records <+: Cursor.after mark (jsonlRecords r.loads b (content.take b.maxScanBytes)) cursor ∧
      (page.records = Cursor.after mark (jsonlRecords r.loads b (content.take b.maxScanBytes)) cursor ∨
        page.records ≠ [] ∧ page.exhausted = false) := by
  have quiet : Quiet b (jsonlSelect r.loads cursor.toNat) (Lines.lines newline (content.take b.maxScanBytes)) 0 :=
    jsonlSelect_quiet _ _ _ spoken
  rw [pageAt,replayJsonl_reads r.loads _ (fun _ => rfl) content cursor positive chunked]
  rcases taken_page (Lines.lines newline (content.take b.maxScanBytes)) 0 quiet with ⟨records,first,some',taken⟩ | ⟨retained,taken⟩
  · rw [jsonlRecords_after] at first
    rw [taken]
    exact ⟨_,rfl,first,.inr ⟨some',rfl⟩⟩
  · rw [taken,jsonlRecords_after]
    exact ⟨_,rfl,List.prefix_rfl,.inl rfl⟩

-- However long the file, following the cursor returns what a scan of it can reach.
theorem pages_reach (r : Reader (Record ω)) (positive : 0 < b.maxRecords ∧ 0 < b.maxScanBytes ∧ 0 < b.maxRetainedBytes ∧ 0 < b.maxLineBytes)
    (chunked : 0 < chunkBytes) (spoken : ∀ line ∈ Lines.lines newline (content.take b.maxScanBytes), Spoken r.loads b line) :
    ∃ fuel, pages r b chunkBytes content fuel = some (jsonlRecords r.loads b (content.take b.maxScanBytes)) := by
  have reach := page_reach r positive chunked spoken
  generalize held : jsonlRecords r.loads b (content.take b.maxScanBytes) = records at reach ⊢
  have carried := held ▸ jsonlRecords_carried r.loads b (content.take b.maxScanBytes)
  have replays : Replays (pageAt r b chunkBytes content) records fun _ => False := by
    refine ⟨held ▸ jsonlRecords_sorted _ _ _,fun record inside => (carried record inside).1,fun turn cursor => ?_⟩
    obtain ⟨page,served,begins,_⟩ := reach turn cursor
    exact ⟨page,served,begins,False.elim,False.elim⟩
  have serves := pageOf_serves positive.1 replays
  obtain ⟨last,early,cursor,walked,_,split,ended⟩ := Cursor.walk_exact replays.increasing serves 0 0
  rw [Nat.zero_add] at walked ended
  have rest : (pageOf b.maxRecords (pageAt r b chunkBytes content) last cursor).entries =
      Cursor.after mark records cursor := by
    obtain ⟨page,served,_,all | ⟨some',open'⟩⟩ := reach last cursor
    · rw [pageOf,served]
      exact all
    · rw [pageOf,served] at ended
      simp [some',open'] at ended
  have whole : Cursor.after mark records 0 = records :=
    List.filter_eq_self.mpr fun record inside => by simpa using (carried record inside).2
  refine ⟨last + 1,?_⟩
  rw [pages,iterate_walk replays fun _ _ => rfl,walked,rest,← split,whole,Option.map_some]
  exact congrArg some (List.flatMap_singleton' _)

theorem pages_whole (r : Reader (Record ω)) (positive : 0 < b.maxRecords ∧ 0 < b.maxScanBytes ∧ 0 < b.maxRetainedBytes ∧ 0 < b.maxLineBytes)
    (chunked : 0 < chunkBytes) (within : content.length < b.maxScanBytes)
    (spoken : ∀ line ∈ Lines.lines newline content, Spoken r.loads b line) :
    ∃ fuel, pages r b chunkBytes content fuel = some (jsonlRecords r.loads b content) := by
  have whole : content.take b.maxScanBytes = content := List.take_of_length_le (by omega)
  have reached : ∀ line ∈ Lines.lines newline (content.take b.maxScanBytes), Spoken r.loads b line := whole.symm ▸ spoken
  have reach := pages_reach r positive chunked reached
  rwa [whole] at reach

theorem jsonlRecords_fit (r : Reader (Record ω)) (same : b.maxLineBytes = r.bounds.maxLineBytes) (content : Bytes) :
    (jsonlRecords r.loads b content).map (·.erase "seq") =
        ((Lines.lines newline content).filterMap (recordOf r)).map (·.erase "seq") ↔
      ∀ line ∈ Lines.lines newline content, ∀ record, recordOf r line = some record → line.length ≤ b.maxRetainedBytes := by
  have rows := jsonlRows_records r same (Lines.lines newline content) 0
  have erased : ((Lines.lines newline content).filterMap (recordOf r)).map (·.erase "seq") =
      (jsonlRows r.loads b (Lines.lines newline content) 0).map fun row => row.2.erase "seq" := by
    have := congrArg (List.map Prod.snd) rows
    rw [List.map_map,List.map_filterMap] at this
    rw [List.map_filterMap]
    simp only [Option.map_map] at this
    exact this.symm
  rw [erased,jsonlRecords,List.map_map]
  constructor
  · intro equal line inside record loaded
    have count := congrArg List.length equal
    rw [List.length_map,List.length_map] at count
    have fit := List.length_filter_eq_length_iff.mp count
    have present : (line,record.erase "seq") ∈ (jsonlRows r.loads b (Lines.lines newline content) 0).map
        fun row => (row.1,row.2.erase "seq") := by
      rw [rows]
      exact List.mem_filterMap.mpr ⟨line,inside,by rw [loaded]; rfl⟩
    obtain ⟨row,held,equal⟩ := List.mem_map.mp present
    have := fit row held
    simp only [fits,decide_eq_true_eq] at this
    rw [← (Prod.mk.inj equal).1]
    exact this
  · intro short
    rw [List.filter_eq_self.mpr]
    · rfl
    · intro row held
      have present := List.mem_map_of_mem (f := fun row : Bytes × Record ω => (row.1,row.2.erase "seq")) held
      rw [rows] at present
      obtain ⟨line,inside,made⟩ := List.mem_filterMap.mp present
      obtain ⟨record,loaded,equal⟩ := Option.map_eq_some_iff.mp made
      have := short line inside record loaded
      simp only [fits,decide_eq_true_eq]
      rw [← (Prod.mk.inj equal).1]
      exact this

-- The two readers agree on a file exactly where no line makes json.loads raise what
-- they do not catch, and no object's line outgrows what a page may retain.
theorem replay_agrees (r : Reader (Record ω)) (f : File) (opens : f.opens = true) (asks : 0 < b.maxRecords)
    (retains : 0 < b.maxRetainedBytes) (chunked : 0 < chunkBytes) (within : f.content.length < b.maxScanBytes)
    (same : b.maxLineBytes = r.bounds.maxLineBytes) : Agrees r b chunkBytes f ↔
      (∀ line ∈ Lines.lines newline f.content, Spoken r.loads b line) ∧
      ∀ line ∈ Lines.lines newline f.content, ∀ record, recordOf r line = some record → line.length ≤ b.maxRetainedBytes := by
  have rows := r.bounds.rows
  have positive : 0 < b.maxRecords ∧ 0 < b.maxScanBytes ∧ 0 < b.maxRetainedBytes ∧ 0 < b.maxLineBytes := by omega
  rw [← jsonlRecords_fit r same]
  constructor
  · rintro ⟨fuel,paged,enough,out,walked,_,equal,whole⟩
    have spoken := (iterate_spoken positive chunked fuel 0 0 walked).mem
    rw [List.take_of_length_le (by omega)] at spoken
    obtain ⟨fuel',exact'⟩ := pages_whole r positive chunked within spoken
    rw [pages] at walked exact'
    rw [← iterate_unique fuel fuel' 0 0 walked exact',← whole]
    exact ⟨spoken,equal⟩
  · rintro ⟨spoken,equal⟩
    obtain ⟨fuel,walked⟩ := pages_whole r positive chunked within spoken
    have shows : Shows r f.identity (some f) := by
      intro g found
      cases found
      refine ⟨rfl,opens,fun line inside => ?_⟩
      have := spoken line inside
      rwa [Spoken,same] at this
    obtain ⟨enough,out,whole,drained⟩ := polls_drain (initialize_start r f) f shows List.nil_prefix
    have out_exact : out = (Lines.lines newline f.content).filterMap (recordOf r) := by
      simpa [recordsSince,Lines.lines,Lines.feed] using whole
    refine ⟨fuel,_,enough,out,walked,drained,?_,out_exact⟩
    rw [out_exact]
    exact equal

def pageBudget : Budget := (Transcript.jsonl []).budget 256

-- Two records and a blank line, read three bytes at a time and served one to a page.
theorem short_file_agrees :
    Agrees ⟨{},braced⟩ {pageBudget with maxRecords := 1} 3 ⟨1,[123,125,10,10,123,125,10],true⟩ := by
  refine (replay_agrees ⟨{},braced⟩ ⟨1,[123,125,10,10,123,125,10],true⟩ rfl (by decide) (by decide) (by decide) (by decide)
    rfl).mpr ⟨?_,?_⟩
  · exact fun line _ => braced_spoken _ line
  · have rows : ∀ line ∈ Lines.lines newline [123,125,10,10,123,125,10], line.length ≤ 1024 := by decide
    intro line inside record _
    exact (rows line inside).trans (by decide)

-- A hundred thousand opening brackets are nested too deep for json.loads.
def nested (line : Bytes) : Loaded (Record Unit) := if line = List.replicate 100000 91 then .raises else braced line

theorem nested_disagrees (n : Nat) (deep : n = 100000) :
    ¬ Agrees ⟨{},nested⟩ pageBudget jsonlChunkBytes ⟨1,List.replicate n 91 ++ [newline],true⟩ := by
  rintro ⟨fuel,paged,enough,out,walked,_⟩
  have spoken := (iterate_spoken (by decide) (by decide) fuel 0 0 walked).mem
  rw [List.take_of_length_le (by simp [pageBudget,Transcript.budget]; omega)] at spoken
  have line : Lines.lines newline (List.replicate n 91 ++ [newline]) = [List.replicate n 91] := by
    have clean : newline ∉ List.replicate n 91 := fun inside => absurd (List.eq_of_mem_replicate inside) (by decide)
    rw [Lines.lines,Lines.feed_line [] _ [] clean]
    rfl
  rw [line] at spoken
  apply spoken _ (List.mem_singleton.mpr rfl)
  · rw [List.length_replicate,deep]
    decide
  · subst deep
    rfl
  · exact if_pos (by rw [deep])

-- The replay of one such line raises instead of leaving it out.
theorem deep_line_disagrees :
    ¬ Agrees ⟨{},nested⟩ pageBudget jsonlChunkBytes ⟨1,List.replicate 100000 91 ++ [newline],true⟩ :=
  nested_disagrees _ rfl

end AgentSideCar.Replay
