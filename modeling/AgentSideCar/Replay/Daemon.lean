import AgentSideCar.Replay.Dsh

namespace AgentSideCar.Replay
open Tail
variable {ω ε : Type}

structure ReplayResponse (ε : Type) where
  afterSeq : Int
  events : List ε
  lastSeq : Option Int
  truncated : Bool
  deriving DecidableEq

def lastSeqOf (records : List (Record ω)) : Option Int :=
  records.foldl (fun last record =>
    match seqOf record with
    | some seq => if last.all (· < seq) then some seq else last
    | none => last) none

-- None for a replay_failed answer: the adapter's replay or its normalize raised.
def replayResponse (normalize : Record ω → Option (List ε)) (limit : Nat) (afterSeq : Int)
    (replay : Option (ReplayPage (Record ω))) : Option (ReplayResponse ε) :=
  replay.bind fun page => (page.records.mapM normalize).map fun events => {
    afterSeq := afterSeq
    events := events.flatten
    lastSeq := lastSeqOf page.records
    truncated := decide (limit ≤ page.records.length) || (!page.exhausted && (lastSeqOf page.records).isSome)}

-- A transcript as its adapter reads it: the bytes of a JSONL file, or those zstd decodes.
inductive Transcript where
  | jsonl (content : Bytes)
  | dsh (stream : Bytes)

-- What one replay meets: whether its source can be opened, and the turns of its scan.
structure Look where
  present : Bool
  expired : Nat → Bool
  turns : List Turn

def Transcript.budget (limit : Nat) : Transcript → Budget
  | .jsonl _ => ⟨limit,64 * 1024 * 1024,8 * 1024 * 1024,1024 * 1024⟩
  | .dsh _ => ⟨limit,256 * 1024 * 1024,8 * 1024 * 1024,1024 * 1024⟩

def replay (loads : Bytes → Loaded (Record ω)) (limit : Nat) (t : Transcript) (look : Look) (afterSeq : Int) :
    Option (ReplayPage (Record ω)) :=
  match t with
  | .jsonl content => replayJsonlEvents loads (t.budget limit) jsonlChunkBytes
      (if look.present then some content else none) look.expired (some afterSeq)
  | .dsh stream => replayDshEvents loads (t.budget limit) (if look.present then some stream else none) look.turns
      (some afterSeq)

-- The records a transcript retains for replay, whatever the limit of a page.
def retained (loads : Bytes → Loaded (Record ω)) (limit : Nat) (t : Transcript) : List (Record ω) :=
  match t with
  | .jsonl content => jsonlRecords loads (t.budget limit) content
  | .dsh stream => dshRecords loads (t.budget limit) stream

def Transcript.rows : Transcript → List Bytes
  | .jsonl content => Lines.lines newline content
  | .dsh stream => rowsRead stream true

-- The scan of a look meets the end of its transcript within its bytes and its time.
def Reaches (limit : Nat) (t : Transcript) (look : Look) : Prop :=
  look.present = true ∧ match t with
  | .jsonl content => (∀ turn, look.expired turn = false) ∧ content.length < (t.budget limit).maxScanBytes
  | .dsh stream => Patient look.turns stream ∧ stream.length < (t.budget limit).maxScanBytes

-- A client that asks again from last_seq until truncated is false.
def iterate (respond : Nat → Int → Option (ReplayResponse ε)) : Nat → Nat → Int → Option (List ε)
  | 0,_,_ => none
  | fuel+1,turn,afterSeq =>
    (respond turn afterSeq).bind fun response =>
      if response.truncated then
        (iterate respond fuel (turn + 1) (response.lastSeq.getD afterSeq)).map (response.events ++ ·)
      else some response.events

def eventsOf (normalize : Record ω → Option (List ε)) (record : Record ω) : List ε := (normalize record).getD []

variable {loads : Bytes → Loaded (Record ω)} {normalize : Record ω → Option (List ε)}

theorem lastSeqOf_snoc (records : List (Record ω)) (record : Record ω) : lastSeqOf (records ++ [record]) =
    match seqOf record with
    | some seq => if (lastSeqOf records).all (· < seq) then some seq else lastSeqOf records
    | none => lastSeqOf records := by
  rw [lastSeqOf,List.foldl_append]
  rfl

theorem lastSeqOf_sorted (records : List (Record ω)) (sorted : records.Pairwise fun a b => mark a < mark b)
    (carried : ∀ record ∈ records, (seqOf record).isSome) : lastSeqOf records = records.getLast?.map mark := by
  induction records using List.reverseRecOn with
  | nil => rfl
  | append_singleton rest record ih =>
    obtain ⟨earlier,_,before⟩ := List.pairwise_append.mp sorted
    have ih := ih earlier fun r inside => carried r (List.mem_append_left _ inside)
    obtain ⟨seq,found⟩ := Option.isSome_iff_exists.mp (carried record (by simp))
    have marked : mark record = seq := by rw [mark,found]; rfl
    rw [lastSeqOf_snoc,found,ih,List.getLast?_concat,Option.map_some,marked]
    simp only
    rw [if_pos]
    cases last : rest.getLast? with
    | none => rfl
    | some r =>
      have := before r (List.mem_of_getLast? last) record (by simp)
      simpa [marked] using this

theorem lastSeqOf_none (records : List (Record ω)) (sorted : records.Pairwise fun a b => mark a < mark b)
    (carried : ∀ record ∈ records, (seqOf record).isSome) : lastSeqOf records = none ↔ records = [] := by
  rw [lastSeqOf_sorted records sorted carried,Option.map_eq_none_iff,List.getLast?_eq_none_iff]

theorem mapM_normalize (normalize : Record ω → Option (List ε)) (records : List (Record ω)) (normal : ∀ record ∈ records, (normalize record).isSome) :
    ∃ events, records.mapM normalize = some events ∧ events.flatten = records.flatMap (eventsOf normalize) := by
  induction records with
  | nil => exact ⟨[],rfl,rfl⟩
  | cons record rest ih =>
    obtain ⟨events,mapped,flat⟩ := ih fun r inside => normal r (List.mem_cons_of_mem _ inside)
    obtain ⟨first,made⟩ := Option.isSome_iff_exists.mp (normal record List.mem_cons_self)
    refine ⟨first :: events,?_,?_⟩
    · rw [List.mapM_cons,made,mapped]; rfl
    · rw [List.flatten_cons,flat,List.flatMap_cons,eventsOf,made]; rfl

theorem retained_carried (limit : Nat) (t : Transcript) : ∀ record ∈ retained loads limit t, (seqOf record).isSome := by
  intro record inside
  cases t with
  | jsonl content =>
    obtain ⟨row,present,rfl⟩ := List.mem_map.mp inside
    have later := jsonlRows_later _ _ row (List.mem_of_mem_filter present)
    cases found : seqOf row.2 with
    | some seq => rfl
    | none => rw [mark,found] at later; simp at later
  | dsh stream =>
    obtain ⟨row,present,rfl⟩ := List.mem_map.mp inside
    have kept := (List.mem_filter.mp present).2
    simp only [Bool.and_eq_true] at kept
    exact kept.1

-- A page of a replay: records after the cursor, none skipped; one that ends early is
-- not empty, and any other holds the rest, as long as its scan meets the end.
theorem replay_page (limit : Nat) (some' : 0 < limit) (t : Transcript) (look : Look) (cursor : Int)
    (spoken : ∀ row ∈ t.rows, Spoken loads (t.budget limit) row) :
    ∃ page, replay loads limit t look cursor = some page ∧
      page.records <+: Cursor.after mark (retained loads limit t) cursor ∧
      (Reaches limit t look → page.exhausted = true →
        page.records = Cursor.after mark (retained loads limit t) cursor) ∧
      (Reaches limit t look → page.exhausted = false → page.records ≠ []) := by
  cases t with
  | jsonl content =>
    by_cases present : look.present = true
    · obtain ⟨page,served,serves⟩ := replayJsonl_serves look.expired
        (b := (Transcript.jsonl content).budget limit) ⟨some',by simp [Transcript.budget]⟩
        (show 0 < jsonlChunkBytes by decide) content spoken cursor
      exact ⟨page,by rw [replay,if_pos present,served],serves.begins,fun _ => serves.ended,
        fun reaches => serves.filled reaches.2⟩
    · refine ⟨⟨[],true⟩,?_,List.nil_prefix,fun reaches => absurd reaches.1 present,fun _ stopped => by cases stopped⟩
      rw [replay,if_neg present,replayJsonlEvents,if_neg]
      simp only [Transcript.budget]
      omega
  | dsh stream =>
    by_cases present : look.present = true
    · obtain ⟨page,served,serves⟩ := replayDsh_serves (b := (Transcript.dsh stream).budget limit)
        ⟨some',by simp [Transcript.budget]⟩ stream spoken look.turns cursor
      exact ⟨page,by rw [replay,if_pos present,served],serves.begins,fun _ => serves.ended,
        fun reaches => serves.filled reaches.2⟩
    · refine ⟨⟨[],true⟩,?_,List.nil_prefix,fun reaches => absurd reaches.1 present,fun _ stopped => by cases stopped⟩
      rw [replay,if_neg present,replayDshEvents,if_neg]
      simp only [Transcript.budget]
      omega

section Iterate
variable (normalize : Record ω → Option (List ε)) (limit : Nat) (replayAt : Nat → Int → Option (ReplayPage (Record ω)))

def respond (turn : Nat) (afterSeq : Int) : Option (ReplayResponse ε) :=
  replayResponse normalize limit afterSeq (replayAt turn afterSeq)

-- The page of a response, as its reader sees it.
def pageOf (turn : Nat) (cursor : Int) : Cursor.Page (Record ω) :=
  let page := (replayAt turn cursor).getD ⟨[],true⟩
  ⟨page.records,decide (limit ≤ page.records.length) || (!page.exhausted && decide (page.records ≠ []))⟩

-- A replay of some records, in pages that may end early; `reaches` tells which scans meet the end.
structure Replays (records : List (Record ω)) (reaches : Nat → Prop) : Prop where
  increasing : records.Pairwise fun a b => mark a < mark b
  carried : ∀ record ∈ records, (seqOf record).isSome
  pages : ∀ turn cursor, ∃ page, replayAt turn cursor = some page ∧
    page.records <+: Cursor.after mark records cursor ∧
    (reaches turn → page.exhausted = true → page.records = Cursor.after mark records cursor) ∧
    (reaches turn → page.exhausted = false → page.records ≠ [])

variable {normalize limit replayAt}

theorem respond_exact (replays : Replays replayAt records reaches) (normal : ∀ record ∈ records, (normalize record).isSome)
    (turn : Nat) (cursor : Int) : respond normalize limit replayAt turn cursor = some {
      afterSeq := cursor
      events := (pageOf limit replayAt turn cursor).entries.flatMap (eventsOf normalize)
      lastSeq := (pageOf limit replayAt turn cursor).entries.getLast?.map mark
      truncated := (pageOf limit replayAt turn cursor).more} := by
  obtain ⟨page,served,begins,_,_⟩ := replays.pages turn cursor
  have inside : ∀ record ∈ page.records, record ∈ records := fun record present =>
    List.mem_of_mem_filter (begins.subset present)
  have sorted : page.records.Pairwise fun a b => mark a < mark b :=
    (replays.increasing.filter _).sublist begins.sublist
  have carried := fun record present => replays.carried record (inside record present)
  obtain ⟨events,mapped,flat⟩ := mapM_normalize normalize page.records fun record present =>
    normal record (inside record present)
  have empty : (lastSeqOf page.records).isSome = decide (page.records ≠ []) := by
    have := lastSeqOf_none page.records sorted carried
    cases last : lastSeqOf page.records <;> simp_all
  rw [respond,replayResponse,pageOf,served]
  simp only [Option.bind_some,mapped,Option.map_some,Option.getD_some,flat,empty]
  rw [lastSeqOf_sorted page.records sorted carried]

theorem iterate_walk (replays : Replays replayAt records reaches) (normal : ∀ record ∈ records, (normalize record).isSome)
    (fuel turn : Nat) (cursor : Int) : iterate (respond normalize limit replayAt) fuel turn cursor =
      (Cursor.walk mark (pageOf limit replayAt) fuel turn cursor).map (·.flatMap (eventsOf normalize)) := by
  induction fuel generalizing turn cursor with
  | zero => rfl
  | succ fuel ih =>
    rw [iterate,Cursor.walk,respond_exact replays normal]
    simp only [Option.bind_some]
    split
    · rw [ih]
      simp only [Option.map_map,Cursor.next]
      congr 1
      funext out
      simp
    · rfl

theorem pageOf_serves (some' : 0 < limit) (replays : Replays replayAt records reaches) :
    Cursor.Serves mark records (pageOf limit replayAt) := by
  constructor
  · intro turn cursor
    obtain ⟨page,served,begins,_⟩ := replays.pages turn cursor
    rw [pageOf,served]
    exact begins
  · intro turn cursor more
    rw [pageOf] at more ⊢
    generalize (replayAt turn cursor).getD ⟨[],true⟩ = page at more ⊢
    intro empty
    simp only at empty
    simp [empty] at more
    omega

-- A reader is let go only by a page that holds the rest, if its scan met the end.
theorem pageOf_ends (replays : Replays replayAt records reaches) (turn : Nat) (cursor : Int) (met : reaches turn)
    (ended : (pageOf limit replayAt turn cursor).more = false) :
    (pageOf limit replayAt turn cursor).entries = Cursor.after mark records cursor := by
  obtain ⟨page,served,_,whole,filled⟩ := replays.pages turn cursor
  rw [pageOf,served] at ended ⊢
  simp only [Option.getD_some,Bool.or_eq_false_iff,Bool.and_eq_false_iff,Bool.not_eq_false',decide_eq_false_iff_not,
    not_not] at ended ⊢
  rcases ended.2 with exhausted | empty
  · exact whole met exhausted
  · cases exhausted : page.exhausted with
    | true => exact whole met exhausted
    | false => exact absurd empty (filled met exhausted)

theorem replays_iterate (normalize : Record ω → Option (List ε)) (some' : 0 < limit) (replays : Replays replayAt records reaches)
    (normal : ∀ record ∈ records, (normalize record).isSome) (afterSeq : Int) : ∃ last returned,
      iterate (respond normalize limit replayAt) (last + 1) 0 afterSeq = some (returned.flatMap (eventsOf normalize)) ∧
      iterate (respond normalize limit replayAt) last 0 afterSeq = none ∧
      returned <+: Cursor.after mark records afterSeq ∧
      (reaches last → returned = Cursor.after mark records afterSeq) := by
  have serves := pageOf_serves some' replays
  obtain ⟨last,early,cursor,walked,unended,split,ended⟩ := Cursor.walk_exact replays.increasing serves 0 afterSeq
  rw [Nat.zero_add] at walked ended
  refine ⟨last,early ++ (pageOf limit replayAt last cursor).entries,?_,?_,?_,fun met => ?_⟩
  · rw [iterate_walk replays normal,walked,Option.map_some]
  · rw [iterate_walk replays normal,unended,Option.map_none]
  · rw [split]
    exact (List.prefix_append_right_inj _).mpr (serves.begins last cursor)
  · rw [split,pageOf_ends replays last cursor met ended]

theorem empty_page (some' : 0 < limit) (replays : Replays replayAt records reaches)
    (normal : ∀ record ∈ records, (normalize record).isSome) (turn : Nat) (cursor : Int) :
    ∃ response, respond normalize limit replayAt turn cursor = some response ∧
      (response.lastSeq = none → response.truncated = false ∧ (reaches turn → Cursor.after mark records cursor = [])) := by
  refine ⟨_,respond_exact replays normal turn cursor,fun empty => ?_⟩
  have none' : (pageOf limit replayAt turn cursor).entries = [] := by simpa using empty
  have ended : (pageOf limit replayAt turn cursor).more = false := by
    cases more : (pageOf limit replayAt turn cursor).more with
    | false => rfl
    | true => exact absurd none' ((pageOf_serves some' replays).moves turn cursor more)
  refine ⟨ended,fun met => ?_⟩
  rw [← pageOf_ends replays turn cursor met ended,none']

end Iterate

-- Iterating the daemon's replay ends, with the page of turn `last`, with a first part of
-- the retained records after the cursor, in seq order and each once; with all of them when
-- that page's scan met the end of the transcript. An empty page lets its reader go, and
-- leaves nothing behind unless its own scan was cut short.
theorem replay_iterates (limit : Nat) (some' : 0 < limit) (t : Transcript) (looks : Nat → Look)
    (spoken : ∀ row ∈ t.rows, Spoken loads (t.budget limit) row)
    (increasing : (retained loads limit t).Pairwise fun a b => mark a < mark b)
    (normal : ∀ record ∈ retained loads limit t, (normalize record).isSome) (afterSeq : Int) :
    (∃ last returned,
      iterate (respond normalize limit fun turn => replay loads limit t (looks turn)) (last + 1) 0 afterSeq =
        some (returned.flatMap (eventsOf normalize)) ∧
      iterate (respond normalize limit fun turn => replay loads limit t (looks turn)) last 0 afterSeq = none ∧
      returned <+: Cursor.after mark (retained loads limit t) afterSeq ∧
      (Reaches limit t (looks last) → returned = Cursor.after mark (retained loads limit t) afterSeq)) ∧
    ∀ turn cursor, ∃ response,
      respond normalize limit (fun turn => replay loads limit t (looks turn)) turn cursor = some response ∧
      (response.lastSeq = none → response.truncated = false ∧
        (Reaches limit t (looks turn) → Cursor.after mark (retained loads limit t) cursor = [])) := by
  have replays : Replays (fun turn => replay loads limit t (looks turn)) (retained loads limit t)
      fun turn => Reaches limit t (looks turn) :=
    ⟨increasing,retained_carried limit t,fun turn cursor => replay_page limit some' t (looks turn) cursor spoken⟩
  exact ⟨replays_iterate normalize some' replays normal afterSeq,empty_page some' replays normal⟩

-- Objects only, all of them empty.
def braced (line : Bytes) : Loaded (Record Unit) := if line.head? = some 123 then .object .empty else .other

def promptLook : Look := ⟨true,fun _ => false,[]⟩

theorem braced_spoken (b : Budget) (line : Bytes) : Spoken braced b line := by
  intro _ _
  unfold braced
  split <;> simp

-- Two records with a blank line between them, one on each page.
theorem short_replay_iterates : ∃ last out,
    iterate (respond (fun record => some [mark record]) 1 fun _ =>
      replay braced 1 (.jsonl [123,125,10,10,123,125,10]) promptLook) (last + 1) 0 0 = some out ∧
    iterate (respond (fun record => some [mark record]) 1 fun _ =>
      replay braced 1 (.jsonl [123,125,10,10,123,125,10]) promptLook) last 0 0 = none ∧ 0 < last ∧ out = [1,3] := by
  obtain ⟨⟨last,returned,iterated,unended,_,all⟩,_⟩ := replay_iterates 1 (by decide) (.jsonl [123,125,10,10,123,125,10])
    (fun _ => promptLook) (fun row _ => braced_spoken _ row)
    (show (retained braced 1 (.jsonl [123,125,10,10,123,125,10])).Pairwise fun a b => mark a < mark b from
      jsonlRecords_sorted _ _ _)
    (show ∀ record ∈ retained braced 1 (.jsonl [123,125,10,10,123,125,10]), (some [mark record]).isSome from fun _ _ => rfl) 0
  rw [all ⟨rfl,fun _ => rfl,by decide⟩] at iterated
  refine ⟨last,_,iterated,unended,?_,by decide⟩
  cases last with
  | zero => exact absurd iterated (by decide +kernel)
  | succ last => exact Nat.succ_pos last

-- A transcript of blank lines and one record after them.
def blankThen (n : Nat) : Transcript := .jsonl (List.replicate n newline ++ [123,125,newline])

theorem lines_blank (n : Nat) : Lines.lines newline (List.replicate n newline) = List.replicate n [] := by
  induction n with
  | zero => rfl
  | succ n ih =>
    rw [List.replicate_succ,List.replicate_succ,← ih]
    simp [Lines.lines,Lines.feed]

theorem openRow_blank (n : Nat) : Lines.openRow newline (List.replicate n newline) = [] := by
  induction n with
  | zero => rfl
  | succ n ih =>
    rw [List.replicate_succ,← ih]
    simp [Lines.openRow,Lines.feed]

theorem selected_blank (b : Budget) (skipThrough n ordinal : Nat) :
    selected b (jsonlSelect braced skipThrough) (List.replicate n []) ordinal = [] := by
  induction n generalizing ordinal with
  | zero => rfl
  | succ n ih =>
    rw [List.replicate_succ,selected]
    simp [jsonlSelect,ih]

theorem blank_scan (b : Budget) (positive : 0 < b.maxRecords ∧ 0 < b.maxScanBytes ∧ 0 < b.maxRetainedBytes ∧ 0 < b.maxLineBytes)
    (rest : Bytes) (some' : rest ≠ []) : replayJsonlEvents braced b jsonlChunkBytes
      (some (List.replicate b.maxScanBytes newline ++ rest)) (fun _ => false) (some 0) = some ⟨[],false⟩ := by
  obtain ⟨seen,eof,begins,within,ended,_,scanned⟩ := replayJsonl_rows braced (fun _ => false)
    (List.replicate b.maxScanBytes newline ++ rest) 0 positive (show 0 < jsonlChunkBytes by decide)
  have short : eof = false := by
    cases eof with
    | false => rfl
    | true =>
      rw [ended rfl,List.length_append,List.length_replicate] at within
      have := List.length_pos_iff.mpr some'
      omega
  have blank : seen = List.replicate seen.length newline := by
    have part := List.prefix_of_prefix_length_le begins (List.prefix_append _ _) (by simpa using within)
    exact List.eq_replicate_of_mem fun x inside => List.eq_of_mem_replicate (part.subset inside)
  have quiet := jsonlSelect_quiet (b := b) (Lines.lines newline seen) (0 : Int).toNat 0 fun line _ => braced_spoken b line
  rw [scanned,takeLines_selected _ _ _ quiet,blank,lines_blank,selected_blank,short]
  rfl

theorem blank_lost (n : Nat) (whole : n = 64 * 1024 * 1024) :
    iterate (respond (fun record => some [mark record]) 256 fun _ => replay braced 256 (blankThen n) promptLook) 1 0 0 =
        some [] ∧
      ∃ record, Cursor.after mark (retained braced 256 (blankThen n)) 0 = [record] := by
  constructor
  · have page : replay braced 256 (blankThen n) promptLook 0 = some ⟨[],false⟩ := by
      have scan := blank_scan ⟨256,n,8 * 1024 * 1024,1024 * 1024⟩ (by simp only; omega) [123,125,newline] (by simp)
      simp only [replay,blankThen,promptLook,Transcript.budget,if_true,← whole]
      exact scan
    rw [iterate,respond,page]
    rfl
  · refine ⟨attachSeq .empty (n + 1),?_⟩
    simp only [retained,blankThen,jsonlRecords,Lines.lines_append,lines_blank,openRow_blank,jsonlRows,selected_append,
      selected_blank,List.length_replicate]
    have fed : (Lines.feed newline [] [123,125,newline]).1 = [[123,125]] := by decide
    have row : ∀ b : Budget, b.maxLineBytes = 1024 * 1024 →
        selected b (jsonlSelect braced 0) [[123,125]] (0 + n) = [([123,125],attachSeq .empty (n + 1))] := by
      intro b long
      simp [selected,jsonlSelect,braced,isSpace,long]
    rw [fed,row _ rfl]
    simp [Cursor.after,mark_attach,fits,Transcript.budget]

-- The only record lies past the scan budget: the empty page says there is nothing more.
theorem unscanned_record_lost :
    iterate (respond (fun record => some [mark record]) 256 fun _ =>
        replay braced 256 (blankThen (64 * 1024 * 1024)) promptLook) 1 0 0 = some [] ∧
      ∃ record, Cursor.after mark (retained braced 256 (blankThen (64 * 1024 * 1024))) 0 = [record] :=
  blank_lost _ rfl

end AgentSideCar.Replay
