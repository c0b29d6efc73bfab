import AgentSideCar.Timeline.Convergence
import Mathlib.Algebra.Ring.Int.Defs
import Mathlib.Data.List.Chain
import Mathlib.Data.List.Dedup

namespace AgentSideCar.TimelineRows
open Timeline

inductive TimelineKindToken where
  | user
  | assistant
  | thinking
  | toolCall
  | toolResult
  | turn
  | step
  | error
  | other
  deriving DecidableEq

-- Of what an entry shows, the rows read its kind token and its summary.
structure Shown where
  kind : TimelineKindToken
  summary : String
  deriving DecidableEq

abbrev Entry := TimelineEntryVM Shown

structure TimelineEventRowVM where
  key : String
  entry : Entry
  timeLabel : String
  hoverTitle : String
  isNew : Bool
  deriving DecidableEq

inductive TimelineRowVM where
  | event (row : TimelineEventRowVM)
  | gap (key : String) (missingCount : Int) (label : String)
  | chunks (key kindRaw : String) (count : Nat) (label timeLabel hoverTitle : String) (isNew : Bool)
      (members : List TimelineEventRowVM)
  deriving DecidableEq

-- What the platform and the string table write: times, and the templates with a number filled in.
structure Platform where
  trim : String → String
  toLowerCase : String → String
  isoOrEmpty : Int → String
  formatEventTime : Int → Int → String
  formatRelativeTime : Int → Int → String
  seqLabel : Int → String
  gapLabel : Int → String
  chunkRunLabel : Nat → String

def originName : Origin → String
  | .dsh => "dsh"
  | .sidecar => "sidecar"

section Rows
variable (p : Platform)

def eventHoverTitle (entry : Entry) (nowMs : Int) : String :=
  let parts := [p.isoOrEmpty entry.ts,entry.kindRaw,originName entry.origin] ++ entry.seq.toList.map p.seqLabel ++
    [p.formatRelativeTime entry.ts nowMs]
  " · ".intercalate (parts.filter (· ≠ ""))

def eventRow (newKeys : List String) (nowMs : Int) (entry : Entry) : TimelineEventRowVM :=
  ⟨entry.key,entry,p.formatEventTime entry.ts nowMs,eventHoverTitle p entry nowMs,decide (entry.key ∈ newKeys)⟩

structure Building where
  rows : List TimelineRowVM := []
  lastSeq : Option Int := none

def gapRow (last seq : Int) : TimelineRowVM :=
  .gap ("gap:" ++ toString last ++ "-" ++ toString seq) (seq - last - 1) (p.gapLabel (seq - last - 1))

-- Nothing is put before the first seq.
def gapBefore (lastSeq : Option Int) (seq : Int) : List TimelineRowVM :=
  match lastSeq with
  | some last => if last + 1 < seq then [gapRow p last seq] else []
  | none => []

def buildEntry (newKeys : List String) (nowMs : Int) (b : Building) (entry : Entry) : Building :=
  let row := TimelineRowVM.event (eventRow p newKeys nowMs entry)
  match entry.seq with
  | some seq => ⟨b.rows ++ gapBefore p b.lastSeq seq ++ [row],some seq⟩
  | none => {b with rows := b.rows ++ [row]}

def buildTimelineRows (vm : TimelineVM Shown) (nowMs : Int) : List TimelineRowVM :=
  (vm.entries.foldl (buildEntry p vm.newKeys nowMs) {}).rows

inductive TimelineFilterMode where
  | conversation
  | all
  deriving DecidableEq

def conversationKinds : List TimelineKindToken := [.user,.assistant,.error]

structure FilteredRows where
  rows : List TimelineRowVM := []
  hiddenCount : Nat := 0

def hidden : TimelineRowVM → Bool
  | .event row => row.entry.shown.kind ∉ conversationKinds
  | _ => false

def filterRow (f : FilteredRows) (row : TimelineRowVM) : FilteredRows :=
  if hidden row then {f with hiddenCount := f.hiddenCount + 1} else {f with rows := f.rows ++ [row]}

def filterTimelineRows (rows : List TimelineRowVM) : TimelineFilterMode → FilteredRows
  | .all => ⟨rows,0⟩
  | .conversation => rows.foldl filterRow {}

-- What follows the last slash.
def lastSegment (kind : String) : List Char := (kind.toList.reverse.takeWhile (· ≠ '/')).reverse

def isStreamChunkEntry (entry : Entry) : Bool :=
  if entry.shown.summary ≠ "" then false
  else
    let last := lastSegment (p.toLowerCase (p.trim entry.kindRaw))
    last = "chunk".toList || "_chunk".toList.isSuffixOf last || "-chunk".toList.isSuffixOf last

structure Aggregating where
  out : List TimelineRowVM := []
  run : List TimelineEventRowVM := []

def groupRow (first last : TimelineEventRowVM) (run : List TimelineEventRowVM) : TimelineRowVM :=
  .chunks ("chunks:" ++ first.key) first.entry.kindRaw run.length (p.chunkRunLabel run.length) last.timeLabel
    (first.entry.kindRaw ++ " ×" ++ toString run.length) (run.any (·.isNew)) run

-- A run of one stays a plain row.
def flushed (run : List TimelineEventRowVM) : List TimelineRowVM :=
  match run,run.getLast? with
  | first :: _ :: _,some last => [groupRow p first last run]
  | _,_ => run.map .event

def flush (a : Aggregating) : Aggregating := ⟨a.out ++ flushed p a.run,[]⟩

def sameKind (run : List TimelineEventRowVM) (row : TimelineEventRowVM) : Bool :=
  run.getLast?.all (·.entry.kindRaw = row.entry.kindRaw)

def aggregateRow (a : Aggregating) (row : TimelineRowVM) : Aggregating :=
  match row with
  | .event event =>
    if isStreamChunkEntry p event.entry then
      let a := if sameKind a.run event then a else flush p a
      {a with run := a.run ++ [event]}
    else {flush p a with out := (flush p a).out ++ [row]}
  | _ => {flush p a with out := (flush p a).out ++ [row]}

def aggregateChunkRows (rows : List TimelineRowVM) : List TimelineRowVM := (flush p (rows.foldl (aggregateRow p) {})).out

end Rows

def missing : TimelineRowVM → Int
  | .gap _ missingCount _ => missingCount
  | _ => 0

def totalMissing (rows : List TimelineRowVM) : Int := (rows.map missing).sum

def isGap : TimelineRowVM → Bool
  | .gap .. => true
  | _ => false

def expandRow : TimelineRowVM → List TimelineRowVM
  | .chunks _ _ _ _ _ _ _ members => members.map .event
  | row => [row]

def expand (rows : List TimelineRowVM) : List TimelineRowVM := rows.flatMap expandRow

-- The seqs of the entries that carry one, as they stand.
def seqs (entries : List Entry) : List Int := entries.filterMap (·.seq)

def isGroup : TimelineRowVM → Bool
  | .chunks .. => true
  | _ => false

def rowEntry : TimelineRowVM → Option Entry
  | .event row => some row.entry
  | _ => none

-- What is left out where each seq is followed by the next.
def holes : List Int → Int
  | last :: seq :: rest => max 0 (seq - last - 1) + holes (seq :: rest)
  | _ => 0

section Gaps
variable {p : Platform} {b : Building}

theorem total_append (rows more : List TimelineRowVM) : totalMissing (rows ++ more) = totalMissing rows + totalMissing more := by
  rw [totalMissing,List.map_append,List.sum_append]
  rfl

theorem gapBefore_total (p : Platform) (lastSeq : Option Int) (seq : Int) (rest : List Int) :
    totalMissing (gapBefore p lastSeq seq) + holes (seq :: rest) = holes (lastSeq.toList ++ seq :: rest) := by
  cases lastSeq with
  | none => exact Int.zero_add _
  | some last =>
    unfold gapBefore
    dsimp only
    have unfolded : holes (last :: seq :: rest) = max 0 (seq - last - 1) + holes (seq :: rest) := rfl
    split
    · have gap : totalMissing [gapRow p last seq] = seq - last - 1 := by simp [totalMissing,gapRow,missing]
      rw [gap,Option.toList_some,List.singleton_append,unfolded]
      omega
    · rw [Option.toList_some,List.singleton_append,unfolded,show totalMissing [] = 0 from rfl]
      omega

theorem built_total (p : Platform) (newKeys : List String) (nowMs : Int) (entries : List Entry) (b : Building) :
    totalMissing (entries.foldl (buildEntry p newKeys nowMs) b).rows =
      totalMissing b.rows + holes (b.lastSeq.toList ++ seqs entries) := by
  induction entries generalizing b with
  | nil => cases b.lastSeq <;> simp [seqs,holes]
  | cons entry rest ih =>
    rw [List.foldl_cons,ih]
    unfold buildEntry
    have event : totalMissing [TimelineRowVM.event (eventRow p newKeys nowMs entry)] = 0 := rfl
    cases carried : entry.seq with
    | none =>
      have same : seqs (entry :: rest) = seqs rest := by simp [seqs,carried]
      dsimp only
      rw [total_append,event,same]
      omega
    | some seq =>
      have more : seqs (entry :: rest) = seq :: seqs rest := by simp [seqs,carried]
      dsimp only
      have step := gapBefore_total p b.lastSeq seq (seqs rest)
      rw [total_append,total_append,event,more,Option.toList_some,List.singleton_append]
      omega

-- Over seqs that never go down, the holes and the distinct seqs make up the whole range.
theorem holes_ascending (seq : Int) (rest : List Int) (ascending : (seq :: rest).Pairwise (· ≤ ·)) :
    holes (seq :: rest) + (seq :: rest).dedup.length = (seq :: rest).getLast (List.cons_ne_nil _ _) - seq + 1 := by
  induction rest generalizing seq with
  | nil => simp [holes]
  | cons next rest ih =>
    obtain ⟨first,later⟩ := List.pairwise_cons.mp ascending
    have rises := first next List.mem_cons_self
    have onward := ih next later
    rw [List.getLast_cons (List.cons_ne_nil _ _)]
    have unfolded : holes (seq :: next :: rest) = max 0 (next - seq - 1) + holes (next :: rest) := rfl
    by_cases again : seq ∈ next :: rest
    · have same : seq = next := by
        rcases List.mem_cons.mp again with same | deeper
        · exact same
        · have := (List.pairwise_cons.mp later).1 seq deeper
          omega
      rw [unfolded,List.dedup_cons_of_mem again]
      omega
    · have apart : seq ≠ next := fun same => again (same ▸ List.mem_cons_self)
      rw [unfolded,List.dedup_cons_of_notMem again,List.length_cons]
      push_cast
      omega

theorem holes_range (ascending : numbers.Pairwise (· ≤ ·)) (least : numbers.min? = some low) (most : numbers.max? = some high) :
    holes numbers = high - low + 1 - numbers.dedup.length := by
  obtain ⟨lowIn,lowest⟩ := List.min?_eq_some_iff.mp least
  obtain ⟨highIn,highest⟩ := List.max?_eq_some_iff.mp most
  cases numbers with
  | nil => cases lowIn
  | cons seq rest =>
    have account := holes_ascending seq rest ascending
    have first : low = seq := by
      have below := lowest seq List.mem_cons_self
      rcases List.mem_cons.mp lowIn with same | later
      · exact same
      · have := (List.pairwise_cons.mp ascending).1 low later
        omega
    have last : high = (seq :: rest).getLast (List.cons_ne_nil _ _) := by
      have above := highest _ (List.getLast_mem (List.cons_ne_nil seq rest))
      have under := ascending.rel_getLast highIn
      omega
    omega

-- The rows that are built: the entries in order, gaps between them, and nothing else.
structure Built (entries : List Entry) (rows : List TimelineRowVM) : Prop where
  entries : rows.filterMap rowEntry = entries
  plain : ∀ row ∈ rows, isGroup row = false

theorem gapBefore_gaps (p : Platform) (lastSeq : Option Int) (seq : Int) : ∀ row ∈ gapBefore p lastSeq seq, isGap row = true := by
  intro row inside
  unfold gapBefore at inside
  split at inside
  · split at inside
    · rw [List.mem_singleton.mp inside]
      rfl
    · cases inside
  · cases inside

theorem gap_silent (gap : isGap row = true) : rowEntry row = none ∧ isGroup row = false := by
  cases row with
  | gap key missingCount label => exact ⟨rfl,rfl⟩
  | _ => cases gap

theorem buildEntry_built (built : Built entries b.rows) (p : Platform) (newKeys : List String) (nowMs : Int) (entry : Entry) :
    Built (entries ++ [entry]) (buildEntry p newKeys nowMs b entry).rows := by
  have whole : ∃ gaps, (∀ row ∈ gaps, isGap row = true) ∧
      (buildEntry p newKeys nowMs b entry).rows = b.rows ++ gaps ++ [.event (eventRow p newKeys nowMs entry)] := by
    unfold buildEntry
    cases entry.seq with
    | some seq => exact ⟨_,gapBefore_gaps p b.lastSeq seq,rfl⟩
    | none => exact ⟨[],List.forall_mem_nil _,by simp⟩
  obtain ⟨gaps,silent,same⟩ := whole
  rw [same]
  refine ⟨?_,fun row inside => ?_⟩
  · have none : gaps.filterMap rowEntry = [] := List.filterMap_eq_nil_iff.mpr fun row inside => (gap_silent (silent row inside)).1
    rw [List.filterMap_append,List.filterMap_append,built.entries,none,List.append_nil]
    rfl
  · rcases List.mem_append.mp inside with before | last
    · rcases List.mem_append.mp before with earlier | gap
      · exact built.plain row earlier
      · exact (gap_silent (silent row gap)).2
    · rw [List.mem_singleton.mp last]
      rfl

theorem buildEntries_built (built : Built past b.rows) (p : Platform) (newKeys : List String) (nowMs : Int) (entries : List Entry) :
    Built (past ++ entries) (entries.foldl (buildEntry p newKeys nowMs) b).rows := by
  induction entries generalizing past b with
  | nil => rwa [List.append_nil]
  | cons entry rest ih =>
    have next := ih (buildEntry_built built p newKeys nowMs entry)
    rwa [List.append_assoc,List.singleton_append] at next

end Gaps

section Filtering

theorem filterRows (rows : List TimelineRowVM) (f : FilteredRows) : rows.foldl filterRow f =
    ⟨f.rows ++ rows.filter (!hidden ·),f.hiddenCount + (rows.filter hidden).length⟩ := by
  induction rows generalizing f with
  | nil => simp
  | cons row rest ih =>
    rw [List.foldl_cons,ih]
    unfold filterRow
    cases noise : hidden row with
    | true =>
      simp only [if_true,List.filter_cons,noise,Bool.not_true,Bool.false_eq_true,if_false,List.length_cons,FilteredRows.mk.injEq,true_and]
      omega
    | false => simp [noise]

theorem hidden_gap (gap : isGap row = true) : hidden row = false := by
  cases row with
  | gap key missingCount label => rfl
  | _ => cases gap

-- A filter takes rows out, and all that it takes out is counted; the gaps stay.
structure Filtered (rows : List TimelineRowVM) (f : FilteredRows) : Prop where
  order : f.rows.Sublist rows
  count : f.rows.length + f.hiddenCount = rows.length
  gaps : f.rows.filter isGap = rows.filter isGap

theorem filter_filtered (rows : List TimelineRowVM) (mode : TimelineFilterMode) : Filtered rows (filterTimelineRows rows mode) := by
  cases mode with
  | all => exact ⟨List.Sublist.refl _,rfl,rfl⟩
  | conversation =>
    have whole : filterTimelineRows rows .conversation = ⟨rows.filter (!hidden ·),(rows.filter hidden).length⟩ := by
      rw [filterTimelineRows,filterRows,List.nil_append,Nat.zero_add]
    rw [whole]
    refine ⟨List.filter_sublist,?_,?_⟩
    · have both := List.length_eq_length_filter_add (l := rows) hidden
      dsimp only
      omega
    · rw [List.filter_filter]
      refine List.filter_congr fun row _ => ?_
      cases gap : isGap row with
      | true => simp [hidden_gap gap]
      | false => rfl

end Filtering

section Runs
variable {p : Platform} {a : Aggregating} {seen : List TimelineRowVM}

-- The kind of the run a row belongs to, alone or in a group.
def runKind (p : Platform) : TimelineRowVM → Option String
  | .event row => if isStreamChunkEntry p row.entry then some row.entry.kindRaw else none
  | .chunks _ kindRaw _ _ _ _ _ _ => some kindRaw
  | .gap .. => none

def Grouped (p : Platform) : TimelineRowVM → Prop
  | .chunks _ kindRaw count _ _ _ _ members => 2 ≤ members.length ∧ count = members.length ∧
      ∀ row ∈ members, runKind p (.event row) = some kindRaw
  | _ => True

def Apart (p : Platform) (x y : TimelineRowVM) : Prop := ∀ kind, runKind p x = some kind → runKind p y ≠ some kind

-- Expanded, the rows are what was there, in order; a group has several members, all of its
-- kind; and two rows next to each other are never of one run.
structure Lossless (p : Platform) (rows out : List TimelineRowVM) : Prop where
  whole : expand out = expand rows
  groups : ∀ row ∈ out, Grouped p row
  maximal : out.IsChain (Apart p)
  gaps : out.filter isGap = rows.filter isGap

structure Aggregated (p : Platform) (seen : List TimelineRowVM) (a : Aggregating) : Prop where
  whole : expand a.out ++ a.run.map .event = expand seen
  groups : ∀ row ∈ a.out, Grouped p row
  maximal : a.out.IsChain (Apart p)
  gaps : a.out.filter isGap = seen.filter isGap
  alike : ∃ kind, ∀ row ∈ a.run, runKind p (.event row) = some kind
  ahead : ∀ last ∈ a.out.getLast?, ∀ kind, runKind p last = some kind →
    a.run ≠ [] ∧ ∀ row ∈ a.run, runKind p (.event row) ≠ some kind

theorem plain_expand (plain : ∀ row ∈ rows, isGroup row = false) : expand rows = rows := by
  induction rows with
  | nil => rfl
  | cons row rest ih =>
    have later := ih fun other inside => plain other (List.mem_cons_of_mem _ inside)
    have alone : expandRow row = [row] := by
      cases row with
      | chunks => cases plain _ List.mem_cons_self
      | _ => rfl
    rw [expand,List.flatMap_cons,alone]
    exact congrArg (row :: ·) later

theorem expand_append (rows more : List TimelineRowVM) : expand (rows ++ more) = expand rows ++ expand more := List.flatMap_append

theorem chunk_kind (chunk : isStreamChunkEntry p row.entry = true) : runKind p (.event row) = some row.entry.kindRaw := if_pos chunk

theorem event_kind (named : runKind p (.event row) = some kind) : row.entry.kindRaw = kind := by
  cases chunk : isStreamChunkEntry p row.entry with
  | true =>
    rw [chunk_kind chunk] at named
    exact Option.some.inj named
  | false => simp [runKind,chunk] at named

theorem flushed_row (alike : ∀ row ∈ run, runKind p (.event row) = some kind) (some' : run ≠ []) :
    ∃ row, flushed p run = [row] ∧ runKind p row = some kind ∧ expandRow row = run.map .event ∧ Grouped p row ∧ isGap row = false := by
  cases run with
  | nil => exact absurd rfl some'
  | cons first rest =>
    have own := alike first List.mem_cons_self
    cases rest with
    | nil => exact ⟨.event first,rfl,own,rfl,trivial,rfl⟩
    | cons second rest =>
      have named := event_kind own
      cases ends : (first :: second :: rest).getLast? with
      | none => simp at ends
      | some last =>
        refine ⟨groupRow p first last (first :: second :: rest),?_,congrArg some named,rfl,⟨by simp,rfl,fun row inside => ?_⟩,rfl⟩
        · unfold flushed
          rw [ends]
        · rw [named]
          exact alike row inside

theorem flush_lossless (agg : Aggregated p seen a) : Lossless p seen (flush p a).out ∧
    ∀ last ∈ (flush p a).out.getLast?, ∀ kind, runKind p last = some kind → ∃ row ∈ a.run, runKind p (.event row) = some kind := by
  obtain ⟨kind,alike⟩ := agg.alike
  by_cases none : a.run = []
  · have same : (flush p a).out = a.out := by simp [flush,flushed,none]
    have whole := agg.whole
    rw [none,List.map_nil,List.append_nil] at whole
    rw [same]
    exact ⟨⟨whole,agg.groups,agg.maximal,agg.gaps⟩,fun last inside kind named => absurd none (agg.ahead last inside kind named).1⟩
  · obtain ⟨row,same,named,expanded,grouped,solid⟩ := flushed_row alike none
    obtain ⟨first,member⟩ := List.exists_mem_of_ne_nil _ none
    have out : (flush p a).out = a.out ++ [row] := congrArg (a.out ++ ·) same
    rw [out]
    refine ⟨⟨?_,?_,?_,?_⟩,?_⟩
    · rw [expand_append,← agg.whole,← expanded]
      exact congrArg (expand a.out ++ ·) (List.append_nil _)
    · intro other inside
      rcases List.mem_append.mp inside with before | last
      · exact agg.groups other before
      · rw [List.mem_singleton.mp last]
        exact grouped
    · refine List.isChain_append.mpr ⟨agg.maximal,.singleton row,fun last inside next head other lastKind => ?_⟩
      cases head
      have differs := (agg.ahead last inside other lastKind).2 first member
      rwa [alike first member,← named] at differs
    · rw [List.filter_append,agg.gaps]
      simp [solid]
    · intro last inside other lastKind
      rw [List.getLast?_concat] at inside
      cases inside
      exact ⟨first,member,by rw [alike first member,← named,lastKind]⟩

theorem closed_aggregated (agg : Aggregated p seen a) (alone : runKind p row = none) (plain : isGroup row = false) :
    Aggregated p (seen ++ [row]) {flush p a with out := (flush p a).out ++ [row]} := by
  obtain ⟨lossless,_⟩ := flush_lossless agg
  have single : expand [row] = [row] := plain_expand fun other inside => by rw [List.mem_singleton.mp inside]; exact plain
  refine ⟨?_,?_,?_,?_,⟨"",List.forall_mem_nil _⟩,?_⟩
  · rw [expand_append,expand_append,lossless.whole,single]
    exact List.append_nil _
  · intro other inside
    rcases List.mem_append.mp inside with before | last
    · exact lossless.groups other before
    · rw [List.mem_singleton.mp last]
      cases row with
      | chunks => cases plain
      | _ => trivial
  · refine List.isChain_append.mpr ⟨lossless.maximal,.singleton row,fun last _ next head kind _ => ?_⟩
    cases head
    rw [alone]
    exact (Option.some_ne_none kind).symm
  · rw [List.filter_append,List.filter_append,lossless.gaps]
  · intro last inside kind named
    rw [List.getLast?_concat] at inside
    cases inside
    rw [alone] at named
    cases named

theorem grown_aggregated (agg : Aggregated p seen a) (chunk : isStreamChunkEntry p event.entry = true)
    (same : sameKind a.run event = true) : Aggregated p (seen ++ [.event event]) {a with run := a.run ++ [event]} := by
  have own := chunk_kind chunk
  obtain ⟨kind,alike⟩ := agg.alike
  have shared : a.run ≠ [] → runKind p (.event event) = some kind := by
    intro some'
    have last := List.getLast?_eq_some_getLast some'
    have both : (a.run.getLast some').entry.kindRaw = event.entry.kindRaw := by simpa [sameKind,last] using same
    rw [own,← both,event_kind (alike _ (List.getLast_mem some'))]
  refine ⟨?_,agg.groups,agg.maximal,?_,?_,?_⟩
  · rw [List.map_append,← List.append_assoc,agg.whole,expand_append]
    rfl
  · rw [List.filter_append,agg.gaps]
    exact (List.append_nil _).symm
  · by_cases none : a.run = []
    · refine ⟨event.entry.kindRaw,fun row inside => ?_⟩
      rw [none] at inside
      rw [List.mem_singleton.mp inside,own]
    · refine ⟨kind,fun row inside => ?_⟩
      rcases List.mem_append.mp inside with before | last
      · exact alike row before
      · rw [List.mem_singleton.mp last,shared none]
  · intro last inside other named
    obtain ⟨some',differs⟩ := agg.ahead last inside other named
    obtain ⟨first,member⟩ := List.exists_mem_of_ne_nil _ some'
    refine ⟨by simp,fun row within => ?_⟩
    rcases List.mem_append.mp within with before | last
    · exact differs row before
    · rw [List.mem_singleton.mp last,shared some',← alike first member]
      exact differs first member

theorem turned_aggregated (agg : Aggregated p seen a) (chunk : isStreamChunkEntry p event.entry = true)
    (other : sameKind a.run event = false) : Aggregated p (seen ++ [.event event]) {flush p a with run := [event]} := by
  have own := chunk_kind chunk
  obtain ⟨lossless,behind⟩ := flush_lossless agg
  obtain ⟨kind,alike⟩ := agg.alike
  refine ⟨?_,lossless.groups,lossless.maximal,?_,⟨_,fun row inside => by rw [List.mem_singleton.mp inside,own]⟩,?_⟩
  · rw [expand_append,lossless.whole]
    rfl
  · rw [List.filter_append,lossless.gaps]
    exact (List.append_nil _).symm
  · intro last inside named kindLast
    refine ⟨by simp,fun row within => ?_⟩
    obtain ⟨first,member,theirs⟩ := behind last inside named kindLast
    have some' := List.ne_nil_of_mem member
    have ends := List.getLast?_eq_some_getLast some'
    have differs : (a.run.getLast some').entry.kindRaw ≠ event.entry.kindRaw := by simpa [sameKind,ends] using other
    rw [alike first member] at theirs
    have lastKind := (event_kind (alike _ (List.getLast_mem some'))).trans (Option.some.inj theirs)
    rw [List.mem_singleton.mp within,own]
    exact fun same => differs (lastKind.trans (Option.some.inj same).symm)

theorem aggregateRow_aggregated (agg : Aggregated p seen a) (plain : isGroup row = false) :
    Aggregated p (seen ++ [row]) (aggregateRow p a row) := by
  unfold aggregateRow
  cases row with
  | chunks => cases plain
  | gap => exact closed_aggregated agg rfl rfl
  | event event =>
    dsimp only
    cases chunk : isStreamChunkEntry p event.entry with
    | false => exact closed_aggregated agg (by simp [runKind,chunk]) rfl
    | true =>
      cases same : sameKind a.run event with
      | true => exact grown_aggregated agg chunk same
      | false => exact turned_aggregated agg chunk same

theorem aggregateRows_aggregated (agg : Aggregated p seen a) (plain : ∀ row ∈ rows, isGroup row = false) :
    Aggregated p (seen ++ rows) (rows.foldl (aggregateRow p) a) := by
  induction rows generalizing seen a with
  | nil => rwa [List.append_nil]
  | cons row rest ih =>
    have next := ih (aggregateRow_aggregated agg (plain row List.mem_cons_self)) fun other inside =>
      plain other (List.mem_cons_of_mem _ inside)
    rwa [List.append_assoc,List.singleton_append] at next

theorem aggregate_lossless (p : Platform) (plain : ∀ row ∈ rows, isGroup row = false) :
    Lossless p rows (aggregateChunkRows p rows) := by
  have start : Aggregated p [] {} := ⟨rfl,List.forall_mem_nil _,.nil,rfl,⟨"",List.forall_mem_nil _⟩,fun _ inside => (nomatch inside)⟩
  exact (flush_lossless (aggregateRows_aggregated start plain)).1

end Runs

section Accumulated
open AgentSideCar.Runs
variable {δ ε : Type}

theorem mergeWire_cases (render : TimelineEntry δ ε → Shown) (m : Merging Shown) (wire : TimelineEntry δ ε) :
    mergeWire render m wire = m ∨ (mergeWire render m wire).changed = true := by
  unfold mergeWire
  dsimp only
  split
  · exact .inl rfl
  · split
    · exact .inr rfl
    · split
      · split
        · exact .inl rfl
        · exact .inr rfl
      · split
        · exact .inr rfl
        · exact .inr rfl

theorem mergeWires_cases (render : TimelineEntry δ ε → Shown) (wires : List (TimelineEntry δ ε)) (m : Merging Shown) :
    wires.foldl (mergeWire render) m = m ∨ (wires.foldl (mergeWire render) m).changed = true := by
  induction wires using List.reverseRecOn with
  | nil => exact .inl rfl
  | append_singleton wires wire ih =>
    rw [List.foldl_append,List.foldl_cons,List.foldl_nil]
    rcases mergeWire_cases render (wires.foldl (mergeWire render) m) wire with same | changed
    · rw [same]
      exact ih
    · exact .inr changed

theorem merge_arranged (render : TimelineEntry δ ε → Shown) (locale : Collation) (wires : List (TimelineEntry δ ε))
    (arranged : Arranged locale entries) : Arranged locale (mergeEntries render locale entries wires).1 := by
  unfold mergeEntries
  dsimp only
  split
  · rename_i quiet
    rcases mergeWires_cases render wires (beginMerge entries) with same | changed
    · rw [same,(begin_linked [] entries).1]
      exact arranged
    · rw [changed] at quiet
      cases quiet
  · exact .inr ⟨_,rfl⟩

theorem arranged_ascending (arranged : Arranged locale entries) : (seqs entries).Pairwise (· ≤ ·) := by
  have ordered := arranged_seqs arranged
  have same : seqs entries = seqs (entries.filter (·.seq.isSome)) := by
    rw [seqs,seqs,List.filterMap_filter]
    refine List.filterMap_congr fun entry _ => ?_
    cases carried : entry.seq with
    | none => rfl
    | some seq => simp
  rw [same,seqs,List.pairwise_filterMap]
  refine ordered.imp fun {x y} before a first b second => ?_
  have left : x.seq.getD 0 = a := by rw [first]; rfl
  have right : y.seq.getD 0 = b := by rw [second]; rfl
  rcases before with less | same
  · omega
  · omega

theorem run_ascending (c : Client δ ε Shown) (path : Run (advance c) Any {} events vm) : (seqs vm.entries).Pairwise (· ≤ ·) := by
  have arranged : Arranged c.locale vm.entries := by
    refine Run.invariant (fun vm => Arranged c.locale vm.entries) (.inl rfl) (fun before event after held _ stepped => ?_) path
    rw [advance_entries c stepped]
    exact merge_arranged c.render c.locale _ held
  exact arranged_ascending arranged

end Accumulated

-- The rows a mode leaves, before they are grouped.
def shownRows (p : Platform) (vm : TimelineVM Shown) (nowMs : Int) (mode : TimelineFilterMode) : List TimelineRowVM :=
  (filterTimelineRows (buildTimelineRows p vm nowMs) mode).rows

def demoPlatform : Platform :=
  ⟨id,id,fun _ => "",fun _ _ => "",fun _ _ => "",fun _ => "",fun _ => "",fun _ => ""⟩

def demoEntry (kindRaw : String) (kind : TimelineKindToken) (seq : Option Int) : Entry := ⟨"",.dsh,seq,0,kindRaw,⟨kind,""⟩⟩

def demoVM : TimelineVM Shown :=
  {entries := [demoEntry "user" .user (some 1),demoEntry "chunk" .assistant (some 4),demoEntry "chunk" .assistant none,
    demoEntry "turn" .turn (some 6)]}

def demoRows : List TimelineRowVM := buildTimelineRows demoPlatform demoVM 0

end AgentSideCar.TimelineRows
