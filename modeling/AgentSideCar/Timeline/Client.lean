import AgentSideCar.Library.Runs
import AgentSideCar.Timeline.Fusion

namespace AgentSideCar.Timeline
open Runs
variable {δ ε ρ : Type}

-- `shown` is what the row renders: kind token, glyph, label, summary and body.
structure TimelineEntryVM (ρ : Type) where
  key : String
  origin : Origin
  seq : Option Int
  ts : Int
  kindRaw : String
  shown : ρ
  deriving DecidableEq

def seqKindKey (seq : Int) (kind : String) : String := toString seq ++ keySep ++ kind
def emptyTextKey (seq : Int) (kind : String) : String := "s:" ++ toString seq ++ keySep ++ kind ++ keySep

def entryKey (entry : TimelineEntry δ ε) : String :=
  match entry.seq with
  | some seq => "s:" ++ toString seq ++ keySep ++ entry.kind ++ keySep ++ entry.text
  | none => "t:" ++ toString entry.ts ++ keySep ++ entry.kind ++ keySep ++ entry.text

def normalizeTimelineEntry (render : TimelineEntry δ ε → ρ) (entry : TimelineEntry δ ε) : TimelineEntryVM ρ :=
  ⟨entryKey entry,entry.origin,entry.seq,entry.ts,entry.kind,render entry⟩

-- localeCompare, as the preorder it puts on strings.
structure Collation where
  le : String → String → Bool
  total : ∀ a b, le a b = true ∨ le b a = true
  trans : ∀ a b c, le a b = true → le b c = true → le a c = true

abbrev seqThenOrigin (a b : TimelineEntryVM ρ) : Prop :=
  a.seq.getD 0 < b.seq.getD 0 ∨ a.seq.getD 0 = b.seq.getD 0 ∧ (a.origin = .dsh ∨ b.origin = .sidecar)
abbrev tsThenKey (locale : Collation) (a b : TimelineEntryVM ρ) : Prop :=
  a.ts < b.ts ∨ a.ts = b.ts ∧ locale.le a.key b.key = true

def sortTimelineEntries (locale : Collation) (entries : List (TimelineEntryVM ρ)) : List (TimelineEntryVM ρ) :=
  Merge.interleave (fun a b => decide (a.ts ≤ b.ts))
    ((entries.filter (·.seq.isSome)).insertionSort seqThenOrigin)
    ((entries.filter (·.seq.isNone)).insertionSort (tsThenKey locale))

structure TimelineVM (ρ : Type) where
  entries : List (TimelineEntryVM ρ) := []
  sources : TimelineSources := ⟨false,false,false,false⟩
  nextCursor : Option TimelineCursor := none
  reachedStart : Bool := false
  newKeys : List String := []

def unionSources (a b : TimelineSources) : TimelineSources :=
  ⟨a.dshLive || b.dshLive,a.dshCold || b.dshCold,a.sidecarReplay || b.sidecarReplay,
    a.sidecarBuffer || b.sidecarBuffer⟩

-- The locals of mergeEntries.
structure Merging (ρ : Type) where
  entries : List (TimelineEntryVM ρ)
  seen : List String
  emptySlot : Dict String Nat := .empty
  filled : List String := []
  appendedKeys : List String := []
  changed : Bool := false

def indexSlot (m : Merging ρ) (at' : TimelineEntryVM ρ × Nat) : Merging ρ :=
  match at'.1.seq with
  | none => m
  | some seq =>
    let sk := seqKindKey seq at'.1.kindRaw
    if at'.1.key = emptyTextKey seq at'.1.kindRaw then {m with emptySlot := m.emptySlot.set sk at'.2}
    else {m with filled := sk :: m.filled}

def beginMerge (existing : List (TimelineEntryVM ρ)) : Merging ρ :=
  existing.zipIdx.foldl indexSlot {entries := existing,seen := existing.map (·.key)}

def appendEntry (vm : TimelineEntryVM ρ) (m : Merging ρ) : Merging ρ :=
  {m with
    seen := vm.key :: m.seen
    entries := m.entries ++ [vm]
    appendedKeys := m.appendedKeys ++ [vm.key]
    changed := true}

def upgradeEntry (vm : TimelineEntryVM ρ) (sk : String) (slot : Nat) (m : Merging ρ) : Merging ρ :=
  {m with
    seen := vm.key :: m.seen
    entries := m.entries.set slot vm
    emptySlot := m.emptySlot.erase sk
    appendedKeys := m.appendedKeys ++ [vm.key]
    changed := true}

def mergeWire (render : TimelineEntry δ ε → ρ) (m : Merging ρ) (wire : TimelineEntry δ ε) : Merging ρ :=
  let vm := normalizeTimelineEntry render wire
  if vm.key ∈ m.seen then m
  else match vm.seq with
    | none => appendEntry vm m
    | some seq =>
      let sk := seqKindKey seq vm.kindRaw
      if wire.text = "" then
        if sk ∈ m.filled then m
        else appendEntry vm {m with emptySlot := m.emptySlot.set sk m.entries.length}
      else
        let marked := {m with filled := sk :: m.filled}
        match m.emptySlot.get sk with
        | some slot => upgradeEntry vm sk slot marked
        | none => appendEntry vm marked

def mergeEntries (render : TimelineEntry δ ε → ρ) (locale : Collation) (existing : List (TimelineEntryVM ρ))
    (incoming : List (TimelineEntry δ ε)) : List (TimelineEntryVM ρ) × List String :=
  let merged := incoming.foldl (mergeWire render) (beginMerge existing)
  if !merged.changed then (merged.entries,[])
  else (sortTimelineEntries locale merged.entries,merged.appendedKeys)

def applyTimelinePage (render : TimelineEntry δ ε → ρ) (locale : Collation) (vm : TimelineVM ρ)
    (page : TimelinePage δ ε) : TimelineVM ρ :=
  {vm with
    entries := (mergeEntries render locale vm.entries page.entries).1
    sources := unionSources vm.sources page.sources
    nextCursor := page.cursor
    reachedStart := page.cursor.isNone}

def applyListenPage (render : TimelineEntry δ ε → ρ) (locale : Collation) (vm : TimelineVM ρ)
    (page : TimelinePage δ ε) : TimelineVM ρ :=
  let merged := mergeEntries render locale vm.entries page.entries
  {vm with
    entries := merged.1
    sources := unionSources vm.sources page.sources
    newKeys := merged.2}

-- The host's sources may differ from page to page; any page may be asked for.
structure Served (δ ε : Type) where
  inputs : TimelineInputs δ ε
  limit : Nat
  before : Option TimelineCursor

def Served.page (dateParse : DateParse) (s : Served δ ε) : TimelinePage δ ε :=
  getSessionTimeline dateParse s.inputs s.limit s.before

inductive Receive (δ ε : Type) where
  | timeline (served : Served δ ε)
  | listen (served : Served δ ε)

def Receive.served : Receive δ ε → Served δ ε
  | .timeline served => served
  | .listen served => served

structure Client (δ ε ρ : Type) where
  dateParse : DateParse
  render : TimelineEntry δ ε → ρ
  locale : Collation

def advance (c : Client δ ε ρ) (vm : TimelineVM ρ) : Receive δ ε → Option (TimelineVM ρ)
  | .timeline served => some (applyTimelinePage c.render c.locale vm (served.page c.dateParse))
  | .listen served => some (applyListenPage c.render c.locale vm (served.page c.dateParse))

end AgentSideCar.Timeline
