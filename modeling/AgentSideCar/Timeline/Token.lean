import AgentSideCar.Library.Number
import AgentSideCar.Timeline.Fusion

namespace AgentSideCar.Timeline.Token
open Number Paging

structure Cursor where
  seq : Option JsNumber
  ts : JsNumber
  deriving DecidableEq

def encodeCursor (cursor : Cursor) : String :=
  String.ofList (cursor.seq.elim ['-'] text ++ '~' :: text cursor.ts)

def acceptable (x : JsNumber) : Bool := x.isInteger && !x.isNegative

section Decode
variable (round : Decimal → JsNumber)

def decodeCursor (raw : String) : Option Cursor :=
  let seqPart := raw.toList.takeWhile (· ≠ '~')
  match raw.toList.dropWhile (· ≠ '~') with
  | [] => none
  | _ :: tsPart =>
    if seqPart = [] ∨ tsPart = [] then none
    else
      let ts := ofText round tsPart
      if !acceptable ts then none
      else if seqPart = ['-'] then some ⟨none,ts⟩
      else
        let seq := ofText round seqPart
        if !acceptable seq then none else some ⟨some seq,ts⟩

end Decode

variable {round : Decimal → JsNumber} {ρ : Type}

-- A merged entry: the numbers are those of its event, whatever they are, and doubles.
structure Entry (round : Decimal → JsNumber) (ρ : Type) where
  seq : Option JsNumber
  ts : JsNumber
  rest : ρ
  seqDouble : ∀ s ∈ seq, IsDouble round s
  tsDouble : IsDouble round ts

def isBeforeCursor (entry : Entry round ρ) (cursor : Cursor) : Bool :=
  match cursor.seq,entry.seq with
  | some bound,some seq => seq.lt bound
  | _,_ => entry.ts.lt cursor.ts

def widen (entries : List (Entry round ρ)) (seq : JsNumber) : Nat → Nat
  | 0 => 0
  | n+1 => if (entries[n]?.bind (·.seq)).any (seq.equal ·) then widen entries seq n else n + 1

def pageStart (limit : Nat) (entries : List (Entry round ρ)) (endIdx : Nat) : Nat :=
  let startIdx := endIdx - limit
  match entries[startIdx]?.bind (·.seq) with
  | none => startIdx
  | some seq => widen entries seq startIdx

def scheme (limit : Nat) : Scheme (Entry round ρ) Cursor where
  older := isBeforeCursor
  mark first := ⟨first.seq,first.ts⟩
  start := pageStart (max 1 limit)

-- The end of getSessionTimeline, for the merged entries in whatever order.
def timelinePage (entries : List (Entry round ρ)) (limit : Nat) (before : Option Cursor) : Paging.Page (Entry round ρ) Cursor :=
  page (scheme limit) entries before

structure TimelineBody (round : Decimal → JsNumber) (ρ : Type) where
  entries : List (Entry round ρ)
  nextCursor : Option String

def timelineBody (page : Paging.Page (Entry round ρ) Cursor) : TimelineBody round ρ := ⟨page.entries,page.cursor.map encodeCursor⟩

def handleTimeline (entries : List (Entry round ρ)) (limit : Nat) (rawCursor : Option String) :
    Except String (TimelineBody round ρ) :=
  match rawCursor with
  | none => .ok (timelineBody (timelinePage entries limit none))
  | some raw =>
    if raw = "" then .ok (timelineBody (timelinePage entries limit none))
    else match decodeCursor round raw with
      | none => .error "invalid_cursor"
      | some before => .ok (timelineBody (timelinePage entries limit (some before)))

-- What a page's cursor is for: its token reads back, and asking with it is answered.
structure Follows (entries : List (Entry round ρ)) (cursor : Cursor) : Prop where
  decoded : decodeCursor round (encodeCursor cursor) = some cursor
  encoded : (decodeCursor round (encodeCursor cursor)).map encodeCursor = some (encodeCursor cursor)
  answered : ∀ limit, handleTimeline entries limit (some (encodeCursor cursor)) =
    .ok (timelineBody (timelinePage entries limit (some cursor)))

def Countable (entry : Entry round ρ) : Prop :=
  acceptable entry.ts = true ∧ ∀ seq ∈ entry.seq, acceptable seq = true

theorem decode_encode {cursor : Cursor} (seqDouble : ∀ s ∈ cursor.seq, IsDouble round s) (tsDouble : IsDouble round cursor.ts) :
    decodeCursor round (encodeCursor cursor) =
      if acceptable cursor.ts && cursor.seq.all acceptable then some cursor else none := by
  obtain ⟨seq,ts⟩ := cursor
  have plain : ∀ x, '~' ∉ text x := fun x => text_not x (.inl (by decide)) (by decide)
  have free : ∀ c ∈ seq.elim ['-'] text, decide (c ≠ '~') = true := by
    intro c inside
    cases seq with
    | none => rw [List.mem_singleton.mp inside]; rfl
    | some s => exact decide_eq_true fun same => plain s (same ▸ inside)
  have taken : (encodeCursor ⟨seq,ts⟩).toList.takeWhile (· ≠ '~') = seq.elim ['-'] text := by
    rw [encodeCursor,String.toList_ofList,List.takeWhile_append_of_pos free]
    simp
  have dropped : (encodeCursor ⟨seq,ts⟩).toList.dropWhile (· ≠ '~') = '~' :: text ts := by
    rw [encodeCursor,String.toList_ofList,List.dropWhile_append_of_pos free]
    simp
  have some' : seq.elim ['-'] text ≠ [] := by
    cases seq with
    | none => exact List.cons_ne_nil _ _
    | some s => exact text_nonempty s
  have read : ofText round (text ts) = ts := ofText_text tsDouble
  simp only [decodeCursor,taken,dropped,some',text_nonempty,or_self,if_false,read]
  cases seq with
  | none => cases acceptable ts <;> simp
  | some s =>
    have other : text s ≠ ['-'] := text_not_dash s
    have readSeq : ofText round (text s) = s := ofText_text (seqDouble s rfl)
    cases acceptable ts <;> cases known : acceptable s <;> simp [other,readSeq,known]

theorem token_nonempty (cursor : Cursor) : encodeCursor cursor ≠ "" := by
  intro none'
  have lists := congrArg String.toList none'
  simp [encodeCursor] at lists

theorem follows_exact {entries : List (Entry round ρ)} {cursor : Cursor} (seqDouble : ∀ s ∈ cursor.seq, IsDouble round s)
    (tsDouble : IsDouble round cursor.ts) :
    Follows entries cursor ↔ (acceptable cursor.ts && cursor.seq.all acceptable) = true := by
  have decoded := decode_encode seqDouble tsDouble
  constructor
  · intro follows
    have read := follows.decoded
    rw [decoded] at read
    split at read
    · assumption
    · cases read
  · intro accepted
    rw [if_pos accepted] at decoded
    exact ⟨decoded,by rw [decoded]; rfl,fun limit => by simp [handleTimeline,token_nonempty,decoded]⟩

theorem page_first (entries : List (Entry round ρ)) (limit : Nat) (before : Option Cursor) {cursor : Cursor}
    (next : (timelinePage entries limit before).cursor = some cursor) :
    ∃ first, (timelinePage entries limit before).entries.head? = some first ∧ cursor = ⟨first.seq,first.ts⟩ := by
  unfold timelinePage page at next ⊢
  dsimp only at next ⊢
  split at next
  · obtain ⟨first,head,rfl⟩ := Option.map_eq_some_iff.mp next
    exact ⟨first,head,rfl⟩
  · cases next

-- Of every page, whatever it was asked with: its cursor can be followed exactly if the entry it
-- names has a timestamp, and a seq if any, that is an integer and not negative.
theorem cursor_followed (entries : List (Entry round ρ)) (limit : Nat) (before : Option Cursor) :
    (∀ cursor ∈ (timelinePage entries limit before).cursor, Follows entries cursor) ↔
      ((timelinePage entries limit before).cursor.isSome = true →
        ∀ first ∈ (timelinePage entries limit before).entries.head?, Countable first) := by
  have accepted (first : Entry round ρ) : (acceptable first.ts && first.seq.all acceptable) = true ↔ Countable first := by
    simp [Countable,Option.all_eq_true]
  constructor
  · intro follows more first head
    obtain ⟨cursor,next⟩ := Option.isSome_iff_exists.mp more
    obtain ⟨other,same,rfl⟩ := page_first entries limit before next
    cases Option.some.inj (head.symm.trans same)
    exact (accepted first).mp ((follows_exact first.seqDouble first.tsDouble).mp (follows _ next))
  · intro countable cursor next
    obtain ⟨first,head,rfl⟩ := page_first entries limit before next
    exact (follows_exact first.seqDouble first.tsDouble).mpr
      ((accepted first).mpr (countable (Option.isSome_iff_exists.mpr ⟨_,next⟩) first head))

-- Short decimals are doubles as they are; so an entry of whole numbers is one of these.
def entryOf (entry : TimelineEntry Unit Unit) : Entry .finite String where
  seq := entry.seq.map ofInt
  ts := ofInt entry.ts
  rest := entry.text
  seqDouble := fun _ _ _ same => same.symm
  tsDouble := fun _ same => same.symm

def clock : DateParse := fun ts => (["1969-12-31T23:59:58Z","1969-12-31T23:59:59Z"].idxOf? ts).map fun n => (n : Int) * 1000 - 2000
def oldEvents : TimelineInputs Unit Unit :=
  replayed [message "1969-12-31T23:59:58Z" "a" none,message "1969-12-31T23:59:59Z" "b" none]

-- Two events of before 1970: the token that leads to the older one is refused.
theorem old_cursor_refused : (getSessionTimeline clock oldEvents 1 none).cursor = some ⟨none,-1000⟩ ∧
    (timelineBody (timelinePage ((timeline clock oldEvents).map entryOf) 1 none)).nextCursor = some "-~-1000" ∧
    decodeCursor .finite "-~-1000" = none ∧
    ¬ ∀ cursor ∈ (timelinePage ((timeline clock oldEvents).map entryOf) 1 none).cursor,
      Follows ((timeline clock oldEvents).map entryOf) cursor := by
  have next : (timelinePage ((timeline clock oldEvents).map entryOf) 1 none).cursor = some ⟨none,ofInt (-1000)⟩ := by
    decide +kernel
  have refused : decodeCursor .finite (encodeCursor ⟨none,ofInt (-1000)⟩) = none := by decide +kernel
  refine ⟨by decide +kernel,by decide +kernel,by decide +kernel,fun follows => ?_⟩
  have read := (follows _ next).decoded
  rw [refused] at read
  cases read

end AgentSideCar.Timeline.Token
