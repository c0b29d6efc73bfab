import Mathlib.Logic.Denumerable
import AgentSideCar.Tail.Follower

namespace AgentSideCar.Tail
variable {ρ : Type}

-- What a checkpoint may hold under a key: a list and a tuple are one, and so are bytes and a bytearray.
inductive Held (ρ : Type) where
  | none
  | bool (b : Bool)
  | int (n : Int)
  | float (x : Rat)
  | text (s : String)
  | bytes (raw : Bytes)
  | sequence (items : List (Held ρ))
  | mapping (record : ρ)
  | other

-- checkpoint.get, for a checkpoint that is a mapping at all.
abbrev Mapping (ρ : Type) := String → Held ρ

-- A device and an inode are one number.
def identityPair (identity : Nat) : Int × Int := Denumerable.ofNat (Int × Int) identity

def exportMapping (path : String) (s : Follower ρ) : Mapping ρ := fun key =>
  if key = "version" then .int 1
  else if key = "kind" then .text "jsonl"
  else if key = "path" then .text path
  else if key = "offset" then .int s.offset
  else if key = "identity" then
    match s.identity with
    | none => .none
    | some identity => .sequence [.int (identityPair identity).1,.int (identityPair identity).2]
  else if key = "anchor" then .bytes s.anchor
  else if key = "pending" then .bytes s.pending
  else if key = "dropping_line" then .bool s.droppingLine
  else if key = "records" then .sequence (s.records.map .mapping)
  else if key = "missing_at_start" then .bool s.missingAtStart
  else .none

-- What equals 1.
def isOne : Held ρ → Bool
  | .bool b => b
  | .int n => n = 1
  | .float x => x = 1
  | _ => false

def isText (expected : String) : Held ρ → Bool
  | .text s => s = expected
  | _ => false

def natural : Held ρ → Option Nat
  | .int n => if 0 ≤ n then some n.toNat else none
  | _ => none

def rawBytes (limit : Nat) : Held ρ → Option Bytes
  | .bytes raw => if raw.length ≤ limit then some raw else none
  | _ => none

def flag : Held ρ → Option Bool
  | .bool b => some b
  | _ => none

def recordsOf (limit : Nat) : Held ρ → Option (List ρ)
  | .sequence items =>
    if limit < items.length then none
    else items.mapM fun item => match item with
      | .mapping record => some record
      | _ => none
  | _ => none

def identityOf : Held ρ → Option (Option Nat)
  | .none => some none
  | .sequence [.int dev,.int ino] => some (some (Encodable.encode (dev,ino)))
  | _ => none

-- The checks that restore_checkpoint makes before it assigns anything.
def readCheckpoint (b : Bounds) (path : String) (get : Mapping ρ) : Option (Checkpoint ρ) :=
  if isOne (get "version") && isText "jsonl" (get "kind") && isText path (get "path") then do
    let offset ← natural (get "offset")
    let anchor ← rawBytes (min 64 offset) (get "anchor")
    let pending ← rawBytes (min b.maxLineBytes offset) (get "pending")
    let droppingLine ← flag (get "dropping_line")
    let missingAtStart ← flag (get "missing_at_start")
    let identity ← identityOf (get "identity")
    let records ← recordsOf b.maxReadBytes (get "records")
    some ⟨path,offset,identity,anchor,pending,droppingLine,records,missingAtStart⟩
  else none

-- restore_checkpoint with its answer; none is a checkpoint that is no mapping.
def restore (b : Bounds) (path : String) (checkpoint : Option (Mapping ρ)) (s : Follower ρ) : Bool × Follower ρ :=
  match checkpoint.bind (readCheckpoint b path) with
  | none => (false,s)
  | some c => (true,{s with
      offset := c.offset
      identity := c.identity
      anchor := c.anchor
      pending := c.pending
      droppingLine := c.droppingLine
      records := c.records
      missingAtStart := c.missingAtStart})

-- What the polls of some looks come back with.
def pollAll (r : Reader ρ) : List (Option File) → Follower ρ → List (Option (List ρ))
  | [],_ => []
  | look :: rest,s => (poll r look s).2 :: pollAll r rest (poll r look s).1

-- A follower of a file, whatever has happened to it: what its polls met, and checkpoints that were
-- exported from a follower of any file and limits.
inductive Reachable : Reader ρ → Follower ρ → Prop where
  | created (fromStart : Bool) (look : Option File) : Reachable r (initializeFollower r.bounds fromStart look)
  | polled (look : Option File) : Reachable r s → Reachable r (poll r look s).1
  | restored (path path' : String) : Reachable r s → Reachable r' s' →
      Reachable r (restore r.bounds path (some (exportMapping path' s')) s).2

-- What a checkpoint needs, and a file that has not been met is met from its beginning.
structure Portable (b : Bounds) (s : Follower ρ) : Prop where
  anchor : s.anchor.length ≤ min 64 s.offset
  pending : s.pending.length ≤ min b.maxLineBytes s.offset
  records : s.records.length ≤ b.maxReadBytes
  unmet : s.identity = none → s.missingAtStart = true ∧ s.anchor = [] ∧ s.pending = []

variable {r : Reader ρ} {b : Bounds} {s t : Follower ρ}

theorem readAnchor_length (f : File) (finish : Nat) : (readAnchor f finish).length ≤ min 64 finish := by
  unfold readAnchor slice
  split
  · rw [List.length_take]; exact Nat.min_le_left _ _
  · exact Nat.zero_le _

theorem afterLast_length (bytes : Bytes) : (afterLast bytes).length ≤ bytes.length := by
  rw [afterLast,List.length_reverse]
  exact (List.takeWhile_sublist _).length_le.trans List.length_reverse.le

theorem capture_portable (f : File) (finish : Nat) (empty : s.pending = []) :
    ∃ row dropping, captureTrailingPartial b f finish s = {s with pending := row,droppingLine := dropping} ∧
      row.length ≤ min b.maxLineBytes finish := by
  have none' : ([] : Bytes).length ≤ min b.maxLineBytes finish := Nat.zero_le _
  unfold captureTrailingPartial
  split
  · exact ⟨s.pending,s.droppingLine,rfl,empty ▸ none'⟩
  have whole : (slice f.content (finish - min (b.maxLineBytes + 1) finish) (min (b.maxLineBytes + 1) finish)).length ≤ finish := by
    rw [slice,List.length_take]
    omega
  simp only
  generalize slice f.content (finish - min (b.maxLineBytes + 1) finish) (min (b.maxLineBytes + 1) finish) = suffix at *
  split
  · exact ⟨s.pending,true,rfl,empty ▸ none'⟩
  have bound : (if newline ∈ suffix then afterLast suffix else suffix).length ≤ finish := by
    split
    · exact (afterLast_length _).trans whole
    · exact whole
  generalize (if newline ∈ suffix then afterLast suffix else suffix) = row at *
  split
  · exact ⟨s.pending,true,rfl,empty ▸ none'⟩
  · rename_i short
    refine ⟨_,s.droppingLine,rfl,?_⟩
    rw [empty,List.nil_append]
    exact Nat.le_min_of_le_of_le (Nat.le_of_not_lt short) bound

theorem created_portable (fromStart : Bool) (look : Option File) :
    Portable b (initializeFollower b fromStart look : Follower ρ) := by
  cases look with
  | none => exact ⟨Nat.zero_le _,Nat.zero_le _,Nat.zero_le _,fun _ => ⟨rfl,rfl,rfl⟩⟩
  | some f =>
    simp only [initializeFollower]
    generalize (if fromStart then 0 else f.content.length) = offset
    split
    · refine ⟨Nat.zero_le _,Nat.zero_le _,Nat.zero_le _,fun unmet => ?_⟩
      cases unmet
    · obtain ⟨row,dropping,captured,short⟩ := capture_portable (ρ := ρ) (b := b) (s := {
        fromStart := fromStart
        identity := some f.identity
        offset := offset
        anchor := readAnchor f offset}) f offset rfl
      rw [captured]
      refine ⟨readAnchor_length f offset,short,Nat.zero_le _,fun unmet => ?_⟩
      cases unmet

theorem reset_portable (identity : Nat) : Portable b (reset {s with identity := some identity}) :=
  ⟨Nat.zero_le _,Nat.zero_le _,Nat.zero_le _,fun unmet => nomatch unmet⟩

theorem settle_portable (portable : Portable b s) (f : File) :
    Portable b (settle f s) ∧ (settle f s).identity = some f.identity := by
  unfold settle
  split
  · rename_i unmet
    obtain ⟨missing,anchor,pending⟩ := portable.unmet unmet
    refine ⟨⟨?_,?_,portable.records,fun unmet => nomatch unmet⟩,rfl⟩
    · simp only [anchor]; exact Nat.zero_le _
    · simp only [pending]; exact Nat.zero_le _
  split
  · exact ⟨reset_portable f.identity,rfl⟩
  rename_i same
  have met : s.identity = some f.identity := by
    by_contra differs
    exact same (.inl differs)
  split
  · have again := reset_portable (b := b) (s := s) f.identity
    rw [show ({s with identity := some f.identity} : Follower ρ) = s by rw [← met]] at again
    exact ⟨again,met⟩
  · exact ⟨portable,met⟩

-- What a chunk may change: the open row, which stays within the limit, and the records, one for a byte at most.
structure Consumes (b : Bounds) (chunk : Bytes) (s after : Follower ρ) : Prop where
  frame : after = {s with
    pending := after.pending
    droppingLine := after.droppingLine
    records := after.records}
  row : after.pending.length ≤ s.pending.length + chunk.length
  limit : s.pending.length ≤ b.maxLineBytes → after.pending.length ≤ b.maxLineBytes
  records : after.records.length ≤ s.records.length + chunk.length

theorem consumeLine_adds (consumed : consumeLine r raw s = some after) :
    ∃ records, after = {s with records := records} ∧ records.length ≤ s.records.length + 1 := by
  unfold consumeLine at consumed
  split at consumed
  · cases consumed
    exact ⟨_,rfl,Nat.le_succ _⟩
  · split at consumed <;> cases consumed
    · exact ⟨_,rfl,by simp⟩
    · exact ⟨_,rfl,Nat.le_succ _⟩

theorem Consumes.same (b : Bounds) (chunk : Bytes) (s : Follower ρ) : Consumes b chunk s s :=
  ⟨rfl,Nat.le_add_right _ _,fun fits => fits,Nat.le_add_right _ _⟩

theorem Consumes.line {segment rest : Bytes} {between : Follower ρ} (later : Consumes b rest between after)
    (frame : between = {s with
      pending := []
      droppingLine := between.droppingLine
      records := between.records})
    (few : between.records.length ≤ s.records.length + 1) : Consumes b (segment ++ newline :: rest) s after := by
  have empty : between.pending = [] := by rw [frame]
  obtain ⟨framed,row,limit,records⟩ := later
  rw [empty] at row limit
  simp only [List.length_nil,Nat.zero_add] at row limit
  refine ⟨?_,?_,fun _ => limit (Nat.zero_le _),?_⟩
  · rw [framed,frame]
  · simp only [List.length_append,List.length_cons]; omega
  · simp only [List.length_append,List.length_cons]; omega

theorem consumeChunk_consumes (r : Reader ρ) (steps : Nat) (chunk : Bytes) (s : Follower ρ) :
    Consumes r.bounds chunk s (consumeChunk r steps chunk s).1 := by
  induction steps generalizing chunk s with
  | zero => exact .same _ _ _
  | succ steps ih =>
    cases chunk with
    | nil => exact .same _ _ _
    | cons x rest =>
      rw [consumeChunk]
      · cases next : Lines.nextLine newline (x :: rest) with
        | none =>
          simp only
          split
          · exact .same _ _ _
          split
          · exact ⟨rfl,Nat.zero_le _,fun _ => Nat.zero_le _,Nat.le_add_right _ _⟩
          · rename_i short
            rw [← List.length_append] at short
            exact ⟨rfl,List.length_append.le,fun _ => Nat.le_of_not_lt short,Nat.le_add_right _ _⟩
        | some found =>
          obtain ⟨segment,later⟩ := found
          obtain ⟨-,whole⟩ := Lines.nextLine_some next
          rw [whole]
          simp only
          split
          · exact (ih later _).line rfl (Nat.le_succ _)
          split
          · cases consumed : consumeLine r (s.pending ++ segment) s with
            | none => exact .same _ _ _
            | some read =>
              obtain ⟨records,rfl,few⟩ := consumeLine_adds consumed
              exact (ih later _).line rfl few
          · exact (ih later _).line rfl (Nat.le_succ _)
      · simp

theorem pop_portable (portable : Portable b s) : Portable b (popRecords b s).1 :=
  ⟨portable.anchor,portable.pending,(List.drop_sublist _ _).length_le.trans portable.records,portable.unmet⟩

theorem poll_portable (portable : Portable r.bounds s) (look : Option File) : Portable r.bounds (poll r look s).1 := by
  unfold poll
  split
  · exact pop_portable portable
  rename_i idle
  cases look with
  | none => exact portable
  | some f =>
    obtain ⟨settled,met⟩ := settle_portable portable f
    have few : (settle f s).records = [] := by
      have kept : s.records = [] := by simpa using idle
      unfold settle reset
      split
      · exact kept
      split
      · rfl
      split
      · rfl
      · exact kept
    simp only
    generalize settle f s = t at *
    have read : (if f.opens then slice f.content t.offset (min r.bounds.maxReadBytes (f.content.length - t.offset)) else []).length ≤
        r.bounds.maxReadBytes := by
      split
      · rw [slice,List.length_take]; omega
      · exact Nat.zero_le _
    generalize (if f.opens then slice f.content t.offset (min r.bounds.maxReadBytes (f.content.length - t.offset)) else []) =
      chunk at *
    split
    · exact settled
    have consumed := consumeChunk_consumes r chunk.length chunk
      {t with offset := t.offset + chunk.length,anchor := lastBytes 64 (t.anchor ++ chunk)}
    generalize consumeChunk r chunk.length chunk
      {t with offset := t.offset + chunk.length,anchor := lastBytes 64 (t.anchor ++ chunk)} = out at *
    obtain ⟨frame,row,limit,records⟩ := consumed
    simp only [few,List.length_nil,Nat.zero_add] at row limit records
    have after : Portable r.bounds out.1 := by
      have anchor := settled.anchor
      have pending := settled.pending
      have bounded := limit (by omega)
      have moved : out.1.offset = t.offset + chunk.length := by rw [frame]
      refine ⟨?_,by omega,records.trans read,?_⟩
      · rw [moved,show out.1.anchor = lastBytes 64 (t.anchor ++ chunk) by rw [frame],lastBytes_length,List.length_append]
        omega
      · rw [show out.1.identity = t.identity by rw [frame]]
        intro unmet
        cases met.symm.trans unmet
    split
    · exact after
    · exact pop_portable after

theorem records_read (records : List ρ) (few : records.length ≤ limit) :
    recordsOf limit (.sequence (records.map .mapping)) = some records := by
  rw [recordsOf,if_neg (by rw [List.length_map]; omega)]
  clear few
  induction records with
  | nil => rfl
  | cons record rest ih => rw [List.map_cons,List.mapM_cons,ih]; rfl

theorem identity_exported (s : Follower ρ) (path : String) : identityOf (exportMapping path s "identity") = some s.identity := by
  simp only [exportMapping]
  cases s.identity with
  | none => rfl
  | some n =>
    show some (some (Encodable.encode (Denumerable.ofNat (Int × Int) n))) = _
    rw [Denumerable.encode_ofNat]

theorem export_read (portable : Portable b s) (path : String) : readCheckpoint b path (exportMapping path s) =
    some (exportCheckpoint path s) := by
  have offset : natural (.int (s.offset : Int) : Held ρ) = some s.offset := by simp [natural]
  have anchor : rawBytes (min 64 s.offset) (.bytes s.anchor : Held ρ) = some s.anchor := if_pos portable.anchor
  have pending : rawBytes (min b.maxLineBytes s.offset) (.bytes s.pending : Held ρ) = some s.pending := if_pos portable.pending
  have identity := identity_exported s path
  have records := records_read s.records portable.records
  show (if true && isText "jsonl" (.text "jsonl" : Held ρ) && isText path (.text path : Held ρ) then _ else _) = _
  rw [if_pos (by simp [isText])]
  show (natural (.int (s.offset : Int) : Held ρ)).bind _ = _
  rw [offset,Option.bind_some]
  show (rawBytes (min 64 s.offset) (.bytes s.anchor : Held ρ)).bind _ = _
  rw [anchor,Option.bind_some]
  show (rawBytes (min b.maxLineBytes s.offset) (.bytes s.pending : Held ρ)).bind _ = _
  rw [pending,Option.bind_some]
  show (identityOf (exportMapping path s "identity")).bind _ = _
  rw [identity,Option.bind_some]
  show (recordsOf b.maxReadBytes (.sequence (s.records.map .mapping))).bind _ = _
  rw [records,Option.bind_some]
  rfl

-- The same follower, but for the option it was made with.
def Resumed (s t : Follower ρ) : Prop := t = {s with fromStart := t.fromStart}

theorem restore_resumed (portable : Portable b s) (path : String) (fresh : Follower ρ) :
    ∃ t, restore b path (some (exportMapping path s)) fresh = (true,t) ∧ Resumed s t := by
  unfold restore
  rw [Option.bind_some,export_read portable path]
  exact ⟨_,rfl,rfl⟩

theorem accepted_checks {get : Mapping ρ} (accepted : readCheckpoint b path get = some c) :
    natural (get "offset") = some c.offset ∧ rawBytes (min 64 c.offset) (get "anchor") = some c.anchor ∧
    rawBytes (min b.maxLineBytes c.offset) (get "pending") = some c.pending ∧ flag (get "dropping_line") = some c.droppingLine ∧
    flag (get "missing_at_start") = some c.missingAtStart ∧ identityOf (get "identity") = some c.identity ∧
    recordsOf b.maxReadBytes (get "records") = some c.records := by
  unfold readCheckpoint at accepted
  split at accepted
  · obtain ⟨offset,first,accepted⟩ := Option.bind_eq_some_iff.mp accepted
    obtain ⟨anchor,second,accepted⟩ := Option.bind_eq_some_iff.mp accepted
    obtain ⟨pending,third,accepted⟩ := Option.bind_eq_some_iff.mp accepted
    obtain ⟨dropping,fourth,accepted⟩ := Option.bind_eq_some_iff.mp accepted
    obtain ⟨missing,fifth,accepted⟩ := Option.bind_eq_some_iff.mp accepted
    obtain ⟨identity,sixth,accepted⟩ := Option.bind_eq_some_iff.mp accepted
    obtain ⟨records,seventh,accepted⟩ := Option.bind_eq_some_iff.mp accepted
    cases accepted
    exact ⟨first,second,third,fourth,fifth,sixth,seventh⟩
  · cases accepted

theorem rawBytes_some {given : Held ρ} (accepted : rawBytes limit given = some raw) : given = .bytes raw ∧ raw.length ≤ limit := by
  unfold rawBytes at accepted
  split at accepted
  · split at accepted
    · rename_i fits
      cases accepted
      exact ⟨rfl,fits⟩
    · cases accepted
  · cases accepted

theorem mapM_length {α β : Type} {f : α → Option β} {l : List α} {out : List β} (mapped : l.mapM f = some out) : out.length = l.length := by
  induction l generalizing out with
  | nil =>
    cases mapped
    rfl
  | cons a rest ih =>
    rw [List.mapM_cons] at mapped
    obtain ⟨first,-,mapped⟩ := Option.bind_eq_some_iff.mp mapped
    obtain ⟨later,rested,mapped⟩ := Option.bind_eq_some_iff.mp mapped
    cases mapped
    rw [List.length_cons,List.length_cons,ih rested]

theorem recordsOf_some {given : Held ρ} (accepted : recordsOf limit given = some records) : records.length ≤ limit := by
  unfold recordsOf at accepted
  split at accepted
  · split at accepted
    · cases accepted
    · rename_i few
      have count := mapM_length accepted
      omega
  · cases accepted

-- What was exported elsewhere, under other limits, does no harm.
theorem restore_portable (portable : Portable b s) (path path' : String) (origin : Portable b' s') :
    Portable b (restore b path (some (exportMapping path' s')) s).2 := by
  unfold restore
  rw [Option.bind_some]
  cases read : readCheckpoint b path (exportMapping path' s') with
  | none => exact portable
  | some c =>
    obtain ⟨-,anchor,pending,-,missing,identity,records⟩ := accepted_checks read
    obtain ⟨anchored,short⟩ := rawBytes_some anchor
    obtain ⟨pended,within⟩ := rawBytes_some pending
    have sameAnchor : s'.anchor = c.anchor := Held.bytes.inj anchored
    have samePending : s'.pending = c.pending := Held.bytes.inj pended
    refine ⟨short,within,recordsOf_some records,fun unmet => ?_⟩
    rw [identity_exported] at identity
    obtain ⟨started,empty,none'⟩ := origin.unmet ((Option.some.inj identity).trans unmet)
    exact ⟨(Option.some.inj missing).symm.trans started,sameAnchor.symm.trans empty,samePending.symm.trans none'⟩

theorem reachable_portable (reached : Reachable r s) : Portable r.bounds s := by
  induction reached with
  | created fromStart look => exact created_portable fromStart look
  | polled look _ ih => exact poll_portable ih look
  | restored path path' _ _ ih ih' => exact restore_portable ih path path' ih'

theorem settle_resumed (unmet : s.identity = none → s.missingAtStart = true) (resumed : Resumed s t) (f : File) :
    Resumed (settle f s) (settle f t) := by
  rw [Resumed] at resumed
  generalize t.fromStart = fromStart at resumed
  subst resumed
  unfold settle
  split
  · rename_i new
    simp only [unmet new,Bool.true_or,if_true]
    rfl
  split
  · rfl
  split <;> rfl

theorem popRecords_resumed (resumed : Resumed s t) :
    (popRecords b s).2 = (popRecords b t).2 ∧ Resumed (popRecords b s).1 (popRecords b t).1 := by
  rw [Resumed] at resumed
  generalize t.fromStart = fromStart at resumed
  subst resumed
  exact ⟨rfl,rfl⟩

theorem consumeChunk_resumed (r : Reader ρ) (steps : Nat) (chunk : Bytes) (resumed : Resumed s t) :
    (consumeChunk r steps chunk s).2 = (consumeChunk r steps chunk t).2 ∧
      Resumed (consumeChunk r steps chunk s).1 (consumeChunk r steps chunk t).1 := by
  induction steps generalizing chunk s t with
  | zero => exact ⟨rfl,resumed⟩
  | succ steps ih =>
    cases chunk with
    | nil => exact ⟨rfl,resumed⟩
    | cons x rest =>
      rw [Resumed] at resumed
      generalize t.fromStart = fromStart at resumed
      subst resumed
      rw [consumeChunk,consumeChunk]
      · cases Lines.nextLine newline (x :: rest) with
        | none =>
          simp only
          split
          · exact ⟨rfl,rfl⟩
          · split <;> exact ⟨rfl,rfl⟩
        | some found =>
          simp only
          split
          · exact ih _ rfl
          split
          · have line : consumeLine r (s.pending ++ found.1) {s with fromStart := fromStart} =
                (consumeLine r (s.pending ++ found.1) s).map fun after => {after with fromStart := fromStart} := by
              unfold consumeLine
              split
              · rfl
              · split <;> rfl
            rw [line]
            cases consumeLine r (s.pending ++ found.1) s with
            | none => exact ⟨rfl,rfl⟩
            | some read => exact ih _ rfl
          · exact ih _ rfl
      · simp
      · simp

theorem poll_resumed (portable : Portable r.bounds s) (resumed : Resumed s t) (look : Option File) :
    (poll r look s).2 = (poll r look t).2 ∧ Resumed (poll r look s).1 (poll r look t).1 := by
  have records : s.records = t.records := by rw [resumed]
  unfold poll
  rw [records]
  split
  · exact popRecords_resumed resumed
  cases look with
  | none => exact ⟨rfl,resumed⟩
  | some f =>
    have settled := settle_resumed (fun unmet => (portable.unmet unmet).1) resumed f
    simp only
    generalize settle f s = s' at *
    generalize settle f t = t' at *
    rw [show t'.offset = s'.offset by rw [settled]]
    generalize (if f.opens then slice f.content s'.offset (min r.bounds.maxReadBytes (f.content.length - s'.offset)) else []) =
      chunk at *
    split
    · exact ⟨rfl,settled⟩
    have advanced : Resumed {s' with offset := s'.offset + chunk.length,anchor := lastBytes 64 (s'.anchor ++ chunk)}
        {t' with offset := s'.offset + chunk.length,anchor := lastBytes 64 (t'.anchor ++ chunk)} := by
      rw [Resumed,settled]
    obtain ⟨raised,read⟩ := consumeChunk_resumed r chunk.length chunk advanced
    rw [raised]
    split
    · exact ⟨rfl,read⟩
    · exact popRecords_resumed read

theorem pollAll_resumed (portable : Portable r.bounds s) (resumed : Resumed s t) (looks : List (Option File)) :
    pollAll r looks s = pollAll r looks t := by
  induction looks generalizing s t with
  | nil => rfl
  | cons look rest ih =>
    obtain ⟨same,after⟩ := poll_resumed portable resumed look
    rw [pollAll,pollAll,same,ih (poll_portable portable look) after]

-- Whatever has happened to a follower, another of its file and limits takes up its checkpoint and
-- polls on as it would have; a checkpoint of any shape that is refused changes nothing.
theorem checkpoint_resumes (r : Reader ρ) (path : String) (fresh : Follower ρ) :
    (∀ s, Reachable r s → ∃ t, restore r.bounds path (some (exportMapping path s)) fresh = (true,t) ∧
      ∀ looks, pollAll r looks t = pollAll r looks s) ∧
    ∀ checkpoint, (restore r.bounds path checkpoint fresh).1 = false → (restore r.bounds path checkpoint fresh).2 = fresh := by
  constructor
  · intro s reached
    have portable := reachable_portable reached
    obtain ⟨t,restored,resumed⟩ := restore_resumed portable path fresh
    exact ⟨t,restored,fun looks => (pollAll_resumed portable resumed looks).symm⟩
  · intro checkpoint refused
    unfold restore at refused ⊢
    split
    · rfl
    · rename_i accepted
      rw [accepted] at refused
      cases refused

end AgentSideCar.Tail
