import AgentSideCar.Library.Lines

namespace AgentSideCar.Tail
variable {ρ : Type}

abbrev Bytes := List UInt8
def newline : UInt8 := 10
def isSpace (b : UInt8) : Bool := b = 32 || 9 ≤ b && b ≤ 13

-- What the decoded line loads as: an object, some other value or a parse error, or
-- an exception that is neither (a nesting too deep, an integer too long).
inductive Loaded (ρ : Type) where
  | object (record : ρ)
  | other
  | raises

structure Bounds where
  maxReadBytes : Nat := 64 * 1024
  maxLineBytes : Nat := 1024 * 1024
  maxRecords : Nat := 256
  reads : 0 < maxReadBytes := by decide
  rows : 0 < maxLineBytes := by decide
  polls : 0 < maxRecords := by decide

def Bounds.usual : Bounds := {}

structure Reader (ρ : Type) where
  bounds : Bounds
  loads : Bytes → Loaded ρ

-- A regular file at one look; `opens` is false where stat succeeds and open fails.
-- Every read stays below the size that was asked for first, so one look serves both.
structure File where
  identity : Nat
  content : Bytes
  opens : Bool
  deriving DecidableEq

structure Follower (ρ : Type) where
  fromStart : Bool
  offset : Nat := 0
  identity : Option Nat := none
  anchor : Bytes := []
  pending : Bytes := []
  droppingLine : Bool := false
  records : List ρ := []
  missingAtStart : Bool := false
  deriving DecidableEq

def slice (content : Bytes) (start amount : Nat) : Bytes := (content.drop start).take amount
def lastBytes (n : Nat) (bytes : Bytes) : Bytes := bytes.drop (bytes.length - n)

def readAnchor (f : File) (finish : Nat) : Bytes :=
  if f.opens then slice f.content (finish - min 64 finish) (min 64 finish) else []

def afterLast (bytes : Bytes) : Bytes := (bytes.reverse.takeWhile (· ≠ newline)).reverse

def captureTrailingPartial (b : Bounds) (f : File) (finish : Nat) (s : Follower ρ) : Follower ρ :=
  if !f.opens then s
  else
    let amount := min (b.maxLineBytes + 1) finish
    let suffix := slice f.content (finish - amount) amount
    if newline ∉ suffix ∧ suffix.length < finish then {s with droppingLine := true}
    else
      let row := if newline ∈ suffix then afterLast suffix else suffix
      if b.maxLineBytes < row.length then {s with droppingLine := true}
      else {s with pending := s.pending ++ row}

def initializeFollower (b : Bounds) (fromStart : Bool) (look : Option File) : Follower ρ :=
  match look with
  | none => {fromStart := fromStart,missingAtStart := true}
  | some f =>
    let offset := if fromStart then 0 else f.content.length
    let s : Follower ρ := {fromStart := fromStart,identity := some f.identity,offset := offset}
    if offset = 0 then s else captureTrailingPartial b f offset {s with anchor := readAnchor f offset}

def reset (s : Follower ρ) : Follower ρ :=
  {s with offset := 0,anchor := [],pending := [],droppingLine := false,records := []}

-- None where the exception of json.loads leaves the call.
def consumeLine (r : Reader ρ) (raw : Bytes) (s : Follower ρ) : Option (Follower ρ) :=
  if raw.all isSpace || decide (r.bounds.maxLineBytes < raw.length) then some s
  else match r.loads raw with
    | .object record => some {s with records := s.records ++ [record]}
    | .other => some s
    | .raises => none

-- The flag tells whether an exception cut the chunk short.
def consumeChunk (r : Reader ρ) : Nat → Bytes → Follower ρ → Follower ρ × Bool
  | 0,_,s => (s,false)
  | _+1,[],s => (s,false)
  | steps+1,remaining,s =>
    match Lines.nextLine newline remaining with
    | none =>
      if s.droppingLine then (s,false)
      else if r.bounds.maxLineBytes < s.pending.length + remaining.length then
        ({s with pending := [],droppingLine := true},false)
      else ({s with pending := s.pending ++ remaining},false)
    | some (segment,rest) =>
      if s.droppingLine then consumeChunk r steps rest {s with droppingLine := false,pending := []}
      else if s.pending.length + segment.length ≤ r.bounds.maxLineBytes then
        match consumeLine r (s.pending ++ segment) s with
        | none => (s,true)
        | some read => consumeChunk r steps rest {read with pending := []}
      else consumeChunk r steps rest {s with pending := []}

def popRecords (b : Bounds) (s : Follower ρ) : Follower ρ × Option (List ρ) :=
  ({s with records := s.records.drop b.maxRecords},some (s.records.take b.maxRecords))

-- What a poll finds before it reads: the file of before, a new one, or one rewritten.
def settle (f : File) (s : Follower ρ) : Follower ρ :=
  if s.identity = none then
    {s with
      identity := some f.identity
      offset := if s.missingAtStart || s.fromStart then 0 else f.content.length
      missingAtStart := false}
  else if s.identity ≠ some f.identity ∨ f.content.length < s.offset then reset {s with identity := some f.identity}
  else if s.offset ≠ 0 ∧ s.anchor ≠ readAnchor f s.offset then reset s
  else s

-- No records where an exception left the poll.
def poll (r : Reader ρ) (look : Option File) (s : Follower ρ) : Follower ρ × Option (List ρ) :=
  if s.records ≠ [] then popRecords r.bounds s
  else match look with
    | none => (s,some [])
    | some f =>
      let s := settle f s
      let chunk := if f.opens then slice f.content s.offset (min r.bounds.maxReadBytes (f.content.length - s.offset)) else []
      if chunk = [] then (s,some [])
      else
        let read := consumeChunk r chunk.length chunk
          {s with offset := s.offset + chunk.length,anchor := lastBytes 64 (s.anchor ++ chunk)}
        if read.2 then (read.1,none) else popRecords r.bounds read.1

structure Checkpoint (ρ : Type) where
  path : String
  offset : Nat
  identity : Option Nat
  anchor : Bytes
  pending : Bytes
  droppingLine : Bool
  records : List ρ
  missingAtStart : Bool

def exportCheckpoint (path : String) (s : Follower ρ) : Checkpoint ρ :=
  ⟨path,s.offset,s.identity,s.anchor,s.pending,s.droppingLine,s.records,s.missingAtStart⟩

def restoreCheckpoint (b : Bounds) (path : String) (c : Checkpoint ρ) (s : Follower ρ) : Follower ρ :=
  if c.path ≠ path ∨ min 64 c.offset < c.anchor.length ∨ min b.maxLineBytes c.offset < c.pending.length ∨
      b.maxReadBytes < c.records.length then s
  else {s with
    offset := c.offset
    identity := c.identity
    anchor := c.anchor
    pending := c.pending
    droppingLine := c.droppingLine
    records := c.records
    missingAtStart := c.missingAtStart}

-- What a line is worth, and the records of the lines completed since a start.
def recordOf (r : Reader ρ) (line : Bytes) : Option ρ :=
  if line.all isSpace || decide (r.bounds.maxLineBytes < line.length) then none
  else match r.loads line with
    | .object record => some record
    | _ => none

def recordsSince (r : Reader ρ) (start content : Bytes) : List ρ :=
  ((Lines.lines newline content).drop (Lines.lines newline start).length).filterMap (recordOf r)

def Loads (r : Reader ρ) (line : Bytes) : Prop :=
  line.length ≤ r.bounds.maxLineBytes → line.all isSpace = false → r.loads line ≠ .raises

-- The bounded form in which the follower keeps an open row.
def kept (b : Bounds) (row : Bytes) : Bytes × Bool := if row.length ≤ b.maxLineBytes then (row,false) else ([],true)

theorem consumeLine_exact (r : Reader ρ) (raw : Bytes) (s : Follower ρ) (loads : Loads r raw) :
    consumeLine r raw s = some {s with records := s.records ++ (recordOf r raw).toList} := by
  unfold consumeLine recordOf
  split
  · simp
  · rename_i plain
    simp only [Bool.or_eq_true,decide_eq_true_eq,not_or,Bool.not_eq_true,not_lt] at plain
    cases loaded : r.loads raw with
    | object record => simp
    | other => simp
    | raises => exact absurd loaded (loads plain.2 plain.1)

theorem kept_fits {b : Bounds} (fits : row.length ≤ b.maxLineBytes) : kept b row = (row,false) := if_pos fits
theorem kept_long {b : Bounds} (long : ¬ row.length ≤ b.maxLineBytes) : kept b row = ([],true) := if_neg long
theorem kept_nil (b : Bounds) : kept b [] = ([],false) := kept_fits (Nat.zero_le _)

theorem recordOf_long (r : Reader ρ) (line : Bytes) (long : r.bounds.maxLineBytes < line.length) :
    recordOf r line = none := by simp [recordOf,long]

theorem open_exact (r : Reader ρ) (remaining row : Bytes) (s : Follower ρ) (clean : newline ∉ remaining)
    (framed : (s.pending,s.droppingLine) = kept r.bounds row) :
    (if s.droppingLine = true then (s,false)
      else if r.bounds.maxLineBytes < s.pending.length + remaining.length then
        ({s with pending := [],droppingLine := true},false)
      else ({s with pending := s.pending ++ remaining},false)) = ({s with
      pending := (kept r.bounds (Lines.feed newline row remaining).2).1
      droppingLine := (kept r.bounds (Lines.feed newline row remaining).2).2
      records := s.records ++ (Lines.feed newline row remaining).1.filterMap (recordOf r)},false) := by
  rw [Lines.feed_open row _ clean]
  simp only [List.filterMap_nil,List.append_nil]
  by_cases fits : row.length ≤ r.bounds.maxLineBytes
  · rw [kept_fits fits] at framed
    obtain ⟨rfl,drops⟩ := Prod.mk.inj framed
    rw [drops,if_neg (by simp)]
    split
    · rename_i long
      rw [kept_long (by simp; omega)]
    · rename_i short
      rw [kept_fits (by simp; omega)]
  · rw [kept_long fits] at framed
    obtain ⟨empty,drops⟩ := Prod.mk.inj framed
    rw [kept_long (by simp; omega),if_pos drops,← empty,← drops]

theorem consumeChunk_exact (r : Reader ρ) (steps : Nat) (chunk row : Bytes) (s : Follower ρ)
    (enough : chunk.length ≤ steps) (framed : (s.pending,s.droppingLine) = kept r.bounds row)
    (loads : ∀ line ∈ (Lines.feed newline row chunk).1, Loads r line) :
    consumeChunk r steps chunk s = ({s with
      pending := (kept r.bounds (Lines.feed newline row chunk).2).1
      droppingLine := (kept r.bounds (Lines.feed newline row chunk).2).2
      records := s.records ++ (Lines.feed newline row chunk).1.filterMap (recordOf r)},false) := by
  induction steps generalizing chunk row s with
  | zero =>
    have : chunk = [] := List.eq_nil_of_length_eq_zero (by omega)
    subst this
    simp [consumeChunk,Lines.feed,← framed]
  | succ steps ih =>
    cases chunk with
    | nil => simp [consumeChunk,Lines.feed,← framed]
    | cons x later =>
      rw [consumeChunk]
      · cases next : Lines.nextLine newline (x :: later) with
        | none => exact open_exact r _ _ _ (Lines.nextLine_none next) framed
        | some found =>
          obtain ⟨segment,rest⟩ := found
          obtain ⟨clean,whole⟩ := Lines.nextLine_some next
          have shorter : rest.length ≤ steps := by
            have := congrArg List.length whole
            simp only [List.length_cons,List.length_append] at this enough
            omega
          rw [whole,Lines.feed_line row segment rest clean] at loads ⊢
          have later := fun s framed => ih rest [] s shorter framed fun line inside => loads line (List.mem_cons_of_mem _ inside)
          simp only [List.filterMap_cons]
          by_cases fits : row.length ≤ r.bounds.maxLineBytes
          · rw [kept_fits fits] at framed
            obtain ⟨rfl,drops⟩ := Prod.mk.inj framed
            simp only [drops,Bool.false_eq_true,if_false]
            split
            · rw [consumeLine_exact r _ s (loads _ List.mem_cons_self)]
              simp only
              rw [later _ (by simp [kept_nil,drops])]
              cases recordOf r (s.pending ++ segment) <;> simp
            · rename_i long
              rw [later _ (by simp [kept_nil]),recordOf_long r _ (by simpa using long)]
          · rw [kept_long fits] at framed
            simp only [(Prod.mk.inj framed).2,if_true]
            rw [later _ (by simp [kept_nil]),recordOf_long r _ (by simp; omega)]
      · simp

theorem slice_whole (content : Bytes) (amount : Nat) (fits : amount ≤ content.length) :
    slice content (content.length - amount) amount = lastBytes amount content := by
  rw [slice,lastBytes,List.take_of_length_le]
  rw [List.length_drop]; omega

theorem lastBytes_length (n : Nat) (bytes : Bytes) : (lastBytes n bytes).length = min n bytes.length := by
  rw [lastBytes,List.length_drop]; omega

theorem lastBytes_append (n : Nat) (seen chunk : Bytes) :
    lastBytes n (lastBytes n seen ++ chunk) = lastBytes n (seen ++ chunk) := by
  have inner : lastBytes n seen ++ chunk <:+ seen ++ chunk := by
    obtain ⟨early,whole⟩ := List.drop_suffix (seen.length - n) seen
    exact ⟨early,by rw [← List.append_assoc]; exact congrArg (· ++ chunk) whole⟩
  have left : lastBytes n (lastBytes n seen ++ chunk) <:+ seen ++ chunk := (List.drop_suffix _ _).trans inner
  have right : lastBytes n (seen ++ chunk) <:+ seen ++ chunk := List.drop_suffix _ _
  refine (List.suffix_of_suffix_length_le left right ?_).eq_of_length ?_ <;>
    simp only [lastBytes_length,List.length_append] <;> omega

theorem readAnchor_exact (f : File) (seen : Bytes) (opens : f.opens = true) (begun : seen <+: f.content) :
    readAnchor f seen.length = lastBytes 64 seen := by
  obtain ⟨rest,whole⟩ := begun
  rw [readAnchor,if_pos opens,slice,← whole,lastBytes,List.drop_append_of_le_length (by omega),List.take_append_of_le_length]
  · rw [List.take_of_length_le (by rw [List.length_drop]; omega)]
    congr 1
    omega
  · rw [List.length_drop]; omega

theorem afterLast_exact (closed row : Bytes) (clean : newline ∉ row) : afterLast (closed ++ newline :: row) = row := by
  have reversed : (closed ++ newline :: row).reverse = row.reverse ++ newline :: closed.reverse := by simp
  rw [afterLast,reversed,List.takeWhile_append_of_pos]
  · simp
  · intro x inside
    have : x ∈ row := by simpa using inside
    simpa using fun same : x = newline => clean (same ▸ this)

theorem capture_exact (b : Bounds) (f : File) (s : Follower ρ) (opens : f.opens = true) (empty : s.pending = [])
    (fresh : s.droppingLine = false) : captureTrailingPartial b f f.content.length s = {s with
      pending := (kept b (Lines.openRow newline f.content)).1
      droppingLine := (kept b (Lines.openRow newline f.content)).2} := by
  obtain ⟨clean,split⟩ := @Lines.openRow_split _ _ newline f.content
  have positive := b.rows
  simp only [captureTrailingPartial,opens,Bool.not_true,Bool.false_eq_true,if_false]
  rw [slice_whole _ _ (Nat.min_le_right _ _)]
  have long := lastBytes_length (min (b.maxLineBytes + 1) f.content.length) f.content
  generalize Lines.openRow newline f.content = row at *
  by_cases fits : row.length ≤ b.maxLineBytes
  · rw [kept_fits fits]
    rcases split with whole | ⟨closed,whole⟩
    · have all : lastBytes (min (b.maxLineBytes + 1) f.content.length) f.content = row := by
        rw [lastBytes,whole,show row.length - min (b.maxLineBytes + 1) row.length = 0 by omega]; rfl
      rw [all,if_neg (by rw [whole]; simp),if_neg clean,if_neg (by omega),empty]
      simp [← fresh]
    · have tail : ∃ early, lastBytes (min (b.maxLineBytes + 1) f.content.length) f.content = early ++ newline :: row := by
        refine ⟨closed.drop (f.content.length - min (b.maxLineBytes + 1) f.content.length),?_⟩
        rw [lastBytes,whole,List.drop_append_of_le_length]
        simp only [List.length_append,List.length_cons]; omega
      obtain ⟨early,tail⟩ := tail
      have inside : newline ∈ early ++ newline :: row := by simp
      rw [tail]
      simp only [inside,not_true_eq_false,false_and,if_false,if_true]
      rw [afterLast_exact _ _ clean,if_neg (by omega),empty]
      simp [← fresh]
  · rw [kept_long fits]
    have total : row.length ≤ f.content.length := by
      rcases split with whole | ⟨closed,whole⟩
      · exact (congrArg List.length whole).ge
      · rw [whole,List.length_append,List.length_cons]; omega
    have within : lastBytes (min (b.maxLineBytes + 1) f.content.length) f.content <:+ row := by
      refine List.suffix_of_suffix_length_le (List.drop_suffix _ _) ?_ (by rw [long]; omega)
      rcases split with whole | ⟨closed,whole⟩
      · exact ⟨[],whole.symm⟩
      · exact ⟨closed ++ [newline],by simp [whole]⟩
    have none' : newline ∉ lastBytes (min (b.maxLineBytes + 1) f.content.length) f.content := fun inside =>
      clean (within.subset inside)
    simp only [none',not_false_eq_true,true_and,if_false]
    split
    · simp [← empty]
    · rw [if_pos (by omega)]; simp [← empty]

-- Of a file whose content only grows, `seen` is what the follower has read and
-- `start` where it began; `out` are the records it has handed over.
structure Follows (r : Reader ρ) (identity : Nat) (start seen : Bytes) (s : Follower ρ) (out : List ρ) : Prop where
  offset : s.offset = seen.length
  begun : start <+: seen
  anchor : s.anchor = lastBytes 64 seen
  framed : (s.pending,s.droppingLine) = kept r.bounds (Lines.openRow newline seen)
  exact : out ++ s.records = recordsSince r start seen
  few : s.records.length ≤ r.bounds.maxReadBytes
  found : s.identity = some identity ∨ s.identity = none ∧ s.missingAtStart = true ∧ seen = []

theorem recordsSince_self (r : Reader ρ) (start : Bytes) : recordsSince r start start = [] := by
  simp [recordsSince]

theorem recordsSince_append (r : Reader ρ) (begun : start <+: seen) (chunk : Bytes) :
    recordsSince r start (seen ++ chunk) = recordsSince r start seen ++
      (Lines.feed newline (Lines.openRow newline seen) chunk).1.filterMap (recordOf r) := by
  rw [recordsSince,recordsSince,Lines.lines_append,List.drop_append_of_le_length,List.filterMap_append]
  exact (Lines.lines_begin begun).length_le

theorem recordsSince_grows (r : Reader ρ) (begun : start <+: seen) (grown : seen <+: content) :
    recordsSince r start seen <+: recordsSince r start content := by
  obtain ⟨rest,rfl⟩ := grown
  rw [recordsSince_append r begun]
  exact List.prefix_append _ _

theorem initialize_end (r : Reader ρ) (f : File) (opens : f.opens = true) :
    Follows r f.identity f.content f.content (initializeFollower r.bounds false (some f)) [] := by
  have shape : initializeFollower r.bounds false (some f) = ({
      fromStart := false
      identity := some f.identity
      offset := f.content.length
      anchor := lastBytes 64 f.content
      pending := (kept r.bounds (Lines.openRow newline f.content)).1
      droppingLine := (kept r.bounds (Lines.openRow newline f.content)).2} : Follower ρ) := by
    simp only [initializeFollower,Bool.false_eq_true,if_false]
    split
    · rename_i zero
      have : f.content = [] := List.eq_nil_of_length_eq_zero zero
      simp [this,lastBytes,Lines.openRow,Lines.feed,kept_nil]
    · rw [readAnchor_exact f f.content opens List.prefix_rfl,capture_exact r.bounds f _ opens rfl rfl]
  rw [shape]
  exact ⟨rfl,List.prefix_rfl,rfl,rfl,by simp [recordsSince_self],Nat.zero_le _,.inl rfl⟩

theorem initialize_start (r : Reader ρ) (f : File) :
    Follows r f.identity [] [] (initializeFollower r.bounds true (some f)) [] := by
  simp only [initializeFollower,if_true]
  exact ⟨rfl,List.prefix_rfl,rfl,by simp [Lines.openRow,Lines.feed,kept_nil],by simp [recordsSince_self],Nat.zero_le _,.inl rfl⟩

theorem initialize_missing (r : Reader ρ) (identity : Nat) (fromStart : Bool) :
    Follows r identity [] [] (initializeFollower r.bounds fromStart none) [] :=
  ⟨rfl,List.prefix_rfl,rfl,by simp [initializeFollower,Lines.openRow,Lines.feed,kept_nil],
    by simp [initializeFollower,recordsSince_self],Nat.zero_le _,.inr ⟨rfl,rfl,rfl⟩⟩

def bytes (look : Option File) : Bytes := (look.map (·.content)).getD []

-- A look at the one file, where it can be opened and none of its lines raises.
def Shows (r : Reader ρ) (identity : Nat) (look : Option File) : Prop :=
  ∀ f, look = some f → f.identity = identity ∧ f.opens = true ∧ ∀ line ∈ Lines.lines newline f.content, Loads r line

theorem settle_follows (follows : Follows r identity start seen s out) (f : File) (same : f.identity = identity)
    (opens : f.opens = true) (begun : seen <+: f.content) :
    Follows r identity start seen (settle f s) out ∧ (settle f s).identity = some identity ∧
      (settle f s).records = s.records := by
  unfold settle
  rcases follows.found with known | ⟨unknown,missing,empty⟩
  · rw [if_neg (by simp [known]),if_neg,if_neg]
    · exact ⟨follows,known,rfl⟩
    · rintro ⟨_,differs⟩
      rw [follows.offset,readAnchor_exact f seen opens begun] at differs
      exact differs follows.anchor
    · rintro (other | short)
      · exact other (known.trans (congrArg some same.symm))
      · rw [follows.offset] at short
        exact absurd begun.length_le (by omega)
  · rw [if_pos unknown]
    subst empty
    refine ⟨⟨?_,follows.begun,follows.anchor,follows.framed,follows.exact,follows.few,.inl (congrArg some same)⟩,
      congrArg some same,rfl⟩
    simp [missing]

theorem pop_follows (follows : Follows r identity start seen s out) :
    Follows r identity start seen (popRecords r.bounds s).1 (out ++ s.records.take r.bounds.maxRecords) := by
  refine ⟨follows.offset,follows.begun,follows.anchor,follows.framed,?_,?_,follows.found⟩
  · simp only [popRecords]
    rw [List.append_assoc,List.take_append_drop]
    exact follows.exact
  · exact (List.drop_sublist _ _).length_le.trans follows.few

theorem read_follows (r : Reader ρ) (follows : Follows r identity start seen s out) (known : s.identity = some identity)
    (idle : s.records = []) (chunk : Bytes) (bounded : chunk.length ≤ r.bounds.maxReadBytes)
    (loads : ∀ line ∈ Lines.lines newline (seen ++ chunk), Loads r line) :
    ∃ after, consumeChunk r chunk.length chunk
        {s with offset := s.offset + chunk.length,anchor := lastBytes 64 (s.anchor ++ chunk)} = (after,false) ∧
      Follows r identity start (seen ++ chunk) after out := by
  refine ⟨_,consumeChunk_exact r _ chunk (Lines.openRow newline seen) _ le_rfl follows.framed ?_,?_⟩
  · intro line inside
    exact loads line (by rw [Lines.lines_append]; exact List.mem_append_right _ inside)
  · refine ⟨?_,follows.begun.trans (List.prefix_append _ _),?_,?_,?_,?_,.inl known⟩
    · simp [follows.offset]
    · simp only [follows.anchor,lastBytes_append]
    · rw [Lines.openRow_append]
    · have before := follows.exact
      rw [idle,List.append_nil] at before
      simp only [idle,List.nil_append]
      rw [recordsSince_append r follows.begun,before]
    · simp only [idle,List.nil_append]
      exact (List.length_filterMap_le _ _).trans ((Lines.feed_count _ _).trans bounded)

theorem poll_reads (r : Reader ρ) (follows : Follows r identity start seen s out) (idle : s.records = []) (f : File)
    (shows : Shows r identity (some f)) (whole : f.content = seen ++ rest) :
    ∃ after records, poll r (some f) s = (after,some records) ∧
      Follows r identity start (seen ++ rest.take r.bounds.maxReadBytes) after (out ++ records) := by
  obtain ⟨same,opens,loads⟩ := shows f rfl
  obtain ⟨settled,known,records⟩ := settle_follows follows f same opens ⟨rest,whole.symm⟩
  unfold poll
  rw [if_neg (by simp [idle])]
  simp only [opens,if_true]
  generalize settle f s = t at *
  have chunked : slice f.content t.offset (min r.bounds.maxReadBytes (f.content.length - t.offset)) =
      rest.take r.bounds.maxReadBytes := by
    rw [slice,settled.offset,whole,List.drop_left,List.length_append,Nat.add_sub_cancel_left]
    exact List.take_eq_take_min.symm
  rw [chunked]
  have within : seen ++ rest.take r.bounds.maxReadBytes <+: f.content := by
    rw [whole]; exact List.prefix_append_right_inj _ |>.mpr (List.take_prefix _ _)
  split
  · rename_i empty
    exact ⟨t,[],rfl,by simpa [empty] using settled⟩
  · obtain ⟨after,read,follows⟩ := read_follows r settled known (records.trans idle) (rest.take r.bounds.maxReadBytes)
      (List.length_take_le _ _) fun line inside => loads line ((Lines.lines_begin within).subset inside)
    rw [read]
    exact ⟨_,_,rfl,pop_follows follows⟩

-- One poll: nothing raises, and what it hands over continues what came before.
theorem poll_follows (r : Reader ρ) (follows : Follows r identity start seen s out) (look : Option File)
    (shows : Shows r identity look) (begun : seen <+: bytes look) :
    ∃ after records later, poll r look s = (after,some records) ∧ Follows r identity start later after (out ++ records) ∧
      seen <+: later ∧ later <+: bytes look := by
  by_cases idle : s.records = []
  · cases look with
    | none => exact ⟨s,[],seen,by rw [poll,if_neg (by simp [idle])],by simpa using follows,List.prefix_rfl,begun⟩
    | some f =>
      obtain ⟨rest,whole⟩ := begun
      obtain ⟨after,records,polled,follows⟩ := poll_reads r follows idle f shows whole.symm
      refine ⟨after,records,_,polled,follows,List.prefix_append _ _,?_⟩
      rw [← whole]
      exact (List.prefix_append_right_inj _).mpr (List.take_prefix _ _)
  · exact ⟨_,_,seen,by unfold poll; rw [if_pos idle]; rfl,pop_follows follows,List.prefix_rfl,begun⟩

theorem kept_length (b : Bounds) (row : Bytes) : (kept b row).1.length ≤ min b.maxLineBytes row.length := by
  unfold kept
  split
  · exact le_min (by assumption) le_rfl
  · exact Nat.zero_le _

theorem restore_follows (path : String) (follows : Follows r identity start seen s out) (fresh : Follower ρ) :
    Follows r identity start seen (restoreCheckpoint r.bounds path (exportCheckpoint path s) fresh) out := by
  have row := kept_length r.bounds (Lines.openRow newline seen)
  rw [← follows.framed] at row
  simp only at row
  have short : (Lines.openRow newline seen).length ≤ seen.length := by
    rcases (@Lines.openRow_split _ _ newline seen).2 with whole | ⟨closed,whole⟩
    · exact (congrArg List.length whole).ge
    · conv => rhs; rw [whole]
      rw [List.length_append,List.length_cons]; omega
  rw [restoreCheckpoint,if_neg]
  · exact ⟨follows.offset,follows.begun,follows.anchor,follows.framed,follows.exact,follows.few,follows.found⟩
  · have few := follows.few
    have anchor := congrArg List.length follows.anchor
    rw [lastBytes_length] at anchor
    have offset := follows.offset
    simp only [exportCheckpoint,ne_eq,not_true_eq_false,false_or,not_or,not_lt]
    refine ⟨?_,?_,few⟩
    · omega
    · omega

end AgentSideCar.Tail
