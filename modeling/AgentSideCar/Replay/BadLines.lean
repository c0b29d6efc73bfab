import AgentSideCar.Replay.Parity

namespace AgentSideCar.Replay
open Tail
variable {ω ρ : Type} {r : Reader ρ} {identity : Nat}

-- What polls hand over, look after look; one that an exception leaves hands over nothing.
def deliveries (r : Reader ρ) : List File → Follower ρ → Follower ρ × List ρ
  | [],s => (s,[])
  | f :: looks,s =>
    let polled := poll r (some f) s
    let later := deliveries r looks polled.1
    (later.1,polled.2.getD [] ++ later.2)

def lookAt (identity : Nat) (content : Bytes) : File := ⟨identity,content,true⟩

theorem deliveries_append (r : Reader ρ) (first second : List File) (s : Follower ρ) :
    deliveries r (first ++ second) s = ((deliveries r second (deliveries r first s).1).1,
      (deliveries r first s).2 ++ (deliveries r second (deliveries r first s).1).2) := by
  induction first generalizing s with
  | nil => rfl
  | cons f looks ih => simp only [List.cons_append,deliveries,ih,List.append_assoc]

theorem deliveries_polls (r : Reader ρ) (f : File) (n : Nat) (s : Follower ρ) (polled : polls r f n s = some out) :
    (deliveries r (List.replicate n f) s).2 = out := by
  induction n generalizing s out with
  | zero =>
    cases polled
    rfl
  | succ n ih =>
    rw [polls] at polled
    rw [List.replicate_succ,deliveries]
    cases one : poll r (some f) s with
    | mk after records =>
      cases records with
      | none => rw [one] at polled; cases polled
      | some records =>
        rw [one] at polled
        obtain ⟨rest,later,rfl⟩ := Option.map_eq_some_iff.mp polled
        simp only [ih after later,Option.getD_some]

theorem lookAt_shows (r : Reader ρ) (identity : Nat) (content : Bytes)
    (spoken : ∀ line ∈ Lines.lines newline content, Loads r line) : Shows r identity (some (lookAt identity content)) := by
  intro f found
  cases found
  exact ⟨rfl,rfl,spoken⟩

theorem deliveries_follow (looks : List Bytes) (follows : Follows r identity start seen s out)
    (spoken : ∀ content ∈ looks, ∀ line ∈ Lines.lines newline content, Loads r line)
    (grows : (seen :: looks).Pairwise (· <+: ·)) : ∃ after later,
      Follows r identity start later after (out ++ (deliveries r (looks.map (lookAt identity)) s).2) ∧
      (deliveries r (looks.map (lookAt identity)) s).1 = after ∧
      ∀ content, seen <+: content → (∀ look ∈ looks, look <+: content) → later <+: content := by
  induction looks generalizing s seen out with
  | nil => exact ⟨s,seen,by simpa [deliveries] using follows,rfl,fun content begun _ => begun⟩
  | cons content looks ih =>
    obtain ⟨begun,rest⟩ := List.pairwise_cons.mp grows
    obtain ⟨ahead,_⟩ := List.pairwise_cons.mp rest
    obtain ⟨after,records,later,polled,next,_,within⟩ := poll_follows r follows _
      (lookAt_shows r identity content (spoken content List.mem_cons_self)) (begun content List.mem_cons_self)
    have chain : (later :: looks).Pairwise (· <+: ·) :=
      List.pairwise_cons.mpr ⟨fun look inside => within.trans (ahead look inside),(List.pairwise_cons.mp rest).2⟩
    obtain ⟨last,read,follows,same,bound⟩ := ih next (fun look inside => spoken look (List.mem_cons_of_mem _ inside)) chain
    rw [List.map_cons,deliveries,polled]
    refine ⟨last,read,?_,same,fun whole _ all => ?_⟩
    · simpa only [Option.getD_some,List.append_assoc] using follows
    · exact bound whole (within.trans (all content List.mem_cons_self)) fun look inside =>
        all look (List.mem_cons_of_mem _ inside)

-- What is asked for one file's content. A follower that has watched the file grow to it
-- ends up having handed over the record of each complete line, and whatever a page may
-- hold, the pages return the records of the lines they can reach.
structure Isolated (r : Reader (Record ω)) (identity : Nat) (content : Bytes) : Prop where
  delivered : ∀ earlier : List Bytes, (earlier ++ [content]).Pairwise (· <+: ·) → ∃ enough, ∀ n ≥ enough,
    (deliveries r (earlier.map (lookAt identity) ++ List.replicate n (lookAt identity content))
      (initializeFollower r.bounds true ((earlier ++ [content]).head?.map (lookAt identity)))).2 =
        (Lines.lines newline content).filterMap (recordOf r)
  returned : ∀ (b : Budget) (chunkBytes : Nat), 0 < b.maxRecords → 0 < b.maxScanBytes → 0 < b.maxRetainedBytes →
    b.maxLineBytes = r.bounds.maxLineBytes → 0 < chunkBytes →
    ∃ fuel, pages r b chunkBytes content fuel = some (jsonlRecords r.loads b (content.take b.maxScanBytes))

theorem follower_delivers (r : Reader ρ) (identity : Nat) (content : Bytes)
    (spoken : ∀ line ∈ Lines.lines newline content, Loads r line) (earlier : List Bytes)
    (grows : (earlier ++ [content]).Pairwise (· <+: ·)) : ∃ enough, ∀ n ≥ enough,
      (deliveries r (earlier.map (lookAt identity) ++ List.replicate n (lookAt identity content))
        (initializeFollower r.bounds true ((earlier ++ [content]).head?.map (lookAt identity)))).2 =
          (Lines.lines newline content).filterMap (recordOf r) := by
  have older : ∀ look ∈ earlier, look <+: content := fun look inside =>
    (List.pairwise_append.mp grows).2.2 look inside content (List.mem_singleton_self _)
  obtain ⟨first,head⟩ : ∃ first, (earlier ++ [content]).head? = some first := by cases earlier <;> simp
  have begun : Follows r identity [] [] (initializeFollower r.bounds true (some (lookAt identity first))) [] :=
    initialize_start r (lookAt identity first)
  rw [head,Option.map_some]
  obtain ⟨after,later,follows,same,bound⟩ := deliveries_follow earlier begun
    (fun look inside line among => spoken line ((Lines.lines_begin (older look inside)).subset among))
    (List.pairwise_cons.mpr ⟨fun _ _ => List.nil_prefix,(List.pairwise_append.mp grows).1⟩)
  obtain ⟨enough,rest,whole,drained⟩ := polls_drain follows (lookAt identity content)
    (lookAt_shows r identity content spoken) (bound content List.nil_prefix older)
  refine ⟨enough,fun n high => ?_⟩
  rw [deliveries_append,same,deliveries_polls r _ n after (drained n high)]
  simpa [recordsSince,Lines.lines,Lines.feed,lookAt] using whole

-- Lines are kept apart exactly where no complete line makes json.loads raise what the
-- two readers do not catch.
theorem isolated_exact (r : Reader (Record ω)) (identity : Nat) (content : Bytes) :
    Isolated r identity content ↔ ∀ line ∈ Lines.lines newline content, Loads r line := by
  constructor
  · intro isolated
    have rows := r.bounds.rows
    obtain ⟨fuel,walked⟩ := isolated.returned ⟨1,content.length + 1,1,r.bounds.maxLineBytes⟩ 1 Nat.one_pos
      (Nat.succ_pos _) Nat.one_pos rfl Nat.one_pos
    have spoken := (iterate_spoken ⟨Nat.one_pos,Nat.succ_pos _,Nat.one_pos,rows⟩ Nat.one_pos fuel 0 0 walked).mem
    rwa [List.take_of_length_le (Nat.le_succ _)] at spoken
  · intro spoken
    refine ⟨follower_delivers r identity content spoken,fun b chunkBytes asks scans retains same chunked => ?_⟩
    have rows := r.bounds.rows
    refine pages_reach r ⟨asks,scans,retains,by omega⟩ chunked fun line inside => ?_
    rw [Spoken,same]
    exact spoken line ((Lines.lines_begin (List.take_prefix _ _)).subset inside)

theorem consumeChunk_raises (r : Reader ρ) (line rest : Bytes) (steps : Nat) (s : Follower ρ) (clean : newline ∉ line)
    (short : line.length ≤ r.bounds.maxLineBytes) (plain : line.all isSpace = false) (raises : r.loads line = .raises)
    (empty : s.pending = []) (whole : s.droppingLine = false) :
    consumeChunk r (steps + 1) (line ++ newline :: rest) s = (s,true) := by
  obtain ⟨x,later,shape⟩ := List.exists_cons_of_ne_nil (show line ++ newline :: rest ≠ [] by simp)
  rw [shape,consumeChunk,← shape,Lines.nextLine_line line rest clean]
  · simp only [whole,Bool.false_eq_true,if_false,empty,List.nil_append,List.length_nil,Nat.zero_add]
    rw [if_pos short,consumeLine,if_neg (by simp [plain,short]),raises]
  · simp

theorem poll_raises (r : Reader ρ) (identity : Nat) (line rest : Bytes) (clean : newline ∉ line)
    (short : line.length ≤ r.bounds.maxLineBytes) (plain : line.all isSpace = false) (raises : r.loads line = .raises)
    (together : (line ++ newline :: rest).length ≤ r.bounds.maxReadBytes) :
    poll r (some (lookAt identity (line ++ newline :: rest)))
      (initializeFollower r.bounds true (some (lookAt identity (line ++ newline :: rest)))) =
        ({fromStart := true,identity := some identity,offset := (line ++ newline :: rest).length,
          anchor := lastBytes 64 (line ++ newline :: rest)},none) := by
  obtain ⟨n,long⟩ : ∃ n, (line ++ newline :: rest).length = n + 1 := ⟨line.length + rest.length,by simp; omega⟩
  have read : slice (line ++ newline :: rest) 0 (min r.bounds.maxReadBytes ((line ++ newline :: rest).length - 0)) =
      line ++ newline :: rest := by
    rw [slice,List.drop_zero,List.take_of_length_le (by omega)]
  simp only [poll,initializeFollower,lookAt,settle,if_true,reduceCtorEq,if_false,ne_eq,not_true_eq_false,Nat.not_lt_zero,
    or_self,false_and]
  rw [read,if_neg (by simp),long,consumeChunk_raises r line rest n _ clean short plain raises rfl rfl]
  simp

theorem polls_spent (r : Reader ρ) (f : File) (n : Nat) (s : Follower ρ) (idle : s.records = [])
    (known : s.identity = some f.identity) (read : s.offset = f.content.length)
    (anchored : s.anchor = readAnchor f s.offset) : (deliveries r (List.replicate n f) s).2 = [] := by
  have one : poll r (some f) s = (s,some []) := by
    have settled : settle f s = s := by
      rw [settle,if_neg (by simp [known]),if_neg (by simp [known,read]),if_neg (by simp [anchored])]
    simp only [poll,idle,ne_eq,not_true_eq_false,if_false,settled,read,Nat.sub_self,Nat.min_zero]
    rw [if_pos]
    split
    · simp [slice]
    · rfl
  induction n with
  | zero => rfl
  | succ n ih => rw [List.replicate_succ,deliveries,one,ih]; rfl

-- The follower never comes back to what was read together with such a line.
theorem chunk_lost (r : Reader ρ) (identity : Nat) (line rest : Bytes) (clean : newline ∉ line)
    (short : line.length ≤ r.bounds.maxLineBytes) (plain : line.all isSpace = false) (raises : r.loads line = .raises)
    (together : (line ++ newline :: rest).length ≤ r.bounds.maxReadBytes) (n : Nat) :
    (deliveries r (List.replicate n (lookAt identity (line ++ newline :: rest)))
      (initializeFollower r.bounds true (some (lookAt identity (line ++ newline :: rest))))).2 = [] := by
  cases n with
  | zero => rfl
  | succ n =>
    rw [List.replicate_succ,deliveries,poll_raises r identity line rest clean short plain raises together]
    simp only [Option.getD_none,List.nil_append]
    refine polls_spent r _ n _ rfl rfl rfl ?_
    exact (readAnchor_exact (lookAt identity (line ++ newline :: rest)) _ rfl List.prefix_rfl).symm

-- An integer of 4301 digits is longer than int takes, which raises a plain ValueError.
def lengthy (line : Bytes) : Loaded (Record Unit) := if line = List.replicate 4301 49 then .raises else braced line
def lengthyReader : Reader (Record Unit) := ⟨.usual,lengthy⟩
def lengthyContent (n : Nat) : Bytes := List.replicate n 49 ++ newline :: [123,125,10]

theorem lengthy_lines (n : Nat) : Lines.lines newline (lengthyContent n) = [List.replicate n 49,[123,125]] := by
  have clean : newline ∉ List.replicate n 49 := fun inside => absurd (List.eq_of_mem_replicate inside) (by decide)
  rw [Lines.lines,lengthyContent,Lines.feed_line [] _ _ clean]
  rfl

theorem lengthy_lost (n : Nat) (long : n = 4301) : ¬ Isolated lengthyReader 1 (lengthyContent n) ∧
    ((Lines.lines newline (lengthyContent n)).filterMap (recordOf lengthyReader)).length = 1 ∧
    ∀ polls, (deliveries lengthyReader (List.replicate polls (lookAt 1 (lengthyContent n)))
      (initializeFollower lengthyReader.bounds true (some (lookAt 1 (lengthyContent n))))).2 = [] := by
  have clean : newline ∉ List.replicate n 49 := fun inside => absurd (List.eq_of_mem_replicate inside) (by decide)
  have short : (List.replicate n (49 : UInt8)).length ≤ lengthyReader.bounds.maxLineBytes := by
    rw [List.length_replicate,long]
    decide
  have plain : (List.replicate n (49 : UInt8)).all isSpace = false := by
    rw [long]
    rfl
  have raises : lengthyReader.loads (List.replicate n 49) = .raises := if_pos (by rw [long])
  have other : ¬ ([123,125] : Bytes) = List.replicate 4301 49 := fun same => by
    have := congrArg List.length same
    rw [List.length_replicate] at this
    simp at this
  have apart : lengthyReader.loads [123,125] = braced [123,125] := by
    show lengthy [123,125] = _
    rw [lengthy,if_neg other]
  refine ⟨fun isolated => ?_,?_,fun polls => chunk_lost lengthyReader 1 _ _ clean short plain raises ?_ polls⟩
  · have all := (isolated_exact lengthyReader 1 _).mp isolated (List.replicate n 49) (by rw [lengthy_lines]; simp)
    exact all short plain raises
  · have first : recordOf lengthyReader (List.replicate n 49) = none := by
      rw [recordOf,if_neg (by simp only [plain,Bool.false_or,decide_eq_true_eq]; omega),raises]
    have second : recordOf lengthyReader [123,125] = some Dict.empty := by
      rw [recordOf,if_neg (by decide),apart]
      rfl
    rw [lengthy_lines,List.filterMap_cons,first,List.filterMap_cons,second]
    rfl
  · simp only [List.length_append,List.length_replicate,List.length_cons,List.length_nil]
    rw [long]
    decide

-- A record after such a line is lost to the follower for good, and no page returns it.
theorem long_integer_spreads : ¬ Isolated lengthyReader 1 (lengthyContent 4301) ∧
    ((Lines.lines newline (lengthyContent 4301)).filterMap (recordOf lengthyReader)).length = 1 ∧
    ∀ polls, (deliveries lengthyReader (List.replicate polls (lookAt 1 (lengthyContent 4301)))
      (initializeFollower lengthyReader.bounds true (some (lookAt 1 (lengthyContent 4301))))).2 = [] :=
  lengthy_lost 4301 rfl

end AgentSideCar.Replay
