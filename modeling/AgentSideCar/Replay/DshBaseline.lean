import AgentSideCar.Replay.DshProgress

namespace AgentSideCar.Replay
open Tail Runs
variable {σ ω : Type} {loads : Bytes → Loaded (Record ω)} {b : Budget} {old appended : List (Record ω)}
  {s after : DshTailer σ}

-- `old` is what the transcript retained when the tailer was created, and every look at it
-- finds these records with some of the `appended` ones after them.
structure Log (old appended : List (Record ω)) : Prop where
  carried : ∀ record ∈ old ++ appended, (seqOf record).isSome = true
  rising : Rising (old ++ appended)

-- The seq of a session row stands between what was retained and what was appended.
def Between (old appended : List (Record ω)) (rowSeq : Option Int) : Prop := ∀ seq, rowSeq = some seq →
  (∀ record ∈ old, beyond (some seq) record = false) ∧ ∀ record ∈ appended, beyond (some seq) record = true

-- The page of a poll that finds its baseline by itself is what was retained at the creation.
def Baseline (loads : Bytes → Loaded (Record ω)) (b : Budget) (old : List (Record ω)) (s : DshTailer σ)
    (look : DshLook σ) : Prop := s.initialized = false → Raises loads b look s.lastSeq ∨
  ((look.page loads b s.lastSeq).map Prod.snd).filter (fun record => (seqOf record).isSome) = old

def Continues (loads : Bytes → Loaded (Record ω)) (b : Budget) (old appended : List (Record ω)) (s : DshTailer σ)
    (look : DshLook σ) : Prop :=
  look.retained loads b <+: old ++ appended ∧ Baseline loads b old s look

-- What was published and what is beyond last_seq are the appended records.
def Placed (old appended published : List (Record ω)) (s : DshTailer σ) : Prop :=
  if s.initialized then appended = published ++ (old ++ appended).filter (beyond s.lastSeq)
  else s.lastSeq = none ∧ published = []

theorem placed_created (between : Between old appended rowSeq) (created : Option σ) :
    Placed old appended [] (createTailer false rowSeq created) := by
  cases rowSeq with
  | none => exact ⟨rfl,rfl⟩
  | some seq =>
    obtain ⟨below,above⟩ := between seq rfl
    have none' : old.filter (beyond (some seq)) = [] := List.filter_eq_nil_iff.mpr fun record inside => by
      simp [below record inside]
    change appended = [] ++ (old ++ appended).filter (beyond (some seq))
    rw [List.filter_append,none',List.filter_eq_self.mpr above]
    rfl

theorem placed_prefix (placed : Placed old appended published s) : published <+: appended := by
  unfold Placed at placed
  split at placed
  · exact ⟨_,placed.symm⟩
  · rw [placed.2]
    exact List.nil_prefix

theorem Log.apart (log : Log old appended) (record : Record ω) (late : record ∈ appended) : record ∉ old := by
  intro early
  obtain ⟨seq,carried⟩ := Option.isSome_iff_exists.mp (log.carried record (List.mem_append_left _ early))
  have rising := log.rising
  rw [Rising,List.filterMap_append] at rising
  have less := (List.pairwise_append.mp rising).2.2 seq (List.mem_filterMap.mpr ⟨record,early,carried⟩) seq
    (List.mem_filterMap.mpr ⟨record,late,carried⟩)
  omega

section Steps
variable [DecidableEq σ] (roomy : b.maxLineBytes ≤ b.maxRetainedBytes) (scans : 0 < b.maxScanBytes ∧ 0 < b.maxRetainedBytes)
include roomy scans

theorem placed_polled (log : Log old appended) (look : DshLook σ) (s : DshTailer σ)
    (continues : Continues loads b old appended s look) (placed : Placed old appended published s) :
    Placed old appended (published ++ (pollAt loads b look s).2) (pollAt loads b look s).1 := by
  have polled := @poll_polled _ _ loads b _ roomy scans look s
  generalize pollAt loads b look s = after at polled ⊢
  cases polled with
  | skipped =>
    rw [List.append_nil]
    exact placed
  | raised =>
    rw [List.append_nil]
    exact placed
  | paged _ returns =>
    obtain ⟨taken,whole⟩ := page_taken roomy look s.lastSeq continues.1 log.rising
    cases initial : s.initialized with
    | true =>
      simp only [Placed,initial,takePage,if_true] at placed ⊢
      rw [List.append_assoc,← whole]
      exact placed
    | false =>
      simp only [Placed,initial,takePage,if_true,if_false,Bool.false_eq_true] at placed ⊢
      obtain ⟨start,rfl⟩ := placed
      have all : (old ++ appended).filter (beyond s.lastSeq) = old ++ appended :=
        List.filter_eq_self.mpr fun record inside => by
          rw [start,beyond_none]
          exact log.carried record inside
      rw [all,taken,(continues.2 initial).resolve_left returns] at whole
      exact List.append_cancel_left whole

theorem run_placed (log : Log old appended) (path : Run (advanceDsh loads b) (Continues loads b old appended) s looks after)
    (placed : Placed old appended published s) : Placed old appended (published ++ handed loads b s looks) after := by
  induction path generalizing published with
  | nil =>
    rw [handed,List.append_nil]
    exact placed
  | cons fits stepped _ ih =>
    cases stepped
    rw [handed,← List.append_assoc]
    exact ih (placed_polled roomy scans log _ _ fits placed)

end Steps

theorem handed_append [DecidableEq σ] (path : Run (advanceDsh loads b) allowed s looks after) (more : List (DshLook σ)) :
    handed loads b s (looks ++ more) = handed loads b s looks ++ handed loads b after more := by
  induction path with
  | nil => rfl
  | cons _ stepped _ ih =>
    cases stepped
    rw [List.cons_append,handed,handed,ih,List.append_assoc]

-- Without a seq of its row, or with one, a tailer publishes of a log that is only appended to
-- nothing that was there at its creation, and all that was appended, once and in order.
theorem appended_published [DecidableEq σ] (loads : Bytes → Loaded (Record ω)) (maxRecords : Nat) (log : Log old appended)
    (between : Between old appended rowSeq) (created : Option σ)
    (path : Run (advanceDsh loads (dshBudget maxRecords)) (Continues loads (dshBudget maxRecords) old appended)
      (createTailer false rowSeq created) polls s) :
    let published := handed loads (dshBudget maxRecords) (createTailer false rowSeq created)
    (∀ record ∈ published polls, record ∉ old) ∧ published polls <+: appended ∧
      ∀ held signature looks after, held signature = old ++ appended → s.initialized = true →
        Run (advanceDsh loads (dshBudget maxRecords)) (Clears loads (dshBudget maxRecords) held)
          (createTailer false rowSeq created) polls s →
        Run (advanceDsh loads (dshBudget maxRecords)) (fun s look => Clears loads (dshBudget maxRecords) held s look ∧
          Unchanged loads (dshBudget maxRecords) held signature look) s looks after →
        ((held signature).filter (beyond s.lastSeq)).length ≤ looks.length → published (polls ++ looks) = appended := by
  intro published
  have roomy : (dshBudget maxRecords).maxLineBytes ≤ (dshBudget maxRecords).maxRetainedBytes := by
    simp [dshBudget,Transcript.budget]
  have scans : 0 < (dshBudget maxRecords).maxScanBytes ∧ 0 < (dshBudget maxRecords).maxRetainedBytes := by
    simp [dshBudget,Transcript.budget]
  have placed := run_placed roomy scans log path (placed_created between created)
  rw [List.nil_append] at placed
  have first := placed_prefix placed
  refine ⟨fun record inside => log.apart record (first.subset inside),first,?_⟩
  intro held signature looks after grown initial clearing further enough
  have fetched := (remaining_fetched loads held maxRecords false rowSeq created clearing further enough).2
    (grown ▸ log.rising) initial
  rw [grown] at fetched
  rw [Placed,if_pos initial,← fetched] at placed
  exact (handed_append path looks).trans placed.symm

def firstSeq : DshLook Nat := ⟨some 7,some (seqRow 49 ++ [newline]),wholeTurns⟩

def grownTo (signature : Nat) : List (Record Unit) :=
  if signature = 0 then [seqRecord 1] ++ [seqRecord 2] else [seqRecord 1]

theorem appended_published_second :
    handed twoRows (dshBudget 64) (createTailer false none (some 7)) ([firstSeq] ++ [twoSeqs wholeTurns]) = [seqRecord 2] := by
  have first : pollAt twoRows (dshBudget 64) firstSeq (createTailer false none (some 7)) =
      (⟨some 1,true,false,false,some 7⟩,[]) := by decide +kernel
  have second : pollAt twoRows (dshBudget 64) (twoSeqs wholeTurns) ⟨some 1,true,false,false,some 7⟩ =
      (⟨some 2,true,false,false,some 0⟩,[seqRecord 2]) := by decide +kernel
  have one : firstSeq.page twoRows (dshBudget 64) none = [(seqRow 49,seqRecord 1)] := by decide +kernel
  have two : (twoSeqs wholeTurns).page twoRows (dshBudget 64) (some 1) = [(seqRow 50,seqRecord 2)] := by decide +kernel
  have early : firstSeq.retained twoRows (dshBudget 64) = [seqRecord 1] := by decide +kernel
  have late : (twoSeqs wholeTurns).retained twoRows (dshBudget 64) = [seqRecord 1,seqRecord 2] := by decide +kernel
  have log : Log [seqRecord 1] [seqRecord 2] := ⟨by decide,by decide⟩
  have continues : Continues twoRows (dshBudget 64) [seqRecord 1] [seqRecord 2] (createTailer false none (some 7)) firstSeq :=
    ⟨by rw [early]; decide,fun _ => .inr (by
      change (List.map Prod.snd (firstSeq.page twoRows (dshBudget 64) none)).filter _ = _
      rw [one]
      rfl)⟩
  have clears : Clears twoRows (dshBudget 64) grownTo (createTailer false none (some 7)) firstSeq := by
    refine .inr (.inr (.inr fun signature signed record inside _ => ?_))
    cases signed
    change record ∈ List.map Prod.snd (firstSeq.page twoRows (dshBudget 64) none)
    rw [one]
    exact inside
  have clears' : Clears twoRows (dshBudget 64) grownTo ⟨some 1,true,false,false,some 7⟩ (twoSeqs wholeTurns) := by
    refine .inr (.inr (.inr fun signature signed record inside new => ?_))
    cases signed
    change record ∈ List.map Prod.snd ((twoSeqs wholeTurns).page twoRows (dshBudget 64) (some 1))
    rw [two]
    have left : (grownTo 0).filter (beyond (some 1)) = [seqRecord 2] := by decide
    have among := List.mem_filter.mpr ⟨inside,new⟩
    rw [left] at among
    exact among
  exact (appended_published twoRows 64 log (fun _ absent => by cases absent) (some 7) (.single continues (by rw [advanceDsh,first]))).2.2 grownTo 0
    [twoSeqs wholeTurns] ⟨some 2,true,false,false,some 0⟩ rfl rfl (.single clears (by rw [advanceDsh,first]))
    (.single ⟨clears',rfl,late,fun line _ => twoRows_spoken _ line⟩ (by rw [advanceDsh,second])) (by decide)

-- With no seq in its row a tailer whose page is shorter than the history publishes old
-- records, and one whose first poll finds an appended record never publishes it.
theorem baseline_misplaced :
    (twoSeqs wholeTurns).retained twoRows (dshBudget 1) = [seqRecord 1,seqRecord 2] ∧
      handed twoRows (dshBudget 1) (createTailer false none (some 0)) [twoSeqs wholeTurns,twoSeqs wholeTurns] =
        [seqRecord 2] ∧
      firstSeq.retained twoRows (dshBudget 64) = [seqRecord 1] ∧
      ∀ looks, (∀ look ∈ looks, look.signature = some 0) →
        handed twoRows (dshBudget 64) (createTailer false none (some 7)) (twoSeqs wholeTurns :: looks) = [] := by
  refine ⟨by decide +kernel,by decide +kernel,by decide +kernel,fun looks same => ?_⟩
  have first : pollAt twoRows (dshBudget 64) (twoSeqs wholeTurns) (createTailer false none (some 7)) =
      (⟨some 2,true,false,false,some 0⟩,[]) := by decide +kernel
  rw [handed,first]
  exact unchanged_quiet rfl rfl rfl looks same

end AgentSideCar.Replay
