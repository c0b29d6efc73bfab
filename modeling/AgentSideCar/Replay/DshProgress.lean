import AgentSideCar.Replay.DshTailer

namespace AgentSideCar.Replay
open Tail Runs
variable {σ ω : Type} {loads : Bytes → Loaded (Record ω)} {b : Budget} {held : σ → List (Record ω)}

-- `held` tells what a transcript of a signature retains.
def Poised (held : σ → List (Record ω)) (s : DshTailer σ) : Prop :=
  s.pagePending = false → s.forceReplay = false → ∀ signature, s.signature = some signature →
    ∀ record ∈ held signature, beyond s.lastSeq record = false

-- A poll that reads a page finds it full and moves the cursor, or has all that is left.
def Clears (loads : Bytes → Loaded (Record ω)) (b : Budget) (held : σ → List (Record ω)) (s : DshTailer σ)
    (look : DshLook σ) : Prop :=
  Skips look s ∨ Raises loads b look s.lastSeq ∨
    (b.maxRecords ≤ (look.page loads b s.lastSeq).length ∧ ∃ row ∈ look.page loads b s.lastSeq, (seqOf row.2).isSome) ∨
    ∀ signature, look.signature = some signature → ∀ record ∈ held signature, beyond s.lastSeq record →
      record ∈ (look.page loads b s.lastSeq).map Prod.snd

-- A look at the file as it stands with a signature, none of whose lines raises.
def Unchanged (loads : Bytes → Loaded (Record ω)) (b : Budget) (held : σ → List (Record ω)) (signature : σ)
    (look : DshLook σ) : Prop :=
  look.signature = some signature ∧ look.retained loads b = held signature ∧ ∀ line ∈ look.read b, Spoken loads b line

-- What the polls of some looks hand on, one after the other.
def handed [DecidableEq σ] (loads : Bytes → Loaded (Record ω)) (b : Budget) : DshTailer σ → List (DshLook σ) → List (Record ω)
  | _,[] => []
  | s,look :: later => (pollAt loads b look s).2 ++ handed loads b (pollAt loads b look s).1 later

abbrev Rising (records : List (Record ω)) : Prop := (records.filterMap seqOf).Pairwise (· < ·)

theorem page_row_beyond (look : DshLook σ) (lastSeq : Option Int) (inside : row ∈ look.page loads b lastSeq)
    (carries : (seqOf row.2).isSome = true) : beyond lastSeq row.2 = true := by
  have among := (room_begins _ _ _).subset inside
  rw [DshLook.rows,dshRows_beyond] at among
  have kept := (List.mem_filter.mp among).2
  cases lastSeq with
  | none => rw [beyond_none]; exact carries
  | some cursor => simpa using kept

theorem poised_created (held : σ → List (Record ω)) (fromStart : Bool) (rowSeq : Option Int) (signature : Option σ) :
    Poised held (createTailer fromStart rowSeq signature) := fun _ unforced => by cases unforced

theorem remaining_again (records page : List (Record ω)) (lastSeq : Option Int) :
    records.filter (beyond (takeSeqs lastSeq page).2) =
      (records.filter (beyond lastSeq)).filter (beyond (takeSeqs lastSeq page).2) := by
  rw [List.filter_filter]
  refine List.filter_congr fun record _ => ?_
  cases new : beyond (takeSeqs lastSeq page).2 record with
  | false => rfl
  | true => rw [takeSeqs_rises _ _ _ new]; rfl

theorem clears_some (clears : Clears loads b held s look) (fresh : ¬ Skips look s)
    (returns : ¬ Raises loads b look s.lastSeq) (signed : look.signature = some signature)
    (inside : record ∈ held signature) (new : beyond s.lastSeq record = true) :
    ∃ row ∈ look.page loads b s.lastSeq, (seqOf row.2).isSome = true := by
  rcases clears with skips | raised | ⟨_,row,among,carries⟩ | covers
  · exact absurd skips fresh
  · exact absurd raised returns
  · exact ⟨row,among,carries⟩
  · obtain ⟨row,among,rfl⟩ := List.mem_map.mp (covers signature signed record inside new)
    refine ⟨row,among,?_⟩
    cases carried : seqOf row.2 with
    | none => simp [beyond,carried] at new
    | some seq => rfl

-- What a page takes of the records held, when their seqs rise, and what it leaves.
theorem page_taken (roomy : b.maxLineBytes ≤ b.maxRetainedBytes) (look : DshLook σ) (lastSeq : Option Int)
    (part : look.retained loads b <+: records) (rising : Rising records) :
    let page := (look.page loads b lastSeq).map Prod.snd
    (takeSeqs lastSeq page).1 = page.filter (fun record => (seqOf record).isSome) ∧
      records.filter (beyond lastSeq) = (takeSeqs lastSeq page).1 ++ records.filter (beyond (takeSeqs lastSeq page).2) := by
  intro page
  obtain ⟨later,whole⟩ := (@page_begins _ _ loads b roomy look lastSeq).trans (part.filter _)
  have ordered : Rising (page.filter (fun record => (seqOf record).isSome) ++ later) := by
    rw [whole]
    exact rising.sublist (List.filter_sublist.filterMap _)
  obtain ⟨taken,remaining⟩ := takeSeqs_whole lastSeq _ later
    (fun record inside => (List.mem_filter.mp (whole ▸ inside)).2) ordered
  rw [takeSeqs_carried] at taken remaining
  rw [remaining_again,taken,← whole,remaining]
  exact ⟨rfl,rfl⟩

theorem takeSeqs_still (none' : ∀ record ∈ records, seqOf record = none) : (takeSeqs lastSeq records).2 = lastSeq := by
  rw [← takeSeqs_carried,List.filter_eq_nil_iff.mpr fun record inside => by simp [none' record inside]]
  rfl

theorem unchanged_quiet [DecidableEq σ] (unforced : s.forceReplay = false) (unpending : s.pagePending = false)
    (signed : s.signature = some signature) (looks : List (DshLook σ))
    (same : ∀ look ∈ looks, look.signature = some signature) : handed loads b s looks = [] := by
  induction looks with
  | nil => rfl
  | cons look later ih =>
    have here := same look List.mem_cons_self
    have skipped : pollAt loads b look s = (s,[]) :=
      if_pos ⟨unforced,unpending,by simp [here],by rw [here,signed]⟩
    rw [handed,skipped]
    exact ih fun l inside => same l (List.mem_cons_of_mem _ inside)

section Steps
variable [DecidableEq σ] (roomy : b.maxLineBytes ≤ b.maxRetainedBytes) (scans : 0 < b.maxScanBytes ∧ 0 < b.maxRetainedBytes)
include roomy scans

theorem poised_polled (look : DshLook σ) (s : DshTailer σ) (poised : Poised held s) (clears : Clears loads b held s look) :
    Poised held (pollAt loads b look s).1 := by
  have polled := @poll_polled _ _ loads b _ roomy scans look s
  generalize pollAt loads b look s = after at polled ⊢
  cases polled with
  | skipped => exact poised
  | raised =>
    intro _ unforced
    cases unforced
  | paged fresh returns =>
    intro unpending _ signature signed record inside
    simp only [takePage] at unpending signed ⊢
    rcases clears with skips | raised | ⟨full,row,among,carries⟩ | covers
    · exact absurd skips fresh
    · exact absurd raised returns
    · have moved := takeSeqs_moves (List.mem_map_of_mem among) (page_row_beyond look s.lastSeq among carries)
      rw [List.length_map,decide_eq_true full,decide_eq_true moved] at unpending
      cases unpending
    · rw [Bool.eq_false_iff]
      intro new
      have before := takeSeqs_rises _ _ _ new
      have covered := takeSeqs_covers s.lastSeq _ record (covers signature signed record inside before)
      rw [new] at covered
      cases covered

theorem polled_further (look : DshLook σ) (s : DshTailer σ) (poised : Poised held s) (clears : Clears loads b held s look)
    (unchanged : Unchanged loads b held signature look) :
    ((held signature).filter (beyond (pollAt loads b look s).1.lastSeq)).length ≤
        ((held signature).filter (beyond s.lastSeq)).length - 1 ∧
      (s.initialized = true → (pollAt loads b look s).1.initialized = true) ∧
      (Rising (held signature) → s.initialized = true →
        (held signature).filter (beyond s.lastSeq) =
          (pollAt loads b look s).2 ++ (held signature).filter (beyond (pollAt loads b look s).1.lastSeq)) := by
  obtain ⟨signed,same,spoken⟩ := unchanged
  have polled := @poll_polled _ _ loads b _ roomy scans look s
  generalize pollAt loads b look s = after at polled ⊢
  cases polled with
  | skipped skips =>
    obtain ⟨unforced,unpending,_,still⟩ := skips
    have none' : (held signature).filter (beyond s.lastSeq) = [] := by
      refine List.filter_eq_nil_iff.mpr fun record inside => ?_
      simp [poised unpending unforced signature (by rw [← still,signed]) record inside]
    rw [none']
    exact ⟨Nat.le_refl _,id,fun _ _ => rfl⟩
  | raised _ _ bad =>
    obtain ⟨line,inside,bad⟩ := bad
    exact absurd (spoken line inside) bad
  | paged fresh returns =>
    simp only [takePage]
    have fewer := remaining_again (held signature) ((look.page loads b s.lastSeq).map Prod.snd) s.lastSeq
    refine ⟨?_,fun _ => trivial,fun rising initialized => ?_⟩
    · by_cases none' : (held signature).filter (beyond s.lastSeq) = []
      · rw [fewer,none']
        exact Nat.le_refl _
      · obtain ⟨record,among⟩ := List.exists_mem_of_ne_nil _ none'
        obtain ⟨inside,new⟩ := List.mem_filter.mp among
        obtain ⟨row,among,carries⟩ := clears_some clears fresh returns signed inside new
        have held' : row.2 ∈ (held signature).filter (beyond s.lastSeq) :=
          List.mem_filter.mpr ⟨same ▸ rows_retained roomy look row ((room_begins _ _ _).subset among) carries,
            page_row_beyond look s.lastSeq among carries⟩
        have covered := takeSeqs_covers s.lastSeq _ row.2 (List.mem_map_of_mem among)
        rw [fewer]
        refine Nat.le_sub_one_of_lt (List.length_filter_lt_length_iff_exists.mpr ⟨row.2,held',?_⟩)
        rw [covered]
        exact Bool.false_ne_true
    · rw [if_pos initialized]
      exact (page_taken roomy look s.lastSeq ⟨[],by rw [List.append_nil,same]⟩ rising).2

theorem run_poised (path : Run (advanceDsh loads b) (Clears loads b held) s looks after) (start : Poised held s) :
    Poised held after :=
  path.invariant (Poised held) start fun before look _ poised clears moved => by
    cases moved
    exact poised_polled roomy scans look before poised clears

theorem run_further (path : Run (advanceDsh loads b) (fun s look => Clears loads b held s look ∧
      Unchanged loads b held signature look) s looks after) (poised : Poised held s)
    (enough : ((held signature).filter (beyond s.lastSeq)).length ≤ looks.length) :
    (∀ record ∈ held signature, beyond after.lastSeq record = false) ∧
      (Rising (held signature) → s.initialized = true →
        handed loads b s looks = (held signature).filter (beyond s.lastSeq)) := by
  induction path with
  | nil =>
    have none' := List.length_eq_zero_iff.mp (Nat.le_zero.mp enough)
    refine ⟨fun record inside => ?_,fun _ _ => none'.symm⟩
    simpa using List.filter_eq_nil_iff.mp none' record inside
  | @cons s look middle rest after fits stepped _ ih =>
    cases stepped
    obtain ⟨fewer,initial,handed'⟩ := polled_further roomy scans look s poised fits.1 fits.2
    obtain ⟨done,rest'⟩ := ih (poised_polled roomy scans look s poised fits.1) (by
      rw [List.length_cons] at enough
      omega)
    exact ⟨done,fun rising initialized => by
      rw [handed,rest' rising (initial initialized),← handed' rising initialized]⟩

theorem unclear_sticks (signed : look.signature = some signature) (same : look.retained loads b = held signature)
    (rising : Rising (held signature)) (unclear : ¬ Clears loads b held s look) :
    (∃ record ∈ held signature, beyond (pollAt loads b look s).1.lastSeq record = true) ∧
      ∀ looks, (∀ l ∈ looks, l.signature = some signature) → handed loads b (pollAt loads b look s).1 looks = [] := by
  rw [Clears,not_or,not_or,not_or] at unclear
  obtain ⟨fresh,returns,short,uncovered⟩ := unclear
  have polled := @poll_polled _ _ loads b _ roomy scans look s
  generalize pollAt loads b look s = after at polled ⊢
  cases polled with
  | skipped skips => exact absurd skips fresh
  | raised _ raised => exact absurd raised returns
  | paged =>
    constructor
    · push Not at uncovered
      obtain ⟨_,signed',record,inside,new,missing⟩ := uncovered
      cases signed.symm.trans signed'
      obtain ⟨taken,whole⟩ := page_taken roomy look s.lastSeq ⟨[],by rw [List.append_nil,same]⟩ rising
      have among : record ∈ (held signature).filter (beyond s.lastSeq) := List.mem_filter.mpr ⟨inside,new⟩
      rw [whole,taken] at among
      have remains := (List.mem_append.mp among).resolve_left fun first => missing (List.mem_filter.mp first).1
      exact ⟨record,inside,(List.mem_filter.mp remains).2⟩
    · refine unchanged_quiet rfl ?_ signed
      simp only [takePage,List.length_map,Bool.and_eq_false_iff,decide_eq_false_iff_not]
      by_cases full : b.maxRecords ≤ (look.page loads b s.lastSeq).length
      · refine .inr fun moved => moved (takeSeqs_still fun record among => ?_)
        obtain ⟨row,within,rfl⟩ := List.mem_map.mp among
        simpa using fun carries => short ⟨full,row,within,carries⟩
      · exact .inl full

end Steps

-- After any polls whose pages clear, as many further polls of the file as it stands as
-- records are left leave nothing beyond last_seq and hand on what was, in its order.
theorem remaining_fetched [DecidableEq σ] (loads : Bytes → Loaded (Record ω)) (held : σ → List (Record ω)) (maxRecords : Nat)
    (fromStart : Bool) (rowSeq : Option Int) (created : Option σ)
    (path : Run (advanceDsh loads (dshBudget maxRecords)) (Clears loads (dshBudget maxRecords) held)
      (createTailer fromStart rowSeq created) polls s)
    (further : Run (advanceDsh loads (dshBudget maxRecords)) (fun s look =>
      Clears loads (dshBudget maxRecords) held s look ∧ Unchanged loads (dshBudget maxRecords) held signature look) s looks after)
    (enough : ((held signature).filter (beyond s.lastSeq)).length ≤ looks.length) :
    (∀ record ∈ held signature, beyond after.lastSeq record = false) ∧
      (Rising (held signature) → s.initialized = true →
        handed loads (dshBudget maxRecords) s looks = (held signature).filter (beyond s.lastSeq)) := by
  have roomy : (dshBudget maxRecords).maxLineBytes ≤ (dshBudget maxRecords).maxRetainedBytes := by
    simp [dshBudget,Transcript.budget]
  have scans : 0 < (dshBudget maxRecords).maxScanBytes ∧ 0 < (dshBudget maxRecords).maxRetainedBytes := by
    simp [dshBudget,Transcript.budget]
  exact run_further roomy scans further (run_poised roomy scans path (poised_created held fromStart rowSeq created)) enough

-- Two rows, {"seq":1} and {"seq":2}.
def seqRow (digit : UInt8) : Bytes := [123,34,115,101,113,34,58,digit,125]
def seqRecord (seq : Int) : Record Unit := Dict.empty.set "seq" (.int seq)
def twoRows (line : Bytes) : Loaded (Record Unit) :=
  if line = seqRow 49 then .object (seqRecord 1) else if line = seqRow 50 then .object (seqRecord 2) else .other

def twoSeqs (turns : List Turn) : DshLook Nat := ⟨some 0,some (seqRow 49 ++ newline :: seqRow 50 ++ [newline]),turns⟩
def wholeTurns : List Turn := [.ready 63,.ready 63]

theorem twoRows_spoken (b : Budget) (line : Bytes) : Spoken twoRows b line := by
  intro _ _
  unfold twoRows
  split
  · simp
  · split <;> simp

theorem remaining_fetched_pages :
    (∀ record ∈ [seqRecord 1,seqRecord 2], beyond (some 2) record = false) ∧
      (Rising [seqRecord 1,seqRecord 2] → true = true →
        handed twoRows (dshBudget 1) ⟨some 1,true,true,false,some 0⟩ [twoSeqs wholeTurns] =
          [seqRecord 1,seqRecord 2].filter (beyond (some 1))) := by
  have one : (twoSeqs wholeTurns).page twoRows (dshBudget 1) none = [(seqRow 49,seqRecord 1)] := by decide +kernel
  have two : (twoSeqs wholeTurns).page twoRows (dshBudget 1) (some 1) = [(seqRow 50,seqRecord 2)] := by decide +kernel
  have first : pollAt twoRows (dshBudget 1) (twoSeqs wholeTurns) (createTailer true none (some 0)) =
      (⟨some 1,true,true,false,some 0⟩,[seqRecord 1]) := by decide +kernel
  have second : pollAt twoRows (dshBudget 1) (twoSeqs wholeTurns) ⟨some 1,true,true,false,some 0⟩ =
      (⟨some 2,true,true,false,some 0⟩,[seqRecord 2]) := by decide +kernel
  have retains : (twoSeqs wholeTurns).retained twoRows (dshBudget 1) = [seqRecord 1,seqRecord 2] := by decide +kernel
  refine @remaining_fetched _ _ [twoSeqs wholeTurns] ⟨some 1,true,true,false,some 0⟩ 0 [twoSeqs wholeTurns]
    ⟨some 2,true,true,false,some 0⟩ _ twoRows (fun _ => [seqRecord 1,seqRecord 2]) 1 true none (some 0) ?_ ?_ (by decide)
  · refine .single (.inr (.inr (.inl ⟨?_,(seqRow 49,seqRecord 1),?_,rfl⟩))) (by rw [advanceDsh,first])
    · exact (congrArg List.length one).ge
    · exact one ▸ List.mem_cons_self
  · refine .single ⟨.inr (.inr (.inl ⟨?_,(seqRow 50,seqRecord 2),?_,rfl⟩)),rfl,retains,fun line _ => twoRows_spoken _ line⟩
      (by rw [advanceDsh,second])
    · exact (congrArg List.length two).ge
    · exact two ▸ List.mem_cons_self

-- A first poll whose time runs out after the first row: no poll of the file as it stands,
-- however long it may take, fetches the second one.
theorem timed_out_sticks :
    let s := (pollAt twoRows (dshBudget 64) (twoSeqs [.ready 9,.expired]) (createTailer true none (some 0))).1
    (∃ record ∈ (twoSeqs wholeTurns).retained twoRows (dshBudget 64), beyond s.lastSeq record = true) ∧
      ∀ looks, (∀ look ∈ looks, look.signature = some 0) → handed twoRows (dshBudget 64) s looks = [] := by
  intro s
  have stuck : s = ⟨some 1,true,false,false,some 0⟩ := by decide +kernel
  have retains : (twoSeqs wholeTurns).retained twoRows (dshBudget 64) = [seqRecord 1,seqRecord 2] := by decide +kernel
  rw [stuck,retains]
  exact ⟨⟨seqRecord 2,by decide,rfl⟩,unchanged_quiet rfl rfl rfl⟩

end AgentSideCar.Replay
