import Mathlib.Data.List.Perm.Basic
import AgentSideCar.Library.Gather
import AgentSideCar.Timeline.Convergence

namespace AgentSideCar.Timeline
open Gather
variable {δ ε : Type}

-- The sidecar event whose text a dsh event takes: the first of its seq, and only
-- where no dsh event of that seq came before.
def twinOf (sidecarEvents : List (SidecarEvent ε)) (dshSeqs : List Int) (ev : DshSessionEvent δ) :
    Option (SidecarEvent ε) :=
  if ev.seq ∈ dshSeqs then none else sidecarEvents.find? (seqOf · = some ev.seq)

def paired (sidecarEvents : List (SidecarEvent ε)) :
    List Int → List (DshSessionEvent δ) → List (DshSessionEvent δ × Option (SidecarEvent ε))
  | _,[] => []
  | dshSeqs,ev :: rest =>
    (ev,twinOf sidecarEvents dshSeqs ev) :: paired sidecarEvents (ev.seq :: dshSeqs) rest

-- The sidecar events that follow the dsh event their first twin was folded into.
def siblings (sidecarEvents : List (SidecarEvent ε)) : List Int → List (DshSessionEvent δ) → List (SidecarEvent ε)
  | _,[] => []
  | dshSeqs,ev :: rest =>
    (if ev.seq ∈ dshSeqs then [] else (sidecarEvents.filter (seqOf · = some ev.seq)).drop 1) ++
      siblings sidecarEvents (ev.seq :: dshSeqs) rest

theorem twins_get (sidecarEvents : List (SidecarEvent ε)) (seq : Int) :
    ((twinsBySeq sidecarEvents).get seq).getD [] = sidecarEvents.filter (seqOf · = some seq) := by
  induction sidecarEvents using List.reverseRecOn with
  | nil => rfl
  | append_singleton events ev ih =>
    rw [twinsBySeq,List.foldl_append,List.foldl_cons,List.foldl_nil,← twinsBySeq,List.filter_append,← ih]
    cases own : seqOf ev with
    | none => simp [own]
    | some other =>
      simp only [Dict.get_set]
      by_cases same : seq = other
      · subst same
        simp [own]
      · have apart : other ≠ seq := fun again => same again.symm
        simp [own,same,apart]

theorem twins_group (sidecarEvents : List (SidecarEvent ε)) {group : Int × List (SidecarEvent ε)}
    (inside : group ∈ (twinsBySeq sidecarEvents).entries) :
    group.2 = sidecarEvents.filter (seqOf · = some group.1) := by
  have found : (twinsBySeq sidecarEvents).get group.1 = some group.2 := (Dict.get_iff _).mpr inside
  rw [← twins_get,found]
  rfl

theorem twins_keys (sidecarEvents : List (SidecarEvent ε)) {ev : SidecarEvent ε} (inside : ev ∈ sidecarEvents)
    (own : seqOf ev = some seq) : seq ∈ (twinsBySeq sidecarEvents).keys := by
  by_contra absent
  have none_here := twins_get sidecarEvents seq
  rw [(Dict.get_none _).mpr absent,Option.getD_none] at none_here
  exact List.filter_eq_nil_iff.mp none_here.symm ev inside (by simpa using own)

theorem paired_events (sidecarEvents : List (SidecarEvent ε)) (dshSeqs : List Int) (events : List (DshSessionEvent δ)) :
    (paired sidecarEvents dshSeqs events).map (·.1) = events := by
  induction events generalizing dshSeqs with
  | nil => rfl
  | cons ev rest ih => rw [paired,List.map_cons,ih]

theorem paired_twins (sidecarEvents : List (SidecarEvent ε)) (dshSeqs : List Int) (events : List (DshSessionEvent δ))
    {i : Nat} {ev : DshSessionEvent δ} {twin : Option (SidecarEvent ε)}
    (at' : (paired sidecarEvents dshSeqs events)[i]? = some (ev,twin)) :
    twin = if ev.seq ∈ dshSeqs ++ (events.take i).map (·.seq) then none
      else sidecarEvents.find? (seqOf · = some ev.seq) := by
  induction events generalizing dshSeqs i with
  | nil => simp [paired] at at'
  | cons first rest ih =>
    rw [paired] at at'
    cases i with
    | zero =>
      cases at'
      simp [twinOf]
    | succ i =>
      rw [List.getElem?_cons_succ] at at'
      rw [ih _ at']
      simp only [List.take_succ_cons,List.map_cons,List.mem_append,List.mem_cons]
      refine if_congr ?_ rfl rfl
      grind

-- A dsh event's group is its twin and the siblings after it.
theorem fold_dsh (dateParse : DateParse) (sidecarEvents : List (SidecarEvent ε)) (dshSeqs : List Int)
    (events : List (DshSessionEvent δ)) :
    (foldDsh dateParse (twinsBySeq sidecarEvents) dshSeqs events).filter (·.origin = .dsh) =
      (paired sidecarEvents dshSeqs events).map fun pair => dshEntry pair.1 pair.2 := by
  induction events generalizing dshSeqs with
  | nil => rfl
  | cons ev rest ih =>
    have own : ∀ seq (l : List (SidecarEvent ε)),
        (l.map (sidecarEntry dateParse seq : _ → TimelineEntry δ ε)).filter (·.origin = .dsh) = [] := by
      intro seq l
      refine List.filter_eq_nil_iff.mpr fun e inside => ?_
      obtain ⟨_,_,rfl⟩ := List.mem_map.mp inside
      simp [sidecarEntry]
    rw [foldDsh,paired,List.map_cons,← ih]
    simp only
    rw [List.filter_append,List.filter_cons_of_pos (by simp [dshEntry]),own,List.singleton_append]
    congr 2
    rw [twinOf]
    split
    · rfl
    · rw [twins_get,List.head?_filter]

theorem fold_siblings (dateParse : DateParse) (sidecarEvents : List (SidecarEvent ε)) (dshSeqs : List Int)
    (events : List (DshSessionEvent δ)) :
    (foldDsh dateParse (twinsBySeq sidecarEvents) dshSeqs events).filter (·.origin = .sidecar) =
      (siblings sidecarEvents dshSeqs events).map fun ev => sidecarEntry dateParse (seqOf ev) ev := by
  induction events generalizing dshSeqs with
  | nil => rfl
  | cons ev rest ih =>
    rw [foldDsh,siblings,List.map_append,← ih,List.filter_append,List.filter_cons_of_neg (by simp [dshEntry])]
    congr 1
    rw [List.filter_eq_self.mpr]
    · split
      · rfl
      · rw [twins_get]
        refine List.map_congr_left fun other inside => ?_
        have := (List.mem_filter.mp (List.mem_of_mem_drop inside)).2
        rw [decide_eq_true_eq.mp this]
    · intro e inside
      obtain ⟨_,_,rfl⟩ := List.mem_map.mp inside
      simp [sidecarEntry]

theorem fold_perm (sidecarEvents : List (SidecarEvent ε)) (dshSeqs : List Int) (events : List (DshSessionEvent δ)) :
    ((paired sidecarEvents dshSeqs events).filterMap (·.2) ++ siblings sidecarEvents dshSeqs events).Perm
      (sidecarEvents.filter fun other => ∃ ev ∈ events, ev.seq ∉ dshSeqs ∧ seqOf other = some ev.seq) := by
  induction events generalizing dshSeqs with
  | nil => simp [paired,siblings]
  | cons ev rest ih =>
    rw [paired,siblings,List.filterMap_cons,twinOf]
    have later := ih (ev.seq :: dshSeqs)
    by_cases old : ev.seq ∈ dshSeqs
    · rw [if_pos old,if_pos old,List.nil_append]
      refine later.trans (.of_eq (List.filter_congr fun other _ => decide_eq_decide.mpr ?_))
      grind
    · rw [if_neg old,if_neg old,← List.head?_filter]
      have whole := List.filter_append_perm (seqOf · = some ev.seq)
        (sidecarEvents.filter fun other => ∃ e ∈ ev :: rest, e.seq ∉ dshSeqs ∧ seqOf other = some e.seq)
      rw [List.filter_filter,List.filter_filter] at whole
      have here : sidecarEvents.filter (seqOf · = some ev.seq) = sidecarEvents.filter fun other =>
          decide (seqOf other = some ev.seq) && decide (∃ e ∈ ev :: rest, e.seq ∉ dshSeqs ∧ seqOf other = some e.seq) := by
        refine List.filter_congr fun other _ => ?_
        by_cases same : seqOf other = some ev.seq <;> simp [same,old]
      have there : sidecarEvents.filter (fun other => ∃ e ∈ rest, e.seq ∉ ev.seq :: dshSeqs ∧ seqOf other = some e.seq) =
          sidecarEvents.filter fun other => (!decide (seqOf other = some ev.seq)) &&
            decide (∃ e ∈ ev :: rest, e.seq ∉ dshSeqs ∧ seqOf other = some e.seq) := by
        refine List.filter_congr fun other _ => ?_
        rw [Bool.eq_iff_iff]
        simp only [decide_eq_true_eq,Bool.and_eq_true,Bool.not_eq_true',decide_eq_false_iff_not]
        constructor
        · rintro ⟨e,ine,fresh,own⟩
          refine ⟨fun same => fresh ?_,e,List.mem_cons_of_mem _ ine,fun old => fresh (List.mem_cons_of_mem _ old),own⟩
          exact Option.some.inj (own.symm.trans same) ▸ List.mem_cons_self
        · rintro ⟨differs,e,ine,fresh,own⟩
          have other_seq : e.seq ≠ ev.seq := fun same => differs (same ▸ own)
          have ine : e ∈ rest := (List.mem_cons.mp ine).resolve_left fun same => other_seq (same ▸ rfl)
          exact ⟨e,ine,fun old => (List.mem_cons.mp old).elim other_seq fresh,own⟩
      rw [← here,← there] at whole
      refine .trans ?_ whole
      cases group : sidecarEvents.filter (seqOf · = some ev.seq) with
      | nil => simpa using later
      | cons first more =>
        simp only [List.head?_cons,List.drop_succ_cons,List.drop_zero,List.cons_append]
        refine .cons first ?_
        exact (List.perm_append_comm_assoc _ more _).trans (later.append_left more)

-- The sidecar events of the seqs that no dsh event has.
def unmatched (dshEvents : List (DshSessionEvent δ)) (sidecarEvents : List (SidecarEvent ε)) : List (SidecarEvent ε) :=
  ((twinsBySeq sidecarEvents).entries.filter fun group => group.1 ∉ dshEvents.map (·.seq)).flatMap (·.2)

theorem orphans_unmatched (dateParse : DateParse) (dshEvents : List (DshSessionEvent δ))
    (sidecarEvents : List (SidecarEvent ε)) : orphans dateParse (twinsBySeq sidecarEvents) dshEvents =
      (unmatched dshEvents sidecarEvents).map fun ev => sidecarEntry dateParse (seqOf ev) ev := by
  rw [orphans,unmatched,List.map_flatMap]
  refine List.flatMap_congr fun group inside => ?_
  have whole := twins_group sidecarEvents (List.mem_filter.mp inside).1
  refine List.map_congr_left fun ev within => ?_
  rw [whole] at within
  rw [decide_eq_true_eq.mp (List.mem_filter.mp within).2]

theorem unmatched_perm (dshEvents : List (DshSessionEvent δ)) (sidecarEvents : List (SidecarEvent ε)) :
    (unmatched dshEvents sidecarEvents).Perm
      (sidecarEvents.filter fun other => (seqOf other).any (· ∉ dshEvents.map (·.seq))) := by
  have keyed : unmatched dshEvents sidecarEvents =
      ((twinsBySeq sidecarEvents).keys.filter (· ∉ dshEvents.map (·.seq))).flatMap
        fun seq => sidecarEvents.filter (seqOf · = some seq) := by
    rw [unmatched,Dict.keys,List.filter_map,List.flatMap_map]
    exact List.flatMap_congr fun group inside => twins_group sidecarEvents (List.mem_filter.mp inside).1
  rw [keyed]
  refine (classes_perm seqOf _ sidecarEvents ((twinsBySeq sidecarEvents).unique.filter _)).trans (.of_eq ?_)
  refine List.filter_congr fun ev inside => ?_
  rw [Bool.eq_iff_iff,decide_eq_true_eq,Option.any_eq_true_iff_get]
  constructor
  · rintro ⟨seq,known,own⟩
    refine ⟨by rw [own]; rfl,?_⟩
    simpa [own] using (List.mem_filter.mp known).2
  · rintro ⟨some',foreign⟩
    obtain ⟨seq,own⟩ := Option.isSome_iff_exists.mp some'
    refine ⟨seq,List.mem_filter.mpr ⟨twins_keys sidecarEvents inside own,?_⟩,own⟩
    simpa [own] using foreign

theorem events_perm (dshEvents : List (DshSessionEvent δ)) (sidecarEvents : List (SidecarEvent ε)) :
    ((paired sidecarEvents [] dshEvents).filterMap (·.2) ++ (siblings sidecarEvents [] dshEvents ++
      unmatched dshEvents sidecarEvents ++ sidecarEvents.filter fun ev => seqOf ev = none)).Perm sidecarEvents := by
  have known := fold_perm sidecarEvents [] dshEvents
  have foreign := unmatched_perm dshEvents sidecarEvents
  have seqed := List.filter_append_perm (fun other => decide (∃ ev ∈ dshEvents, seqOf other = some ev.seq))
    (sidecarEvents.filter fun other => (seqOf other).isSome)
  have whole := List.filter_append_perm (fun other => (seqOf other).isSome) sidecarEvents
  rw [List.filter_filter,List.filter_filter] at seqed
  rw [List.append_assoc,← List.append_assoc,← List.append_assoc]
  refine .trans (.append ((known.append foreign).trans (.trans (.append (.of_eq ?_) (.of_eq ?_)) seqed)) (.of_eq ?_)) whole
  · refine List.filter_congr fun other _ => ?_
    rw [Bool.eq_iff_iff]
    simp only [List.not_mem_nil,not_false_eq_true,true_and,Bool.and_eq_true,decide_eq_true_eq,iff_self_and]
    rintro ⟨ev,_,own⟩
    rw [own]; rfl
  · refine List.filter_congr fun other _ => ?_
    cases own : seqOf other with
    | none => simp
    | some seq =>
      simp only [Option.any_some,Option.isSome_some,Bool.and_true,List.mem_map,Option.some.injEq,decide_not]
      exact congrArg (!·) (decide_eq_decide.mpr ⟨fun ⟨ev,ine,same⟩ => ⟨ev,ine,same.symm⟩,
        fun ⟨ev,ine,same⟩ => ⟨ev,ine,same.symm⟩⟩)
  · refine List.filter_congr fun other _ => ?_
    cases seqOf other <;> rfl

theorem fold_sides (dateParse : DateParse) (sidecarEvents : List (SidecarEvent ε)) (events : List (DshSessionEvent δ)) :
    (foldDsh dateParse (twinsBySeq sidecarEvents) [] events).Perm
      ((paired sidecarEvents [] events).map (fun pair => dshEntry pair.1 pair.2) ++
        (siblings sidecarEvents [] events).map fun ev => sidecarEntry dateParse (seqOf ev) ev) := by
  have sides := List.filter_append_perm (·.origin = .dsh) (foldDsh dateParse (twinsBySeq sidecarEvents) [] events)
  have other : (foldDsh dateParse (twinsBySeq sidecarEvents) [] events).filter (fun e => !decide (e.origin = .dsh)) =
      (foldDsh dateParse (twinsBySeq sidecarEvents) [] events).filter (·.origin = .sidecar) := by
    refine List.filter_congr fun e _ => ?_
    cases e.origin <;> rfl
  rw [other,fold_dsh,fold_siblings] at sides
  exact sides.symm

theorem merge_perm (dateParse : DateParse) (dshEvents : List (DshSessionEvent δ)) (sidecarEvents : List (SidecarEvent ε)) :
    (mergeTimeline dateParse dshEvents sidecarEvents).Perm
      ((paired sidecarEvents [] dshEvents).map (fun pair => dshEntry pair.1 pair.2) ++
        (siblings sidecarEvents [] dshEvents ++ unmatched dshEvents sidecarEvents ++
          sidecarEvents.filter fun ev => seqOf ev = none).map fun ev => sidecarEntry dateParse (seqOf ev) ev) := by
  have bare : (sidecarEvents.filter fun ev => seqOf ev = none).map (sidecarEntry dateParse none : _ → TimelineEntry δ ε) =
      (sidecarEvents.filter fun ev => seqOf ev = none).map fun ev => sidecarEntry dateParse (seqOf ev) ev := by
    refine List.map_congr_left fun ev inside => ?_
    rw [decide_eq_true_eq.mp (List.mem_filter.mp inside).2]
  rw [mergeTimeline,Merge.interleave_exact]
  have left : (seqDomain dateParse dshEvents sidecarEvents).Perm _ := List.perm_insertionSort _ _
  have right : (unseqed dateParse sidecarEvents : List (TimelineEntry δ ε)).Perm _ := List.perm_insertionSort _ _
  refine ((List.merge_perm_append _).trans (left.append right)).trans ?_
  rw [orphans_unmatched,bare,List.map_append,List.map_append,← List.append_assoc,← List.append_assoc]
  exact ((fold_sides dateParse sidecarEvents dshEvents).append_right _).append_right _

theorem merge_seqs (dateParse : DateParse) (dshEvents : List (DshSessionEvent δ)) (sidecarEvents : List (SidecarEvent ε)) :
    (mergeTimeline dateParse dshEvents sidecarEvents).filter (·.seq.isSome) =
      seqDomain dateParse dshEvents sidecarEvents := by
  rw [mergeTimeline,Merge.interleave_exact]
  refine Merge.merge_filter _ _ _ _ (seqDomain_seq dateParse dshEvents sidecarEvents) fun e inside => ?_
  simp [(unseqed_sides dateParse sidecarEvents e inside).1]

theorem merge_unseqed (dateParse : DateParse) (dshEvents : List (DshSessionEvent δ))
    (sidecarEvents : List (SidecarEvent ε)) :
    (mergeTimeline dateParse dshEvents sidecarEvents).filter (·.seq.isNone) = unseqed dateParse sidecarEvents := by
  rw [mergeTimeline,Merge.interleave_exact]
  refine Merge.merge_filter_not _ _ _ _ (fun e inside => ?_) fun e inside => ?_
  · simpa using seqDomain_seq dateParse dshEvents sidecarEvents e inside
  · simp [(unseqed_sides dateParse sidecarEvents e inside).1]

-- Every dsh event is one entry, with its twin if it is the first of its seq. Every
-- sidecar event is such a twin or one entry of its own.
theorem merge_emits_once (dateParse : DateParse) (dshEvents : List (DshSessionEvent δ))
    (sidecarEvents : List (SidecarEvent ε)) :
    (∃ (pairs : List (DshSessionEvent δ × Option (SidecarEvent ε))) (own : List (SidecarEvent ε)),
      pairs.map (·.1) = dshEvents ∧
      (∀ i ev twin, pairs[i]? = some (ev,twin) → twin =
        if ev.seq ∈ (dshEvents.take i).map (·.seq) then none else sidecarEvents.find? (seqOf · = some ev.seq)) ∧
      (pairs.filterMap (·.2) ++ own).Perm sidecarEvents ∧
      (mergeTimeline dateParse dshEvents sidecarEvents).Perm (pairs.map (fun pair => dshEntry pair.1 pair.2) ++
        own.map fun ev => sidecarEntry dateParse (seqOf ev) ev)) ∧
    ((mergeTimeline dateParse dshEvents sidecarEvents).filter (·.seq.isSome)).Pairwise seqOrder ∧
    ((mergeTimeline dateParse dshEvents sidecarEvents).filter (·.seq.isNone)).Pairwise tsOrder ∧
    ∀ turns, dshEvents.length + sidecarEvents.length < turns →
      Merge.loop (fun a b => decide (a.ts ≤ b.ts)) (seqDomain dateParse dshEvents sidecarEvents)
        (unseqed dateParse sidecarEvents) turns 0 0 [] = some (mergeTimeline dateParse dshEvents sidecarEvents) := by
  refine ⟨⟨paired sidecarEvents [] dshEvents,_,paired_events sidecarEvents [] dshEvents,?_,
    events_perm dshEvents sidecarEvents,merge_perm dateParse dshEvents sidecarEvents⟩,?_,?_,?_⟩
  · intro i ev twin at'
    exact paired_twins sidecarEvents [] dshEvents at'
  · rw [merge_seqs]
    exact List.pairwise_insertionSort seqOrder _
  · rw [merge_unseqed]
    exact List.pairwise_insertionSort tsOrder _
  · intro turns enough
    have emitted := (merge_perm (δ := δ) dateParse dshEvents sidecarEvents).length_eq
    have shared := (events_perm dshEvents sidecarEvents).length_eq
    have events := congrArg List.length (paired_events sidecarEvents [] dshEvents)
    rw [List.length_append,List.length_map,List.length_map] at emitted
    rw [List.length_map] at events
    rw [List.length_append] at shared
    have merged := List.length_merge (fun a b : TimelineEntry δ ε => decide (a.ts ≤ b.ts))
      (seqDomain dateParse dshEvents sidecarEvents) (unseqed dateParse sidecarEvents)
    rw [mergeTimeline,Merge.interleave_exact] at emitted ⊢
    rw [Merge.loop_exact]
    · simp
    · simp only [List.drop_zero]
      omega

end AgentSideCar.Timeline
