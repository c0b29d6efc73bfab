import Mathlib.Data.List.Pairwise
import AgentSideCar.Timeline.Arrival

namespace AgentSideCar.Timeline
open Runs
variable {δ ε ρ : Type} {final past entries : List (TimelineEntryVM ρ)} {c d f g y : TimelineEntryVM ρ}

-- The accumulated entries and the arrivals they were built from.
structure Heard (final past entries : List (TimelineEntryVM ρ)) : Prop where
  held : Partial final entries
  known : ∀ d ∈ entries, d ∈ past
  kept : ∀ y ∈ past, ∀ f ∈ final, Places final y f → ∃ d ∈ entries, Places final d f
  gained : ∀ f ∈ final, f ∈ past → f ∈ entries

theorem heard_nil (final : List (TimelineEntryVM ρ)) : Heard final [] [] :=
  ⟨partial_nil final,by simp,by simp,by simp⟩

theorem full_final (held : Partial final entries) (ind : d ∈ entries) (full : ¬ bare d) : d ∈ final := by
  obtain ⟨g,ing,places⟩ := held.placed d ind
  rcases places with rfl | ⟨⟨_,_,_,thin,_⟩,_⟩
  · exact ing
  · exact absurd thin full

theorem arrives_fits (ordered : Ordered final) (settled : Settled locale final) (heard : Heard final past entries)
    (arrives : Arrives final past y) : Fits final entries y := by
  obtain ⟨h,inh,places,arrived⟩ := arrives.place
  refine ⟨⟨h,inh,places,?_⟩,?_,?_⟩
  · intro some earlier later split x inx same
    obtain ⟨d,ind,theirs⟩ := arrived some earlier later split x inx same
    exact heard.kept d ind x (by rw [split]; exact List.mem_append_left _ inx) theirs
  · intro full d ind thin slot
    obtain rfl : y = h := places.resolve_right fun settles => full settles.1.2.2.2.1
    obtain ⟨g,ing,theirs⟩ := heard.held.placed d ind
    rcases theirs with rfl | ⟨⟨_,dsh,slot',_,full'⟩,_⟩
    · exact absurd (settled.uniform d ing y inh slot thin) full
    · cases side : y.origin with
      | dsh => rfl
      | sidecar =>
        have told := arrives.apart g ing dsh full' (slot'.symm.trans slot) d (heard.known d ind) slot (.inl ⟨full,side,thin⟩)
        exact absurd (heard.held.uniform d ind g (heard.gained g ing told) slot' thin) full'
  · intro f inf settles d ind full slot
    obtain ⟨_,dsh,slot',thin,full'⟩ := settles
    cases side : d.origin with
    | dsh =>
      have same := slot.trans slot'
      exact ordered.single d (full_final heard.held ind full) f inf side dsh
        (by rw [slot_seq slot]; exact bare_some thin) (slot_seq same) full full' ▸ ind
    | sidecar =>
      exact heard.gained f inf
        (arrives.apart f inf dsh full' slot'.symm d (heard.known d ind) slot (.inr ⟨thin,full,side⟩))

theorem heard_step (heard : Heard final past m.entries) (progress : Progress final m y after) :
    Heard final (past ++ [y]) after.entries := by
  refine ⟨progress.held,?_,?_,?_⟩
  · intro d ind
    rcases progress.fresh d ind with old | rfl
    · exact List.mem_append_left _ (heard.known d old)
    · exact List.mem_append_right _ (List.mem_singleton_self _)
  · intro x inx f inf places
    refine progress.kept f inf ?_
    rcases List.mem_append.mp inx with old | new
    · exact .inl (heard.kept x old f inf places)
    · exact .inr (List.mem_singleton.mp new ▸ places)
  · intro f inf inp
    refine progress.gained f inf ?_
    rcases List.mem_append.mp inp with old | new
    · exact .inl (heard.gained f inf old)
    · exact .inr (List.mem_singleton.mp new)

-- Every arrival meets its condition, given all arrivals before it.
def InOrder (final : List (TimelineEntryVM ρ)) : List (TimelineEntryVM ρ) → List (TimelineEntryVM ρ) → Prop
  | _,[] => True
  | past,y :: rest => Arrives final past y ∧ InOrder final (past ++ [y]) rest

theorem inOrder_append : InOrder final past (first ++ second) ↔
    InOrder final past first ∧ InOrder final (past ++ first) second := by
  induction first generalizing past with
  | nil => simp [InOrder]
  | cons y rest ih => simp [InOrder,ih,and_assoc]

theorem wires_heard (render : TimelineEntry δ ε → ρ) (wires : List (TimelineEntry δ ε)) (ordered : Ordered final)
    (settled : Settled locale final) (heard : Heard final past m.entries) (linked : Linked final m)
    (orderly : InOrder final past (wires.map (normalizeTimelineEntry render))) :
    Heard final (past ++ wires.map (normalizeTimelineEntry render)) (wires.foldl (mergeWire render) m).entries ∧
      ((wires.foldl (mergeWire render) m).changed = false →
        m.changed = false ∧ (wires.foldl (mergeWire render) m).entries = m.entries) := by
  induction wires generalizing past m with
  | nil => exact ⟨by simpa using heard,fun same => ⟨same,rfl⟩⟩
  | cons w rest ih =>
    obtain ⟨arrives,later⟩ := orderly
    have progress := wire_progress render w ordered settled heard.held linked (arrives_fits ordered settled heard arrives)
    obtain ⟨held,idle⟩ := ih (heard_step heard progress) progress.linked later
    refine ⟨by simpa using held,fun same => ?_⟩
    obtain ⟨quiet,kept⟩ := idle same
    obtain ⟨before,entries⟩ := progress.idle quiet
    exact ⟨before,kept.trans entries⟩

-- What a merge returns is in the client's order.
def Arranged (locale : Collation) (entries : List (TimelineEntryVM ρ)) : Prop :=
  entries = [] ∨ ∃ l, entries = sortTimelineEntries locale l

theorem heard_perm (perm : entries.Perm others) (held : Partial final entries) (heard : Heard final past others) :
    Heard final past entries := by
  refine ⟨held,fun d ind => heard.known d (perm.subset ind),?_,?_⟩
  · intro x inx f inf places
    obtain ⟨d,ind,theirs⟩ := heard.kept x inx f inf places
    exact ⟨d,perm.symm.subset ind,theirs⟩
  · exact fun f inf inp => perm.symm.subset (heard.gained f inf inp)

theorem merge_heard (render : TimelineEntry δ ε → ρ) (locale : Collation) (wires : List (TimelineEntry δ ε))
    (ordered : Ordered final) (settled : Settled locale final) (heard : Heard final past entries)
    (arranged : Arranged locale entries) (orderly : InOrder final past (wires.map (normalizeTimelineEntry render))) :
    Heard final (past ++ wires.map (normalizeTimelineEntry render)) (mergeEntries render locale entries wires).1 ∧
      Arranged locale (mergeEntries render locale entries wires).1 := by
  obtain ⟨begun,_,linked⟩ := begin_linked final entries
  obtain ⟨held,idle⟩ := wires_heard render wires ordered settled (begun.symm ▸ heard) linked orderly
  unfold mergeEntries
  simp only
  split
  · rename_i quiet
    refine ⟨held,?_⟩
    rw [(idle (by simpa using quiet)).2,begun]
    exact arranged
  · exact ⟨heard_perm (sort_perm locale _) (sort_partials locale held.held) held,.inr ⟨_,rfl⟩⟩

def arrivals (c : Client δ ε ρ) (events : List (Receive δ ε)) : List (TimelineEntryVM ρ) :=
  events.flatMap fun event => (event.served.page c.dateParse).entries.map (normalizeTimelineEntry c.render)

theorem advance_entries (c : Client δ ε ρ) (stepped : advance c vm event = some after) :
    after.entries = (mergeEntries c.render c.locale vm.entries (event.served.page c.dateParse).entries).1 := by
  cases event with
  | timeline served => cases stepped; rfl
  | listen served => cases stepped; rfl

theorem run_heard (c : Client δ ε ρ) (ordered : Ordered final) (settled : Settled c.locale final)
    (heard : Heard final past vm.entries) (arranged : Arranged c.locale vm.entries)
    (orderly : InOrder final past (arrivals c events)) (path : Run (advance c) Any vm events after) :
    Heard final (past ++ arrivals c events) after.entries ∧ Arranged c.locale after.entries := by
  induction path generalizing past with
  | nil => exact ⟨by simpa [arrivals] using heard,arranged⟩
  | cons _ stepped _ ih =>
    obtain ⟨now,later⟩ := inOrder_append.mp orderly
    have merged := merge_heard c.render c.locale _ ordered settled heard arranged now
    rw [← advance_entries c stepped] at merged
    obtain ⟨held,last⟩ := ih merged.1 merged.2 later
    exact ⟨by simpa [arrivals,List.append_assoc] using held,last⟩

instance : Std.Total (@seqThenOrigin ρ) where
  total a b := by
    rcases lt_trichotomy (a.seq.getD 0) (b.seq.getD 0) with less | same | more
    · exact .inl (.inl less)
    · cases side : a.origin with
      | dsh => exact .inl (.inr ⟨same,.inl side⟩)
      | sidecar => exact .inr (.inr ⟨same.symm,.inr side⟩)
    · exact .inr (.inl more)

instance : IsTrans (TimelineEntryVM ρ) seqThenOrigin where
  trans a b c := by
    rintro (ab | ⟨ab,left⟩) (bc | ⟨bc,right⟩)
    · exact .inl (ab.trans bc)
    · exact .inl (bc ▸ ab)
    · exact .inl (ab ▸ bc)
    · refine .inr ⟨ab.trans bc,?_⟩
      rcases left with dsh | side
      · exact .inl dsh
      · exact .inr (right.resolve_left fun dsh => by rw [side] at dsh; cases dsh)

instance (locale : Collation) : Std.Total (@tsThenKey ρ locale) where
  total a b := by
    rcases lt_trichotomy a.ts b.ts with less | same | more
    · exact .inl (.inl less)
    · exact (locale.total a.key b.key).imp (fun le => .inr ⟨same,le⟩) (fun le => .inr ⟨same.symm,le⟩)
    · exact .inr (.inl more)

instance (locale : Collation) : IsTrans (TimelineEntryVM ρ) (tsThenKey locale) where
  trans a b c := by
    rintro (ab | ⟨ab,left⟩) (bc | ⟨bc,right⟩)
    · exact .inl (ab.trans bc)
    · exact .inl (bc ▸ ab)
    · exact .inl (ab ▸ bc)
    · exact .inr ⟨ab.trans bc,locale.trans _ _ _ left right⟩

theorem arranged_seqs (arranged : Arranged locale entries) : (entries.filter (·.seq.isSome)).Pairwise seqThenOrigin := by
  rcases arranged with rfl | ⟨l,rfl⟩
  · simp
  · rw [filter_seqs]; exact List.pairwise_insertionSort _ _

theorem arranged_unseqed (arranged : Arranged locale entries) :
    (entries.filter (·.seq.isNone)).Pairwise (tsThenKey locale) := by
  rcases arranged with rfl | ⟨l,rfl⟩
  · simp
  · rw [filter_unseqed]; exact List.pairwise_insertionSort _ _

theorem arranged_merge (arranged : Arranged locale entries) : entries =
    (entries.filter (·.seq.isSome)).merge (entries.filter (·.seq.isNone)) fun f g => decide (f.ts ≤ g.ts) := by
  rcases arranged with rfl | ⟨l,rfl⟩
  · simp
  · rw [filter_seqs,filter_unseqed,sortTimelineEntries,Merge.interleave_exact]

-- Once every final entry has arrived nothing without its text is left, and the
-- client's order is the host's: seq by seq and origin by origin, then by timestamp.
theorem settled_entries (held : Partial final entries)
    (all : ∀ f ∈ final, f ∈ entries) : ∀ d, d ∈ entries ↔ d ∈ final := by
  refine fun d => ⟨fun ind => ?_,all d⟩
  obtain ⟨g,ing,places⟩ := held.placed d ind
  rcases places with rfl | ⟨⟨_,_,slot,thin,full⟩,_⟩
  · exact ing
  · exact absurd (held.uniform d ind g (all g ing) slot thin) full

theorem settled_perm (settled : Settled locale final) (held : Partial final entries)
    (all : ∀ f ∈ final, f ∈ entries) : entries.Perm final :=
  (List.perm_ext_iff_of_nodup (List.Nodup.of_map _ held.keys) (List.Nodup.of_map _ settled.keys)).mpr
    (settled_entries held all)

theorem settled_class (ordered : Ordered final) (settled : Settled locale final) (held : Partial final entries)
    (all : ∀ f ∈ final, f ∈ entries) (k : Option Int × Origin) (some : k.1.isSome = true) :
    entries.filter (cls · = k) = final.filter (cls · = k) := by
  obtain ⟨pre,rest,whole,placed⟩ := held.begun k some
  have same : entries.filter (cls · = k) = pre := by
    have inside : ∀ d ∈ entries.filter (cls · = k), d ∈ final := fun d ind =>
      (settled_entries held all d).mp (List.mem_filter.mp ind).1
    have also : ∀ f ∈ pre, f ∈ final := fun f inf => (List.mem_filter.mp (whole ▸ List.mem_append_left _ inf)).1
    refine List.forall₂_eq_eq_eq ▸ (List.forall₂_iff_get.mpr ⟨placed.length_eq,fun i h h' => ?_⟩)
    exact places_unique ordered (inside _ (List.get_mem ..)) (also _ (List.get_mem ..)) (.inl rfl) (placed.get h h')
  have long := ((settled_perm settled held all).filter (cls · = k)).length_eq
  rw [whole,List.length_append,same] at long
  have : rest = [] := List.eq_nil_of_length_eq_zero (by omega)
  rw [whole,this,same,List.append_nil]

theorem settled_seqs (ordered : Ordered final) (settled : Settled locale final) (held : Partial final entries)
    (all : ∀ f ∈ final, f ∈ entries) (arranged : Arranged locale entries) :
    entries.filter (·.seq.isSome) = final.filter (·.seq.isSome) := by
  have grouped : (final.filter (·.seq.isSome)).Pairwise seqThenOrigin := by
    have both := ordered.seqs.and (settled.grouped.filter (·.seq.isSome))
    refine both.imp_of_mem fun {f g} inf ing ⟨seqs,sides⟩ => ?_
    have left := (List.mem_filter.mp inf).2
    have right := (List.mem_filter.mp ing).2
    rcases seqs.lt_or_eq with less | same
    · exact .inl less
    · refine .inr ⟨same,sides left ?_⟩
      obtain ⟨p,eqp⟩ := Option.isSome_iff_exists.mp left
      obtain ⟨q,eqq⟩ := Option.isSome_iff_exists.mp right
      rw [eqp,eqq] at same ⊢
      exact congrArg some same
  refine Merge.sorted_classes seqThenOrigin cls _ _ (arranged_seqs arranged) grouped ?_ ?_ ?_
  · intro a
    cases side : a.origin with
    | dsh => exact .inr ⟨rfl,.inl side⟩
    | sidecar => exact .inr ⟨rfl,.inr side⟩
  · intro a b ina inb ab ba
    have left : a.seq.isSome = true := ina.elim (fun h => (List.mem_filter.mp h).2) fun h => (List.mem_filter.mp h).2
    have right : b.seq.isSome = true := inb.elim (fun h => (List.mem_filter.mp h).2) fun h => (List.mem_filter.mp h).2
    obtain ⟨p,eqp⟩ := Option.isSome_iff_exists.mp left
    obtain ⟨q,eqq⟩ := Option.isSome_iff_exists.mp right
    simp only [seqThenOrigin,eqp,eqq,Option.getD_some] at ab ba
    have seqs : p = q := by omega
    have sides : a.origin = b.origin := by
      cases sidea : a.origin <;> cases sideb : b.origin <;> simp_all
    simp [cls,eqp,eqq,seqs,sides]
  · intro k
    cases some : k.1.isSome with
    | true => rw [filter_class _ k some,filter_class _ k some,settled_class ordered settled held all k some]
    | false =>
      have empty : ∀ l : List (TimelineEntryVM ρ), (l.filter (·.seq.isSome)).filter (cls · = k) = [] := by
        intro l
        refine List.filter_eq_nil_iff.mpr fun d ind same => ?_
        have seq := (List.mem_filter.mp ind).2
        have : cls d = k := by simpa using same
        rw [← this] at some
        rw [show (cls d).1 = d.seq from rfl,seq] at some
        cases some
      rw [empty,empty]

theorem either {α : Type} {r : α → α → Prop} {l : List α} {a b : α} (pairs : l.Pairwise r) (ina : a ∈ l) (inb : b ∈ l)
    (apart : a ≠ b) : r a b ∨ r b a := by
  have symm : Std.Symm fun a b => r a b ∨ r b a := ⟨fun _ _ => Or.symm⟩
  exact List.Pairwise.forall (pairs.imp fun {a b} h => (.inl h : r a b ∨ r b a)) ina inb apart

theorem settled_unseqed (ordered : Ordered final) (settled : Settled locale final) (held : Partial final entries)
    (all : ∀ f ∈ final, f ∈ entries) (arranged : Arranged locale entries) :
    entries.filter (·.seq.isNone) = final.filter (·.seq.isNone) := by
  have none' : ∀ {d : TimelineEntryVM ρ}, d ∈ final.filter (·.seq.isNone) → d.seq = none := fun ind => by
    simpa using (List.mem_filter.mp ind).2
  have collated := settled.collated.filter (·.seq.isNone)
  have perm := (settled_perm settled held all).filter (·.seq.isNone)
  refine List.Perm.eq_of_pairwise ?_ (arranged_unseqed arranged) ?_ perm
  · intro a b ina inb ab ba
    by_contra apart
    have ina := perm.subset ina
    have ts : a.ts = b.ts := by
      rcases ab with less | ⟨same,_⟩
      · rcases ba with less' | ⟨same,_⟩ <;> omega
      · exact same
    have left : locale.le a.key b.key = true := (ab.resolve_left (by omega)).2
    have right : locale.le b.key a.key = true := (ba.resolve_left (by omega)).2
    rcases either collated ina inb apart with strict | strict
    · have := strict (none' ina) (none' inb) ts
      simp [right] at this
    · have := strict (none' inb) (none' ina) ts.symm
      simp [left] at this
  · refine (ordered.times.and collated).imp_of_mem fun {f g} inf ing ⟨times,strict⟩ => ?_
    rcases times.lt_or_eq with less | same
    · exact .inl less
    · refine .inr ⟨same,(locale.total f.key g.key).resolve_right fun le => ?_⟩
      rw [strict (none' inf) (none' ing) same] at le
      cases le

theorem settled_equal (ordered : Ordered final) (settled : Settled locale final) (held : Partial final entries)
    (all : ∀ f ∈ final, f ∈ entries) (arranged : Arranged locale entries) : entries = final := by
  rw [arranged_merge arranged,settled_seqs ordered settled held all arranged,
    settled_unseqed ordered settled held all arranged]
  exact ordered.merged.symm

theorem fold_text (dateParse : DateParse) (twins : Dict Int (List (SidecarEvent ε))) (dshSeqs : List Int)
    (events : List (DshSessionEvent δ)) (e : TimelineEntry δ ε) (inside : e ∈ foldDsh dateParse twins dshSeqs events)
    (dsh : e.origin = .dsh) (full : e.text ≠ "") : ∃ q, e.seq = some q ∧ q ∉ dshSeqs := by
  induction events generalizing dshSeqs with
  | nil => simp [foldDsh] at inside
  | cons ev rest ih =>
    rcases List.mem_append.mp inside with first | later
    · rcases List.mem_cons.mp first with rfl | twin
      · refine ⟨ev.seq,rfl,fun old => full ?_⟩
        simp [dshEntry,old]
      · obtain ⟨_,_,rfl⟩ := List.mem_map.mp twin
        cases dsh
    · obtain ⟨q,seq,new⟩ := ih (ev.seq :: dshSeqs) later
      exact ⟨q,seq,fun old => new (List.mem_cons_of_mem _ old)⟩

theorem fold_single (dateParse : DateParse) (twins : Dict Int (List (SidecarEvent ε))) (dshSeqs : List Int)
    (events : List (DshSessionEvent δ)) (a b : TimelineEntry δ ε) (ina : a ∈ foldDsh dateParse twins dshSeqs events)
    (inb : b ∈ foldDsh dateParse twins dshSeqs events) (dsh : a.origin = .dsh) (dsh' : b.origin = .dsh)
    (seqs : a.seq = b.seq) (full : a.text ≠ "") (full' : b.text ≠ "") : a = b := by
  induction events generalizing dshSeqs with
  | nil => simp [foldDsh] at ina
  | cons ev rest ih =>
    have heads : ∀ e, e ∈ foldDsh dateParse twins dshSeqs (ev :: rest) → e.origin = .dsh →
        e = dshEntry ev (if ev.seq ∈ dshSeqs then [] else (twins.get ev.seq).getD []).head? ∨
          e ∈ foldDsh dateParse twins (ev.seq :: dshSeqs) rest := by
      intro e ine origin
      rcases List.mem_append.mp ine with first | later
      · rcases List.mem_cons.mp first with rfl | twin
        · exact .inl rfl
        · obtain ⟨_,_,rfl⟩ := List.mem_map.mp twin
          cases origin
      · exact .inr later
    have clash : ∀ e e' : TimelineEntry δ ε, e.seq = some ev.seq → e' ∈ foldDsh dateParse twins (ev.seq :: dshSeqs) rest →
        e'.origin = .dsh → e'.text ≠ "" → e.seq ≠ e'.seq := by
      intro e e' seq later origin text same
      obtain ⟨q,seq',new⟩ := fold_text dateParse twins _ rest e' later origin text
      rw [seq,seq'] at same
      exact new (Option.some.inj same ▸ List.mem_cons_self)
    rcases heads a ina dsh with ha | ha <;> rcases heads b inb dsh' with hb | hb
    · exact ha.trans hb.symm
    · exact absurd seqs (clash a b (by rw [ha]; rfl) hb dsh' full')
    · exact absurd seqs.symm (clash b a (by rw [hb]; rfl) ha dsh full)
    · exact ih _ ha hb

theorem fold_seq (dateParse : DateParse) (twins : Dict Int (List (SidecarEvent ε))) (dshSeqs : List Int)
    (events : List (DshSessionEvent δ)) (e : TimelineEntry δ ε) (inside : e ∈ foldDsh dateParse twins dshSeqs events) :
    e.seq.isSome = true := by
  induction events generalizing dshSeqs with
  | nil => simp [foldDsh] at inside
  | cons ev rest ih =>
    rcases List.mem_append.mp inside with first | later
    · rcases List.mem_cons.mp first with rfl | twin
      · rfl
      · obtain ⟨_,_,rfl⟩ := List.mem_map.mp twin
        rfl
    · exact ih _ later

theorem orphan_sides (dateParse : DateParse) (twins : Dict Int (List (SidecarEvent ε)))
    (events : List (DshSessionEvent δ)) (e : TimelineEntry δ ε) (inside : e ∈ orphans dateParse twins events) :
    e.seq.isSome = true ∧ e.origin = .sidecar := by
  obtain ⟨group,_,within⟩ := List.mem_flatMap.mp inside
  obtain ⟨_,_,rfl⟩ := List.mem_map.mp within
  exact ⟨rfl,rfl⟩

theorem seqDomain_seq (dateParse : DateParse) (dshEvents : List (DshSessionEvent δ))
    (sidecarEvents : List (SidecarEvent ε)) : ∀ e ∈ seqDomain dateParse dshEvents sidecarEvents, e.seq.isSome = true := by
  intro e inside
  rcases List.mem_append.mp ((List.mem_insertionSort _).mp inside) with folded | orphan
  · exact fold_seq _ _ _ _ e folded
  · exact (orphan_sides _ _ _ e orphan).1

theorem unseqed_sides (dateParse : DateParse) (sidecarEvents : List (SidecarEvent ε)) :
    ∀ e ∈ (unseqed dateParse sidecarEvents : List (TimelineEntry δ ε)), e.seq = none ∧ e.origin = .sidecar := by
  intro e inside
  obtain ⟨ev,_,rfl⟩ := List.mem_map.mp ((List.mem_insertionSort _).mp inside)
  exact ⟨rfl,rfl⟩

theorem seqDomain_single (dateParse : DateParse) (dshEvents : List (DshSessionEvent δ))
    (sidecarEvents : List (SidecarEvent ε)) (a b : TimelineEntry δ ε)
    (ina : a ∈ mergeTimeline dateParse dshEvents sidecarEvents) (inb : b ∈ mergeTimeline dateParse dshEvents sidecarEvents)
    (dsh : a.origin = .dsh) (dsh' : b.origin = .dsh) (seqs : a.seq = b.seq) (full : a.text ≠ "") (full' : b.text ≠ "") :
    a = b := by
  have folded : ∀ e : TimelineEntry δ ε, e ∈ mergeTimeline dateParse dshEvents sidecarEvents → e.origin = .dsh →
      e ∈ foldDsh dateParse (twinsBySeq sidecarEvents) [] dshEvents := by
    intro e inside origin
    rw [mergeTimeline,Merge.interleave_exact,List.mem_merge] at inside
    rcases inside with seqed | bare
    · refine (List.mem_append.mp ((List.mem_insertionSort _).mp seqed)).resolve_right fun orphan => ?_
      have := (orphan_sides _ _ _ e orphan).2
      rw [origin] at this; cases this
    · have := (unseqed_sides _ _ e bare).2
      rw [origin] at this; cases this
  exact fold_single _ _ _ _ a b (folded a ina dsh) (folded b inb dsh') dsh dsh' seqs full full'

def shown (c : Client δ ε ρ) (i : TimelineInputs δ ε) : List (TimelineEntryVM ρ) :=
  (timeline c.dateParse i).map (normalizeTimelineEntry c.render)

instance : Std.Total (@seqOrder δ ε) where total a b := le_total (a.seq.getD 0) (b.seq.getD 0)
instance : IsTrans (TimelineEntry δ ε) seqOrder where trans _ _ _ ab bc := le_trans (α := Int) ab bc
instance : Std.Total (@tsOrder δ ε) where total a b := le_total a.ts b.ts
instance : IsTrans (TimelineEntry δ ε) tsOrder where trans _ _ _ ab bc := le_trans (α := Int) ab bc

theorem shown_ordered (c : Client δ ε ρ) (i : TimelineInputs δ ε) : Ordered (shown c i) := by
  have merged : shown c i =
      ((seqDomain c.dateParse (dshEventsOf i) (sidecarEventsOf i)).map (normalizeTimelineEntry c.render)).merge
        ((unseqed c.dateParse (sidecarEventsOf i)).map (normalizeTimelineEntry c.render))
        fun f g => decide (f.ts ≤ g.ts) := by
    rw [shown,timeline,mergeTimeline,Merge.interleave_exact]
    exact List.map_merge fun a _ b _ => rfl
  have left : ∀ f ∈ (seqDomain c.dateParse (dshEventsOf i) (sidecarEventsOf i)).map (normalizeTimelineEntry c.render),
      f.seq.isSome = true := by
    intro f inf
    obtain ⟨e,ine,rfl⟩ := List.mem_map.mp inf
    exact seqDomain_seq _ _ _ e ine
  have right : ∀ f ∈ (unseqed c.dateParse (sidecarEventsOf i) : List (TimelineEntry δ ε)).map
      (normalizeTimelineEntry c.render), f.seq = none := by
    intro f inf
    obtain ⟨e,ine,rfl⟩ := List.mem_map.mp inf
    exact (unseqed_sides _ _ e ine).1
  have seqs := congrArg (List.filter (·.seq.isSome)) merged
  rw [Merge.merge_filter _ _ _ _ left fun f inf => by simp [right f inf]] at seqs
  have times := congrArg (List.filter (·.seq.isNone)) merged
  rw [Merge.merge_filter_not _ _ _ _ (fun f inf => by simpa using left f inf) fun f inf => by simp [right f inf]] at times
  refine ⟨?_,?_,?_,?_⟩
  · intro f inf g ing dsh dsh' some same full full'
    obtain ⟨a,ina,rfl⟩ := List.mem_map.mp inf
    obtain ⟨b,inb,rfl⟩ := List.mem_map.mp ing
    have text := (not_congr (bare_text c.render a some)).mp full
    have text' := (not_congr (bare_text c.render b ((congrArg Option.isSome same).symm.trans some))).mp full'
    rw [seqDomain_single _ _ _ a b ina inb dsh dsh' same text text']
  · rw [seqs,List.pairwise_map]
    exact List.pairwise_insertionSort seqOrder _
  · rw [times,List.pairwise_map]
    exact List.pairwise_insertionSort tsOrder _
  · rw [seqs,times]; exact merged

-- Once every final entry has arrived, the client shows the host's final timeline.
theorem orderly_pages_converge (c : Client δ ε ρ) (i : TimelineInputs δ ε) (events : List (Receive δ ε))
    (vm : TimelineVM ρ) (settled : Settled c.locale (shown c i)) (path : Run (advance c) Any {} events vm)
    (orderly : InOrder (shown c i) [] (arrivals c events)) (covered : ∀ f ∈ shown c i, f ∈ arrivals c events) :
    vm.entries = shown c i := by
  have ordered := shown_ordered c i
  obtain ⟨heard,arranged⟩ := run_heard c ordered settled (heard_nil _) (.inl rfl) orderly path
  exact settled_equal ordered settled heard.held (fun f inf => heard.gained f inf (covered f inf)) arranged

def codeUnits : Collation where
  le a b := decide (a ≤ b)
  total a b := by simpa using String.le_total a b
  trans a b c left right := by
    simp only [decide_eq_true_eq] at *
    exact String.le_trans left right

def viewer : Client Unit Unit Unit := ⟨digits,fun _ => (),codeUnits⟩
def live (events : List (SidecarEvent Unit)) : TimelineInputs Unit Unit :=
  ⟨.answered [⟨"message",1,5,()⟩],.unwired,.answered events,[]⟩
def newest (i : TimelineInputs Unit Unit) : Served Unit Unit := ⟨i,100,none⟩

def bareEntry : TimelineEntryVM Unit := ⟨emptyTextKey 1 "message",.dsh,some 1,5,"message",()⟩
def fullEntry : TimelineEntryVM Unit := ⟨emptyTextKey 1 "message" ++ "hi",.dsh,some 1,5,"message",()⟩
def folded : List (Receive Unit Unit) :=
  [.timeline (newest (live [])),.listen (newest (live [message "5" "hi" (some 1)])),
    .timeline (newest (live [message "5" "hi" (some 1)]))]

theorem folded_shown : shown viewer (live [message "5" "hi" (some 1)]) = [fullEntry] := by decide +kernel
theorem folded_arrivals : arrivals viewer folded = [bareEntry,fullEntry,fullEntry] := by decide +kernel
theorem bareEntry_bare : bare bareEntry := ⟨1,rfl,rfl⟩
theorem fullEntry_full : ¬ bare fullEntry := by
  rintro ⟨seq,some,key⟩
  cases some
  revert key
  decide +kernel

theorem folded_settled : Settled codeUnits [fullEntry] := by
  refine ⟨by simp,?_,by simp,by simp⟩
  intro f inf g ing _ thin
  rw [List.mem_singleton.mp inf] at thin
  exact absurd thin fullEntry_full

theorem folded_arrives (past : List (TimelineEntryVM Unit)) (y : TimelineEntryVM Unit) (known : ∀ d ∈ past, d.origin = .dsh)
    (either : y = bareEntry ∨ y = fullEntry) : Arrives [fullEntry] past y := by
  have settles : Settles fullEntry bareEntry := ⟨rfl,rfl,rfl,bareEntry_bare,fullEntry_full⟩
  have places : Places [fullEntry] y fullEntry := by
    rcases either with rfl | rfl
    · exact .inr ⟨settles,by decide +kernel⟩
    · exact .inl rfl
  have dsh : y.origin = .dsh := by rcases either with rfl | rfl <;> rfl
  refine ⟨⟨fullEntry,List.mem_singleton_self _,places,?_⟩,?_⟩
  · intro _ earlier later split x inx
    cases earlier with
    | nil => cases inx
    | cons z earlier =>
      have := congrArg List.length split
      simp at this
  · rintro f _ _ _ _ d ind _ (⟨_,side,_⟩ | ⟨_,_,side⟩)
    · rw [dsh] at side; cases side
    · rw [known d ind] at side; cases side

-- The text of a dsh entry arrives after the entry, and then once more.
theorem folded_pages_converge : ∃ vm, Run (advance viewer) Any {} folded vm ∧
    vm.entries = shown viewer (live [message "5" "hi" (some 1)]) := by
  obtain ⟨vm,path⟩ : ∃ vm, Run (advance viewer) Any {} folded vm := ⟨_,.cons ⟨⟩ rfl (.cons ⟨⟩ rfl (.cons ⟨⟩ rfl .nil))⟩
  refine ⟨vm,path,orderly_pages_converge viewer (live [message "5" "hi" (some 1)]) folded vm ?_ path ?_ ?_⟩
  · rw [folded_shown]; exact folded_settled
  · rw [folded_shown,folded_arrivals]
    refine ⟨folded_arrives [] _ (by simp) (.inl rfl),folded_arrives [bareEntry] _ ?_ (.inr rfl),
      folded_arrives [bareEntry,fullEntry] _ ?_ (.inr rfl),⟨⟩⟩ <;> simp [bareEntry,fullEntry]
  · rw [folded_shown,folded_arrivals]; simp

-- Two events of one millisecond stand in the order the host got them, but in the
-- client in the order of their keys. And when an older first twin turns up, the dsh
-- entry that took the text of the second stays beside the one the host shows.
theorem tied_page_reorders :
    (shown viewer (replayed [message "5" "b" none,message "5" "a" none])).map (·.key) =
      ["t:5" ++ keySep ++ "message" ++ keySep ++ "b","t:5" ++ keySep ++ "message" ++ keySep ++ "a"] ∧
    ((advance viewer {} (.timeline (newest (replayed [message "5" "b" none,message "5" "a" none])))).map
      (·.entries.map (·.key))) =
      some ["t:5" ++ keySep ++ "message" ++ keySep ++ "a","t:5" ++ keySep ++ "message" ++ keySep ++ "b"] ∧
    (shown viewer (live [message "5" "u" (some 1),message "5" "v" (some 1)])).map (·.origin) = [.dsh,.sidecar] ∧
    (((advance viewer {} (.timeline (newest (live [message "5" "v" (some 1)])))).bind
      (advance viewer · (.listen (newest (live [message "5" "u" (some 1),message "5" "v" (some 1)]))))).map
      (·.entries.map (·.origin))) = some [.dsh,.dsh] := by
  refine ⟨?_,?_,?_,?_⟩
  · decide +kernel
  · decide +kernel
  · decide +kernel
  · decide +kernel

end AgentSideCar.Timeline
