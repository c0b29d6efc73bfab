import Mathlib.Data.List.Induction
import AgentSideCar.Timeline.Convergence

namespace AgentSideCar.Timeline
variable {δ ε ρ : Type} {past entries : List (TimelineEntryVM ρ)} {d e y z : TimelineEntryVM ρ}

-- Entries that share a key are of one seq and kind.
def Told (past : List (TimelineEntryVM ρ)) : Prop :=
  ∀ y ∈ past, ∀ z ∈ past, y.key = z.key → slotOf y = slotOf z

-- What an arrival has to show for itself: it has text, or no entry with text has
-- its seq and kind.
def Stands (past : List (TimelineEntryVM ρ)) (y : TimelineEntryVM ρ) : Prop :=
  bare y → ∀ z ∈ past, slotOf z = slotOf y → bare z

-- The accumulated entries are arrivals, one for each key that stands.
structure Keeps (past entries : List (TimelineEntryVM ρ)) : Prop where
  known : ∀ d ∈ entries, d ∈ past
  keys : (entries.map (·.key)).Nodup
  kept : ∀ y ∈ past, Stands past y → y.key ∈ entries.map (·.key)
  stands : ∀ d ∈ entries, Stands past d

-- A key is known as an entry's, or as one that has been answered.
def Heeds (past : List (TimelineEntryVM ρ)) (m : Merging ρ) : Prop :=
  ∀ k ∈ m.seen, k ∈ m.entries.map (·.key) ∨ ∃ y ∈ past, y.key = k ∧ ¬ Stands past y

theorem keeps_nil : Keeps ([] : List (TimelineEntryVM ρ)) [] := ⟨by simp,by simp,by simp,by simp⟩

theorem bare_congr (slot : slotOf d = slotOf e) (key : d.key = e.key) (thin : bare d) : bare e := by
  have kind := slot_kind slot (bare_some thin)
  obtain ⟨seq,some,own⟩ := thin
  exact ⟨seq,(slot_seq slot).symm.trans some,by rw [← key,own,kind]⟩

theorem told_stands (told : Told past) (iny : y ∈ past) (inz : z ∈ past) (key : y.key = z.key) (stands : Stands past y) :
    Stands past z := by
  have slot := told y iny z inz key
  intro thin x inx same
  exact stands (bare_congr slot.symm key.symm thin) x inx (same.trans slot.symm)

theorem stands_mono (more : ∀ x ∈ past, x ∈ later) (stands : Stands later y) : Stands past y :=
  fun thin z inz slot => stands thin z (more z inz) slot

theorem keeps_skip (keeps : Keeps past entries) (answered : Stands (past ++ [y]) y → y.key ∈ entries.map (·.key))
    (quiet : ∀ d ∈ entries, bare d → slotOf y = slotOf d → bare y) : Keeps (past ++ [y]) entries := by
  refine ⟨fun d ind => List.mem_append_left _ (keeps.known d ind),keeps.keys,?_,?_⟩
  · intro z inz stands
    rcases List.mem_append.mp inz with old | new
    · exact keeps.kept z old (stands_mono (fun _ => List.mem_append_left _) stands)
    · cases List.mem_singleton.mp new
      exact answered stands
  · intro d ind thin z inz slot
    rcases List.mem_append.mp inz with old | new
    · exact keeps.stands d ind thin z old slot
    · cases List.mem_singleton.mp new
      exact quiet d ind thin slot

theorem keeps_append (keeps : Keeps past entries) (new : y.key ∉ entries.map (·.key)) (stands : Stands past y)
    (quiet : ∀ d ∈ entries, bare d → slotOf y = slotOf d → bare y) : Keeps (past ++ [y]) (entries ++ [y]) := by
  refine ⟨?_,?_,?_,?_⟩
  · intro d ind
    exact List.mem_append.mpr ((List.mem_append.mp ind).imp_left (keeps.known d))
  · rw [List.map_append]
    refine List.nodup_append.mpr ⟨keeps.keys,by simp,?_⟩
    rintro a old b fresh rfl
    cases List.mem_singleton.mp fresh
    exact new old
  · intro z inz still
    rw [List.map_append,List.mem_append]
    rcases List.mem_append.mp inz with old | fresh
    · exact .inl (keeps.kept z old (stands_mono (fun _ => List.mem_append_left _) still))
    · cases List.mem_singleton.mp fresh
      exact .inr (List.mem_singleton_self _)
  · intro d ind thin z inz slot
    rcases List.mem_append.mp ind with old | fresh <;> rcases List.mem_append.mp inz with oldz | freshz
    · exact keeps.stands d old thin z oldz slot
    · cases List.mem_singleton.mp freshz
      exact quiet d old thin slot
    · cases List.mem_singleton.mp fresh
      exact stands thin z oldz slot
    · cases List.mem_singleton.mp fresh
      cases List.mem_singleton.mp freshz
      exact thin

theorem keeps_upgrade (told : Told (past ++ [y])) (keeps : Keeps past entries) (new : y.key ∉ entries.map (·.key))
    (full : ¬ bare y) (at' : entries[i]? = some d) (thin : bare d) (slot : slotOf d = slotOf y) :
    Keeps (past ++ [y]) (entries.set i y) := by
  have mem := fun e => set_mem (y := y) keeps.keys at' e
  have ind := List.mem_of_getElem? at'
  refine ⟨?_,?_,?_,?_⟩
  · intro e ine
    rcases (mem e).mp ine with rfl | ⟨old,_⟩
    · exact List.mem_append_right _ (List.mem_singleton_self _)
    · exact List.mem_append_left _ (keeps.known e old)
  · rw [set_swap keeps.keys at']
    exact swap_keys keeps.keys new d
  · intro z inz stands
    rcases List.mem_append.mp inz with old | fresh
    · obtain ⟨e,ine,key⟩ := List.mem_map.mp (keeps.kept z old (stands_mono (fun _ => List.mem_append_left _) stands))
      refine List.mem_map.mpr ⟨e,(mem e).mpr (.inr ⟨ine,fun same => full ?_⟩),key⟩
      -- The entry without text is gone, and with it only its own key.
      have theirs := told z inz d (List.mem_append_left _ (keeps.known d ind)) (key.symm.trans same)
      exact stands (bare_congr theirs.symm (same.symm.trans key) thin) y
        (List.mem_append_right _ (List.mem_singleton_self _)) (slot.symm.trans theirs.symm)
    · cases List.mem_singleton.mp fresh
      exact List.mem_map.mpr ⟨y,(mem y).mpr (.inl rfl),rfl⟩
  · intro e ine ethin z inz same
    rcases (mem e).mp ine with rfl | ⟨old,apart⟩
    · exact absurd ethin full
    · rcases List.mem_append.mp inz with oldz | freshz
      · exact keeps.stands e old ethin z oldz same
      · cases List.mem_singleton.mp freshz
        exact absurd (bare_key ethin thin (same.symm.trans slot.symm)) apart

theorem heeds_more (heeds : Heeds past m) : Heeds (past ++ [y]) m := fun k ink =>
  (heeds k ink).imp id fun ⟨z,inz,key,gone⟩ =>
    ⟨z,List.mem_append_left _ inz,key,fun still => gone (stands_mono (fun _ => List.mem_append_left _) still)⟩

theorem heeds_gain (keeps : Keeps past m.entries) (heeds : Heeds past m) (seen : after.seen = y.key :: m.seen)
    (mine : y.key ∈ after.entries.map (·.key))
    (kept : ∀ d ∈ m.entries, d.key ∈ after.entries.map (·.key) ∨ ¬ Stands (past ++ [y]) d) :
    Heeds (past ++ [y]) after := by
  intro k ink
  rw [seen] at ink
  rcases List.mem_cons.mp ink with rfl | old
  · exact .inl mine
  · rcases heeds_more (y := y) heeds k old with present | gone
    · obtain ⟨d,ind,rfl⟩ := List.mem_map.mp present
      exact (kept d ind).imp id fun fallen => ⟨d,List.mem_append_left _ (keeps.known d ind),rfl,fallen⟩
    · exact .inr gone

theorem heeds_append (keeps : Keeps past m.entries) (heeds : Heeds past m) {slot : Dict String Nat} {filled : List String} :
    Heeds (past ++ [y]) (appendEntry y {m with emptySlot := slot,filled := filled}) := by
  refine heeds_gain keeps heeds rfl (by simp [appendEntry]) fun d ind => .inl ?_
  simp only [appendEntry,List.map_append]
  exact List.mem_append_left _ (List.mem_map.mpr ⟨d,ind,rfl⟩)

theorem full_filled (told : Told past) (keeps : Keeps past m.entries) (filed : Filed m) (inz : z ∈ past) (full : ¬ bare z)
    (slot : slotKey z = some sk) : sk ∈ m.filled := by
  obtain ⟨e,ine,key⟩ := List.mem_map.mp (keeps.kept z inz fun thin => absurd thin full)
  have same := told e (keeps.known e ine) z inz key
  exact (filed.filled sk).mpr ⟨e,ine,(slotKey_slot.mpr same).trans slot,fun thin => full (bare_congr same key thin)⟩

-- One arrival, by what it can do.
theorem wire_keeps (told : Told (past ++ [y])) (keeps : Keeps past m.entries) (filed : Filed m) (heeds : Heeds past m)
    (wired : Wired y m after) : Keeps (past ++ [y]) after.entries ∧ Filed after ∧ Heeds (past ++ [y]) after := by
  have older : Told past := fun a ina b inb =>
    told a (List.mem_append_left _ ina) b (List.mem_append_left _ inb)
  have own : y ∈ past ++ [y] := List.mem_append_right _ (List.mem_singleton_self _)
  have unseen : y.key ∉ m.seen → y.key ∉ m.entries.map (·.key) := fun new inside => by
    obtain ⟨e,ine,same⟩ := List.mem_map.mp inside
    exact new (same ▸ filed.seen e ine)
  cases wired with
  | known seen =>
    refine ⟨?_,filed,heeds_more heeds⟩
    rcases heeds y.key seen with present | ⟨z,inz,key,fallen⟩
    · refine keeps_skip keeps (fun _ => present) fun d ind thin slot => ?_
      obtain ⟨e,ine,key⟩ := List.mem_map.mp present
      have same := told e (List.mem_append_left _ (keeps.known e ine)) y own key
      exact bare_congr same key (keeps.stands d ind thin e (keeps.known e ine) (same.trans slot))
    · have same := told z (List.mem_append_left _ inz) y own key
      have thin : bare z := by
        by_contra full
        exact fallen fun thin => absurd thin full
      refine keeps_skip keeps (fun still => absurd ?_ fallen) fun _ _ _ _ => bare_congr same key thin
      exact stands_mono (fun _ => List.mem_append_left _)
        (told_stands told own (List.mem_append_left _ inz) key.symm still)
  | seqless new seq =>
    have unslotted : slotKey y = none := by simp [slotKey,seq]
    have full : ¬ bare y := fun thin => by simpa [seq] using bare_some thin
    refine ⟨keeps_append keeps (unseen new) (fun thin => absurd thin full) fun d _ thin slot => ?_,?_,?_⟩
    · have := bare_some thin
      rw [← slot_seq slot,seq] at this
      cases this
    · exact append_filed filed (fun sk i found => .inl found) (fun sk some => by simpa [unslotted] using some)
        (fun sk => by simp [unslotted])
    · exact heeds_append keeps heeds
  | @stale sk _ slot thin filled =>
    obtain ⟨d,ind,dslot,full⟩ := (filed.filled sk).mp filled
    refine ⟨keeps_skip keeps (fun still => absurd ?_ full) fun _ _ _ _ => thin,filed,heeds_more heeds⟩
    exact still thin d (List.mem_append_left _ (keeps.known d ind)) (slotKey_slot.mp (dslot.trans slot.symm))
  | @waiting sk new slot thin unfilled =>
    refine ⟨keeps_append keeps (unseen new) (fun _ z inz same => ?_) fun _ _ _ _ => thin,?_,heeds_append keeps heeds⟩
    · by_contra full
      exact unfilled (full_filled older keeps filed inz full ((slotKey_slot.mpr same).trans slot))
    · exact append_filed filed (waiting_slots slot thin) (waiting_kept slot) fun sk' => by simp [thin]
  | @upgrade sk i new slot full found =>
    obtain ⟨d,at',dslot,thin⟩ := filed.slotted sk i found
    have same := slotKey_slot.mp (dslot.trans slot.symm)
    refine ⟨keeps_upgrade told keeps (unseen new) full at' thin same,
      upgrade_filed filed keeps.keys at' thin dslot slot full,?_⟩
    have mem := fun e => set_mem (y := y) keeps.keys at' e
    refine heeds_gain keeps heeds rfl (List.mem_map.mpr ⟨y,(mem y).mpr (.inl rfl),rfl⟩) fun e ine => ?_
    by_cases key : e.key = d.key
    · have eqd := key_same keeps.keys ine (List.mem_of_getElem? at') key
      exact .inr fun still => full (still (eqd ▸ thin) y own (eqd ▸ same.symm))
    · exact .inl (List.mem_map.mpr ⟨e,(mem e).mpr (.inr ⟨ine,key⟩),rfl⟩)
  | @fresh sk new slot full unslotted =>
    refine ⟨keeps_append keeps (unseen new) (fun thin => absurd thin full) fun d ind thin same => ?_,?_,
      heeds_append keeps heeds⟩
    · obtain ⟨i,found⟩ := filed.slots d ind sk ((slotKey_slot.mpr same.symm).trans slot) thin
      rw [unslotted] at found
      cases found
    · refine append_filed filed (fun sk' i found => .inl found) ?_ (fresh_filled slot full)
      exact fun sk' some => some.resolve_right fun mine => full mine.2

theorem told_mono (told : Told later) (more : ∀ x ∈ past, x ∈ later) : Told past :=
  fun y iny z inz => told y (more y iny) z (more z inz)

theorem wires_keep (render : TimelineEntry δ ε → ρ) (wires : List (TimelineEntry δ ε))
    (told : Told (past ++ wires.map (normalizeTimelineEntry render))) (keeps : Keeps past m.entries) (filed : Filed m)
    (heeds : Heeds past m) :
    Keeps (past ++ wires.map (normalizeTimelineEntry render)) (wires.foldl (mergeWire render) m).entries := by
  induction wires generalizing past m with
  | nil => simpa using keeps
  | cons w rest ih =>
    rw [List.map_cons,List.append_cons] at told ⊢
    obtain ⟨kept,filed,heeds⟩ := wire_keeps (told_mono told fun _ => List.mem_append_left _) keeps filed heeds
      (wire_cases render m w)
    exact ih told kept filed heeds

theorem keeps_perm (perm : entries.Perm others) (keeps : Keeps past others) : Keeps past entries := by
  refine ⟨fun d ind => keeps.known d (perm.subset ind),(perm.map _).nodup_iff.mpr keeps.keys,?_,?_⟩
  · exact fun y iny stands => (perm.map _).symm.subset (keeps.kept y iny stands)
  · exact fun d ind => keeps.stands d (perm.subset ind)

theorem begin_heeds (past entries : List (TimelineEntryVM ρ)) : Heeds past (beginMerge entries) := by
  obtain ⟨same,seen,_,_⟩ := begin_filed entries
  intro k ink
  rw [same,← seen]
  exact .inl ink

theorem merge_keeps (render : TimelineEntry δ ε → ρ) (locale : Collation) (page : List (TimelineEntry δ ε))
    (told : Told (past ++ page.map (normalizeTimelineEntry render))) (keeps : Keeps past entries) :
    Keeps (past ++ page.map (normalizeTimelineEntry render)) (mergeEntries render locale entries page).1 := by
  obtain ⟨same,_,_,filed⟩ := begin_filed entries
  have merged := wires_keep render page told (same.symm ▸ keeps) filed (begin_heeds past entries)
  unfold mergeEntries
  simp only
  split
  · exact merged
  · exact keeps_perm (sort_perm locale _) merged

-- The entries a client has after some pages.
def accumulated (render : TimelineEntry δ ε → ρ) (locale : Collation) (pages : List (List (TimelineEntry δ ε))) :
    List (TimelineEntryVM ρ) :=
  pages.foldl (fun entries page => (mergeEntries render locale entries page).1) []

theorem pages_keep (render : TimelineEntry δ ε → ρ) (locale : Collation) (pages : List (List (TimelineEntry δ ε)))
    (told : Told (pages.flatten.map (normalizeTimelineEntry render))) :
    Keeps (pages.flatten.map (normalizeTimelineEntry render)) (accumulated render locale pages) := by
  induction pages using List.reverseRecOn with
  | nil => exact keeps_nil
  | append_singleton pages page ih =>
    rw [accumulated,List.foldl_append,List.foldl_cons,List.foldl_nil,← accumulated]
    rw [List.flatten_append,List.map_append] at told ⊢
    simp only [List.flatten_cons,List.flatten_nil,List.append_nil] at told ⊢
    exact merge_keeps render locale page told (ih (told_mono told fun _ => List.mem_append_left _))

theorem wire_again (render : TimelineEntry δ ε → ρ) (w : TimelineEntry δ ε) (told : Told past)
    (keeps : Keeps past m.entries) (filed : Filed m) (again : normalizeTimelineEntry render w ∈ past) :
    mergeWire render m w = m := by
  have wired := wire_cases render m w
  generalize normalizeTimelineEntry render w = y at again wired
  generalize mergeWire render m w = after at wired ⊢
  have settled : y.key ∈ m.seen ∨ bare y ∧ ∀ sk, slotKey y = some sk → sk ∈ m.filled := by
    by_cases stands : Stands past y
    · obtain ⟨d,ind,same⟩ := List.mem_map.mp (keeps.kept y again stands)
      exact .inl (same ▸ filed.seen d ind)
    · simp only [Stands,not_forall] at stands
      obtain ⟨thin,z,inz,same,full⟩ := stands
      exact .inr ⟨thin,fun sk slot => full_filled told keeps filed inz full ((slotKey_slot.mpr same).trans slot)⟩
  cases wired with
  | known => rfl
  | stale => rfl
  | seqless new seq =>
    obtain ⟨thin,_⟩ := settled.resolve_left new
    have := bare_some thin
    rw [seq] at this
    cases this
  | waiting new slot thin unfilled => exact absurd ((settled.resolve_left new).2 _ slot) unfilled
  | upgrade new slot full => exact absurd (settled.resolve_left new).1 full
  | fresh new slot full => exact absurd (settled.resolve_left new).1 full

theorem wires_again (render : TimelineEntry δ ε → ρ) (wires : List (TimelineEntry δ ε)) (told : Told past)
    (keeps : Keeps past m.entries) (filed : Filed m) (again : ∀ w ∈ wires, normalizeTimelineEntry render w ∈ past) :
    wires.foldl (mergeWire render) m = m := by
  induction wires with
  | nil => rfl
  | cons w rest ih =>
    rw [List.foldl_cons,wire_again render w told keeps filed (again w List.mem_cons_self)]
    exact ih fun x inx => again x (List.mem_cons_of_mem _ inx)

theorem merge_again (render : TimelineEntry δ ε → ρ) (locale : Collation) (page : List (TimelineEntry δ ε))
    (told : Told past) (keeps : Keeps past entries) (again : ∀ w ∈ page, normalizeTimelineEntry render w ∈ past) :
    mergeEntries render locale entries page = (entries,[]) := by
  obtain ⟨same,_,unchanged,filed⟩ := begin_filed entries
  unfold mergeEntries
  simp only
  rw [wires_again render page told (same.symm ▸ keeps) filed again,unchanged,same]
  rfl

theorem entryKey_seq (e : TimelineEntry δ ε) (some' : e.seq = some seq) : (entryKey e).toList =
    's' :: ':' :: ((toString seq).toList ++ Char.ofNat 0 :: (e.kind.toList ++ Char.ofNat 0 :: e.text.toList)) := by
  simp [entryKey,some',keySep]

theorem entryKey_seqless (e : TimelineEntry δ ε) (bound : e.seq = none) : (entryKey e).toList.head? = some 't' := by
  simp [entryKey,bound]

theorem same_seqs (e f : TimelineEntry δ ε) (same : entryKey e = entryKey f) : e.seq = f.seq := by
  have lists := congrArg String.toList same
  cases left : e.seq with
  | none =>
    cases right : f.seq with
    | none => rfl
    | some q =>
      have first := entryKey_seqless e left
      rw [lists,entryKey_seq f right] at first
      simp at first
  | some p =>
    rw [entryKey_seq e left] at lists
    cases right : f.seq with
    | none =>
      have first := entryKey_seqless f right
      rw [← lists] at first
      simp at first
    | some q =>
      rw [entryKey_seq f right] at lists
      simp only [List.cons.injEq,true_and] at lists
      rw [Digits.signed_injective (Digits.split_unique (seq_no_sep p) (seq_no_sep q) lists).1]

-- Within a seq the key tells the kinds apart, as it does where no kind holds the
-- separator.
def Apart (wires : List (TimelineEntry δ ε)) : Prop :=
  ∀ e ∈ wires, ∀ f ∈ wires, e.seq.isSome = true → e.seq = f.seq → entryKey e = entryKey f → e.kind = f.kind

theorem plain_apart (wires : List (TimelineEntry δ ε)) (plain : ∀ e ∈ wires, Char.ofNat 0 ∉ e.kind.toList) :
    Apart wires := by
  intro e ine f inf seqed same keys
  obtain ⟨q,left⟩ := Option.isSome_iff_exists.mp seqed
  have lists := congrArg String.toList keys
  rw [entryKey_seq e left,entryKey_seq f (same.symm.trans left)] at lists
  simp only [List.cons.injEq,true_and,List.append_cancel_left_eq] at lists
  exact String.toList_injective (Digits.split_unique (plain e ine) (plain f inf) lists).1

theorem apart_told (render : TimelineEntry δ ε → ρ) (wires : List (TimelineEntry δ ε)) (apart : Apart wires) :
    Told (wires.map (normalizeTimelineEntry render)) := by
  intro y iny z inz keys
  obtain ⟨e,ine,rfl⟩ := List.mem_map.mp iny
  obtain ⟨f,inf,rfl⟩ := List.mem_map.mp inz
  have seqs : e.seq = f.seq := same_seqs e f keys
  simp only [slotOf,normalizeTimelineEntry]
  cases left : e.seq with
  | none => rw [← seqs,left]; rfl
  | some q =>
    rw [← seqs,left]
    rw [apart e ine f inf (by rw [left]; rfl) seqs keys]

theorem slot_wire (render : TimelineEntry δ ε → ρ) (e f : TimelineEntry δ ε) (seqed : e.seq.isSome = true) :
    slotOf (normalizeTimelineEntry render f) = slotOf (normalizeTimelineEntry render e) ↔
      f.seq = e.seq ∧ f.kind = e.kind := by
  obtain ⟨q,left⟩ := Option.isSome_iff_exists.mp seqed
  cases right : f.seq <;> simp [slotOf,normalizeTimelineEntry,left,right]

theorem stands_wire (render : TimelineEntry δ ε → ρ) (wires : List (TimelineEntry δ ε)) (e : TimelineEntry δ ε) :
    Stands (wires.map (normalizeTimelineEntry render)) (normalizeTimelineEntry render e) ↔
      (e.text ≠ "" ∨ e.seq = none ∨ ∀ f ∈ wires, f.seq = e.seq → f.kind = e.kind → f.text = "") := by
  cases left : e.seq with
  | none =>
    have full : ¬ bare (normalizeTimelineEntry render e) := fun thin => by
      have := bare_some thin
      rw [show (normalizeTimelineEntry render e).seq = e.seq from rfl,left] at this
      cases this
    simp [Stands,full]
  | some q =>
    have seqed : e.seq.isSome = true := by rw [left]; rfl
    have text := bare_text render e seqed
    have others : (∀ z ∈ wires.map (normalizeTimelineEntry render),
        slotOf z = slotOf (normalizeTimelineEntry render e) → bare z) ↔
        ∀ f ∈ wires, f.seq = some q → f.kind = e.kind → f.text = "" := by
      rw [List.forall_mem_map]
      refine forall₂_congr fun f inf => ?_
      rw [slot_wire render e f seqed,left,and_imp]
      exact forall₂_congr fun seq _ => bare_text render f (by rw [seq]; rfl)
    simp only [Stands,text,others,reduceCtorEq,false_or]
    tauto

theorem keys_exact (render : TimelineEntry δ ε → ρ) (locale : Collation) (pages : List (List (TimelineEntry δ ε)))
    (apart : Apart pages.flatten) (k : String) : k ∈ (accumulated render locale pages).map (·.key) ↔
      ∃ e ∈ pages.flatten, entryKey e = k ∧ (e.text ≠ "" ∨ e.seq = none ∨
        ∀ f ∈ pages.flatten, f.seq = e.seq → f.kind = e.kind → f.text = "") := by
  have keeps := pages_keep render locale pages (apart_told render _ apart)
  constructor
  · intro ink
    obtain ⟨d,ind,rfl⟩ := List.mem_map.mp ink
    obtain ⟨e,ine,rfl⟩ := List.mem_map.mp (keeps.known d ind)
    exact ⟨e,ine,rfl,(stands_wire render pages.flatten e).mp (keeps.stands _ ind)⟩
  · rintro ⟨e,ine,rfl,stands⟩
    exact keeps.kept _ (List.mem_map.mpr ⟨e,ine,rfl⟩) ((stands_wire render pages.flatten e).mpr stands)

-- The kept keys are decided by the set of the pages: the keys with text, the keys of
-- entries without a seq, and the keys without text whose seq and kind has none with.
theorem kept_keys_settled (render : TimelineEntry δ ε → ρ) (locale : Collation) (pages : List (List (TimelineEntry δ ε)))
    (apart : Apart pages.flatten) :
    (∀ k, k ∈ (accumulated render locale pages).map (·.key) ↔
      ∃ e ∈ pages.flatten, entryKey e = k ∧ (e.text ≠ "" ∨ e.seq = none ∨
        ∀ f ∈ pages.flatten, f.seq = e.seq → f.kind = e.kind → f.text = "")) ∧
    ((accumulated render locale pages).map (·.key)).Nodup ∧
    (∀ others : List (List (TimelineEntry δ ε)), (∀ page, page ∈ others ↔ page ∈ pages) →
      ((accumulated render locale others).map (·.key)).Perm ((accumulated render locale pages).map (·.key))) ∧
    ∀ page ∈ pages, mergeEntries render locale (accumulated render locale pages) page =
      (accumulated render locale pages,[]) := by
  have told := apart_told render _ apart
  have keeps := pages_keep render locale pages told
  refine ⟨keys_exact render locale pages apart,keeps.keys,fun others same => ?_,fun page inside => ?_⟩
  · have shared : ∀ e, e ∈ others.flatten ↔ e ∈ pages.flatten := by
      intro e
      simp only [List.mem_flatten,same]
    have apart' : Apart others.flatten := fun e ine f inf =>
      apart e ((shared e).mp ine) f ((shared f).mp inf)
    have keeps' := pages_keep render locale others (apart_told render _ apart')
    refine (List.perm_ext_iff_of_nodup keeps'.keys keeps.keys).mpr fun k => ?_
    rw [keys_exact render locale others apart',keys_exact render locale pages apart]
    simp only [shared]
  · refine merge_again render locale page told keeps fun w inw => List.mem_map.mpr ⟨w,?_,rfl⟩
    exact List.mem_flatten.mpr ⟨page,inside,inw⟩

def wire (seq : Option Int) (kind text : String) : TimelineEntry Unit Unit := ⟨.dsh,seq,0,kind,text,none,none⟩
def keysAfter (pages : List (List (TimelineEntry Unit Unit))) : List String :=
  (accumulated (fun _ => ()) codeUnits pages).map (·.key)
def joined : String := "a" ++ keySep ++ "b"

-- The text comes first and the entry without it later, on a page by itself.
theorem late_keys_settled : keysAfter [[wire (some 1) "message" "hi"],[wire (some 1) "message" ""]] =
      [entryKey (wire (some 1) "message" "hi")] ∧
    (keysAfter [[wire (some 1) "message" ""],[wire (some 1) "message" "hi"]]).Perm
      (keysAfter [[wire (some 1) "message" "hi"],[wire (some 1) "message" ""]]) := by
  refine ⟨by decide +kernel,?_⟩
  refine (kept_keys_settled (fun _ => ()) codeUnits [[wire (some 1) "message" "hi"],[wire (some 1) "message" ""]]
    (plain_apart _ ?_)).2.2.1 _ ?_
  · simp only [List.flatten_cons,List.flatten_nil,List.append_nil,List.mem_append,List.mem_singleton]
    rintro e (rfl | rfl) <;> decide
  · intro page
    simp only [List.mem_cons,List.not_mem_nil,or_false]
    exact or_comm

-- An entry without a seq stays without its text although its kind has one with text.
-- And where a kind holds the separator, a text of another kind takes the key of the
-- text that would have answered an entry, and what is kept depends on which came first.
theorem tied_keys_differ :
    (entryKey (wire none "message" "") ∈ keysAfter [[wire none "message" "hi",wire none "message" ""]]) ∧
    (entryKey (wire (some 1) joined "") ∈ keysAfter
      [[wire (some 1) "a" ("b" ++ keySep ++ "c")],[wire (some 1) joined ""],[wire (some 1) joined "c"]]) ∧
    ¬ (entryKey (wire (some 1) joined "") ∈ keysAfter
      [[wire (some 1) joined ""],[wire (some 1) joined "c"],[wire (some 1) "a" ("b" ++ keySep ++ "c")]]) := by
  refine ⟨?_,?_,?_⟩
  · decide +kernel
  · decide +kernel
  · decide +kernel

end AgentSideCar.Timeline
