import AgentSideCar.Library.Digits
import AgentSideCar.Timeline.Client

namespace AgentSideCar.Timeline
open Runs
variable {δ ε ρ : Type} {final entries : List (TimelineEntryVM ρ)} {c d f g y : TimelineEntryVM ρ}

def slotOf (c : TimelineEntryVM ρ) : Option (Int × String) := c.seq.map (·,c.kindRaw)
def bare (c : TimelineEntryVM ρ) : Prop := ∃ seq, c.seq = some seq ∧ c.key = emptyTextKey seq c.kindRaw
def cls (c : TimelineEntryVM ρ) : Option Int × Origin := (c.seq,c.origin)

theorem seq_no_sep (n : Int) : Char.ofNat 0 ∉ (toString n).toList := by
  intro inside
  rcases Digits.signed_chars (n := n) inside with dash | digit
  · revert dash; decide
  · revert digit; decide

theorem seqKindKey_list (seq : Int) (kind : String) :
    (seqKindKey seq kind).toList = (toString seq).toList ++ Char.ofNat 0 :: kind.toList := by
  simp only [seqKindKey,keySep,String.toList_append,String.toList_singleton,List.append_assoc,List.singleton_append]

theorem seqKindKey_inj : seqKindKey p k = seqKindKey q l ↔ p = q ∧ k = l := by
  constructor
  · intro same
    have lists := congrArg String.toList same
    rw [seqKindKey_list,seqKindKey_list] at lists
    obtain ⟨seq,kind⟩ := Digits.split_unique (seq_no_sep p) (seq_no_sep q) lists
    exact ⟨Digits.signed_injective seq,String.toList_injective kind⟩
  · rintro ⟨rfl,rfl⟩; rfl

theorem emptyTextKey_slot (seq : Int) (kind : String) :
    emptyTextKey seq kind = "s:" ++ seqKindKey seq kind ++ keySep := by
  simp [emptyTextKey,seqKindKey,String.append_assoc]

theorem emptyTextKey_inj : emptyTextKey p k = emptyTextKey q l ↔ p = q ∧ k = l := by
  rw [← seqKindKey_inj,emptyTextKey_slot,emptyTextKey_slot]
  constructor
  · intro same
    have lists := congrArg String.toList same
    simp only [String.toList_append,List.append_assoc,List.append_cancel_left_eq,List.append_cancel_right_eq] at lists
    exact String.toList_injective lists
  · intro same; rw [same]

theorem bare_some (thin : bare c) : c.seq.isSome = true := by
  obtain ⟨seq,some,_⟩ := thin
  simp [some]

theorem slot_seq (same : slotOf c = slotOf d) : c.seq = d.seq := by
  cases left : c.seq <;> cases right : d.seq <;> simp_all [slotOf]

theorem slot_kind (same : slotOf c = slotOf d) (some : c.seq.isSome = true) : c.kindRaw = d.kindRaw := by
  cases left : c.seq <;> cases right : d.seq <;> simp_all [slotOf]

theorem bare_key (thin : bare c) (also : bare d) (same : slotOf c = slotOf d) : c.key = d.key := by
  have kind := slot_kind same (bare_some thin)
  obtain ⟨seq,left,key⟩ := thin
  obtain ⟨seq',right,key'⟩ := also
  have := slot_seq same
  rw [left,right] at this
  cases this
  rw [key,key',kind]

theorem bare_slot (thin : bare c) (also : bare d) (same : c.key = d.key) : slotOf c = slotOf d := by
  obtain ⟨seq,left,key⟩ := thin
  obtain ⟨seq',right,key'⟩ := also
  obtain ⟨rfl,kind⟩ := emptyTextKey_inj.mp (key.symm.trans (same.trans key'))
  simp [slotOf,left,right,kind]

-- An entry that arrived before its twin stands where its final form will stand.
def Settles (f c : TimelineEntryVM ρ) : Prop :=
  c.origin = .dsh ∧ f.origin = .dsh ∧ slotOf c = slotOf f ∧ bare c ∧ ¬ bare f

def Places (final : List (TimelineEntryVM ρ)) (c f : TimelineEntryVM ρ) : Prop :=
  c = f ∨ Settles f c ∧ c.key ∉ final.map (·.key)

-- What the host's merge gives of itself.
structure Ordered (final : List (TimelineEntryVM ρ)) : Prop where
  single : ∀ f ∈ final, ∀ g ∈ final, f.origin = .dsh → g.origin = .dsh → f.seq.isSome = true → f.seq = g.seq →
    ¬ bare f → ¬ bare g → f = g
  seqs : (final.filter (·.seq.isSome)).Pairwise fun f g => f.seq.getD 0 ≤ g.seq.getD 0
  times : (final.filter (·.seq.isNone)).Pairwise fun f g => f.ts ≤ g.ts
  merged : final = (final.filter (·.seq.isSome)).merge (final.filter (·.seq.isNone)) fun f g => decide (f.ts ≤ g.ts)

-- What is asked of the final timeline: keys identify its entries, no seq and kind
-- has an entry with text and one without, within a seq dsh comes first, and
-- seq-less entries of one timestamp stand in collation order.
structure Settled (locale : Collation) (final : List (TimelineEntryVM ρ)) : Prop where
  keys : (final.map (·.key)).Nodup
  uniform : ∀ f ∈ final, ∀ g ∈ final, slotOf f = slotOf g → bare f → bare g
  grouped : final.Pairwise fun f g => f.seq.isSome = true → f.seq = g.seq → f.origin = .dsh ∨ g.origin = .sidecar
  collated : final.Pairwise fun f g => f.seq = none → g.seq = none → f.ts = g.ts → locale.le g.key f.key = false

-- What is asked of an arrival, given those before it: it is a final entry or one
-- still without its text, and the final entries before it of its seq and origin
-- have arrived. A dsh entry without its text and a sidecar entry of its seq and
-- kind are not both there before the dsh entry with its text.
structure Arrives (final past : List (TimelineEntryVM ρ)) (y : TimelineEntryVM ρ) : Prop where
  place : ∃ f ∈ final, Places final y f ∧ (y.seq.isSome = true → ∀ earlier later, final = earlier ++ f :: later →
    ∀ x ∈ earlier, cls x = cls f → ∃ d ∈ past, Places final d x)
  apart : ∀ f ∈ final, f.origin = .dsh → ¬ bare f → slotOf f = slotOf y → ∀ d ∈ past, slotOf d = slotOf y →
    (¬ bare y ∧ y.origin = .sidecar ∧ bare d ∨ bare y ∧ ¬ bare d ∧ d.origin = .sidecar) → f ∈ past

-- The same of an arrival, given the accumulated entries.
structure Fits (final entries : List (TimelineEntryVM ρ)) (y : TimelineEntryVM ρ) : Prop where
  place : ∃ f ∈ final, Places final y f ∧ (y.seq.isSome = true → ∀ earlier later, final = earlier ++ f :: later →
    ∀ x ∈ earlier, cls x = cls f → ∃ d ∈ entries, Places final d x)
  upgrade : ¬ bare y → ∀ d ∈ entries, bare d → slotOf d = slotOf y → y.origin = .dsh
  dropped : ∀ f ∈ final, Settles f y → ∀ d ∈ entries, ¬ bare d → slotOf d = slotOf y → f ∈ entries

-- The accumulated entries as a part of the final timeline: of each seq and origin
-- a first part is there, in order.
structure Partial (final entries : List (TimelineEntryVM ρ)) : Prop where
  placed : ∀ d ∈ entries, ∃ f ∈ final, Places final d f
  keys : (entries.map (·.key)).Nodup
  uniform : ∀ d ∈ entries, ∀ e ∈ entries, slotOf d = slotOf e → bare d → bare e
  begun : ∀ k : Option Int × Origin, k.1.isSome = true → ∃ pre rest, final.filter (cls · = k) = pre ++ rest ∧
    List.Forall₂ (Places final) (entries.filter (cls · = k)) pre

theorem places_cls (places : Places final c f) : cls c = cls f := by
  rcases places with rfl | ⟨⟨left,right,slot,_,_⟩,_⟩
  · rfl
  · simp [cls,slot_seq slot,left,right]

theorem key_same (unique : (final.map (·.key)).Nodup) (left : f ∈ final) (right : g ∈ final)
    (same : f.key = g.key) : f = g := List.inj_on_of_nodup_map unique left right same

theorem places_unique (ordered : Ordered final) (inf : f ∈ final) (ing : g ∈ final) (first : Places final c f)
    (second : Places final c g) : f = g := by
  rcases first with rfl | ⟨settles,absent⟩ <;> rcases second with rfl | ⟨settles',absent'⟩
  · rfl
  · exact absurd (List.mem_map.mpr ⟨_,inf,rfl⟩) absent'
  · exact absurd (List.mem_map.mpr ⟨_,ing,rfl⟩) absent
  · obtain ⟨_,dsh,slot,thin,full⟩ := settles
    obtain ⟨_,dsh',slot',_,full'⟩ := settles'
    have same := slot.symm.trans slot'
    exact ordered.single f inf g ing dsh dsh' (slot_seq slot ▸ bare_some thin) (slot_seq same) full full'

-- Two entries in one place differ only where neither has been told from the other:
-- the later would have been dropped, or would have filled the earlier one's slot.
theorem place_free (mine : Places final y f)
    (theirs : Places final d f) (new : y.key ≠ d.key) (free : slotOf d = slotOf y → y.seq.isSome = true → (bare d ↔ bare y)) :
    False := by
  rcases mine with rfl | ⟨⟨_,_,slot,thin,full⟩,_⟩ <;> rcases theirs with rfl | ⟨⟨_,_,slot',thin',full'⟩,_⟩
  · exact new rfl
  · exact full' ((free slot' (slot_seq slot' ▸ bare_some thin')).mp thin')
  · exact full ((free slot.symm (bare_some thin)).mpr thin)
  · exact new (bare_key thin thin' (slot.trans slot'.symm))

theorem placed_by (all : List.Forall₂ (Places final) entries pre) (inside : f ∈ pre) :
    ∃ d ∈ entries, Places final d f := by
  induction all with
  | nil => simp at inside
  | cons head _ ih =>
    rcases List.mem_cons.mp inside with rfl | inside
    · exact ⟨_,List.mem_cons_self,head⟩
    · obtain ⟨d,present,places⟩ := ih inside
      exact ⟨d,List.mem_cons_of_mem _ present,places⟩

theorem place_of (all : List.Forall₂ (Places final) entries pre) (inside : d ∈ entries) :
    ∃ f ∈ pre, Places final d f := by
  induction all with
  | nil => simp at inside
  | cons head _ ih =>
    rcases List.mem_cons.mp inside with rfl | inside
    · exact ⟨_,List.mem_cons_self,head⟩
    · obtain ⟨f,present,places⟩ := ih inside
      exact ⟨f,List.mem_cons_of_mem _ present,places⟩

theorem before_in_class {α : Type} (accept : α → Bool) (l earlier later pre rest : List α) (f r : α)
    (whole : l = earlier ++ f :: later) (part : l.filter accept = pre ++ r :: rest) (accepted : accept f = true)
    (outside : f ∉ pre) (differs : r ≠ f) : r ∈ earlier := by
  rw [whole,List.filter_append,List.filter_cons_of_pos accepted] at part
  rcases List.append_eq_append_iff.mp part with ⟨gap,left,right⟩ | ⟨gap,left,right⟩
  · cases gap with
    | nil => exact absurd (List.cons.inj right).1.symm differs
    | cons g gap =>
      obtain ⟨rfl,_⟩ := List.cons.inj right
      exact absurd (by rw [left]; simp) outside
  · cases gap with
    | nil => exact absurd (List.cons.inj right).1 differs
    | cons g gap =>
      obtain ⟨rfl,_⟩ := List.cons.inj right
      have : r ∈ earlier.filter accept := by rw [left]; simp
      exact (List.mem_filter.mp this).1

theorem append_partials (ordered : Ordered final) (unique : (final.map (·.key)).Nodup)
    (held : Partial final entries) (fits : Fits final entries y) (new : y.key ∉ entries.map (·.key))
    (free : ∀ d ∈ entries, slotOf d = slotOf y → y.seq.isSome = true → (bare d ↔ bare y)) :
    Partial final (entries ++ [y]) := by
  obtain ⟨f,inf,places,arrived⟩ := fits.place
  have distinct : ∀ d ∈ entries, y.key ≠ d.key := fun d inside same => new (List.mem_map.mpr ⟨d,inside,same.symm⟩)
  refine ⟨?_,?_,?_,?_⟩
  · intro d inside
    rcases List.mem_append.mp inside with old | fresh
    · exact held.placed d old
    · cases List.mem_singleton.mp fresh; exact ⟨f,inf,places⟩
  · rw [List.map_append]
    refine List.nodup_append.mpr ⟨held.keys,by simp,?_⟩
    rintro a old b fresh rfl
    cases List.mem_singleton.mp fresh
    exact new old
  · intro d ind e ine slot thin
    rcases List.mem_append.mp ind with oldd | freshd <;> rcases List.mem_append.mp ine with olde | freshe
    · exact held.uniform d oldd e olde slot thin
    · cases List.mem_singleton.mp freshe
      exact (free d oldd slot (slot_seq slot ▸ bare_some thin)).mp thin
    · cases List.mem_singleton.mp freshd
      exact (free e olde slot.symm (bare_some thin)).mpr thin
    · cases List.mem_singleton.mp freshd
      cases List.mem_singleton.mp freshe
      exact thin
  · intro k some
    obtain ⟨pre,rest,whole,all⟩ := held.begun k some
    by_cases mine : cls y = k
    · subst mine
      have classed : cls f = cls y := (places_cls places).symm
      have outside : f ∉ pre := by
        intro inside
        obtain ⟨d,present,theirs⟩ := placed_by all inside
        have present := (List.mem_filter.mp present).1
        exact place_free places theirs (distinct d present) (free d present)
      have inclass : f ∈ pre ++ rest := by rw [← whole]; exact List.mem_filter.mpr ⟨inf,by simp [classed]⟩
      cases rest with
      | nil => simp [outside] at inclass
      | cons r rest =>
        have nodup : (pre ++ r :: rest).Nodup := whole ▸ (List.Nodup.of_map _ unique).filter _
        have first : r = f := by
          by_contra differs
          obtain ⟨earlier,later,split⟩ := List.append_of_mem inf
          have before := before_in_class (cls · = cls y) final earlier later pre rest f r split whole
            (by simp [classed]) outside differs
          have rin : r ∈ final.filter (cls · = cls y) := by rw [whole]; simp
          obtain ⟨rfinal,rcls⟩ := List.mem_filter.mp rin
          have rcls : cls r = cls y := by simpa using rcls
          obtain ⟨d,present,theirs⟩ := arrived some earlier later split r before (rcls.trans classed.symm)
          have dclass : d ∈ entries.filter (cls · = cls y) :=
            List.mem_filter.mpr ⟨present,by simp [places_cls theirs,rcls]⟩
          obtain ⟨g,ing,also⟩ := place_of all dclass
          have gfinal : g ∈ final := (List.mem_filter.mp (whole ▸ List.mem_append_left _ ing)).1
          have same := places_unique ordered gfinal rfinal also theirs
          exact (List.nodup_append.mp nodup).2.2 g ing r List.mem_cons_self same
        subst first
        refine ⟨pre ++ [r],rest,by simp [whole],?_⟩
        rw [List.filter_append,List.filter_cons_of_pos (by simp)]
        exact List.rel_append all (.cons places .nil)
    · refine ⟨pre,rest,whole,?_⟩
      rw [List.filter_append,List.filter_cons_of_neg (by simpa using mine)]
      simpa using all

def swap (d y e : TimelineEntryVM ρ) : TimelineEntryVM ρ := if e.key = d.key then y else e

theorem set_swap (keys : (entries.map (·.key)).Nodup) (at' : entries[slot]? = some d) :
    entries.set slot y = entries.map (swap d y) := by
  induction entries generalizing slot with
  | nil => simp at at'
  | cons e rest ih =>
    obtain ⟨fresh,later⟩ := List.nodup_cons.mp keys
    cases slot with
    | zero =>
      cases Option.some.inj at'
      have untouched : rest.map (swap d y) = rest := by
        refine (List.map_congr_left fun x inside => ?_).trans (List.map_id' rest)
        exact if_neg fun same => fresh (List.mem_map.mpr ⟨x,inside,same⟩)
      simp [List.set,swap,untouched]
    | succ slot =>
      have inside : d ∈ rest := List.mem_of_getElem? at'
      have kept : swap d y e = e := if_neg fun same => fresh (List.mem_map.mpr ⟨d,inside,same.symm⟩)
      simp only [List.set,List.map_cons,kept]
      rw [ih later (by simpa using at')]

theorem swap_cases (d y e : TimelineEntryVM ρ) : e.key = d.key ∧ swap d y e = y ∨ e.key ≠ d.key ∧ swap d y e = e := by
  unfold swap
  split
  · exact .inl ⟨by assumption,rfl⟩
  · exact .inr ⟨by assumption,rfl⟩

theorem swap_keys (keys : (entries.map (·.key)).Nodup) (new : y.key ∉ entries.map (·.key)) (d : TimelineEntryVM ρ) :
    ((entries.map (swap d y)).map (·.key)).Nodup := by
  rw [List.map_map]
  refine List.pairwise_map.mpr ((List.pairwise_map.mp keys).imp_of_mem fun {a b} ina inb apart => ?_)
  have fresh : ∀ e ∈ entries, y.key ≠ e.key := fun e ine eq => new (List.mem_map.mpr ⟨e,ine,eq.symm⟩)
  simp only [Function.comp]
  rcases swap_cases d y a with ⟨left,eq⟩ | ⟨_,eq⟩ <;> rcases swap_cases d y b with ⟨right,eq'⟩ | ⟨_,eq'⟩ <;>
    rw [eq,eq']
  · exact absurd (left.trans right.symm) apart
  · exact fresh b inb
  · exact (fresh a ina).symm
  · exact apart

theorem upgrade_partials (ordered : Ordered final) (settled : Settled locale final) (held : Partial final entries)
    (fits : Fits final entries y) (new : y.key ∉ entries.map (·.key)) (full : ¬ bare y) (ind : d ∈ entries)
    (thin : bare d) (slot : slotOf d = slotOf y) :
    y ∈ final ∧ d ∉ final ∧ Partial final (entries.map (swap d y)) := by
  obtain ⟨f,inf,places,_⟩ := fits.place
  obtain rfl : y = f := by
    rcases places with same | ⟨⟨_,_,_,thin',_⟩,_⟩
    · exact same
    · exact absurd thin' full
  have dsh := fits.upgrade full d ind thin slot
  have outside : d ∉ final := fun inside => full (settled.uniform d inside y inf slot thin)
  obtain ⟨g,ing,theirs⟩ := held.placed d ind
  obtain ⟨ddsh,absent,only⟩ : d.origin = .dsh ∧ d.key ∉ final.map (·.key) ∧ g = y := by
    rcases theirs with same | ⟨⟨ddsh,gdsh,slot',_,full'⟩,absent⟩
    · exact absurd (same ▸ ing) outside
    · have same := slot'.symm.trans slot
      exact ⟨ddsh,absent,ordered.single g ing y inf gdsh dsh (slot_seq slot' ▸ bare_some thin) (slot_seq same) full' full⟩
  subst only
  have same : ∀ e ∈ entries, e.key = d.key → e = d := fun e ine => key_same held.keys ine ind
  have classed : cls d = cls g := by simp [cls,slot_seq slot,dsh,ddsh]
  refine ⟨inf,outside,?_,?_,?_,?_⟩
  · intro e inside
    obtain ⟨e,ine,rfl⟩ := List.mem_map.mp inside
    rcases swap_cases d g e with ⟨_,eq⟩ | ⟨_,eq⟩ <;> rw [eq]
    · exact ⟨g,inf,.inl rfl⟩
    · exact held.placed e ine
  · exact swap_keys held.keys new d
  · have clean : ∀ e ∈ entries, e.key ≠ d.key → slotOf e = slotOf g → ¬ bare e := fun e _ apart eslot ethin =>
      apart (bare_key ethin thin (eslot.trans slot.symm))
    intro a' swapped b' swapped' abslot athin
    obtain ⟨a,ina,rfl⟩ := List.mem_map.mp swapped
    obtain ⟨b,inb,rfl⟩ := List.mem_map.mp swapped'
    rcases swap_cases d g a with ⟨_,eq⟩ | ⟨apart,eq⟩ <;> rw [eq] at abslot athin
    · exact absurd athin full
    · rcases swap_cases d g b with ⟨_,eq'⟩ | ⟨_,eq'⟩ <;> rw [eq'] at abslot ⊢
      · exact absurd athin (clean a ina apart abslot)
      · exact held.uniform a ina b inb abslot athin
  · intro k some
    obtain ⟨pre,rest,whole,all⟩ := held.begun k some
    refine ⟨pre,rest,whole,?_⟩
    have moved : (entries.map (swap d g)).filter (cls · = k) = (entries.filter (cls · = k)).map (swap d g) := by
      rw [List.filter_map]
      congr 1
      refine List.filter_congr fun e ine => ?_
      rcases swap_cases d g e with ⟨key,eq⟩ | ⟨_,eq⟩ <;> simp only [Function.comp,eq]
      rw [same e ine key,classed]
    rw [moved,List.forall₂_map_left_iff]
    have within : ∀ e ∈ entries.filter (cls · = k), e ∈ entries := fun e inside => (List.mem_filter.mp inside).1
    have prein : ∀ h ∈ pre, h ∈ final := fun h inside =>
      (List.mem_filter.mp (whole ▸ List.mem_append_left _ inside)).1
    clear whole moved
    generalize entries.filter (cls · = k) = members at all within
    induction all with
    | nil => exact .nil
    | @cons e h es hs head _ ih =>
      refine .cons ?_ (ih (fun x inside => prein x (List.mem_cons_of_mem _ inside))
        (fun x inside => within x (List.mem_cons_of_mem _ inside)))
      rcases swap_cases d g e with ⟨key,eq⟩ | ⟨_,eq⟩ <;> rw [eq]
      · have eqd := same e (within e List.mem_cons_self) key
        subst eqd
        exact .inl (places_unique ordered ing (prein h List.mem_cons_self) theirs head)
      · exact head

theorem filter_seqs (locale : Collation) (l : List (TimelineEntryVM ρ)) :
    (sortTimelineEntries locale l).filter (·.seq.isSome) =
      (l.filter (·.seq.isSome)).insertionSort seqThenOrigin := by
  rw [sortTimelineEntries,Merge.interleave_exact]
  apply Merge.merge_filter
  · intro x inside
    exact (List.mem_filter.mp ((List.mem_insertionSort _).mp inside)).2
  · intro y inside
    have := (List.mem_filter.mp ((List.mem_insertionSort _).mp inside)).2
    simpa using this

theorem filter_unseqed (locale : Collation) (l : List (TimelineEntryVM ρ)) :
    (sortTimelineEntries locale l).filter (·.seq.isNone) =
      (l.filter (·.seq.isNone)).insertionSort (tsThenKey locale) := by
  rw [sortTimelineEntries,Merge.interleave_exact]
  apply Merge.merge_filter_not
  · intro x inside
    have := (List.mem_filter.mp ((List.mem_insertionSort _).mp inside)).2
    simpa using this
  · intro y inside
    exact (List.mem_filter.mp ((List.mem_insertionSort _).mp inside)).2

theorem filter_class (l : List (TimelineEntryVM ρ)) (k : Option Int × Origin) (some : k.1.isSome = true) :
    (l.filter (·.seq.isSome)).filter (cls · = k) = l.filter (cls · = k) := by
  rw [List.filter_filter]
  refine List.filter_congr fun c _ => ?_
  cases classed : decide (cls c = k) with
  | false => rfl
  | true =>
    have : cls c = k := by simpa using classed
    subst this
    simpa [cls] using some

theorem sort_class (locale : Collation) (l : List (TimelineEntryVM ρ)) (k : Option Int × Origin)
    (some : k.1.isSome = true) : (sortTimelineEntries locale l).filter (cls · = k) = l.filter (cls · = k) := by
  rw [← filter_class _ k some,filter_seqs,Merge.sort_stable,filter_class _ k some]
  intro a b left right
  have left : cls a = k := by simpa using left
  have right : cls b = k := by simpa using right
  subst left
  simp only [cls,Prod.mk.injEq] at right
  refine .inr ⟨by rw [right.1],?_⟩
  rw [right.2]
  cases a.origin <;> simp

theorem sort_perm (locale : Collation) (l : List (TimelineEntryVM ρ)) : (sortTimelineEntries locale l).Perm l := by
  rw [sortTimelineEntries,Merge.interleave_exact]
  refine (List.merge_perm_append ..).trans ?_
  refine ((List.perm_insertionSort _ _).append (List.perm_insertionSort _ _)).trans ?_
  have none' : (fun c : TimelineEntryVM ρ => c.seq.isNone) = fun c => !c.seq.isSome := by
    funext c; cases c.seq <;> rfl
  rw [none']
  exact List.filter_append_perm _ _

theorem sort_partials (locale : Collation) (held : Partial final entries) :
    Partial final (sortTimelineEntries locale entries) := by
  have perm := sort_perm locale entries
  refine ⟨fun d inside => held.placed d (perm.subset inside),(perm.map _).nodup_iff.mpr held.keys,?_,?_⟩
  · exact fun d ind e ine => held.uniform d (perm.subset ind) e (perm.subset ine)
  · intro k some
    obtain ⟨pre,rest,whole,all⟩ := held.begun k some
    exact ⟨pre,rest,whole,by rw [sort_class locale entries k some]; exact all⟩

theorem partial_nil (final : List (TimelineEntryVM ρ)) : Partial final [] :=
  ⟨by simp,by simp,by simp,fun k _ => ⟨[],final.filter (cls · = k),by simp,.nil⟩⟩

-- The string under which the two maps of mergeEntries file an entry.
def slotKey (c : TimelineEntryVM ρ) : Option String := c.seq.map (seqKindKey · c.kindRaw)

theorem slotKey_slot : slotKey c = slotKey d ↔ slotOf c = slotOf d := by
  cases left : c.seq <;> cases right : d.seq <;> simp [slotKey,slotOf,left,right,seqKindKey_inj]

theorem slotKey_some (held : slotKey c = some sk) : c.seq.isSome = true := by
  cases seq : c.seq <;> simp_all [slotKey]

-- A key is answered once the entry with the text of its slot is there.
def Answered (final entries : List (TimelineEntryVM ρ)) (k : String) : Prop :=
  k ∉ final.map (·.key) ∧ ∃ f ∈ entries, f ∈ final ∧ f.origin = .dsh ∧ ¬ bare f ∧
    ∃ c : TimelineEntryVM ρ, bare c ∧ c.key = k ∧ slotOf c = slotOf f

-- The locals of mergeEntries describe the entries.
structure Filed (m : Merging ρ) : Prop where
  seen : ∀ d ∈ m.entries, d.key ∈ m.seen
  slotted : ∀ sk i, m.emptySlot.get sk = some i → ∃ d, m.entries[i]? = some d ∧ slotKey d = some sk ∧ bare d
  slots : ∀ d ∈ m.entries, ∀ sk, slotKey d = some sk → bare d → ∃ i, m.emptySlot.get sk = some i
  filled : ∀ sk, sk ∈ m.filled ↔ ∃ d ∈ m.entries, slotKey d = some sk ∧ ¬ bare d

structure Linked (final : List (TimelineEntryVM ρ)) (m : Merging ρ) : Prop where
  seen : ∀ d ∈ m.entries, d.key ∈ m.seen
  known : ∀ k ∈ m.seen, k ∈ m.entries.map (·.key) ∨ Answered final m.entries k
  slotted : ∀ sk i, m.emptySlot.get sk = some i → ∃ d, m.entries[i]? = some d ∧ slotKey d = some sk ∧ bare d
  slots : ∀ d ∈ m.entries, ∀ sk, slotKey d = some sk → bare d → ∃ i, m.emptySlot.get sk = some i
  filled : ∀ sk, sk ∈ m.filled ↔ ∃ d ∈ m.entries, slotKey d = some sk ∧ ¬ bare d

theorem index_frame (m : Merging ρ) (at' : TimelineEntryVM ρ × Nat) :
    (indexSlot m at').entries = m.entries ∧ (indexSlot m at').seen = m.seen ∧ (indexSlot m at').changed = m.changed := by
  unfold indexSlot
  split
  · simp
  · simp only; split <;> simp

theorem index_slots (m : Merging ρ) (c : TimelineEntryVM ρ) (i : Nat) (sk : String) (j : Nat) :
    (indexSlot m (c,i)).emptySlot.get sk = some j ↔
      (slotKey c = some sk ∧ bare c ∧ j = i) ∨ (¬ (slotKey c = some sk ∧ bare c) ∧ m.emptySlot.get sk = some j) := by
  unfold indexSlot
  cases seq : c.seq with
  | none => simp [slotKey,seq]
  | some q =>
    have thin : bare c ↔ c.key = emptyTextKey q c.kindRaw := by simp [bare,seq]
    simp only [slotKey,seq,Option.map_some,Option.some.injEq,thin]
    by_cases key : c.key = emptyTextKey q c.kindRaw
    · rw [if_pos key,Dict.get_set]
      by_cases same : sk = seqKindKey q c.kindRaw
      · simp [same,key,eq_comm]
      · have apart : ¬ seqKindKey q c.kindRaw = sk := fun eq => same eq.symm
        simp [same,apart]
    · simp [key]

theorem index_filled (m : Merging ρ) (c : TimelineEntryVM ρ) (i : Nat) (sk : String) :
    sk ∈ (indexSlot m (c,i)).filled ↔ (slotKey c = some sk ∧ ¬ bare c) ∨ sk ∈ m.filled := by
  unfold indexSlot
  cases seq : c.seq with
  | none => simp [slotKey,seq]
  | some q =>
    have thin : bare c ↔ c.key = emptyTextKey q c.kindRaw := by simp [bare,seq]
    simp only [slotKey,seq,Option.map_some,Option.some.injEq,thin]
    split
    · simp_all
    · simp_all [eq_comm]

theorem indexed (m : Merging ρ) (pairs : List (TimelineEntryVM ρ × Nat)) :
    let n := pairs.foldl indexSlot m
    (n.entries = m.entries ∧ n.seen = m.seen ∧ n.changed = m.changed) ∧
    (∀ sk j, n.emptySlot.get sk = some j → m.emptySlot.get sk = some j ∨
      ∃ c, (c,j) ∈ pairs ∧ slotKey c = some sk ∧ bare c) ∧
    (∀ sk, ((∃ j, m.emptySlot.get sk = some j) ∨ ∃ c i, (c,i) ∈ pairs ∧ slotKey c = some sk ∧ bare c) →
      ∃ j, n.emptySlot.get sk = some j) ∧
    (∀ sk, sk ∈ n.filled ↔ sk ∈ m.filled ∨ ∃ c i, (c,i) ∈ pairs ∧ slotKey c = some sk ∧ ¬ bare c) := by
  induction pairs generalizing m with
  | nil => simp
  | cons p rest ih =>
    obtain ⟨c,i⟩ := p
    obtain ⟨⟨entries,seen,changed⟩,slotted,slots,filled⟩ := ih (indexSlot m (c,i))
    obtain ⟨entries',seen',changed'⟩ := index_frame m (c,i)
    simp only [List.foldl_cons]
    refine ⟨⟨entries.trans entries',seen.trans seen',changed.trans changed'⟩,?_,?_,?_⟩
    · intro sk j found
      rcases slotted sk j found with old | ⟨d,inside,fits⟩
      · rcases (index_slots m c i sk j).mp old with ⟨slot,thin,rfl⟩ | ⟨_,older⟩
        · exact .inr ⟨c,List.mem_cons_self,slot,thin⟩
        · exact .inl older
      · exact .inr ⟨d,List.mem_cons_of_mem _ inside,fits⟩
    · intro sk some
      refine slots sk ?_
      by_cases mine : slotKey c = .some sk ∧ bare c
      · exact .inl ⟨i,(index_slots m c i sk i).mpr (.inl ⟨mine.1,mine.2,rfl⟩)⟩
      · rcases some with ⟨j,old⟩ | ⟨d,k,inside,fits⟩
        · exact .inl ⟨j,(index_slots m c i sk j).mpr (.inr ⟨mine,old⟩)⟩
        · rcases List.mem_cons.mp inside with same | inside
          · cases same; exact absurd fits mine
          · exact .inr ⟨d,k,inside,fits⟩
    · intro sk
      rw [filled,index_filled]
      constructor
      · rintro ((mine | old) | ⟨d,k,inside,fits⟩)
        · exact .inr ⟨c,i,List.mem_cons_self,mine⟩
        · exact .inl old
        · exact .inr ⟨d,k,List.mem_cons_of_mem _ inside,fits⟩
      · rintro (old | ⟨d,k,inside,fits⟩)
        · exact .inl (.inr old)
        · rcases List.mem_cons.mp inside with same | inside
          · cases same; exact .inl (.inl fits)
          · exact .inr ⟨d,k,inside,fits⟩

theorem begin_filed (existing : List (TimelineEntryVM ρ)) :
    (beginMerge existing).entries = existing ∧ (beginMerge existing).seen = existing.map (·.key) ∧
      (beginMerge existing).changed = false ∧ Filed (beginMerge existing) := by
  obtain ⟨⟨same,seen,changed⟩,slotted,slots,filled⟩ :=
    indexed {entries := existing,seen := existing.map (·.key)} existing.zipIdx
  refine ⟨same,seen,changed,?_,?_,?_,?_⟩
  · intro d inside
    rw [beginMerge,seen]
    rw [beginMerge,same] at inside
    exact List.mem_map.mpr ⟨d,inside,rfl⟩
  · intro sk i found
    rcases slotted sk i found with old | ⟨c,inside,slot,thin⟩
    · cases old
    · rw [beginMerge,same]
      exact ⟨c,List.mem_zipIdx_iff_getElem?.mp inside,slot,thin⟩
  · intro d inside sk slot thin
    rw [beginMerge,same] at inside
    obtain ⟨i,at'⟩ := List.mem_iff_getElem?.mp inside
    exact slots sk (.inr ⟨d,i,List.mem_zipIdx_iff_getElem?.mpr at',slot,thin⟩)
  · intro sk
    rw [show (beginMerge existing).filled = _ from rfl,beginMerge,filled,same]
    constructor
    · rintro (old | ⟨c,i,inside,fits⟩)
      · cases old
      · exact ⟨c,List.mem_of_getElem? (List.mem_zipIdx_iff_getElem?.mp inside),fits⟩
    · rintro ⟨d,inside,fits⟩
      obtain ⟨i,at'⟩ := List.mem_iff_getElem?.mp inside
      exact .inr ⟨d,i,List.mem_zipIdx_iff_getElem?.mpr at',fits⟩

theorem begin_linked (final existing : List (TimelineEntryVM ρ)) :
    (beginMerge existing).entries = existing ∧ (beginMerge existing).changed = false ∧
      Linked final (beginMerge existing) := by
  obtain ⟨same,seen,changed,filed⟩ := begin_filed existing
  refine ⟨same,changed,filed.seen,fun k inside => .inl ?_,filed.slotted,filed.slots,filed.filled⟩
  rw [same,← seen]
  exact inside

theorem bare_text (render : TimelineEntry δ ε → ρ) (w : TimelineEntry δ ε) (some : w.seq.isSome = true) :
    bare (normalizeTimelineEntry render w) ↔ w.text = "" := by
  obtain ⟨q,seq⟩ := Option.isSome_iff_exists.mp some
  simp only [bare,normalizeTimelineEntry,entryKey,seq,Option.some.injEq,exists_eq_left',emptyTextKey]
  constructor
  · intro same
    have lists := congrArg String.toList same
    rw [String.toList_append,List.append_right_eq_self] at lists
    exact String.toList_injective lists
  · intro none'; rw [none']; simp

-- Everything one arrival can do.
inductive Wired (y : TimelineEntryVM ρ) (m : Merging ρ) : Merging ρ → Prop where
  | known (seen : y.key ∈ m.seen) : Wired y m m
  | seqless (new : y.key ∉ m.seen) (bound : y.seq = none) : Wired y m (appendEntry y m)
  | stale (new : y.key ∉ m.seen) (slot : slotKey y = some sk) (thin : bare y) (full : sk ∈ m.filled) : Wired y m m
  | waiting (new : y.key ∉ m.seen) (slot : slotKey y = some sk) (thin : bare y) (open' : sk ∉ m.filled) :
      Wired y m (appendEntry y {m with emptySlot := m.emptySlot.set sk m.entries.length})
  | upgrade (new : y.key ∉ m.seen) (slot : slotKey y = some sk) (full : ¬ bare y) (found : m.emptySlot.get sk = some i) :
      Wired y m (upgradeEntry y sk i {m with filled := sk :: m.filled})
  | fresh (new : y.key ∉ m.seen) (slot : slotKey y = some sk) (full : ¬ bare y) (absent : m.emptySlot.get sk = none) :
      Wired y m (appendEntry y {m with filled := sk :: m.filled})

theorem wire_cases (render : TimelineEntry δ ε → ρ) (m : Merging ρ) (w : TimelineEntry δ ε) :
    Wired (normalizeTimelineEntry render w) m (mergeWire render m w) := by
  have text := bare_text render w
  have seqs : (normalizeTimelineEntry render w).seq = w.seq := rfl
  unfold mergeWire
  simp only
  generalize normalizeTimelineEntry render w = y at text seqs
  split
  · rename_i seen
    exact .known seen
  · rename_i new
    cases seq : y.seq with
    | none => exact .seqless new seq
    | some q =>
      have slot : slotKey y = some (seqKindKey q y.kindRaw) := by simp [slotKey,seq]
      have thin := text (by rw [← seqs,seq]; rfl)
      simp only
      generalize seqKindKey q y.kindRaw = sk at slot ⊢
      split
      · rename_i none'
        split
        · exact .stale new slot (thin.mpr none') (by assumption)
        · exact .waiting new slot (thin.mpr none') (by assumption)
      · rename_i full
        have full : ¬ bare y := fun also => full (thin.mp also)
        split
        · exact .upgrade new slot full (by assumption)
        · exact .fresh new slot full (by assumption)

-- What one arrival leaves behind.
structure Progress (final : List (TimelineEntryVM ρ)) (before : Merging ρ) (y : TimelineEntryVM ρ)
    (after : Merging ρ) : Prop where
  held : Partial final after.entries
  linked : Linked final after
  gained : ∀ f ∈ final, f ∈ before.entries ∨ f = y → f ∈ after.entries
  kept : ∀ f ∈ final, (∃ d ∈ before.entries, Places final d f) ∨ Places final y f → ∃ d ∈ after.entries, Places final d f
  fresh : ∀ d ∈ after.entries, d ∈ before.entries ∨ d = y
  idle : after.changed = false → before.changed = false ∧ after.entries = before.entries

theorem gained_of (unique : (final.map (·.key)).Nodup) (held : Partial final entries) (inf : f ∈ final)
    (present : f.key ∈ entries.map (·.key)) : f ∈ entries := by
  obtain ⟨d,ind,same⟩ := List.mem_map.mp present
  obtain ⟨g,ing,places⟩ := held.placed d ind
  rcases places with rfl | ⟨_,absent⟩
  · exact key_same unique ing inf same ▸ ind
  · exact absurd (same ▸ List.mem_map.mpr ⟨f,inf,rfl⟩) absent

theorem skip_progress (held : Partial final m.entries) (linked : Linked final m)
    (known : y ∈ final → y ∈ m.entries)
    (stale : ∀ f ∈ final, Settles f y ∧ y.key ∉ final.map (·.key) → ∃ d ∈ m.entries, Places final d f) :
    Progress final m y m := by
  refine ⟨held,linked,?_,?_,fun d inside => .inl inside,fun same => ⟨same,rfl⟩⟩
  · rintro f inf (old | rfl)
    · exact old
    · exact known inf
  · rintro f inf (old | rfl | settles)
    · exact old
    · exact ⟨_,known inf,.inl rfl⟩
    · exact stale f inf settles

theorem seen_stale (ordered : Ordered final) (held : Partial final m.entries) (linked : Linked final m)
    (inf : f ∈ final) (settles : Settles f y) (absent : y.key ∉ final.map (·.key)) (seen : y.key ∈ m.seen) :
    ∃ d ∈ m.entries, Places final d f := by
  have alike : ∀ g ∈ final, ∀ c : TimelineEntryVM ρ, bare c → c.key = y.key → slotOf c = slotOf g → g.origin = .dsh → ¬ bare g → g = f := by
    intro g ing c thin key slot dsh full
    have same := (bare_slot thin settles.2.2.2.1 key).symm.trans slot
    have seqs := slot_seq (settles.2.2.1.symm.trans same)
    exact ordered.single g ing f inf dsh settles.2.1
      (seqs ▸ slot_seq settles.2.2.1 ▸ bare_some settles.2.2.2.1) seqs.symm full settles.2.2.2.2
  rcases linked.known _ seen with present | ⟨_,g,ing,gfinal,dsh,full,c,thin,key,slot⟩
  · obtain ⟨d,ind,key⟩ := List.mem_map.mp present
    obtain ⟨g,ing,places⟩ := held.placed d ind
    rcases places with rfl | ⟨⟨also,dsh,slot,thin,full⟩,gone⟩
    · exact absurd (key ▸ List.mem_map.mpr ⟨d,ing,rfl⟩) absent
    · cases alike g ing d thin key slot dsh full
      exact ⟨d,ind,.inr ⟨⟨also,dsh,slot,thin,full⟩,gone⟩⟩
  · exact ⟨g,ing,.inl (alike g gfinal c thin key slot dsh full)⟩

theorem append_filed (filed : Filed m) (slots : ∀ sk i, slot.get sk = some i →
      (m.emptySlot.get sk = some i ∨ i = m.entries.length ∧ slotKey y = some sk ∧ bare y))
    (kept : ∀ sk, (∃ i, m.emptySlot.get sk = some i) ∨ slotKey y = some sk ∧ bare y → ∃ i, slot.get sk = some i)
    (full : ∀ sk, sk ∈ filled ↔ sk ∈ m.filled ∨ slotKey y = some sk ∧ ¬ bare y) :
    Filed (appendEntry y {m with emptySlot := slot,filled := filled}) := by
  refine ⟨?_,?_,?_,?_⟩
  · intro d inside
    rcases List.mem_append.mp inside with old | fresh
    · exact List.mem_cons_of_mem _ (filed.seen d old)
    · cases List.mem_singleton.mp fresh; exact List.mem_cons_self
  · intro sk i found
    rcases slots sk i found with old | ⟨rfl,slot,thin⟩
    · obtain ⟨d,at',fits⟩ := filed.slotted sk i old
      exact ⟨d,by simpa only [appendEntry,List.getElem?_append_left (List.getElem?_eq_some_iff.mp at').1] using at',fits⟩
    · exact ⟨y,by simp [appendEntry],slot,thin⟩
  · intro d inside sk slot thin
    rcases List.mem_append.mp inside with old | fresh
    · exact kept sk (.inl (filed.slots d old sk slot thin))
    · cases List.mem_singleton.mp fresh; exact kept sk (.inr ⟨slot,thin⟩)
  · intro sk
    rw [show (appendEntry y _).filled = filled from rfl,full,filed.filled]
    simp only [appendEntry,List.mem_append,List.mem_singleton]
    constructor
    · rintro (⟨d,inside,fits⟩ | fits)
      · exact ⟨d,.inl inside,fits⟩
      · exact ⟨y,.inr rfl,fits⟩
    · rintro ⟨d,inside | rfl,fits⟩
      · exact .inl ⟨d,inside,fits⟩
      · exact .inr fits

theorem Linked.filed (linked : Linked final m) : Filed m := ⟨linked.seen,linked.slotted,linked.slots,linked.filled⟩

theorem append_linked (linked : Linked final m) (slots : ∀ sk i, slot.get sk = some i →
      (m.emptySlot.get sk = some i ∨ i = m.entries.length ∧ slotKey y = some sk ∧ bare y))
    (kept : ∀ sk, (∃ i, m.emptySlot.get sk = some i) ∨ slotKey y = some sk ∧ bare y → ∃ i, slot.get sk = some i)
    (full : ∀ sk, sk ∈ filled ↔ sk ∈ m.filled ∨ slotKey y = some sk ∧ ¬ bare y) :
    Linked final (appendEntry y {m with emptySlot := slot,filled := filled}) := by
  have filed := append_filed linked.filed slots kept full
  refine ⟨filed.seen,?_,filed.slotted,filed.slots,filed.filled⟩
  intro k inside
  rcases List.mem_cons.mp inside with rfl | old
  · exact .inl (by simp [appendEntry])
  · simp only [appendEntry,List.map_append]
    exact (linked.known k old).imp (List.mem_append_left _) fun ⟨absent,f,inf,rest⟩ =>
      ⟨absent,f,List.mem_append_left _ inf,rest⟩

theorem set_mem (keys : (entries.map (·.key)).Nodup) (at' : entries[i]? = some d) (e : TimelineEntryVM ρ) :
    e ∈ entries.set i y ↔ e = y ∨ e ∈ entries ∧ e.key ≠ d.key := by
  rw [set_swap keys at',List.mem_map]
  constructor
  · rintro ⟨a,ina,rfl⟩
    rcases swap_cases d y a with ⟨_,eq⟩ | ⟨apart,eq⟩ <;> rw [eq]
    · exact .inl rfl
    · exact .inr ⟨ina,apart⟩
  · rintro (rfl | ⟨ine,apart⟩)
    · exact ⟨d,List.mem_of_getElem? at',if_pos rfl⟩
    · exact ⟨e,ine,if_neg apart⟩

theorem upgrade_filed (filed : Filed m) (keys : (m.entries.map (·.key)).Nodup) (at' : m.entries[i]? = some d)
    (thin : bare d) (slot : slotKey d = some sk) (mine : slotKey y = some sk) (full : ¬ bare y) :
    Filed (upgradeEntry y sk i {m with filled := sk :: m.filled}) := by
  have mem := fun e => set_mem (y := y) keys at' e
  have ind : d ∈ m.entries := List.mem_of_getElem? at'
  refine ⟨?_,?_,?_,?_⟩
  · intro e inside
    rcases (mem e).mp inside with rfl | ⟨old,_⟩
    · exact List.mem_cons_self
    · exact List.mem_cons_of_mem _ (filed.seen e old)
  · intro sk' j found
    simp only [upgradeEntry,Dict.get_erase] at found
    split at found
    · cases found
    · rename_i differs
      obtain ⟨e,ate,slot',thin'⟩ := filed.slotted sk' j found
      refine ⟨e,?_,slot',thin'⟩
      have apart : i ≠ j := by
        rintro rfl
        cases at'.symm.trans ate
        exact differs (Option.some.inj (slot'.symm.trans slot))
      simp only [upgradeEntry]
      rw [List.getElem?_set_ne apart]
      exact ate
  · intro e inside sk' slot' thin'
    rcases (mem e).mp inside with rfl | ⟨old,apart⟩
    · exact absurd thin' full
    · simp only [upgradeEntry,Dict.get_erase]
      have differs : sk' ≠ sk := by
        rintro rfl
        exact apart (bare_key thin' thin (slotKey_slot.mp (slot'.trans slot.symm)))
      rw [if_neg differs]
      exact filed.slots e old sk' slot' thin'
  · intro sk'
    simp only [upgradeEntry,List.mem_cons,filed.filled]
    constructor
    · rintro (rfl | ⟨e,ine,slot',full'⟩)
      · exact ⟨y,(mem y).mpr (.inl rfl),mine,full⟩
      · refine ⟨e,(mem e).mpr (.inr ⟨ine,fun same => ?_⟩),slot',full'⟩
        exact full' (key_same keys ine ind same ▸ thin)
    · rintro ⟨e,inside,slot',full'⟩
      rcases (mem e).mp inside with rfl | ⟨old,_⟩
      · exact .inl (Option.some.inj (slot'.symm.trans mine))
      · exact .inr ⟨e,old,slot',full'⟩

theorem upgrade_linked (linked : Linked final m) (keys : (m.entries.map (·.key)).Nodup) (at' : m.entries[i]? = some d)
    (thin : bare d) (slot : slotKey d = some sk) (mine : slotKey y = some sk) (full : ¬ bare y)
    (gone : d.key ∉ final.map (·.key)) (inf : y ∈ final) (dsh : y.origin = .dsh) (outside : d ∉ final) :
    Linked final (upgradeEntry y sk i {m with filled := sk :: m.filled}) := by
  have filed := upgrade_filed linked.filed keys at' thin slot mine full
  have mem := fun e => set_mem (y := y) keys at' e
  have ind : d ∈ m.entries := List.mem_of_getElem? at'
  refine ⟨filed.seen,?_,filed.slotted,filed.slots,filed.filled⟩
  intro k inside
  rcases List.mem_cons.mp inside with rfl | old
  · exact .inl (List.mem_map.mpr ⟨y,(mem y).mpr (.inl rfl),rfl⟩)
  · rcases linked.known k old with present | absent
    · obtain ⟨e,ine,rfl⟩ := List.mem_map.mp present
      by_cases same : e.key = d.key
      · exact .inr ⟨same ▸ gone,y,(mem y).mpr (.inl rfl),inf,dsh,full,d,thin,same.symm,slotKey_slot.mp (slot.trans mine.symm)⟩
      · exact .inl (List.mem_map.mpr ⟨e,(mem e).mpr (.inr ⟨ine,same⟩),rfl⟩)
    · obtain ⟨absent,f,present,ffinal,rest⟩ := absent
      have differs : f.key ≠ d.key := fun same => outside (key_same keys present ind same ▸ ffinal)
      exact .inr ⟨absent,f,(mem f).mpr (.inr ⟨present,differs⟩),ffinal,rest⟩

theorem waiting_slots {slots : Dict String Nat} {length : Nat} (slot : slotKey y = some sk) (thin : bare y) (sk' : String)
    (i : Nat) (found : (slots.set sk length).get sk' = some i) :
    slots.get sk' = some i ∨ i = length ∧ slotKey y = some sk' ∧ bare y := by
  rw [Dict.get_set] at found
  split at found
  · rename_i same
    cases found
    exact .inr ⟨rfl,same ▸ slot,thin⟩
  · exact .inl found

theorem waiting_kept {slots : Dict String Nat} {length : Nat} (slot : slotKey y = some sk) (sk' : String)
    (some' : (∃ i, slots.get sk' = some i) ∨ slotKey y = some sk' ∧ bare y) :
    ∃ i, (slots.set sk length).get sk' = some i := by
  rw [Dict.get_set]
  by_cases same : sk' = sk
  · exact ⟨_,if_pos same⟩
  · rw [if_neg same]
    exact some'.resolve_right fun mine => same (Option.some.inj (mine.1.symm.trans slot))

theorem fresh_filled {filled : List String} (slot : slotKey y = some sk) (full : ¬ bare y) (sk' : String) :
    sk' ∈ sk :: filled ↔ sk' ∈ filled ∨ slotKey y = some sk' ∧ ¬ bare y := by
  simp only [List.mem_cons,slot,Option.some.injEq,full,not_false_eq_true,and_true]
  rw [or_comm,eq_comm]

theorem append_progress (ordered : Ordered final) (unique : (final.map (·.key)).Nodup) (held : Partial final m.entries)
    (linked : Linked final m) (fits : Fits final m.entries y) (new : y.key ∉ m.seen)
    (free : ∀ d ∈ m.entries, slotOf d = slotOf y → y.seq.isSome = true → (bare d ↔ bare y))
    (after : Linked final (appendEntry y {m with emptySlot := slot,filled := filled})) :
    Progress final m y (appendEntry y {m with emptySlot := slot,filled := filled}) := by
  refine ⟨?_,after,?_,?_,?_,nofun⟩
  · refine append_partials ordered unique held fits (fun inside => ?_) free
    obtain ⟨d,present,same⟩ := List.mem_map.mp inside
    exact new (same ▸ linked.seen d present)
  · rintro f _ (old | rfl)
    · exact List.mem_append_left _ old
    · exact List.mem_append_right _ (List.mem_singleton_self _)
  · rintro f _ (⟨d,old,places⟩ | places)
    · exact ⟨d,List.mem_append_left _ old,places⟩
    · exact ⟨y,List.mem_append_right _ (List.mem_singleton_self _),places⟩
  · intro d inside
    exact (List.mem_append.mp inside).imp id List.mem_singleton.mp

theorem wire_progress (render : TimelineEntry δ ε → ρ) (w : TimelineEntry δ ε) (ordered : Ordered final)
    (settled : Settled locale final) (held : Partial final m.entries) (linked : Linked final m)
    (fits : Fits final m.entries (normalizeTimelineEntry render w)) :
    Progress final m (normalizeTimelineEntry render w) (mergeWire render m w) := by
  have wired := wire_cases render m w
  generalize normalizeTimelineEntry render w = y at fits wired ⊢
  generalize mergeWire render m w = after at wired ⊢
  cases wired with
  | known seen =>
    refine skip_progress held linked (fun inf => ?_) fun f inf settles =>
      seen_stale ordered held linked inf settles.1 settles.2 seen
    exact gained_of settled.keys held inf
      ((linked.known _ seen).resolve_right fun answered => answered.1 (List.mem_map.mpr ⟨y,inf,rfl⟩))
  | seqless new seq =>
    have unslotted : slotKey y = none := by simp [slotKey,seq]
    refine append_progress ordered settled.keys held linked fits new (fun d _ _ some => by simp [seq] at some) ?_
    exact append_linked linked (fun sk i found => .inl found) (fun sk some => by simpa [unslotted] using some)
      (fun sk => by simp [unslotted])
  | @stale sk _ slot thin filled =>
    obtain ⟨d,present,dslot,full⟩ := (linked.filled sk).mp filled
    refine skip_progress held linked (fun inf => ?_) fun f inf settles =>
      ⟨f,fits.dropped f inf settles.1 d present full (slotKey_slot.mp (dslot.trans slot.symm)),.inl rfl⟩
    obtain ⟨g,ing,places⟩ := held.placed d present
    rcases places with rfl | ⟨⟨_,_,_,also,_⟩,_⟩
    · exact absurd (settled.uniform y inf d ing (slotKey_slot.mp (slot.trans dslot.symm)) thin) full
    · exact absurd also full
  | @waiting sk new slot thin unfilled =>
    refine append_progress ordered settled.keys held linked fits new ?_ ?_
    · intro d present same _
      refine iff_of_true ?_ thin
      by_contra full
      exact unfilled ((linked.filled sk).mpr ⟨d,present,(slotKey_slot.mpr same).trans slot,full⟩)
    · refine append_linked linked ?_ ?_ ?_
      · exact waiting_slots slot thin
      · exact waiting_kept slot
      · simp [thin]
  | @upgrade sk i new slot full found =>
    obtain ⟨d,atd,dslot,dthin⟩ := linked.slotted sk i found
    have present := List.mem_of_getElem? atd
    have new' : y.key ∉ m.entries.map (·.key) := fun inside => by
      obtain ⟨e,ine,same⟩ := List.mem_map.mp inside
      exact new (same ▸ linked.seen e ine)
    obtain ⟨inf,outside,swapped⟩ := upgrade_partials ordered settled held fits new' full present dthin
      (slotKey_slot.mp (dslot.trans slot.symm))
    have set := set_swap (y := y) held.keys atd
    have gone : d.key ∉ final.map (·.key) := by
      obtain ⟨g,ing,places⟩ := held.placed d present
      rcases places with rfl | ⟨_,absent⟩
      · exact absurd ing outside
      · exact absent
    have entries : (upgradeEntry y sk i {m with filled := sk :: m.filled}).entries = m.entries.map (swap d y) := set
    have dsh := fits.upgrade full d present dthin (slotKey_slot.mp (dslot.trans slot.symm))
    refine ⟨entries ▸ swapped,upgrade_linked linked held.keys atd dthin dslot slot full gone inf dsh outside,?_,?_,?_,nofun⟩ <;>
      rw [entries]
    · rintro f inf' (old | rfl)
      · refine List.mem_map.mpr ⟨f,old,if_neg fun same => outside ?_⟩
        exact key_same held.keys old present same ▸ inf'
      · exact List.mem_map.mpr ⟨d,present,if_pos rfl⟩
    · rintro f inf' (⟨e,old,places⟩ | places)
      · by_cases same : e.key = d.key
        · cases key_same held.keys old present same
          refine ⟨y,List.mem_map.mpr ⟨d,present,if_pos rfl⟩,.inl ?_⟩
          rcases places with rfl | ⟨⟨_,fdsh,slot',_,ffull⟩,_⟩
          · exact absurd inf' outside
          · have seqs := slot_seq ((slotKey_slot.mp (slot.trans dslot.symm)).trans slot')
            exact ordered.single y inf f inf' dsh fdsh (slotKey_some slot) seqs full ffull
        · exact ⟨e,List.mem_map.mpr ⟨e,old,if_neg same⟩,places⟩
      · exact ⟨y,List.mem_map.mpr ⟨d,present,if_pos rfl⟩,places⟩
    · intro e inside
      obtain ⟨x,inx,rfl⟩ := List.mem_map.mp inside
      rcases swap_cases d y x with ⟨_,eq⟩ | ⟨_,eq⟩ <;> rw [eq]
      · exact .inr rfl
      · exact .inl inx
  | @fresh sk new slot full unslotted =>
    refine append_progress ordered settled.keys held linked fits new ?_ ?_
    · intro d present same _
      refine iff_of_false (fun dthin => ?_) full
      obtain ⟨i,found⟩ := linked.slots d present sk ((slotKey_slot.mpr same).trans slot) dthin
      rw [unslotted] at found; cases found
    · refine append_linked linked (fun sk' i found => .inl found) ?_ (fresh_filled slot full)
      exact fun sk' some => some.resolve_right fun mine => full mine.2

end AgentSideCar.Timeline
