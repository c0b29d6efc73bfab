import Mathlib.Algebra.Group.Nat.Defs
import Mathlib.Algebra.GroupWithZero.Nat
import Mathlib.Data.List.Basic
import Mathlib.Data.List.Nodup
import Mathlib.Data.List.Infix
import Mathlib.Data.List.DropRight

namespace AgentSideCar

-- Trees by what stands directly under a node, which is of lesser rank.
structure Branches (α : Type) where
  children : α → List α
  rank : α → Nat
  below : ∀ node, ∀ child ∈ children node, rank child < rank node

namespace Branches
variable {α γ : Type}

def total (b : Branches α) (f : α → Nat) (node : α) : Nat :=
  f node + ((b.children node).attach.map fun child => b.total f child.1).sum
termination_by b.rank node
decreasing_by exact b.below node child.1 child.2

theorem total_split (b : Branches α) (f : α → Nat) (node : α) :
    b.total f node = f node + ((b.children node).map (b.total f)).sum := by
  rw [total,List.map_attach_eq_pmap,List.pmap_eq_map]

-- What holds of a node where it stands, and of all under it; `down` tells where they stand.
inductive Every (b : Branches α) (down : γ → α → γ) (p : γ → α → Prop) : γ → α → Prop where
  | node : p place node → (∀ child ∈ b.children node, b.Every down p (down place node) child) → b.Every down p place node

theorem every_split {b : Branches α} {down : γ → α → γ} {p : γ → α → Prop} :
    b.Every down p place node ↔ p place node ∧ ∀ child ∈ b.children node, b.Every down p (down place node) child := by
  constructor
  · intro all
    cases all with
    | node own later => exact ⟨own,later⟩
  · intro all
    exact .node all.1 all.2

theorem induct (b : Branches α) {P : α → Prop} (step : ∀ node, (∀ child ∈ b.children node, P child) → P node) (node : α) : P node := by
  induction height : b.rank node using Nat.strongRecOn generalizing node with
  | ind n ih => exact step node fun child inside => ih (b.rank child) (height ▸ b.below node child inside) child rfl

end Branches

variable {ε : Type}

-- Trees over one set of nodes. A node's chain is the way up to its root, the
-- node itself first; `order` holds every node that hangs under another, in
-- document order within its tree.
structure Forest (ε : Type) where
  chain : ε → List ε
  order : List ε
  self : ∀ e, ∃ above, chain e = e :: above
  nested : ∀ e n, n ∈ chain e → chain n <:+ chain e
  acyclic : ∀ e, (chain e).Nodup
  listed : ∀ e n, n ∈ chain e → n ≠ e → e ∈ order

namespace Forest

def roots : Forest ε where
  chain e := [e]
  order := []
  self e := ⟨[],rfl⟩
  nested e n inside := by cases List.mem_singleton.mp inside; exact List.suffix_refl _
  acyclic e := List.nodup_singleton e
  listed e n inside other := absurd (List.mem_singleton.mp inside) other

def parent (f : Forest ε) (e : ε) : Option ε := (f.chain e).tail.head?

theorem mem_chain (f : Forest ε) (e : ε) : e ∈ f.chain e := by
  obtain ⟨above,same⟩ := f.self e
  rw [same]; exact List.mem_cons_self

theorem parent_inside {f : Forest ε} {e p : ε} (under : f.parent e = some p) : p ∈ f.chain e :=
  List.mem_of_mem_tail (List.mem_of_mem_head? under)

theorem chain_parent {f : Forest ε} {e p : ε} (under : f.parent e = some p) : f.chain e = e :: f.chain p := by
  obtain ⟨above,same⟩ := f.self e
  have heads : above.head? = some p := by simpa [parent,same] using under
  obtain ⟨rest,rfl⟩ : ∃ rest, above = p :: rest := by
    cases above with
    | nil => cases heads
    | cons first rest => cases Option.some.inj heads; exact ⟨rest,rfl⟩
  obtain ⟨q,split⟩ := f.nested e p (parent_inside under)
  obtain ⟨higher,starts⟩ := f.self p
  have distinct := f.acyclic e
  rw [same,starts] at split
  rw [same] at distinct
  rw [same,starts]
  -- The parent stands second, and nothing stands twice.
  cases q with
  | nil => cases split; simp at distinct
  | cons first q =>
    obtain ⟨rfl,tails⟩ := List.cons.inj split
    cases q with
    | nil => rw [← show p :: higher = p :: rest from tails]
    | cons second q =>
      obtain ⟨rfl,later⟩ := List.cons.inj tails
      have again : second ∈ rest := by rw [← later]; simp
      simp [again] at distinct

theorem root_over {f : Forest ε} {e n m : ε} (root : f.chain n = [n]) (there : n ∈ f.chain e) (inside : m ∈ f.chain e) :
    n ∈ f.chain m := by
  obtain ⟨q,split⟩ := f.nested e m inside
  obtain ⟨front,ends⟩ := f.nested e n there
  obtain ⟨above,starts⟩ := f.self m
  have lasts : (f.chain e).getLast? = some n := by rw [← ends,root]; simp
  rw [← split,List.getLast?_append_of_ne_nil _ (by rw [starts]; simp)] at lasts
  exact List.mem_of_getLast? lasts

section Changes
variable [DecidableEq ε]

-- A list down to and with its first `n`.
def upTo (n : ε) (l : List ε) : List ε := l.takeWhile (· ≠ n) ++ [n]

theorem upTo_append {n : ε} {q l : List ε} (apart : n ∉ q) : upTo n (q ++ l) = q ++ upTo n l := by
  have all : ∀ e ∈ q, decide (e ≠ n) = true := fun e inside => decide_eq_true fun same => apart (same ▸ inside)
  rw [upTo,upTo,List.takeWhile_append_of_pos all,List.append_assoc]

theorem upTo_split {n : ε} {l : List ε} (inside : n ∈ l) : ∃ after, l = upTo n l ++ after := by
  induction l with
  | nil => cases inside
  | cons first rest ih =>
    by_cases same : first = n
    · exact ⟨rest,by simp [upTo,same]⟩
    · have later : n ∈ rest := by simpa [Ne.symm same] using inside
      obtain ⟨after,split⟩ := ih later
      exact ⟨after,by simpa [upTo,same] using split⟩

theorem mem_upTo {n m : ε} {l : List ε} (there : n ∈ l) (inside : m ∈ upTo n l) : m ∈ l := by
  obtain ⟨after,split⟩ := upTo_split there
  rw [split]; exact List.mem_append_left _ inside

theorem under_cut {f : Forest ε} {e n m : ε} (there : n ∈ f.chain e) (inside : m ∈ upTo n (f.chain e)) :
    n ∈ f.chain m := by
  obtain ⟨q,split⟩ := f.nested e m (mem_upTo there inside)
  by_contra apart
  have before : n ∈ q := by
    rw [← split] at there
    exact (List.mem_append.mp there).resolve_right apart
  obtain ⟨middle,parts⟩ := upTo_split before
  have distinct := f.acyclic e
  rw [← split] at distinct inside
  have early : m ∈ q := by
    have short : upTo n (q ++ f.chain m) = upTo n q := by
      have stops : ∃ e ∈ q, decide (e ≠ n) = false := ⟨n,before,by simp⟩
      rw [upTo,upTo,List.takeWhile_append,if_neg]
      intro whole
      obtain ⟨e,member,refused⟩ := stops
      have taken := List.takeWhile_eq_self_iff.mp (List.Sublist.eq_of_length (List.takeWhile_sublist _) whole) e member
      rw [taken] at refused; cases refused
    rw [short] at inside
    rw [parts]; exact List.mem_append_left _ inside
  exact List.disjoint_of_nodup_append distinct early (f.mem_chain m)

-- A node is taken from its parent, with all that hangs under it.
def cut (f : Forest ε) (n : ε) : Forest ε where
  chain e := if n ∈ f.chain e then upTo n (f.chain e) else f.chain e
  order := f.order
  self e := by
    obtain ⟨above,same⟩ := f.self e
    split
    · by_cases own : e = n
      · subst own; exact ⟨[],by simp [upTo,same]⟩
      · exact ⟨above.takeWhile (· ≠ n) ++ [n],by simp [upTo,same,own]⟩
    · exact ⟨above,same⟩
  nested e m inside := by
    split at inside
    · rename_i there
      have below := under_cut there inside
      obtain ⟨q,split⟩ := f.nested e m (mem_upTo there inside)
      have distinct := f.acyclic e
      rw [← split] at distinct
      rw [if_pos there,if_pos below,← split,upTo_append fun early => List.disjoint_of_nodup_append distinct early below]
      exact List.suffix_append _ _
    · rename_i away
      have chains := f.nested e m inside
      rw [if_neg away,if_neg fun there => away (chains.subset there)]
      exact chains
  acyclic e := by
    split
    · rename_i there
      obtain ⟨after,split⟩ := upTo_split there
      have distinct := f.acyclic e
      rw [split] at distinct
      exact (List.nodup_append.mp distinct).1
    · exact f.acyclic e
  listed e m inside other := by
    split at inside
    · rename_i there; exact f.listed e m (mem_upTo there inside) other
    · exact f.listed e m inside other

def place (f : Forest ε) (n p : ε) (before : Option ε) : List ε :=
  let moved := n :: f.order.filter fun e => decide (n ∈ f.chain e) && decide (e ≠ n)
  let rest := f.order.filter fun e => !decide (n ∈ f.chain e)
  match before with
  | some r => rest.takeWhile (· ≠ r) ++ moved ++ rest.dropWhile (· ≠ r)
  | none => rest.rdropWhile (fun e => !decide (p ∈ f.chain e)) ++ moved ++ rest.rtakeWhile fun e => !decide (p ∈ f.chain e)

theorem mem_place (f : Forest ε) (n p e : ε) (before : Option ε) : e ∈ f.place n p before ↔ e = n ∨ e ∈ f.order := by
  have shuffled : ∀ {a b moved rest : List ε}, a ++ b = rest → (e ∈ a ++ moved ++ b ↔ e ∈ moved ∨ e ∈ rest) := by
    rintro a b moved rest rfl
    simp only [List.mem_append]
    tauto
  have sorted : e ∈ f.place n p before ↔ e ∈ (n :: f.order.filter fun e => decide (n ∈ f.chain e) && decide (e ≠ n)) ∨
      e ∈ f.order.filter fun e => !decide (n ∈ f.chain e) := by
    cases before with
    | some r => exact shuffled List.takeWhile_append_dropWhile
    | none => exact shuffled List.rdropWhile_append_rtakeWhile
  rw [sorted]
  by_cases same : e = n
  · simp [same]
  · by_cases under : n ∈ f.chain e <;> simp [same,under]

-- A root is hung under a node of another tree.
def hang (f : Forest ε) (n p : ε) (before : Option ε) (root : f.chain n = [n]) (apart : n ∉ f.chain p) : Forest ε where
  chain e := if n ∈ f.chain e then f.chain e ++ f.chain p else f.chain e
  order := f.place n p before
  self e := by
    obtain ⟨above,same⟩ := f.self e
    split
    · exact ⟨above ++ f.chain p,by rw [same,List.cons_append]⟩
    · exact ⟨above,same⟩
  nested e m inside := by
    have outside : ∀ m ∈ f.chain p, n ∉ f.chain m := fun m member there => apart ((f.nested p m member).subset there)
    split at inside
    · rename_i there
      rw [if_pos there]
      cases List.mem_append.mp inside with
      | inl member =>
        obtain ⟨q,split⟩ := f.nested e m member
        rw [if_pos (root_over root there member),← split,List.append_assoc]
        exact List.suffix_append _ _
      | inr member =>
        rw [if_neg (outside m member)]
        exact (f.nested p m member).trans (List.suffix_append _ _)
    · rename_i away
      have chains := f.nested e m inside
      rw [if_neg away,if_neg fun there => away (chains.subset there)]
      exact chains
  acyclic e := by
    split
    · rename_i there
      refine List.nodup_append.mpr ⟨f.acyclic e,f.acyclic p,?_⟩
      rintro m low _ high rfl
      exact apart ((f.nested p m high).subset (root_over root there low))
    · exact f.acyclic e
  listed e m inside other := by
    rw [mem_place]
    split at inside
    · rename_i there
      by_cases same : e = n
      · exact .inl same
      · exact .inr (f.listed e n there (Ne.symm same))
    · exact .inr (f.listed e m inside other)

end Changes
end Forest

namespace Page

-- What an observer is told: the value an attribute had before a write, or the
-- nodes that left and the nodes that came.
inductive Record (ε α ν : Type) where
  | attributes (target : ε) (name : α) (old : Option ν)
  | childList (removed added : List ε)

-- What the observer is still to be told, and the nodes that were taken out
-- since it was last told; these it goes on observing until then.
structure Observer (ε α ν : Type) where
  records : List (Record ε α ν) := []
  transient : List ε := []

end Page

structure Page (ε α ν : Type) where
  forest : Forest ε
  root : ε
  attr : ε → α → Option ν
  observer : Option (Page.Observer ε α ν)

namespace Page
variable {α ν : Type} [DecidableEq ε]

def within (p : Page ε α ν) (e : ε) : Bool := decide (p.root ∈ p.forest.chain e)

def observed (p : Page ε α ν) (e : ε) : Bool :=
  match p.observer with
  | none => false
  | some o => p.within e || o.transient.any fun n => decide (n ∈ p.forest.chain e)

def note (p : Page ε α ν) (target : ε) (r : Record ε α ν) : Page ε α ν :=
  {p with
    observer := if p.observed target then p.observer.map fun o => {o with records := o.records ++ [r]} else p.observer}

-- A node with all that hangs under it leaves its parent.
def remove (p : Page ε α ν) (n : ε) : Option (Page ε α ν) :=
  match p.forest.parent n with
  | none => none
  | some parent =>
    let noted := p.note parent (.childList [n] [])
    some {noted with
      forest := p.forest.cut n
      observer := noted.observer.map fun o => if p.observed parent then {o with transient := o.transient ++ [n]} else o}

def insert (p : Page ε α ν) (n parent : ε) (before : Option ε) : Option (Page ε α ν) :=
  if fits : p.forest.chain n = [n] ∧ n ∉ p.forest.chain parent ∧ n ≠ p.root ∧
      before.all fun r => p.forest.parent r = some parent then
    some {p.note parent (.childList [] [n]) with forest := p.forest.hang n parent before fits.1 fits.2.1}
  else none

theorem observed_within {p : Page ε α ν} {o : Observer ε α ν} {e : ε} (on : p.observer = some o)
    (inside : p.within e = true) : p.observed e = true := by simp [observed,on,inside]

theorem observed_iff {p : Page ε α ν} {e : ε} : p.observed e = true ↔
    ∃ o, p.observer = some o ∧ ∃ n ∈ p.forest.chain e, n = p.root ∨ n ∈ o.transient := by
  unfold observed
  cases p.observer with
  | none => simp
  | some o =>
    simp only [within,Bool.or_eq_true,decide_eq_true_eq,List.any_eq_true,Option.some.injEq,exists_eq_left']
    constructor
    · rintro (inside | ⟨n,left,inside⟩)
      · exact ⟨p.root,inside,.inl rfl⟩
      · exact ⟨n,inside,.inr left⟩
    · rintro ⟨n,inside,rfl | left⟩
      · exact .inl inside
      · exact .inr ⟨n,left,inside⟩

theorem note_observer (p : Page ε α ν) (target : ε) (r : Record ε α ν) (o : Observer ε α ν) (on : p.observer = some o) :
    ∃ records, (p.note target r).observer = some {o with records := records} := by
  simp only [note,on,Option.map_some]
  split
  · exact ⟨_,rfl⟩
  · exact ⟨o.records,rfl⟩

theorem note_observed (p : Page ε α ν) (target : ε) (r : Record ε α ν) (e : ε) :
    (p.note target r).observed e = p.observed e := by
  cases on : p.observer with
  | none => simp [observed,note,on]
  | some o =>
    obtain ⟨records,told⟩ := p.note_observer target r o on
    have same : (p.note target r).within e = p.within e := rfl
    simp only [observed,told,on,same]
    rfl

-- What is observed stays so when nodes leave, since these are observed on their own until the observer is told.
theorem remove_observed {p after : Page ε α ν} {n e : ε} (left : p.remove n = some after) (seen : p.observed e = true) :
    after.observed e = true := by
  unfold remove at left
  split at left
  · cases left
  rename_i parent under
  cases Option.some.inj left
  obtain ⟨o,on,m,above,kind⟩ := observed_iff.mp seen
  obtain ⟨records,told⟩ := p.note_observer parent (.childList [n] []) o on
  rw [observed_iff]
  simp only [told,Option.map_some,Option.some.injEq,exists_eq_left',Forest.cut]
  by_cases there : n ∈ p.forest.chain e
  · rw [if_pos there]
    by_cases kept : m ∈ Forest.upTo n (p.forest.chain e)
    · refine ⟨m,kept,kind.imp (fun h => h) fun transient => ?_⟩
      split
      · exact List.mem_append_left _ transient
      · exact transient
    · -- The observed ancestor is above the cut, so the parent was observed too.
      have upper : m ∈ p.forest.chain parent := by
        obtain ⟨q,split⟩ := p.forest.nested e n there
        have distinct := p.forest.acyclic e
        rw [Forest.chain_parent under] at split
        rw [← split] at above distinct kept
        have early : n ∉ q := fun early => List.disjoint_of_nodup_append distinct early List.mem_cons_self
        rw [Forest.upTo_append early] at kept
        simp only [Forest.upTo,List.mem_append,List.mem_cons,List.takeWhile_cons,ne_eq,not_true,decide_false,
          Bool.false_eq_true,if_false,List.nil_append] at kept above
        tauto
      have watched : p.observed parent = true := observed_iff.mpr ⟨o,on,m,upper,kind⟩
      refine ⟨n,by simp [Forest.upTo],.inr ?_⟩
      simp [watched]
  · rw [if_neg there]
    refine ⟨m,above,kind.imp (fun h => h) fun transient => ?_⟩
    split
    · exact List.mem_append_left _ transient
    · exact transient

theorem insert_observed {p after : Page ε α ν} {n parent e : ε} {before : Option ε}
    (came : p.insert n parent before = some after) (seen : p.observed e = true) : after.observed e = true := by
  unfold insert at came
  split at came
  · rename_i fits
    cases Option.some.inj came
    obtain ⟨o,on,m,above,kind⟩ := observed_iff.mp seen
    obtain ⟨records,told⟩ := p.note_observer parent (.childList [] [n]) o on
    refine observed_iff.mpr ⟨_,told,m,?_,kind⟩
    show m ∈ if n ∈ p.forest.chain e then _ else _
    split
    · exact List.mem_append_left _ above
    · exact above
  · cases came

section Attributes
variable [DecidableEq α]

-- An attribute is set, or removed; to remove what is not there changes nothing.
def write (p : Page ε α ν) (e : ε) (a : α) (v : Option ν) : Page ε α ν :=
  if v.isNone && (p.attr e a).isNone then p
  else {p.note e (.attributes e a (p.attr e a)) with
    attr := fun e' a' => if e' = e ∧ a' = a then v else p.attr e' a'}

def Record.about (e : ε) (a : α) : Record ε α ν → Option (Option ν)
  | .attributes target name old => if target = e ∧ name = a then some old else none
  | .childList _ _ => none

-- The values an attribute had before the writes the observer is still to be told of.
def undelivered (p : Page ε α ν) (e : ε) (a : α) : List (Option ν) :=
  match p.observer with
  | none => []
  | some o => o.records.filterMap (Record.about e a)

theorem note_undelivered (p : Page ε α ν) (target : ε) (r : Record ε α ν) (e : ε) (a : α) :
    (p.note target r).undelivered e a =
      p.undelivered e a ++ if p.observed target then (r.about e a).toList else [] := by
  unfold note undelivered
  cases on : p.observer with
  | none => simp [observed,on]
  | some o =>
    cases p.observed target with
    | false => simp
    | true =>
      simp only [if_true,Option.map_some,List.filterMap_append,List.filterMap_cons,List.filterMap_nil]
      cases r.about e a <;> rfl

theorem write_attr (p : Page ε α ν) (e : ε) (a : α) (v : Option ν) (e' : ε) (a' : α) :
    (p.write e a v).attr e' a' = if e' = e ∧ a' = a then v else p.attr e' a' := by
  unfold write
  split
  · rename_i absent
    split
    · rename_i same
      obtain ⟨rfl,rfl⟩ := same
      simp only [Bool.and_eq_true,Option.isNone_iff_eq_none] at absent
      rw [absent.1,absent.2]
    · rfl
  · rfl

theorem write_observed (p : Page ε α ν) (e : ε) (a : α) (v : Option ν) (e' : ε) :
    (p.write e a v).observed e' = p.observed e' := by
  unfold write
  split
  · rfl
  · exact p.note_observed e (.attributes e a (p.attr e a)) e'

theorem write_undelivered (p : Page ε α ν) (e : ε) (a : α) (v : Option ν) (e' : ε) (a' : α) :
    (p.write e a v).undelivered e' a' = p.undelivered e' a' ++
      if (e' = e ∧ a' = a) ∧ p.observed e = true ∧ ¬(v = none ∧ p.attr e a = none) then [p.attr e a] else [] := by
  unfold write
  split
  · rename_i absent
    simp only [Bool.and_eq_true,Option.isNone_iff_eq_none] at absent
    simp [absent]
  · rename_i present
    simp only [Bool.and_eq_true,Option.isNone_iff_eq_none] at present
    rw [show Page.undelivered {p.note e (.attributes e a (p.attr e a)) with
      attr := fun e' a' => if e' = e ∧ a' = a then v else p.attr e' a'} e' a' =
      (p.note e (.attributes e a (p.attr e a))).undelivered e' a' from rfl,note_undelivered]
    by_cases same : e' = e ∧ a' = a
    · obtain ⟨rfl,rfl⟩ := same
      simp [Record.about,present]
    · have other : ¬(e = e' ∧ a = a') := fun h => same ⟨h.1.symm,h.2.symm⟩
      simp [Record.about,same,other]

theorem remove_frame {p after : Page ε α ν} {n : ε} (left : p.remove n = some after) (e : ε) (a : α) :
    after.attr e a = p.attr e a ∧ after.undelivered e a = p.undelivered e a ∧ after.root = p.root := by
  unfold remove at left
  split at left
  · cases left
  rename_i parent under
  cases Option.some.inj left
  refine ⟨rfl,?_,rfl⟩
  have same := p.note_undelivered parent (.childList [n] []) e a
  simp only [Record.about,Option.toList_none,ite_self,List.append_nil] at same
  rw [← same]
  unfold undelivered
  cases (p.note parent (.childList [n] [])).observer with
  | none => rfl
  | some o => simp only [Option.map_some]; split <;> rfl

theorem insert_frame {p after : Page ε α ν} {n parent : ε} {before : Option ε}
    (came : p.insert n parent before = some after) (e : ε) (a : α) :
    after.attr e a = p.attr e a ∧ after.undelivered e a = p.undelivered e a ∧ after.root = p.root := by
  unfold insert at came
  split at came
  · cases Option.some.inj came
    refine ⟨rfl,?_,rfl⟩
    have same := p.note_undelivered parent (.childList [] [n]) e a
    simp only [Record.about,Option.toList_none,ite_self,List.append_nil] at same
    exact same
  · cases came

end Attributes
end Page
end AgentSideCar
