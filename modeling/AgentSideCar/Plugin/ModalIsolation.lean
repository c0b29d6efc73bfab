import AgentSideCar.Library.Borrow
import AgentSideCar.Library.Dict
import AgentSideCar.Library.Page
import AgentSideCar.Library.Runs

namespace AgentSideCar.ModalIsolation
variable {ε : Type} [DecidableEq ε]

inductive IsolatedAttribute where
  | inert
  | ariaHidden
deriving DecidableEq

open IsolatedAttribute

abbrev Key (ε : Type) := ε × IsolatedAttribute

-- An attribute is present exactly when it has a value, so the value alone is a snapshot.
abbrev AttributeSnapshot := Option String

abbrev AttributeLease := Borrow.Loan AttributeSnapshot

-- `dialog` is a match of DIALOG_SELECTOR, `html` an HTMLElement, `current` what a ref points at.
structure Dom (ε : Type) where
  page : Page ε IsolatedAttribute String
  hidden : ε → Bool
  dialog : ε → Bool
  html : ε → Bool
  current : Nat → Option ε

-- The frames of the stack keep their dialog only: opener, focus and the
-- generations steer where the focus goes, and no attribute depends on that.
structure ModalIsolationState (ε : Type) where
  owner : Nat
  surfaceRef : Nat
  dialogStack : List ε := []
  topDialog : Option ε := none
  leases : Dict (Key ε) AttributeLease := .empty
  contested : List (Key ε) := []
  pendingMutations : Dict (Key ε) (List (Option String)) := .empty

structure Isolation (ε : Type) where
  dom : Dom ε
  state : ModalIsolationState ε

abbrev MutationRecord (ε : Type) := Page.Record ε IsolatedAttribute String

namespace Isolation

def snapshotAttribute (r : Isolation ε) (k : Key ε) : AttributeSnapshot := r.dom.page.attr k.1 k.2

def leaseFor (r : Isolation ε) (k : Key ε) : Option AttributeLease := r.state.leases.get k

def ownsAttribute (r : Isolation ε) (k : Key ε) : Bool :=
  match r.leaseFor k with
  | some lease => decide (r.snapshotAttribute k = lease.written)
  | none => false

def markContested (r : Isolation ε) (k : Key ε) : Isolation ε :=
  {r with
    state := {r.state with
      contested := if k ∈ r.state.contested then r.state.contested else r.state.contested ++ [k]
      leases := r.state.leases.erase k}}

def auditLease (r : Isolation ε) (k : Key ε) : Isolation ε :=
  match r.leaseFor k with
  | some lease => if r.snapshotAttribute k ≠ lease.written then r.markContested k else r
  | none => r

def auditLeases (r : Isolation ε) : Isolation ε := r.state.leases.keys.foldl auditLease r

def pending (r : Isolation ε) (k : Key ε) : List (Option String) := (r.state.pendingMutations.get k).getD []

def notePendingMutation (r : Isolation ε) (k : Key ε) (old : Option String) : Isolation ε :=
  {r with state := {r.state with pendingMutations := r.state.pendingMutations.set k (r.pending k ++ [old])}}

def consumePendingMutation (r : Isolation ε) (k : Key ε) (old : Option String) : Option (Isolation ε) :=
  match r.pending k with
  | [] => none
  | first :: rest =>
    if first ≠ old then none
    else some {r with
      state := {r.state with
        pendingMutations := if rest = [] then r.state.pendingMutations.erase k else r.state.pendingMutations.set k rest}}

def processOldValue (r : Isolation ε) (k : Key ε) (old : Option String) : Isolation ε :=
  match r.consumePendingMutation k old with
  | some consumed => consumed
  | none => if (r.leaseFor k).isSome then r.markContested k else r

def processAttributeMutation (r : Isolation ε) : MutationRecord ε → Isolation ε
  | .childList _ _ => r
  | .attributes target name old => if r.dom.html target then r.processOldValue (target,name) old else r

def processAttributeMutations (r : Isolation ε) (mutations : List (MutationRecord ε)) : Isolation ε :=
  mutations.foldl processAttributeMutation r

def contains (r : Isolation ε) (node e : ε) : Bool := decide (node ∈ r.dom.page.forest.chain e)

def reinsertedBy (r : Isolation ε) (seen : List ε × List ε) : MutationRecord ε → List ε × List ε
  | .attributes _ _ _ => seen
  | .childList removedNodes addedNodes =>
    let removed := seen.1 ++ r.state.dialogStack.filter fun dialog => removedNodes.any (r.contains · dialog)
    (removed,seen.2 ++ r.state.dialogStack.filter fun dialog =>
      decide (dialog ∈ removed) && addedNodes.any (r.contains · dialog))

def reinsertedDialogs (r : Isolation ε) (mutations : List (MutationRecord ε)) : List ε :=
  (mutations.foldl r.reinsertedBy ([],[])).2

def setAttribute (r : Isolation ε) (k : Key ε) (value : Option String) : Isolation ε :=
  {r with dom := {r.dom with page := r.dom.page.write k.1 k.2 value}}

-- What is written over an attribute, and over which values.
def intended : IsolatedAttribute → Option String
  | .inert => some ""
  | .ariaHidden => some "true"

def writable : IsolatedAttribute → Option String → Bool
  | .inert,original => original.isNone
  | .ariaHidden,original => decide (original ≠ some "true")

-- An own write, noted before it is made.
def overwrite (r : Isolation ε) (k : Key ε) (value : Option String) : Isolation ε :=
  (r.notePendingMutation k (r.snapshotAttribute k)).setAttribute k value

def setLease (r : Isolation ε) (k : Key ε) (lease : AttributeLease) : Isolation ε :=
  {r with state := {r.state with leases := r.state.leases.set k lease}}

def deleteLease (r : Isolation ε) (k : Key ε) : Isolation ε :=
  {r with state := {r.state with leases := r.state.leases.erase k}}

def deleteContested (r : Isolation ε) (k : Key ε) : Isolation ε :=
  {r with state := {r.state with contested := r.state.contested.filter (· ≠ k)}}

def writeOwnedAttribute (r : Isolation ε) (k : Key ε) : Isolation ε :=
  if k ∈ r.state.contested then r
  else match r.leaseFor k with
  | some _ => if r.ownsAttribute k then r else r.markContested k
  | none =>
    if writable k.2 (r.snapshotAttribute k) then
      (r.overwrite k (intended k.2)).setLease k
        ⟨r.snapshotAttribute k,(r.overwrite k (intended k.2)).snapshotAttribute k⟩
    else r

def restoreOwnedAttribute (r : Isolation ε) (k : Key ε) : Isolation ε :=
  match r.leaseFor k with
  | some lease => ((if r.ownsAttribute k then r.overwrite k lease.original else r).deleteLease k).deleteContested k
  | none => r.deleteContested k

def restoreUnless (desired : List (Key ε)) (r : Isolation ε) (k : Key ε) : Isolation ε :=
  if k ∈ desired then r else r.restoreOwnedAttribute k

def syncOwnedAttributes (r : Isolation ε) (desired : List (Key ε)) : Isolation ε :=
  let unleased := r.state.leases.keys.foldl (restoreUnless desired) r
  let restored := unleased.state.contested.foldl (restoreUnless desired) unleased
  desired.foldl writeOwnedAttribute restored

-- The `inert` property reflects the attribute.
def isHiddenOutsideIsolation (r : Isolation ε) (e : ε) : Bool :=
  ((r.dom.page.forest.chain e).takeWhile (· ≠ r.dom.page.root)).any fun current =>
    r.dom.hidden current ||
    (decide (r.snapshotAttribute (current,ariaHidden) = some "true") && !r.ownsAttribute (current,ariaHidden)) ||
    ((r.snapshotAttribute (current,inert)).isSome && !r.ownsAttribute (current,inert))

def closestDialog (r : Isolation ε) (e : ε) : Option ε := (r.dom.page.forest.chain e).find? r.dom.dialog

def collectModalDialogs (r : Isolation ε) : List ε :=
  match (r.dom.current r.state.surfaceRef).bind r.closestDialog with
  | none => []
  | some outer =>
    if !r.dom.page.within outer || r.isHiddenOutsideIsolation outer then []
    else
      let dialogs := r.dom.page.forest.order.filter fun e =>
        r.dom.page.within e && decide (e ≠ r.dom.page.root) && r.dom.dialog e
      (dialogs.dropWhile (· ≠ outer)).filter fun dialog => !r.isHiddenOutsideIsolation dialog

def refreshDialogStack (r : Isolation ε) (reinserted : List ε) : Isolation ε :=
  let dialogs := r.collectModalDialogs
  let open' := r.state.dialogStack.filter fun dialog => decide (dialog ∈ dialogs) && !decide (dialog ∈ reinserted)
  let stack := dialogs.foldl (fun stack dialog => if dialog ∈ stack then stack else stack ++ [dialog]) open'
  {r with state := {r.state with dialogStack := stack, topDialog := stack.getLast?}}

def bodyBranch (r : Isolation ε) (dialog : ε) : Option ε :=
  (r.dom.page.forest.chain dialog).find? fun branch => decide (r.dom.page.forest.parent branch = some r.dom.page.root)

def desiredIsolation (r : Isolation ε) : List (Key ε) :=
  match r.state.topDialog with
  | none => []
  | some top =>
    let children := r.dom.page.forest.order.filter fun child =>
      decide (r.dom.page.forest.parent child = some r.dom.page.root) && r.dom.html child &&
        decide (some child ≠ r.bodyBranch top)
    let frames := r.state.dialogStack.filter fun dialog => !(decide (dialog = top) || r.contains dialog top)
    children.map (·,inert) ++ frames.flatMap fun dialog => [(dialog,inert),(dialog,ariaHidden)]

def readied (r : Isolation ε) (reinserted : List ε) : Isolation ε := r.auditLeases.refreshDialogStack reinserted

def syncIsolation (r : Isolation ε) (reinserted : List ε) : Isolation ε :=
  (r.readied reinserted).syncOwnedAttributes (r.readied reinserted).desiredIsolation

def processMutationBatch (r : Isolation ε) (mutations : List (MutationRecord ε)) : Isolation ε :=
  (r.processAttributeMutations mutations).syncIsolation (r.reinsertedDialogs mutations)

def observe (r : Isolation ε) (observer : Option (Page.Observer ε IsolatedAttribute String)) : Isolation ε :=
  {r with dom := {r.dom with page := {r.dom.page with observer := observer}}}

def takeRecords (r : Isolation ε) : List (MutationRecord ε) :=
  match r.dom.page.observer with
  | none => []
  | some observer => observer.records

def clearPending (r : Isolation ε) : Isolation ε := {r with state := {r.state with pendingMutations := .empty}}

def stopRuntime (r : Isolation ε) : Isolation ε :=
  let stopped := r.observe none
  (if r.takeRecords.isEmpty then stopped else stopped.processMutationBatch r.takeRecords).clearPending

def startRuntime (r : Isolation ε) : Isolation ε := (r.observe (some {})).syncIsolation []

-- The observer's callback is handed all that is recorded; what was taken out
-- of the page is not observed from then on.
def notified (r : Isolation ε) : Isolation ε := (r.observe (some {})).processMutationBatch r.takeRecords

end Isolation

-- The page, and the state that the slot on its body holds.
structure World (ε : Type) where
  dom : Dom ε
  slot : Option (ModalIsolationState ε) := none
  owners : Nat := 0

-- What others do to the page, and the calls that reach the isolation. A dialog
-- opens when an element is inserted, shown or given its role, and closes likewise.
inductive Event (ε : Type) where
  | write (e : ε) (a : IsolatedAttribute) (value : Option String)
  | insert (n parent : ε) (before : Option ε)
  | remove (n : ε)
  | hide (e : ε) (hidden : Bool)
  | role (e : ε) (dialog : Bool)
  | refer (ref : Nat) (e : Option ε)
  | deliver
  | tab
  | attach (surfaceRef : Nat)
  | detach (owner : Nat)

open Isolation

def attachModalIsolation (w : World ε) (surfaceRef : Nat) : World ε :=
  let r : Isolation ε := match w.slot with
    | none => ⟨w.dom,{owner := w.owners, surfaceRef := surfaceRef}⟩
    | some previous =>
      let stopped := stopRuntime ⟨w.dom,previous⟩
      {stopped with state := {stopped.state with owner := w.owners, surfaceRef := surfaceRef}}
  let started := r.startRuntime
  {dom := started.dom, slot := some started.state, owners := w.owners + 1}

def detachModalIsolation (w : World ε) (owner : Nat) : World ε :=
  match w.slot with
  | none => w
  | some state =>
    if state.owner ≠ owner then w
    else {w with
      dom := ((stopRuntime ⟨w.dom,state⟩).auditLeases.syncOwnedAttributes []).dom
      slot := none}

def advance (w : World ε) : Event ε → Option (World ε)
  | .write e a value => some {w with dom := {w.dom with page := w.dom.page.write e a value}}
  | .insert n parent before => (w.dom.page.insert n parent before).map fun page => {w with dom := {w.dom with page := page}}
  | .remove n => (w.dom.page.remove n).map fun page => {w with dom := {w.dom with page := page}}
  | .hide e hidden => some {w with
      dom := {w.dom with hidden := fun e' => if e' = e then hidden else w.dom.hidden e'}}
  | .role e dialog => some {w with
      dom := {w.dom with dialog := fun e' => if e' = e then dialog else w.dom.dialog e'}}
  | .refer ref e => some {w with
      dom := {w.dom with current := fun ref' => if ref' = ref then e else w.dom.current ref'}}
  | .deliver =>
    match w.slot with
    | none => none
    | some state =>
      if (takeRecords ⟨w.dom,state⟩).isEmpty then none
      else some {w with
        dom := (notified ⟨w.dom,state⟩).dom
        slot := some (notified ⟨w.dom,state⟩).state}
  | .tab =>
    match w.slot with
    | none => some w
    | some state => some {w with
        dom := (syncIsolation ⟨w.dom,state⟩ []).dom
        slot := some (syncIsolation ⟨w.dom,state⟩ []).state}
  | .attach surfaceRef => some (attachModalIsolation w surfaceRef)
  | .detach owner => some (detachModalIsolation w owner)

namespace Isolation

-- What the isolation has to do with one attribute of one element.
def cell (r : Isolation ε) (k : Key ε) : Borrow.Cell AttributeSnapshot where
  value := r.snapshotAttribute k
  loan := r.leaseFor k
  contested := decide (k ∈ r.state.contested)
  pending := r.pending k
  recorded := r.dom.page.undelivered k.1 k.2

-- What the isolation's own steps leave of the page.
structure Around (dom after : Dom ε) : Prop where
  forest : after.page.forest = dom.page.forest
  root : after.page.root = dom.page.root
  html : after.html = dom.html
  observed : ∀ e, after.page.observed e = dom.page.observed e

theorem Around.refl (dom : Dom ε) : Around dom dom := ⟨rfl,rfl,rfl,fun _ => rfl⟩

theorem Around.trans {first second third : Dom ε} (early : Around first second) (late : Around second third) :
    Around first third :=
  ⟨late.forest.trans early.forest,late.root.trans early.root,late.html.trans early.html,
    fun e => (late.observed e).trans (early.observed e)⟩

theorem around_foldl {κ : Type} {op : Isolation ε → κ → Isolation ε} (step : ∀ r k, Around r.dom (op r k).dom)
    (keys : List κ) (r : Isolation ε) : Around r.dom (keys.foldl op r).dom := by
  induction keys generalizing r with
  | nil => exact .refl r.dom
  | cons k rest ih => exact (step r k).trans (ih _)

theorem cell_markContested (r : Isolation ε) (k j : Key ε) : (r.markContested k).cell j =
    if j = k then {r.cell k with
      loan := none
      contested := true} else r.cell j := by
  by_cases same : j = k
  · subst same
    rw [if_pos rfl]
    ext1
    · rfl
    · simp [cell,markContested,leaseFor,Dict.get_erase]
    · simp only [cell,markContested]
      split <;> simp_all
    · rfl
    · rfl
  · rw [if_neg same]
    ext1
    · rfl
    · simp [cell,markContested,leaseFor,Dict.get_erase,same]
    · simp only [cell,markContested]
      split <;> simp [same]
    · rfl
    · rfl

theorem cell_auditLease (r : Isolation ε) (k j : Key ε) :
    (r.auditLease k).cell j = if j = k then (r.cell k).audit else r.cell j := by
  have value : (r.cell k).value = r.snapshotAttribute k := rfl
  have loan : (r.cell k).loan = r.leaseFor k := rfl
  unfold auditLease Borrow.Cell.audit
  rw [loan,value]
  cases r.leaseFor k with
  | none => split <;> simp_all
  | some lease =>
    by_cases own : r.snapshotAttribute k = lease.written
    · simp only [own,ne_eq,not_true,if_false,if_true]
      split <;> simp_all
    · simp only [own,ne_eq,not_false_eq_true,if_true,if_false]
      exact r.cell_markContested k j

theorem cell_overwrite (r : Isolation ε) (k j : Key ε) (v : Option String) (real : ¬(v = none ∧ r.snapshotAttribute k = none)) :
    (r.overwrite k v).cell j = if j = k then {r.cell k with
      value := v
      pending := (r.cell k).pending ++ [(r.cell k).value]
      recorded := (r.cell k).recorded ++ if r.dom.page.observed k.1 then [(r.cell k).value] else []} else r.cell j := by
  have values := r.dom.page.write_attr k.1 k.2 v j.1 j.2
  have records := r.dom.page.write_undelivered k.1 k.2 v j.1 j.2
  have told : (r.overwrite k v).pending j = if j = k then r.pending k ++ [r.snapshotAttribute k] else r.pending j := by
    simp only [pending,overwrite,setAttribute,notePendingMutation,Dict.get_set]
    split <;> rfl
  have named : (j.1 = k.1 ∧ j.2 = k.2) ↔ j = k := Prod.ext_iff.symm
  simp only [named] at values records
  by_cases same : j = k
  · subst same
    have real' : ¬(v = none ∧ r.dom.page.attr j.1 j.2 = none) := real
    simp only [true_and,real',not_false_eq_true,and_true,if_true] at values records told ⊢
    ext1
    · exact values
    · rfl
    · rfl
    · exact told
    · exact records
  · simp only [same,false_and,if_false,List.append_nil] at values records told ⊢
    ext1
    · exact values
    · rfl
    · rfl
    · exact told
    · exact records

theorem cell_setLease (r : Isolation ε) (k j : Key ε) (lease : AttributeLease) :
    (r.setLease k lease).cell j = if j = k then {r.cell k with loan := some lease} else r.cell j := by
  have leases : (r.setLease k lease).cell j = {r.cell j with loan := (r.state.leases.set k lease).get j} := rfl
  rw [leases,Dict.get_set]
  by_cases same : j = k
  · simp [same]
  · simp only [same,if_false]; rfl

theorem cell_deleteLease (r : Isolation ε) (k j : Key ε) :
    (r.deleteLease k).cell j = if j = k then {r.cell k with loan := none} else r.cell j := by
  have leases : (r.deleteLease k).cell j = {r.cell j with loan := (r.state.leases.erase k).get j} := rfl
  rw [leases,Dict.get_erase]
  by_cases same : j = k
  · simp [same]
  · simp only [same,if_false]; rfl

theorem cell_deleteContested (r : Isolation ε) (k j : Key ε) :
    (r.deleteContested k).cell j = if j = k then {r.cell k with contested := false} else r.cell j := by
  have names : (r.deleteContested k).cell j =
    {r.cell j with contested := decide (j ∈ r.state.contested.filter (· ≠ k))} := rfl
  rw [names]
  by_cases same : j = k
  · simp [same]
  · simp only [List.mem_filter,same,if_false]
    simp [cell,same]

theorem owns_iff {r : Isolation ε} {k : Key ε} {lease : AttributeLease} (held : r.leaseFor k = some lease) :
    r.ownsAttribute k = decide ((r.cell k).value = lease.written) := by
  simp only [ownsAttribute,held]
  rfl

theorem cell_restoreOwnedAttribute (r : Isolation ε) (k j : Key ε)
    (present : ∀ lease, r.leaseFor k = some lease → lease.written ≠ none) :
    (r.restoreOwnedAttribute k).cell j = if j = k then (r.cell k).giveBack (r.dom.page.observed k.1) else r.cell j := by
  have loan : (r.cell k).loan = r.leaseFor k := rfl
  unfold restoreOwnedAttribute Borrow.Cell.giveBack
  rw [loan]
  cases leased : r.leaseFor k with
  | none => simpa only [loan,leased] using r.cell_deleteContested k j
  | some lease =>
    simp only [owns_iff leased,cell_deleteContested,cell_deleteLease]
    by_cases own : (r.cell k).value = lease.written
    · have real : ¬(lease.original = none ∧ r.snapshotAttribute k = none) := fun absent =>
        present lease leased (own.symm.trans absent.2)
      simp only [own,decide_true,if_true,cell_overwrite r k _ _ real]
      by_cases same : j = k <;> simp [same]
    · simp only [own,decide_false,if_false,Bool.false_eq_true]
      by_cases same : j = k <;> simp [same]

theorem cell_writeOwnedAttribute (r : Isolation ε) (k j : Key ε) :
    (r.writeOwnedAttribute k).cell j =
      if j = k then (r.cell k).borrow (r.dom.page.observed k.1) (intended k.2) (writable k.2) else r.cell j := by
  have loan : (r.cell k).loan = r.leaseFor k := rfl
  have contested : (r.cell k).contested = decide (k ∈ r.state.contested) := rfl
  have value : (r.cell k).value = r.snapshotAttribute k := rfl
  have still : r.cell j = if j = k then r.cell k else r.cell j := by split <;> simp_all
  unfold writeOwnedAttribute Borrow.Cell.borrow
  rw [loan,contested]
  by_cases known : k ∈ r.state.contested
  · simpa only [known,if_true,decide_true] using still
  simp only [known,if_false,decide_false,Bool.false_eq_true]
  cases leased : r.leaseFor k with
  | some lease =>
    simp only [owns_iff leased]
    by_cases own : (r.cell k).value = lease.written
    · simpa only [own,decide_true,if_true] using still
    · simp only [own,decide_false,if_false,Bool.false_eq_true]
      exact r.cell_markContested k j
  | none =>
    by_cases free : writable k.2 (r.cell k).value = true
    · have real : ¬(intended k.2 = none ∧ r.snapshotAttribute k = none) := by
        cases k.2 <;> simp [intended]
      have written := r.cell_overwrite k k (intended k.2) real
      rw [if_pos rfl] at written
      have snapshot : (r.overwrite k (intended k.2)).snapshotAttribute k = intended k.2 :=
        congrArg Borrow.Cell.value written
      simp only [← value,free,if_true,cell_setLease,cell_overwrite r k _ _ real,snapshot]
      have loose : (r.cell k).contested = false := contested.trans (decide_eq_false known)
      by_cases same : j = k <;> simp [same,loose]
    · simpa only [← value,free,if_false,Bool.false_eq_true] using still

-- Own values are written over an attribute, never its absence.
def Present (r : Isolation ε) : Prop := ∀ k lease, (r.cell k).loan = some lease → lease.written ≠ none

theorem around_auditLease (r : Isolation ε) (k : Key ε) : Around r.dom (r.auditLease k).dom := by
  unfold auditLease
  split
  · split <;> exact .refl r.dom
  · exact .refl r.dom

theorem around_overwrite (r : Isolation ε) (k : Key ε) (v : Option String) : Around r.dom (r.overwrite k v).dom where
  forest := by unfold overwrite setAttribute Page.write; split <;> rfl
  root := by unfold overwrite setAttribute Page.write; split <;> rfl
  html := rfl
  observed e := r.dom.page.write_observed k.1 k.2 v e

theorem around_restoreOwnedAttribute (r : Isolation ε) (k : Key ε) : Around r.dom (r.restoreOwnedAttribute k).dom := by
  unfold restoreOwnedAttribute
  split
  · split
    · exact around_overwrite r k _
    · exact .refl r.dom
  · exact .refl r.dom

theorem around_writeOwnedAttribute (r : Isolation ε) (k : Key ε) : Around r.dom (r.writeOwnedAttribute k).dom := by
  unfold writeOwnedAttribute
  split
  · exact .refl r.dom
  · split
    · split <;> exact .refl r.dom
    · split
      · exact around_overwrite r k _
      · exact .refl r.dom

theorem around_restoreUnless (desired : List (Key ε)) (r : Isolation ε) (k : Key ε) :
    Around r.dom (r.restoreUnless desired k).dom := by
  unfold restoreUnless
  split
  · exact .refl r.dom
  · exact around_restoreOwnedAttribute r k

theorem around_syncOwnedAttributes (r : Isolation ε) (desired : List (Key ε)) :
    Around r.dom (r.syncOwnedAttributes desired).dom :=
  ((around_foldl (around_restoreUnless desired) _ r).trans (around_foldl (around_restoreUnless desired) _ _)).trans
    (around_foldl around_writeOwnedAttribute _ _)

theorem around_readied (r : Isolation ε) (reinserted : List ε) : Around r.dom (r.readied reinserted).dom :=
  around_foldl around_auditLease _ r

theorem leased_iff {r : Isolation ε} {k : Key ε} : k ∈ r.state.leases.keys ↔ (r.cell k).loan ≠ none := by
  rw [Dict.mem_keys,← Option.isSome_iff_exists,← Option.ne_none_iff_isSome]
  rfl

theorem cell_auditLeases (r : Isolation ε) (k : Key ε) : r.auditLeases.cell k = (r.cell k).audit := by
  have folded := Borrow.view_foldl (g := fun _ : Isolation ε => True) (v := cell) (h := auditLease)
    (f := fun _ c => c.audit) (fun s k j _ => s.cell_auditLease k j) (fun _ _ h => h) (fun _ _ => Borrow.Cell.audit_twice)
    r.state.leases.keys r trivial k
  by_cases leased : k ∈ r.state.leases.keys
  · exact folded.1 leased
  · have free := leased
    rw [leased_iff,not_not] at free
    rw [Borrow.Cell.audit_free free]
    exact folded.2 leased

theorem cell_readied (r : Isolation ε) (reinserted : List ε) (k : Key ε) :
    (r.readied reinserted).cell k = (r.cell k).audit := r.cell_auditLeases k

-- What one step of a synchronisation does, read over the page it started from.
structure Steady (base r : Isolation ε) : Prop where
  around : Around base.dom r.dom
  present : r.Present

theorem Steady.restoreUnless {base r : Isolation ε} (steady : Steady base r) (desired : List (Key ε)) (k : Key ε) :
    Steady base (r.restoreUnless desired k) := by
  refine ⟨steady.around.trans (around_restoreUnless desired r k),?_⟩
  unfold Isolation.restoreUnless
  split
  · exact steady.present
  · intro j lease held
    rw [r.cell_restoreOwnedAttribute k j fun lease held => steady.present k lease held] at held
    split at held
    · rw [Borrow.Cell.giveBack_loan] at held; cases held
    · exact steady.present j lease held

theorem Steady.writeOwnedAttribute {base r : Isolation ε} (steady : Steady base r) (k : Key ε) :
    Steady base (r.writeOwnedAttribute k) := by
  refine ⟨steady.around.trans (around_writeOwnedAttribute r k),?_⟩
  intro j lease held
  rw [r.cell_writeOwnedAttribute k j] at held
  split at held
  · cases Borrow.Cell.borrow_loan held with
    | inl same => exact steady.present k lease same
    | inr written => rw [written]; cases k.2 <;> simp [intended]
  · exact steady.present j lease held

theorem steady_foldl {base : Isolation ε} {op : Isolation ε → Key ε → Isolation ε}
    (step : ∀ r k, Steady base r → Steady base (op r k)) (keys : List (Key ε)) {r : Isolation ε} (start : Steady base r) :
    Steady base (keys.foldl op r) := by
  induction keys generalizing r with
  | nil => exact start
  | cons k rest ih => exact ih (step r k start)

theorem steady_sync {r : Isolation ε} (present : r.Present) (desired : List (Key ε)) : Steady r (r.syncOwnedAttributes desired) :=
  steady_foldl (fun _ k steady => steady.writeOwnedAttribute k) _
    (steady_foldl (fun _ k steady => steady.restoreUnless desired k) _
      (steady_foldl (fun _ k steady => steady.restoreUnless desired k) _ ⟨.refl r.dom,present⟩))

def released (base : Isolation ε) (desired : List (Key ε)) (k : Key ε) (c : Borrow.Cell AttributeSnapshot) :
    Borrow.Cell AttributeSnapshot :=
  if k ∈ desired then c else c.giveBack (base.dom.page.observed k.1)

theorem cell_restores {base r : Isolation ε} (steady : Steady base r) (desired keys : List (Key ε)) (j : Key ε) :
    (j ∈ keys → (keys.foldl (restoreUnless desired) r).cell j = released base desired j (r.cell j)) ∧
      (j ∉ keys → (keys.foldl (restoreUnless desired) r).cell j = r.cell j) := by
  refine Borrow.view_foldl (g := Steady base) (v := cell) (f := released base desired) ?_
    (fun _ k steady => steady.restoreUnless desired k) ?_ keys r steady j
  · intro s k j steady
    unfold restoreUnless released
    by_cases wanted : k ∈ desired
    · simp only [wanted,if_true]
      split
      · rename_i same; rw [same]
      · rfl
    · simp only [wanted,if_false]
      rw [s.cell_restoreOwnedAttribute k j fun lease held => steady.present k lease held,steady.around.observed]
  · intro k c
    unfold released
    split
    · rfl
    · exact Borrow.Cell.giveBack_twice

theorem cell_syncOwnedAttributes {r : Isolation ε} (present : r.Present) (desired : List (Key ε)) (j : Key ε) :
    (r.syncOwnedAttributes desired).cell j =
      if j ∈ desired then (r.cell j).borrow (r.dom.page.observed j.1) (intended j.2) (writable j.2)
      else (r.cell j).giveBack (r.dom.page.observed j.1) := by
  have start : Steady r r := ⟨.refl r.dom,present⟩
  have first := cell_restores start desired r.state.leases.keys j
  have middle := steady_foldl (fun _ k steady => steady.restoreUnless desired k) r.state.leases.keys start
  have second := cell_restores middle desired (r.state.leases.keys.foldl (restoreUnless desired) r).state.contested j
  have late := steady_foldl (fun _ k steady => steady.restoreUnless desired k)
    (r.state.leases.keys.foldl (restoreUnless desired) r).state.contested middle
  have third := Borrow.view_foldl (g := Steady r) (v := cell) (h := writeOwnedAttribute)
    (f := fun k c => c.borrow (r.dom.page.observed k.1) (intended k.2) (writable k.2))
    (fun s k j steady => by rw [s.cell_writeOwnedAttribute k j,steady.around.observed])
    (fun _ k steady => steady.writeOwnedAttribute k) (fun _ _ => Borrow.Cell.borrow_twice) desired _ late j
  unfold syncOwnedAttributes
  by_cases wanted : j ∈ desired
  · have kept : ∀ c, released r desired j c = c := fun c => if_pos wanted
    simp only [kept] at first second
    rw [third.1 wanted,if_pos wanted,(em _).elim second.1 second.2,(em _).elim first.1 first.2]
  · have given : ∀ c, released r desired j c = c.giveBack (r.dom.page.observed j.1) := fun c => if_neg wanted
    simp only [given] at first second
    rw [third.2 wanted,if_neg wanted]
    by_cases leased : j ∈ r.state.leases.keys
    · have once := first.1 leased
      rw [once,Borrow.Cell.giveBack_twice] at second
      exact (em _).elim second.1 second.2
    · have same := first.2 leased
      have free := leased
      rw [leased_iff,not_not] at free
      by_cases marked : j ∈ (r.state.leases.keys.foldl (restoreUnless desired) r).state.contested
      · rw [second.1 marked,same]
      · have quiet : (r.cell j).contested = false := by
          rw [← same]
          exact decide_eq_false marked
        rw [second.2 marked,same,Borrow.Cell.giveBack_free free quiet]

theorem cell_consume (r : Isolation ε) (k j : Key ε) (old : Option String) :
    (∀ consumed, r.consumePendingMutation k old = some consumed → (r.pending k).head? = some old ∧
      consumed.dom = r.dom ∧ consumed.cell j = if j = k then {r.cell k with pending := (r.pending k).tail} else r.cell j) ∧
    (r.consumePendingMutation k old = none → (r.pending k).head? ≠ some old) := by
  unfold consumePendingMutation
  cases waits : r.pending k with
  | nil => exact ⟨nofun,fun _ => nofun⟩
  | cons first rest =>
    by_cases same : first = old
    · refine ⟨fun consumed found => ?_,fun absent => by simp [same] at absent⟩
      simp only [same,ne_eq,not_true,if_false] at found
      cases Option.some.inj found
      refine ⟨by rw [same]; rfl,rfl,?_⟩
      have told : ((if rest = [] then r.state.pendingMutations.erase k else r.state.pendingMutations.set k rest).get j).getD [] =
          if j = k then rest else r.pending j := by
        by_cases empty : rest = []
        · simp only [empty,if_true,Dict.get_erase]
          split <;> rfl
        · simp only [empty,if_false,Dict.get_set]
          split <;> rfl
      by_cases here : j = k
      · subst here
        simp only [if_true] at told ⊢
        ext1 <;> first | rfl | exact told
      · simp only [here,if_false] at told ⊢
        ext1 <;> first | rfl | exact told
    · refine ⟨fun consumed found => by simp [same] at found,fun _ head => same ?_⟩
      exact Option.some.inj head

theorem cell_processOldValue (r : Isolation ε) (k j : Key ε) (old : Option String) :
    (r.processOldValue k old).dom = r.dom ∧
    (r.processOldValue k old).cell j = if j = k then (r.cell k).hear old else r.cell j := by
  have waits : (r.cell k).pending = r.pending k := rfl
  have loan : (r.cell k).loan = r.leaseFor k := rfl
  have taken := r.cell_consume k j old
  unfold processOldValue Borrow.Cell.hear
  rw [waits,loan]
  cases found : r.consumePendingMutation k old with
  | some consumed =>
    obtain ⟨head,same,cells⟩ := taken.1 consumed found
    simp only [head,if_true]
    exact ⟨same,cells⟩
  | none =>
    simp only [taken.2 found,if_false]
    by_cases leased : (r.leaseFor k).isSome = true
    · simp only [leased,if_true]
      exact ⟨rfl,r.cell_markContested k j⟩
    · simp only [leased,if_false,Bool.false_eq_true]
      refine ⟨trivial,?_⟩
      split <;> simp_all

theorem cell_processAttributeMutation (r : Isolation ε) (mutation : MutationRecord ε) (j : Key ε) :
    (r.processAttributeMutation mutation).dom = r.dom ∧
    (r.processAttributeMutation mutation).cell j =
      match mutation.about j.1 j.2 with
      | some old => if r.dom.html j.1 then (r.cell j).hear old else r.cell j
      | none => r.cell j := by
  cases mutation with
  | childList removed added => exact ⟨rfl,rfl⟩
  | attributes target name old =>
    have heard := r.cell_processOldValue (target,name) j old
    simp only [processAttributeMutation,Page.Record.about]
    by_cases here : j = (target,name)
    · subst here
      split <;> simp_all
    · have other : ¬(target = j.1 ∧ name = j.2) := fun h => here (Prod.ext h.1.symm h.2.symm)
      simp only [here,if_false] at heard
      split <;> simp_all

theorem processed_dom (r : Isolation ε) (mutations : List (MutationRecord ε)) :
    (r.processAttributeMutations mutations).dom = r.dom := by
  unfold processAttributeMutations
  induction mutations generalizing r with
  | nil => rfl
  | cons mutation rest ih =>
    rw [List.foldl_cons,ih]
    cases mutation with
    | childList removed added => rfl
    | attributes target name old => exact (r.cell_processAttributeMutation (.attributes target name old) (target,name)).1

theorem cell_processAttributeMutations (r : Isolation ε) (mutations : List (MutationRecord ε)) (j : Key ε) :
    (r.processAttributeMutations mutations).cell j =
      if r.dom.html j.1 then (mutations.filterMap (Page.Record.about j.1 j.2)).foldl Borrow.Cell.hear (r.cell j)
      else r.cell j := by
  unfold processAttributeMutations
  induction mutations generalizing r with
  | nil => simp
  | cons mutation rest ih =>
    obtain ⟨page,cells⟩ := r.cell_processAttributeMutation mutation j
    rw [List.foldl_cons,ih,page,cells]
    by_cases heeds : r.dom.html j.1 = true
    · cases about : mutation.about j.1 j.2 <;> simp [heeds,about]
    · simp only [heeds,if_false,Bool.false_eq_true]
      split <;> rfl

theorem cell_observe (r : Isolation ε) (records : Option (Page.Observer ε IsolatedAttribute String)) (k : Key ε)
    (fresh : ∀ observer, records = some observer → observer.records = []) :
    (r.observe records).cell k = {r.cell k with recorded := []} := by
  ext1
  · rfl
  · rfl
  · rfl
  · rfl
  · cases records with
    | none => rfl
    | some observer =>
      show observer.records.filterMap _ = []
      rw [fresh observer rfl]; rfl

theorem recorded_taken (r : Isolation ε) (k : Key ε) :
    (r.cell k).recorded = r.takeRecords.filterMap (Page.Record.about k.1 k.2) := by
  show r.dom.page.undelivered k.1 k.2 = _
  unfold Page.undelivered takeRecords
  cases r.dom.page.observer <;> rfl

theorem cell_heard (r : Isolation ε) (records : Option (Page.Observer ε IsolatedAttribute String)) (k : Key ε)
    (fresh : ∀ observer, records = some observer → observer.records = []) :
    ((r.observe records).processAttributeMutations r.takeRecords).cell k = (r.cell k).deliver (r.dom.html k.1) := by
  rw [cell_processAttributeMutations _ _ k,r.cell_observe records k fresh,← recorded_taken]
  rfl

theorem stacked_dialog {r : Isolation ε} {reinserted : List ε} {dialog : ε}
    (stacked : dialog ∈ (r.refreshDialogStack reinserted).state.dialogStack) : dialog ∈ r.collectModalDialogs := by
  have added : ∀ (dialogs stack : List ε), dialog ∈ dialogs.foldl
      (fun stack dialog => if dialog ∈ stack then stack else stack ++ [dialog]) stack → dialog ∈ stack ∨ dialog ∈ dialogs := by
    intro dialogs
    induction dialogs with
    | nil => exact fun stack inside => .inl inside
    | cons first rest ih =>
      intro stack inside
      cases ih _ inside with
      | inr later => exact .inr (List.mem_cons_of_mem _ later)
      | inl early =>
        dsimp only at early
        split at early
        · exact .inl early
        · cases List.mem_append.mp early with
          | inl old => exact .inl old
          | inr new => cases List.mem_singleton.mp new; exact .inr List.mem_cons_self
  cases added _ _ stacked with
  | inl old =>
    have facts := (List.mem_filter.mp old).2
    simp only [Bool.and_eq_true,decide_eq_true_eq] at facts
    exact facts.1
  | inr new => exact new

theorem collected_within {r : Isolation ε} {dialog : ε} (found : dialog ∈ r.collectModalDialogs) :
    r.dom.page.within dialog = true := by
  unfold collectModalDialogs at found
  split at found
  · cases found
  split at found
  · cases found
  have member := (List.dropWhile_sublist _).subset (List.mem_filter.mp found).1
  have facts := (List.mem_filter.mp member).2
  simp only [Bool.and_eq_true] at facts
  exact facts.1.1

-- Only elements of the page are ever to be isolated.
theorem desired_within {r : Isolation ε} {reinserted : List ε} {k : Key ε}
    (wanted : k ∈ (r.refreshDialogStack reinserted).desiredIsolation) : r.dom.page.within k.1 = true := by
  unfold desiredIsolation at wanted
  split at wanted
  · cases wanted
  cases List.mem_append.mp wanted with
  | inl child =>
    obtain ⟨e,listed,rfl⟩ := List.mem_map.mp child
    have facts := (List.mem_filter.mp listed).2
    simp only [Bool.and_eq_true,decide_eq_true_eq] at facts
    exact decide_eq_true (Forest.parent_inside facts.1.1)
  | inr framed =>
    obtain ⟨dialog,listed,pair⟩ := List.mem_flatMap.mp framed
    have inside := collected_within (stacked_dialog (List.mem_filter.mp listed).1)
    simp only [List.mem_cons,List.not_mem_nil,or_false] at pair
    rcases pair with rfl | rfl <;> exact inside

-- Whether a synchronisation writes an attribute itself.
def writesTo (r : Isolation ε) (desired : List (Key ε)) (k : Key ε) : Bool :=
  match r.leaseFor k with
  | some _ => !decide (k ∈ desired) && r.ownsAttribute k
  | none => decide (k ∈ desired) && !decide (k ∈ r.state.contested) && writable k.2 (r.snapshotAttribute k)

-- Each attribute that is about to be written has no record outstanding but
-- those of own writes, and no own write of it went unrecorded.
def expects (r : Isolation ε) (desired : List (Key ε)) : Bool :=
  (r.state.leases.keys ++ desired).all fun k =>
    !r.writesTo desired k || !r.dom.html k.1 || decide (r.dom.page.undelivered k.1 k.2 = r.pending k)

theorem writes_cell (r : Isolation ε) (desired : List (Key ε)) (k : Key ε) :
    (r.cell k).writes (decide (k ∈ desired)) (writable k.2) = r.writesTo desired k := by
  have loan : (r.cell k).loan = r.leaseFor k := rfl
  unfold writesTo Borrow.Cell.writes
  rw [loan]
  cases held : r.leaseFor k with
  | none => rfl
  | some lease => simp only [owns_iff held]

theorem expects_apply {r : Isolation ε} {desired : List (Key ε)} {k : Key ε} (fits : r.expects desired = true)
    (writes : r.writesTo desired k = true) (heeds : r.dom.html k.1 = true) : (r.cell k).recorded = (r.cell k).pending := by
  have named : k ∈ r.state.leases.keys ++ desired := by
    rw [List.mem_append,leased_iff]
    unfold writesTo at writes
    by_cases leased : (r.cell k).loan = none
    · have loan : r.leaseFor k = none := leased
      rw [loan] at writes
      simp only [Bool.and_eq_true,decide_eq_true_eq] at writes
      exact .inr writes.1.1
    · exact .inl leased
  have same : r.dom.page.undelivered k.1 k.2 = r.pending k := by
    simpa [writes,heeds] using List.all_eq_true.mp fits k named
  exact same

-- What the isolation knows against what others left, attribute by attribute.
structure Good (r : Isolation ε) (left : Key ε → Option String) : Prop where
  kept : ∀ k, (r.cell k).Kept (r.dom.html k.1) (left k)
  present : r.Present
  seen : ∀ k, (r.cell k).loan ≠ none → r.dom.page.observed k.1 = true
  watched : ∃ observer, r.dom.page.observer = some observer

variable {r : Isolation ε} {left : Key ε → Option String}

theorem observed_watched {r : Isolation ε} {e : ε} (seen : r.dom.page.observed e = true) :
    ∃ observer, r.dom.page.observer = some observer := by
  obtain ⟨observer,on,_⟩ := Page.observed_iff.mp seen
  exact ⟨observer,on⟩

theorem present_readied (present : r.Present) (reinserted : List ε) : (r.readied reinserted).Present := by
  intro k lease held
  rw [cell_readied] at held
  exact present k lease (Borrow.Cell.audit_loan held)

theorem watched_own {dom : Dom ε} (watched : ∃ observer, r.dom.page.observer = some observer)
    (around : Around r.dom dom) : ∃ observer, dom.page.observer = some observer := by
  obtain ⟨observer,on⟩ := watched
  have seen : dom.page.observed dom.page.root = true := by
    rw [around.observed,around.root]
    exact Page.observed_within on (decide_eq_true (r.dom.page.forest.mem_chain _))
  obtain ⟨after,told,_⟩ := Page.observed_iff.mp seen
  exact ⟨after,told⟩

theorem good_syncOwnedAttributes (kept : ∀ k, (r.cell k).Kept (r.dom.html k.1) (left k)) (present : r.Present)
    (watched : ∃ observer, r.dom.page.observer = some observer) {desired : List (Key ε)}
    (within : ∀ k ∈ desired, r.dom.page.within k.1 = true) (fits : r.expects desired = true) :
    Good (r.syncOwnedAttributes desired) left := by
  have around := around_syncOwnedAttributes r desired
  have cells := cell_syncOwnedAttributes present desired
  obtain ⟨observer,on⟩ := watched
  have seen : ∀ k ∈ desired, r.dom.page.observed k.1 = true := fun k wanted => Page.observed_within on (within k wanted)
  refine ⟨fun k => ?_,(steady_sync present desired).present,fun k leased => ?_,watched_own ⟨observer,on⟩ around⟩
  · have own := expects_apply (k := k) fits
    rw [← writes_cell] at own
    rw [cells,around.html]
    by_cases wanted : k ∈ desired
    · rw [if_pos wanted]
      rw [decide_eq_true wanted] at own
      exact Borrow.Cell.kept_borrow (kept k) (seen k wanted) own
    · rw [if_neg wanted]
      rw [decide_eq_false wanted] at own
      exact Borrow.Cell.kept_giveBack (kept k) own
  · rw [cells] at leased
    rw [around.observed]
    by_cases wanted : k ∈ desired
    · exact seen k wanted
    · rw [if_neg wanted,Borrow.Cell.giveBack_loan] at leased
      exact absurd rfl leased

theorem good_sync (kept : ∀ k, (r.cell k).Kept (r.dom.html k.1) (left k)) (present : r.Present)
    (watched : ∃ observer, r.dom.page.observer = some observer) (reinserted : List ε)
    (fits : (r.readied reinserted).expects (r.readied reinserted).desiredIsolation = true) :
    Good (r.syncIsolation reinserted) left := by
  have around := around_readied r reinserted
  refine good_syncOwnedAttributes (fun k => ?_) (present_readied present reinserted) (watched_own watched around)
    (fun k wanted => desired_within (r := r.auditLeases) wanted) fits
  rw [cell_readied,around.html]
  exact Borrow.Cell.kept_audit (kept k)

theorem present_processed (present : r.Present) (mutations : List (MutationRecord ε)) :
    (r.processAttributeMutations mutations).Present := by
  intro k lease held
  rw [cell_processAttributeMutations r mutations k] at held
  split at held
  · exact present k lease (Borrow.Cell.heard_loan held)
  · exact present k lease held

def reinserted (r : Isolation ε) : List ε := (r.observe (some {})).reinsertedDialogs r.takeRecords

def heard (r : Isolation ε) : Isolation ε := (r.observe (some {})).processAttributeMutations r.takeRecords

theorem good_notified (good : Good r left)
    (fits : (r.heard.readied r.reinserted).expects (r.heard.readied r.reinserted).desiredIsolation = true) :
    Good r.notified left := by
  have page : r.heard.dom = (r.observe (some {})).dom := processed_dom _ _
  have kept : ∀ k, (r.heard.cell k).Kept (r.heard.dom.html k.1) (left k) := by
    intro k
    rw [page,heard,r.cell_heard (some {}) k fun observer same => by cases same; rfl]
    exact (Borrow.Cell.kept_deliver (good.kept k)).1
  exact good_sync kept (present_processed (r := r.observe (some {})) good.present _) ⟨{},by rw [page]; rfl⟩ r.reinserted fits

-- What is left when the runtime stops: nothing is expected and nothing outstanding.
structure Stopped (r : Isolation ε) (left : Key ε → Option String) : Prop where
  kept : ∀ k, (r.cell k).Kept (r.dom.html k.1) (left k)
  present : r.Present
  quiet : ∀ k, (r.cell k).pending = [] ∧ (r.cell k).recorded = []

theorem cell_clearPending (r : Isolation ε) (k : Key ε) : r.clearPending.cell k = {r.cell k with pending := []} := rfl

theorem unwatched_own {dom : Dom ε} (off : r.dom.page.observer = none) (around : Around r.dom dom) :
    dom.page.observer = none := by
  cases on : dom.page.observer with
  | none => rfl
  | some observer =>
    have seen := around.observed dom.page.root
    rw [Page.observed_within on (decide_eq_true (dom.page.forest.mem_chain _)),Page.observed,off] at seen
    cases seen

theorem unwatched_recorded (off : r.dom.page.observer = none) (k : Key ε) : (r.cell k).recorded = [] := by
  show r.dom.page.undelivered k.1 k.2 = []
  unfold Page.undelivered
  rw [off]

theorem stopped_runtime (good : Good r left) : Stopped r.stopRuntime left := by
  show Stopped (clearPending (if r.takeRecords.isEmpty then _ else _)) left
  by_cases empty : r.takeRecords = []
  · rw [if_pos (by rw [empty]; rfl)]
    refine ⟨fun k => ?_,good.present,fun k => ⟨rfl,rfl⟩⟩
    have told : (r.cell k).recorded = [] := by rw [recorded_taken,empty]; rfl
    exact Borrow.Cell.kept_clear (good.kept k) told
  rw [if_neg (by simpa using empty)]
  have page := processed_dom (r.observe none) r.takeRecords
  have settled : ∀ k, Borrow.Cell.Settled (left k) (((r.observe none).processAttributeMutations r.takeRecords).cell k) := by
    intro k
    rw [r.cell_heard none k nofun]
    exact (Borrow.Cell.kept_deliver (good.kept k)).2
  have present := present_processed (r := r.observe none) good.present r.takeRecords
  have off : ((r.observe none).processAttributeMutations r.takeRecords).dom.page.observer = none := by rw [page]; rfl
  unfold processMutationBatch
  generalize (r.observe none).processAttributeMutations r.takeRecords = s at settled present off
  generalize (r.observe none).reinsertedDialogs r.takeRecords = back
  have around := around_readied s back
  have synced := around_syncOwnedAttributes (s.readied back) (s.readied back).desiredIsolation
  have clean : ∀ k, Borrow.Cell.Clean (left k) ((s.syncIsolation back).cell k) := by
    intro k
    have audited : Borrow.Cell.Clean (left k) ((s.readied back).cell k) := by
      rw [cell_readied]; exact Borrow.Cell.settled_audit (settled k)
    rw [syncIsolation,cell_syncOwnedAttributes (present_readied present back)]
    split
    · exact Borrow.Cell.clean_borrow audited
    · exact Borrow.Cell.clean_giveBack audited
  have recorded := unwatched_recorded (unwatched_own off (around.trans synced))
  refine ⟨fun k => ?_,(steady_sync (present_readied present back) _).present,fun k => ⟨rfl,recorded k⟩⟩
  have both : (s.syncIsolation back).clearPending.cell k = {(s.syncIsolation back).cell k with
      pending := []
      recorded := []} := by
    rw [cell_clearPending]
    ext1
    · rfl
    · rfl
    · rfl
    · rfl
    · exact recorded k
  rw [both]
  exact Borrow.Cell.kept_of_clean (clean k)

theorem good_start (stopped : Stopped r left) : Good r.startRuntime left := by
  have cells : ∀ k, (r.observe (some {})).cell k = r.cell k := by
    intro k
    rw [r.cell_observe (some {}) k fun observer same => by cases same; rfl]
    ext1
    · rfl
    · rfl
    · rfl
    · rfl
    · exact (stopped.quiet k).2.symm
  refine good_sync (fun k => ?_) ?_ ⟨{},rfl⟩ [] ?_
  · rw [cells]; exact stopped.kept k
  · exact stopped.present
  · unfold expects
    rw [List.all_eq_true]
    intro k _
    have outstanding := Borrow.Cell.audit_outstanding (c := (r.observe (some {})).cell k)
    rw [← cell_readied _ [],cells,(stopped.quiet k).1,(stopped.quiet k).2] at outstanding
    have same : ((r.observe (some {})).readied []).dom.page.undelivered k.1 k.2 =
        ((r.observe (some {})).readied []).pending k := outstanding.2.trans outstanding.1.symm
    rw [same]
    simp

theorem released_all (stopped : Stopped r left) (k : Key ε) :
    (r.auditLeases.syncOwnedAttributes []).snapshotAttribute k = left k := by
  have present : r.auditLeases.Present := present_readied stopped.present []
  have cells := cell_syncOwnedAttributes present [] k
  rw [if_neg List.not_mem_nil,cell_auditLeases] at cells
  have quiet := Borrow.Cell.audit_outstanding (c := r.cell k)
  rw [(stopped.quiet k).1,(stopped.quiet k).2] at quiet
  have kept := Borrow.Cell.kept_giveBack (s := r.auditLeases.dom.page.observed k.1) (f := fun _ => true)
    (Borrow.Cell.kept_audit (stopped.kept k)) fun _ _ => quiet.2.trans quiet.1.symm
  rw [← cells] at kept
  have free : ((r.auditLeases.syncOwnedAttributes []).cell k).loan = none := by
    rw [cells]; exact Borrow.Cell.giveBack_loan
  unfold Borrow.Cell.Kept at kept
  rw [free] at kept
  exact kept

theorem cell_setAttribute (r : Isolation ε) (k j : Key ε) (v : Option String) (real : ¬(v = none ∧ r.snapshotAttribute k = none)) :
    (r.setAttribute k v).cell j =
      if j = k then (r.cell k).foreign (r.dom.page.observed k.1) v else r.cell j := by
  have values := r.dom.page.write_attr k.1 k.2 v j.1 j.2
  have records := r.dom.page.write_undelivered k.1 k.2 v j.1 j.2
  have named : (j.1 = k.1 ∧ j.2 = k.2) ↔ j = k := Prod.ext_iff.symm
  simp only [named] at values records
  by_cases same : j = k
  · subst same
    have real' : ¬(v = none ∧ r.dom.page.attr j.1 j.2 = none) := real
    simp only [true_and,real',not_false_eq_true,and_true,if_true] at values records ⊢
    ext1
    · exact values
    · rfl
    · rfl
    · rfl
    · exact records
  · simp only [same,false_and,if_false,List.append_nil] at values records ⊢
    ext1
    · exact values
    · rfl
    · rfl
    · rfl
    · exact records

theorem good_foreign (good : Good r left) (k : Key ε) (v : Option String)
    (apart : r.dom.html k.1 = true ∨ ∀ lease, r.leaseFor k = some lease → v ≠ lease.written) :
    Good (r.setAttribute k v) fun j => if j = k then v else left j := by
  by_cases real : v = none ∧ r.snapshotAttribute k = none
  · have same : r.setAttribute k v = r := by
      have page : r.dom.page.write k.1 k.2 v = r.dom.page := by
        have absent : r.dom.page.attr k.1 k.2 = none := real.2
        simp [Page.write,real.1,absent]
      simp only [setAttribute,page]
    have still : left k = none := by
      have kept := good.kept k
      have value : (r.cell k).value = none := real.2
      unfold Borrow.Cell.Kept at kept
      rw [value] at kept
      cases held : (r.cell k).loan with
      | none => rw [held] at kept; exact kept.symm
      | some lease =>
        rw [held] at kept
        cases kept with
        | inl clean => exact absurd clean.1.symm (good.present k lease held)
        | inr touched => exact touched.1.symm
    have unchanged : (fun j => if j = k then v else left j) = left := by
      funext j
      split
      · rename_i here; rw [here,still,real.1]
      · rfl
    rw [same,unchanged]
    exact good
  · have observed := fun e => r.dom.page.write_observed k.1 k.2 v e
    have cells := fun j => r.cell_setAttribute k j v real
    have loans : ∀ j, ((r.setAttribute k v).cell j).loan = (r.cell j).loan := by
      intro j
      rw [cells]
      split
      · rename_i here; rw [here]; rfl
      · rfl
    refine ⟨fun j => ?_,fun j lease held => good.present j lease (loans j ▸ held),fun j leased => ?_,?_⟩
    · rw [cells]
      by_cases here : j = k
      · subst here
        simp only [if_true]
        refine Borrow.Cell.kept_foreign (good.kept j) (fun leased _ => good.seen j ?_) fun lease held deaf => ?_
        · exact Option.ne_none_iff_isSome.mpr leased
        · have deaf' : r.dom.html j.1 = false := deaf
          rw [deaf'] at apart
          exact apart.resolve_left (by simp) lease held
      · simp only [here,if_false]
        exact good.kept j
    · rw [loans] at leased
      exact (observed j.1).trans (good.seen j leased)
    · obtain ⟨observer,on⟩ := good.watched
      exact observed_watched ((observed _).trans (Page.observed_within on (decide_eq_true (r.dom.page.forest.mem_chain _))))

theorem good_moved (good : Good r left) {page : Page ε IsolatedAttribute String}
    (frame : ∀ e a, page.attr e a = r.dom.page.attr e a ∧ page.undelivered e a = r.dom.page.undelivered e a)
    (observed : ∀ e, r.dom.page.observed e = true → page.observed e = true) :
    Good {r with dom := {r.dom with page := page}} left := by
  have cells : ∀ k, cell {r with dom := {r.dom with page := page}} k = r.cell k := by
    intro k
    ext1
    · exact (frame k.1 k.2).1
    · rfl
    · rfl
    · rfl
    · exact (frame k.1 k.2).2
  refine ⟨fun k => ?_,fun k lease held => ?_,fun k leased => ?_,?_⟩
  · rw [cells]; exact good.kept k
  · rw [cells] at held; exact good.present k lease held
  · rw [cells] at leased; exact observed k.1 (good.seen k leased)
  · obtain ⟨observer,on⟩ := good.watched
    exact observed_watched (observed _ (Page.observed_within on (decide_eq_true (r.dom.page.forest.mem_chain _))))

end Isolation

-- The condition on a step: a delivery or a Tab writes no attribute that has a
-- record outstanding of another's write, or an own write that went unrecorded
-- because its element was out of the page. An element that is no HTMLElement
-- is not heard at all; on it no one writes the very value the isolation did.
def careful (w : World ε) : Event ε → Bool
  | .write e a value =>
    w.dom.html e || (w.slot.bind fun state => leaseFor ⟨w.dom,state⟩ (e,a)).all fun lease => decide (value ≠ lease.written)
  | .deliver => w.slot.all fun state =>
    let r := (heard ⟨w.dom,state⟩).readied (reinserted ⟨w.dom,state⟩)
    r.expects r.desiredIsolation
  | .tab => w.slot.all fun state =>
    let r := readied ⟨w.dom,state⟩ []
    r.expects r.desiredIsolation
  | _ => true

-- The value that others last wrote in a run, if any did.
def writtenBy (k : Key ε) : Event ε → Option (Option String)
  | .write e a value => if k = (e,a) then some value else none
  | _ => none

def lastWrite (k : Key ε) (events : List (Event ε)) : Option (Option String) := (events.filterMap (writtenBy k)).getLast?

def Kept (w : World ε) (left : Key ε → Option String) : Prop :=
  match w.slot with
  | none => ∀ k : Key ε, w.dom.page.attr k.1 k.2 = left k
  | some state => Good ⟨w.dom,state⟩ left

theorem kept_write {w : World ε} {left : Key ε → Option String} (kept : Kept w left) (e : ε) (a : IsolatedAttribute)
    (value : Option String) (fits : careful w (.write e a value) = true) :
    Kept {w with dom := {w.dom with page := w.dom.page.write e a value}} fun k => (writtenBy k (.write e a value)).getD (left k) := by
  have same : (fun k => (writtenBy k (.write e a value)).getD (left k)) = fun k => if k = (e,a) then value else left k := by
    funext k
    show (if k = (e,a) then some value else none).getD (left k) = _
    split <;> rfl
  rw [same]
  unfold Kept at kept ⊢
  cases held : w.slot with
  | none =>
    rw [held] at kept
    intro k
    rw [Page.write_attr,kept k]
    by_cases here : k = (e,a)
    · subst here; simp
    · have other : ¬(k.1 = e ∧ k.2 = a) := fun h => here (Prod.ext h.1 h.2)
      simp [here,other]
  | some state =>
    rw [held] at kept
    refine good_foreign kept (e,a) value ?_
    simp only [careful,held,Option.bind_some,Bool.or_eq_true] at fits
    refine fits.imp (fun h => h) fun apart lease leased => ?_
    rw [leased] at apart
    simpa using apart

theorem kept_moved {w : World ε} {left : Key ε → Option String} (kept : Kept w left) {page : Page ε IsolatedAttribute String}
    (frame : ∀ e a, page.attr e a = w.dom.page.attr e a ∧ page.undelivered e a = w.dom.page.undelivered e a)
    (observed : ∀ e, w.dom.page.observed e = true → page.observed e = true) :
    Kept {w with dom := {w.dom with page := page}} left := by
  unfold Kept at kept ⊢
  cases held : w.slot with
  | none =>
    rw [held] at kept
    exact fun k => (frame k.1 k.2).1.trans (kept k)
  | some state =>
    rw [held] at kept
    exact good_moved kept frame observed

theorem kept_shown {w : World ε} {left : Key ε → Option String} (kept : Kept w left) {dom : Dom ε}
    (page : dom.page = w.dom.page) (html : dom.html = w.dom.html) : Kept {w with dom := dom} left := by
  unfold Kept at kept ⊢
  cases held : w.slot with
  | none =>
    rw [held] at kept
    intro k
    show dom.page.attr k.1 k.2 = left k
    rw [page]; exact kept k
  | some state =>
    rw [held] at kept
    have cells : ∀ k, cell ⟨dom,state⟩ k = cell ⟨w.dom,state⟩ k := by
      intro k
      simp only [cell,snapshotAttribute,leaseFor,pending,page]
    refine ⟨fun k => ?_,fun k lease owned => ?_,fun k leased => ?_,?_⟩
    · rw [cells,html]; exact kept.kept k
    · rw [cells] at owned; exact kept.present k lease owned
    · rw [cells] at leased; rw [page]; exact kept.seen k leased
    · rw [page]; exact kept.watched

theorem kept_attach {w : World ε} {left : Key ε → Option String} (kept : Kept w left) (surfaceRef : Nat) :
    Kept (attachModalIsolation w surfaceRef) left := by
  unfold Kept at kept
  cases held : w.slot with
  | none =>
    rw [held] at kept
    have fresh : Stopped (⟨{w.dom with page := {w.dom.page with observer := none}},
        {owner := w.owners, surfaceRef := surfaceRef}⟩ : Isolation ε) left :=
      ⟨kept,nofun,fun k => ⟨rfl,rfl⟩⟩
    have started := good_start fresh
    simp only [Kept,attachModalIsolation,held]
    exact started
  | some previous =>
    rw [held] at kept
    have stopped := stopped_runtime kept
    have renamed : Stopped {stopRuntime ⟨w.dom,previous⟩ with
      state := {(stopRuntime ⟨w.dom,previous⟩).state with
        owner := w.owners
        surfaceRef := surfaceRef}} left := ⟨stopped.kept,stopped.present,stopped.quiet⟩
    have started := good_start renamed
    simp only [Kept,attachModalIsolation,held]
    exact started

theorem kept_detach {w : World ε} {left : Key ε → Option String} (kept : Kept w left) (owner : Nat) :
    Kept (detachModalIsolation w owner) left := by
  unfold detachModalIsolation
  cases held : w.slot with
  | none => exact kept
  | some state =>
    show Kept (if state.owner ≠ owner then w else _) left
    split
    · exact kept
    · unfold Kept at kept
      rw [held] at kept
      exact released_all (stopped_runtime kept)

theorem step_kept {w after : World ε} {left : Key ε → Option String} {event : Event ε} (kept : Kept w left)
    (fits : careful w event = true) (stepped : advance w event = some after) :
    Kept after fun k => (writtenBy k event).getD (left k) := by
  cases event with
  | write e a value =>
    cases Option.some.inj stepped
    exact kept_write kept e a value fits
  | insert n parent before =>
    obtain ⟨page,came,rfl⟩ := Option.map_eq_some_iff.mp stepped
    exact kept_moved kept (fun e a => ⟨(Page.insert_frame came e a).1,(Page.insert_frame came e a).2.1⟩)
      fun e => Page.insert_observed came
  | remove n =>
    obtain ⟨page,went,rfl⟩ := Option.map_eq_some_iff.mp stepped
    exact kept_moved kept (fun e a => ⟨(Page.remove_frame went e a).1,(Page.remove_frame went e a).2.1⟩)
      fun e => Page.remove_observed went
  | hide e hidden => cases Option.some.inj stepped; exact kept_shown kept rfl rfl
  | role e dialog => cases Option.some.inj stepped; exact kept_shown kept rfl rfl
  | refer ref e => cases Option.some.inj stepped; exact kept_shown kept rfl rfl
  | deliver =>
    simp only [advance] at stepped
    split at stepped
    · cases stepped
    rename_i state held
    split at stepped
    · cases stepped
    cases Option.some.inj stepped
    unfold Kept at kept
    rw [held] at kept
    simp only [careful,held,Option.all_some] at fits
    exact good_notified kept fits
  | tab =>
    simp only [advance] at stepped
    split at stepped
    · cases Option.some.inj stepped; exact kept
    rename_i state held
    cases Option.some.inj stepped
    unfold Kept at kept
    rw [held] at kept
    simp only [careful,held,Option.all_some] at fits
    exact good_sync kept.kept kept.present kept.watched [] fits
  | attach surfaceRef => cases Option.some.inj stepped; exact kept_attach kept surfaceRef
  | detach owner => cases Option.some.inj stepped; exact kept_detach kept owner

theorem lastWrite_cons (k : Key ε) (event : Event ε) (rest : List (Event ε)) (value : Option String) :
    (lastWrite k (event :: rest)).getD value = (lastWrite k rest).getD ((writtenBy k event).getD value) := by
  unfold lastWrite
  rw [List.filterMap_cons]
  cases writtenBy k event with
  | none => rfl
  | some own =>
    rw [List.getLast?_cons]
    rfl

theorem run_kept {w after : World ε} {left : Key ε → Option String} {events : List (Event ε)} (kept : Kept w left)
    (path : Runs.Run advance (fun w event => careful w event = true) w events after) :
    Kept after fun k => (lastWrite k events).getD (left k) := by
  induction path generalizing left with
  | nil => exact kept
  | cons fits stepped _ ih =>
    have rest := ih (step_kept kept fits stepped)
    simpa only [← lastWrite_cons] using rest

-- Whenever no isolation is attached, in particular after the last detach, each
-- attribute is what others last wrote, or what it was if they never did.
theorem detached_attributes (dom : Dom ε) {events : List (Event ε)} {after : World ε}
    (path : Runs.Run advance (fun w event => careful w event = true) {dom := dom} events after)
    (detached : after.slot = none) (k : Key ε) :
    (lastWrite k events = none → after.dom.page.attr k.1 k.2 = dom.page.attr k.1 k.2) ∧
    ∀ value, lastWrite k events = some value → after.dom.page.attr k.1 k.2 = value := by
  have start : Kept {dom := dom} fun k => dom.page.attr k.1 k.2 := fun _ => rfl
  have kept := run_kept start path
  unfold Kept at kept
  rw [detached] at kept
  have whole : after.dom.page.attr k.1 k.2 = (lastWrite k events).getD (dom.page.attr k.1 k.2) := kept k
  refine ⟨fun never => ?_,fun value wrote => ?_⟩
  · rw [whole,never]; rfl
  · rw [whole,wrote]; rfl

-- A body (0) with a dialog (1) around the surface (2), and a page (3) beside it.
def demoDom : Dom Nat where
  page := ⟨.roots,0,fun _ _ => none,none⟩
  hidden _ := false
  dialog e := decide (e = 1)
  html _ := true
  current _ := some 2

def demoOpened : List (Event Nat) := [.insert 1 0 none,.insert 2 1 none,.insert 3 0 none,.attach 0,.deliver]

-- The page leaves, comes back before the records are delivered, and is given back.
def demoEvents : List (Event Nat) := demoOpened ++ [.remove 3,.insert 3 0 none,.deliver,.tab,.detach 0]

theorem demo_detached_attributes : ∃ after : World Nat,
    Runs.Run advance (fun w event => careful w event = true) {dom := demoDom} demoEvents after ∧
      after.dom.page.attr 3 .inert = none := by
  have some' : (Runs.follow advance (fun w event => careful w event = true) {dom := demoDom} demoEvents).isSome = true := by
    decide +kernel
  obtain ⟨after,path⟩ := Option.isSome_iff_exists.mp some'
  have closed : (Runs.follow advance (fun w event => careful w event = true) {dom := demoDom} demoEvents).all
      (fun w => w.slot.isNone) = true := by decide +kernel
  rw [path] at closed
  have run := Runs.follow_exact.mp path
  exact ⟨after,run,(detached_attributes demoDom run (by simpa using closed) (3,.inert)).1 rfl⟩

-- The page leaves and the records are delivered, so it is given back unseen;
-- then it comes back. No one but the isolation writes its `inert`, which stays.
def strandedEvents : List (Event Nat) :=
  demoOpened ++ [.remove 3,.deliver,.insert 3 0 none,.deliver,.deliver,.detach 0]

theorem reinserted_element_stays_inert : ∃ after : World Nat,
    Runs.Run advance Runs.Any {dom := demoDom} strandedEvents after ∧ after.slot.isNone = true ∧
      lastWrite (3,.inert) strandedEvents = none ∧ demoDom.page.attr 3 .inert = none ∧
      after.dom.page.attr 3 .inert = some "" := by
  have ends : (Runs.follow advance Runs.Any {dom := demoDom} strandedEvents).map
      (fun w => (w.slot.isNone,w.dom.page.attr 3 .inert)) = some (true,some "") := by decide +kernel
  obtain ⟨after,path,values⟩ := Option.map_eq_some_iff.mp ends
  exact ⟨after,Runs.follow_exact.mp path,congrArg Prod.fst values,rfl,rfl,congrArg Prod.snd values⟩

end AgentSideCar.ModalIsolation
