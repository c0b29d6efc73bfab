import AgentSideCar.Library.Stable
import Mathlib.Algebra.GroupWithZero.Nat
import Mathlib.Data.String.Basic

namespace AgentSideCar.Remote
open Stable

def maxHosts : Nat := 256
def maxRows : Nat := 16384
def maxAggregateBytes : Nat := 32 * 1024 * 1024
def maxWorkersLimit : Nat := 6

inductive FailureCode where
  | inventory
  | hostKey
  | auth
  | timeout
  | unreachable
  | pythonTooOld
  | resourceLimit
  | protocol
  | remote
  deriving DecidableEq

structure RemoteHost where
  hostAlias : String
  phase : String
  deriving DecidableEq

structure RemoteFailure where
  host : String
  code : FailureCode
  deriving DecidableEq

-- A row is what json.dumps writes for it with sorted keys, or what it raises instead:
-- RecursionError, or one of TypeError, UnicodeError and ValueError.
inductive Row where
  | text (content : String)
  | tooDeep
  | invalid
  deriving DecidableEq

def Row.content : Row → String
  | .text content => content
  | _ => ""

-- What execute_remote_host does for a host; its failures name the host it was given.
inductive Outcome where
  | raised
  | failed (code : FailureCode)
  | finished (rows : List Row)
  deriving DecidableEq

structure RemoteAggregate where
  rows : List Row
  failures : List RemoteFailure
  hosts : List String
  succeeded : List String
  deriving DecidableEq

inductive RemoteError where
  | invalidWorkers
  | hostLimit
  | duplicateHost
  | invalidAlias
  | duplicateSelected
  | ineligible (name : String)
  deriving DecidableEq

-- str.casefold, and what a row's host, agent and session_id read as.
structure Reading where
  casefold : String → String
  host : Row → String
  agent : Row → String
  sessionId : Row → String

def validAlias (name : String) : Bool :=
  name ≠ "" && name.length ≤ 255 && name.toList.head? ≠ some '-' &&
    name.toList.all fun c => c.isAlphanum || c = '.' || c = '_' || c = '-'

section Aggregate
variable (r : Reading)

def aliasKey (name : String) : String ×ₗ String := toLex (r.casefold name,name)

def sortHosts (hosts : List RemoteHost) : List RemoteHost := sortBy (fun host => aliasKey r host.hostAlias) hosts

def rowSortKey (row : Row) : String ×ₗ String ×ₗ String ×ₗ String :=
  toLex (r.casefold (r.host row),toLex (r.casefold (r.agent row),toLex (r.sessionId row,row.content)))

-- The aliases asked for, by their folded form.
def requestedAliases : List String → List (String × String) → Except RemoteError (List (String × String))
  | [],requested => .ok requested
  | name :: rest,requested =>
    if !validAlias name then .error .invalidAlias
    else if r.casefold name ∈ requested.map Prod.fst then .error .duplicateSelected
    else requestedAliases rest (requested ++ [(r.casefold name,name)])

def selectedHosts (hosts : List RemoteHost) (selected : Option (List String)) : Except RemoteError (List RemoteHost) :=
  if maxHosts < hosts.length then .error .hostLimit
  else
    let aliases := hosts.map fun host => r.casefold host.hostAlias
    if ¬ aliases.Nodup then .error .duplicateHost
    else match selected with
      | none => .ok (sortHosts r hosts)
      | some selected => do
        let requested ← requestedAliases r selected []
        match sortBy (aliasKey r) ((requested.filter fun entry => entry.1 ∉ aliases).map Prod.snd) with
        | missing :: _ => .error (.ineligible missing)
        | [] => .ok (sortHosts r (hosts.filter fun host => r.casefold host.hostAlias ∈ requested.map Prod.fst))

structure Tally where
  rows : List Row := []
  failures : List RemoteFailure := []
  succeeded : List String := []
  successfulCandidates : List String := []
  aggregateRows : Nat := 0
  aggregateBytes : Nat := 2
  aggregateOverflow : Bool := false

-- The first row that does not encode decides how its host fails.
def candidateBytes : List Row → Except FailureCode Nat
  | [] => .ok 0
  | .text content :: rest => (candidateBytes rest).map (content.utf8ByteSize + 1 + ·)
  | .tooDeep :: _ => .error .resourceLimit
  | .invalid :: _ => .error .protocol

def Tally.fail (t : Tally) (host : RemoteHost) (code : FailureCode) : Tally :=
  {t with failures := t.failures ++ [⟨host.hostAlias,code⟩]}

def consume (outcome : Outcome) (host : RemoteHost) (t : Tally) : Tally :=
  match outcome with
  | .raised => t.fail host .remote
  | .failed code => t.fail host code
  | .finished hostRows =>
    match candidateBytes hostRows with
    | .error code => t.fail host code
    | .ok bytes =>
      let t := {t with
        successfulCandidates := t.successfulCandidates ++ [host.hostAlias]
        aggregateRows := t.aggregateRows + hostRows.length
        aggregateBytes := t.aggregateBytes + bytes}
      if maxRows < t.aggregateRows ∨ maxAggregateBytes < t.aggregateBytes then
        {t with aggregateOverflow := true,rows := [],succeeded := []}
      else {t with rows := t.rows ++ hostRows,succeeded := t.succeeded ++ [host.hostAlias]}

-- What an aggregation meets: whether the deadline has passed at a reading of the
-- clock, which futures a wait after that reading finds done, and which are done
-- when the deadline has passed.
structure Weather where
  expired : Nat → Bool
  done : Nat → RemoteHost → Bool
  ready : RemoteHost → Bool

structure Fleet where
  tally : Tally := {}
  futures : List RemoteHost := []
  waiting : List RemoteHost
  clock : Nat := 0

variable (w : Weather) (outcome : RemoteHost → Outcome) (workers : Nat)

def submitLoop : List RemoteHost → Fleet → Fleet
  | [],f => {f with waiting := []}
  | host :: waiting,f =>
    if f.futures.length < workers then
      if w.expired f.clock then {f with waiting := host :: waiting,clock := f.clock + 1}
      else submitLoop waiting {f with futures := f.futures ++ [host],clock := f.clock + 1}
    else {f with waiting := host :: waiting}

def submitAvailable (f : Fleet) : Fleet := submitLoop w workers f.waiting f

def Fleet.pop (f : Fleet) (host : RemoteHost) : Fleet :=
  {f with tally := consume (outcome host) host f.tally,futures := f.futures.erase host}

def takeDone (f : Fleet) (host : RemoteHost) : Fleet := submitAvailable w workers (f.pop outcome host)

-- The flag tells whether the deadline ended the loop.
def waitLoop : Nat → Fleet → Fleet × Bool
  | 0,f => (f,false)
  | fuel+1,f =>
    if f.futures = [] then (f,false)
    else
      let f' := {f with clock := f.clock + 1}
      if w.expired f.clock then (f',true)
      else
        let done := f.futures.filter (w.done f'.clock)
        if done = [] then (f',true)
        else waitLoop fuel ((sortHosts r done).foldl (takeDone w outcome workers) f')

-- The fleet when its loop ends, and the hosts that the deadline cuts off.
def collect (targets : List RemoteHost) : Tally × List RemoteHost :=
  let (f,expired) := waitLoop r w outcome workers (targets.length + 1)
    (submitAvailable w workers {waiting := targets})
  if expired || f.waiting ≠ [] then
    let f := (sortHosts r (f.futures.filter w.ready)).foldl (Fleet.pop outcome) f
    (f.tally,f.futures ++ f.waiting)
  else (f.tally,[])

def report (targets : List RemoteHost) (t : Tally) (cut : List RemoteHost) : RemoteAggregate :=
  let failures := t.failures ++ cut.map (fun host => ⟨host.hostAlias,.timeout⟩) ++
    if t.aggregateOverflow then t.successfulCandidates.map (⟨·,.resourceLimit⟩) else []
  { rows := sortBy (rowSortKey r) t.rows
    failures := sortBy (fun failure => aliasKey r failure.host) failures
    hosts := targets.map (·.hostAlias)
    succeeded := sortBy (aliasKey r) t.succeeded }

def aggregateRemote (maxWorkers : Nat) (hosts : List RemoteHost) (selected : Option (List String)) :
    Except RemoteError RemoteAggregate :=
  if maxWorkers = 0 then .error .invalidWorkers
  else do
    let targets ← selectedHosts r hosts selected
    let (t,cut) := collect r w outcome (min maxWorkers maxWorkersLimit) targets
    .ok (report r targets t cut)

end Aggregate

def admitted : Outcome → Option (List Row × Nat)
  | .finished rows =>
    match candidateBytes rows with
    | .ok bytes => some (rows,bytes)
    | .error _ => none
  | _ => none

def failureCode : Outcome → Option FailureCode
  | .raised => some .remote
  | .failed code => some code
  | .finished rows =>
    match candidateBytes rows with
    | .ok _ => none
    | .error code => some code

section Combined
variable (outcome : RemoteHost → Outcome)

def admissions (answered : List RemoteHost) : List (List Row × Nat) := answered.filterMap fun host => admitted (outcome host)

def candidates (answered : List RemoteHost) : List String :=
  (answered.filter fun host => (admitted (outcome host)).isSome).map (·.hostAlias)

def combinedRows (answered : List RemoteHost) : Nat := ((admissions outcome answered).map (·.1.length)).sum
def combinedBytes (answered : List RemoteHost) : Nat := 2 + ((admissions outcome answered).map Prod.snd).sum

def overflows (answered : List RemoteHost) : Bool :=
  maxRows < combinedRows outcome answered || maxAggregateBytes < combinedBytes outcome answered

-- The tally of some answers, whatever the order in which they came.
def combined (answered : List RemoteHost) : Tally where
  rows := if overflows outcome answered then [] else (admissions outcome answered).flatMap Prod.fst
  failures := answered.filterMap fun host => (failureCode (outcome host)).map (⟨host.hostAlias,·⟩)
  succeeded := if overflows outcome answered then [] else candidates outcome answered
  successfulCandidates := candidates outcome answered
  aggregateRows := combinedRows outcome answered
  aggregateBytes := combinedBytes outcome answered
  aggregateOverflow := overflows outcome answered

variable {outcome}

theorem combined_fails (failed : failureCode (outcome host) = some code) (refused : admitted (outcome host) = none)
    (answered : List RemoteHost) : combined outcome (answered ++ [host]) = (combined outcome answered).fail host code := by
  have same : admissions outcome (answered ++ [host]) = admissions outcome answered := by
    simp [admissions,List.filterMap_append,refused]
  have named : candidates outcome (answered ++ [host]) = candidates outcome answered := by
    simp [candidates,refused]
  have rows : combinedRows outcome (answered ++ [host]) = combinedRows outcome answered := by rw [combinedRows,same]; rfl
  have bytes : combinedBytes outcome (answered ++ [host]) = combinedBytes outcome answered := by rw [combinedBytes,same]; rfl
  have exceeded : overflows outcome (answered ++ [host]) = overflows outcome answered := by rw [overflows,rows,bytes]; rfl
  simp only [combined,Tally.fail,exceeded,rows,bytes,same,named,List.filterMap_append]
  simp [failed]

theorem overflows_snoc (answered : List RemoteHost) (host : RemoteHost) (exceeded : overflows outcome answered = true) :
    overflows outcome (answered ++ [host]) = true := by
  have rows : combinedRows outcome answered ≤ combinedRows outcome (answered ++ [host]) := by
    simp [combinedRows,admissions,List.filterMap_append]
  have bytes : combinedBytes outcome answered ≤ combinedBytes outcome (answered ++ [host]) := by
    simp [combinedBytes,admissions,List.filterMap_append]
  simp only [overflows,Bool.or_eq_true,decide_eq_true_eq] at exceeded ⊢
  omega

theorem combined_admits (accepted : admitted (outcome host) = some (rows,bytes)) (fine : failureCode (outcome host) = none)
    (answered : List RemoteHost) : combined outcome (answered ++ [host]) =
      let t := {combined outcome answered with
        successfulCandidates := (combined outcome answered).successfulCandidates ++ [host.hostAlias]
        aggregateRows := (combined outcome answered).aggregateRows + rows.length
        aggregateBytes := (combined outcome answered).aggregateBytes + bytes}
      if maxRows < t.aggregateRows ∨ maxAggregateBytes < t.aggregateBytes then
        {t with aggregateOverflow := true,rows := [],succeeded := []}
      else {t with rows := t.rows ++ rows,succeeded := t.succeeded ++ [host.hostAlias]} := by
  have total : combinedRows outcome (answered ++ [host]) = combinedRows outcome answered + rows.length := by
    simp [combinedRows,admissions,List.filterMap_append,accepted]
  have size : combinedBytes outcome (answered ++ [host]) = combinedBytes outcome answered + bytes := by
    simp [combinedBytes,admissions,List.filterMap_append,accepted,Nat.add_assoc]
  have named : candidates outcome (answered ++ [host]) = candidates outcome answered ++ [host.hostAlias] := by
    simp [candidates,accepted]
  have failed : (answered ++ [host]).filterMap (fun host => (failureCode (outcome host)).map (RemoteFailure.mk host.hostAlias ·)) =
      answered.filterMap fun host => (failureCode (outcome host)).map (RemoteFailure.mk host.hostAlias ·) := by
    simp [List.filterMap_append,fine]
  have gathered : (admissions outcome (answered ++ [host])).flatMap Prod.fst =
      (admissions outcome answered).flatMap Prod.fst ++ rows := by
    simp [admissions,List.filterMap_append,accepted]
  simp only
  by_cases exceeded : overflows outcome (answered ++ [host]) = true
  · have exceeds : maxRows < combinedRows outcome answered + rows.length ∨
        maxAggregateBytes < combinedBytes outcome answered + bytes := by
      rw [← total,← size]
      simpa [overflows] using exceeded
    rw [if_pos (by exact exceeds),combined,if_pos exceeded,if_pos exceeded,total,size,named,failed,exceeded]
    rfl
  · have within : ¬ (maxRows < combinedRows outcome answered + rows.length ∨
        maxAggregateBytes < combinedBytes outcome answered + bytes) := by
      rw [← total,← size]
      simpa [overflows] using exceeded
    have before : overflows outcome answered = false := by
      cases already : overflows outcome answered with
      | false => rfl
      | true => exact absurd (overflows_snoc answered host already) exceeded
    rw [if_neg (by exact within),combined,if_neg exceeded,if_neg exceeded,total,size,named,failed,gathered]
    simp [combined,before,exceeded]

theorem consume_combined (host : RemoteHost) (answered : List RemoteHost) :
    consume (outcome host) host (combined outcome answered) = combined outcome (answered ++ [host]) := by
  cases answer : outcome host with
  | raised => exact (combined_fails (by rw [answer]; rfl) (by rw [answer]; rfl) answered).symm
  | failed code => exact (combined_fails (by rw [answer]; rfl) (by rw [answer]; rfl) answered).symm
  | finished rows =>
    cases encoded : candidateBytes rows with
    | error code =>
      rw [consume,encoded]
      exact (combined_fails (by rw [answer,failureCode,encoded]) (by rw [answer,admitted,encoded]) answered).symm
    | ok bytes =>
      rw [consume,encoded]
      exact (combined_admits (by rw [answer,admitted,encoded]) (by rw [answer,failureCode,encoded]) answered).symm

end Combined

-- Each target has answered, is in flight or waits.
structure Accounts (outcome : RemoteHost → Outcome) (targets answered : List RemoteHost) (f : Fleet) : Prop where
  tally : f.tally = combined outcome answered
  all : (answered ++ (f.futures ++ f.waiting)).Perm targets

variable {r : Reading} {w : Weather} {outcome : RemoteHost → Outcome} {workers : Nat} {targets answered : List RemoteHost}

variable (w workers) in
theorem submitLoop_keeps (waiting : List RemoteHost) (f : Fleet) : ∃ begun,
    (submitLoop w workers waiting f).tally = f.tally ∧ (submitLoop w workers waiting f).futures = f.futures ++ begun ∧
    begun ++ (submitLoop w workers waiting f).waiting = waiting := by
  induction waiting generalizing f with
  | nil => exact ⟨[],rfl,by simp [submitLoop],rfl⟩
  | cons host waiting ih =>
    rw [submitLoop]
    split
    · split
      · exact ⟨[],rfl,by simp,rfl⟩
      · obtain ⟨begun,tally,futures,rest⟩ := ih {f with futures := f.futures ++ [host],clock := f.clock + 1}
        exact ⟨host :: begun,tally,by rw [futures,List.append_assoc]; rfl,by rw [List.cons_append,rest]⟩
    · exact ⟨[],rfl,by simp,rfl⟩

variable (w workers) in
theorem submit_accounts (accounts : Accounts outcome targets answered f) :
    Accounts outcome targets answered (submitAvailable w workers f) ∧
      ∀ host ∈ f.futures, host ∈ (submitAvailable w workers f).futures := by
  obtain ⟨begun,tally,futures,rest⟩ := submitLoop_keeps w workers f.waiting f
  rw [submitAvailable]
  refine ⟨⟨tally.trans accounts.tally,?_⟩,fun host inside => by rw [futures]; exact List.mem_append_left _ inside⟩
  rw [futures,List.append_assoc,rest]
  exact accounts.all

theorem pop_accounts (accounts : Accounts outcome targets answered f) (flying : host ∈ f.futures) :
    Accounts outcome targets (answered ++ [host]) (f.pop outcome host) := by
  refine ⟨?_,?_⟩
  · rw [Fleet.pop,accounts.tally,consume_combined]
  · apply List.Perm.trans ?_ accounts.all
    rw [List.append_assoc]
    refine List.Perm.append_left answered ?_
    exact (List.perm_cons_erase flying).symm.append_right f.waiting

theorem takeDone_accounts (accounts : Accounts outcome targets answered f) (flying : host ∈ f.futures) :
    Accounts outcome targets (answered ++ [host]) (takeDone w outcome workers f host) ∧
      ∀ other ∈ f.futures, other ≠ host → other ∈ (takeDone w outcome workers f host).futures := by
  obtain ⟨submitted,kept⟩ := submit_accounts w _ (pop_accounts accounts flying)
  exact ⟨submitted,fun other inside apart => kept other ((List.mem_erase_of_ne apart).mpr inside)⟩

variable (w workers) in
theorem takeAll_accounts (accounts : Accounts outcome targets answered f) (done : List RemoteHost) (once : done.Nodup)
    (flying : ∀ host ∈ done, host ∈ f.futures) :
    Accounts outcome targets (answered ++ done) (done.foldl (takeDone w outcome workers) f) := by
  induction done generalizing f answered with
  | nil => simpa using accounts
  | cons host rest ih =>
    obtain ⟨fresh,once⟩ := List.nodup_cons.mp once
    obtain ⟨taken,kept⟩ := takeDone_accounts accounts (flying host List.mem_cons_self)
    have later := ih taken once fun other inside =>
      kept other (flying other (List.mem_cons_of_mem _ inside)) (ne_of_mem_of_not_mem inside fresh)
    simpa using later

theorem popAll_accounts (accounts : Accounts outcome targets answered f) (ready : List RemoteHost) (once : ready.Nodup)
    (flying : ∀ host ∈ ready, host ∈ f.futures) :
    Accounts outcome targets (answered ++ ready) (ready.foldl (Fleet.pop outcome) f) := by
  induction ready generalizing f answered with
  | nil => simpa using accounts
  | cons host rest ih =>
    obtain ⟨fresh,once⟩ := List.nodup_cons.mp once
    have later := ih (pop_accounts accounts (flying host List.mem_cons_self)) once fun other inside =>
      (List.mem_erase_of_ne (ne_of_mem_of_not_mem inside fresh)).mpr (flying other (List.mem_cons_of_mem _ inside))
    simpa using later

theorem flying_once (distinct : targets.Nodup) (accounts : Accounts outcome targets answered f) : f.futures.Nodup :=
  (List.nodup_append.mp (List.nodup_append.mp (accounts.all.nodup_iff.mpr distinct)).2.1).1

theorem sortHosts_done (futures : List RemoteHost) (once : futures.Nodup) (pick : RemoteHost → Bool) :
    (sortHosts r (futures.filter pick)).Nodup ∧ ∀ host ∈ sortHosts r (futures.filter pick), host ∈ futures :=
  ⟨(sortBy_perm _ _).nodup_iff.mpr (once.filter _),fun _ inside => List.mem_of_mem_filter (sortBy_mem.mp inside)⟩

variable (r w workers) in
theorem waitLoop_accounts (distinct : targets.Nodup) (fuel : Nat) (accounts : Accounts outcome targets answered f)
    (enough : targets.length < fuel + answered.length) : ∃ later,
      Accounts outcome targets later (waitLoop r w outcome workers fuel f).1 ∧
      ((waitLoop r w outcome workers fuel f).2 = false → (waitLoop r w outcome workers fuel f).1.futures = []) := by
  induction fuel generalizing f answered with
  | zero =>
    have := accounts.all.length_eq
    rw [List.length_append] at this
    omega
  | succ fuel ih =>
    rw [waitLoop]
    by_cases none' : f.futures = []
    · rw [if_pos none']
      exact ⟨answered,accounts,fun _ => none'⟩
    rw [if_neg none']
    have clocked : Accounts outcome targets answered {f with clock := f.clock + 1} := ⟨accounts.tally,accounts.all⟩
    simp only
    split
    · exact ⟨answered,clocked,fun stopped => by cases stopped⟩
    split
    · exact ⟨answered,clocked,fun stopped => by cases stopped⟩
    · rename_i some'
      obtain ⟨once,flying⟩ := sortHosts_done (r := r) f.futures (flying_once distinct accounts) (w.done (f.clock + 1))
      have taken := takeAll_accounts w workers clocked _ once flying
      apply ih taken
      have positive := List.length_pos_iff.mpr some'
      have same := (sortBy_perm (fun host : RemoteHost => aliasKey r host.hostAlias)
        (f.futures.filter (w.done (f.clock + 1)))).length_eq
      rw [List.length_append,sortHosts,same]
      omega

variable (r w outcome workers) in
theorem collect_exact (distinct : targets.Nodup) : ∃ answered,
    (collect r w outcome workers targets).1 = combined outcome answered ∧
    (answered ++ (collect r w outcome workers targets).2).Perm targets := by
  have begun : Accounts outcome targets [] {waiting := targets} := ⟨rfl,by simp⟩
  obtain ⟨submitted,_⟩ := submit_accounts w workers begun
  obtain ⟨answered,accounts,ended⟩ := waitLoop_accounts r w workers distinct
    (targets.length + 1) submitted (by simp)
  rw [collect]
  generalize waitLoop r w outcome workers (targets.length + 1) (submitAvailable w workers {waiting := targets}) = ran at *
  simp only
  split
  · obtain ⟨once,flying⟩ := sortHosts_done (r := r) ran.1.futures (flying_once distinct accounts) w.ready
    have swept := popAll_accounts accounts _ once flying
    exact ⟨_,swept.tally,swept.all⟩
  · rename_i whole
    simp only [Bool.or_eq_true,decide_eq_true_eq,not_or,Bool.not_eq_true,not_not] at whole
    refine ⟨answered,accounts.tally,?_⟩
    have all := accounts.all
    rw [ended whole.1,whole.2] at all
    exact all

theorem admitted_or_failed (o : Outcome) : (admitted o).isSome = (failureCode o).isNone := by
  cases o with
  | raised => rfl
  | failed code => rfl
  | finished rows =>
    rw [admitted,failureCode]
    cases candidateBytes rows <;> rfl

theorem answers_split (outcome : RemoteHost → Outcome) (answered : List RemoteHost) :
    (candidates outcome answered ++ (combined outcome answered).failures.map (·.host)).Perm (answered.map (·.hostAlias)) := by
  induction answered with
  | nil => exact .nil
  | cons host rest ih =>
    have either := admitted_or_failed (outcome host)
    simp only [combined,candidates,List.filterMap_cons] at ih ⊢
    cases failed : failureCode (outcome host) with
    | none =>
      rw [failed,Option.isNone_none] at either
      rw [List.filter_cons_of_pos (p := fun host => (admitted (outcome host)).isSome) either]
      exact ih.cons _
    | some code =>
      rw [failed,Option.isNone_some] at either
      rw [List.filter_cons_of_neg (by simp [either])]
      exact List.perm_middle.trans (ih.cons _)

theorem candidateBytes_text (rows : List Row) (encoded : candidateBytes rows = .ok bytes) :
    ∀ row ∈ rows, ∃ content, row = .text content := by
  induction rows generalizing bytes with
  | nil => intro row inside; cases inside
  | cons first rest ih =>
    cases first with
    | tooDeep => cases encoded
    | invalid => cases encoded
    | text content =>
      intro row inside
      rcases List.mem_cons.mp inside with same | later
      · exact ⟨content,same⟩
      · rw [candidateBytes] at encoded
        cases more : candidateBytes rest with
        | error code => rw [more] at encoded; cases encoded
        | ok size => exact ih more row later

theorem admissions_text (outcome : RemoteHost → Outcome) (answered : List RemoteHost) :
    ∀ row ∈ (admissions outcome answered).flatMap Prod.fst, ∃ content, row = .text content := by
  intro row inside
  obtain ⟨⟨rows,bytes⟩,present,held⟩ := List.mem_flatMap.mp inside
  obtain ⟨host,_,accepted⟩ := List.mem_filterMap.mp present
  unfold admitted at accepted
  split at accepted
  · split at accepted
    · cases accepted
      rename_i encoded
      exact candidateBytes_text _ encoded row held
    · cases accepted
  · cases accepted

theorem overflows_perm (perm : answered.Perm other) : overflows outcome answered = overflows outcome other := by
  have rows : combinedRows outcome answered = combinedRows outcome other := ((perm.filterMap _).map _).sum_nat
  have bytes : combinedBytes outcome answered = combinedBytes outcome other :=
    congrArg (2 + ·) ((perm.filterMap _).map _).sum_nat
  rw [overflows,overflows,rows,bytes]

theorem candidates_perm (perm : answered.Perm other) : (candidates outcome answered).Perm (candidates outcome other) :=
  (perm.filter _).map _

theorem admissions_perm (perm : answered.Perm other) :
    ((admissions outcome answered).flatMap Prod.fst).Perm ((admissions outcome other).flatMap Prod.fst) :=
  (perm.filterMap _).flatMap_right _

-- The failures of a report, before they are sorted.
def allFailures (outcome : RemoteHost → Outcome) (answered cut : List RemoteHost) : List RemoteFailure :=
  (combined outcome answered).failures ++ cut.map (fun host => ⟨host.hostAlias,.timeout⟩) ++
    if overflows outcome answered then (candidates outcome answered).map (⟨·,.resourceLimit⟩) else []

theorem allFailures_perm (perm : answered.Perm other) (cuts : cut.Perm otherCut) :
    (allFailures outcome answered cut).Perm (allFailures outcome other otherCut) := by
  refine (((perm.filterMap _).append (cuts.map _)).append ?_)
  rw [overflows_perm perm]
  split
  · exact (candidates_perm perm).map _
  · exact .refl _

theorem reported_once (outcome : RemoteHost → Outcome) (answered cut : List RemoteHost) :
    ((combined outcome answered).succeeded ++ (allFailures outcome answered cut).map (·.host)).Perm
      ((answered ++ cut).map (·.hostAlias)) := by
  have split' := (answers_split outcome answered).append_right (cut.map (·.hostAlias))
  have cutHosts : (cut.map fun host => (⟨host.hostAlias,.timeout⟩ : RemoteFailure)).map (·.host) = cut.map (·.hostAlias) := by
    simp
  rw [allFailures,List.map_append,List.map_append,cutHosts,List.map_append]
  cases exceeded : overflows outcome answered with
  | false =>
    have kept : (combined outcome answered).succeeded = candidates outcome answered := by simp [combined,exceeded]
    rw [kept]
    simpa using split'
  | true =>
    have none' : (combined outcome answered).succeeded = [] := by simp [combined,exceeded]
    have refused : ((candidates outcome answered).map fun name => (⟨name,.resourceLimit⟩ : RemoteFailure)).map (·.host) =
        candidates outcome answered := by
      rw [List.map_map]
      exact List.map_id _
    rw [none',if_pos rfl,refused]
    apply List.Perm.trans ?_ split'
    rw [List.nil_append]
    have last : ((combined outcome answered).failures.map (·.host) ++ cut.map (·.hostAlias) ++ candidates outcome answered).Perm
        (candidates outcome answered ++ ((combined outcome answered).failures.map (·.host) ++ cut.map (·.hostAlias))) :=
      List.perm_append_comm
    rwa [← List.append_assoc (candidates outcome answered)] at last

theorem sortBy_alias (r : Reading) (perm : names.Perm others) : sortBy (aliasKey r) names = sortBy (aliasKey r) others := by
  apply sortBy_congr perm
  intro a _ b _ same
  exact congrArg (fun key : String ×ₗ String => (ofLex key).2) same

theorem sortBy_rows (r : Reading) (perm : rows.Perm others) (texts : ∀ row ∈ rows, ∃ content, row = .text content) :
    sortBy (rowSortKey r) rows = sortBy (rowSortKey r) others := by
  apply sortBy_congr perm
  intro a ina b inb same
  obtain ⟨left,rfl⟩ := texts a ina
  obtain ⟨right,rfl⟩ := texts b inb
  exact congrArg (fun key : String ×ₗ String ×ₗ String ×ₗ String =>
    Row.text (ofLex (ofLex (ofLex key).2).2).2) same

theorem sortBy_failures (r : Reading) {failures others : List RemoteFailure} (perm : failures.Perm others) (once : (failures.map (·.host)).Nodup) :
    sortBy (fun failure => aliasKey r failure.host) failures = sortBy (fun failure => aliasKey r failure.host) others := by
  apply sortBy_congr perm
  intro a ina b inb same
  apply List.inj_on_of_nodup_map once ina inb
  exact congrArg (fun key : String ×ₗ String => (ofLex key).2) same

-- A report depends only on which hosts have answered and which are cut off.
theorem report_perm (r : Reading) (targets : List RemoteHost) (once : ((answered ++ cut).map (·.hostAlias)).Nodup)
    (perm : answered.Perm other) (cuts : cut.Perm otherCut) :
    report r targets (combined outcome answered) cut = report r targets (combined outcome other) otherCut := by
  have hosts := (List.nodup_append.mp ((reported_once outcome answered cut).nodup_iff.mpr once)).2.1
  have exceeded : overflows outcome answered = overflows outcome other := overflows_perm perm
  have failures := sortBy_failures r (allFailures_perm perm cuts) hosts
  have rows : sortBy (rowSortKey r) (combined outcome answered).rows = sortBy (rowSortKey r) (combined outcome other).rows := by
    rw [combined,combined,exceeded]
    split
    · rfl
    · exact sortBy_rows r (admissions_perm perm) (admissions_text outcome answered)
  have succeeded : sortBy (aliasKey r) (combined outcome answered).succeeded =
      sortBy (aliasKey r) (combined outcome other).succeeded := by
    rw [combined,combined,exceeded]
    split
    · rfl
    · exact sortBy_alias r (candidates_perm perm)
  rw [report,report,rows,succeeded]
  exact congrArg (fun failures : List RemoteFailure => (⟨_,failures,_,_⟩ : RemoteAggregate)) failures

theorem sorted_distinct (hosts : List RemoteHost) (once : (hosts.map fun host => r.casefold host.hostAlias).Nodup) :
    ((sortHosts r hosts).map (·.hostAlias)).Nodup := by
  have folded : ((hosts.map (·.hostAlias)).map r.casefold).Nodup := by
    rw [List.map_map]
    exact once
  exact ((sortBy_perm _ hosts).map _).nodup_iff.mpr (List.Nodup.of_map _ folded)

theorem selectedHosts_distinct (chosen : selectedHosts r hosts selected = .ok targets) :
    (targets.map (·.hostAlias)).Nodup := by
  unfold selectedHosts at chosen
  split at chosen
  · cases chosen
  simp only at chosen
  split at chosen
  · cases chosen
  rename_i once
  rw [not_not] at once
  cases selected with
  | none =>
    cases chosen
    exact sorted_distinct hosts once
  | some selected =>
    simp only at chosen
    cases asked : requestedAliases r selected [] with
    | error e => rw [asked] at chosen; cases chosen
    | ok requested =>
      rw [asked] at chosen
      simp only [bind,Except.bind] at chosen
      split at chosen
      · cases chosen
      · cases chosen
        exact sorted_distinct _ (once.sublist (List.filter_sublist.map _))

-- Nothing is late: no reading is past the deadline, and each wait finds a future done.
structure Patient (w : Weather) : Prop where
  early : ∀ clock, w.expired clock = false
  progress : ∀ clock futures, futures ≠ [] → ∃ host ∈ futures, w.done clock host = true

def Full (workers : Nat) (f : Fleet) : Prop := f.waiting = [] ∨ workers ≤ f.futures.length

theorem submitLoop_full (early : ∀ clock, w.expired clock = false) (waiting : List RemoteHost) (f : Fleet) :
    Full workers (submitLoop w workers waiting f) := by
  induction waiting generalizing f with
  | nil => exact .inl rfl
  | cons host waiting ih =>
    rw [submitLoop]
    split
    · rw [early,if_neg (by simp)]
      exact ih _
    · rename_i busy
      exact .inr (by simpa using busy)

theorem takeAll_full (early : ∀ clock, w.expired clock = false) (done : List RemoteHost) (some' : done ≠ []) (f : Fleet) :
    Full workers (done.foldl (takeDone w outcome workers) f) := by
  obtain ⟨before,last,rfl⟩ := (List.eq_nil_or_concat' done).resolve_left some'
  rw [List.foldl_append]
  exact submitLoop_full early _ _

variable (r outcome) in
theorem waitLoop_patient (patient : Patient w) (fuel : Nat) (full : Full workers f) :
    Full workers (waitLoop r w outcome workers fuel f).1 ∧ (waitLoop r w outcome workers fuel f).2 = false := by
  induction fuel generalizing f with
  | zero => exact ⟨full,rfl⟩
  | succ fuel ih =>
    rw [waitLoop]
    by_cases none' : f.futures = []
    · rw [if_pos none']
      exact ⟨full,rfl⟩
    · obtain ⟨host,flying,done⟩ := patient.progress (f.clock + 1) f.futures none'
      have some' : f.futures.filter (w.done (f.clock + 1)) ≠ [] :=
        List.ne_nil_of_mem (List.mem_filter.mpr ⟨flying,done⟩)
      rw [if_neg none']
      simp only [patient.early,Bool.false_eq_true,if_false]
      rw [if_neg some']
      apply ih
      apply takeAll_full patient.early
      intro empty
      exact some' (List.perm_nil.mp ((sortBy_perm _ _).symm.trans (by rw [sortHosts] at empty; rw [empty])))

theorem collect_patient (patient : Patient w) (distinct : targets.Nodup) (positive : 0 < workers) :
    (collect r w outcome workers targets).2 = [] := by
  have begun : Accounts outcome targets [] {waiting := targets} := ⟨rfl,by simp⟩
  obtain ⟨submitted,_⟩ := submit_accounts w workers begun
  have begun_full : Full workers (submitAvailable w workers {waiting := targets}) := submitLoop_full patient.early _ _
  obtain ⟨answered,accounts,ended⟩ := waitLoop_accounts r w workers distinct
    (targets.length + 1) submitted (by simp)
  obtain ⟨full,whole⟩ := waitLoop_patient r outcome patient (targets.length + 1) begun_full
  rw [collect]
  generalize waitLoop r w outcome workers (targets.length + 1) (submitAvailable w workers {waiting := targets}) = ran at *
  have landed := ended whole
  rw [Full,landed,List.length_nil] at full
  have none' : ran.1.waiting = [] := full.resolve_right (by omega)
  simp only [whole,none']
  rfl

-- The hosts that the deadline cuts off, and those that answer before it.
def cutOff (r : Reading) (w : Weather) (outcome : RemoteHost → Outcome) (maxWorkers : Nat) (targets : List RemoteHost) :
    List RemoteHost := (collect r w outcome (min maxWorkers maxWorkersLimit) targets).2

def answering (targets cut : List RemoteHost) : List RemoteHost := targets.filter (· ∉ cut)

theorem answering_perm (distinct : targets.Nodup) (all : (answered ++ cut).Perm targets) :
    answered.Perm (answering targets cut) := by
  obtain ⟨once,_,apart⟩ := List.nodup_append.mp (all.nodup_iff.mpr distinct)
  apply (List.perm_ext_iff_of_nodup once (distinct.filter _)).mpr
  intro host
  rw [List.mem_filter,← all.mem_iff,List.mem_append]
  constructor
  · intro inside
    exact ⟨.inl inside,by simpa using fun late => apart host inside host late rfl⟩
  · intro ⟨either,early⟩
    exact either.resolve_right (by simpa using early)

variable (w outcome) in
theorem aggregateRemote_cut (positive : maxWorkers ≠ 0) (chosen : selectedHosts r hosts selected = .ok targets) :
    aggregateRemote r w outcome maxWorkers hosts selected = .ok (report r targets
      (combined outcome (answering targets (cutOff r w outcome maxWorkers targets)))
      (cutOff r w outcome maxWorkers targets)) ∧
    (answering targets (cutOff r w outcome maxWorkers targets) ++ cutOff r w outcome maxWorkers targets).Perm targets := by
  have distinct := List.Nodup.of_map _ (selectedHosts_distinct chosen)
  obtain ⟨answered,tally,all⟩ := collect_exact r w outcome (min maxWorkers maxWorkersLimit) distinct
  have perm := answering_perm distinct all
  rw [aggregateRemote,if_neg positive,chosen]
  rw [← cutOff] at all perm
  have once : ((answered ++ cutOff r w outcome maxWorkers targets).map (·.hostAlias)).Nodup :=
    (all.map _).nodup_iff.mpr (selectedHosts_distinct chosen)
  refine ⟨?_,(perm.append_right _).symm.trans all⟩
  rw [← report_perm r targets once perm (.refl _),← tally]
  rfl

-- Each target is reported once, as a success or as a failure; a combined budget that
-- overflows leaves no rows and no successes; and only the hosts that the deadline cuts
-- off make a difference, none of them where nothing is late.
theorem aggregate_exact (r : Reading) (w : Weather) (outcome : RemoteHost → Outcome) (positive : maxWorkers ≠ 0)
    (chosen : selectedHosts r hosts selected = .ok targets) :
    ∃ result, aggregateRemote r w outcome maxWorkers hosts selected = .ok result ∧
      result.hosts = targets.map (·.hostAlias) ∧ result.hosts.Nodup ∧
      (result.succeeded ++ result.failures.map (·.host)).Perm result.hosts ∧
      (overflows outcome (answering targets (cutOff r w outcome maxWorkers targets)) = true →
        result.rows = [] ∧ result.succeeded = [] ∧
        ∀ name ∈ candidates outcome (answering targets (cutOff r w outcome maxWorkers targets)),
          ⟨name,.resourceLimit⟩ ∈ result.failures) ∧
      (overflows outcome (answering targets (cutOff r w outcome maxWorkers targets)) = false →
        result.rows.Perm ((admissions outcome (answering targets (cutOff r w outcome maxWorkers targets))).flatMap Prod.fst) ∧
        result.succeeded.Perm (candidates outcome (answering targets (cutOff r w outcome maxWorkers targets)))) ∧
      (∀ w', (∀ host, host ∈ cutOff r w' outcome maxWorkers targets ↔ host ∈ cutOff r w outcome maxWorkers targets) →
        aggregateRemote r w' outcome maxWorkers hosts selected = .ok result) ∧
      (Patient w → cutOff r w outcome maxWorkers targets = []) := by
  have named := selectedHosts_distinct chosen
  have distinct := List.Nodup.of_map _ named
  obtain ⟨reported,all⟩ := aggregateRemote_cut w outcome positive chosen
  refine ⟨_,reported,rfl,named,?_,fun exceeded => ⟨?_,?_,fun name inside => ?_⟩,fun within => ⟨?_,?_⟩,fun w' same => ?_,
    fun patient => collect_patient patient distinct ?_⟩
  · have once := reported_once outcome (answering targets (cutOff r w outcome maxWorkers targets))
      (cutOff r w outcome maxWorkers targets)
    apply List.Perm.trans ?_ (once.trans (all.map _))
    exact (sortBy_perm _ _).append ((sortBy_perm _ _).map _)
  · simp [report,combined,exceeded,sortBy_nil]
  · simp [report,combined,exceeded,sortBy_nil]
  · have late : (⟨name,.resourceLimit⟩ : RemoteFailure) ∈ allFailures outcome
        (answering targets (cutOff r w outcome maxWorkers targets)) (cutOff r w outcome maxWorkers targets) := by
      rw [allFailures,if_pos exceeded]
      exact List.mem_append_right _ (List.mem_map.mpr ⟨name,inside,rfl⟩)
    exact sortBy_mem.mpr late
  · exact (sortBy_perm (rowSortKey r) _).trans (by simp [combined,within])
  · exact (sortBy_perm (aliasKey r) _).trans (by simp [combined,within])
  · obtain ⟨reported',all'⟩ := aggregateRemote_cut w' outcome positive chosen
    have cuts : (cutOff r w' outcome maxWorkers targets).Perm (cutOff r w outcome maxWorkers targets) :=
      (List.perm_ext_iff_of_nodup (List.nodup_append.mp (all'.nodup_iff.mpr distinct)).2.1
        (List.nodup_append.mp (all.nodup_iff.mpr distinct)).2.1).mpr same
    have answers : answering targets (cutOff r w' outcome maxWorkers targets) =
        answering targets (cutOff r w outcome maxWorkers targets) := by
      apply List.filter_congr
      intro host _
      simp [same host]
    rw [reported',report_perm r targets ((all'.map _).nodup_iff.mpr named) (.refl _) cuts,answers]
  · simp only [maxWorkersLimit]
    omega

-- Three hosts, one of them failing; rows are read as naming nothing.
def demoReading : Reading := ⟨id,fun _ => "",fun _ => "",fun _ => ""⟩
def demoHosts : List RemoteHost := [⟨"b","ready"⟩,⟨"a","ready"⟩,⟨"c","ready"⟩]
def demoWeather : Weather := ⟨fun _ => false,fun _ _ => true,fun _ => true⟩
def demoOutcome (host : RemoteHost) : Outcome :=
  if host.hostAlias = "c" then .failed .auth else .finished [.text host.hostAlias]

theorem demoWeather_patient : Patient demoWeather := by
  refine ⟨fun _ => rfl,fun _ futures some' => ?_⟩
  obtain ⟨host,rest,rfl⟩ := List.exists_cons_of_ne_nil some'
  exact ⟨host,List.mem_cons_self,rfl⟩

theorem demo_aggregate : ∃ result, aggregateRemote demoReading demoWeather demoOutcome 4 demoHosts none = .ok result ∧
    result.succeeded.Perm ["b","a"] ∧ (result.succeeded ++ result.failures.map (·.host)).Perm ["b","a","c"] := by
  have chosen : selectedHosts demoReading demoHosts none = .ok (sortHosts demoReading demoHosts) := by
    rw [selectedHosts,if_neg (by decide)]
    exact if_neg (by decide)
  have perm : (sortHosts demoReading demoHosts).Perm demoHosts := sortBy_perm _ _
  obtain ⟨result,reported,hosts,_,once,_,within,_,patient⟩ :=
    aggregate_exact demoReading demoWeather demoOutcome (show 4 ≠ 0 by decide) chosen
  rw [patient demoWeather_patient] at within
  have whole : answering (sortHosts demoReading demoHosts) [] = sortHosts demoReading demoHosts := by simp [answering]
  rw [whole,overflows_perm perm] at within
  refine ⟨result,reported,(within (by decide)).2.trans (candidates_perm perm),?_⟩
  rw [hosts] at once
  exact once.trans (perm.map _)

end AgentSideCar.Remote
