import AgentSideCar.Audit.Steps
import Mathlib.Data.Set.Function

namespace AgentSideCar.Audit

inductive Call where
  | reserve (requestId : String) (identity : AuditIdentity) (now : Clock)
  | appendTerminal (requestId : String) (identity : AuditIdentity) (now : Clock) (terminal : Terminal)

def Call.identity : Call → AuditIdentity
  | .reserve _ identity _ => identity
  | .appendTerminal _ identity _ _ => identity

inductive Reply where
  | reserved (outcome : Except AuditError (Option AuditReceipt))
  | settled (outcome : Except AuditError AuditReceipt)
deriving DecidableEq

def acknowledged (request : String) : Call → Reply → List AuditReceipt
  | .appendTerminal name _ _ _,.settled (.ok receipt) => if name = request then [receipt] else []
  | _,_ => []

section Runs
variable (space : AuditNamespace)

-- A call that no crash interrupts.
def perform (call : Call) (d : Disk) : Disk × Reply :=
  match call with
  | .reserve requestId identity now =>
    let attempt := reserve space requestId identity now d
    (attempt.after,.reserved attempt.outcome)
  | .appendTerminal requestId identity now terminal =>
    let attempt := appendTerminal space requestId identity now terminal d
    (attempt.after,.settled attempt.outcome)

def runCalls (calls : List Call) (d : Disk) : Disk := calls.foldl (fun d call => (perform space call d).1) d

-- The terminals acknowledged for one request along a run.
def receipts (request : String) : List Call → Disk → List AuditReceipt
  | [],_ => []
  | call :: rest,d =>
    acknowledged request call (perform space call d).2 ++ receipts request rest (perform space call d).1

-- What the logs hold for a request when they are next read.
def shown (d : Disk) (request : String) : Option History :=
  match load space d with
  | .ok histories => histories.get request
  | .error _ => none

end Runs

variable {space : AuditNamespace}

def pendingReceipt (request agent : String) : AuditReceipt :=
  {requestId := request, agent := agent, outcome := "request_pending", delivery := "unknown", returncode := none,
   error := some "request_pending"}

-- The store between two calls of a run without crashes.
structure Logs.Settled (space : AuditNamespace) (logs : Logs) : Prop where
  stored : logs.Stored space
  held : Held logs.early logs.current

inductive Settled (space : AuditNamespace) : Disk → Prop where
  | fresh : Settled space emptyDisk
  | opened (logs : Logs) : logs.Settled space → Settled space logs.disk

theorem Logs.Settled.reads {logs : Logs} (settled : logs.Settled space) :
    ∃ histories, load space logs.disk = .ok histories ∧ Reads logs.records histories :=
  load_reads settled.stored settled.held.readable none

theorem sound_nil : Sound space [] := ⟨by simp,by simp,by simp [payload]⟩

theorem first_settled : (⟨none,[]⟩ : Logs).Settled space :=
  ⟨⟨sound_nil,sound_nil⟩,fun _ => ⟨none,none,rfl,rfl,.same none⟩⟩

theorem emptyDisk_shown : shown space emptyDisk request = none := rfl

theorem Logs.Settled.shown_holds {logs : Logs} (settled : logs.Settled space) (request : String) :
    Holds logs.records request (shown space logs.disk request) := by
  obtain ⟨histories,loaded,reads⟩ := settled.reads
  rw [shown,loaded]
  exact reads request

theorem Settled.loads (settled : Settled space d) : ∃ histories, load space d = .ok histories := by
  cases settled with
  | fresh => exact ⟨.empty,rfl⟩
  | opened _ settled => exact settled.reads.imp fun _ => And.left

theorem Settled.opens (settled : Settled space d) : ∃ logs : Logs, logs.Settled space ∧
    (openLogs space d).outcome = .ok () ∧ (openLogs space d).after = logs.disk ∧
    ∀ request, shown space d request = shown space logs.disk request := by
  cases settled with
  | fresh => exact ⟨⟨none,[]⟩,first_settled,rfl,rfl,fun _ => rfl⟩
  | opened logs settled => exact ⟨logs,settled,rfl,rfl,fun _ => rfl⟩

theorem bind_opened {first : Attempt Unit} {k : Disk → Unit → Attempt β} (opened : first.outcome = .ok ()) :
    (first.bind k).after = (k first.after ()).after ∧ (first.bind k).outcome = (k first.after ()).outcome := by
  rw [Attempt.bind,opened]
  exact ⟨rfl,rfl⟩

-- What one call may do to the history of one request, and how it answers for it.
inductive Serves (space : AuditNamespace) (request : String) : Option History → Call → Reply → Option History → Prop where
  | apart (call : Call) (reply : Reply) : Forgets h h' →
      (∀ a now, call ≠ .reserve request a now) →
      (∀ a now t receipt, call = .appendTerminal request a now t → reply ≠ .settled (.ok receipt)) →
      Serves space request h call reply h'
  | refused (a : AuditIdentity) (now : Clock) (error : AuditError) :
      Serves space request none (.reserve request a now) (.reserved (.error error)) none
  | reserved (a : AuditIdentity) (now : Clock) (p : Record) : recordIdentity p = identityTuple a space →
      p.requestId = request → p.agent = a.agent → p.isPending = true →
      Serves space request none (.reserve request a now) (.reserved (.ok none)) (some (.reserved p))
  | replayed (a : AuditIdentity) (now : Clock) (history : History) :
      Serves space request (some history) (.reserve request a now)
        (.reserved (if recordIdentity history.latest = identityTuple a space then .ok (some (receipt history.latest))
          else .error .requestConflict)) (some history)
  | settled (a : AuditIdentity) (now : Clock) (terminal : Terminal) (p t : Record) :
      recordIdentity p = identityTuple a space → recordIdentity t = recordIdentity p →
      Serves space request (some (.reserved p)) (.appendTerminal request a now terminal)
        (.settled (.ok (receipt t))) (some (.settled p t))

theorem Holds.pending_named (holds : Holds records request (some h)) : h.pending.requestId = request := by
  unfold Holds at holds
  have inside : h.pending ∈ ofRequest request records := by
    generalize ofRequest request records = history at holds
    cases holds with
    | reserved => simp [History.pending]
    | settled => simp [History.pending]
  simpa [ofRequest] using (List.mem_filter.mp inside).2

theorem Logs.Settled.valid_name {logs : Logs} (settled : logs.Settled space)
    (holds : Holds logs.records request (some h)) : requestIdRe request = true := by
  have written : Written h.pending := by
    rcases List.mem_append.mp holds.members.1 with inside | inside
    · exact settled.stored.early.written _ inside
    · exact settled.stored.current.written _ inside
  have valid := written.valid
  simp only [Record.valid,Bool.and_eq_true] at valid
  exact holds.pending_named ▸ valid.1.2

theorem written_settled {logs : Logs} {attempt : Attempt Unit} (settled : logs.Settled space)
    (reads : Reads logs.records histories) (addable : Addable histories record)
    (adding : Adding space logs histories record attempt) :
    (∃ error, attempt = .still logs.disk (.error error)) ∨
    (attempt.outcome = .ok () ∧ Settled space attempt.after ∧
      ∀ request, Forgets (updated histories record request) (shown space attempt.after request) ∧
        (request = record.requestId → shown space attempt.after request = updated histories record request)) := by
  rcases adding.added with refused | ⟨done,after,placed,added⟩
  · exact .inl refused
  · have later : after.Settled space := ⟨added.stored settled.stored,added_held settled.held reads addable added⟩
    rw [placed]
    refine .inr ⟨done,.opened after later,fun request => ?_⟩
    obtain ⟨h,holds,forgets,same⟩ := added_holds settled.held reads addable added request
    rw [(later.shown_holds request).unique holds]
    exact ⟨forgets,same⟩

theorem valid_of {r : Record} (checked : validateRecord r.fields = .ok record) : record = r ∧ r.valid = true := by
  rw [validateRecord_fields] at checked
  split at checked
  · rename_i valid; cases checked; exact ⟨rfl,valid⟩
  · cases checked

theorem Holds.open_pending (holds : Holds records request (some h)) (pends : h.latest.isPending = true) :
    ∃ p, h = .reserved p := by
  unfold Holds at holds
  generalize ofRequest request records = lines at holds
  cases holds with
  | reserved p => exact ⟨p,rfl⟩
  | settled p t n _ ended _ => simp [History.latest,ended] at pends

theorem reserveOpened_cases {logs : Logs} (good : logs.Settled space) (loaded : load space logs.disk = .ok histories)
    (reads : Reads logs.records histories) (name : String) (identity : AuditIdentity) (now : Clock) :
    (∃ history, histories.get name = some history ∧ reserveOpened space name identity now logs.disk =
      .still logs.disk (if recordIdentity history.latest = identityTuple identity space
        then .ok (some (receipt history.latest)) else .error .requestConflict)) ∨
    (histories.get name = none ∧
      ((∃ error, reserveOpened space name identity now logs.disk = .still logs.disk (.error error)) ∨
       ((reserveOpened space name identity now logs.disk).outcome = .ok none ∧
        Settled space (reserveOpened space name identity now logs.disk).after ∧
        ∀ request, Forgets (updated histories (baseRecord name identity space now none) request)
            (shown space (reserveOpened space name identity now logs.disk).after request) ∧
          (request = name → shown space (reserveOpened space name identity now logs.disk).after request =
            updated histories (baseRecord name identity space now none) request)))) := by
  unfold reserveOpened
  rw [loaded]
  simp only
  cases found : histories.get name with
  | some history =>
    refine .inl ⟨history,rfl,?_⟩
    by_cases same : recordIdentity history.latest = identityTuple identity space <;> simp [same]
  | none =>
    refine .inr ⟨rfl,?_⟩
    cases checked : validateRecord (baseRecord name identity space now none).fields with
    | error refused => exact .inl ⟨refused,rfl⟩
    | ok record =>
      obtain ⟨rfl,valid⟩ := valid_of checked
      have addable : Addable histories (baseRecord name identity space now none) := .pending rfl found
      have adding := append_adding good.stored reads addable valid rfl
      rcases written_settled good reads addable adding with ⟨error,refused⟩ | ⟨done,later,shows⟩
      · exact .inl ⟨error,by simp only [refused]; rfl⟩
      · refine .inr ?_
        simp only [Attempt.bind,done,Attempt.still]
        exact ⟨trivial,later,shows⟩

theorem appendTerminalOpened_cases {logs : Logs} (good : logs.Settled space)
    (loaded : load space logs.disk = .ok histories) (reads : Reads logs.records histories) (name : String)
    (identity : AuditIdentity) (now : Clock) (terminal : Terminal) :
    (∃ error, appendTerminalOpened space name identity now terminal logs.disk = .still logs.disk (.error error)) ∨
    (∃ p, histories.get name = some (.reserved p) ∧ recordIdentity p = identityTuple identity space ∧
      (appendTerminalOpened space name identity now terminal logs.disk).outcome =
        .ok (receipt (baseRecord name identity space now (some terminal))) ∧
      Settled space (appendTerminalOpened space name identity now terminal logs.disk).after ∧
      ∀ request, Forgets (updated histories (baseRecord name identity space now (some terminal)) request)
          (shown space (appendTerminalOpened space name identity now terminal logs.disk).after request) ∧
        (request = name → shown space (appendTerminalOpened space name identity now terminal logs.disk).after request =
          updated histories (baseRecord name identity space now (some terminal)) request)) := by
  unfold appendTerminalOpened
  rw [loaded]
  simp only
  cases found : histories.get name with
  | none => exact .inl ⟨_,rfl⟩
  | some history =>
    simp only
    split; · exact .inl ⟨_,rfl⟩
    rename_i same
    split; · exact .inl ⟨_,rfl⟩
    rename_i pends
    have holds := reads name
    rw [found] at holds
    obtain ⟨p,rfl⟩ := holds.open_pending (by simpa using pends)
    cases checked : validateRecord (baseRecord name identity space now (some terminal)).fields with
    | error refused => exact .inl ⟨refused,rfl⟩
    | ok record =>
      obtain ⟨rfl,valid⟩ := valid_of checked
      have matched : recordIdentity p = identityTuple identity space := not_not.mp same
      have addable : Addable histories (baseRecord name identity space now (some terminal)) :=
        .terminal rfl found matched.symm
      have adding := append_adding good.stored reads addable valid rfl
      rcases written_settled good reads addable adding with ⟨error,refused⟩ | ⟨done,later,shows⟩
      · exact .inl ⟨error,by simp only [refused]; rfl⟩
      · refine .inr ⟨p,rfl,matched,?_⟩
        simp only [Attempt.bind,done,Attempt.still]
        exact ⟨trivial,later,shows⟩

theorem shown_named (settled : Settled space d) (present : shown space d request = some h) :
    requestIdRe request = true := by
  obtain ⟨logs,good,_,_,same⟩ := settled.opens
  have holds := good.shown_holds request
  rw [← same,present] at holds
  exact good.valid_name holds

theorem reserve_serves (settled : Settled space d) (request name : String) (identity : AuditIdentity) (now : Clock) :
    Settled space (perform space (.reserve name identity now) d).1 ∧
    Serves space request (shown space d request) (.reserve name identity now)
      (perform space (.reserve name identity now) d).2
      (shown space (perform space (.reserve name identity now) d).1 request) := by
  by_cases valid : requestIdRe name = true
  · obtain ⟨logs,good,opened,placed,same⟩ := settled.opens
    obtain ⟨histories,loaded,reads⟩ := good.reads
    have held : ∀ request, shown space d request = histories.get request := fun request => by
      rw [same,shown,loaded]
    obtain ⟨after,outcome⟩ := bind_opened (k := fun d _ => reserveOpened space name identity now d) opened
    rw [placed] at after outcome
    simp only [perform,reserve,valid,not_true_eq_false,if_false,after,outcome,held]
    rcases reserveOpened_cases good loaded reads name identity now with
      ⟨history,found,replay⟩ | ⟨absent,⟨error,refused⟩ | ⟨done,later,shows⟩⟩
    · simp only [replay,Attempt.still]
      refine ⟨.opened logs good,?_⟩
      rw [← same,held]
      by_cases named : name = request
      · subst named
        rw [found]
        exact .replayed identity now history
      · exact .apart _ _ (.keeps _) (by simp [named]) (by simp)
    · simp only [refused,Attempt.still]
      refine ⟨.opened logs good,?_⟩
      rw [← same,held]
      by_cases named : name = request
      · subst named
        rw [absent]
        exact .refused identity now error
      · exact .apart _ _ (.keeps _) (by simp [named]) (by simp)
    · refine ⟨later,?_⟩
      rw [done]
      by_cases named : name = request
      · subst named
        rw [(shows name).2 rfl,updated,baseRecord_requestId,if_pos rfl,Audit.added,baseRecord_requestId,absent]
        exact .reserved identity now _ rfl rfl rfl rfl
      · refine .apart _ _ ?_ (by simp [named]) (by simp)
        have kept := (shows request).1
        rwa [updated,baseRecord_requestId,if_neg (Ne.symm named)] at kept
  · simp only [perform,reserve,valid,Bool.false_eq_true,not_false_eq_true,if_true,Attempt.still]
    refine ⟨settled,?_⟩
    by_cases named : name = request
    · subst named
      have absent : shown space d name = none := by
        cases found : shown space d name with
        | none => rfl
        | some h => exact absurd (shown_named settled found) valid
      rw [absent]
      exact .refused identity now _
    · exact .apart _ _ (.keeps _) (by simp [named]) (by simp)

theorem appendTerminal_serves (settled : Settled space d) (request name : String) (identity : AuditIdentity)
    (now : Clock) (terminal : Terminal) :
    Settled space (perform space (.appendTerminal name identity now terminal) d).1 ∧
    Serves space request (shown space d request) (.appendTerminal name identity now terminal)
      (perform space (.appendTerminal name identity now terminal) d).2
      (shown space (perform space (.appendTerminal name identity now terminal) d).1 request) := by
  by_cases valid : requestIdRe name = true
  · obtain ⟨logs,good,opened,placed,same⟩ := settled.opens
    obtain ⟨histories,loaded,reads⟩ := good.reads
    have held : ∀ request, shown space d request = histories.get request := fun request => by
      rw [same,shown,loaded]
    obtain ⟨after,outcome⟩ :=
      bind_opened (k := fun d _ => appendTerminalOpened space name identity now terminal d) opened
    rw [placed] at after outcome
    simp only [perform,appendTerminal,valid,not_true_eq_false,if_false,after,outcome,held]
    rcases appendTerminalOpened_cases good loaded reads name identity now terminal with
      ⟨error,refused⟩ | ⟨p,found,matched,done,later,shows⟩
    · simp only [refused,Attempt.still]
      refine ⟨.opened logs good,?_⟩
      rw [← same,held]
      exact .apart _ _ (.keeps _) (by simp) (by simp)
    · refine ⟨later,?_⟩
      rw [done]
      by_cases named : name = request
      · subst named
        rw [(shows name).2 rfl,updated,baseRecord_requestId,if_pos rfl,Audit.added,baseRecord_requestId,found]
        exact .settled identity now terminal p _ matched matched.symm
      · refine .apart _ _ ?_ (by simp) (by simp [named])
        have kept := (shows request).1
        rwa [updated,baseRecord_requestId,if_neg (Ne.symm named)] at kept
  · simp only [perform,appendTerminal,valid,Bool.false_eq_true,not_false_eq_true,if_true,Attempt.still]
    exact ⟨settled,.apart _ _ (.keeps _) (by simp) (by simp)⟩

theorem perform_serves (settled : Settled space d) (request : String) (call : Call) :
    Settled space (perform space call d).1 ∧
    Serves space request (shown space d request) call (perform space call d).2
      (shown space (perform space call d).1 request) := by
  cases call with
  | reserve name identity now => exact reserve_serves settled request name identity now
  | appendTerminal name identity now terminal => exact appendTerminal_serves settled request name identity now terminal

theorem run_settled (settled : Settled space d) (calls : List Call) : Settled space (runCalls space calls d) := by
  induction calls generalizing d with
  | nil => exact settled
  | cons call rest ih => exact ih (perform_serves settled "" call).1

theorem acknowledged_reserve (request name : String) (identity : AuditIdentity) (now : Clock) (reply : Reply) :
    acknowledged request (.reserve name identity now) reply = [] := rfl

theorem receipts_cons (request : String) (call : Call) (rest : List Call) (d : Disk) : receipts space request (call :: rest) d =
    acknowledged request call (perform space call d).2 ++ receipts space request rest (perform space call d).1 := rfl

theorem runCalls_nil (d : Disk) : runCalls space [] d = d := rfl

theorem runCalls_cons (call : Call) (rest : List Call) (d : Disk) :
    runCalls space (call :: rest) d = runCalls space rest (perform space call d).1 := rfl

theorem runCalls_append (first second : List Call) (d : Disk) :
    runCalls space (first ++ second) d = runCalls space second (runCalls space first d) := List.foldl_append

-- A retained history gains its one terminal or stays as it is.
inductive Progress : History → List AuditReceipt → History → Prop where
  | same (h : History) : Progress h [] h
  | settled (p t : Record) : recordIdentity t = recordIdentity p →
      Progress (.reserved p) [receipt t] (.settled p t)

theorem Progress.trans (first : Progress h early middle) (second : Progress middle late h') :
    Progress h (early ++ late) h' := by
  cases first with
  | same => exact second
  | settled p t same => cases second; exact .settled p t same

theorem Progress.once (progress : Progress h written h') : written.length ≤ 1 := by
  cases progress <;> simp

theorem Progress.latest (progress : Progress h written h') :
    recordIdentity h'.latest = recordIdentity h.latest ∧
      receipt h'.latest = written.head?.getD (receipt h.latest) := by
  cases progress with
  | same => exact ⟨rfl,rfl⟩
  | settled p t same => exact ⟨same,rfl⟩

theorem acknowledged_none
    (unsettled : ∀ a now t receipt, call = .appendTerminal request a now t → reply ≠ .settled (.ok receipt)) :
    acknowledged request call reply = [] := by
  unfold acknowledged
  split
  · rename_i name identity now terminal receipt
    by_cases named : name = request
    · subst named
      exact absurd rfl (unsettled identity now terminal receipt rfl)
    · rw [if_neg named]
  · rfl

theorem serves_progress (serves : Serves space request (some h) call reply (some h')) :
    Progress h (acknowledged request call reply) h' := by
  cases serves with
  | apart _ _ forgets _ unsettled =>
    cases forgets
    rw [acknowledged_none unsettled]
    exact .same h
  | replayed => exact .same h
  | settled a now terminal p t matched same =>
    simp only [acknowledged,if_true]
    exact .settled p t same

theorem run_progress (settled : Settled space d) (present : shown space d request = some h)
    (retained : ∀ part, part <+: calls → ∃ h, shown space (runCalls space part d) request = some h) :
    ∃ h', shown space (runCalls space calls d) request = some h' ∧ Progress h (receipts space request calls d) h' := by
  induction calls generalizing d h with
  | nil => exact ⟨h,present,.same h⟩
  | cons call rest ih =>
    obtain ⟨later,serves⟩ := perform_serves settled request call
    obtain ⟨middle,next⟩ := retained [call] (by simp)
    have next : shown space (perform space call d).1 request = some middle := next
    rw [present,next] at serves
    obtain ⟨h',last,progress⟩ := ih later next fun part begun =>
      retained (call :: part) (by simpa using begun)
    exact ⟨h',last,(serves_progress serves).trans progress⟩

theorem reserve_first (settled : Settled space d)
    (first : (perform space (.reserve request identity now) d).2 = .reserved (.ok none)) :
    ∃ p, shown space (perform space (.reserve request identity now) d).1 request = some (.reserved p) ∧
      recordIdentity p = identityTuple identity space ∧ receipt p = pendingReceipt request identity.agent := by
  have serves := (perform_serves settled request (.reserve request identity now)).2
  rw [first] at serves
  generalize shown space (perform space (.reserve request identity now) d).1 request = after at serves
  generalize shown space d request = before at serves
  generalize reply : Reply.reserved (.ok none) = answer at serves
  generalize call : Call.reserve request identity now = asked at serves
  cases serves with
  | apart _ _ _ other _ => exact absurd call.symm (other identity now)
  | refused => cases call; cases reply
  | reserved a again p matched named agent pends =>
    cases call
    refine ⟨p,rfl,matched,?_⟩
    have unsettled : p.terminal = none := by simpa [Record.isPending] using pends
    rw [receipt,unsettled,named,agent]
    rfl
  | replayed a again history =>
    cases call
    split at reply <;> cases reply
  | settled => cases call

theorem reserve_again (settled : Settled space d) (present : shown space d request = some h) :
    (perform space (.reserve request identity now) d).2 =
      .reserved (if recordIdentity h.latest = identityTuple identity space then .ok (some (receipt h.latest))
        else .error .requestConflict) ∧
    shown space (perform space (.reserve request identity now) d).1 request = some h := by
  have serves := (perform_serves settled request (.reserve request identity now)).2
  rw [present] at serves
  generalize (perform space (.reserve request identity now) d).2 = answer at serves ⊢
  generalize shown space (perform space (.reserve request identity now) d).1 request = after at serves ⊢
  generalize before : some h = old at serves
  generalize call : Call.reserve request identity now = asked at serves
  cases serves with
  | apart _ _ _ other _ => exact absurd call.symm (other identity now)
  | refused => cases before
  | reserved => cases before
  | replayed => cases before; cases call; exact ⟨rfl,rfl⟩
  | settled => cases call

theorem terminal_follows (settled : Settled space d)
    (answered : (perform space (.appendTerminal request identity now terminal) d).2 = .settled (.ok accepted)) :
    ∃ p, shown space d request = some (.reserved p) ∧ recordIdentity p = identityTuple identity space := by
  have serves := (perform_serves settled request (.appendTerminal request identity now terminal)).2
  rw [answered] at serves
  generalize shown space (perform space (.appendTerminal request identity now terminal) d).1 request = after at serves
  generalize shown space d request = before at serves ⊢
  generalize call : Call.appendTerminal request identity now terminal = asked at serves
  generalize reply : Reply.settled (.ok accepted) = answer at serves
  cases serves with
  | apart _ _ _ _ unsettled => exact absurd reply.symm (unsettled identity now terminal accepted call.symm)
  | refused => cases call
  | reserved => cases call
  | replayed => cases call
  | settled a again t p r matched _ => cases call; exact ⟨p,rfl,matched⟩

-- Over a run without crashes every state loads; a terminal follows its own open
-- reservation; and from a reservation on, for as long as its history is retained, at most
-- one terminal is written and every later reserve is answered from that history.
theorem retained_request_once (space : AuditNamespace) (calls : List Call)
    (collisionFree : Set.InjOn space.digest {text | ∃ call ∈ calls, text = requestText call.identity}) :
    (∀ early, early <+: calls → ∃ histories, load space (runCalls space early emptyDisk) = .ok histories) ∧
    (∀ early request identity now terminal rest accepted,
      calls = early ++ .appendTerminal request identity now terminal :: rest →
      (perform space (.appendTerminal request identity now terminal) (runCalls space early emptyDisk)).2 =
        .settled (.ok accepted) →
      ∃ p, shown space (runCalls space early emptyDisk) request = some (.reserved p) ∧
        recordIdentity p = identityTuple identity space) ∧
    (∀ early request identity now between rest,
      calls = early ++ .reserve request identity now :: (between ++ rest) →
      (perform space (.reserve request identity now) (runCalls space early emptyDisk)).2 = .reserved (.ok none) →
      (∀ part, part <+: between →
        ∃ h, shown space (runCalls space (early ++ .reserve request identity now :: part) emptyDisk) request = some h) →
      (receipts space request between
        (runCalls space (early ++ [.reserve request identity now]) emptyDisk)).length ≤ 1 ∧
      ∀ other again later, rest = .reserve request other again :: later →
        (perform space (.reserve request other again)
          (runCalls space (early ++ .reserve request identity now :: between) emptyDisk)).2 =
        .reserved (if SameRequest identity other
          then .ok (some ((receipts space request between
            (runCalls space (early ++ [.reserve request identity now]) emptyDisk)).head?.getD
              (pendingReceipt request identity.agent)))
          else .error .requestConflict)) := by
  refine ⟨fun early _ => (run_settled .fresh early).loads,?_,?_⟩
  · intro early request identity now terminal rest accepted _ answered
    exact terminal_follows (run_settled .fresh early) answered
  · intro early request identity now between rest whole first retained
    have start : Settled space _ := run_settled .fresh early
    obtain ⟨p,reserved,matched,pending⟩ := reserve_first start first
    have begun : ∀ part, runCalls space (early ++ .reserve request identity now :: part) emptyDisk =
        runCalls space part (perform space (.reserve request identity now) (runCalls space early emptyDisk)).1 := by
      intro part
      rw [runCalls_append]
      rfl
    obtain ⟨h,last,progress⟩ := run_progress (perform_serves start request (.reserve request identity now)).1 reserved
      fun part inside => by rw [← begun]; exact retained part inside
    rw [begun [],begun between]
    refine ⟨progress.once,?_⟩
    rintro other again later rfl
    rw [(reserve_again (run_settled (perform_serves start request (.reserve request identity now)).1 between) last).1]
    have tuples : identityTuple identity space = identityTuple other space ↔ SameRequest identity other :=
      identityTuple_exact fun same =>
        collisionFree ⟨.reserve request identity now,by rw [whole]; simp,rfl⟩
          ⟨.reserve request other again,by rw [whole]; simp,rfl⟩ same
    obtain ⟨same_identity,replayed⟩ := progress.latest
    rw [same_identity,History.latest,matched,replayed,← pending]
    by_cases same : SameRequest identity other
    · rw [if_pos (tuples.mpr same),if_pos same]
      rfl
    · rw [if_neg (mt tuples.mp same),if_neg same]

def demoSpace : AuditNamespace where
  namespaceEpoch := "e_0123456789abcdef0123456789abcdef"
  digest := fun _ => "0123456789abcdef0123456789abcdef0123456789abcdef0123456789abcdef"

def demoIdentity : AuditIdentity where
  agent := "claude"
  sessionId := "s1"
  project := "/work"
  executableBasename := "claude"
  confirmationMode := "allow_write"
  message := [104,105]

def demoClock (seconds : Nat) : Clock := ⟨false,seconds,⟨['0'],by decide⟩⟩

theorem demo_reserves :
    (perform demoSpace (.reserve "r1" demoIdentity (demoClock 1)) emptyDisk).2 = .reserved (.ok none) := by
  decide +kernel

-- The executable is no part of the request: the second identity is another value, and
-- its reserve is answered like the first's.
theorem other_executable_replays : ∃ other : AuditIdentity, other ≠ demoIdentity ∧
    (perform demoSpace (.reserve "r1" demoIdentity (demoClock 1)) emptyDisk).2 = .reserved (.ok none) ∧
    (perform demoSpace (.reserve "r1" other (demoClock 2))
      (perform demoSpace (.reserve "r1" demoIdentity (demoClock 1)) emptyDisk).1).2 =
      .reserved (.ok (some (pendingReceipt "r1" "claude"))) := by
  obtain ⟨p,shows,matched,pending⟩ := reserve_first .fresh demo_reserves
  have same : identityTuple {demoIdentity with executableBasename := "claude-next"} demoSpace =
      identityTuple demoIdentity demoSpace := rfl
  refine ⟨{demoIdentity with executableBasename := "claude-next"},by decide,demo_reserves,?_⟩
  rw [(reserve_again (perform_serves .fresh "r1" _).1 shows).1,same,History.latest,if_pos matched]
  exact congrArg (fun shown => Reply.reserved (.ok (some shown))) pending

end AgentSideCar.Audit
