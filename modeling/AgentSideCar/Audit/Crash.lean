import AgentSideCar.Audit.Idempotency
import AgentSideCar.Library.Runs
import Mathlib.Data.List.Infix

namespace AgentSideCar.Audit
open Runs

-- A call returns, or its process dies during a rotation, its recovery or the
-- creation of the first log, and leaves the disk as one of its writes did.
inductive Event where
  | finished (call : Call)
  | died (call : Call) (left : Disk)

section Machine
variable (space : AuditNamespace)

def writes (call : Call) (d : Disk) : List (Write × Disk) :=
  match call with
  | .reserve requestId identity now => (reserve space requestId identity now d).during
  | .appendTerminal requestId identity now terminal =>
    (appendTerminal space requestId identity now terminal d).during

def advance (d : Disk) : Event → Option Disk
  | .finished call => some (perform space call d).1
  | .died call left =>
    if (.rotation,left) ∈ writes space call d ∨ (.creation,left) ∈ writes space call d then some left else none

-- A staged log that a recovery would put over a present current log repeats every
-- pending that the two logs show open.
def PromotesWhole (d : Disk) : Prop :=
  ∀ staged records histories, d.next = some staged → d.current ≠ none → stagedRecords space staged = .ok records →
    load space d = .ok histories → ∀ request p, histories.get request = some (.reserved p) → p ∈ records

-- The disk holds a terminal line of the request, whole, in its current or staged log.
def Leaves (left : Disk) (request : String) : Prop :=
  ∃ content records r, (left.current = some content ∨ left.next = some content) ∧ readRecords content = .ok records ∧
    r ∈ records ∧ r.requestId = request ∧ r.isPending = false

-- The event settles no terminal of the request.
def Spares (request : String) (d : Disk) : Event → Prop
  | .finished call => ∀ accepted, acknowledged request call (perform space call d).2 ≠ [accepted]
  | .died (.appendTerminal name _ _ _) left => name = request → ¬ Leaves left request
  | .died (.reserve _ _ _) _ => True

def Orderly (request : String) (d : Disk) (event : Event) : Prop :=
  PromotesWhole space d ∧ Spares space request d event

end Machine

variable {space : AuditNamespace}

abbrev Subjects := List (String × Record)

def Keeps (subjects : Subjects) (records : List Record) : Prop :=
  ∀ e ∈ subjects, Holds records e.1 (some (.reserved e.2))

def Quiet (subjects : Subjects) (records : List Record) : Prop :=
  ∀ e ∈ subjects, ∀ r ∈ records, r.requestId = e.1 → r.isPending = true

-- What a crash can leave: settled logs, a staged log beside them that is torn or a
-- draft of their rotation, or the staged log alone beside the rotated one.
inductive Phase (space : AuditNamespace) (subjects : Subjects) : Disk → Prop where
  | fresh : subjects = [] → Phase space subjects emptyDisk
  | settled (logs : Logs) : logs.Settled space → Keeps subjects logs.records → Phase space subjects logs.disk
  | torn (logs : Logs) (part : Text) : logs.Settled space → Keeps subjects logs.records →
      (∀ records, stagedRecords space part ≠ .ok records) → Phase space subjects {logs.disk with next := some part}
  | drafted (logs : Logs) (records : List Record) : logs.Settled space → Keeps subjects logs.records →
      Sound space records → records ≠ [] → Draft logs.early logs.current records → Quiet subjects records →
      Phase space subjects {logs.disk with next := some (payload records)}
  | moved (rotated current : List Record) : (⟨some rotated,current⟩ : Logs).Settled space → current ≠ [] →
      Keeps subjects (rotated ++ current) →
      Phase space subjects ⟨none,some (payload rotated),some (payload current)⟩

theorem staged_sound (sound : Sound space records) (some_left : records ≠ []) (readable : Readable records) :
    stagedRecords space (payload records) = .ok records := by
  obtain ⟨histories,loaded⟩ := histories_exist readable
  have epochs : records.any (·.namespaceEpoch ≠ space.namespaceEpoch) = false := by
    simp only [List.any_eq_false,decide_eq_true_eq,not_not]
    exact sound.epoch
  rw [stagedRecords,readRecords_sound sound]
  simp only [Except.bind,some_left,epochs,loaded]
  rfl

theorem Draft.readable (draft : Draft rotated current records) : Readable records :=
  fun request => let ⟨_,k,_,written,_⟩ := draft request; ⟨k,written⟩

theorem Held.current_readable (held : Held rotated current) : Readable current :=
  fun request => let ⟨_,c,_,inside,_⟩ := held request; ⟨c,inside⟩

-- The subjects stay open across a promotion: the current log holds each, and the
-- promoted one settles none.
theorem drafted_keeps (held : Held rotated current) (draft : Draft rotated current records)
    (keeps : Keeps subjects (rotated ++ current)) (quiet : Quiet subjects records) :
    Keeps subjects (current ++ records) := by
  intro e inside
  obtain ⟨h,c,k,whole,shown,written,carried,grows,joined⟩ := drafted_holds held draft e.1
  cases whole.unique (keeps e inside)
  cases carried
  cases grows with
  | idle => exact joined
  | again => exact joined
  | closed p t =>
    have silent := quiet e inside
    exfalso
    unfold Holds at written
    have last : t ∈ ofRequest e.1 records ∧ t.isPending = false := by
      generalize ofRequest e.1 records = lines at written
      cases written with
      | settled _ _ _ _ ended _ => exact ⟨by simp,ended⟩
    have named := List.mem_filter.mp last.1
    have := silent t named.1 (by simpa using named.2)
    rw [last.2] at this
    cases this

theorem opens_recovered (logs : Logs)
    (recovered : recoverRotation space d = ⟨during,logs.disk,.ok ()⟩) :
    openLogs space d = ⟨during,logs.disk,.ok ()⟩ := by
  rw [openLogs,recovered]
  simp [Attempt.bind,Logs.disk,Attempt.still]

theorem settled_recovers (logs : Logs) : recoverRotation space logs.disk = ⟨[],logs.disk,.ok ()⟩ := rfl

theorem torn_recovers (logs : Logs) (torn : ∀ records, stagedRecords space part ≠ .ok records) :
    recoverRotation space {logs.disk with next := some part} = ⟨[(.rotation,logs.disk)],logs.disk,.ok ()⟩ := by
  cases staged : stagedRecords space part with
  | ok records => exact absurd staged (torn records)
  | error refused => simp [recoverRotation,staged,Logs.disk]

theorem drafted_recovers (logs : Logs) (staged : stagedRecords space (payload records) = .ok records) :
    recoverRotation space {logs.disk with next := some (payload records)} =
      ⟨[(.rotation,⟨none,some (payload logs.current),some (payload records)⟩),
        (.rotation,(⟨some logs.current,records⟩ : Logs).disk)],(⟨some logs.current,records⟩ : Logs).disk,.ok ()⟩ := by
  simp [recoverRotation,staged,Logs.disk]

theorem moved_recovers (rotated : Text) (staged : stagedRecords space (payload current) = .ok current) :
    recoverRotation space ⟨none,some rotated,some (payload current)⟩ =
      ⟨[(.rotation,⟨none,some rotated,some (payload current)⟩),(.rotation,⟨some (payload current),some rotated,none⟩)],
        ⟨some (payload current),some rotated,none⟩,.ok ()⟩ := by
  simp [recoverRotation,staged]

theorem phase_shows (phase : Phase space subjects d) : ∃ during, ∃ logs : Logs,
    openLogs space d = ⟨during,logs.disk,.ok ()⟩ ∧ logs.Stored space ∧ Readable logs.records ∧
      Keeps subjects logs.records := by
  cases phase with
  | fresh empty =>
    subst empty
    have first : (⟨none,[]⟩ : Logs).Settled space := first_settled
    exact ⟨_,⟨none,[]⟩,rfl,first.stored,first.held.readable,fun e inside => by cases inside⟩
  | settled logs good keeps =>
    exact ⟨_,logs,opens_recovered logs (settled_recovers logs),good.stored,good.held.readable,keeps⟩
  | torn logs part good keeps torn =>
    exact ⟨_,logs,opens_recovered logs (torn_recovers logs torn),good.stored,good.held.readable,keeps⟩
  | drafted logs records good keeps sound some_left draft quiet =>
    have staged := staged_sound sound some_left draft.readable
    exact ⟨_,_,opens_recovered _ (drafted_recovers logs staged),⟨good.stored.current,sound⟩,
      drafted_readable good.held draft,drafted_keeps good.held draft keeps quiet⟩
  | moved rotated current good some_left keeps =>
    have staged := staged_sound good.stored.current some_left good.held.current_readable
    exact ⟨_,⟨some rotated,current⟩,opens_recovered ⟨some rotated,current⟩
      (moved_recovers (payload rotated) staged),good.stored,good.held.readable,keeps⟩

theorem promotes_complete {logs : Logs} (good : logs.Settled space)
    (staged : stagedRecords space (payload records) = .ok records)
    (whole : PromotesWhole space {logs.disk with next := some (payload records)}) :
    Complete logs.early logs.current records := by
  intro request p opened absent
  obtain ⟨histories,loaded,reads⟩ := load_reads good.stored good.held.readable (some (payload records))
  have found : histories.get request = some (.reserved p) := (reads request).unique opened
  have inside := whole _ _ _ rfl (by simp [Logs.disk]) staged loaded request p found
  have none_left : p ∉ ofRequest request records := by rw [show ofRequest request records = [] from absent]; simp
  exact none_left (List.mem_filter.mpr ⟨inside,by simpa using opened.named⟩)

-- A recovery that promotes no torn log ends in settled logs, and each of its steps is a phase.
theorem phase_opens (phase : Phase space subjects d) (whole : PromotesWhole space d) :
    ∃ during, ∃ logs : Logs, openLogs space d = ⟨during,logs.disk,.ok ()⟩ ∧ logs.Settled space ∧
      Keeps subjects logs.records ∧ ∀ w ∈ during, Phase space subjects w.2 := by
  cases phase with
  | fresh empty =>
    subst empty
    have keeps : Keeps [] (⟨none,[]⟩ : Logs).records := fun e inside => by cases inside
    refine ⟨_,⟨none,[]⟩,rfl,first_settled,keeps,?_⟩
    intro w inside
    simp [recoverRotation,emptyDisk,Attempt.still] at inside
    subst inside
    exact .settled ⟨none,[]⟩ first_settled keeps
  | settled logs good keeps =>
    exact ⟨_,logs,opens_recovered logs (settled_recovers logs),good,keeps,fun w inside => by cases inside⟩
  | torn logs part good keeps torn =>
    refine ⟨_,logs,opens_recovered logs (torn_recovers logs torn),good,keeps,fun w inside => ?_⟩
    cases List.mem_singleton.mp inside
    exact .settled logs good keeps
  | drafted logs records good keeps sound some_left draft quiet =>
    have staged := staged_sound sound some_left draft.readable
    have held := drafted_held good.held draft (promotes_complete good staged whole)
    have later : (⟨some logs.current,records⟩ : Logs).Settled space := ⟨⟨good.stored.current,sound⟩,held⟩
    have kept := drafted_keeps good.held draft keeps quiet
    refine ⟨_,_,opens_recovered _ (drafted_recovers logs staged),later,kept,fun w inside => ?_⟩
    rcases List.mem_cons.mp inside with rfl | inside
    · exact .moved logs.current records later some_left kept
    · cases List.mem_singleton.mp inside
      exact .settled _ later kept
  | moved rotated current good some_left keeps =>
    have staged := staged_sound good.stored.current some_left good.held.current_readable
    refine ⟨_,⟨some rotated,current⟩,opens_recovered ⟨some rotated,current⟩
      (moved_recovers (payload rotated) staged),good,keeps,fun w inside => ?_⟩
    rcases List.mem_cons.mp inside with rfl | inside
    · exact .moved rotated current good some_left keeps
    · cases List.mem_singleton.mp inside
      exact .settled ⟨some rotated,current⟩ good keeps

theorem rotation_nonempty (reads : Reads records histories) (addable : Addable histories record) :
    rotationRecords histories record ≠ [] := by
  intro empty
  have holds := rotation_holds reads addable record.requestId
  have present : ∃ h, carriedOver histories record record.requestId = some h := by
    rw [carriedOver,if_pos rfl,Audit.added]
    cases histories.get record.requestId <;> exact ⟨_,rfl⟩
  obtain ⟨h,found⟩ := present
  rw [found,Holds,empty] at holds
  exact holds.nonempty rfl

theorem rotation_terminal (reads : Reads records histories) (addable : Addable histories record)
    (inside : r ∈ rotationRecords histories record) (ended : r.isPending = false) : r = record := by
  have holds := rotation_holds reads addable r.requestId
  have present : r ∈ ofRequest r.requestId (rotationRecords histories record) := by simp [ofRequest,inside]
  cases found : carriedOver histories record r.requestId with
  | none => rw [found] at holds; rw [show ofRequest _ _ = [] from holds] at present; cases present
  | some h =>
    rw [found] at holds
    unfold Holds at holds
    generalize ofRequest r.requestId (rotationRecords histories record) = lines at holds present
    cases holds with
    | reserved p n pends =>
      rw [(List.mem_replicate.mp present).2,pends] at ended
      cases ended
    | settled p t n pends _ _ =>
      rcases List.mem_append.mp present with early | last
      · rw [(List.mem_replicate.mp early).2,pends] at ended
        cases ended
      · cases List.mem_singleton.mp last
        unfold carriedOver at found
        split at found
        · unfold Audit.added at found
          split at found <;> cases found
          rfl
        · split at found <;> cases found

theorem Sound.cut (sound : Sound space records) (torn : part <+: records) : Sound space part := by
  obtain ⟨rest,rfl⟩ := torn
  refine ⟨fun r inside => sound.written r (List.mem_append_left _ inside),
    fun r inside => sound.epoch r (List.mem_append_left _ inside),?_⟩
  have size := sound.size
  rw [payload_append,List.length_append] at size
  omega

theorem quiet_unless (subjects : Subjects) (readable : readRecords content = .ok records)
    (placed : left.current = some content ∨ left.next = some content)
    (only : ∀ r ∈ records, r.isPending = false → r = record)
    (spares : ∀ e ∈ subjects, record.requestId = e.1 → record.isPending = false → ¬ Leaves left e.1) :
    Quiet subjects records := by
  intro e inside r present named
  by_contra terminal
  have ended : r.isPending = false := by simpa using terminal
  have same : r = record := only r present ended
  exact spares e inside (same ▸ named) (same ▸ ended) ⟨content,records,r,placed,readable,present,named,ended⟩

theorem unstaged (refused : ∀ records, readRecords part = .ok records → records = []) :
    ∀ records, stagedRecords space part ≠ .ok records := by
  intro records staged
  unfold stagedRecords at staged
  cases read : readRecords part with
  | error error => rw [read] at staged; cases staged
  | ok found =>
    cases refused found read
    rw [read] at staged
    simp [Except.bind] at staged

theorem adding_phase {logs : Logs} {attempt : Attempt Unit} (good : logs.Settled space)
    (keeps : Keeps subjects logs.records) (reads : Reads logs.records histories) (addable : Addable histories record)
    (adding : Adding space logs histories record attempt) (inside : w ∈ attempt.during) (placed : w.1 ≠ .line)
    (spares : ∀ e ∈ subjects, record.requestId = e.1 → record.isPending = false → ¬ Leaves w.2 e.1) :
    Phase space subjects w.2 := by
  cases adding with
  | refused error => cases inside
  | extended sound =>
    obtain ⟨part,_,rfl⟩ := List.mem_map.mp inside
    exact absurd rfl placed
  | rotated sound =>
    have some_left := rotation_nonempty reads addable
    have only : ∀ r ∈ rotationRecords histories record, r.isPending = false → r = record :=
      fun r present ended => rotation_terminal reads addable present ended
    have draft : Draft logs.early logs.current (rotationRecords histories record) :=
      rotation_torn reads addable List.prefix_rfl
    have later : (⟨some logs.current,rotationRecords histories record⟩ : Logs).Settled space :=
      ⟨⟨good.stored.current,sound⟩,drafted_held good.held draft (rotation_complete reads addable)⟩
    have kept : Quiet subjects (rotationRecords histories record) →
        Keeps subjects (⟨some logs.current,rotationRecords histories record⟩ : Logs).records :=
      drafted_keeps good.held draft keeps
    rcases List.mem_append.mp inside with staging | renamed
    · obtain ⟨part,cut,rfl⟩ := List.mem_map.mp staging
      rcases payload_torn sound.written ((List.mem_inits _ _).mp cut) with ⟨count,rfl⟩ | broken
      · have torn := List.take_prefix count (rotationRecords histories record)
        have whole := sound.cut torn
        by_cases empty : (rotationRecords histories record).take count = []
        · refine .torn logs _ good keeps (unstaged fun records read => ?_)
          rw [empty] at read
          cases read
          rfl
        · refine .drafted logs _ good keeps whole empty (rotation_torn reads addable torn) ?_
          exact quiet_unless subjects (readRecords_sound whole) (.inr rfl)
            (fun r present => only r (List.mem_of_mem_take present)) spares
      · refine .torn logs part good keeps (unstaged fun records read => ?_)
        unfold readRecords at read
        split at read
        · cases read
        · rw [parseFile_torn broken] at read; cases read
    · rcases List.mem_cons.mp renamed with rfl | last
      · exact .moved logs.current _ later some_left
          (kept (quiet_unless subjects (readRecords_sound sound) (.inr rfl) only spares))
      · cases List.mem_singleton.mp last
        exact .settled ⟨some logs.current,_⟩ later
          (kept (quiet_unless subjects (readRecords_sound sound) (.inl rfl) only spares))

theorem call_writes {body : Disk → Attempt α} (opened : openLogs space d = ⟨during,logs,.ok ()⟩) :
    ((openLogs space d).bind fun d _ => body d).during = during ++ (body logs).during := by
  rw [opened]
  rfl

theorem written_during {attempt : Attempt Unit} {value : α} :
    (attempt.bind fun d _ => .still d (.ok value)).during = attempt.during := by
  unfold Attempt.bind
  cases attempt.outcome <;> simp [Attempt.still]

theorem reserveOpened_phase {logs : Logs} (good : logs.Settled space) (keeps : Keeps subjects logs.records)
    (inside : w ∈ (reserveOpened space name identity now logs.disk).during) (placed : w.1 ≠ .line) :
    Phase space subjects w.2 := by
  obtain ⟨histories,loaded,reads⟩ := good.reads
  unfold reserveOpened at inside
  rw [loaded] at inside
  simp only at inside
  cases found : histories.get name with
  | some history =>
    rw [found] at inside
    simp only at inside
    split at inside <;> cases inside
  | none =>
    rw [found] at inside
    simp only at inside
    cases checked : validateRecord (baseRecord name identity space now none).fields with
    | error refused => rw [checked] at inside; cases inside
    | ok record =>
      obtain ⟨rfl,valid⟩ := valid_of checked
      rw [checked,written_during] at inside
      have addable : Addable histories (baseRecord name identity space now none) := .pending rfl found
      exact adding_phase good keeps reads addable (append_adding good.stored reads addable valid rfl) inside placed
        fun _ _ _ ended => by cases ended

theorem appendTerminalOpened_phase {logs : Logs} (good : logs.Settled space) (keeps : Keeps subjects logs.records)
    (inside : w ∈ (appendTerminalOpened space name identity now terminal logs.disk).during) (placed : w.1 ≠ .line)
    (spares : ∀ e ∈ subjects, name = e.1 → ¬ Leaves w.2 e.1) : Phase space subjects w.2 := by
  obtain ⟨histories,loaded,reads⟩ := good.reads
  unfold appendTerminalOpened at inside
  rw [loaded] at inside
  simp only at inside
  cases found : histories.get name with
  | none => rw [found] at inside; cases inside
  | some history =>
    rw [found] at inside
    simp only at inside
    split at inside; · cases inside
    rename_i same
    split at inside; · cases inside
    rename_i pends
    cases checked : validateRecord (baseRecord name identity space now (some terminal)).fields with
    | error refused => rw [checked] at inside; cases inside
    | ok record =>
      obtain ⟨rfl,valid⟩ := valid_of checked
      rw [checked,written_during] at inside
      have holds := reads name
      rw [found] at holds
      obtain ⟨p,rfl⟩ := holds.open_pending (by simpa using pends)
      have addable : Addable histories (baseRecord name identity space now (some terminal)) :=
        .terminal rfl found (not_not.mp same).symm
      exact adding_phase good keeps reads addable (append_adding good.stored reads addable valid rfl) inside placed
        fun e subject named _ => spares e subject named

-- A death leaves a phase, as long as no torn log was promoted and no subject's terminal is left whole.
theorem died_phase (phase : Phase space subjects d) (whole : PromotesWhole space d)
    (inside : (.rotation,left) ∈ writes space call d ∨ (.creation,left) ∈ writes space call d)
    (spares : ∀ e ∈ subjects, Spares space e.1 d (.died call left)) : Phase space subjects left := by
  obtain ⟨during,logs,opened,good,keeps,steps⟩ := phase_opens phase whole
  have tagged : ∃ write : Write, write ≠ .line ∧ (write,left) ∈ writes space call d := by
    rcases inside with inside | inside
    · exact ⟨_,by decide,inside⟩
    · exact ⟨_,by decide,inside⟩
  obtain ⟨write,placed,inside⟩ := tagged
  cases call with
  | reserve name identity now =>
    simp only [writes,reserve] at inside
    split at inside; · cases inside
    rw [call_writes opened] at inside
    rcases List.mem_append.mp inside with early | late
    · exact steps _ early
    · exact reserveOpened_phase good keeps late placed
  | appendTerminal name identity now terminal =>
    simp only [writes,appendTerminal] at inside
    split at inside; · cases inside
    rw [call_writes opened] at inside
    rcases List.mem_append.mp inside with early | late
    · exact steps _ early
    · exact appendTerminalOpened_phase good keeps late placed fun e subject named => spares e subject named

theorem perform_reopened {logs : Logs} (opened : openLogs space d = ⟨during,logs.disk,.ok ()⟩) (call : Call) :
    perform space call d = perform space call logs.disk ∨
      ((∀ d, (perform space call d).1 = d) ∧ ∀ accepted, (perform space call d).2 ≠ .reserved (.ok accepted)) := by
  have again : openLogs space logs.disk = ⟨[],logs.disk,.ok ()⟩ := opens_recovered logs (settled_recovers logs)
  cases call with
  | reserve name identity now =>
    simp only [perform,reserve]
    split
    · exact .inr ⟨fun _ => rfl,fun accepted same => by cases same⟩
    · simp only [opened,again]
      exact .inl rfl
  | appendTerminal name identity now terminal =>
    simp only [perform,appendTerminal]
    split
    · exact .inr ⟨fun _ => rfl,fun accepted same => by cases same⟩
    · simp only [opened,again]
      exact .inl rfl

theorem settled_phase (settled : Settled space d)
    (kept : ∀ e ∈ subjects, shown space d e.1 = some (.reserved e.2)) : Phase space subjects d := by
  cases settled with
  | fresh =>
    refine .fresh (List.eq_nil_iff_forall_not_mem.mpr fun e inside => ?_)
    have := kept e inside
    rw [emptyDisk_shown] at this
    cases this
  | opened after good => exact .settled after good fun e inside => kept e inside ▸ good.shown_holds e.1

theorem finished_phase (phase : Phase space subjects d) (whole : PromotesWhole space d) (call : Call)
    (spares : ∀ e ∈ subjects, Spares space e.1 d (.finished call)) :
    Phase space subjects (perform space call d).1 := by
  obtain ⟨during,logs,opened,good,keeps,_⟩ := phase_opens phase whole
  rcases perform_reopened opened call with same | ⟨same,_⟩
  · rw [same]
    refine settled_phase (perform_serves (.opened logs good) "" call).1 fun e inside => ?_
    have present : shown space logs.disk e.1 = some (.reserved e.2) :=
      (good.shown_holds e.1).unique (keeps e inside)
    have serves := (perform_serves (.opened logs good) e.1 call).2
    have spared := spares e inside
    rw [present] at serves
    simp only [Spares,same] at spared
    generalize shown space (perform space call logs.disk).1 e.1 = after at serves ⊢
    generalize (perform space call logs.disk).2 = reply at serves spared
    cases serves with
    | apart _ _ forgets _ _ => cases forgets; rfl
    | replayed => rfl
    | settled a now terminal p t _ _ => exact absurd (by simp [acknowledged]) (spared (receipt t))
  · rw [same d]; exact phase

theorem advance_phase (phase : Phase space subjects d) (whole : PromotesWhole space d)
    (spares : ∀ e ∈ subjects, Spares space e.1 d event) (stepped : advance space d event = some after) :
    Phase space subjects after := by
  cases event with
  | finished call =>
    cases Option.some.inj stepped
    exact finished_phase phase whole call spares
  | died call left =>
    simp only [advance] at stepped
    split at stepped
    · rename_i inside
      cases stepped
      exact died_phase phase whole inside spares
    · cases stepped

theorem run_phase {allowed : Disk → Event → Prop} (phase : Phase space subjects d)
    (path : Run (advance space) allowed d events after)
    (orderly : ∀ d event, allowed d event → PromotesWhole space d ∧ ∀ e ∈ subjects, Spares space e.1 d event) :
    Phase space subjects after :=
  path.invariant (Phase space subjects) phase fun before event _ held fits stepped =>
    let ⟨whole,spares⟩ := orderly before event fits
    advance_phase held whole spares stepped

-- In a run whose recoveries promote no torn log, a reservation with no terminal
-- acknowledged or left whole is there after every crash, and is answered as pending.
theorem orderly_run_keeps_pending (space : AuditNamespace)
    (before : Run (advance space) (fun d _ => PromotesWhole space d) emptyDisk early d)
    (whole : PromotesWhole space d)
    (reserved : (perform space (.reserve request identity now) d).2 = .reserved (.ok none))
    (path : Run (advance space) (Orderly space request) (perform space (.reserve request identity now) d).1 late after) :
    (∃ histories p, load space (openLogs space after).after = .ok histories ∧
      histories.get request = some (.reserved p) ∧ recordIdentity p = identityTuple identity space) ∧
    ∀ again, (perform space (.reserve request identity again) after).2 =
      .reserved (.ok (some (pendingReceipt request identity.agent))) := by
  have start : Phase space [] d := run_phase (.fresh rfl) before fun d event fits => ⟨fits,by simp⟩
  obtain ⟨_,logs,opened,good,_,_⟩ := phase_opens start whole
  rcases perform_reopened opened (.reserve request identity now) with same | ⟨_,never⟩
  · rw [same] at reserved path
    obtain ⟨p,shows,matched,pending⟩ := reserve_first (.opened logs good) reserved
    have held : Phase space [(request,p)] after :=
      run_phase (settled_phase (perform_serves (.opened logs good) request _).1 (by simpa using shows)) path
        fun d event fits => ⟨fits.1,by simpa using fits.2⟩
    obtain ⟨during,last,reopened,stored,readable,keeps⟩ := phase_shows held
    obtain ⟨histories,loaded,reads⟩ := load_reads stored readable none
    have loaded : load space last.disk = .ok histories := loaded
    have found : histories.get request = some (.reserved p) := (reads request).unique (keeps _ List.mem_cons_self)
    refine ⟨⟨histories,p,by rw [reopened]; exact loaded,found,matched⟩,fun again => ?_⟩
    have valid : requestIdRe request = true := shown_named (perform_serves (.opened logs good) request _).1 shows
    simp only [perform,reserve,valid,not_true_eq_false,if_false,reopened,Attempt.bind,reserveOpened,loaded,found,
      History.latest,matched,ne_eq,Attempt.still,pending]
  · exact absurd reserved (never none)

end AgentSideCar.Audit
