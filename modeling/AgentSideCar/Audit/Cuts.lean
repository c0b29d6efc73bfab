import AgentSideCar.Audit.Crash

namespace AgentSideCar.Audit

def Call.requestId : Call → String
  | .reserve requestId _ _ => requestId
  | .appendTerminal requestId _ _ _ => requestId

section Cut
variable (space : AuditNamespace)

-- The disk after a call that returned, or that was stopped before or after any of its writes.
def Struck (call : Call) (d left : Disk) : Prop := left = d ∨ left ∈ (writes space call d).map Prod.snd

-- What the next call finds of a request when it has opened the logs.
def retained (d : Disk) (request : String) : Option History :=
  match (openLogs space d).outcome with
  | .ok () => shown space (openLogs space d).after request
  | .error _ => none

-- No call gets to read these logs, and none changes them.
def Shut (d : Disk) : Prop :=
  (∃ error, openLogs space d = .still d (.error error)) ∨
    (openLogs space d = .still d (.ok ()) ∧ ∀ histories, load space d ≠ .ok histories)

end Cut

variable {space : AuditNamespace}

-- What calls leave that may stop anywhere: logs, a staged file beside them that may be torn,
-- its renames half done, or a torn last line.
inductive Left (space : AuditNamespace) : Disk → Prop where
  | fresh : Left space emptyDisk
  | logs (logs : Logs) : logs.Stored space → Left space logs.disk
  | staged (logs : Logs) (part : Text) : logs.Stored space →
      (∀ records, readRecords part = .ok records → Sound space records ∧ part = payload records) →
      Left space {logs.disk with next := some part}
  | moved (rotated current : List Record) : Sound space rotated → Sound space current →
      Left space ⟨none,some (payload rotated),some (payload current)⟩
  | torn (d : Disk) : Shut space d → Left space d

theorem Shaped.last (shaped : Shaped lines h) : lines.getLast? = some h.latest := by
  cases shaped with
  | reserved p n => simp [List.getLast?_replicate,History.latest]
  | settled p t n => simp [History.latest]

theorem Shaped.open_iff (shaped : Shaped lines h) : h.latest.isPending = true ↔ h = .reserved h.pending := by
  cases shaped with
  | reserved p n pends => simp [History.latest,History.pending,pends]
  | settled p t n pends ended => simp [History.latest,ended]

theorem Shaped.settled_of (shaped : Shaped lines h) (ended : h.latest.isPending = false) :
    h = .settled h.pending h.latest := by
  cases shaped with
  | reserved p n pends => simp [History.latest,pends] at ended
  | settled p t n => rfl

theorem Shaped.first (shaped : Shaped lines h) : h.pending ∈ lines ∧ h.pending.isPending = true := by
  cases shaped with
  | reserved p n pends => exact ⟨by simp [History.pending],pends⟩
  | settled p t n pends => exact ⟨by simp [History.pending],pends⟩

theorem Shaped.pending_of (shaped : Shaped lines h) (inside : r ∈ lines) (pends : r.isPending = true) : r = h.pending := by
  cases shaped with
  | reserved p n => exact (List.mem_replicate.mp inside).2
  | settled p t n _ ended =>
    rcases List.mem_append.mp inside with early | last
    · exact (List.mem_replicate.mp early).2
    · rw [List.mem_singleton.mp last,ended] at pends
      cases pends

-- The later of the lines, where they make a history, make the same one.
theorem Shaped.suffix (whole : Shaped (early ++ late) h) (shaped : Shaped late h') : h = h' := by
  have latest : h.latest = h'.latest := by
    have same := whole.last
    rw [List.getLast?_append_of_ne_nil _ shaped.nonempty,shaped.last] at same
    exact (Option.some.inj same).symm
  have pending : h'.pending = h.pending := whole.pending_of (List.mem_append_right _ shaped.first.1) shaped.first.2
  cases pends : h.latest.isPending with
  | true => rw [whole.open_iff.mp pends,shaped.open_iff.mp (latest ▸ pends),pending]
  | false => rw [whole.settled_of pends,shaped.settled_of (latest ▸ pends),pending,latest]

theorem Holds.suffix (whole : Holds (early ++ late) request h) (holds : Holds late request (some h')) : h = some h' := by
  cases h with
  | none =>
    have empty : ofRequest request early ++ ofRequest request late = [] := by rw [← ofRequest_append]; exact whole
    exact absurd (List.append_eq_nil_iff.mp empty).2 (Shaped.nonempty holds)
  | some h =>
    unfold Holds at whole
    rw [ofRequest_append] at whole
    exact congrArg some (whole.suffix holds)

theorem Holds.ended (holds : Holds records request (some h)) (inside : r ∈ records) (named : r.requestId = request)
    (ended : r.isPending = false) : h.latest = r := by
  have present : r ∈ ofRequest request records := List.mem_filter.mpr ⟨inside,by simpa using named⟩
  unfold Holds at holds
  generalize ofRequest request records = lines at holds present
  cases holds with
  | reserved p n pends =>
    rw [(List.mem_replicate.mp present).2,pends] at ended
    cases ended
  | settled p t n pends =>
    rcases List.mem_append.mp present with early | last
    · rw [(List.mem_replicate.mp early).2,pends] at ended
      cases ended
    · exact (List.mem_singleton.mp last).symm

theorem stored_reads {logs : Logs} (stored : logs.Stored space) (loaded : load space logs.disk = .ok histories) :
    Reads logs.records histories :=
  histories_hold ((load_records stored none).symm.trans loaded)

theorem shown_holds {logs : Logs} (stored : logs.Stored space) (shows : shown space logs.disk request = some h) :
    Holds logs.records request (some h) := by
  unfold shown at shows
  split at shows
  · rename_i histories loaded
    rw [← shows]
    exact stored_reads stored loaded request
  · cases shows

theorem staged_reads (staged : stagedRecords space part = .ok records) : readRecords part = .ok records := by
  unfold stagedRecords at staged
  cases read : readRecords part with
  | error refused => rw [read] at staged; cases staged
  | ok found =>
    rw [read] at staged
    simp only [Except.bind] at staged
    split at staged; · cases staged
    cases valid : validateHistories found with
    | error refused => rw [valid] at staged; cases staged
    | ok histories => rw [valid] at staged; cases staged; rfl

theorem retained_opened {logs : Logs} (opened : openLogs space d = ⟨during,logs.disk,.ok ()⟩) (request : String) :
    retained space d request = shown space logs.disk request := by
  simp only [retained,opened]

theorem retained_shut (shut : Shut space d) (request : String) : retained space d request = none := by
  unfold retained
  rcases shut with ⟨error,opened⟩ | ⟨opened,unread⟩
  · rw [opened]
    rfl
  · rw [opened]
    simp only [Attempt.still,shown]
    cases loaded : load space d with
    | ok histories => exact absurd loaded (unread histories)
    | error refused => rfl

-- Opening the logs, and stopping at any of its writes, leads to the same logs.
theorem Left.opens (left : Left space d) : Shut space d ∨ ∃ during, ∃ logs : Logs,
    openLogs space d = ⟨during,logs.disk,.ok ()⟩ ∧ logs.Stored space ∧
      ∀ w ∈ during, Left space w.2 ∧ ∃ again, openLogs space w.2 = ⟨again,logs.disk,.ok ()⟩ := by
  have opened : ∀ logs : Logs, openLogs space logs.disk = ⟨[],logs.disk,.ok ()⟩ :=
    fun logs => opens_recovered logs (settled_recovers logs)
  cases left with
  | torn _ shut => exact .inl shut
  | fresh =>
    refine .inr ⟨_,⟨none,[]⟩,rfl,first_settled.stored,fun w inside => ?_⟩
    simp [recoverRotation,emptyDisk,Attempt.still] at inside
    subst inside
    exact ⟨.logs ⟨none,[]⟩ first_settled.stored,_,opened ⟨none,[]⟩⟩
  | logs logs stored => exact .inr ⟨_,logs,opened logs,stored,fun w inside => by cases inside⟩
  | staged logs part stored reads =>
    cases staged : stagedRecords space part with
    | error refused =>
      refine .inr ⟨_,logs,opens_recovered logs (torn_recovers logs (by simp [staged])),stored,fun w inside => ?_⟩
      cases List.mem_singleton.mp inside
      exact ⟨.logs logs stored,_,opened logs⟩
    | ok records =>
      obtain ⟨sound,rfl⟩ := reads records (staged_reads staged)
      have later : (⟨some logs.current,records⟩ : Logs).Stored space := ⟨stored.current,sound⟩
      refine .inr ⟨_,_,opens_recovered _ (drafted_recovers logs staged),later,fun w inside => ?_⟩
      rcases List.mem_cons.mp inside with rfl | last
      · exact ⟨.moved _ _ stored.current sound,_,
          opens_recovered ⟨some logs.current,records⟩ (moved_recovers (payload logs.current) staged)⟩
      · cases List.mem_singleton.mp last
        exact ⟨.logs _ later,_,opened _⟩
  | moved rotated current early sound =>
    cases staged : stagedRecords space (payload current) with
    | error refused =>
      refine .inl (.inl ⟨refused,?_⟩)
      simp [openLogs,recoverRotation,staged,Attempt.bind,Attempt.still]
    | ok records =>
      cases (readRecords_sound sound).symm.trans (staged_reads staged)
      have later : (⟨some rotated,current⟩ : Logs).Stored space := ⟨early,sound⟩
      refine .inr ⟨_,_,opens_recovered ⟨some rotated,current⟩ (moved_recovers (payload rotated) staged),later,fun w inside => ?_⟩
      rcases List.mem_cons.mp inside with rfl | last
      · exact ⟨.moved _ _ early sound,_,opens_recovered ⟨some rotated,current⟩ (moved_recovers (payload rotated) staged)⟩
      · cases List.mem_singleton.mp last
        exact ⟨.logs _ later,_,opened ⟨some rotated,current⟩⟩

-- What a request may come to when a record is written: what it was, or the record's own history.
def Gains (histories : Histories) (record : Record) (request : String) (h : History) : Prop :=
  histories.get request = some h ∨ request = record.requestId ∧ added histories record = some h

theorem promoted_gains {logs : Logs} (reads : Reads logs.records histories) (addable : Addable histories record)
    (torn : part <+: rotationRecords histories record) (holds : Holds (logs.current ++ part) request (some h)) :
    Gains histories record request h := by
  obtain ⟨h₀,k,whole,written,grows⟩ := rotation_torn reads addable torn request
  cases whole.unique (reads request)
  have joined := whole.grow written grows
  rw [List.append_assoc] at joined
  have same := joined.suffix holds
  obtain ⟨k',written',cut⟩ := (rotation_holds reads addable request).torn torn
  cases written'.unique written
  rcases cut with rfl | rfl | ⟨p,t,carried,rfl⟩
  · exact .inl (by rwa [Option.none_or] at same)
  · unfold carriedOver at same
    split at same
    · rename_i named
      subst named
      have present : ∃ history, added histories record = some history := by
        unfold added
        cases histories.get record.requestId <;> exact ⟨_,rfl⟩
      obtain ⟨history,found⟩ := present
      rw [found,Option.some_or] at same
      exact .inr ⟨rfl,found.trans same⟩
    · cases found : histories.get request with
      | none => rw [found] at same; cases same
      | some history =>
        rw [found] at same
        cases history with
        | reserved p => exact .inl (found.trans same)
        | settled p t => exact .inl (found.trans same)
  · have full := rotation_grows addable request
    rw [carried] at full
    cases found : histories.get request with
    | none => rw [found] at full; cases full
    | some history =>
      rw [found] at full
      cases full
      rw [Option.some_or] at same
      exact .inl (found.trans same)

theorem torn_unread (cut : part ≠ [] ∧ part.getLast? ≠ some '\n') (records : List Record) : readRecords part ≠ .ok records := by
  unfold readRecords
  split
  · exact nofun
  · rw [parseFile_torn cut]
    exact nofun

theorem unread_current {d : Disk} (unread : ∀ records, readRecords (d.current.getD []) ≠ .ok records) (histories : Histories) :
    load space d ≠ .ok histories := by
  unfold load
  cases rotatedRecords d with
  | error refused => exact nofun
  | ok rotated =>
    cases read : readRecords (d.current.getD []) with
    | ok records => exact absurd read (unread records)
    | error refused => exact nofun

section Adding
variable {logs : Logs} {histories : Histories} {record : Record}

theorem logs_opened (logs : Logs) : openLogs space logs.disk = ⟨[],logs.disk,.ok ()⟩ :=
  opens_recovered logs (settled_recovers logs)

theorem logs_gain (loaded : load space logs.disk = .ok histories) (shows : retained space logs.disk request = some h) :
    Gains histories record request h := by
  rw [retained_opened (logs_opened logs),shown,loaded] at shows
  exact .inl shows

theorem promoted_gain {part : List Record} (stored : (⟨some logs.current,part⟩ : Logs).Stored space) (reads : Reads logs.records histories)
    (addable : Addable histories record) (torn : part <+: rotationRecords histories record)
    (shows : shown space (⟨some logs.current,part⟩ : Logs).disk request = some h) : Gains histories record request h :=
  promoted_gains reads addable torn (shown_holds stored shows)

theorem extended_left (stored : logs.Stored space) (loaded : load space logs.disk = .ok histories) (addable : Addable histories record)
    (sound : Sound space (logs.current ++ [record])) (cut : part <+: line record) :
    Left space {logs.disk with current := some (payload logs.current ++ part)} ∧
      ∀ request h, retained space {logs.disk with current := some (payload logs.current ++ part)} request = some h →
        Gains histories record request h := by
  have written : ∀ r ∈ [record], Written r := fun r inside => sound.written r (List.mem_append_right _ inside)
  have single : payload [record] = line record := by simp [payload]
  rcases payload_torn written (single ▸ cut) with ⟨count,rfl⟩ | torn
  · rcases count with _ | count
    · have same : ({logs.disk with current := some (payload logs.current ++ payload [])} : Disk) = logs.disk := by
        simp [payload,Logs.disk]
      rw [List.take_zero,same]
      exact ⟨.logs logs stored,fun request h => logs_gain loaded⟩
    · have later : (⟨logs.rotated,logs.current ++ [record]⟩ : Logs).Stored space := ⟨stored.early,sound⟩
      have same : ({logs.disk with current := some (payload logs.current ++ payload [record])} : Disk) =
          (⟨logs.rotated,logs.current ++ [record]⟩ : Logs).disk := by
        simp [Logs.disk,payload_append]
      rw [List.take_of_length_le (by simp),same]
      refine ⟨.logs _ later,fun request h shows => ?_⟩
      rw [retained_opened (logs_opened _)] at shows
      have holds := shown_holds later shows
      have grown := extended_holds (stored_reads stored loaded request) addable
      rw [Logs.records,List.append_assoc] at grown
      have same := grown.unique holds
      unfold updated at same
      split at same
      · rename_i named
        exact .inr ⟨named,same⟩
      · exact .inl same
  · have unread : ∀ histories, load space {logs.disk with current := some (payload logs.current ++ part)} ≠ .ok histories :=
      unread_current (torn_unread ⟨by simp [torn.1],by rw [Option.getD_some,List.getLast?_append_of_ne_nil _ torn.1]; exact torn.2⟩)
    have shut : Shut space {logs.disk with current := some (payload logs.current ++ part)} := .inr ⟨rfl,unread⟩
    exact ⟨.torn _ shut,fun request h shows => by rw [retained_shut shut] at shows; cases shows⟩

theorem staged_left (stored : logs.Stored space) (loaded : load space logs.disk = .ok histories) (addable : Addable histories record)
    (sound : Sound space (rotationRecords histories record)) (cut : part <+: payload (rotationRecords histories record)) :
    Left space {logs.disk with next := some part} ∧
      ∀ request h, retained space {logs.disk with next := some part} request = some h → Gains histories record request h := by
  have reads : ∀ records, readRecords part = .ok records →
      records <+: rotationRecords histories record ∧ Sound space records ∧ part = payload records := by
    intro records read
    rcases payload_torn sound.written cut with ⟨count,rfl⟩ | torn
    · have within := List.take_prefix count (rotationRecords histories record)
      cases (readRecords_sound (sound.cut within)).symm.trans read
      exact ⟨within,sound.cut within,rfl⟩
    · exact absurd read (torn_unread torn records)
  refine ⟨.staged logs part stored fun records read => (reads records read).2,fun request h shows => ?_⟩
  cases staged : stagedRecords space part with
  | error refused =>
    rw [retained_opened (opens_recovered logs (torn_recovers logs (by simp [staged])))] at shows
    exact logs_gain loaded ((retained_opened (logs_opened logs) request).trans shows)
  | ok records =>
    obtain ⟨within,whole,rfl⟩ := reads records (staged_reads staged)
    rw [retained_opened (opens_recovered _ (drafted_recovers logs staged))] at shows
    exact promoted_gain ⟨stored.current,whole⟩ (stored_reads stored loaded) addable within shows

-- Every state that writing a record passes through keeps or gains, wherever the write is stopped.
theorem adding_left {attempt : Attempt Unit} (stored : logs.Stored space) (loaded : load space logs.disk = .ok histories)
    (addable : Addable histories record) (adding : Adding space logs histories record attempt) (inside : w ∈ attempt.during) :
    Left space w.2 ∧ ∀ request h, retained space w.2 request = some h → Gains histories record request h := by
  cases adding with
  | refused error => cases inside
  | extended sound =>
    obtain ⟨part,cut,rfl⟩ := List.mem_map.mp inside
    exact extended_left stored loaded addable sound ((List.mem_inits _ _).mp cut)
  | rotated sound =>
    have later : (⟨some logs.current,rotationRecords histories record⟩ : Logs).Stored space := ⟨stored.current,sound⟩
    have gains : ∀ request h, shown space (⟨some logs.current,rotationRecords histories record⟩ : Logs).disk request = some h →
        Gains histories record request h :=
      fun request h => promoted_gain later (stored_reads stored loaded) addable List.prefix_rfl
    rcases List.mem_append.mp inside with staging | renamed
    · obtain ⟨part,cut,rfl⟩ := List.mem_map.mp staging
      exact staged_left stored loaded addable sound ((List.mem_inits _ _).mp cut)
    · rcases List.mem_cons.mp renamed with rfl | last
      · have left : Left space ⟨none,some (payload logs.current),some (payload (rotationRecords histories record))⟩ :=
          .moved _ _ stored.current sound
        refine ⟨left,fun request h shows => ?_⟩
        cases staged : stagedRecords space (payload (rotationRecords histories record)) with
        | error refused =>
          have shut : Shut space ⟨none,some (payload logs.current),some (payload (rotationRecords histories record))⟩ :=
            .inl ⟨refused,by simp [openLogs,recoverRotation,staged,Attempt.bind,Attempt.still]⟩
          cases (retained_shut shut request).symm.trans shows
        | ok records =>
          cases (readRecords_sound sound).symm.trans (staged_reads staged)
          exact gains request h ((retained_opened (opens_recovered _ (moved_recovers _ staged)) request).symm.trans shows)
      · cases List.mem_singleton.mp last
        exact ⟨.logs _ later,fun request h shows => gains request h ((retained_opened (logs_opened _) request).symm.trans shows)⟩

end Adding

-- What a call, finished or not, makes of the history of a request that is retained afterwards.
inductive Kept (space : AuditNamespace) (request : String) : Call → Option History → History → Prop where
  | same (call : Call) (h : History) : Kept space request call (some h) h
  | reserved (identity : AuditIdentity) (now : Clock) :
      Kept space request (.reserve request identity now) none (.reserved (baseRecord request identity space now none))
  | settled (identity : AuditIdentity) (now : Clock) (terminal : Terminal) (p : Record) :
      recordIdentity p = identityTuple identity space → Kept space request (.appendTerminal request identity now terminal)
        (some (.reserved p)) (.settled p (baseRecord request identity space now (some terminal)))

theorem shown_loaded (loaded : load space d = .ok histories) (request : String) : shown space d request = histories.get request := by
  rw [shown,loaded]

-- What a call does with logs that it has opened.
inductive Reserving (space : AuditNamespace) (logs : Logs) (name : String) (identity : AuditIdentity) (now : Clock) :
    Attempt (Option AuditReceipt) → Prop where
  | refused (error : AuditError) : Reserving space logs name identity now (.still logs.disk (.error error))
  | known (histories : Histories) (history : History) : load space logs.disk = .ok histories → histories.get name = some history →
      Reserving space logs name identity now (.still logs.disk (if recordIdentity history.latest = identityTuple identity space
        then .ok (some (receipt history.latest)) else .error .requestConflict))
  | wrote (histories : Histories) : load space logs.disk = .ok histories → histories.get name = none →
      (baseRecord name identity space now none).valid = true → Reserving space logs name identity now
        ((append logs.disk (baseRecord name identity space now none) histories).bind fun d _ => .still d (.ok none))

inductive Settling (space : AuditNamespace) (logs : Logs) (name : String) (identity : AuditIdentity) (now : Clock) (terminal : Terminal) :
    Attempt AuditReceipt → Prop where
  | refused (error : AuditError) : Settling space logs name identity now terminal (.still logs.disk (.error error))
  | wrote (histories : Histories) (p : Record) : load space logs.disk = .ok histories → histories.get name = some (.reserved p) →
      recordIdentity p = identityTuple identity space → (baseRecord name identity space now (some terminal)).valid = true →
      Settling space logs name identity now terminal ((append logs.disk (baseRecord name identity space now (some terminal)) histories).bind
        fun d _ => .still d (.ok (receipt (baseRecord name identity space now (some terminal)))))

theorem reserveOpened_reserving (space : AuditNamespace) (logs : Logs) (name : String) (identity : AuditIdentity) (now : Clock) :
    Reserving space logs name identity now (reserveOpened space name identity now logs.disk) := by
  unfold reserveOpened
  cases loaded : load space logs.disk with
  | error refused => exact .refused refused
  | ok histories =>
    simp only
    cases found : histories.get name with
    | some history =>
      have answers : Reserving space logs name identity now _ := .known histories history loaded found
      simp only
      by_cases same : recordIdentity history.latest = identityTuple identity space
      · rw [if_neg (not_not.mpr same)]
        rwa [if_pos same] at answers
      · rw [if_pos same]
        rwa [if_neg same] at answers
    | none =>
      simp only
      cases checked : validateRecord (baseRecord name identity space now none).fields with
      | error refused => exact .refused refused
      | ok record =>
        obtain ⟨rfl,valid⟩ := valid_of checked
        exact .wrote histories loaded found valid

theorem appendTerminalOpened_settling {logs : Logs} (stored : logs.Stored space) (name : String) (identity : AuditIdentity) (now : Clock)
    (terminal : Terminal) : Settling space logs name identity now terminal (appendTerminalOpened space name identity now terminal logs.disk) := by
  unfold appendTerminalOpened
  cases loaded : load space logs.disk with
  | error refused => exact .refused refused
  | ok histories =>
    simp only
    cases found : histories.get name with
    | none => exact .refused _
    | some history =>
      simp only
      split; · exact .refused _
      rename_i matched
      split; · exact .refused _
      rename_i pends
      cases checked : validateRecord (baseRecord name identity space now (some terminal)).fields with
      | error refused => exact .refused refused
      | ok record =>
        obtain ⟨rfl,valid⟩ := valid_of checked
        have holds := stored_reads stored loaded name
        rw [found] at holds
        obtain ⟨p,rfl⟩ := holds.open_pending (by simpa using pends)
        exact .wrote histories p loaded found (not_not.mp matched) valid

theorem reserveOpened_left {logs : Logs} (stored : logs.Stored space)
    (inside : w ∈ (reserveOpened space name identity now logs.disk).during) :
    Left space w.2 ∧ ∀ request h, retained space w.2 request = some h →
      Kept space request (.reserve name identity now) (shown space logs.disk request) h := by
  have reserving := reserveOpened_reserving space logs name identity now
  generalize reserveOpened space name identity now logs.disk = attempt at inside reserving
  cases reserving with
  | refused error => cases inside
  | known histories history loaded found => cases inside
  | wrote histories loaded found valid =>
    rw [written_during] at inside
    have addable : Addable histories (baseRecord name identity space now none) := .pending rfl found
    obtain ⟨left,gains⟩ := adding_left stored loaded addable
      (append_adding stored (stored_reads stored loaded) addable valid rfl) inside
    refine ⟨left,fun request h shows => ?_⟩
    rw [shown_loaded loaded]
    rcases gains request h shows with same | ⟨named,made⟩
    · rw [same]
      exact .same _ h
    · cases named
      rw [added,baseRecord_requestId,found] at made
      cases made
      rw [baseRecord_requestId,found]
      exact .reserved identity now

theorem appendTerminalOpened_left {logs : Logs} (stored : logs.Stored space)
    (inside : w ∈ (appendTerminalOpened space name identity now terminal logs.disk).during) :
    Left space w.2 ∧ ∀ request h, retained space w.2 request = some h →
      Kept space request (.appendTerminal name identity now terminal) (shown space logs.disk request) h := by
  have settling := appendTerminalOpened_settling stored name identity now terminal
  generalize appendTerminalOpened space name identity now terminal logs.disk = attempt at inside settling
  cases settling with
  | refused error => cases inside
  | wrote histories p loaded found same valid =>
    rw [written_during] at inside
    have addable : Addable histories (baseRecord name identity space now (some terminal)) := .terminal rfl found same.symm
    obtain ⟨left,gains⟩ := adding_left stored loaded addable
      (append_adding stored (stored_reads stored loaded) addable valid rfl) inside
    refine ⟨left,fun request h shows => ?_⟩
    rw [shown_loaded loaded]
    rcases gains request h shows with kept | ⟨named,made⟩
    · rw [kept]
      exact .same _ h
    · cases named
      rw [added,baseRecord_requestId,found] at made
      cases made
      rw [baseRecord_requestId,found]
      exact .settled identity now terminal p same

-- A call fails on logs that are shut, and goes on with the opened ones otherwise.
theorem Left.goes_on (left : Left space d) {body : Disk → Attempt α}
    (refuses : ∀ d refused, load space d = .error refused → body d = .still d (.error refused)) :
    (∃ error, (openLogs space d).bind (fun d _ => body d) = .still d (.error error)) ∨ ∃ during, ∃ logs : Logs, ∃ answer,
      openLogs space d = ⟨during,logs.disk,.ok ()⟩ ∧ logs.Stored space ∧ answer = body logs.disk ∧
        (openLogs space d).bind (fun d _ => body d) = ⟨during ++ answer.during,answer.after,answer.outcome⟩ := by
  rcases left.opens with (⟨error,opened⟩ | ⟨opened,unread⟩) | ⟨during,logs,opened,stored,_⟩
  · exact .inl ⟨error,by rw [opened]; rfl⟩
  · cases loaded : load space d with
    | ok histories => exact absurd loaded (unread histories)
    | error refused =>
      refine .inl ⟨refused,?_⟩
      rw [opened]
      simp only [Attempt.bind,Attempt.still,refuses d refused loaded,List.nil_append]
  · exact .inr ⟨during,logs,_,opened,stored,rfl,by rw [opened]; rfl⟩

theorem reserve_cases (left : Left space d) (name : String) (identity : AuditIdentity) (now : Clock) :
    (∃ error, reserve space name identity now d = .still d (.error error)) ∨ ∃ during, ∃ logs : Logs, ∃ body,
      openLogs space d = ⟨during,logs.disk,.ok ()⟩ ∧ logs.Stored space ∧ body = reserveOpened space name identity now logs.disk ∧
        reserve space name identity now d = ⟨during ++ body.during,body.after,body.outcome⟩ := by
  unfold reserve
  split; · exact .inl ⟨_,rfl⟩
  exact left.goes_on fun _ _ loaded => by rw [reserveOpened,loaded]

theorem appendTerminal_cases (left : Left space d) (name : String) (identity : AuditIdentity) (now : Clock) (terminal : Terminal) :
    (∃ error, appendTerminal space name identity now terminal d = .still d (.error error)) ∨ ∃ during, ∃ logs : Logs, ∃ body,
      openLogs space d = ⟨during,logs.disk,.ok ()⟩ ∧ logs.Stored space ∧
        body = appendTerminalOpened space name identity now terminal logs.disk ∧
        appendTerminal space name identity now terminal d = ⟨during ++ body.during,body.after,body.outcome⟩ := by
  unfold appendTerminal
  split; · exact .inl ⟨_,rfl⟩
  exact left.goes_on fun _ _ loaded => by rw [appendTerminalOpened,loaded]

theorem opening_left (left : Left space d) (opened : openLogs space d = ⟨during,after,.ok ()⟩) (inside : w ∈ during) :
    Left space w.2 ∧ ∀ request, retained space w.2 request = retained space d request := by
  rcases left.opens with (⟨error,shut⟩ | ⟨shut,_⟩) | ⟨during',logs,opened',_,early⟩
  · cases opened.symm.trans shut
  · cases opened.symm.trans shut
    cases inside
  · cases opened.symm.trans opened'
    obtain ⟨later,again,reopened⟩ := early w inside
    exact ⟨later,fun request => (retained_opened reopened request).trans (retained_opened opened request).symm⟩

-- The step lemma: whatever a call does, the request's history stays, unless it is lost, or the
-- call is the one that begins it or the one that ends it.
theorem struck_kept (left : Left space d) (struck : Struck space call d after) :
    Left space after ∧ ∀ request h, retained space after request = some h →
      Kept space request call (retained space d request) h := by
  rcases struck with rfl | wrote
  · exact ⟨left,fun request h shows => by rw [shows]; exact .same call h⟩
  · obtain ⟨w,inside,rfl⟩ := List.mem_map.mp wrote
    have opening : ∀ {during after}, openLogs space d = ⟨during,after,.ok ()⟩ → w ∈ during → Left space w.2 ∧
        ∀ request h, retained space w.2 request = some h → Kept space request call (retained space d request) h := by
      intro during after opened inside
      obtain ⟨later,same⟩ := opening_left left opened inside
      exact ⟨later,fun request h shows => by rw [← same,shows]; exact .same call h⟩
    cases call with
    | reserve name identity now =>
      rcases reserve_cases left name identity now with ⟨error,still⟩ | ⟨during,logs,_,opened,stored,rfl,whole⟩
      · rw [writes,still] at inside
        cases inside
      · rw [writes,whole] at inside
        rcases List.mem_append.mp inside with first | second
        · exact opening opened first
        · simp only [retained_opened opened]
          exact reserveOpened_left stored second
    | appendTerminal name identity now terminal =>
      rcases appendTerminal_cases left name identity now terminal with ⟨error,still⟩ | ⟨during,logs,_,opened,stored,rfl,whole⟩
      · rw [writes,still] at inside
        cases inside
      · rw [writes,whole] at inside
        rcases List.mem_append.mp inside with first | second
        · exact opening opened first
        · simp only [retained_opened opened]
          exact appendTerminalOpened_left stored second

def Attempt.Ends (attempt : Attempt α) (d : Disk) : Prop := attempt.after = d ∨ attempt.after ∈ attempt.during.map Prod.snd

theorem Attempt.Ends.still {outcome : Except AuditError α} : (Attempt.still d outcome).Ends d := .inl rfl

theorem Attempt.Ends.bind {first : Attempt α} {next : Disk → α → Attempt β} (ends : first.Ends d)
    (later : ∀ value, first.outcome = .ok value → (next first.after value).Ends first.after) : (first.bind next).Ends d := by
  unfold Attempt.bind
  split
  · exact ends
  · rename_i value done
    rcases later value done with still | wrote
    · unfold Attempt.Ends
      simp only [still,List.map_append,List.mem_append]
      rcases ends with same | inside
      · exact .inl same
      · exact .inr (.inl inside)
    · exact .inr (by rw [List.map_append]; exact List.mem_append_right _ wrote)

theorem extend_ends (d : Disk) (encoded : Text) : (extend d encoded).Ends d :=
  .inr (List.mem_map.mpr ⟨_,List.mem_map.mpr ⟨encoded,(List.mem_inits _ _).mpr List.prefix_rfl,rfl⟩,rfl⟩)

theorem append_ends (d : Disk) (record : Record) (histories : Histories) : (append d record histories).Ends d := by
  unfold append
  split; · exact .still
  split; · exact .still
  split
  · split; · exact .still
    split
    · exact .inr (by simp [rotate])
    · exact .still
  · exact extend_ends _ _

theorem openLogs_ends (space : AuditNamespace) (d : Disk) : (openLogs space d).Ends d := by
  refine .bind ?_ fun _ _ => ?_
  · unfold recoverRotation
    split; · exact .still
    split; · exact .still
    split
    · split
      · exact .still
      · exact .inr (by simp)
    · exact .inr (by simp)
  · split
    · exact .still
    · exact .inr (by simp)

theorem reserve_ends (space : AuditNamespace) : (reserve space name identity now d).Ends d := by
  unfold reserve
  split; · exact .still
  refine (openLogs_ends space d).bind fun _ _ => ?_
  unfold reserveOpened
  split; · exact .still
  split
  · split <;> exact .still
  · split; · exact .still
    exact (append_ends _ _ _).bind fun _ _ => .still

theorem appendTerminal_ends (space : AuditNamespace) : (appendTerminal space name identity now terminal d).Ends d := by
  unfold appendTerminal
  split; · exact .still
  refine (openLogs_ends space d).bind fun _ _ => ?_
  unfold appendTerminalOpened
  split; · exact .still
  split; · exact .still
  split; · exact .still
  split; · exact .still
  split; · exact .still
  exact (append_ends _ _ _).bind fun _ _ => .still

theorem perform_struck (space : AuditNamespace) (call : Call) (d : Disk) : Struck space call d (perform space call d).1 := by
  cases call with
  | reserve => exact reserve_ends space
  | appendTerminal => exact appendTerminal_ends space

theorem retained_loads {logs : Logs} (opened : openLogs space d = ⟨during,logs.disk,.ok ()⟩)
    (shows : retained space d request = some h) :
    ∃ histories, load space logs.disk = .ok histories ∧ histories.get request = some h := by
  rw [retained_opened opened,shown] at shows
  cases loaded : load space logs.disk with
  | error refused => rw [loaded] at shows; cases shows
  | ok histories => rw [loaded] at shows; exact ⟨histories,rfl,shows⟩

theorem Left.opened (left : Left space d) (shows : retained space d request = some h) : ∃ during, ∃ logs : Logs,
    ∃ histories, openLogs space d = ⟨during,logs.disk,.ok ()⟩ ∧ logs.Stored space ∧ load space logs.disk = .ok histories ∧
      histories.get request = some h := by
  rcases left.opens with shut | ⟨during,logs,opened,stored,_⟩
  · rw [retained_shut shut] at shows
    cases shows
  · obtain ⟨histories,loaded,found⟩ := retained_loads opened shows
    exact ⟨during,logs,histories,opened,stored,loaded,found⟩

-- A retained history is valid, and its name is one that requests may have.
theorem Left.valid (left : Left space d) (shows : retained space d request = some h) :
    requestIdRe request = true ∧ h.pending.valid = true ∧ h.latest.valid = true ∧ h.latest.requestId = request := by
  obtain ⟨_,logs,histories,_,stored,loaded,found⟩ := left.opened shows
  have holds := stored_reads stored loaded request
  rw [found] at holds
  have written : ∀ r ∈ logs.records, Written r := fun r inside => (List.mem_append.mp inside).elim
    (stored.early.written r) (stored.current.written r)
  have latest := holds.members.2
  have named : h.latest.requestId = request := by
    unfold Holds at holds
    have inside := holds.last
    rw [List.getLast?_eq_some_iff] at inside
    obtain ⟨early,whole⟩ := inside
    have inside : h.latest ∈ ofRequest request logs.records := by rw [whole]; simp
    simpa [ofRequest] using (List.mem_filter.mp inside).2
  have valid := (written _ latest).valid
  refine ⟨?_,(written _ holds.members.1).valid,valid,named⟩
  simp only [Record.valid,Bool.and_eq_true] at valid
  exact named ▸ valid.1.2

-- A retained request is answered from its history.
theorem reserve_retained (left : Left space d) (shows : retained space d request = some h) (identity : AuditIdentity) (now : Clock) :
    (reserve space request identity now d).outcome =
      if recordIdentity h.latest = identityTuple identity space then .ok (some (receipt h.latest)) else .error .requestConflict := by
  obtain ⟨during,logs,histories,opened,_,loaded,found⟩ := left.opened shows
  simp only [reserve,(left.valid shows).1,not_true_eq_false,if_false,opened,Attempt.bind,reserveOpened,loaded,found]
  by_cases same : recordIdentity h.latest = identityTuple identity space <;> simp [same,Attempt.still]

theorem reserve_fresh (left : Left space d) (fresh : (reserve space request identity now d).outcome = .ok none) :
    retained space d request = none := by
  cases shows : retained space d request with
  | none => rfl
  | some h =>
    rw [reserve_retained left shows] at fresh
    split at fresh <;> cases fresh

theorem reserve_known (left : Left space d) (known : (reserve space request identity now d).outcome = .ok (some found)) :
    ∃ h, retained space d request = some h := by
  rcases reserve_cases left request identity now with ⟨error,still⟩ | ⟨during,logs,_,opened,stored,rfl,whole⟩
  · rw [still] at known
    cases known
  · rw [whole] at known
    simp only at known
    have reserving := reserveOpened_reserving space logs request identity now
    generalize reserveOpened space request identity now logs.disk = attempt at known reserving
    cases reserving with
    | refused error => cases known
    | known histories history loaded present => exact ⟨history,by rw [retained_opened opened,shown_loaded loaded,present]⟩
    | wrote histories =>
      unfold Attempt.bind at known
      split at known <;> cases known

theorem reserved_begins (left : Left space d) (fresh : (reserve space request identity now d).outcome = .ok none)
    (shows : retained space (reserve space request identity now d).after request = some h) :
    h = .reserved (baseRecord request identity space now none) := by
  have kept := (struck_kept left (perform_struck space (.reserve request identity now) d)).2 request h shows
  rw [reserve_fresh left fresh] at kept
  cases kept
  rfl

-- A terminal that is acknowledged is the latest record for as long as the history is retained.
theorem acknowledged_latest (left : Left space d)
    (answered : (appendTerminal space request identity now terminal d).outcome = .ok accepted)
    (shows : retained space (appendTerminal space request identity now terminal d).after request = some h) :
    h.latest = baseRecord request identity space now (some terminal) := by
  rcases appendTerminal_cases left request identity now terminal with ⟨error,still⟩ | ⟨during,logs,_,opened,stored,rfl,whole⟩
  · rw [still] at answered
    cases answered
  · rw [whole] at answered shows
    simp only at answered shows
    have settling := appendTerminalOpened_settling stored request identity now terminal
    generalize appendTerminalOpened space request identity now terminal logs.disk = attempt at answered shows settling
    cases settling with
    | refused error => cases answered
    | wrote histories p loaded found same valid =>
      have addable : Addable histories (baseRecord request identity space now (some terminal)) := .terminal rfl found same.symm
      have adding := append_adding stored (stored_reads stored loaded) addable valid rfl
      rcases adding.added with ⟨error,refused⟩ | ⟨done,after,placed,added⟩
      · rw [refused] at answered
        cases answered
      · simp only [Attempt.bind,done,Attempt.still,placed] at shows
        rw [retained_opened (logs_opened after)] at shows
        have later : after.Stored space := added.stored stored
        refine (shown_holds later shows).ended ?_ rfl rfl
        cases added with
        | extended => simp [Logs.records]
        | rotated => simp [Logs.records,rotationRecords,found,baseRecord,Record.isPending]

theorem encodedRecord_refuses (refused : encodedRecord record = .error error) : error = .auditError := by
  unfold encodedRecord at refused
  simp only at refused
  split at refused
  · cases refused
  · exact (Except.error.inj refused).symm

theorem encoded_refuses {records : List Record} (refused : records.mapM encodedRecord = .error error) : error = .auditError := by
  induction records with
  | nil => cases refused
  | cons r rest ih =>
    rw [List.mapM_cons] at refused
    cases here : encodedRecord r with
    | error first =>
      rw [here] at refused
      cases refused
      exact encodedRecord_refuses here
    | ok text =>
      rw [here] at refused
      cases later : rest.mapM encodedRecord with
      | error second =>
        rw [later] at refused
        cases refused
        exact ih later
      | ok texts => rw [later] at refused; cases refused

-- Opened logs refuse a terminal for want of room only.
theorem append_refuses {d : Disk} (opened : histories.get record.requestId = some (.reserved p)) (ended : record.isPending = false)
    (clear : d.next = none) (refused : (append d record histories).outcome = .error error) : error = .auditError := by
  unfold append at refused
  cases encoded : encodedRecord record with
  | error first =>
    rw [encoded] at refused
    cases refused
    exact encodedRecord_refuses encoded
  | ok text =>
    rw [encoded] at refused
    simp only at refused
    cases pendings : activePendingPayload histories record with
    | error second =>
      rw [pendings] at refused
      cases refused
      unfold activePendingPayload at pendings
      simp only at pendings
      split at pendings
      · exact (Except.error.inj pendings).symm
      · split at pendings
        · rename_i third listed
          cases pendings
          exact encoded_refuses listed
        · split at pendings
          · exact (Except.error.inj pendings).symm
          · cases pendings
    | ok open_text =>
      rw [pendings] at refused
      simp only at refused
      split at refused
      · cases rotation : rotationPayload histories record text open_text with
        | ok whole =>
          rw [rotation] at refused
          simp only at refused
          cases refused
        | error second =>
          rw [rotation] at refused
          cases refused
          have full : ∀ whole : Text, (if whole = [] ∨ whole.length > maxAuditBytes then Except.error AuditError.auditError
              else .ok whole) = .error error → error = .auditError := by
            intro whole full
            split at full
            · exact (Except.error.inj full).symm
            · cases full
          simp only [rotationPayload,ended,opened] at rotation
          cases first : encodedRecord p with
          | error third =>
            rw [first] at rotation
            cases rotation
            exact encodedRecord_refuses first
          | ok text =>
            rw [first] at rotation
            exact full _ rotation
      · cases refused

-- The terminal of a retained reservation, if the validator accepts it, is refused for want of room only.
theorem terminal_taken (left : Left space d)
    (shows : retained space d request = some (.reserved (baseRecord request identity space began none)))
    (accepted : terminal.valid = true) (stamp : validTimestamp now.stamp = true) :
    (appendTerminal space request identity now terminal d).outcome = .ok (receipt (baseRecord request identity space now (some terminal))) ∨
      (appendTerminal space request identity now terminal d).outcome = .error .auditError := by
  obtain ⟨during,logs,histories,opened,_,loaded,found⟩ := left.opened shows
  obtain ⟨named,valid,_,_⟩ := left.valid shows
  have checked : (baseRecord request identity space now (some terminal)).valid = true := by
    simp only [History.pending,Record.valid,baseRecord,Bool.and_eq_true,Option.all_none,Option.all_some] at valid ⊢
    obtain ⟨⟨⟨⟨⟨⟨⟨⟨_,epoch⟩,agent⟩,target⟩,asked⟩,base⟩,mode⟩,name⟩,_⟩ := valid
    exact ⟨⟨⟨⟨⟨⟨⟨⟨stamp,epoch⟩,agent⟩,target⟩,asked⟩,base⟩,mode⟩,name⟩,accepted⟩
  have matched : recordIdentity (baseRecord request identity space began none) = identityTuple identity space := rfl
  have pends : (baseRecord request identity space began none).isPending = true := rfl
  simp only [appendTerminal,named,not_true_eq_false,if_false,opened,Attempt.bind,appendTerminalOpened,loaded,found,History.latest,
    matched,ne_eq,pends,validateRecord_fields,checked,if_true]
  cases wrote : (append logs.disk (baseRecord request identity space now (some terminal)) histories).outcome with
  | error error =>
    cases append_refuses (by rw [baseRecord_requestId]; exact found) rfl rfl wrote
    exact .inr rfl
  | ok done => exact .inl rfl

end AgentSideCar.Audit
