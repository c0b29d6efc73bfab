import AgentSideCar.Audit.Identity
import AgentSideCar.Audit.Payload
import Mathlib.Data.List.Sort

namespace AgentSideCar.Audit
open Json (Scalar)

-- audit.jsonl, audit.jsonl.1 and audit.jsonl.next.
structure Disk where
  current : Option Text
  rotated : Option Text
  next : Option Text
deriving DecidableEq

def emptyDisk : Disk := ⟨none,none,none⟩

-- What a write belongs to: the steps of a rotation or of its recovery, the
-- creation of an empty log, or a line added to the log in place.
inductive Write where
  | rotation
  | creation
  | line
deriving DecidableEq

-- A call on the disk: the disk after each of its writes, and how it returns.
structure Attempt (α : Type) where
  during : List (Write × Disk)
  after : Disk
  outcome : Except AuditError α

def Attempt.still (d : Disk) (outcome : Except AuditError α) : Attempt α := ⟨[],d,outcome⟩

def Attempt.bind (first : Attempt α) (next : Disk → α → Attempt β) : Attempt β :=
  match first.outcome with
  | .error refused => ⟨first.during,first.after,.error refused⟩
  | .ok value =>
    let second := next first.after value
    ⟨first.during ++ second.during,second.after,second.outcome⟩

def readRecords (content : Text) : Except AuditError (List Record) :=
  if content.length > maxAuditBytes then .error .auditCorrupt else parseFile content

def stagedRecords (space : AuditNamespace) (staged : Text) : Except AuditError (List Record) :=
  (readRecords staged).bind fun records =>
    if records = [] ∨ records.any (·.namespaceEpoch ≠ space.namespaceEpoch) then .error .auditCorrupt
    else (validateHistories records).map fun _ => records

-- A staged log that parses replaces the current one; another is discarded.
def recoverRotation (space : AuditNamespace) (d : Disk) : Attempt Unit :=
  match d.next with
  | none => .still d (.ok ())
  | some staged =>
    if d.current = none ∧ d.rotated = none then .still d (.error .auditCorrupt)
    else match stagedRecords space staged with
      | .error refused =>
        if d.current = none then .still d (.error refused)
        else
          let after := {d with next := none}
          ⟨[(.rotation,after)],after,.ok ()⟩
      | .ok _ =>
        let moved : Disk := match d.current with
          | some current => ⟨none,some current,d.next⟩
          | none => d
        let after : Disk := ⟨some staged,moved.rotated,none⟩
        ⟨[(.rotation,moved),(.rotation,after)],after,.ok ()⟩

def openLogs (space : AuditNamespace) (d : Disk) : Attempt Unit :=
  (recoverRotation space d).bind fun d _ =>
    match d.current with
    | some _ => .still d (.ok ())
    | none =>
      let after := {d with current := some []}
      ⟨[(.creation,after)],after,.ok ()⟩

def rotatedRecords (d : Disk) : Except AuditError (List Record) :=
  match d.rotated with
  | none => .ok []
  | some content => readRecords content

def load (space : AuditNamespace) (d : Disk) : Except AuditError Histories :=
  (rotatedRecords d).bind fun rotated =>
  (readRecords (d.current.getD [])).bind fun current =>
    if (rotated ++ current).any (·.namespaceEpoch ≠ space.namespaceEpoch) then .error .auditCorrupt
    else validateHistories (rotated ++ current)

-- A timestamp as a whole number of units and the number of its decimals.
def ticks : Scalar → Nat × Nat
  | .int n => (n.toNat,0)
  | .float _ whole places => (Nat.ofDigitChars 10 places.val whole,places.val.length)
  | _ => (0,0)

def earlier (a b : Scalar) : Bool := (ticks a).1 * 10 ^ (ticks b).2 < (ticks b).1 * 10 ^ (ticks a).2

def pendingOrder (a b : Record) : Prop :=
  earlier a.timestamp b.timestamp ∨ (¬ earlier b.timestamp a.timestamp ∧ a.requestId ≤ b.requestId)

instance : DecidableRel pendingOrder := fun a b => by unfold pendingOrder; infer_instance

def History.active : History → Option Record
  | .reserved pending => some pending
  | .settled _ _ => none

-- The open reservations once the record is added, oldest first.
def activePendings (histories : Histories) (record : Record) : List Record :=
  let others := (histories.values.filterMap History.active).filter (·.requestId ≠ record.requestId)
  (if record.isPending then others ++ [record] else others).insertionSort pendingOrder

def activePendingPayload (histories : Histories) (record : Record) : Except AuditError Text :=
  let active := activePendings histories record
  if active.length > maxActivePendingRecords then .error .auditError
  else match active.mapM encodedRecord with
    | .error refused => .error refused
    | .ok payloads =>
      if payloads.flatten.length > maxActivePendingBytes then .error .auditError else .ok payloads.flatten

def rotationPayload (histories : Histories) (record : Record) (encoded pendings : Text) : Except AuditError Text :=
  let whole : Except AuditError Text :=
    if record.isPending then .ok pendings
    else match histories.get record.requestId with
      | some (.reserved pending) => (encodedRecord pending).map fun reserved => pendings ++ reserved ++ encoded
      | _ => .error .auditCorrupt
  whole.bind fun rotation =>
    if rotation = [] ∨ rotation.length > maxAuditBytes then .error .auditError else .ok rotation

-- The staged log is written from its first byte to its last, then both files are renamed.
def rotate (d : Disk) (rotation : Text) : Attempt Unit :=
  let after : Disk := ⟨some rotation,d.current,none⟩
  ⟨rotation.inits.map (fun part => (.rotation,{d with next := some part}))
      ++ [(.rotation,⟨none,d.current,some rotation⟩),(.rotation,after)],after,.ok ()⟩

def extend (d : Disk) (encoded : Text) : Attempt Unit :=
  let current := d.current.getD []
  let after := {d with current := some (current ++ encoded)}
  ⟨encoded.inits.map (fun part => (.line,{d with current := some (current ++ part)})),after,.ok ()⟩

def append (d : Disk) (record : Record) (histories : Histories) : Attempt Unit :=
  match encodedRecord record with
  | .error refused => .still d (.error refused)
  | .ok encoded =>
    match activePendingPayload histories record with
    | .error refused => .still d (.error refused)
    | .ok pendings =>
      if (d.current.getD []).length + encoded.length > maxAuditBytes then
        match rotationPayload histories record encoded pendings with
        | .error refused => .still d (.error refused)
        | .ok rotation => if d.next = none then rotate d rotation else .still d (.error .auditCorrupt)
      else extend d encoded

section Calls
variable (space : AuditNamespace)

def reserveOpened (requestId : String) (identity : AuditIdentity) (now : Clock) (d : Disk) :
    Attempt (Option AuditReceipt) :=
  match load space d with
  | .error refused => .still d (.error refused)
  | .ok histories =>
    match histories.get requestId with
    | some history =>
      if recordIdentity history.latest ≠ identityTuple identity space then .still d (.error .requestConflict)
      else .still d (.ok (some (receipt history.latest)))
    | none =>
      match validateRecord (baseRecord requestId identity space now none).fields with
      | .error refused => .still d (.error refused)
      | .ok record => (append d record histories).bind fun d _ => .still d (.ok none)

def reserve (requestId : String) (identity : AuditIdentity) (now : Clock) (d : Disk) :
    Attempt (Option AuditReceipt) :=
  if ¬ requestIdRe requestId then .still d (.error .invalidRequestId)
  else (openLogs space d).bind fun d _ => reserveOpened space requestId identity now d

def appendTerminalOpened (requestId : String) (identity : AuditIdentity) (now : Clock) (terminal : Terminal)
    (d : Disk) : Attempt AuditReceipt :=
  match load space d with
  | .error refused => .still d (.error refused)
  | .ok histories =>
    match histories.get requestId with
    | none => .still d (.error .auditCorrupt)
    | some history =>
      if recordIdentity history.latest ≠ identityTuple identity space then .still d (.error .requestConflict)
      else if ¬ history.latest.isPending then .still d (.error .auditCorrupt)
      else match validateRecord (baseRecord requestId identity space now (some terminal)).fields with
        | .error refused => .still d (.error refused)
        | .ok record => (append d record histories).bind fun d _ => .still d (.ok (receipt record))

def appendTerminal (requestId : String) (identity : AuditIdentity) (now : Clock) (terminal : Terminal) (d : Disk) :
    Attempt AuditReceipt :=
  if ¬ requestIdRe requestId then .still d (.error .invalidRequestId)
  else (openLogs space d).bind fun d _ => appendTerminalOpened space requestId identity now terminal d

end Calls
end AgentSideCar.Audit
