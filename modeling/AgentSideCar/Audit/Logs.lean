import AgentSideCar.Audit.Store

namespace AgentSideCar.Audit

-- The two logs as the records their lines hold.
structure Logs where
  rotated : Option (List Record)
  current : List Record

namespace Logs
def early (logs : Logs) : List Record := logs.rotated.getD []
def records (logs : Logs) : List Record := logs.early ++ logs.current
def disk (logs : Logs) : Disk := ⟨some (payload logs.current),logs.rotated.map payload,none⟩

end Logs

variable {space : AuditNamespace}

-- Every line is one the store writes, and each file is within its limit.
structure Sound (space : AuditNamespace) (records : List Record) : Prop where
  written : ∀ r ∈ records, Written r
  epoch : ∀ r ∈ records, r.namespaceEpoch = space.namespaceEpoch
  size : (payload records).length ≤ maxAuditBytes

structure Logs.Stored (space : AuditNamespace) (logs : Logs) : Prop where
  early : Sound space logs.early
  current : Sound space logs.current

def Reads (records : List Record) (histories : Histories) : Prop :=
  ∀ request, Holds records request (histories.get request)

theorem readRecords_sound (sound : Sound space records) : readRecords (payload records) = .ok records := by
  rw [readRecords,if_neg (by have := sound.size; omega),parseFile_payload sound.written]

theorem load_records {logs : Logs} (stored : logs.Stored space) (next : Option Text) :
    load space {logs.disk with next := next} = validateHistories logs.records := by
  have rotated : rotatedRecords {logs.disk with next := next} = .ok logs.early := by
    cases present : logs.rotated with
    | none => simp [rotatedRecords,Logs.disk,present,Logs.early]
    | some records =>
      have := readRecords_sound stored.early
      simpa [rotatedRecords,Logs.disk,present,Logs.early] using this
  have epochs : (logs.early ++ logs.current).any (·.namespaceEpoch ≠ space.namespaceEpoch) = false := by
    simp only [List.any_append,Bool.or_eq_false_iff,List.any_eq_false,decide_eq_true_eq,not_not]
    exact ⟨stored.early.epoch,stored.current.epoch⟩
  unfold load
  rw [rotated]
  simp only [Except.bind,Logs.disk,Option.getD_some,readRecords_sound stored.current,epochs]
  rfl

theorem load_reads {logs : Logs} (stored : logs.Stored space) (readable : Readable logs.records)
    (next : Option Text) :
    ∃ histories, load space {logs.disk with next := next} = .ok histories ∧ Reads logs.records histories := by
  obtain ⟨histories,loaded⟩ := histories_exist readable
  exact ⟨histories,(load_records stored next).trans loaded,histories_hold loaded⟩

-- The records a rotation writes: the open pendings, then a terminal after its own pending.
def rotationRecords (histories : Histories) (record : Record) : List Record :=
  activePendings histories record ++
    (if record.isPending then []
     else match histories.get record.requestId with
       | some (.reserved pending) => [pending,record]
       | _ => [])

-- What a record may be added to: no history if it is pending, its open reservation if it is not.
inductive Addable (histories : Histories) (record : Record) : Prop where
  | pending : record.isPending = true → histories.get record.requestId = none → Addable histories record
  | terminal : record.isPending = false → histories.get record.requestId = some (.reserved reserved) →
      recordIdentity record = recordIdentity reserved → Addable histories record

def added (histories : Histories) (record : Record) : Option History :=
  match histories.get record.requestId with
  | none => some (.reserved record)
  | some history => some (.settled history.pending record)

theorem Holds.named (holds : Holds records request (some (.reserved p))) : p.requestId = request := by
  unfold Holds at holds
  have inside : p ∈ ofRequest request records := by
    generalize ofRequest request records = history at holds
    cases holds with
    | reserved => simp
  simpa [ofRequest] using (List.mem_filter.mp inside).2

theorem pendings_of (reads : Reads records histories) :
    ofRequest request (histories.values.filterMap History.active) =
      ((histories.get request).bind History.active).toList := by
  have named : ∀ e ∈ histories.entries, ∀ p, e.2.active = some p → p.requestId = e.1 := by
    intro e inside p active
    have held := reads e.1
    rw [(Dict.get_iff _).mpr inside] at held
    cases history : e.2 with
    | reserved pending => rw [history] at held active; cases active; exact held.named
    | settled pending terminal => rw [history] at active; cases active
  have keyed : ofRequest request (histories.values.filterMap History.active) =
      (histories.entries.filter fun e => e.1 = request).filterMap fun e => e.2.active := by
    rw [ofRequest,Dict.values,List.filterMap_map,List.filter_filterMap,List.filterMap_filter]
    refine List.filterMap_congr fun e inside => ?_
    cases active : e.2.active with
    | none => simp [active]
    | some p => simp [active,named e inside p active,Option.filter]
  rw [keyed,Dict.filter_key]
  cases histories.get request with
  | none => rfl
  | some history => cases history <;> simp [History.active]

theorem activePendings_of (reads : Reads records histories) (record : Record) (request : String) :
    ofRequest request (activePendings histories record) =
      if request = record.requestId then (if record.isPending then [record] else [])
      else ((histories.get request).bind History.active).toList := by
  let others := (histories.values.filterMap History.active).filter (·.requestId ≠ record.requestId)
  let unsorted := if record.isPending then others ++ [record] else others
  have kept : ofRequest request others =
      if request = record.requestId then [] else ((histories.get request).bind History.active).toList := by
    rw [← pendings_of reads]
    split
    · rename_i same
      subst same
      simp only [others,ofRequest,List.filter_filter,List.filter_eq_nil_iff]
      simp
    · rename_i apart
      simp only [others,ofRequest,List.filter_filter]
      refine List.filter_congr fun p _ => ?_
      by_cases named : p.requestId = request <;> simp [named,apart]
  have listed : ofRequest request unsorted =
      if request = record.requestId then (if record.isPending then [record] else [])
      else ((histories.get request).bind History.active).toList := by
    by_cases pends : record.isPending = true
    · simp only [unsorted,pends,if_true,ofRequest_append,kept,ofRequest_cons]
      by_cases same : request = record.requestId
      · simp [same,ofRequest]
      · simp [same,Ne.symm same,ofRequest]
    · simp [unsorted,pends,kept]
  have sorted : (ofRequest request (activePendings histories record)).Perm (ofRequest request unsorted) :=
    (List.perm_insertionSort pendingOrder unsorted).filter _
  rw [listed] at sorted
  by_cases same : request = record.requestId
  · by_cases pends : record.isPending = true
    · simp only [same,pends,if_true] at sorted ⊢
      exact List.perm_singleton.mp sorted
    · simp only [same,pends,if_true] at sorted ⊢
      exact List.perm_nil.mp sorted
  · simp only [same,if_false] at sorted ⊢
    cases found : (histories.get request).bind History.active with
    | none => rw [found] at sorted; exact List.perm_nil.mp sorted
    | some p => rw [found] at sorted; exact List.perm_singleton.mp sorted

-- What the rotation writes for each request.
def carriedOver (histories : Histories) (record : Record) (request : String) : Option History :=
  if request = record.requestId then added histories record
  else match histories.get request with
    | some (.reserved p) => some (.reserved p)
    | _ => none

theorem rotation_holds (reads : Reads records histories) (addable : Addable histories record) (request : String) :
    Holds (rotationRecords histories record) request (carriedOver histories record request) := by
  have split := activePendings_of reads record request
  by_cases same : request = record.requestId
  · subst same
    rw [if_pos rfl] at split
    cases addable with
    | pending pends absent =>
      rw [if_pos pends] at split
      simp only [carriedOver,if_true,added,absent]
      rw [Holds,rotationRecords,if_pos pends,List.append_nil,split]
      exact .reserved record 0 pends
    | @terminal reserved ended opened identity =>
      rw [if_neg (by simp [ended])] at split
      have held := reads record.requestId
      rw [opened] at held
      have tail : ofRequest record.requestId [reserved,record] = [reserved,record] := by
        simp [ofRequest,held.named]
      simp only [carriedOver,if_true,added,opened]
      rw [Holds,rotationRecords,if_neg (by simp [ended]),opened,ofRequest_append,split,tail]
      unfold Holds at held
      generalize ofRequest record.requestId records = history at held
      cases held with
      | reserved _ _ pends => exact .settled reserved record 0 pends ended identity
  · rw [if_neg same] at split
    have tail : ofRequest request (if record.isPending then [] else match histories.get record.requestId with
        | some (.reserved pending) => [pending,record] | _ => []) = [] := by
      by_cases pends : record.isPending = true
      · simp [pends,ofRequest]
      · rw [if_neg pends]
        have held := reads record.requestId
        cases found : histories.get record.requestId with
        | none => rfl
        | some history =>
          rw [found] at held
          cases history with
          | reserved p => simp [ofRequest,held.named,Ne.symm same]
          | settled p t => rfl
    simp only [carriedOver,same,if_false]
    have held := reads request
    cases found : histories.get request with
    | none => rw [found] at split; rw [Holds,rotationRecords,ofRequest_append,split,tail]; rfl
    | some history =>
      rw [found] at split held
      cases history with
      | reserved p =>
        rw [Holds,rotationRecords,ofRequest_append,split,tail]
        unfold Holds at held
        generalize ofRequest request records = history at held
        cases held with
        | reserved _ _ pends => exact .reserved p 0 pends
      | settled p t => rw [Holds,rotationRecords,ofRequest_append,split,tail]; rfl

theorem rotation_grows (addable : Addable histories record) (request : String) :
    Grows (histories.get request) (carriedOver histories record request) := by
  unfold carriedOver
  split
  · rename_i same
    subst same
    cases addable with
    | pending _ absent => rw [added,absent]; exact .fresh record
    | @terminal reserved _ opened _ => rw [added,opened]; exact .closed reserved record
  · cases histories.get request with
    | none => exact .idle none
    | some history =>
      cases history with
      | reserved p => exact .again p
      | settled p t => exact .idle _

theorem Holds.torn (torn : part <+: records) (holds : Holds records request k) :
    ∃ k', Holds part request k' ∧ (k' = none ∨ k' = k ∨ ∃ p t, k = some (.settled p t) ∧ k' = some (.reserved p)) := by
  have within : ofRequest request part <+: ofRequest request records := torn.filter _
  cases k with
  | none => exact ⟨none,List.prefix_nil.mp ((show ofRequest request records = [] from holds) ▸ within),.inl rfl⟩
  | some history =>
    unfold Holds at holds
    simp only [Holds]
    generalize ofRequest request records = whole at holds within
    have copies : ∀ p n, p.isPending = true → ofRequest request part <+: List.replicate n p →
        ofRequest request part = [] ∨ Shaped (ofRequest request part) (.reserved p) := by
      intro p n pends within
      have counted := (List.prefix_replicate_iff.mp within).2
      cases size : (ofRequest request part).length with
      | zero => exact .inl (List.length_eq_zero_iff.mp size)
      | succ m => rw [counted,size]; exact .inr (.reserved p m pends)
    cases holds with
    | reserved p n pends =>
      rcases copies p _ pends within with empty | shaped
      · exact ⟨none,empty,.inl rfl⟩
      · exact ⟨some (.reserved p),shaped,.inr (.inl rfl)⟩
    | settled p t n pends ended same =>
      rcases List.prefix_concat_iff.mp within with all | before
      · exact ⟨some (.settled p t),all ▸ .settled p t n pends ended same,.inr (.inl rfl)⟩
      · rcases copies p _ pends before with empty | shaped
        · exact ⟨none,empty,.inl rfl⟩
        · exact ⟨some (.reserved p),shaped,.inr (.inr ⟨p,t,rfl,rfl⟩)⟩

theorem rotation_torn (reads : Reads (rotated ++ current) histories) (addable : Addable histories record)
    (torn : part <+: rotationRecords histories record) : Draft rotated current part := by
  intro request
  obtain ⟨k,written,cut⟩ := (rotation_holds reads addable request).torn torn
  refine ⟨_,k,reads request,written,?_⟩
  have grows := rotation_grows addable request
  rcases cut with rfl | rfl | ⟨p,t,whole,rfl⟩
  · exact .idle _
  · exact grows
  · rw [whole] at grows
    generalize histories.get request = h at grows
    cases grows with
    | closed => exact .again p

theorem rotation_complete (reads : Reads (rotated ++ current) histories) (addable : Addable histories record) :
    Complete rotated current (rotationRecords histories record) := by
  intro request p opened absent
  have found : histories.get request = some (.reserved p) := (reads request).unique opened
  have none_left := (rotation_holds reads addable request).unique absent
  unfold carriedOver at none_left
  split at none_left
  · rename_i same
    subst same
    simp [added,found] at none_left
  · simp [found] at none_left

theorem Holds.members (holds : Holds records request (some h)) : h.pending ∈ records ∧ h.latest ∈ records := by
  unfold Holds at holds
  have inside : h.pending ∈ ofRequest request records ∧ h.latest ∈ ofRequest request records := by
    generalize ofRequest request records = history at holds
    cases holds with
    | reserved => simp [History.pending,History.latest]
    | settled => simp [History.pending,History.latest]
  exact ⟨(List.mem_filter.mp inside.1).1,(List.mem_filter.mp inside.2).1⟩

theorem rotation_members (reads : Reads records histories) (inside : r ∈ rotationRecords histories record) :
    r = record ∨ r ∈ records := by
  rcases List.mem_append.mp inside with inside | inside
  · have unsorted := (List.perm_insertionSort pendingOrder _).mem_iff.mp inside
    have fromValues : r ∈ (histories.values.filterMap History.active).filter (·.requestId ≠ record.requestId) →
        r ∈ records := by
      intro kept
      obtain ⟨history,stored,active⟩ := List.mem_filterMap.mp (List.mem_filter.mp kept).1
      obtain ⟨e,entered,rfl⟩ := List.mem_map.mp stored
      have held := reads e.1
      rw [(Dict.get_iff _).mpr entered] at held
      cases shape : e.2 with
      | reserved p =>
        rw [shape] at held active
        cases active
        exact held.members.1
      | settled p t => rw [shape] at active; cases active
    split at unsorted
    · rcases List.mem_append.mp unsorted with kept | last
      · exact .inr (fromValues kept)
      · exact .inl (List.mem_singleton.mp last)
    · exact .inr (fromValues unsorted)
  · split at inside
    · cases inside
    · split at inside
      · rename_i pending found
        have held := reads record.requestId
        rw [found] at held
        rcases List.mem_cons.mp inside with rfl | last
        · exact .inr held.members.1
        · exact .inl (List.mem_singleton.mp last)
      · cases inside

theorem encoded_all (done : active.mapM encodedRecord = .ok payloads) :
    payloads.flatten = payload active ∧ ∀ r ∈ active, (line r).length ≤ maxAuditLineBytes := by
  induction active generalizing payloads with
  | nil => cases done; exact ⟨rfl,by simp⟩
  | cons r rest ih =>
    rw [List.mapM_cons] at done
    cases here : encodedRecord r with
    | error refused => rw [here] at done; cases done
    | ok text =>
      obtain ⟨rfl,short⟩ := encoded_iff.mp here
      rw [here] at done
      cases later : rest.mapM encodedRecord with
      | error refused => rw [later] at done; cases done
      | ok texts =>
        rw [later] at done
        cases done
        obtain ⟨flat,shorts⟩ := ih later
        exact ⟨by rw [List.flatten_cons,flat]; rfl,List.forall_mem_cons.mpr ⟨short,shorts⟩⟩

theorem pendings_text (done : activePendingPayload histories record = .ok text) :
    text = payload (activePendings histories record) := by
  unfold activePendingPayload at done
  simp only at done
  split at done; · cases done
  split at done; · cases done
  rename_i payloads encoded
  split at done; · cases done
  cases done
  exact (encoded_all encoded).1

theorem rotation_text {text rotation : Text} (addable : Addable histories record)
    (pendings : activePendingPayload histories record = .ok text)
    (done : rotationPayload histories record (line record) text = .ok rotation) :
    rotation = payload (rotationRecords histories record) ∧
      (payload (rotationRecords histories record)).length ≤ maxAuditBytes := by
  have texts := pendings_text pendings
  have joined : ∀ whole : Text, (if whole = [] ∨ whole.length > maxAuditBytes then Except.error AuditError.auditError
      else .ok whole) = .ok rotation → rotation = whole ∧ whole.length ≤ maxAuditBytes := by
    intro whole made
    split at made
    · cases made
    · rename_i fits
      cases made
      simp only [not_or,Nat.not_lt] at fits
      exact ⟨rfl,fits.2⟩
  cases addable with
  | pending pends absent =>
    simp only [rotationPayload,pends,if_true] at done
    obtain ⟨rfl,size⟩ := joined _ done
    have same : rotationRecords histories record = activePendings histories record := by simp [rotationRecords,pends]
    rw [same,← texts]
    exact ⟨rfl,size⟩
  | @terminal reserved ended opened identity =>
    simp only [rotationPayload,ended,opened] at done
    cases encoded : encodedRecord reserved with
    | error refused => rw [encoded] at done; cases done
    | ok first =>
      obtain ⟨rfl,_⟩ := encoded_iff.mp encoded
      rw [encoded] at done
      obtain ⟨rfl,size⟩ := joined _ done
      have same : rotationRecords histories record = activePendings histories record ++ [reserved,record] := by
        simp [rotationRecords,ended,opened]
      have whole : payload (rotationRecords histories record) = text ++ line reserved ++ line record := by
        rw [same,payload_append,← texts,List.append_assoc]
        simp [payload]
      rw [whole]
      exact ⟨rfl,size⟩

end AgentSideCar.Audit
