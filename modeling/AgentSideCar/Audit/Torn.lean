import AgentSideCar.Audit.Crash

namespace AgentSideCar.Audit
open Runs

-- Filler requests, each reserved and settled at once, until the current log is full.
def fillerName (n : Nat) : String := String.ofList ('f' :: Digits.digits n)

def demoReserved (name : String) (seconds : Nat) : Record :=
  baseRecord name demoIdentity demoSpace (demoClock seconds) none

def demoSettled (name : String) : Record :=
  baseRecord name demoIdentity demoSpace (demoClock 1) (some ⟨"completed","delivered",none,some 0⟩)

theorem fillerName_valid (small : n < 10 ^ 100) : requestIdRe (fillerName n) = true := by
  have count : (Digits.digits n).length ≤ 100 := (Nat.length_toDigits_le_iff (by decide) (by decide)).mpr small
  have letters : (Digits.digits n).all (fun c => c.isAlphanum || c = '.' || c = '_' || c = ':' || c = '-') = true := by
    refine List.all_eq_true.mpr fun c inside => ?_
    simp [Char.isAlphanum,Digits.digits_digit inside]
  rw [requestIdRe,pattern,fillerName,String.toList_ofList]
  simp only [letters,Bool.and_true,Bool.and_eq_true,decide_eq_true_eq]
  exact ⟨by decide,by omega⟩

theorem fillerName_injective (same : fillerName m = fillerName n) : m = n := by
  have := congrArg String.toList same
  rw [fillerName,fillerName,String.toList_ofList,String.toList_ofList] at this
  exact Digits.digits_injective (List.cons.inj this).2

def fieldWeight (field : String × Json.Scalar) : Nat := (Json.member field).length + 1

theorem fillerName_apart (other : name.toList.head? ≠ some 'f') : name ≠ fillerName n := by
  rintro rfl
  rw [fillerName,String.toList_ofList] at other
  exact other rfl

theorem members_weight (fields : Json.Fields) :
    (Json.members fields).length ≤ (fields.map fieldWeight).sum := by
  induction fields with
  | nil => exact Nat.zero_le _
  | cons f rest ih =>
    rw [Json.members_cons,List.length_append,List.map_cons,List.sum_cons]
    split
    · simp only [List.length_nil,fieldWeight]; omega
    · simp only [List.length_cons,fieldWeight]; omega

theorem name_length (valid : requestIdRe name = true) : name.toList.length ≤ 128 := by
  unfold requestIdRe pattern at valid
  split at valid
  · rename_i empty; rw [empty]; exact Nat.zero_le _
  · rename_i c rest same
    simp only [Bool.and_eq_true,decide_eq_true_eq] at valid
    rw [same,List.length_cons]
    omega

theorem member_name (valid : requestIdRe name = true) :
    fieldWeight ("request_id",.text name) ≤ fieldWeight ("request_id",.text "") + 128 := by
  have long := name_length valid
  have quoted : (Json.quote name).length = name.toList.length + 2 := by
    rw [Json.plain_quote (requestIdRe_plain valid)]
    simp
  have empty : (Json.quote "").length = 2 := rfl
  simp only [fieldWeight,Json.member,Json.Scalar.dumps,List.length_append,List.length_cons,quoted,empty]
  omega

theorem line_weight (r : Record) (light : (r.fields.map fieldWeight).sum ≤ 4000) : (line r).length ≤ 4003 := by
  have : (Json.members r.fields).length ≤ (r.fields.map fieldWeight).sum := members_weight r.fields
  simp only [line,Json.dumps,List.length_append,List.length_cons,List.length_nil]
  omega

theorem renamed_weight (r : Record) (weight : String × Json.Scalar → Nat)
    (named : weight ("request_id",.text name) ≤ weight ("request_id",.text "") + 128) :
    (({r with requestId := name} : Record).fields.map weight).sum ≤
      (({r with requestId := ""} : Record).fields.map weight).sum + 128 := by
  cases ended : r.terminal <;>
    simp only [Record.fields,List.map_cons,List.map_nil,List.sum_cons,List.sum_nil] <;> omega

theorem renamed_written (r : Record) (valid : requestIdRe name = true)
    (checked : ({r with requestId := "r"} : Record).valid = true)
    (light : (({r with requestId := ""} : Record).fields.map fieldWeight).sum ≤ 2000) :
    Written {r with requestId := name} := by
  constructor
  · simp only [Record.valid,Bool.and_eq_true] at checked ⊢
    exact ⟨⟨checked.1.1,valid⟩,checked.2⟩
  · have weight := renamed_weight r fieldWeight (member_name valid)
    exact (line_weight _ (by omega)).trans (by decide)

theorem demoReserved_written (valid : requestIdRe name = true) (small : seconds ≤ 1) :
    Written (demoReserved name seconds) := by
  have checked : ∀ s ≤ 1, (demoReserved "r" s).valid = true := by decide +kernel
  have light : ∀ s ≤ 1, ((demoReserved "" s).fields.map fieldWeight).sum ≤ 2000 := by decide +kernel
  exact renamed_written (demoReserved name seconds) valid (checked seconds small) (light seconds small)

theorem demoSettled_written (valid : requestIdRe name = true) : Written (demoSettled name) := by
  have checked : (demoSettled "r").valid = true := by decide +kernel
  have light : ((demoSettled "").fields.map fieldWeight).sum ≤ 2000 := by decide +kernel
  exact renamed_written (demoSettled name) valid checked light

theorem insertionSort_first {r : Record → Record → Prop} [DecidableRel r] {first : Record} {l : List Record}
    (inside : first ∈ l) (distinct : l.Nodup) (before : ∀ x ∈ l, x ≠ first → r first x ∧ ¬ r x first) :
    ∃ rest, l.insertionSort r = first :: rest := by
  induction l with
  | nil => cases inside
  | cons x l ih =>
    rw [List.nodup_cons] at distinct
    rw [List.insertionSort_cons]
    by_cases same : x = first
    · subst same
      cases sorted : l.insertionSort r with
      | nil => exact ⟨[],rfl⟩
      | cons y rest =>
        have present : y ∈ l := (List.perm_insertionSort r l).mem_iff.mp (sorted ▸ List.mem_cons_self)
        have apart : y ≠ x := fun same => distinct.1 (same ▸ present)
        exact ⟨y :: rest,by rw [List.orderedInsert_cons,if_pos (before y (List.mem_cons_of_mem _ present) apart).1]⟩
    · have present : first ∈ l := (List.mem_cons.mp inside).resolve_left (Ne.symm same)
      obtain ⟨rest,sorted⟩ := ih present distinct.2 fun y there => before y (List.mem_cons_of_mem _ there)
      exact ⟨_,by rw [sorted,List.orderedInsert_cons,if_neg (before x List.mem_cons_self same).2]⟩

-- The scene's logs: few requests are open, and the first was reserved before the others.
structure Scene (records : List Record) (opened : List String) : Prop where
  written : ∀ r ∈ records, Written r
  readable : Readable records
  few : ∀ request p, Holds records request (some (.reserved p)) →
    request ∈ opened ∧ (p = demoReserved "a" 0 ∨ p.timestamp = (demoClock 1).stamp)
  first : Holds records "a" (some (.reserved (demoReserved "a" 0)))

theorem active_named (reads : Reads records histories) (inside : e ∈ histories.entries) (active : e.2.active = some p) :
    Holds records e.1 (some (.reserved p)) ∧ p.requestId = e.1 := by
  have held := reads e.1
  rw [(Dict.get_iff _).mpr inside] at held
  cases history : e.2 with
  | reserved pending => rw [history] at held active; cases active; exact ⟨held,held.named⟩
  | settled pending terminal => rw [history] at active; cases active

theorem actives_keyed (reads : Reads records histories) :
    (histories.values.filterMap History.active).map Record.requestId =
      (histories.entries.filter fun e => e.2.active.isSome).map Prod.fst := by
  have named : ∀ e ∈ histories.entries, ∀ p, e.2.active = some p → p.requestId = e.1 :=
    fun e inside p active => (active_named reads inside active).2
  rw [Dict.values]
  clear reads
  generalize histories.entries = entries at named
  induction entries with
  | nil => rfl
  | cons e rest ih =>
    have later := ih fun other inside => named other (List.mem_cons_of_mem _ inside)
    cases active : e.2.active with
    | none => simpa [active] using later
    | some p => simpa [active,named e List.mem_cons_self p active] using later

theorem actives_distinct (reads : Reads records histories) :
    ((histories.values.filterMap History.active).map Record.requestId).Nodup := by
  rw [actives_keyed reads]
  exact histories.unique.sublist (List.filter_sublist.map _)

theorem actives_count {opened : List String} (reads : Reads records histories)
    (few : ∀ request p, Holds records request (some (.reserved p)) → request ∈ opened) :
    (histories.values.filterMap History.active).length ≤ opened.length := by
  have distinct := actives_distinct reads
  rw [actives_keyed reads] at distinct
  have within : (histories.entries.filter fun e => e.2.active.isSome).map Prod.fst ⊆ opened := by
    intro request inside
    obtain ⟨e,entered,rfl⟩ := List.mem_map.mp inside
    obtain ⟨present,active⟩ := List.mem_filter.mp entered
    obtain ⟨p,found⟩ := Option.isSome_iff_exists.mp active
    exact few _ _ (active_named reads present found).1
  have counted := (List.subperm_of_subset distinct within).length_le
  rw [← actives_keyed reads,List.length_map] at counted
  exact counted

theorem activePendings_count {opened : List String} (reads : Reads records histories)
    (few : ∀ request p, Holds records request (some (.reserved p)) → request ∈ opened) :
    (activePendings histories record).length ≤ opened.length + 1 := by
  have all := actives_count reads few
  have kept : ((histories.values.filterMap History.active).filter (·.requestId ≠ record.requestId)).length ≤
      (histories.values.filterMap History.active).length := List.length_filter_le _ _
  rw [activePendings,List.length_insertionSort]
  split
  · rw [List.length_append,List.length_singleton]; omega
  · omega

theorem payload_length {records : List Record} (written : ∀ r ∈ records, Written r) :
    (payload records).length ≤ records.length * maxAuditLineBytes := by
  induction records with
  | nil => exact Nat.zero_le _
  | cons r rest ih =>
    have later := ih fun s inside => written s (List.mem_cons_of_mem _ inside)
    have here := (written r List.mem_cons_self).short
    rw [show payload (r :: rest) = line r ++ payload rest from rfl,List.length_append,List.length_cons,Nat.succ_mul]
    omega

theorem encoded_lines {records : List Record} (written : ∀ r ∈ records, Written r) :
    records.mapM encodedRecord = .ok (records.map line) := by
  induction records with
  | nil => rfl
  | cons r rest ih =>
    rw [List.mapM_cons,encoded_iff.mpr ⟨rfl,(written r List.mem_cons_self).short⟩,
      ih fun s inside => written s (List.mem_cons_of_mem _ inside)]
    rfl

theorem scene_append {logs : Logs} (scene : Scene logs.records opened) (reads : Reads logs.records histories)
    (count : opened.length ≤ 8) (written : Written record) (addable : Addable histories record) :
    append logs.disk record histories =
      if (payload logs.current).length + (line record).length > maxAuditBytes
      then rotate logs.disk (payload (rotationRecords histories record)) else extend logs.disk (line record) := by
  have active : (activePendings histories record).length ≤ opened.length + 1 :=
    activePendings_count reads fun request p held => (scene.few request p held).1
  have lines : ∀ r ∈ rotationRecords histories record, Written r := by
    intro r inside
    rcases rotation_members reads inside with rfl | inside
    · exact written
    · exact scene.written r inside
  have actives : ∀ r ∈ activePendings histories record, Written r :=
    fun r inside => lines r (List.mem_append_left _ inside)
  have size := payload_length actives
  have pendings : activePendingPayload histories record = .ok (payload (activePendings histories record)) := by
    have joined : ((activePendings histories record).map line).flatten = payload (activePendings histories record) :=
      (List.flatMap_def ..).symm
    simp only [activePendingPayload,encoded_lines actives,joined]
    rw [if_neg (by simp only [maxActivePendingRecords]; omega),
      if_neg (by simp only [maxActivePendingBytes,maxAuditLineBytes] at size ⊢; omega)]
  have whole : (rotationRecords histories record).length ≤ 11 := by
    rw [rotationRecords,List.length_append]
    split
    · simp only [List.length_nil]; omega
    · split <;> simp only [List.length_cons,List.length_nil] <;> omega
  have total := payload_length lines
  have rotation : rotationPayload histories record (line record) (payload (activePendings histories record)) =
      .ok (payload (rotationRecords histories record)) := by
    have fits : ¬ (payload (rotationRecords histories record) = [] ∨
        (payload (rotationRecords histories record)).length > maxAuditBytes) := by
      rw [not_or,payload_empty]
      refine ⟨rotation_nonempty reads addable,?_⟩
      simp only [maxAuditLineBytes,maxAuditBytes] at total ⊢
      omega
    cases addable with
    | pending pends absent =>
      have same : rotationRecords histories record = activePendings histories record := by simp [rotationRecords,pends]
      rw [same] at fits ⊢
      simp only [rotationPayload,pends,if_true,Except.bind]
      rw [if_neg fits]
    | @terminal reserved ended found identity =>
      have same : payload (rotationRecords histories record) =
          payload (activePendings histories record) ++ line reserved ++ line record := by
        simp [rotationRecords,ended,found,payload]
      have held := reads record.requestId
      rw [found] at held
      have first := encoded_iff.mpr ⟨rfl,(scene.written _ held.members.1).short⟩
      rw [same] at fits ⊢
      simp only [rotationPayload,ended,found,History.pending] at first ⊢
      simp only [first,Bool.false_eq_true,if_false,Except.map,Except.bind]
      rw [if_neg fits]
  simp only [append,encoded_iff.mpr ⟨rfl,written.short⟩,pendings,rotation,Logs.disk,Option.getD_some,if_true]

theorem scene_first {logs : Logs} (record : Record) (scene : Scene logs.records opened) (reads : Reads logs.records histories)
    (later : record.timestamp = (demoClock 1).stamp) (apart : record.requestId ≠ "a") :
    ∃ rest, rotationRecords histories record = demoReserved "a" 0 :: rest := by
  have found : histories.get "a" = some (.reserved (demoReserved "a" 0)) := (reads "a").unique scene.first
  have stored : demoReserved "a" 0 ∈ histories.values.filterMap History.active :=
    List.mem_filterMap.mpr ⟨_,List.mem_map.mpr ⟨_,(Dict.get_iff _).mp found,rfl⟩,rfl⟩
  have kept : demoReserved "a" 0 ∈ (histories.values.filterMap History.active).filter
      (·.requestId ≠ record.requestId) :=
    List.mem_filter.mpr ⟨stored,decide_eq_true (Ne.symm apart : (demoReserved "a" 0).requestId ≠ record.requestId)⟩
  have distinct : ((histories.values.filterMap History.active).filter (·.requestId ≠ record.requestId)).Nodup :=
    (List.Nodup.of_map _ (actives_distinct reads)).sublist List.filter_sublist
  have times : ∀ x ∈ (histories.values.filterMap History.active).filter (·.requestId ≠ record.requestId),
      x = demoReserved "a" 0 ∨ x.timestamp = (demoClock 1).stamp := by
    intro x inside
    obtain ⟨history,valued,active⟩ := List.mem_filterMap.mp (List.mem_filter.mp inside).1
    obtain ⟨e,entered,rfl⟩ := List.mem_map.mp valued
    exact (scene.few _ _ (active_named reads entered active).1).2
  have order : ∀ x : Record, x.timestamp = (demoClock 1).stamp →
      pendingOrder (demoReserved "a" 0) x ∧ ¬ pendingOrder x (demoReserved "a" 0) := by
    intro x stamp
    have forward : earlier (demoReserved "a" 0).timestamp (demoClock 1).stamp = true := by decide +kernel
    have backward : earlier (demoClock 1).stamp (demoReserved "a" 0).timestamp = false := by decide +kernel
    simp [pendingOrder,stamp,forward,backward]
  have sorted : ∃ rest, activePendings histories record = demoReserved "a" 0 :: rest := by
    unfold activePendings
    simp only
    split
    · refine insertionSort_first (List.mem_append_left _ kept) ?_ fun x inside differs => ?_
      · refine List.nodup_append.mpr ⟨distinct,List.nodup_singleton _,fun x early y last same => ?_⟩
        cases List.mem_singleton.mp last
        subst same
        simpa using (List.mem_filter.mp early).2
      · rcases List.mem_append.mp inside with early | last
        · exact order x ((times x early).resolve_left differs)
        · cases List.mem_singleton.mp last
          exact order record later
    · exact insertionSort_first kept distinct fun x inside differs => order x ((times x inside).resolve_left differs)
  obtain ⟨rest,sorted⟩ := sorted
  exact ⟨_,by rw [rotationRecords,sorted,List.cons_append]⟩

theorem rotate_stages (logs : Logs) {records : List Record} (leads : records = first :: rest)
    (begun : part <+: payload [first]) :
    (.rotation,{logs.disk with next := some part}) ∈ (rotate logs.disk (payload records)).during := by
  refine List.mem_append_left _ (List.mem_map.mpr ⟨part,(List.mem_inits _ _).mpr (begun.trans ?_),rfl⟩)
  rw [leads,show first :: rest = [first] ++ rest from rfl,payload_append]
  exact List.prefix_append _ _

-- A call that has to rotate: it may die with any part of its first staged line written,
-- and where it does not, the current log is the rotated one.
structure Rotates (call : Call) (logs : Logs) : Prop where
  stages : ∀ part, part <+: payload [demoReserved "a" 0] →
    (.rotation,{logs.disk with next := some part}) ∈ writes demoSpace call logs.disk
  after : (perform demoSpace call logs.disk).1.rotated = some (payload logs.current) ∧
    (perform demoSpace call logs.disk).1.next = none

theorem scene_reserve {logs : Logs} (stored : logs.Stored demoSpace) (scene : Scene logs.records opened)
    (count : opened.length ≤ 8) (valid : requestIdRe name = true) (absent : Holds logs.records name none)
    (small : seconds ≤ 1) :
    ((payload logs.current).length + (line (demoReserved name seconds)).length ≤ maxAuditBytes →
      perform demoSpace (.reserve name demoIdentity (demoClock seconds)) logs.disk =
        ((⟨logs.rotated,logs.current ++ [demoReserved name seconds]⟩ : Logs).disk,.reserved (.ok none))) ∧
    (¬ (payload logs.current).length + (line (demoReserved name seconds)).length ≤ maxAuditBytes → seconds = 1 →
      name ≠ "a" → Rotates (.reserve name demoIdentity (demoClock seconds)) logs) := by
  obtain ⟨histories,loaded,reads⟩ := load_reads stored scene.readable none
  have loaded : load demoSpace logs.disk = .ok histories := loaded
  have written : Written (demoReserved name seconds) := demoReserved_written valid small
  have found : histories.get name = none := (reads name).unique absent
  have addable : Addable histories (demoReserved name seconds) := .pending rfl found
  have appended := scene_append scene reads count written addable
  have opens : openLogs demoSpace logs.disk = ⟨[],logs.disk,.ok ()⟩ := opens_recovered logs (settled_recovers logs)
  have checked : validateRecord (baseRecord name demoIdentity demoSpace (demoClock seconds) none).fields =
      .ok (demoReserved name seconds) := by
    rw [validateRecord_fields]
    exact if_pos written.valid
  have body : reserveOpened demoSpace name demoIdentity (demoClock seconds) logs.disk =
      (append logs.disk (demoReserved name seconds) histories).bind fun d _ => .still d (.ok none) := by
    simp only [reserveOpened,loaded,found,checked]
  constructor
  · intro fits
    rw [if_neg (by omega)] at appended
    simp only [perform,reserve,valid,not_true_eq_false,if_false,opens,Attempt.bind,body,appended]
    rw [← extend_after]
    rfl
  · intro full late apart
    rw [if_pos (by omega)] at appended
    obtain ⟨rest,leads⟩ := scene_first (demoReserved name seconds) scene reads (by rw [late]; rfl) apart
    refine ⟨fun part begun => ?_,?_⟩
    · have staged := rotate_stages logs leads begun
      simp only [writes,reserve,valid,not_true_eq_false,if_false,opens,Attempt.bind,body,appended]
      exact List.mem_append_right _ (List.mem_append_left _ staged)
    · simp only [perform,reserve,valid,not_true_eq_false,if_false,opens,Attempt.bind,body,appended]
      exact ⟨rfl,rfl⟩

theorem scene_settle {logs : Logs} (stored : logs.Stored demoSpace) (scene : Scene logs.records opened)
    (count : opened.length ≤ 8) (valid : requestIdRe name = true) (apart : name ≠ "a")
    (held : Holds logs.records name (some (.reserved (demoReserved name 1)))) :
    ((payload logs.current).length + (line (demoSettled name)).length ≤ maxAuditBytes →
      perform demoSpace (.appendTerminal name demoIdentity (demoClock 1) ⟨"completed","delivered",none,some 0⟩) logs.disk =
        ((⟨logs.rotated,logs.current ++ [demoSettled name]⟩ : Logs).disk,.settled (.ok (receipt (demoSettled name))))) ∧
    (¬ (payload logs.current).length + (line (demoSettled name)).length ≤ maxAuditBytes →
      Rotates (.appendTerminal name demoIdentity (demoClock 1) ⟨"completed","delivered",none,some 0⟩) logs) := by
  obtain ⟨histories,loaded,reads⟩ := load_reads stored scene.readable none
  have loaded : load demoSpace logs.disk = .ok histories := loaded
  have written : Written (demoSettled name) := demoSettled_written valid
  have found : histories.get name = some (.reserved (demoReserved name 1)) := (reads name).unique held
  have addable : Addable histories (demoSettled name) := .terminal rfl found rfl
  have appended := scene_append scene reads count written addable
  have opens : openLogs demoSpace logs.disk = ⟨[],logs.disk,.ok ()⟩ := opens_recovered logs (settled_recovers logs)
  have checked : validateRecord (baseRecord name demoIdentity demoSpace (demoClock 1)
      (some ⟨"completed","delivered",none,some 0⟩)).fields = .ok (demoSettled name) := by
    rw [validateRecord_fields]
    exact if_pos written.valid
  have matched : recordIdentity (demoReserved name 1) = identityTuple demoIdentity demoSpace := rfl
  have pends : (demoReserved name 1).isPending = true := rfl
  have body : appendTerminalOpened demoSpace name demoIdentity (demoClock 1) ⟨"completed","delivered",none,some 0⟩
      logs.disk = (append logs.disk (demoSettled name) histories).bind fun d _ =>
        .still d (.ok (receipt (demoSettled name))) := by
    simp only [appendTerminalOpened,loaded,found,History.latest,matched,pends,checked,ne_eq,not_true_eq_false,if_false]
  constructor
  · intro fits
    rw [if_neg (by omega)] at appended
    simp only [perform,appendTerminal,valid,not_true_eq_false,if_false,opens,Attempt.bind,body,appended]
    rw [← extend_after]
    rfl
  · intro full
    rw [if_pos (by omega)] at appended
    obtain ⟨rest,leads⟩ := scene_first (demoSettled name) scene reads rfl apart
    refine ⟨fun part begun => ?_,?_⟩
    · have staged := rotate_stages logs leads begun
      simp only [writes,appendTerminal,valid,not_true_eq_false,if_false,opens,Attempt.bind,body,appended]
      exact List.mem_append_right _ (List.mem_append_left _ staged)
    · simp only [perform,appendTerminal,valid,not_true_eq_false,if_false,opens,Attempt.bind,body,appended]
      exact ⟨rfl,rfl⟩

theorem Holds.left (empty : ofRequest request second = []) :
    Holds (first ++ second) request h ↔ Holds first request h := by
  cases h <;> rw [Holds,Holds,ofRequest_append,empty,List.append_nil]

theorem Holds.right (empty : ofRequest request first = []) :
    Holds (first ++ second) request h ↔ Holds second request h := by
  cases h <;> rw [Holds,Holds,ofRequest_append,empty,List.nil_append]

structure Fills (start stop : Nat) (opened : List String) (fillers : List Record) : Prop where
  named : ∀ r ∈ fillers, ∃ k, start ≤ k ∧ k < stop ∧ r.requestId = fillerName k
  written : ∀ r ∈ fillers, Written r
  epoch : ∀ r ∈ fillers, r.namespaceEpoch = demoSpace.namespaceEpoch
  readable : Readable fillers
  few : ∀ request p, Holds fillers request (some (.reserved p)) →
    request ∈ opened ∧ p.timestamp = (demoClock 1).stamp

def Unused (start : Nat) (records : List Record) : Prop := ∀ k, start ≤ k → ofRequest (fillerName k) records = []

theorem Fills.absent (fills : Fills start stop opened fillers)
    (other : ∀ k, start ≤ k → k < stop → request ≠ fillerName k) : ofRequest request fillers = [] := by
  refine List.filter_eq_nil_iff.mpr fun r inside named => ?_
  obtain ⟨k,low,high,same⟩ := fills.named r inside
  exact other k low high ((of_decide_eq_true named).symm.trans same)

theorem Fills.unused (fills : Fills start stop opened fillers) : Unused stop fillers :=
  fun k low => fills.absent fun j _ high same => by have := fillerName_injective same; omega

theorem scene_filled (scene : Scene base opened) (unused : Unused start base)
    (fills : Fills start stop more fillers) : Scene (base ++ fillers) (opened ++ more) := by
  have split : ∀ request, ofRequest request base = [] ∨ ofRequest request fillers = [] := by
    intro request
    by_cases filler : ∃ k, start ≤ k ∧ request = fillerName k
    · obtain ⟨k,low,rfl⟩ := filler
      exact .inl (unused k low)
    · exact .inr (fills.absent fun k low _ same => filler ⟨k,low,same⟩)
  have apart : ofRequest "a" fillers = [] := fills.absent fun k _ _ => fillerName_apart (by decide)
  refine ⟨List.forall_mem_append.mpr ⟨scene.written,fills.written⟩,fun request => ?_,fun request p held => ?_,
    (Holds.left apart).mpr scene.first⟩
  · rcases split request with empty | empty
    · obtain ⟨h,held⟩ := fills.readable request
      exact ⟨h,(Holds.right empty).mpr held⟩
    · obtain ⟨h,held⟩ := scene.readable request
      exact ⟨h,(Holds.left empty).mpr held⟩
  · rcases split request with empty | empty
    · obtain ⟨inside,stamp⟩ := fills.few request p ((Holds.right empty).mp held)
      exact ⟨List.mem_append_right _ inside,.inr stamp⟩
    · obtain ⟨inside,stamp⟩ := scene.few request p ((Holds.left empty).mp held)
      exact ⟨List.mem_append_left _ inside,stamp⟩

theorem each_snoc {p : Record → Prop} (each : ∀ r ∈ records, p r) (last : p r) : ∀ s ∈ records ++ [r], p s :=
  List.forall_mem_append.mpr ⟨each,List.forall_mem_singleton.mpr last⟩

theorem readable_snoc (readable : Readable records) (here : Holds (records ++ [r]) r.requestId h) : Readable (records ++ [r]) := by
  intro request
  by_cases same : r.requestId = request
  · subst same; exact ⟨_,here⟩
  · exact (readable request).imp fun _ => (Holds.other same).mpr

theorem fills_reserved (fills : Fills start n [] fillers) (low : start ≤ n) (small : n < 10 ^ 100) :
    Fills start (n + 1) [fillerName n] (fillers ++ [demoReserved (fillerName n) 1]) := by
  have absent := fills.unused n le_rfl
  have here : Holds (fillers ++ [demoReserved (fillerName n) 1]) (fillerName n)
      (some (.reserved (demoReserved (fillerName n) 1))) := Holds.reserve absent rfl rfl
  refine ⟨each_snoc (fun r inside => ?_) ⟨n,low,by omega,rfl⟩,
    each_snoc fills.written (demoReserved_written (fillerName_valid small) le_rfl),each_snoc fills.epoch rfl,
    readable_snoc fills.readable here,fun request p held => ?_⟩
  · obtain ⟨k,first,high,same⟩ := fills.named r inside
    exact ⟨k,first,by omega,same⟩
  · by_cases same : fillerName n = request
    · subst same
      cases here.unique held
      exact ⟨List.mem_cons_self,rfl⟩
    · exact absurd (fills.few request p ((Holds.other same).mp held)).1 (List.not_mem_nil)

theorem fills_settled (fills : Fills start (n + 1) [fillerName n] (fillers ++ [demoReserved (fillerName n) 1]))
    (absent : ofRequest (fillerName n) fillers = []) (low : start ≤ n) (small : n < 10 ^ 100) :
    Fills start (n + 1) [] (fillers ++ [demoReserved (fillerName n) 1] ++ [demoSettled (fillerName n)]) := by
  have before : Holds (fillers ++ [demoReserved (fillerName n) 1]) (fillerName n)
      (some (.reserved (demoReserved (fillerName n) 1))) := Holds.reserve absent rfl rfl
  have here := before.settle (t := demoSettled (fillerName n)) rfl rfl rfl
  refine ⟨each_snoc fills.named ⟨n,low,by omega,rfl⟩,each_snoc fills.written (demoSettled_written (fillerName_valid small)),
    each_snoc fills.epoch rfl,readable_snoc fills.readable here,fun request p held => ?_⟩
  by_cases same : fillerName n = request
  · subst same
    cases here.unique held
  · have := (fills.few request p ((Holds.other same).mp held)).1
    exact absurd (List.mem_singleton.mp this).symm same

theorem fills_nothing (start : Nat) : Fills start start [] [] :=
  ⟨by simp,by simp,by simp,fun _ => ⟨none,rfl⟩,fun _ _ held => by cases (show Holds [] _ none from rfl).unique held⟩

theorem sound_snoc (sound : Sound space records) (written : Written r) (epoch : r.namespaceEpoch = space.namespaceEpoch)
    (size : (payload records).length + (line r).length ≤ maxAuditBytes) : Sound space (records ++ [r]) := by
  refine ⟨each_snoc sound.written written,each_snoc sound.epoch epoch,?_⟩
  rw [payload_append,List.length_append]
  simpa [payload] using size

theorem stored_snoc (stored : (⟨rotated,current ++ records⟩ : Logs).Stored space) (written : Written r)
    (epoch : r.namespaceEpoch = space.namespaceEpoch) (size : (payload (current ++ records)).length + (line r).length ≤ maxAuditBytes) :
    (⟨rotated,current ++ (records ++ [r])⟩ : Logs).Stored space := by
  refine ⟨stored.early,?_⟩
  rw [← List.append_assoc]
  exact sound_snoc stored.current written epoch size

theorem snoc_size (records : List Record) (r : Record) :
    (payload records).length + 1 ≤ (payload (records ++ [r])).length := by
  rw [payload_append,List.length_append]
  simp [payload,line]

def Foreign (request : String) : Prop := request.toList.head? ≠ some 'f'

-- The steps of the fillers find no staged log and settle no other request.
def Filling (d : Disk) (event : Event) : Prop :=
  d.next = none ∧ ∀ request, Foreign request → Spares demoSpace request d event

theorem reserving_spares (name request : String) (d : Disk) :
    Spares demoSpace request d (.finished (.reserve name demoIdentity (demoClock 1))) := by
  simp [Spares,acknowledged]

theorem settling_spares (n : Nat) (other : Foreign request) (d : Disk) : Spares demoSpace request d
    (.finished (.appendTerminal (fillerName n) demoIdentity (demoClock 1) ⟨"completed","delivered",none,some 0⟩)) := by
  intro accepted
  have spared : fillerName n ≠ request := Ne.symm (fillerName_apart other)
  unfold acknowledged
  split <;> simp_all

theorem records_appended (rotated : Option (List Record)) (current added : List Record) :
    (⟨rotated,current ++ added⟩ : Logs).records = (⟨rotated,current⟩ : Logs).records ++ added := by
  simp [Logs.records,Logs.early]

-- Fillers run until one of their calls has to rotate.
theorem fill (rotated : Option (List Record)) (current : List Record)
    (scene : Scene (⟨rotated,current⟩ : Logs).records opened) (count : opened.length ≤ 6)
    (unused : Unused start (⟨rotated,current⟩ : Logs).records) :
    ∀ room n fillers, Fills start n [] fillers → start ≤ n → n + room < 10 ^ 100 →
      (⟨rotated,current ++ fillers⟩ : Logs).Stored demoSpace →
      maxAuditBytes ≤ (payload (current ++ fillers)).length + room →
      ∃ events all last more call,
        Run (advance demoSpace) Filling (⟨rotated,current ++ fillers⟩ : Logs).disk events
          (⟨rotated,current ++ all⟩ : Logs).disk ∧
        Fills start last more all ∧ more.length ≤ 1 ∧ start ≤ last ∧ last ≤ n + room + 1 ∧
        (⟨rotated,current ++ all⟩ : Logs).Stored demoSpace ∧
        (∀ request, Foreign request → ∀ d, Spares demoSpace request d (.finished call) ∧
          ∀ left, Spares demoSpace request d (.died call left)) ∧
        Rotates call ⟨rotated,current ++ all⟩ := by
  intro room
  induction room using Nat.strongRecOn with
  | ind room ih =>
    intro n fillers fills low small stored size
    have valid : requestIdRe (fillerName n) = true := fillerName_valid (by omega)
    have apart : fillerName n ≠ "a" := Ne.symm (fillerName_apart (by decide))
    have absent := fills.unused n le_rfl
    have now : Scene (⟨rotated,current ++ fillers⟩ : Logs).records opened := by
      have := scene_filled scene unused fills
      rwa [List.append_nil,← records_appended] at this
    have fresh : Holds (⟨rotated,current ++ fillers⟩ : Logs).records (fillerName n) none := by
      rw [records_appended]
      exact (Holds.left absent).mpr (unused n low)
    obtain ⟨reserves,reserving⟩ := scene_reserve stored now (by omega) valid fresh (le_refl 1)
    by_cases fits : (payload (current ++ fillers)).length + (line (demoReserved (fillerName n) 1)).length ≤ maxAuditBytes
    · have reserved := fills_reserved fills low (by omega)
      have grown := snoc_size (current ++ fillers) (demoReserved (fillerName n) 1)
      have kept := stored_snoc stored (demoReserved_written valid le_rfl) rfl fits
      have first : advance demoSpace (⟨rotated,current ++ fillers⟩ : Logs).disk
          (.finished (.reserve (fillerName n) demoIdentity (demoClock 1))) =
          some (⟨rotated,current ++ (fillers ++ [demoReserved (fillerName n) 1])⟩ : Logs).disk := by
        rw [advance,reserves fits,← List.append_assoc]
      have quiet : Filling (⟨rotated,current ++ fillers⟩ : Logs).disk
          (.finished (.reserve (fillerName n) demoIdentity (demoClock 1))) := ⟨rfl,fun request _ => reserving_spares _ request _⟩
      have next := scene_filled scene unused reserved
      rw [← records_appended] at next
      have held : Holds (⟨rotated,current ++ (fillers ++ [demoReserved (fillerName n) 1])⟩ : Logs).records (fillerName n)
          (some (.reserved (demoReserved (fillerName n) 1))) := by
        rw [records_appended]
        exact (Holds.right (unused n low)).mpr (Holds.reserve absent rfl rfl)
      obtain ⟨settles,settling⟩ := scene_settle kept next (by simp; omega) valid apart held
      by_cases settled : (payload (current ++ (fillers ++ [demoReserved (fillerName n) 1]))).length +
          (line (demoSettled (fillerName n))).length ≤ maxAuditBytes
      · have closed := fills_settled reserved absent low (by omega)
        have again := snoc_size (current ++ (fillers ++ [demoReserved (fillerName n) 1])) (demoSettled (fillerName n))
        rw [List.append_assoc] at again
        rw [List.append_assoc] at grown
        have stays := stored_snoc kept (demoSettled_written valid) rfl settled
        have full := stays.current.size
        have second : advance demoSpace (⟨rotated,current ++ (fillers ++ [demoReserved (fillerName n) 1])⟩ : Logs).disk
            (.finished (.appendTerminal (fillerName n) demoIdentity (demoClock 1)
              ⟨"completed","delivered",none,some 0⟩)) =
            some (⟨rotated,current ++ (fillers ++ [demoReserved (fillerName n) 1] ++ [demoSettled (fillerName n)])⟩ :
              Logs).disk := by
          rw [advance,settles settled,List.append_assoc current]
        have silent : Filling (⟨rotated,current ++ (fillers ++ [demoReserved (fillerName n) 1])⟩ : Logs).disk
            (.finished (.appendTerminal (fillerName n) demoIdentity (demoClock 1)
              ⟨"completed","delivered",none,some 0⟩)) := ⟨rfl,fun _ other => settling_spares n other _⟩
        obtain ⟨events,all,last,more,call,path,rest⟩ := ih (room - 1) (by omega) (n + 1) _ closed (by omega) (by omega)
          stays (by omega)
        obtain ⟨done,few,begun,bound,others⟩ := rest
        exact ⟨_,all,last,more,call,.cons quiet first (.cons silent second path),done,few,begun,by omega,others⟩
      · refine ⟨_,_,n + 1,_,.appendTerminal (fillerName n) demoIdentity (demoClock 1)
          ⟨"completed","delivered",none,some 0⟩,.cons quiet first .nil,reserved,by simp,by omega,by omega,kept,?_,
          settling settled⟩
        intro request other d
        exact ⟨settling_spares n other d,fun left named => absurd named.symm (fillerName_apart other)⟩
    · exact ⟨[],fillers,n,[],.reserve (fillerName n) demoIdentity (demoClock 1),.nil,fills,by simp,low,by omega,stored,
        fun request _ d => ⟨reserving_spares _ request d,fun _ => trivial⟩,reserving fits rfl apart⟩

theorem demoReserved_sound : Sound demoSpace [demoReserved "a" 0] := by
  have written : ∀ r ∈ [demoReserved "a" 0], Written r := fun r inside => by
    cases List.mem_singleton.mp inside
    exact demoReserved_written (by decide) (by decide)
  exact ⟨written,fun r inside => by cases List.mem_singleton.mp inside; rfl,
    (payload_length written).trans (by decide)⟩

theorem scene_alone : Scene [demoReserved "a" 0] ["a"] := by
  have held : Holds ([] ++ [demoReserved "a" 0]) "a" (some (.reserved (demoReserved "a" 0))) :=
    Holds.reserve rfl rfl rfl
  have other : ∀ request, "a" ≠ request → Holds ([] ++ [demoReserved "a" 0]) request none :=
    fun request apart => (Holds.other apart).mpr rfl
  refine ⟨demoReserved_sound.written,fun request => ?_,fun request p shows => ?_,held⟩
  · by_cases same : "a" = request
    · subst same; exact ⟨_,held⟩
    · exact ⟨_,other request same⟩
  · by_cases same : "a" = request
    · subst same; cases held.unique shows; exact ⟨by simp,.inl rfl⟩
    · cases (other request same).unique shows

theorem scene_reserved (scene : Scene records opened) (valid : requestIdRe name = true) (absent : Holds records name none) :
    Scene (records ++ [demoReserved name 1]) (opened ++ [name]) := by
  have held : Holds (records ++ [demoReserved name 1]) name (some (.reserved (demoReserved name 1))) :=
    Holds.reserve absent rfl rfl
  have apart : name ≠ "a" := by
    rintro rfl
    cases absent.unique scene.first
  refine ⟨each_snoc scene.written (demoReserved_written valid le_rfl),readable_snoc scene.readable held,fun request p shows => ?_,
    (Holds.other apart).mpr scene.first⟩
  by_cases same : name = request
  · subst same; cases held.unique shows; exact ⟨by simp,.inr rfl⟩
  · obtain ⟨inside,stamp⟩ := scene.few request p ((Holds.other same).mp shows)
    exact ⟨List.mem_append_left _ inside,stamp⟩

theorem scene_again (scene : Scene records opened) : Scene (records ++ [demoReserved "a" 0]) opened := by
  have once : Holds [demoReserved "a" 0] "a" (some (.reserved (demoReserved "a" 0))) := scene_alone.first
  have twice := scene.first.grow once (.again _)
  refine ⟨List.forall_mem_append.mpr ⟨scene.written,demoReserved_sound.written⟩,readable_snoc scene.readable twice,
    fun request p shows => ?_,twice⟩
  by_cases same : "a" = request
  · subst same
    cases twice.unique shows
    exact ⟨(scene.few _ _ scene.first).1,.inl rfl⟩
  · exact scene.few request p ((Holds.other same).mp shows)

theorem unused_append (first : Unused start records) (second : Unused start others) : Unused start (records ++ others) :=
  fun k low => by rw [ofRequest_append,first k low,second k low]; rfl

theorem unused_named (apart : ∀ k, fillerName k ≠ r.requestId) : Unused start [r] :=
  fun k _ => by rw [ofRequest_cons,if_neg (Ne.symm (apart k))]; rfl

-- Two deaths: one tears the staged log after its first line, one right after the
-- recovery has put that line in place of the current log.
theorem torn_promotion (rotated : Option (List Record)) (current : List Record)
    (scene : Scene (⟨rotated,current⟩ : Logs).records opened) (count : opened.length ≤ 6)
    (unused : Unused start (⟨rotated,current⟩ : Logs).records) (small : start + maxAuditBytes < 10 ^ 100)
    (stored : (⟨rotated,current⟩ : Logs).Stored demoSpace) :
    ∃ events all last more,
      Run (advance demoSpace) (Spares demoSpace "b") (⟨rotated,current⟩ : Logs).disk events
        (⟨some (current ++ all),[demoReserved "a" 0]⟩ : Logs).disk ∧
      Fills start last more all ∧ more.length ≤ 1 ∧ last ≤ start + maxAuditBytes + 1 ∧
      Sound demoSpace (current ++ all) := by
  obtain ⟨events,all,last,more,call,path,fills,few,_,bound,kept,spares,torn⟩ :=
    fill rotated current scene count unused maxAuditBytes start [] (fills_nothing start) le_rfl small (by simpa using stored) (by simp)
  rw [List.append_nil] at path
  have staged := staged_sound demoReserved_sound (by simp) scene_alone.readable
  have reopened := opens_recovered _ (drafted_recovers ⟨rotated,current ++ all⟩ staged)
  have first : advance demoSpace (⟨rotated,current ++ all⟩ : Logs).disk
      (.died call {(⟨rotated,current ++ all⟩ : Logs).disk with next := some (payload [demoReserved "a" 0])}) =
      some {(⟨rotated,current ++ all⟩ : Logs).disk with next := some (payload [demoReserved "a" 0])} := by
    simp only [advance]
    exact if_pos (.inl (torn.stages _ List.prefix_rfl))
  have promoted : (.rotation,(⟨some (current ++ all),[demoReserved "a" 0]⟩ : Logs).disk) ∈
      writes demoSpace (.reserve "b" demoIdentity (demoClock 1))
        {(⟨rotated,current ++ all⟩ : Logs).disk with next := some (payload [demoReserved "a" 0])} := by
    rw [writes,reserve,if_neg (by decide),call_writes reopened]
    exact List.mem_append_left _ (by simp)
  have second : advance demoSpace
      {(⟨rotated,current ++ all⟩ : Logs).disk with next := some (payload [demoReserved "a" 0])}
      (.died (.reserve "b" demoIdentity (demoClock 1)) (⟨some (current ++ all),[demoReserved "a" 0]⟩ : Logs).disk) =
      some (⟨some (current ++ all),[demoReserved "a" 0]⟩ : Logs).disk := by
    simp only [advance]
    exact if_pos (.inl promoted)
  have quiet : Spares demoSpace "b" {(⟨rotated,current ++ all⟩ : Logs).disk with
      next := some (payload [demoReserved "a" 0])} (.died (.reserve "b" demoIdentity (demoClock 1))
        (⟨some (current ++ all),[demoReserved "a" 0]⟩ : Logs).disk) := trivial
  exact ⟨_,all,last,more,((path.weaken fun _ _ filling => filling.2 "b" (by simp [Foreign])).snoc ((spares "b" (by simp [Foreign]) _).2 _) first).snoc
    quiet second,fills,few,bound,kept.current⟩

-- The first call dies once it has created the log, and the reservation is made by the next.
-- The log fills, its rotation dies after the first byte of the staged log, and the call is
-- made again: it discards the staged byte and rotates.
theorem reserved_run_keeps_pending : ∃ filling call left after,
    Run (advance demoSpace) (Orderly demoSpace "a") (⟨none,[demoReserved "a" 0]⟩ : Logs).disk
      (filling ++ [.died call left,.finished call]) after ∧
    left.next = some ['{'] ∧ after.rotated = left.current ∧ after.next = none ∧
    (perform demoSpace (.reserve "a" demoIdentity (demoClock 2)) after).2 =
      .reserved (.ok (some (pendingReceipt "a" "claude"))) := by
  have stored : (⟨none,[demoReserved "a" 0]⟩ : Logs).Stored demoSpace := ⟨sound_nil,demoReserved_sound⟩
  have foreign : Foreign "a" := by simp [Foreign]
  obtain ⟨filling,all,_,_,call,path,_,_,_,_,_,spares,rotates⟩ := fill none [demoReserved "a" 0] scene_alone (by simp)
    (show Unused 0 _ from unused_named fun k => Ne.symm (fillerName_apart (by decide))) maxAuditBytes 0 [] (fills_nothing 0) le_rfl
    (by decide +kernel) (by simpa using stored) (by simp)
  rw [List.append_nil] at path
  generalize shape : (⟨none,[demoReserved "a" 0] ++ all⟩ : Logs) = logs at path rotates
  have torn : ∀ records, stagedRecords demoSpace ['{'] ≠ .ok records := by
    have refused : stagedRecords demoSpace ['{'] = .error .auditCorrupt := by decide +kernel
    intro records staged
    rw [refused] at staged
    cases staged
  have discarded : recoverRotation demoSpace _ = _ := torn_recovers logs torn
  have reopened := opens_recovered logs discarded
  have still : ∀ d : Disk, d.next = none → PromotesWhole demoSpace d := fun d empty _ _ _ staged => by
    rw [empty] at staged
    cases staged
  have begun : ['{'] <+: payload [demoReserved "a" 0] := ⟨_,rfl⟩
  have died : advance demoSpace logs.disk (.died call {logs.disk with next := some ['{']}) =
      some {logs.disk with next := some ['{']} := if_pos (.inl (rotates.stages _ begun))
  have discards : PromotesWhole demoSpace {logs.disk with next := some ['{']} := by
    intro _ _ _ staged _ read
    cases staged
    exact absurd read (torn _)
  have filled : Run (advance demoSpace) (Orderly demoSpace "a") (⟨none,[demoReserved "a" 0]⟩ : Logs).disk filling logs.disk :=
    path.weaken fun d _ filling => ⟨still d filling.1,filling.2 "a" foreign⟩
  have late := (filled.snoc ⟨still _ rfl,(spares "a" foreign _).2 _⟩ died).snoc ⟨discards,(spares "a" foreign _).1⟩ rfl
  rw [List.append_assoc] at late
  have reserves : perform demoSpace (.reserve "a" demoIdentity (demoClock 0)) ⟨some [],none,none⟩ =
      ((⟨none,[demoReserved "a" 0]⟩ : Logs).disk,.reserved (.ok none)) := by decide +kernel
  have created : advance demoSpace emptyDisk (.died (.reserve "a" demoIdentity (demoClock 0)) ⟨some [],none,none⟩) =
      some ⟨some [],none,none⟩ := by decide +kernel
  have answered : (perform demoSpace (.reserve "a" demoIdentity (demoClock 0)) ⟨some [],none,none⟩).2 =
      .reserved (.ok none) := by rw [reserves]
  have kept := (orderly_run_keeps_pending demoSpace (.single (still _ rfl) created) (still _ rfl) answered
    (by rw [reserves]; exact late)).2 (demoClock 2)
  rcases perform_reopened reopened call with same | ⟨stuck,_⟩
  · refine ⟨filling,call,_,_,late,rfl,?_,?_,kept⟩
    · rw [same]; exact rotates.after.1
    · rw [same]; exact rotates.after.2
  · have unrotated := rotates.after.1
    rw [stuck,← shape] at unrotated
    cases unrotated

theorem demo_begins : perform demoSpace (.reserve "a" demoIdentity (demoClock 0)) emptyDisk =
    ((⟨none,[demoReserved "a" 0]⟩ : Logs).disk,.reserved (.ok none)) := by
  decide +kernel

theorem scene_shown {logs : Logs} (stored : logs.Stored demoSpace) (readable : Readable logs.records)
    (holds : Holds logs.records request h) : shown demoSpace logs.disk request = h := by
  obtain ⟨histories,loaded,reads⟩ := load_reads stored readable none
  have loaded : load demoSpace logs.disk = .ok histories := loaded
  rw [shown,loaded]
  exact (reads request).unique holds

theorem scene_room (scene : Scene records opened) (written : Written r)
    (few : records.length * maxAuditLineBytes + maxAuditLineBytes ≤ maxAuditBytes) :
    (payload records).length + (line r).length ≤ maxAuditBytes :=
  (Nat.add_le_add (payload_length scene.written) written.short).trans few

def otherMode : AuditIdentity := {demoIdentity with confirmationMode := "interactive"}

def demoDelivered : Terminal := ⟨"completed","delivered",none,some 0⟩

-- After the reservation of "b" another request is reserved, "b" is settled, and a request
-- under its id in another mode is refused.
def demoBefore : List Call := [.reserve "a" demoIdentity (demoClock 0),.reserve "b" demoIdentity (demoClock 1)]
def demoBetween : List Call := [.reserve "c" demoIdentity (demoClock 1),.appendTerminal "b" demoIdentity (demoClock 1) demoDelivered,
  .reserve "b" otherMode (demoClock 2)]

theorem demo_sceneB : Scene [demoReserved "a" 0,demoReserved "b" 1] ["a","b"] :=
  scene_reserved scene_alone (by decide) (show Holds _ "b" none from rfl)

theorem demo_sceneC : Scene [demoReserved "a" 0,demoReserved "b" 1,demoReserved "c" 1] ["a","b","c"] :=
  scene_reserved demo_sceneB (by decide) (show Holds _ "c" none from rfl)

theorem demo_openB : Holds [demoReserved "a" 0,demoReserved "b" 1] "b" (some (.reserved (demoReserved "b" 1))) :=
  Holds.reserve (show Holds [demoReserved "a" 0] "b" none from rfl) rfl rfl

theorem demo_openC : Holds [demoReserved "a" 0,demoReserved "b" 1,demoReserved "c" 1] "b"
    (some (.reserved (demoReserved "b" 1))) :=
  Holds.snoc (by decide) demo_openB

theorem demo_storedB : (⟨none,[demoReserved "a" 0,demoReserved "b" 1]⟩ : Logs).Stored demoSpace :=
  ⟨sound_nil,sound_snoc demoReserved_sound (demoReserved_written (by decide) le_rfl) rfl
    (scene_room scene_alone (demoReserved_written (by decide) le_rfl) (by decide))⟩

theorem demo_storedC : (⟨none,[demoReserved "a" 0,demoReserved "b" 1,demoReserved "c" 1]⟩ : Logs).Stored demoSpace :=
  ⟨sound_nil,sound_snoc demo_storedB.current (demoReserved_written (by decide) le_rfl) rfl
    (scene_room demo_sceneB (demoReserved_written (by decide) le_rfl) (by decide))⟩

theorem demo_storedT : (⟨none,[demoReserved "a" 0,demoReserved "b" 1,demoReserved "c" 1,demoSettled "b"]⟩ : Logs).Stored demoSpace :=
  ⟨sound_nil,sound_snoc demo_storedC.current (demoSettled_written (by decide)) rfl
    (scene_room demo_sceneC (demoSettled_written (by decide)) (by decide))⟩

theorem demo_before : runCalls demoSpace demoBefore emptyDisk = (⟨none,[demoReserved "a" 0,demoReserved "b" 1]⟩ : Logs).disk ∧
    (perform demoSpace (.reserve "b" demoIdentity (demoClock 1))
      (runCalls demoSpace [.reserve "a" demoIdentity (demoClock 0)] emptyDisk)).2 = .reserved (.ok none) := by
  have first : runCalls demoSpace [.reserve "a" demoIdentity (demoClock 0)] emptyDisk = (⟨none,[demoReserved "a" 0]⟩ : Logs).disk := by
    rw [runCalls_cons,demo_begins]
    rfl
  have second := (scene_reserve (show (⟨none,[demoReserved "a" 0]⟩ : Logs).Stored demoSpace from ⟨sound_nil,demoReserved_sound⟩) scene_alone
    (by decide) (by decide) (show Holds _ "b" none from rfl) le_rfl).1 (scene_room scene_alone (demoReserved_written (by decide) le_rfl) (by decide))
  have steps : demoBefore = [.reserve "a" demoIdentity (demoClock 0)] ++ [.reserve "b" demoIdentity (demoClock 1)] := rfl
  rw [steps,runCalls_append,first,runCalls_cons,second]
  exact ⟨rfl,rfl⟩

theorem demo_between : perform demoSpace (.reserve "c" demoIdentity (demoClock 1))
      (⟨none,[demoReserved "a" 0,demoReserved "b" 1]⟩ : Logs).disk =
      ((⟨none,[demoReserved "a" 0,demoReserved "b" 1,demoReserved "c" 1]⟩ : Logs).disk,.reserved (.ok none)) ∧
    perform demoSpace (.appendTerminal "b" demoIdentity (demoClock 1) demoDelivered)
      (⟨none,[demoReserved "a" 0,demoReserved "b" 1,demoReserved "c" 1]⟩ : Logs).disk =
      ((⟨none,[demoReserved "a" 0,demoReserved "b" 1,demoReserved "c" 1,demoSettled "b"]⟩ : Logs).disk,
        .settled (.ok (receipt (demoSettled "b")))) :=
  ⟨(scene_reserve demo_storedB demo_sceneB (by decide) (by decide) (show Holds _ "c" none from rfl) le_rfl).1
      (scene_room demo_sceneB (demoReserved_written (by decide) le_rfl) (by decide)),
    (scene_settle demo_storedC demo_sceneC (by decide) (by decide) (by decide) demo_openC).1
      (scene_room demo_sceneC (demoSettled_written (by decide)) (by decide))⟩

theorem demo_settledB : Holds [demoReserved "a" 0,demoReserved "b" 1,demoReserved "c" 1,demoSettled "b"] "b"
    (some (.settled (demoReserved "b" 1) (demoSettled "b"))) := demo_openC.settle rfl rfl rfl

theorem demo_readableT : Readable [demoReserved "a" 0,demoReserved "b" 1,demoReserved "c" 1,demoSettled "b"] := by
  intro request
  by_cases same : "b" = request
  · subst same; exact ⟨_,demo_settledB⟩
  · exact (demo_sceneC.readable request).imp fun _ held => Holds.snoc same held

theorem demo_retained (inside : part <+: demoBetween) :
    ∃ h, shown demoSpace (runCalls demoSpace (demoBefore ++ part) emptyDisk) "b" = some h := by
  have settled : Settled demoSpace (⟨none,[demoReserved "a" 0,demoReserved "b" 1,demoReserved "c" 1,demoSettled "b"]⟩ : Logs).disk := by
    have ran : Settled demoSpace _ := run_settled .fresh (demoBefore ++ [.reserve "c" demoIdentity (demoClock 1),
      .appendTerminal "b" demoIdentity (demoClock 1) demoDelivered])
    rw [runCalls_append,demo_before.1,runCalls_cons,demo_between.1,runCalls_cons,demo_between.2] at ran
    exact ran
  have last := scene_shown demo_storedT demo_readableT demo_settledB
  have parts := (List.mem_inits _ _).mpr inside
  rw [runCalls_append,demo_before.1]
  simp only [demoBetween,List.inits_cons,List.inits.eq_1,List.map_cons,List.map_nil,List.mem_cons,List.not_mem_nil,or_false]
    at parts
  rcases parts with rfl | rfl | rfl | rfl
  · rw [runCalls_nil]
    exact ⟨_,scene_shown demo_storedB demo_sceneB.readable demo_openB⟩
  · rw [runCalls_cons,demo_between.1,runCalls_nil]
    exact ⟨_,scene_shown demo_storedC demo_sceneC.readable demo_openC⟩
  · rw [runCalls_cons,demo_between.1,runCalls_cons,demo_between.2,runCalls_nil]
    exact ⟨_,last⟩
  · rw [runCalls_cons,demo_between.1,runCalls_cons,demo_between.2,runCalls_cons,runCalls_nil]
    exact ⟨_,(reserve_again settled last).2⟩

theorem open_request_replays :
    (perform demoSpace (.reserve "b" demoIdentity (demoClock 3)) (runCalls demoSpace (demoBefore ++ demoBetween) emptyDisk)).2 =
        .reserved (.ok (some ⟨"b","claude","completed","delivered",some 0,none⟩)) ∧
      (perform demoSpace (.reserve "b" otherMode (demoClock 3)) (runCalls demoSpace (demoBefore ++ demoBetween) emptyDisk)).2 =
        .reserved (.error .requestConflict) := by
  have answers : ∀ other, requestText other = requestText demoIdentity →
      (perform demoSpace (.reserve "b" other (demoClock 3)) (runCalls demoSpace (demoBefore ++ demoBetween) emptyDisk)).2 =
        .reserved (if SameRequest demoIdentity other then .ok (some (receipt (demoSettled "b"))) else .error .requestConflict) := by
    intro other same
    have each : ∀ call ∈ demoBefore ++ demoBetween ++ [.reserve "b" other (demoClock 3)],
        requestText call.identity = requestText demoIdentity := by
      simp only [demoBefore,demoBetween,List.cons_append,List.nil_append,List.forall_mem_cons]
      exact ⟨rfl,rfl,rfl,rfl,rfl,same,nofun⟩
    have collisionFree : Set.InjOn demoSpace.digest
        {text | ∃ call ∈ demoBefore ++ demoBetween ++ [.reserve "b" other (demoClock 3)], text = requestText call.identity} := by
      rintro _ ⟨x,inX,rfl⟩ _ ⟨y,inY,rfl⟩ _
      exact (each x inX).trans (each y inY).symm
    have replays := ((retained_request_once demoSpace _ collisionFree).2.2 [.reserve "a" demoIdentity (demoClock 0)] "b"
      demoIdentity (demoClock 1) demoBetween _ rfl demo_before.2 fun part inside => demo_retained inside).2 other (demoClock 3)
      [] rfl
    have received : receipts demoSpace "b" demoBetween (runCalls demoSpace demoBefore emptyDisk) = [receipt (demoSettled "b")] := by
      rw [demo_before.1,demoBetween,receipts_cons,acknowledged_reserve,demo_between.1,receipts_cons,demo_between.2,receipts_cons,
        acknowledged_reserve]
      rfl
    rw [show [Call.reserve "a" demoIdentity (demoClock 0)] ++ [.reserve "b" demoIdentity (demoClock 1)] = demoBefore from rfl,
      received] at replays
    exact replays
  have same := answers demoIdentity rfl
  rw [if_pos ⟨rfl,rfl,rfl,rfl,rfl⟩] at same
  have apart := answers otherMode rfl
  rw [if_neg (by decide)] at apart
  exact ⟨same,apart⟩

-- A reservation is lost, and answered a second time with None, after two recoveries
-- that each promote a staged log torn on a line boundary.
theorem torn_promotions_lose : ∃ early d late after,
    Run (advance demoSpace) Any emptyDisk early d ∧
    (perform demoSpace (.reserve "b" demoIdentity (demoClock 1)) d).2 = .reserved (.ok none) ∧
    Run (advance demoSpace) (Spares demoSpace "b")
      (perform demoSpace (.reserve "b" demoIdentity (demoClock 1)) d).1 late after ∧
    (perform demoSpace (.reserve "b" demoIdentity (demoClock 1)) after).2 = .reserved (.ok none) := by
  have begun : (⟨none,[demoReserved "a" 0]⟩ : Logs).Stored demoSpace := ⟨sound_nil,demoReserved_sound⟩
  have named : requestIdRe "b" = true := by decide
  have second : Written (demoReserved "b" 1) := demoReserved_written named le_rfl
  have light : (payload [demoReserved "a" 0]).length + (line (demoReserved "b" 1)).length ≤ maxAuditBytes :=
    (Nat.add_le_add (payload_length demoReserved_sound.written) second.short).trans (by decide)
  have missing : Holds (⟨none,[demoReserved "a" 0]⟩ : Logs).records "b" none := rfl
  have reserves : perform demoSpace (.reserve "b" demoIdentity (demoClock 1)) (⟨none,[demoReserved "a" 0]⟩ : Logs).disk =
      ((⟨none,[demoReserved "a" 0] ++ [demoReserved "b" 1]⟩ : Logs).disk,.reserved (.ok none)) := by
    apply (scene_reserve begun scene_alone (by simp) named missing (le_refl 1)).1
    dsimp only
    exact light
  -- Both reservations are made, and the first log is filled and replaced.
  have both : Scene [demoReserved "a" 0,demoReserved "b" 1] ["a","b"] := scene_reserved scene_alone named missing
  have stored : (⟨none,[demoReserved "a" 0,demoReserved "b" 1]⟩ : Logs).Stored demoSpace :=
    ⟨sound_nil,sound_snoc demoReserved_sound second rfl light⟩
  have unusedA : ∀ n, Unused n [demoReserved "a" 0] := fun n =>
    unused_named fun k => Ne.symm (fillerName_apart (by decide))
  have unusedB : ∀ n, Unused n [demoReserved "b" 1] := fun n =>
    unused_named fun k => Ne.symm (fillerName_apart (by decide))
  have fresh : Unused 0 [demoReserved "a" 0,demoReserved "b" 1] := unused_append (unusedA 0) (unusedB 0)
  obtain ⟨firstEvents,first,stop,more,firstPath,firstFills,few,bound,sound⟩ :=
    torn_promotion none [demoReserved "a" 0,demoReserved "b" 1] both (by simp) fresh (by decide +kernel) stored
  -- The second log is filled and replaced in turn; it never held the second reservation.
  have unused : Unused stop ([demoReserved "a" 0,demoReserved "b" 1] ++ first ++ [demoReserved "a" 0]) :=
    unused_append (unused_append (unused_append (unusedA stop) (unusedB stop)) firstFills.unused) (unusedA stop)
  have scene := scene_again (scene_filled both fresh firstFills)
  obtain ⟨secondEvents,fillers,last,others,secondPath,fills,fewer,_,kept⟩ :=
    torn_promotion (some ([demoReserved "a" 0,demoReserved "b" 1] ++ first)) [demoReserved "a" 0] scene
      (by simp; omega) unused (by simp only [maxAuditBytes] at bound ⊢; omega) ⟨sound,demoReserved_sound⟩
  have absent : ofRequest "b" ([demoReserved "a" 0] ++ fillers ++ [demoReserved "a" 0]) = [] := by
    rw [ofRequest_append,ofRequest_append,fills.absent fun k _ _ => fillerName_apart (by decide)]
    rfl
  have final := scene_again (scene_filled scene_alone (unusedA stop) fills)
  have stands : (⟨some ([demoReserved "a" 0] ++ fillers),[demoReserved "a" 0]⟩ : Logs).Stored demoSpace :=
    ⟨kept,demoReserved_sound⟩
  have again : (perform demoSpace (.reserve "b" demoIdentity (demoClock 1))
      (⟨some ([demoReserved "a" 0] ++ fillers),[demoReserved "a" 0]⟩ : Logs).disk).2 = .reserved (.ok none) := by
    rw [(scene_reserve stands final (by simp; omega) named absent (le_refl 1)).1 light]
  refine ⟨[.finished (.reserve "a" demoIdentity (demoClock 0))],(⟨none,[demoReserved "a" 0]⟩ : Logs).disk,
    firstEvents ++ secondEvents,_,.single trivial (by rw [advance,demo_begins]),by rw [reserves],?_,again⟩
  rw [reserves]
  exact firstPath.append secondPath

end AgentSideCar.Audit
