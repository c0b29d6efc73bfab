import AgentSideCar.Audit.Logs

namespace AgentSideCar.Audit
variable {space : AuditNamespace} {logs : Logs} {histories : Histories} {record : Record}

theorem extend_after : (extend logs.disk (line record)).after = (⟨logs.rotated,logs.current ++ [record]⟩ : Logs).disk := by
  simp [extend,Logs.disk,payload]

theorem rotate_after {records : List Record} : (rotate logs.disk (payload records)).after =
    (⟨some logs.current,records⟩ : Logs).disk := by
  simp [rotate,Logs.disk]

-- A valid record is refused before any write, added in place, or written by a rotation.
inductive Adding (space : AuditNamespace) (logs : Logs) (histories : Histories) (record : Record) :
    Attempt Unit → Prop where
  | refused (error : AuditError) : Adding space logs histories record (.still logs.disk (.error error))
  | extended : Sound space (logs.current ++ [record]) →
      Adding space logs histories record (extend logs.disk (line record))
  | rotated : Sound space (rotationRecords histories record) →
      Adding space logs histories record (rotate logs.disk (payload (rotationRecords histories record)))

theorem append_adding (stored : logs.Stored space) (reads : Reads logs.records histories)
    (addable : Addable histories record) (valid : record.valid = true)
    (epoch : record.namespaceEpoch = space.namespaceEpoch) :
    Adding space logs histories record (append logs.disk record histories) := by
  unfold append
  cases encoded : encodedRecord record with
  | error refused => exact .refused refused
  | ok text =>
    obtain ⟨rfl,short⟩ := encoded_iff.mp encoded
    have written : ∀ r, r = record ∨ r ∈ logs.records → Written r ∧ r.namespaceEpoch = space.namespaceEpoch := by
      rintro r (rfl | inside)
      · exact ⟨⟨valid,short⟩,epoch⟩
      · rcases List.mem_append.mp inside with inside | inside
        · exact ⟨stored.early.written r inside,stored.early.epoch r inside⟩
        · exact ⟨stored.current.written r inside,stored.current.epoch r inside⟩
    cases pendings : activePendingPayload histories record with
    | error refused => exact .refused refused
    | ok text =>
      simp only
      split
      · cases rotation : rotationPayload histories record (line record) text with
        | error refused => exact .refused refused
        | ok rotation =>
          obtain ⟨rfl,size⟩ := rotation_text addable pendings rotation
          simp only [Logs.disk,if_true]
          exact .rotated ⟨fun r inside => (written r (rotation_members reads inside)).1,
            fun r inside => (written r (rotation_members reads inside)).2,size⟩
      · rename_i fits
        have inside : ∀ r ∈ logs.current ++ [record], r = record ∨ r ∈ logs.records := by
          intro r inside
          rcases List.mem_append.mp inside with inside | last
          · exact .inr (List.mem_append_right _ inside)
          · exact .inl (List.mem_singleton.mp last)
        refine .extended ⟨fun r present => (written r (inside r present)).1,
          fun r present => (written r (inside r present)).2,?_⟩
        have size : (payload (logs.current ++ [record])).length = (payload logs.current).length + (line record).length := by
          simp [payload]
        simp only [Logs.disk,Option.getD_some] at fits
        omega

-- The logs once the record is written, in place or by a rotation.
inductive Added (space : AuditNamespace) (logs : Logs) (histories : Histories) (record : Record) : Logs → Prop where
  | extended : Sound space (logs.current ++ [record]) →
      Added space logs histories record ⟨logs.rotated,logs.current ++ [record]⟩
  | rotated : Sound space (rotationRecords histories record) →
      Added space logs histories record ⟨some logs.current,rotationRecords histories record⟩

theorem Adding.added (adding : Adding space logs histories record attempt) :
    (∃ error, attempt = .still logs.disk (.error error)) ∨
      (attempt.outcome = .ok () ∧ ∃ after, attempt.after = after.disk ∧ Added space logs histories record after) := by
  cases adding with
  | refused error => exact .inl ⟨error,rfl⟩
  | extended sound => exact .inr ⟨rfl,_,extend_after,.extended sound⟩
  | rotated sound => exact .inr ⟨rfl,_,rotate_after,.rotated sound⟩

theorem Added.stored (added : Added space logs histories record after) (stored : logs.Stored space) :
    after.Stored space := by
  cases added with
  | extended sound => exact ⟨stored.early,sound⟩
  | rotated sound => exact ⟨stored.current,sound⟩

def updated (histories : Histories) (record : Record) (request : String) : Option History :=
  if request = record.requestId then added histories record else histories.get request

theorem extended_holds (holds : Holds records request (histories.get request)) (addable : Addable histories record)
    : Holds (records ++ [record]) request (updated histories record request) := by
  unfold updated
  split
  · rename_i same
    subst same
    cases addable with
    | pending pends absent =>
      rw [absent] at holds
      rw [added,absent]
      exact holds.reserve pends rfl
    | @terminal reserved ended opened identity =>
      rw [opened] at holds
      rw [added,opened]
      exact holds.settle ended identity rfl
  · rename_i apart
    exact (Holds.other (Ne.symm apart)).mpr holds

-- A rotation forgets a request only once its history is settled.
inductive Forgets : Option History → Option History → Prop where
  | keeps (h : Option History) : Forgets h h
  | drops (p t : Record) : Forgets (some (.settled p t)) none

theorem added_holds (held : Held logs.early logs.current) (reads : Reads logs.records histories)
    (addable : Addable histories record) (added : Added space logs histories record after) (request : String) :
    ∃ h, Holds after.records request h ∧ Forgets (updated histories record request) h ∧
      (request = record.requestId → h = updated histories record request) := by
  cases added with
  | extended =>
    refine ⟨_,?_,.keeps _,fun _ => rfl⟩
    have := extended_holds (reads request) addable
    simpa [Logs.records,Logs.early] using this
  | rotated =>
    have draft := rotation_torn reads addable List.prefix_rfl
    obtain ⟨h,c,k,whole,inside,written,carried,grows,joined⟩ := drafted_holds held draft request
    cases (reads request).unique whole
    cases written.unique (rotation_holds reads addable request)
    refine ⟨_,joined,?_⟩
    unfold carriedOver updated
    by_cases same : request = record.requestId
    · subst same
      simp only [if_true]
      have present : ∃ history, Audit.added histories record = some history := by
        unfold Audit.added
        cases histories.get record.requestId <;> exact ⟨_,rfl⟩
      obtain ⟨history,found⟩ := present
      rw [found,Option.some_or]
      exact ⟨.keeps _,fun _ => rfl⟩
    · simp only [same,if_false,false_implies,and_true]
      generalize histories.get request = shown at carried
      cases carried with
      | same =>
        cases c with
        | none => exact .keeps _
        | some history => cases history <;> exact .keeps _
      | dropped p t => exact .drops p t

theorem added_held (held : Held logs.early logs.current) (reads : Reads logs.records histories)
    (addable : Addable histories record) (added : Added space logs histories record after) :
    Held after.early after.current := by
  cases added with
  | rotated => exact drafted_held held (rotation_torn reads addable List.prefix_rfl) (rotation_complete reads addable)
  | extended =>
    intro request
    obtain ⟨h,c,whole,inside,carried⟩ := held request
    cases (reads request).unique whole
    have grown := extended_holds (reads request) addable
    rw [Logs.records,List.append_assoc] at grown
    unfold updated at grown
    by_cases same : request = record.requestId
    · subst same
      rw [if_pos rfl] at grown
      refine ⟨_,_,grown,?_,.same _⟩
      cases addable with
      | pending pends absent =>
        rw [absent] at carried
        cases carried
        rw [Audit.added,absent]
        exact inside.reserve pends rfl
      | @terminal reserved ended opened identity =>
        rw [opened] at carried
        cases carried
        rw [Audit.added,opened]
        exact inside.settle ended identity rfl
    · rw [if_neg same] at grown
      exact ⟨_,c,grown,(Holds.other (Ne.symm same)).mpr inside,carried⟩

end AgentSideCar.Audit
