import AgentSideCar.Audit.Record
import AgentSideCar.Library.Dict

namespace AgentSideCar.Audit

abbrev Identity := String × String × String × String

def recordIdentity (r : Record) : Identity := (r.agent,r.targetHmac,r.requestHmac,r.confirmationMode)

-- A compacted history: its pending record, and its terminal if it has one.
inductive History where
  | reserved (pending : Record)
  | settled (pending terminal : Record)
deriving DecidableEq

def History.latest : History → Record
  | .reserved pending => pending
  | .settled _ terminal => terminal

def History.pending : History → Record
  | .reserved pending => pending
  | .settled pending _ => pending

abbrev Histories := Dict String History

def grouped (records : List Record) : Dict String (List Record) :=
  records.foldl (fun histories r => histories.set r.requestId ((histories.get r.requestId).getD [] ++ [r])) .empty

-- One identity, no terminal before the last record, and pendings that are all one record.
def compactHistory (history : List Record) : Except AuditError History :=
  match history.filter Record.isPending with
  | [] => .error .auditCorrupt
  | pending :: others =>
    if history.any (recordIdentity · ≠ recordIdentity pending) then .error .auditCorrupt
    else if history.dropLast.any (!·.isPending) then .error .auditCorrupt
    else if others.any (· ≠ pending) then .error .auditCorrupt
    else match history.getLast? with
      | none => .error .auditCorrupt
      | some last => .ok (if last.isPending then .reserved last else .settled pending last)

def validateHistories (records : List Record) : Except AuditError Histories :=
  (grouped records).entries.foldlM (fun compacted e => do
    let history ← compactHistory e.2
    pure (compacted.set e.1 history)) .empty

def ofRequest (request : String) (records : List Record) : List Record := records.filter (·.requestId = request)

@[simp] theorem ofRequest_append : ofRequest request (first ++ second) = ofRequest request first ++ ofRequest request second :=
  List.filter_append ..

theorem ofRequest_cons : ofRequest request (r :: rest) = (if r.requestId = request then [r] else []) ++ ofRequest request rest := by
  rw [ofRequest,List.filter_cons]
  split <;> simp_all [ofRequest]

theorem grouped_get : (grouped records).get request =
    if ofRequest request records = [] then none else some (ofRequest request records) := by
  have general : ∀ histories : Dict String (List Record),
      (records.foldl (fun histories r =>
        histories.set r.requestId ((histories.get r.requestId).getD [] ++ [r])) histories).get request =
      if ofRequest request records = [] then histories.get request
      else some ((histories.get request).getD [] ++ ofRequest request records) := by
    induction records with
    | nil => intro histories; rfl
    | cons r rest ih =>
      intro histories
      rw [List.foldl_cons,ih,Dict.get_set,ofRequest_cons]
      by_cases same : r.requestId = request
      · subst same
        by_cases alone : ofRequest r.requestId rest = [] <;> simp [alone]
      · simp [same,Ne.symm same]
  exact (general .empty).trans (by simp [Dict.get_empty])

theorem compacted_get {entries : List (String × List Record)} (distinct : (entries.map Prod.fst).Nodup)
    (done : entries.foldlM (fun (compacted : Histories) e => do
      let history ← compactHistory e.2
      pure (compacted.set e.1 history)) start = .ok histories) :
    (∀ e ∈ entries, ∃ history, compactHistory e.2 = .ok history ∧ histories.get e.1 = some history) ∧
    ∀ request, request ∉ entries.map Prod.fst → histories.get request = start.get request := by
  induction entries generalizing start with
  | nil => cases done; exact ⟨by simp,fun _ _ => rfl⟩
  | cons e rest ih =>
    rw [List.map_cons,List.nodup_cons] at distinct
    rw [List.foldlM_cons] at done
    cases here : compactHistory e.2 with
    | error refused => rw [here] at done; cases done
    | ok history =>
      rw [here] at done
      obtain ⟨later,frame⟩ := ih distinct.2 done
      refine ⟨fun other inside => ?_,fun request outside => ?_⟩
      · rcases List.mem_cons.mp inside with rfl | inside
        · exact ⟨history,here,by rw [frame _ distinct.1,Dict.get_set,if_pos rfl]⟩
        · exact later other inside
      · rw [List.map_cons,List.mem_cons,not_or] at outside
        rw [frame request outside.2,Dict.get_set,if_neg outside.1]

theorem compacted_runs {entries : List (String × List Record)}
    (each : ∀ e ∈ entries, ∃ history, compactHistory e.2 = .ok history) (start : Histories) :
    ∃ histories, entries.foldlM (fun (compacted : Histories) e => do
      let history ← compactHistory e.2
      pure (compacted.set e.1 history)) start = .ok histories := by
  induction entries generalizing start with
  | nil => exact ⟨start,rfl⟩
  | cons e rest ih =>
    obtain ⟨history,here⟩ := each e List.mem_cons_self
    obtain ⟨histories,done⟩ := ih (fun other inside => each other (List.mem_cons_of_mem _ inside)) (start.set e.1 history)
    exact ⟨histories,by rw [List.foldlM_cons,here]; exact done⟩

-- What a history is made of: one pending record, written once or more, and at
-- most one terminal after it under the same identity.
inductive Shaped : List Record → History → Prop where
  | reserved (p : Record) (n : Nat) : p.isPending = true → Shaped (List.replicate (n + 1) p) (.reserved p)
  | settled (p t : Record) (n : Nat) : p.isPending = true → t.isPending = false → recordIdentity t = recordIdentity p →
      Shaped (List.replicate (n + 1) p ++ [t]) (.settled p t)

theorem compactHistory_shaped (shaped : Shaped history compacted) : compactHistory history = .ok compacted := by
  cases shaped with
  | reserved p n pends =>
    have kept : (List.replicate (n + 1) p).filter Record.isPending = p :: List.replicate n p := by
      rw [List.filter_eq_self.mpr (by simp [pends]),List.replicate_succ]
    rw [compactHistory,kept]
    simp [pends,List.getLast?_replicate]
  | settled p t n pends ended same =>
    have kept : (List.replicate (n + 1) p ++ [t]).filter Record.isPending = p :: List.replicate n p := by
      rw [List.filter_append,List.filter_eq_self.mpr (by simp [pends]),List.filter_cons_of_neg (by simp [ended]),
        List.filter_nil,List.append_nil,List.replicate_succ]
    rw [compactHistory,kept]
    simp [pends,ended,same]

theorem shaped_compactHistory (done : compactHistory history = .ok compacted) : Shaped history compacted := by
  unfold compactHistory at done
  split at done
  · cases done
  · rename_i pending others kept
    have pends : pending.isPending = true :=
      (List.mem_filter.mp (kept ▸ List.mem_cons_self : pending ∈ history.filter Record.isPending)).2
    split at done; · cases done
    rename_i identities
    split at done; · cases done
    rename_i ordered
    split at done; · cases done
    rename_i repeated
    simp only [List.any_eq_true,Bool.not_eq_true',not_exists,not_and,Bool.not_eq_false] at ordered
    have copies : ∀ r ∈ history, r.isPending = true → r = pending := by
      intro r inside pends
      have := kept ▸ List.mem_filter.mpr ⟨inside,pends⟩
      simp only [List.any_eq_true,decide_eq_true_eq,not_exists,not_and,not_not] at repeated
      rcases List.mem_cons.mp this with rfl | later
      · rfl
      · exact repeated r later
    rcases List.eq_nil_or_concat' history with rfl | ⟨early,last,rfl⟩
    · simp at kept
    · simp only [List.dropLast_concat,List.getLast?_concat] at ordered done
      have prefixed : early = List.replicate early.length pending :=
        List.eq_replicate_iff.mpr ⟨rfl,fun r inside => copies r (by simp [inside]) (ordered r inside)⟩
      cases done
      split
      · rename_i last_pends
        have := copies last (by simp) last_pends
        rw [prefixed,this,← List.replicate_succ']
        exact .reserved _ _ pends
      · rename_i ended
        have some_left : early.length ≠ 0 := by
          intro empty
          rw [List.length_eq_zero_iff.mp empty] at kept
          simp [ended] at kept
        obtain ⟨n,counted⟩ := Nat.exists_eq_succ_of_ne_zero some_left
        rw [prefixed,counted]
        refine .settled _ _ _ pends (by simpa using ended) ?_
        simp only [List.any_eq_true,decide_eq_true_eq,not_exists,not_and,not_not] at identities
        exact identities last (by simp)

theorem compactHistory_exact : compactHistory history = .ok compacted ↔ Shaped history compacted :=
  ⟨shaped_compactHistory,compactHistory_shaped⟩

-- The history of one request among the records, if it has any.
def Holds (records : List Record) (request : String) : Option History → Prop
  | none => ofRequest request records = []
  | some history => Shaped (ofRequest request records) history

def Readable (records : List Record) : Prop := ∀ request, ∃ history, Holds records request history

theorem Shaped.nonempty (shaped : Shaped history compacted) : history ≠ [] := by
  cases shaped <;> simp

theorem Shaped.unique (left : Shaped history a) (right : Shaped history b) : a = b :=
  Except.ok.inj ((compactHistory_shaped left).symm.trans (compactHistory_shaped right))

theorem Holds.unique (left : Holds records request a) (right : Holds records request b) : a = b := by
  cases a with
  | none =>
    cases b with
    | none => rfl
    | some history => exact absurd left (Shaped.nonempty right)
  | some history =>
    cases b with
    | none => exact absurd right (Shaped.nonempty left)
    | some other => rw [Shaped.unique left right]

theorem histories_hold (loaded : validateHistories records = .ok histories) (request : String) :
    Holds records request (histories.get request) := by
  obtain ⟨each,frame⟩ := compacted_get (grouped records).unique loaded
  by_cases none_left : ofRequest request records = []
  · have absent : (grouped records).get request = none := by rw [grouped_get,if_pos none_left]
    rw [frame request ((Dict.get_none _).mp absent),Dict.get_empty]
    exact none_left
  · have present : (grouped records).get request = some (ofRequest request records) := by
      rw [grouped_get,if_neg none_left]
    obtain ⟨history,compacted,stored⟩ := each _ ((Dict.get_iff _).mp present)
    simp only at stored
    rw [stored]
    exact compactHistory_exact.mp compacted

theorem histories_exist (readable : Readable records) : ∃ histories, validateHistories records = .ok histories := by
  refine compacted_runs (fun e inside => ?_) .empty
  have present := (Dict.get_iff _).mpr inside
  rw [grouped_get] at present
  split at present
  · cases present
  · rename_i some_left
    obtain ⟨history,held⟩ := readable e.1
    rw [← Option.some.inj present]
    cases history with
    | none => exact absurd held some_left
    | some history => exact ⟨history,compactHistory_exact.mpr held⟩

theorem Holds.reserve (absent : Holds records request none) (pends : p.isPending = true)
    (named : p.requestId = request) : Holds (records ++ [p]) request (some (.reserved p)) := by
  have alone : ofRequest request (records ++ [p]) = List.replicate 1 p := by
    rw [ofRequest_append,show ofRequest request records = [] from absent,ofRequest_cons,if_pos named]
    rfl
  rw [Holds,alone]
  exact .reserved p 0 pends

theorem Holds.settle (open_request : Holds records request (some (.reserved p))) (ended : t.isPending = false)
    (same : recordIdentity t = recordIdentity p) (named : t.requestId = request) :
    Holds (records ++ [t]) request (some (.settled p t)) := by
  have last : ofRequest request [t] = [t] := by rw [ofRequest_cons,if_pos named]; rfl
  unfold Holds at open_request ⊢
  rw [ofRequest_append,last]
  generalize ofRequest request records = history at open_request
  cases open_request with
  | reserved _ n pends => exact .settled p t n pends ended same

theorem Holds.other (apart : r.requestId ≠ request) : Holds (records ++ [r]) request h ↔ Holds records request h := by
  have untouched : ofRequest request (records ++ [r]) = ofRequest request records := by
    rw [ofRequest_append,ofRequest_cons,if_neg apart]
    simp [ofRequest]
  cases h <;> rw [Holds,Holds,untouched]

theorem Holds.snoc (apart : r.requestId ≠ request) (held : Holds records request h) : Holds (records ++ [r]) request h := (Holds.other apart).mpr held

-- What a rotation may write for a request whose history is the first.
inductive Grows : Option History → Option History → Prop where
  | idle (h : Option History) : Grows h none
  | fresh (p : Record) : Grows none (some (.reserved p))
  | again (p : Record) : Grows (some (.reserved p)) (some (.reserved p))
  | closed (p t : Record) : Grows (some (.reserved p)) (some (.settled p t))

theorem Holds.grow (early : Holds first request c) (late : Holds second request k) (grows : Grows c k) :
    Holds (first ++ second) request (k.or c) := by
  cases grows with
  | idle =>
    rw [Option.none_or]
    have none_left : ofRequest request second = [] := late
    cases c <;> rwa [Holds,ofRequest_append,none_left,List.append_nil]
  | fresh p =>
    have none_left : ofRequest request first = [] := early
    rwa [Option.some_or,Holds,ofRequest_append,none_left,List.nil_append]
  | again p =>
    unfold Holds at early late
    rw [Option.some_or,Holds,ofRequest_append]
    generalize ofRequest request first = a at early
    generalize ofRequest request second = b at late
    cases early with
    | reserved _ n pends =>
      cases late with
      | reserved _ m _ =>
        rw [List.replicate_append_replicate]
        exact .reserved p (n + 1 + m) pends
  | closed p t =>
    unfold Holds at early late
    rw [Option.some_or,Holds,ofRequest_append]
    generalize ofRequest request first = a at early
    generalize ofRequest request second = b at late
    cases early with
    | reserved _ n pends =>
      cases late with
      | settled _ _ m _ ended same =>
        rw [← List.append_assoc,List.replicate_append_replicate]
        exact .settled p t (n + 1 + m) pends ended same

-- The current log alone shows what both logs show, up to histories that are closed.
inductive Carried : Option History → Option History → Prop where
  | same (h : Option History) : Carried h h
  | dropped (p t : Record) : Carried (some (.settled p t)) none

def Held (rotated current : List Record) : Prop :=
  ∀ request, ∃ h c, Holds (rotated ++ current) request h ∧ Holds current request c ∧ Carried h c

def Draft (rotated current next : List Record) : Prop :=
  ∀ request, ∃ h k, Holds (rotated ++ current) request h ∧ Holds next request k ∧ Grows h k

-- The next log repeats every pending that is still open.
def Complete (rotated current next : List Record) : Prop :=
  ∀ request p, Holds (rotated ++ current) request (some (.reserved p)) → ¬ Holds next request none

theorem Held.readable (held : Held rotated current) : Readable (rotated ++ current) :=
  fun request => let ⟨h,_,whole,_,_⟩ := held request; ⟨h,whole⟩

theorem Carried.grows (carried : Carried h c) (grows : Grows h k) : Grows c k := by
  cases carried with
  | same => exact grows
  | dropped p t => cases grows; exact .idle none

theorem drafted_holds (held : Held rotated current) (draft : Draft rotated current next) (request : String) :
    ∃ h c k, Holds (rotated ++ current) request h ∧ Holds current request c ∧ Holds next request k ∧
      Carried h c ∧ Grows h k ∧ Holds (current ++ next) request (k.or c) := by
  obtain ⟨h,c,whole,inside,carried⟩ := held request
  obtain ⟨h',k,whole',written,grows⟩ := draft request
  cases whole.unique whole'
  exact ⟨h,c,k,whole,inside,written,carried,grows,inside.grow written (carried.grows grows)⟩

theorem drafted_readable (held : Held rotated current) (draft : Draft rotated current next) :
    Readable (current ++ next) :=
  fun request => let ⟨_,_,_,_,_,_,_,_,joined⟩ := drafted_holds held draft request; ⟨_,joined⟩

theorem drafted_held (held : Held rotated current) (draft : Draft rotated current next)
    (complete : Complete rotated current next) : Held current next := by
  intro request
  obtain ⟨h,c,k,whole,inside,written,carried,grows,joined⟩ := drafted_holds held draft request
  refine ⟨_,k,joined,written,?_⟩
  cases k with
  | some k => exact .same _
  | none =>
    rw [Option.none_or]
    cases c with
    | none => exact .same _
    | some c =>
      cases carried with
      | same =>
        cases c with
        | reserved p => exact absurd written (complete request p whole)
        | settled p t => exact .dropped p t

end AgentSideCar.Audit
