import AgentSideCar.Library.Program
import AgentSideCar.Send.AcpProtocol

namespace AgentSideCar.Acp
open Loads (Value Text str)
open Wrapper (get)
open Send (Snag Foreign AcpPhase PromptWriteBoundary)
open Attempt (bound_ok)
open Program (Triple)

section Spec
variable (d : Dialogue)

-- An update of the own session.
structure IsUpdate (e : Fields) : Prop where
  version : isText (str "2.0") (read e "jsonrpc") = true
  shape : callFine e = .ok ()
  noId : (get e "id").isSome = false
  update : ∃ update, updateOf d e = .ok update

-- The child asks for a permission, under an id of its own.
structure IsPermission (e : Fields) (id : RpcId) : Prop where
  version : isText (str "2.0") (read e "jsonrpc") = true
  shape : callFine e = .ok ()
  asks : rpcId (read e "id") = .ok id
  method : isText (str "session/request_permission") (read e "method") = true
  params : validatePermissionParams d.request.sessionId (read e "params") = .ok ()

-- The result of the call, and no error.
structure Responds (e : Fields) (n : Nat) : Prop where
  version : isText (str "2.0") (read e "jsonrpc") = true
  noMethod : (get e "method").isSome = false
  id : responseId e = .ok (.int n)
  result : (get e "result").isSome = true
  noError : (get e "error").isSome = false

def Event.asked : Event → Option RpcId
  | .sent (.cancelled id) _ => some id
  | _ => none

def asked (t : List Event) : List RpcId := t.filterMap Event.asked

def Complete (answer : Write) : Prop := answer = .boundary .complete

-- The exchanges that follow the protocol, `n` calls answered and one waiting or none. The child
-- is heard while a call waits, and after the last; what it asks is answered at once.
inductive Legal : List Event → Nat → Bool → Prop where
  | start : Legal [] 0 false
  | call (before : Legal t n false) (more : n < 5) : Legal (t ++ [.sent (.call (n + 1)) (.boundary .complete)]) n true
  | update (before : Legal t n waits) (listens : waits = true ∨ n = 5) (update : IsUpdate d e) : Legal (t ++ [.heard e]) n waits
  | permission {id : RpcId} (before : Legal t n waits) (listens : waits = true ∨ n = 5) (permission : IsPermission d e id) (fresh : id ∉ asked t) :
      Legal (t ++ [.heard e,.sent (.cancelled id) (.boundary .complete)]) n waits
  | answer (before : Legal t n true) (responds : Responds e (n + 1)) (accepted : accepts d (n + 1) e = .ok ()) :
      Legal (t ++ [.heard e]) (n + 1) false

-- What breaks it off: a call that does not get through, an envelope that is refused, or an
-- answer to one that does not get through or says that there is no such method.
inductive Breaks (n : Nat) : List Event → Prop where
  | nothing : Breaks n []
  | unsent (short : ¬ Complete answer) : Breaks n [.sent (.call (n + 1)) answer]
  | refused (e : Fields) : Breaks n [.heard e]
  | notFound (e : Fields) (id : RpcId) (answer : Write) : Breaks n [.heard e,.sent (.notFound id) answer]
  | unanswered (e : Fields) (id : RpcId) (short : ¬ Complete answer) : Breaks n [.heard e,.sent (.cancelled id) answer]

def Event.part : Event → Option Text
  | .heard e => ((updateOf d e).bind chunkText).toOption.bind fun part => part
  | .sent _ _ => none

def parts (t : List Event) : List Text := t.filterMap (Event.part d)

-- The stop reason in the answer to the prompt.
def Event.stop : Event → Option Value
  | .heard e => if (responseId e).toOption = some (.int 5) then (promptResult e).toOption else none
  | .sent _ _ => none

def stops (t : List Event) : List Value := t.filterMap Event.stop

def encodedLength (t : Text) : Nat := (Utf8.encode t).elim 0 List.length

-- The response is the chunks that were heard, and no longer than it may be; the turn is the
-- own one when there is a chunk or a stop reason.
structure Accounts (n : Nat) (waits : Bool) (t : List Event) (s : Link) : Prop where
  legal : Legal d t n waits
  parts : s.responseParts = parts d t
  encodes : ∀ part ∈ s.responseParts, (Utf8.encode part).isSome = true
  bytes : s.responseBytes = (s.responseParts.map encodedLength).sum
  within : s.responseBytes ≤ assistantBytes
  stop : s.stopReason = (stops t).getLast?
  own : s.ownTurnStarted = (!s.responseParts.isEmpty || s.stopReason.isSome)
  phase : s.phase = phaseAt n

def Asks (t : List Event) (s : Link) : Prop := ∀ id, id ∈ s.reverseIds ↔ id ∈ asked t

structure Follows (n : Nat) (waits : Bool) (s : Link) : Prop where
  accounts : Accounts d n waits s.transcript s
  asks : Asks s.transcript s

-- An envelope was read and is not dealt with.
structure Hears (n : Nat) (waits : Bool) (t : List Event) (e : Fields) (s : Link) : Prop where
  transcript : s.transcript = t ++ [.heard e]
  accounts : Accounts d n waits t s
  asks : Asks t s

def Broke (n : Nat) (waits : Bool) (s : Link) : Prop := ∃ t tail, s.transcript = t ++ tail ∧ Accounts d n waits t s ∧ Breaks n tail

end Spec

section Steps
variable {d : Dialogue} {n : Nat} {waits : Bool} {t : List Event} {e : Fields} {s : Link} {id : RpcId}

theorem demand_ok {holds : Bool} : demand holds = .ok () ↔ holds = true := by
  cases holds with
  | true => exact ⟨fun _ => rfl,fun _ => rfl⟩
  | false => exact ⟨nofun,nofun⟩

theorem hears_broke (hears : Hears d n waits t e s) : Broke d n waits s := ⟨t,_,hears.transcript,hears.accounts,.refused e⟩

theorem follows_broke (follows : Follows d n waits s) : Broke d n waits s :=
  ⟨s.transcript,[],(List.append_nil _).symm,follows.accounts,.nothing⟩

-- What write does: the frame does not fit, or it is written, and the answer is what comes.
theorem write_cases (frame : Frame) (s : Link) :
    (∃ boundary, write d frame s = (.ok boundary,s.sent frame (.boundary boundary))) ∨
    (∃ snag, write d frame s = (.error snag,s)) ∨
    ∃ snag answer, ¬ Complete answer ∧ write d frame s = (.error snag,s.sent frame answer) := by
  cases encoded : encodeFrame d frame with
  | error snag =>
    refine .inr (.inl ⟨snag,?_⟩)
    change Program.bind (Program.settle (encodeFrame d frame)) _ s = _
    rw [Program.bind,Program.settle,encoded]
  | ok payload =>
    have ran : write d frame s = (boundaryOf (s.writes.headD (.boundary .none)),s.sent frame (s.writes.headD (.boundary .none))) := by
      change Program.bind (Program.settle (encodeFrame d frame)) _ s = _
      rw [Program.bind,Program.settle,encoded]
      rfl
    rw [ran]
    cases s.writes.headD (.boundary .none) with
    | boundary boundary => exact .inl ⟨boundary,rfl⟩
    | runtimeError => exact .inr (.inr ⟨protocolError,.runtimeError,nofun,rfl⟩)
    | raised snag => exact .inr (.inr ⟨snag,.raised snag,nofun,rfl⟩)

theorem write_triple {frame : Frame} {before : Link → Prop} {after : PromptWriteBoundary → Link → Prop} {spoilt : Link → Prop}
    (sent : ∀ s, before s → ∀ boundary, after boundary (s.sent frame (.boundary boundary)))
    (unsent : ∀ s, before s → spoilt s)
    (short : ∀ s, before s → ∀ answer, ¬ Complete answer → spoilt (s.sent frame answer)) :
    Triple before (write d frame) after (fun _ => spoilt) := by
  intro s holds
  rcases write_cases (d := d) frame s with ⟨boundary,ran⟩ | ⟨snag,ran⟩ | ⟨snag,answer,incomplete,ran⟩
  · rw [ran]
    exact sent s holds boundary
  · rw [ran]
    exact unsent s holds
  · rw [ran]
    exact short s holds answer incomplete

theorem part_update (update' : updateOf d e = .ok update) (chunk : chunkText update = .ok part) : Event.part d (.heard e) = part := by
  rw [Event.part,update']
  change (chunkText update).toOption.bind (fun part => part) = part
  rw [chunk]
  rfl

theorem part_other (other : isText (str "session/update") (read e "method") = false) : Event.part d (.heard e) = none := by
  have refused : updateOf d e = refuse := by
    rw [updateOf,other]
    rfl
  rw [Event.part,refused]
  rfl

theorem part_response (silent : (get e "method").isSome = false) : Event.part d (.heard e) = none := by
  apply part_other
  rw [read]
  cases found : get e "method" with
  | none => rfl
  | some v =>
    rw [found] at silent
    cases silent

theorem part_permission (method : isText (str "session/request_permission") (read e "method") = true) : Event.part d (.heard e) = none := by
  apply part_other
  cases found : read e "method" with
  | text t =>
    rw [found] at method
    have same : t = str "session/request_permission" := of_decide_eq_true method
    rw [same]
    rfl
  | _ => rfl

theorem parts_heard (before : List Event) (e : Fields) : parts d (before ++ [.heard e]) = parts d before ++ (Event.part d (.heard e)).toList := by
  rw [parts,List.filterMap_append]
  cases found : Event.part d (.heard e) with
  | none => simp [parts,found]
  | some part => simp [parts,found]

theorem parts_sent (before : List Event) (frame : Frame) (answer : Write) : parts d (before ++ [.sent frame answer]) = parts d before := by
  rw [parts,List.filterMap_append]
  exact List.append_nil _

theorem asked_heard (before : List Event) (e : Fields) : asked (before ++ [.heard e]) = asked before := by
  rw [asked,List.filterMap_append]
  exact List.append_nil _

theorem asked_call (before : List Event) (id : Nat) (answer : Write) : asked (before ++ [.sent (.call id) answer]) = asked before := by
  rw [asked,List.filterMap_append]
  exact List.append_nil _

theorem asked_cancelled (before : List Event) (id : RpcId) (answer : Write) :
    asked (before ++ [.sent (.cancelled id) answer]) = asked before ++ [id] := by
  rw [asked,List.filterMap_append]
  rfl

theorem stops_heard (before : List Event) (e : Fields) : stops (before ++ [.heard e]) = stops before ++ (Event.stop (.heard e)).toList := by
  rw [stops,List.filterMap_append]
  cases found : Event.stop (.heard e) with
  | none => simp [stops,found]
  | some reason => simp [stops,found]

theorem stops_sent (before : List Event) (frame : Frame) (answer : Write) : stops (before ++ [.sent frame answer]) = stops before := by
  rw [stops,List.filterMap_append]
  exact List.append_nil _

theorem stop_other (other : (responseId e).toOption ≠ some (.int 5)) : Event.stop (.heard e) = none := if_neg other

theorem stop_call (method : (get e "method").isSome = true) : Event.stop (.heard e) = none := by
  apply stop_other
  have refused : responseId e = refuse := by
    have extra : keysAmong e ["jsonrpc","id","result","error"] = false := by
      obtain ⟨v,found⟩ := Option.isSome_iff_exists.mp method
      obtain ⟨field,there,_⟩ := Option.map_eq_some_iff.mp found
      have key : field.1 = str "method" := by simpa using List.find?_some there
      apply List.all_eq_false.mpr
      refine ⟨field,List.mem_of_find?_eq_some there,?_⟩
      rw [key]
      decide
    rw [responseId,extra,Bool.and_false]
    rfl
  rw [refused]
  exact nofun

theorem callFine_method (shape : callFine e = .ok ()) : (get e "method").isSome = true := by
  obtain ⟨_,_,later⟩ := bound_ok shape
  obtain ⟨_,_,method⟩ := bound_ok later
  have method := demand_ok.mp method
  cases found : get e "method" with
  | some v => rfl
  | none =>
    rw [read,found] at method
    cases method

-- A step that the response, the stop reason and the turn do not change by.
structure Keeps (s s' : Link) : Prop where
  parts : s'.responseParts = s.responseParts
  bytes : s'.responseBytes = s.responseBytes
  stop : s'.stopReason = s.stopReason
  own : s'.ownTurnStarted = s.ownTurnStarted

theorem Accounts.silent {s' : Link} (accounts : Accounts d n waits t s) (legal : Legal d t' m awaits) (same : Acp.parts d t' = Acp.parts d t)
    (unstopped : stops t' = stops t) (keeps : Keeps s s') (phase : s'.phase = phaseAt m) : Accounts d m awaits t' s' where
  legal := legal
  parts := by rw [keeps.parts,accounts.parts,same]
  encodes := by rw [keeps.parts]; exact accounts.encodes
  bytes := by rw [keeps.bytes,accounts.bytes,keeps.parts]
  within := by rw [keeps.bytes]; exact accounts.within
  stop := by rw [keeps.stop,accounts.stop,unstopped]
  own := by rw [keeps.own,accounts.own,keeps.parts,keeps.stop]
  phase := phase

theorem Accounts.same {s' : Link} (accounts : Accounts d n waits t s) (keeps : Keeps s s') (phase : s'.phase = s.phase) : Accounts d n waits t s' :=
  accounts.silent accounts.legal rfl rfl keeps (phase.trans accounts.phase)

theorem Hears.followed (hears : Hears d n waits t e s) (legal : Legal d (t ++ [.heard e]) n waits) (silent : Event.part d (.heard e) = none)
    (unstopped : Event.stop (.heard e) = none) : Follows d n waits s := by
  refine ⟨?_,?_⟩
  · rw [hears.transcript]
    refine hears.accounts.silent legal ?_ ?_ ⟨rfl,rfl,rfl,rfl⟩ hears.accounts.phase
    · rw [parts_heard,silent]
      exact List.append_nil _
    · rw [stops_heard,unstopped]
      exact List.append_nil _
  · rw [hears.transcript]
    intro id
    rw [asked_heard]
    exact hears.asks id

theorem acceptPart_follows (legal : Legal d (t ++ [.heard e]) n waits) (chunk : Event.part d (.heard e) = some part)
    (unstopped : Event.stop (.heard e) = none) :
    Triple (Hears d n waits t e) (acceptPart part) (fun _ => Follows d n waits) (fun _ => Broke d n waits) := by
  unfold acceptPart
  split
  · exact .raise fun s hears => hears_broke hears
  · rename_i encoded utf8
    apply Triple.through (fun s s' => s = s' ∧ Hears d n waits t e s')
    · exact .read fun s hears => ⟨rfl,hears⟩
    · intro s
      split
      · exact .raise fun s' hears => hears_broke hears.2
      · rename_i fits
        apply Triple.change
        intro s' hears
        obtain ⟨rfl,hears⟩ := hears
        have accounts := hears.accounts
        have sum : ((s.responseParts ++ [part]).map encodedLength).sum = s.responseBytes + encoded.length := by
          rw [List.map_append,List.sum_append,← accounts.bytes]
          simp [encodedLength,utf8]
        refine ⟨?_,?_⟩
        · change Accounts d n waits s.transcript _
          rw [hears.transcript]
          refine ⟨legal,?_,?_,sum.symm,Nat.le_of_not_lt fits,?_,?_,accounts.phase⟩
          · rw [parts_heard,chunk,← accounts.parts]
            rfl
          · intro own inside
            rcases List.mem_append.mp inside with before | last
            · exact accounts.encodes own before
            · rw [List.mem_singleton.mp last,utf8]
              rfl
          · rw [stops_heard,unstopped]
            exact accounts.stop.trans (by simp)
          · simp [Link.accept]
        · change Asks s.transcript _
          rw [hears.transcript]
          intro id
          rw [asked_heard]
          exact hears.asks id

theorem notification_follows (listens : waits = true ∨ n = 5) (version : isText (str "2.0") (read e "jsonrpc") = true)
    (shape : callFine e = .ok ()) (noId : (get e "id").isSome = false) :
    Triple (Hears d n waits t e) (notification d e) (fun _ => Follows d n waits) (fun _ => Broke d n waits) := by
  unfold notification
  apply Triple.bind (Triple.known fun s hears => hears_broke hears)
  intro update
  apply Triple.given
  intro found
  apply Triple.bind (Triple.known fun s hears => hears_broke hears)
  intro part
  apply Triple.given
  intro chunk
  have heard : ∀ s, Hears d n waits t e s → Legal d (t ++ [.heard e]) n waits := fun s hears =>
    .update hears.accounts.legal listens ⟨version,shape,noId,update,found⟩
  cases part with
  | none => exact .pure fun s hears => hears.followed (heard s hears) (part_update found chunk) (stop_call (callFine_method shape))
  | some part =>
    intro s hears
    exact acceptPart_follows (heard s hears) (part_update found chunk) (stop_call (callFine_method shape)) s hears

-- The id of a request of the child is taken down before it is answered.
structure Owes (d : Dialogue) (n : Nat) (waits : Bool) (t : List Event) (e : Fields) (id : RpcId) (s : Link) : Prop where
  transcript : s.transcript = t ++ [.heard e]
  accounts : Accounts d n waits t s
  asks : ∀ i, i ∈ s.reverseIds ↔ i = id ∨ i ∈ asked t
  fresh : id ∉ asked t

theorem owes_broke (owes : Owes d n waits t e id s) : Broke d n waits s := ⟨t,_,owes.transcript,owes.accounts,.refused e⟩

theorem Accounts.sent (accounts : Accounts d n waits t s) (frame : Frame) (answer : Write) : Accounts d n waits t (s.sent frame answer) :=
  accounts.same ⟨rfl,rfl,rfl,rfl⟩ rfl

theorem owes_sent (owes : Owes d n waits t e id s) (answer : Write) (breaks : Breaks n [.heard e,.sent frame answer]) :
    Broke d n waits (s.sent frame answer) := by
  refine ⟨t,_,?_,owes.accounts.sent frame answer,breaks⟩
  change s.transcript ++ [.sent frame answer] = _
  rw [owes.transcript,List.append_assoc]
  rfl

theorem reverseRequest_follows (listens : waits = true ∨ n = 5) (version : isText (str "2.0") (read e "jsonrpc") = true)
    (shape : callFine e = .ok ()) :
    Triple (Hears d n waits t e) (reverseRequest d e) (fun _ => Follows d n waits) (fun _ => Broke d n waits) := by
  unfold reverseRequest
  apply Triple.bind (Triple.known fun s hears => hears_broke hears)
  intro id
  apply Triple.given
  intro asks
  apply Triple.through (fun s s' => s = s' ∧ Hears d n waits t e s')
  · exact .read fun s hears => ⟨rfl,hears⟩
  intro s
  apply Triple.bind (Triple.known fun s' hears => hears_broke hears.2)
  intro _
  apply Triple.given
  intro fresh
  have fresh : id ∉ s.reverseIds := by simpa using demand_ok.mp fresh
  apply Triple.through (fun _ => Owes d n waits t e id)
  · apply Triple.change
    intro s' hears
    obtain ⟨rfl,hears⟩ := hears
    refine ⟨hears.transcript,hears.accounts.same ⟨rfl,rfl,rfl,rfl⟩ rfl,?_,?_⟩
    · intro i
      rw [← hears.asks i]
      exact List.mem_cons
    · rw [← hears.asks id]
      exact fresh
  intro _
  split
  · rename_i method
    apply Triple.bind (Triple.known fun s owes => owes_broke owes)
    intro _
    apply Triple.given
    intro params
    apply Triple.through (fun boundary s' => ∃ s, Owes d n waits t e id s ∧ s' = s.sent (.cancelled id) (.boundary boundary))
    · apply write_triple
      · exact fun s owes boundary => ⟨s,owes,rfl⟩
      · exact fun s owes => owes_broke owes
      · exact fun s owes answer short => owes_sent owes answer (.unanswered e id short)
    intro boundary
    apply Triple.settle
    · intro _ same s' answered
      obtain ⟨s,owes,rfl⟩ := answered
      have complete : boundary = .complete := by simpa using demand_ok.mp same
      have said : s.transcript ++ [.sent (.cancelled id) (.boundary boundary)] =
          t ++ [.heard e,.sent (.cancelled id) (.boundary .complete)] := by
        rw [owes.transcript,List.append_assoc,complete]
        rfl
      refine ⟨?_,?_⟩
      · change Accounts d n waits (s.transcript ++ _) _
        rw [said]
        have legal := Legal.permission owes.accounts.legal listens ⟨version,shape,asks,method,params⟩ owes.fresh
        refine owes.accounts.silent legal ?_ ?_ ⟨rfl,rfl,rfl,rfl⟩ owes.accounts.phase
        · rw [List.append_cons,parts_sent,parts_heard,part_permission method]
          exact List.append_nil _
        · rw [List.append_cons,stops_sent,stops_heard,stop_call (callFine_method shape)]
          exact List.append_nil _
      · change Asks (s.transcript ++ _) _
        rw [said]
        intro i
        rw [List.append_cons,asked_cancelled,asked_heard,List.mem_append,List.mem_singleton]
        exact (owes.asks i).trans Or.comm
    · intro _ same s' answered
      obtain ⟨s,owes,rfl⟩ := answered
      apply owes_sent owes
      apply Breaks.unanswered
      intro complete
      have equal : boundary = .complete := Write.boundary.inj complete
      rw [equal] at same
      cases same
  · apply Triple.through (fun _ => Broke d n waits)
    · apply write_triple
      · exact fun s owes boundary => owes_sent owes _ (.notFound e id _)
      · exact fun s owes => owes_broke owes
      · exact fun s owes answer _ => owes_sent owes answer (.notFound e id answer)
    · exact fun _ => .raise fun s broke => broke

-- The response is there, and what the driver makes of it is still open.
structure Answered (d : Dialogue) (n : Nat) (waits : Bool) (t : List Event) (e : Fields) (expectedId : Option Nat) (s : Link) : Prop where
  hears : Hears d n waits t e s
  responds : ∃ m, expectedId = some m ∧ Responds e m

theorem respond_answers (version : isText (str "2.0") (read e "jsonrpc") = true) (noMethod : (get e "method").isSome = false)
    (expectedId : Option Nat) :
    Triple (Hears d n waits t e) (respond e expectedId) (fun response s => response = e ∧ Answered d n waits t e expectedId s)
      (fun _ => Broke d n waits) := by
  unfold respond
  apply Triple.bind (Triple.known fun s hears => hears_broke hears)
  intro id
  apply Triple.given
  intro own
  apply Triple.through (fun s s' => s = s' ∧ Hears d n waits t e s')
  · exact .read fun s hears => ⟨rfl,hears⟩
  intro s
  apply Triple.bind (Triple.known fun s' hears => hears_broke hears.2)
  intro _
  apply Triple.given
  intro _
  apply Triple.bind (Triple.known fun s' hears => hears_broke hears.2)
  intro _
  apply Triple.given
  intro expected
  apply Triple.bind (Triple.known fun s' hears => hears_broke hears.2)
  intro _
  apply Triple.given
  intro either
  apply Triple.through (fun _ => Hears d n waits t e)
  · apply Triple.change
    intro s' hears
    obtain ⟨rfl,hears⟩ := hears
    exact ⟨hears.transcript,hears.accounts.same ⟨rfl,rfl,rfl,rfl⟩ rfl,hears.asks⟩
  intro _
  apply Triple.bind (Triple.known fun s hears => hears_broke hears)
  intro _
  apply Triple.given
  intro noError
  apply Triple.pure
  intro s hears
  refine ⟨rfl,hears,?_⟩
  have expected := demand_ok.mp expected
  -- A response that carries an error has raised by now.
  have clean : (get e "error").isSome = false := by
    cases error : (get e "error").isSome with
    | false => rfl
    | true =>
      exfalso
      rw [responseError,if_pos error] at noError
      obtain ⟨_,_,later⟩ := bound_ok noError
      split at later <;> cases later
  cases expectedId with
  | none => cases expected
  | some m =>
    have same : id = .int m := of_decide_eq_true expected
    have either := demand_ok.mp either
    rw [clean] at either
    exact ⟨m,rfl,version,noMethod,same ▸ own,by simpa using either,clean⟩

theorem consume_follows (listens : waits = true ∨ n = 5) (expectedId : Option Nat) :
    Triple (Hears d n waits t e) (consume d e expectedId)
      (fun response s => (response = none ∧ Follows d n waits s) ∨ (response = some e ∧ Answered d n waits t e expectedId s))
      (fun _ => Broke d n waits) := by
  unfold consume
  apply Triple.bind (Triple.known fun s hears => hears_broke hears)
  intro _
  apply Triple.given
  intro version
  have version := demand_ok.mp version
  split
  · apply Triple.bind (Triple.known fun s hears => hears_broke hears)
    intro _
    apply Triple.given
    intro shape
    split
    · apply Triple.bind (reverseRequest_follows listens version shape)
      exact fun _ => .pure fun s follows => .inl ⟨rfl,follows⟩
    · rename_i noId
      apply Triple.bind (notification_follows listens version shape (by simpa using noId))
      exact fun _ => .pure fun s follows => .inl ⟨rfl,follows⟩
  · rename_i noMethod
    apply Triple.bind (respond_answers version (by simpa using noMethod) expectedId)
    intro response
    apply Triple.pure
    intro s answered
    obtain ⟨rfl,answered⟩ := answered
    exact .inr ⟨rfl,answered⟩

theorem readEnvelope_hears (line : Read) :
    Triple (fun s => s.transcript = t ∧ Follows d n waits s) (readEnvelope d line) (fun e => Hears d n waits t e) (fun _ => Broke d n waits) := by
  unfold readEnvelope
  apply Triple.bind (Triple.known fun s follows => follows_broke follows.2)
  intro e
  apply Triple.given
  intro _
  apply Triple.through (fun _ => Hears d n waits t e)
  · apply Triple.change
    intro s follows
    obtain ⟨rfl,follows⟩ := follows
    exact ⟨rfl,follows.accounts.same ⟨rfl,rfl,rfl,rfl⟩ rfl,follows.asks⟩
  · exact fun _ => .pure fun s hears => hears

theorem awaitResponse_answers (reads : List Read) :
    Triple (Follows d n true) (awaitResponse d (n + 1) reads) (fun r s => ∃ t, Answered d n true t r.1 (some (n + 1)) s)
      (fun _ => Broke d n true) := by
  induction reads with
  | nil => exact .raise fun s follows => follows_broke follows
  | cons line rest ih =>
    apply Triple.named Link.transcript
    intro t
    apply Triple.bind (readEnvelope_hears line)
    intro e
    apply Triple.bind (consume_follows (.inl rfl) (some (n + 1)))
    intro response
    cases response with
    | none =>
      apply ih.weaken
      · intro s answered
        rcases answered with ⟨_,follows⟩ | ⟨none',_⟩
        · exact follows
        · cases none'
      · exact fun _ _ after => after
      · exact fun _ _ broke => broke
    | some response =>
      apply Triple.pure
      intro s answered
      rcases answered with ⟨none',_⟩ | ⟨same,answered⟩
      · cases none'
      · cases same
        exact ⟨t,answered⟩

-- A call was made, or tried; the protocol is broken off before it or while it waits.
def Broken (d : Dialogue) (n : Nat) (s : Link) : Prop := ∃ waits, Broke d n waits s

theorem Follows.same {s' : Link} (follows : Follows d n waits s) (transcript : s'.transcript = s.transcript) (keeps : Keeps s s')
    (phase : s'.phase = s.phase) (asks : s'.reverseIds = s.reverseIds) : Follows d n waits s' := by
  refine ⟨?_,?_⟩
  · rw [transcript]
    exact follows.accounts.same keeps phase
  · rw [transcript]
    intro id
    rw [asks]
    exact follows.asks id

theorem Follows.called (follows : Follows d n false s) (more : n < 5) : Follows d n true (s.sent (.call (n + 1)) (.boundary .complete)) := by
  refine ⟨?_,?_⟩
  · refine follows.accounts.silent (.call follows.accounts.legal more) ?_ ?_ ⟨rfl,rfl,rfl,rfl⟩ follows.accounts.phase
    · exact parts_sent _ _ _
    · exact stops_sent _ _ _
  · intro id
    change id ∈ s.reverseIds ↔ id ∈ asked (s.transcript ++ [.sent (.call (n + 1)) (.boundary .complete)])
    rw [asked_call]
    exact follows.asks id

theorem unsent_broken (follows : Follows d n false s) (short : ¬ Complete answer) : Broken d n (s.sent (.call (n + 1)) answer) :=
  ⟨false,s.transcript,_,rfl,follows.accounts.same ⟨rfl,rfl,rfl,rfl⟩ rfl,.unsent short⟩

theorem Broke.same {s' : Link} (broke : Broke d n waits s) (transcript : s'.transcript = s.transcript) (keeps : Keeps s s')
    (phase : s'.phase = s.phase) : Broke d n waits s' := by
  obtain ⟨t,tail,cut,accounts,breaks⟩ := broke
  exact ⟨t,tail,transcript.trans cut,accounts.same keeps phase,breaks⟩

theorem requestRpc_answers (more : n < 5) (reads : List Read) :
    Triple (Follows d n false) (requestRpc d (n + 1) reads) (fun r s => ∃ t, Answered d n true t r.1 (some (n + 1)) s)
      (fun _ => Broken d n) := by
  unfold requestRpc
  apply Triple.through (fun _ => Follows d n false)
  · exact .read fun s follows => follows
  intro _
  apply Triple.bind (Triple.known fun s follows => ⟨false,follows_broke follows⟩)
  intro _
  apply Triple.given
  intro _
  apply Triple.through (fun _ => Follows d n false)
  · exact .change fun s follows => follows.same rfl ⟨rfl,rfl,rfl,rfl⟩ rfl rfl
  intro _
  apply Triple.through (fun boundary s' => ∃ s, Follows d n false s ∧ s' = s.sent (.call (n + 1)) (.boundary boundary))
  · apply write_triple
    · exact fun s follows boundary => ⟨s,follows,rfl⟩
    · exact fun s follows => ⟨false,follows_broke follows⟩
    · exact fun s follows answer short => unsent_broken follows short
  intro boundary
  have discarded : boundary ≠ .complete → ∀ (s' : Link), (∃ s, Follows d n false s ∧ s' = s.sent (.call (n + 1)) (.boundary boundary)) →
      Broken d n (s'.discard (.int (n + 1))) := by
    intro short s' written
    obtain ⟨s,follows,rfl⟩ := written
    obtain ⟨waits,broke⟩ := unsent_broken follows fun complete => short (Write.boundary.inj complete)
    exact ⟨waits,broke.same rfl ⟨rfl,rfl,rfl,rfl⟩ rfl⟩
  cases boundary with
  | complete =>
    apply (awaitResponse_answers reads).weaken
    · intro s' written
      obtain ⟨s,follows,rfl⟩ := written
      exact follows.called more
    · exact fun _ _ after => after
    · exact fun _ _ broke => ⟨true,broke⟩
  | none =>
    apply Triple.through (fun _ => Broken d n)
    · exact .change (discarded nofun)
    · exact fun _ => .raise fun s broken => broken
  | partially =>
    apply Triple.through (fun _ => Broken d n)
    · exact .change (discarded nofun)
    · exact fun _ => .raise fun s broken => broken

theorem answered_broke (answered : Answered d n true t e (some (n + 1)) s) : Broken d n s := ⟨true,hears_broke answered.hears⟩

theorem Answered.responds' (answered : Answered d n waits t e (some m) s) : Responds e m := by
  obtain ⟨k,same,responds⟩ := answered.responds
  cases same
  exact responds

theorem rpcStep_follows (more : n < 4) (reads : List Read) :
    Triple (Follows d n false) (rpcStep d (n + 1) reads) (fun _ => Follows d (n + 1) false) (fun _ => Broken d n) := by
  unfold rpcStep
  apply Triple.bind (requestRpc_answers (Nat.lt_succ_of_lt more) reads)
  intro r
  obtain ⟨e,rest⟩ := r
  apply Triple.bind (Triple.known fun s found => found.elim fun t answered => answered_broke answered)
  intro _
  apply Triple.given
  intro accepted
  apply Triple.through (fun _ => Follows d (n + 1) false)
  · apply Triple.change
    intro s found
    obtain ⟨t,answered⟩ := found
    have hears := answered.hears
    have responds := answered.responds'
    have legal : Legal d (t ++ [.heard e]) (n + 1) false := .answer hears.accounts.legal responds accepted
    have unstopped : Event.stop (.heard e) = none := by
      apply stop_other
      rw [responds.id]
      intro same
      cases same
      omega
    refine ⟨?_,?_⟩
    · change Accounts d (n + 1) false s.transcript _
      rw [hears.transcript]
      refine hears.accounts.silent legal ?_ ?_ ⟨rfl,rfl,rfl,rfl⟩ rfl
      · rw [parts_heard,part_response responds.noMethod]
        exact List.append_nil _
      · rw [stops_heard,unstopped]
        exact List.append_nil _
    · change Asks s.transcript s
      rw [hears.transcript]
      intro id
      rw [asked_heard]
      exact hears.asks id
  · exact fun _ => .pure fun s follows => follows

theorem begin_follows : Follows d 0 false (begin d) :=
  ⟨⟨.start,rfl,nofun,rfl,Nat.zero_le _,rfl,rfl,rfl⟩,fun _ => Iff.rfl⟩

theorem setup_follows : Triple (Follows d 0 false) (setup d) (fun _ => Follows d 4 false) (fun _ s => ∃ n, n < 4 ∧ Broken d n s) := by
  have early : ∀ {n}, n < 4 → ∀ (snag : Snag) (s : Link), Broken d n s → ∃ n, n < 4 ∧ Broken d n s := fun less _ s broken => ⟨_,less,broken⟩
  have step : ∀ n, n < 4 → ∀ reads, Triple (Follows d n false) (rpcStep d (n + 1) reads) (fun _ => Follows d (n + 1) false)
      (fun _ s => ∃ n, n < 4 ∧ Broken d n s) := fun n less reads =>
    (rpcStep_follows less reads).weaken (fun _ follows => follows) (fun _ _ follows => follows) (early less)
  unfold setup
  apply Triple.bind (Triple.known fun s follows => ⟨0,by decide,false,follows_broke follows⟩)
  intro _
  apply Triple.given
  intro _
  apply Triple.bind (step 0 (by decide) d.reads)
  intro reads
  apply Triple.bind (step 1 (by decide) reads)
  intro reads
  apply Triple.bind (step 2 (by decide) reads)
  intro reads
  exact step 3 (by decide) reads

theorem settlePrompt_follows (reads : List Read) :
    Triple (Follows d 4 false) (settlePrompt d reads) (fun _ => Follows d 5 false) (fun _ => Broke d 4 true) := by
  unfold settlePrompt
  apply Triple.through (fun _ => Follows d 4 false)
  · exact .change fun s follows => follows.same rfl ⟨rfl,rfl,rfl,rfl⟩ rfl rfl
  intro _
  apply Triple.through (fun _ => Follows d 4 true)
  · apply Triple.change
    intro s follows
    exact (follows.called (by decide)).same rfl ⟨rfl,rfl,rfl,rfl⟩ rfl rfl
  intro _
  apply Triple.bind (awaitResponse_answers reads)
  intro r
  obtain ⟨e,rest⟩ := r
  apply Triple.bind (Triple.known fun s found => found.elim fun t answered => hears_broke answered.hears)
  intro stopReason
  apply Triple.given
  intro result
  apply Triple.through (fun _ s' => ∃ s, (∃ t, Answered d 4 true t e (some 5) s) ∧ s' = s.settle stopReason)
  · exact .change fun s found => ⟨s,found,rfl⟩
  intro _
  apply Triple.through (fun _ => Follows d 5 false)
  · apply Triple.change
    intro s' found
    obtain ⟨s,⟨t,answered⟩,rfl⟩ := found
    have hears := answered.hears
    have responds := answered.responds'
    have accounts := hears.accounts
    have accepted : (promptResult e).map (fun _ => ()) = .ok () := by
      rw [result]
      rfl
    have legal : Legal d (t ++ [.heard e]) 5 false := .answer accounts.legal responds accepted
    have stopped : Event.stop (.heard e) = some stopReason := by
      rw [Event.stop,responds.id,result]
      rfl
    refine ⟨?_,?_⟩
    · change Accounts d 5 false s.transcript _
      rw [hears.transcript]
      refine ⟨legal,?_,accounts.encodes,accounts.bytes,accounts.within,?_,?_,rfl⟩
      · rw [parts_heard,part_response responds.noMethod,Option.toList_none,List.append_nil]
        exact accounts.parts
      · rw [stops_heard,stopped]
        simp [Link.enter,Link.settle]
      · simp [Link.enter,Link.settle]
    · change Asks s.transcript s
      rw [hears.transcript]
      intro id
      rw [asked_heard]
      exact hears.asks id
  · exact fun _ => .pure fun s follows => follows

theorem drainTrailing_follows (reads : List Read) :
    Triple (Follows d 5 false) (drainTrailing d reads) (fun _ => Follows d 5 false) (fun _ => Broke d 5 false) := by
  induction reads with
  | nil => exact .raise fun s follows => follows_broke follows
  | cons line rest ih =>
    have heard : Triple (Follows d 5 false) (readEnvelope d line >>= fun trailing => consume d trailing none >>= fun _ => drainTrailing d rest)
        (fun _ => Follows d 5 false) (fun _ => Broke d 5 false) := by
      apply Triple.named Link.transcript
      intro t
      apply Triple.bind (readEnvelope_hears line)
      intro e
      apply Triple.bind (consume_follows (.inr rfl) none)
      intro response
      apply ih.weaken
      · intro s answered
        rcases answered with ⟨_,follows⟩ | ⟨_,answered⟩
        · exact follows
        · obtain ⟨m,none',_⟩ := answered.responds
          cases none'
      · exact fun _ _ follows => follows
      · exact fun _ _ broke => broke
    cases line with
    | eof => exact .pure fun s follows => follows
    | line bytes => exact heard
    | raised snag => exact heard

end Steps
end AgentSideCar.Acp
