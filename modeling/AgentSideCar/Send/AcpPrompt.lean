import AgentSideCar.Send.AcpExchange
import AgentSideCar.Send.WriteLine

namespace AgentSideCar.Acp
open Loads (Value Text str)
open Wrapper (get)
open Dumps (Object)
open Send (Snag Foreign Effect KimiAcpResult pushLine runKimiAcp finishAcp)
open Attempt (bound_ok mapM_ok)

section Listing
variable {d : Dialogue} {n : Nat} {waits : Bool} {t : List Event} {e : Fields}

def ownRow (sessionId : Text) : Value → Bool
  | .dict row => isText sessionId (read row "sessionId")
  | _ => false

-- The sessions of a result: the own one is there once, in a project that the caller's validator knows.
def Listed (d : Dialogue) (e : Fields) : Prop :=
  ∃ result sessions row cwd, read e "result" = .dict result ∧ read result "sessions" = .list sessions ∧
    sessions.filter (ownRow d.request.sessionId) = [.dict row] ∧ read row "cwd" = .text cwd ∧ d.validateSessionCwd cwd = .ok true

theorem object_dict {v : Value} {required optional : List String} (made : object v required optional = .ok item) : v = .dict item := by
  obtain ⟨fields,mapped,later⟩ := bound_ok made
  obtain ⟨_,_,later⟩ := bound_ok later
  obtain ⟨_,_,later⟩ := bound_ok later
  obtain ⟨_,_,same⟩ := bound_ok later
  cases same
  cases v with
  | dict own =>
    cases mapped
    rfl
  | _ => cases mapped

theorem sessionRow_dict {v : Value} (made : sessionRow v = .ok item) : v = .dict item := by
  obtain ⟨fields,row,later⟩ := bound_ok made
  obtain ⟨_,_,later⟩ := bound_ok later
  obtain ⟨_,_,later⟩ := bound_ok later
  obtain ⟨_,_,later⟩ := bound_ok later
  obtain ⟨_,_,later⟩ := bound_ok later
  obtain ⟨_,_,same⟩ := bound_ok later
  cases same
  exact object_dict row

theorem rows_dict {sessions : List Value} {items : List Fields} (rows : List.Forall₂ (fun v item => sessionRow v = .ok item) sessions items) :
    sessions = items.map .dict := by
  induction rows with
  | nil => rfl
  | cons row _ ih => rw [sessionRow_dict row,ih,List.map_cons]

theorem cwdMatches_true {validate : Text → Except Foreign Bool} (matched : cwdMatches validate cwd = .ok ()) : validate cwd = .ok true := by
  unfold cwdMatches at matched
  split at matched
  · assumption
  · cases matched
  · split at matched <;> cases matched

theorem listResult_listed (accepted : listResult d.request.sessionId d.validateSessionCwd e = .ok ()) : Listed d e := by
  obtain ⟨result,own,later⟩ := bound_ok accepted
  obtain ⟨_,_,later⟩ := bound_ok later
  split at later
  · rename_i sessions listed
    obtain ⟨items,rows,later⟩ := bound_ok later
    have same := rows_dict (mapM_ok rows)
    split at later
    · cases later
    · rename_i row alone
      split at later
      · rename_i cwd there
        refine ⟨result,sessions,row,cwd,object_dict own,listed,?_,there,cwdMatches_true later⟩
        rw [same,List.filter_map]
        exact congrArg (List.map Value.dict) alone
      · cases later
    · cases later
  · cases later

theorem legal_listed (legal : Legal d t n waits) (past : 2 ≤ n) : ∃ e, .heard e ∈ t ∧ Responds e 2 ∧ Listed d e := by
  have kept : ∀ {early late : List Event}, (∃ e, .heard e ∈ early ∧ Responds e 2 ∧ Listed d e) →
      ∃ e, .heard e ∈ early ++ late ∧ Responds e 2 ∧ Listed d e := by
    intro early late found
    obtain ⟨e,there,listed⟩ := found
    exact ⟨e,List.mem_append_left _ there,listed⟩
  induction legal with
  | start => cases past
  | call _ _ ih => exact kept (ih past)
  | update _ _ _ ih => exact kept (ih past)
  | permission _ _ _ _ ih => exact kept (ih past)
  | @answer t n e _ responds accepted ih =>
    by_cases second : n = 1
    · subst second
      exact ⟨e,List.mem_append_right _ (List.mem_singleton_self _),responds,listResult_listed accepted⟩
    · exact kept (ih (by omega))

end Listing

section Crossing
variable {d : Dialogue} {frame : List UInt8} {hook : Send.Run Unit}

def Crosses : Effect → Prop
  | .prompt _ => True
  | _ => False

-- The bytes of the prompt that reach the child, write after write.
def prompted (trace : List Effect) : List (List UInt8) :=
  trace.filterMap fun e => match e with
    | .prompt bytes => some bytes
    | _ => none

theorem quiet_unprompted {α : Type} {t : Send.Run α} (quiet : t.Quiet Crosses) : prompted t.trace = [] := by
  apply List.filterMap_eq_nil_iff.mpr
  intro e inside
  cases e with
  | prompt bytes => exact absurd trivial (quiet _ inside)
  | released => rfl
  | terminal t => rfl

theorem prompted_append (early late : List Effect) : prompted (early ++ late) = prompted early ++ prompted late := List.filterMap_append

theorem finishAcp_crosses {x : Send.Exchange} {phase : Send.AcpPhase} {promptWrite : Send.PromptWriteBoundary} {stopReason : Option String}
    {snag : Option Snag} : (finishAcp x phase promptWrite stopReason snag).Quiet Crosses := by
  unfold finishAcp
  split <;> exact nofun

-- Not a byte of the prompt crosses before the session was listed and its mode set, and the hook
-- has returned, whether the exchange comes to a result or an exception escapes it.
theorem prompt_guarded (quiet : hook.Quiet Crosses) (crossed : .prompt bytes ∈ (runKimiAcp (exchange d frame hook) frame hook).trace) :
    hook.outcome = .ok () ∧ Legal d (afterSetup d).2.transcript 4 false ∧
    ∃ e, .heard e ∈ (afterSetup d).2.transcript ∧ Responds e 2 ∧ Listed d e := by
  unfold runKimiAcp at crossed
  cases ok : (afterSetup d).1 with
  | error snag =>
    have setup' : (exchange d frame hook).setup = ((afterSetup d).2.phase,some snag) := by
      rw [exchange,ok]
      rfl
    rw [setup'] at crossed
    exact absurd trivial (finishAcp_crosses _ crossed)
  | ok reads =>
    have setup' : (exchange d frame hook).setup = ((afterSetup d).2.phase,none) := by
      rw [exchange,ok]
      rfl
    rw [setup'] at crossed
    simp only [Traced.attempt] at crossed
    have legal := (afterSetup_follows ok).accounts.legal
    cases returned : hook.outcome with
    | error e =>
      rw [returned] at crossed
      simp only at crossed
      exfalso
      rcases List.mem_append.mp crossed with before | after
      · exact quiet _ before trivial
      · split at after
        · exact finishAcp_crosses _ after trivial
        · cases after
    | ok _ => exact ⟨rfl,legal,legal_listed legal (by decide)⟩

theorem demo_guarded : (Traced.done () : Send.Run Unit).outcome = .ok () ∧ Legal demo (afterSetup demo).2.transcript 4 false ∧
    ∃ e, .heard e ∈ (afterSetup demo).2.transcript ∧ Responds e 2 ∧ Listed demo e := by
  exact prompt_guarded .done demoRun_ran.2

end Crossing

section Line
variable {d : Dialogue} {frame : List UInt8} {hook : Send.Run Unit}

theorem pushLine_begins (payload : List UInt8) (polls : List Send.Poll) (written : Nat) :
    (pushLine payload written polls).crossed <+: (payload ++ [Send.newline]).drop written := by
  induction polls generalizing written with
  | nil => exact List.nil_prefix
  | cons poll rest ih =>
    unfold pushLine
    split
    · exact List.nil_prefix
    · rename_i unfinished
      have begins : ∀ count, (Send.segment payload written).take count <+: (payload ++ [Send.newline]).drop written := fun count =>
        (List.take_prefix _ _).trans (Send.WriteLine.segment_begins (by omega))
      cases poll with
      | expired => exact List.nil_prefix
      | idle => exact ih written
      | raised snag => exact List.nil_prefix
      | broken => exact List.nil_prefix
      | interrupted count => exact begins count
      | wrote count trouble =>
        simp only
        split
        · exact List.nil_prefix
        · cases trouble with
          | some snag => exact begins count
          | none =>
            obtain ⟨left,cut⟩ := begins count
            have remains : (payload ++ [Send.newline]).drop (written + ((Send.segment payload written).take count).length) = left := by
              rw [← List.drop_drop,← cut,List.drop_left]
            rw [← cut]
            apply (List.prefix_append_right_inj _).mpr
            rw [← remains]
            exact ih _

-- What the child reads when it reads a line: the object, its texts as they were.
def ReadsAs (payload : List UInt8) (fields : List (Text × Object Unit)) : Prop :=
  Send.newline ∉ payload ∧ ∃ values, Loads.parseBytes payload = some (.dict values) ∧ Dumps.entries (fun _ _ => ()) values = fields

def Scalars (t : Text) : Prop := ∀ c ∈ t, c < 1114112

structure Proper (d : Dialogue) : Prop where
  cwd : Scalars d.request.cwd
  sessionId : Scalars d.request.sessionId
  requestId : Scalars d.request.requestId
  message : Scalars d.request.message
  version : Scalars d.version

def RpcId.Proper : RpcId → Prop
  | .int _ => True
  | .text t => Scalars t

def Frame.Proper : Frame → Prop
  | .call _ => True
  | .cancelled id => id.Proper
  | .notFound id => id.Proper
  | .sessionCancel => True

theorem writer_exact : Dumps.Exact (writer d) (fun _ _ => ()) := by
  refine ⟨?_,nofun⟩
  intro n t written
  cases written
  exact Dumps.decimal_numeral n

theorem scalars_str (s : String) : Scalars (str s) := by
  intro c inside
  obtain ⟨char,_,rfl⟩ := List.mem_map.mp inside
  have valid : char.toNat < 55296 ∨ 57343 < char.toNat ∧ char.toNat < 1114112 := char.valid
  omega

-- An object that can be written and read back.
def Plain (o : Object Unit) : Prop := Dumps.Distinct o ∧ Dumps.Points o

theorem text_plain {t : Text} (scalars : Scalars t) : Plain (.text t) := ⟨.text t,Dumps.text_points scalars⟩

theorem int_plain (n : Int) : Plain (.int n) := ⟨.int n,Dumps.int_points n⟩

theorem list_plain {items : List (Object Unit)} (all : ∀ item ∈ items, Plain item) : Plain (.list items) :=
  ⟨.list fun item inside => (all item inside).1,Dumps.list_points fun item inside => (all item inside).2⟩

theorem dict_plain {fields : List (Text × Object Unit)} (unique : (fields.map Prod.fst).Nodup)
    (all : ∀ field ∈ fields, Scalars field.1 ∧ Plain field.2) : Plain (.dict fields) :=
  ⟨.dict unique fun field inside => (all field inside).2.1,
    Dumps.dict_points fun field inside => ⟨(all field inside).1,(all field inside).2.2⟩⟩

theorem id_plain {id : RpcId} (proper : id.Proper) : Plain id.object := by
  cases id with
  | int n => exact int_plain n
  | text t => exact text_plain proper

theorem said_plain (s : String) : Plain (.text (str s)) := text_plain (scalars_str s)

theorem field_plain (key : String) {o : Object Unit} (plain : Plain o) {rest : List (Text × Object Unit)}
    (later : ∀ field ∈ rest, Scalars field.1 ∧ Plain field.2) : ∀ field ∈ (str key,o) :: rest, Scalars field.1 ∧ Plain field.2 :=
  List.forall_mem_cons.mpr ⟨⟨scalars_str key,plain⟩,later⟩

theorem params_plain (proper : Proper d) (id : Nat) : Plain (.dict (params d id)) := by
  have session := text_plain proper.sessionId
  have cwd := text_plain proper.cwd
  unfold params
  split
  · have client : Plain (.dict [textField "name" (str "agent-sidecar"),textField "version" d.version]) := by
      refine dict_plain (show [str "name",str "version"].Nodup by decide) ?_
      exact field_plain _ (said_plain _) (field_plain _ (text_plain proper.version) (List.forall_mem_nil _))
    have none' : Plain (.dict []) := dict_plain List.nodup_nil (List.forall_mem_nil _)
    refine dict_plain (show [str "protocolVersion",str "clientCapabilities",str "clientInfo"].Nodup by decide) ?_
    exact field_plain _ (int_plain 1) (field_plain _ none' (field_plain _ client (List.forall_mem_nil _)))
  · exact dict_plain (List.nodup_singleton _) (field_plain _ cwd (List.forall_mem_nil _))
  · refine dict_plain (show [str "sessionId",str "cwd",str "mcpServers"].Nodup by decide) ?_
    have none' : Plain (.list []) := list_plain (List.forall_mem_nil _)
    exact field_plain _ session (field_plain _ cwd (field_plain _ none' (List.forall_mem_nil _)))
  · refine dict_plain (show [str "sessionId",str "modeId"].Nodup by decide) ?_
    exact field_plain _ session (field_plain _ (said_plain _) (List.forall_mem_nil _))
  · have block : Plain (.dict [textField "type" (str "text"),textField "text" d.request.message]) := by
      refine dict_plain (show [str "type",str "text"].Nodup by decide) ?_
      exact field_plain _ (said_plain _) (field_plain _ (text_plain proper.message) (List.forall_mem_nil _))
    have prompt := list_plain (List.forall_mem_singleton.mpr block)
    refine dict_plain (show [str "sessionId",str "messageId",str "prompt"].Nodup by decide) ?_
    exact field_plain _ session (field_plain _ (text_plain proper.requestId) (field_plain _ prompt (List.forall_mem_nil _)))

theorem frame_plain (proper : Proper d) {frame : Frame} (own : frame.Proper) : Plain (.dict (frameFields d frame)) := by
  have version := said_plain "2.0"
  cases frame with
  | call id =>
    refine dict_plain (show [str "jsonrpc",str "id",str "method",str "params"].Nodup by decide) ?_
    have params := field_plain "params" (params_plain proper id) (List.forall_mem_nil _)
    exact field_plain _ version (field_plain _ (int_plain id) (field_plain _ (said_plain _) params))
  | cancelled id =>
    have outcome : Plain (.dict [textField "outcome" (str "cancelled")]) :=
      dict_plain (List.nodup_singleton _) (field_plain _ (said_plain _) (List.forall_mem_nil _))
    have result : Plain (.dict [(str "outcome",.dict [textField "outcome" (str "cancelled")])]) :=
      dict_plain (List.nodup_singleton _) (field_plain _ outcome (List.forall_mem_nil _))
    refine dict_plain (show [str "jsonrpc",str "id",str "result"].Nodup by decide) ?_
    exact field_plain _ version (field_plain _ (id_plain own) (field_plain _ result (List.forall_mem_nil _)))
  | notFound id =>
    have error : Plain (.dict [(str "code",.int (-32601)),textField "message" (str "Method not found")]) := by
      refine dict_plain (show [str "code",str "message"].Nodup by decide) ?_
      exact field_plain _ (int_plain _) (field_plain _ (said_plain _) (List.forall_mem_nil _))
    refine dict_plain (show [str "jsonrpc",str "id",str "error"].Nodup by decide) ?_
    exact field_plain _ version (field_plain _ (id_plain own) (field_plain _ error (List.forall_mem_nil _)))
  | sessionCancel =>
    have params : Plain (.dict [textField "sessionId" d.request.sessionId]) :=
      dict_plain (List.nodup_singleton _) (field_plain _ (text_plain proper.sessionId) (List.forall_mem_nil _))
    refine dict_plain (show [str "jsonrpc",str "method",str "params"].Nodup by decide) ?_
    exact field_plain _ version (field_plain _ (said_plain _) (field_plain _ params (List.forall_mem_nil _)))

theorem encodeFrame_reads (proper : Proper d) {frame : Frame} (own : frame.Proper) (encoded : encodeFrame d frame = .ok payload) :
    payload.length ≤ lineBytes ∧ ReadsAs payload (frameFields d frame) := by
  unfold encodeFrame at encoded
  split at encoded
  · cases encoded
  · rename_i row written
    obtain ⟨text,dumped,utf8⟩ := Option.bind_eq_some_iff.mp written
    split at encoded
    · cases encoded
    · rename_i fits
      cases encoded
      obtain ⟨_,fits⟩ := not_or.mp fits
      obtain ⟨distinct,points⟩ := frame_plain proper own
      exact ⟨Nat.le_of_not_lt (not_or.mp fits).1,Dumps.dict_line writer_exact distinct points dumped utf8⟩

theorem writeBoundary_complete {written total : Nat} (complete : Send.writeBoundary written total = .complete) : total ≤ written := by
  unfold Send.writeBoundary at complete
  split at complete
  · cases complete
  · split at complete
    · assumption
    · cases complete

-- Unless an interrupt has struck, a boundary that says so means that the whole line has crossed.
theorem pushLine_whole {polls : List Send.Poll} (complete : Send.writeBoundary (pushLine frame 0 polls).written (frame.length + 1) = .complete)
    (calm : (pushLine frame 0 polls).raised ≠ some (.escape .keyboardInterrupt)) : (pushLine frame 0 polls).crossed = frame ++ [Send.newline] := by
  have begins : (pushLine frame 0 polls).crossed <+: frame ++ [Send.newline] := pushLine_begins frame polls 0
  have total := writeBoundary_complete complete
  rcases Send.pushLine_counts frame polls 0 with counts | interrupt
  · apply begins.eq_of_length_le
    rw [List.length_append,List.length_singleton]
    omega
  · exact absurd interrupt calm

theorem readResponse_crosses {x : Send.Exchange} : (Send.readResponse x).Quiet Crosses := by
  unfold Send.readResponse
  split <;> exact finishAcp_crosses

theorem crossing_prompted {bytes : List UInt8} (some' : bytes ≠ []) {rest : Unit → Send.Run KimiAcpResult} (quiet : (rest ()).Quiet Crosses) :
    prompted ((Send.crossing bytes).bind rest).trace = [bytes] := by
  rw [Send.crossing,if_neg some']
  change prompted ([.prompt bytes] ++ (rest ()).trace) = _
  rw [prompted_append,quiet_unprompted quiet]
  rfl

theorem writePrompt_whole {x : Send.Exchange} (ended : (Send.writePrompt x frame).outcome = .ok result) (complete : result.promptWrite = .complete) :
    prompted (Send.writePrompt x frame).trace = [frame ++ [Send.newline]] := by
  unfold Send.writePrompt at ended ⊢
  split at ended
  · rw [(Send.finishAcp_reports ended).1] at complete
    cases complete
  · simp only [crossing_outcome] at ended
    have whole : (pushLine frame 0 x.polls).crossed = frame ++ [Send.newline] := by
      split at ended
      · rename_i raised full
        exact pushLine_whole full fun interrupt => (Send.finishAcp_reports ended).2 _ (raised.symm.trans interrupt)
      · rename_i raised other
        rw [(Send.finishAcp_reports ended).1] at complete
        exact absurd complete other
      · rename_i clear full
        apply pushLine_whole full
        rw [clear]
        exact nofun
      · rename_i clear other
        rw [(Send.finishAcp_reports ended).1] at complete
        exact absurd complete other
    simp only [whole]
    apply crossing_prompted (by simp)
    split
    · exact finishAcp_crosses
    · exact finishAcp_crosses
    · exact readResponse_crosses
    · exact finishAcp_crosses

-- Of a prompt that is reported as written whole, one line has crossed and nothing else, and the child
-- that reads the line reads the request: its session, its id, and the message as it was given.
theorem prompt_crosses (proper : Proper d) (quiet : hook.Quiet Crosses) (prepared : preparePromptFrame d = some frame)
    (ended : (runKimiAcp (exchange d frame hook) frame hook).outcome = .ok result) (complete : result.promptWrite = .complete) :
    prompted (runKimiAcp (exchange d frame hook) frame hook).trace = [frame ++ [Send.newline]] ∧ frame.length ≤ lineBytes ∧
    ReadsAs frame [textField "jsonrpc" (str "2.0"),(str "id",.int 5),textField "method" (str "session/prompt"),(str "params",.dict
      [textField "sessionId" d.request.sessionId,textField "messageId" d.request.requestId,
        (str "prompt",.list [.dict [textField "type" (str "text"),textField "text" d.request.message]])])] := by
  refine ⟨?_,?_⟩
  · unfold runKimiAcp at ended ⊢
    split at ended
    · rw [(Send.finishAcp_reports ended).1] at complete
      cases complete
    · simp only [Traced.attempt] at ended ⊢
      cases returned : hook.outcome with
      | error e =>
        rw [returned] at ended
        simp only at ended
        split at ended
        · rw [(Send.finishAcp_reports ended).1] at complete
          cases complete
        · cases ended
      | ok _ =>
        rw [returned] at ended
        change prompted (hook.trace ++ (Send.writePrompt _ frame).trace) = _
        rw [prompted_append,quiet_unprompted quiet]
        exact writePrompt_whole ended complete
  · unfold preparePromptFrame at prepared
    split at prepared
    · rename_i payload encoded
      split at prepared
      · cases prepared
        have proper' : (Frame.call 5).Proper := trivial
        exact encodeFrame_reads proper proper' encoded
      · cases prepared
    · cases prepared

theorem demo_crosses : prompted demoRun.trace = [demoFrame ++ [Send.newline]] ∧ demoFrame.length ≤ lineBytes ∧
    ReadsAs demoFrame [textField "jsonrpc" (str "2.0"),(str "id",.int 5),textField "method" (str "session/prompt"),(str "params",.dict
      [textField "sessionId" (str "s"),textField "messageId" (str "r"),
        (str "prompt",.list [.dict [textField "type" (str "text"),textField "text" (str "m")]])])] := by
  obtain ⟨result,ended,own⟩ := demoRun_ended
  have prepared : preparePromptFrame demo = some demoFrame := by
    have some' : (preparePromptFrame demo).isSome = true := by decide +kernel
    obtain ⟨frame,found⟩ := Option.isSome_iff_exists.mp some'
    rw [demoFrame,found]
    rfl
  have proper : Proper demo := ⟨scalars_str _,scalars_str _,scalars_str _,scalars_str _,scalars_str _⟩
  exact prompt_crosses proper .done prepared ended (congrArg (fun b => b.2.2.2) own)

end Line
end AgentSideCar.Acp
