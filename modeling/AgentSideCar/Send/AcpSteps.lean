import AgentSideCar.Send.AcpSettles

namespace AgentSideCar.Acp
open Loads (Value Text str)
open Wrapper (get)
open Send (Snag)
open Program (Triple)

-- What ends an exchange, of one kind, and what of the link is kept all along: it rests on the transcript and
-- on the writes to come.
structure Discipline (I : Link → Prop) (P : Snag → Prop) : Prop where
  overflow : P (.driver "output_overflow")
  late : P .timeout
  unanswered : P (.driver "timeout")
  raised : ∀ s, I s → ∀ snag, .raised snag ∈ s.writes → P snag
  same : ∀ s s', s'.transcript = s.transcript → s'.writes = s.writes → I s → I s'
  sent : ∀ frame answer s, I s → I (s.sent frame answer)

-- The program answers with a good value or raises what is of the kind, and keeps the invariant either way.
def Carries {α : Type} (I : Link → Prop) (P : Snag → Prop) (good : α → Prop) (p : Driver α) : Prop :=
  Triple I p (fun a s => good a ∧ I s) (fun snag s => P snag ∧ I s)

-- The error that says that the prompt found the session busy.
structure SaysBusy (e : Fields) : Prop where
  own : responseId e = .ok (.int 5)
  error : (get e "error").isSome = true
  busy : errorIsBusy (read e "error") = true

-- What parse_json has let through, if it has a hash where one is asked for or the want of it may be raised.
structure Takes (P : Snag → Prop) (e : Fields) : Prop where
  bounded : Bounded (.dict e)
  hashes : P (.escape .other) ∨ Hashes e
  busy : SaysBusy e → P (.driver "session_busy")

structure Expected (n : Nat) (e : Fields) : Prop where
  own : responseId e = .ok (.int n)
  noMethod : (get e "method").isSome = false

section Steps
variable {α β : Type} {I : Link → Prop} {P : Snag → Prop} {good : α → Prop} {d : Dialogue} {e : Fields} {s : Link}

theorem Carries.settle {outcome : Except Snag α} (settles : Settles P outcome) : Carries I P (outcome = .ok ·) (Program.settle outcome) :=
  Triple.settle (fun _ same _ holds => ⟨same,holds⟩) (fun snag same _ holds => ⟨settles snag same,holds⟩)

theorem Carries.bind {p : Driver α} {rest : α → Driver β} {end' : β → Prop} (first : Carries I P good p)
    (later : ∀ a, good a → Carries I P end' (rest a)) : Carries I P end' (p >>= rest) := Triple.bind first fun a => .given (later a)

theorem Carries.pure {a : α} (holds : good a) : Carries I P good (pure a : Driver α) := Triple.pure fun _ kept => ⟨holds,kept⟩

theorem Carries.raise {snag : Snag} (kind : P snag) : Carries I P good (Program.raise snag) := Triple.raise fun _ kept => ⟨kind,kept⟩

theorem Carries.read : Carries I P (fun _ => True) (Program.read : Driver Link) := Triple.read fun _ kept => ⟨trivial,kept⟩

theorem Carries.weaken {p : Driver α} {other : α → Prop} (carries : Carries I P good p) (more : ∀ a, good a → other a) : Carries I P other p :=
  Triple.weaken carries (fun _ kept => kept) (fun a _ both => ⟨more a both.1,both.2⟩) (fun _ _ both => both)

variable (discipline : Discipline I P)
include discipline

theorem Discipline.change {f : Link → Link} (keeps : ∀ s, (f s).transcript = s.transcript ∧ (f s).writes = s.writes) :
    Carries I P (fun _ => True) (Program.change f) :=
  Triple.change fun s kept => ⟨trivial,discipline.same s (f s) (keeps s).1 (keeps s).2 kept⟩

theorem writeLine_carries (frame : Frame) : Carries I P (fun answer => ∀ snag, answer = .raised snag → P snag) (writeLine frame) := by
  intro s kept
  refine ⟨fun snag same => discipline.raised s kept snag ?_,discipline.sent frame _ s kept⟩
  cases writes : s.writes with
  | nil =>
    rw [writes] at same
    cases same
  | cons answer later =>
    rw [writes] at same
    exact same ▸ List.mem_cons_self

variable [Admits P]

omit discipline in
theorem settles_boundaryOf {answer : Write} (admitted : ∀ snag, answer = .raised snag → P snag) : Settles P (boundaryOf answer) := by
  cases answer with
  | boundary boundary => exact settles_ok _
  | runtimeError => exact settles_refuse
  | raised snag => exact settles_raised (admitted snag rfl)

omit discipline in
theorem settles_encodeFrame (d : Dialogue) (frame : Frame) : Settles P (encodeFrame d frame) := by
  unfold encodeFrame
  split
  · exact settles_refuse
  · split
    · exact settles_refuse
    · exact settles_ok _

theorem write_carries (d : Dialogue) (frame : Frame) : Carries I P (fun _ => True) (write d frame) := by
  refine Carries.bind (.settle (settles_encodeFrame d frame)) fun _ _ => ?_
  refine Carries.bind (writeLine_carries discipline frame) fun answer admitted => ?_
  exact (Carries.settle (settles_boundaryOf admitted)).weaken fun _ _ => trivial

theorem acceptPart_carries (part : Text) : Carries I P (fun _ => True) (acceptPart part) := by
  unfold acceptPart
  split
  · exact .raise Admits.refused
  · refine Carries.bind .read fun s _ => ?_
    split
    · exact .raise discipline.overflow
    · exact discipline.change fun _ => ⟨rfl,rfl⟩

theorem notification_carries (takes : Takes P e) : Carries I P (fun _ => True) (notification d e) := by
  refine Carries.bind (.settle (settles_updateOf d takes.bounded takes.hashes)) fun update made => ?_
  refine Carries.bind (.settle (settles_chunkText made)) fun part _ => ?_
  cases part with
  | none => exact .pure trivial
  | some part => exact acceptPart_carries discipline part

theorem reverseRequest_carries (takes : Takes P e) : Carries I P (fun _ => True) (reverseRequest d e) := by
  refine Carries.bind (.settle (settles_rpcId _)) fun id _ => ?_
  refine Carries.bind .read fun s _ => ?_
  refine Carries.bind (.settle (settles_demand _)) fun _ _ => ?_
  refine Carries.bind (discipline.change fun _ => ⟨rfl,rfl⟩) fun _ _ => ?_
  split
  · rename_i asks
    refine Carries.bind (.settle (settles_permission _ takes.bounded takes.hashes asks)) fun _ _ => ?_
    refine Carries.bind (write_carries discipline d _) fun boundary _ => ?_
    exact (Carries.settle (settles_demand _)).weaken fun _ _ => trivial
  · exact Carries.bind (write_carries discipline d _) fun _ _ => .raise Admits.refused

theorem respond_carries (busy : SaysBusy e → P (.driver "session_busy")) (expectedId : Option Nat) :
    Carries I P (fun response => response = e ∧ ∀ n, expectedId = some n → responseId e = .ok (.int n)) (respond e expectedId) := by
  refine Carries.bind (.settle settles_responseId) fun id own => ?_
  refine Carries.bind .read fun s _ => ?_
  refine Carries.bind (.settle (settles_demand _)) fun _ _ => ?_
  refine Carries.bind (.settle (settles_demand _)) fun _ expected => ?_
  refine Carries.bind (.settle (settles_demand _)) fun _ _ => ?_
  refine Carries.bind (discipline.change fun _ => ⟨rfl,rfl⟩) fun _ _ => ?_
  refine Carries.bind (.settle (settles_responseError fun fifth error said => busy ⟨fifth ▸ own,error,said⟩)) fun _ _ => ?_
  refine .pure ⟨rfl,?_⟩
  intro n same
  subst same
  have named : id = .int n := of_decide_eq_true (demand_ok.mp expected)
  rw [own,named]

-- A response is the one that was waited for.
theorem consume_carries (takes : Takes P e) (expectedId : Option Nat) :
    Carries I P (fun response => (response = none → (get e "method").isSome = true) ∧
      ∀ own, response = some own → own = e ∧ ∀ n, expectedId = some n → Expected n e) (consume d e expectedId) := by
  refine Carries.bind (.settle (settles_demand _)) fun _ _ => ?_
  split
  · rename_i method
    refine Carries.bind (.settle settles_callFine) fun _ _ => ?_
    split
    · exact Carries.bind (reverseRequest_carries discipline takes) fun _ _ => .pure ⟨fun _ => method,nofun⟩
    · exact Carries.bind (notification_carries discipline takes) fun _ _ => .pure ⟨fun _ => method,nofun⟩
  · rename_i method
    refine Carries.bind (respond_carries discipline takes.busy expectedId) fun response answered => .pure ⟨nofun,?_⟩
    obtain ⟨rfl,named⟩ := answered
    intro own same
    cases same
    exact ⟨rfl,fun n expected => ⟨named n expected,by simpa using method⟩⟩

end Steps

-- Nothing that may still come of a write is of another kind.
def Tame (P : Snag → Prop) (s : Link) : Prop := ∀ snag, .raised snag ∈ s.writes → P snag

theorem tame_discipline {P : Snag → Prop} (overflow : P (.driver "output_overflow")) (late : P .timeout) (unanswered : P (.driver "timeout")) :
    Discipline (Tame P) P where
  overflow := overflow
  late := late
  unanswered := unanswered
  raised := fun _ tame => tame
  same := fun _ _ _ writes tame snag inside => tame snag (writes ▸ inside)
  sent := fun _ _ _ tame snag inside => tame snag (List.mem_of_mem_tail inside)

theorem parseJson_bounded {depth : Nat} (parsed : parseJson depth bytes = some v) : Bounded v := by
  unfold parseJson at parsed
  split at parsed
  · cases parsed
  · split at parsed
    · rename_i value made
      split at parsed
      · cases parsed
        unfold Wrapper.parseJson at made
        split at made
        · cases made
        · cases made
        · cases made
        · rename_i own _
          cases valid : Wrapper.validateJson jsonLimits 0 1 own with
          | error e =>
            rw [valid] at made
            cases made
          | ok after =>
            rw [valid] at made
            cases made
            exact ⟨0,1,after,valid⟩
      · cases parsed
    · cases parsed

-- A line of the child: what is read of it may be taken, and is taken down.
structure Fine (I : Link → Prop) (P : Snag → Prop) (d : Dialogue) (line : Read) : Prop where
  raised : Settles P (envelopeOf d line)
  takes : ∀ e, envelopeOf d line = .ok e → Takes P e
  heard : ∀ e, envelopeOf d line = .ok e → ∀ s, I s → I (s.record (.heard e))

theorem envelopeOf_bounded {line : Read} (made : envelopeOf d line = .ok e) : Bounded (.dict e) := by
  cases line with
  | line bytes =>
    unfold envelopeOf at made
    simp only at made
    split at made
    · rename_i value parsed
      exact mapping_dict made ▸ parseJson_bounded parsed
    · cases made
  | eof => cases made
  | raised snag => cases made

theorem settles_envelopeOf {P : Snag → Prop} [Admits P] {line : Read} (admitted : ∀ snag, line = .raised snag → P snag) :
    Settles P (envelopeOf d line) := by
  cases line with
  | line bytes =>
    unfold envelopeOf
    simp only
    split
    · exact settles_mapping _
    · exact settles_refuse
  | eof => exact settles_refuse
  | raised snag => exact settles_raised (admitted snag rfl)

-- The lines that are left while the driver waits for the n-th response, and those that are left after it.
structure Stage (I : Link → Prop) (P : Snag → Prop) (d : Dialogue) (n : Nat) (now later : List Read → Prop) : Prop where
  fine : now (line :: rest) → Fine I P d line
  called : now (line :: rest) → envelopeOf d line = .ok e → (get e "method").isSome = true → now rest
  answered : now (line :: rest) → envelopeOf d line = .ok e → Expected n e → later rest

def AllFine (I : Link → Prop) (P : Snag → Prop) (d : Dialogue) (reads : List Read) : Prop := ∀ line ∈ reads, Fine I P d line

theorem stage_all {I : Link → Prop} {P : Snag → Prop} {d : Dialogue} : Stage I P d n (AllFine I P d) (AllFine I P d) where
  fine := fun all => all _ List.mem_cons_self
  called := fun all _ _ line inside => all line (List.mem_cons_of_mem _ inside)
  answered := fun all _ _ line inside => all line (List.mem_cons_of_mem _ inside)

section Reading
variable {I : Link → Prop} {P : Snag → Prop} {d : Dialogue} {now later : List Read → Prop}

theorem readEnvelope_carries {line : Read} (fine : Fine I P d line) : Carries I P (envelopeOf d line = .ok ·) (readEnvelope d line) := by
  refine Carries.bind (.settle fine.raised) fun e made => ?_
  have recorded : Carries I P (fun _ => True) (Program.change (Link.record (.heard e))) :=
    Triple.change fun s kept => ⟨trivial,fine.heard e made s kept⟩
  exact Carries.bind recorded fun _ _ => .pure made

variable [Admits P] (discipline : Discipline I P)
include discipline

theorem awaitResponse_carries (stage : Stage I P d n now later) (reads : List Read) (holds : now reads) :
    Carries I P (fun r => (Takes P r.1 ∧ Expected n r.1) ∧ later r.2) (awaitResponse d n reads) := by
  induction reads with
  | nil => exact .raise discipline.late
  | cons line rest ih =>
    have fine := stage.fine holds
    refine Carries.bind (readEnvelope_carries fine) fun e made => ?_
    have takes := fine.takes e made
    refine Carries.bind (consume_carries discipline takes (some n)) fun response taken => ?_
    cases response with
    | none => exact ih (stage.called holds made (taken.1 rfl))
    | some response =>
      obtain ⟨rfl,named⟩ := taken.2 response rfl
      have expected := named n rfl
      exact .pure ⟨⟨takes,expected⟩,stage.answered holds made expected⟩

theorem requestRpc_carries (stage : Stage I P d n now later) (reads : List Read) (holds : now reads) :
    Carries I P (fun r => (Takes P r.1 ∧ Expected n r.1) ∧ later r.2) (requestRpc d n reads) := by
  refine Carries.bind .read fun s _ => ?_
  refine Carries.bind (.settle (settles_demand _)) fun _ _ => ?_
  refine Carries.bind (discipline.change fun _ => ⟨rfl,rfl⟩) fun _ _ => ?_
  refine Carries.bind (write_carries discipline d _) fun boundary _ => ?_
  cases boundary with
  | complete => exact awaitResponse_carries discipline stage reads holds
  | none => exact Carries.bind (discipline.change fun _ => ⟨rfl,rfl⟩) fun _ _ => .raise discipline.unanswered
  | partially => exact Carries.bind (discipline.change fun _ => ⟨rfl,rfl⟩) fun _ _ => .raise Admits.refused

-- What comes of the prompt once it has crossed and is taken down.
theorem promptAnswer_carries (stage : Stage I P d 5 now later) (reads : List Read) (holds : now reads) :
    Carries I P later (awaitResponse d 5 reads >>= fun (response,reads) => do
      let stopReason ← Program.settle (promptResult response)
      Program.change (Link.settle stopReason)
      Program.change (Link.enter .promptSettled)
      return reads) := by
  refine Carries.bind (awaitResponse_carries discipline stage reads holds) fun r answered => ?_
  obtain ⟨response,rest⟩ := r
  obtain ⟨⟨takes,expected⟩,left⟩ := answered
  have fifth : isFifth (read response "id") = true := by
    rw [responseId_int expected.own]
    rfl
  have hashed : Fits P (hashes (field (read response "result") "stopReason")) := takes.hashes.imp_right fun all => all.stopReason fifth
  refine Carries.bind (.settle (settles_promptResult takes.bounded hashed)) fun stopReason _ => ?_
  refine Carries.bind (discipline.change fun _ => ⟨rfl,rfl⟩) fun _ _ => ?_
  exact Carries.bind (discipline.change fun _ => ⟨rfl,rfl⟩) fun _ _ => .pure left

theorem settlePrompt_carries (stage : Stage I P d 5 now later) (prompted : ∀ s, I s → I (s.record (.sent (.call 5) (.boundary .complete))))
    (reads : List Read) (holds : now reads) : Carries I P later (settlePrompt d reads) := by
  refine Carries.bind (discipline.change fun _ => ⟨rfl,rfl⟩) fun _ _ => ?_
  have recorded : Carries I P (fun _ => True) (Program.change (Link.record (.sent (.call 5) (.boundary .complete)))) :=
    Triple.change fun s kept => ⟨trivial,prompted s kept⟩
  refine Carries.bind recorded fun _ _ => ?_
  exact promptAnswer_carries discipline stage reads holds

theorem drainTrailing_carries (reads : List Read) (fine : AllFine I P d reads) :
    Carries I P (fun _ => True) (drainTrailing d reads) := by
  induction reads with
  | nil => exact .raise discipline.late
  | cons line rest ih =>
    have later := ih fun line inside => fine line (List.mem_cons_of_mem _ inside)
    have own := fine line List.mem_cons_self
    have heard : Carries I P (fun _ => True) (readEnvelope d line >>= fun trailing => consume d trailing none >>= fun _ => drainTrailing d rest) := by
      refine Carries.bind (readEnvelope_carries own) fun e made => ?_
      exact Carries.bind (consume_carries discipline (own.takes e made) none) fun _ _ => later
    cases line with
    | eof => exact .pure trivial
    | line bytes => exact heard
    | raised snag => exact heard

variable (driver : ∀ code, P (.driver code)) (interrupts : ∀ e, e.isException = false → P (.escape e))
include driver interrupts

theorem rpcStep_carries (stage : Stage I P d (n + 1) now later) (call : n < 4) (reads : List Read) (holds : now reads) :
    Carries I P later (rpcStep d (n + 1) reads) := by
  refine Carries.bind (requestRpc_carries discipline stage reads holds) fun r answered => ?_
  obtain ⟨response,rest⟩ := r
  refine Carries.bind (.settle (settles_accepts driver interrupts d response call)) fun _ _ => ?_
  exact Carries.bind (discipline.change fun _ => ⟨rfl,rfl⟩) fun _ _ => .pure answered.2

theorem setup_carries (good : Nat → List Read → Prop) (stages : ∀ n, n < 4 → Stage I P d (n + 1) (good n) (good (n + 1)))
    (spawned : ∀ snag, d.spawned = some snag → P snag) (holds : good 0 d.reads) : Carries I P (good 4) (setup d) := by
  have step : ∀ n, n < 4 → ∀ reads, good n reads → Carries I P (good (n + 1)) (rpcStep d (n + 1) reads) := fun n call =>
    rpcStep_carries discipline driver interrupts (stages n call) call
  refine Carries.bind (.settle ?_) fun _ _ => ?_
  · cases own : d.spawned with
    | none => exact settles_ok _
    | some snag => exact settles_raised (spawned snag own)
  refine Carries.bind (step 0 (by decide) d.reads holds) fun reads holds => ?_
  refine Carries.bind (step 1 (by decide) reads holds) fun reads holds => ?_
  refine Carries.bind (step 2 (by decide) reads holds) fun reads holds => ?_
  exact step 3 (by decide) reads holds

end Reading

end AgentSideCar.Acp
