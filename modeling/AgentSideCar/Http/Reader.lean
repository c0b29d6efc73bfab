import AgentSideCar.Http.Head
import AgentSideCar.Library.Digits
import AgentSideCar.Library.Probe

namespace AgentSideCar.Http
open Inbound (Ending Wire)
variable {ε : Type}

-- How reading a request ends: with one, with nothing where the peer is gone, with a fault
-- that is answered, or with an error of the connection.
inductive Reading (ε : Type) where
  | asked (request : Request)
  | gone
  | fault (fault : Fault)
  | broken (error : ε)

def refusal (status : Nat) : Reading ε := .fault (.refused status false)

def stopped : Ending ε → Reading ε
  | .closed => .gone
  | .broken error => .broken error
  | .silent => refusal 408

def parsed (limit : Option Nat) (head : Bytes) : Reading ε :=
  match parseHead limit head with
  | .ok request => .asked request
  | .error fault => .fault fault

-- A request line ends with a return and a feed, in time.
def lineFault (buffer : Bytes) (newline : Nat) : Option Nat :=
  if maxRequestLineBytes < newline + 1 then some 414
  else if newline = 0 ∨ buffer[newline - 1]? ≠ some cr then some 400
  else none

-- A turn ends where the clock is found to be past the deadline.
def readRequest (limit : Option Nat) (turns : Nat) (w : Wire UInt8 ε) : Reading ε × Wire UInt8 ε :=
  match Probe.seek [lf] maxRequestLineBytes 4096 turns [] w with
  | (.beyond,s) => (refusal 414,s.wire)
  | (.late,s) => (refusal 408,s.wire)
  | (.ended ending,s) => (stopped ending,s.wire)
  | (.found newline,s) => match lineFault s.buffer newline with
    | some status => (refusal status,s.wire)
    | none => match Probe.seek (Pairs.blank cr lf) maxHeaderBytes 4096 s.turns s.buffer s.wire with
      | (.beyond,s) => (refusal 431,s.wire)
      | (.late,s) => (refusal 408,s.wire)
      | (.ended ending,s) => (stopped ending,s.wire)
      | (.found marker,s) =>
        if maxHeaderBytes < marker + 4 then (refusal 431,s.wire)
        else if s.buffer.length ≠ marker + 4 then (refusal 413,s.wire)
        else (parsed limit (s.buffer.take marker),s.wire)

-- The same of the whole stream: turned away, or a head and what lies behind it.
inductive Judged (ε : Type) where
  | turned (reading : Reading ε)
  | head (head rest : Bytes)

def judgeHead (stream : Bytes) (ending : Ending ε) : Judged ε :=
  match Markers.first (Pairs.blank cr lf) stream with
  | some marker =>
    if maxHeaderBytes < marker + 4 then .turned (refusal 431) else .head (stream.take marker) (stream.drop (marker + 4))
  | none => if maxHeaderBytes < stream.length then .turned (refusal 431) else .turned (stopped ending)

def judge (stream : Bytes) (ending : Ending ε) : Judged ε :=
  match Markers.first [lf] stream with
  | some newline => match lineFault stream newline with
    | some status => .turned (refusal status)
    | none => judgeHead stream ending
  | none => if maxRequestLineBytes < stream.length then .turned (refusal 414) else .turned (stopped ending)

-- What a reading makes of a stream that is judged so.
inductive Agrees (limit : Option Nat) : Judged ε → Reading ε × Wire UInt8 ε → Prop where
  | turned (reading : Reading ε) (w : Wire UInt8 ε) : Agrees limit (.turned reading) (reading,w)
  | taken (head : Bytes) (w : Wire UInt8 ε) : Agrees limit (.head head w.unread) (parsed limit head,w)
  | crowded (head more : Bytes) (w : Wire UInt8 ε) : more ≠ [] → Agrees limit (.head head (more ++ w.unread)) (refusal 413,w)

theorem blank_some : Pairs.blank cr lf ≠ [] := List.cons_ne_nil _ _

theorem lineFault_append (found : Markers.first [lf] buffer = some newline) (rest : Bytes) :
    lineFault (buffer ++ rest) newline = lineFault buffer newline := by
  have room := Probe.first_room (List.cons_ne_nil _ _) found
  rw [List.length_singleton] at room
  unfold lineFault
  rw [List.getElem?_append_left (by omega)]

variable {limit : Option Nat}

theorem head_agrees {s : Probe.State UInt8 ε} (found : Markers.first (Pairs.blank cr lf) s.buffer = some marker) (ending : Ending ε) :
    Agrees limit (judgeHead s.stream ending)
      (if maxHeaderBytes < marker + 4 then (refusal 431,s.wire)
        else if s.buffer.length ≠ marker + 4 then (refusal 413,s.wire)
        else (parsed limit (s.buffer.take marker),s.wire)) := by
  have room : marker + 4 ≤ s.buffer.length := Probe.first_room blank_some found
  unfold judgeHead
  rw [Probe.State.stream,Probe.first_append blank_some found]
  simp only
  split
  · exact .turned _ _
  · rw [List.take_append_of_le_length (by omega),List.drop_append_of_le_length room]
    split
    · rename_i longer
      refine .crowded _ _ _ ?_
      rw [Ne,List.drop_eq_nil_iff]
      omega
    · rename_i exact'
      rw [List.drop_eq_nil_of_le (by omega),List.nil_append]
      exact .taken _ _

theorem beyond_judged (same : Probe.sought (Pairs.blank cr lf) maxHeaderBytes stream ending = .beyond) :
    judgeHead stream ending = .turned (refusal 431) := by
  unfold judgeHead
  rcases Probe.beyond_cases blank_some same with ⟨marker,found,far⟩ | ⟨absent,more⟩
  · rw [found]
    exact if_pos (Nat.lt_of_succ_lt far)
  · rw [absent]
    exact if_pos more

theorem ended_judged (same : Probe.sought (Pairs.blank cr lf) maxHeaderBytes stream ending = .ended final) :
    judgeHead stream ending = .turned (stopped final) := by
  obtain ⟨absent,few,rfl⟩ := Probe.ended_cases blank_some same
  unfold judgeHead
  rw [absent]
  exact if_neg few

theorem line_beyond (same : Probe.sought [lf] maxRequestLineBytes stream ending = .beyond) :
    judge stream ending = .turned (refusal 414) := by
  unfold judge
  rcases Probe.beyond_cases (List.cons_ne_nil _ _) same with ⟨newline,found,far⟩ | ⟨absent,more⟩
  · have long : lineFault stream newline = some 414 := if_pos (Nat.lt_of_succ_lt far)
    rw [found]
    simp only [long]
  · rw [absent]
    exact if_pos more

theorem line_ended (same : Probe.sought [lf] maxRequestLineBytes stream ending = .ended final) :
    judge stream ending = .turned (stopped final) := by
  obtain ⟨absent,few,rfl⟩ := Probe.ended_cases (List.cons_ne_nil _ _) same
  unfold judge
  rw [absent]
  exact if_neg few

-- However the bytes are cut: a request is what the whole stream is judged to be, from its head
-- alone; it is turned away for what was read behind its head, or for lack of time.
theorem readRequest_exact (limit : Option Nat) (turns : Nat) (w : Wire UInt8 ε) :
    Agrees limit (judge w.unread w.ending) (readRequest limit turns w) ∨
      (readRequest limit turns w).1 = refusal 408 ∧ turns ≤ w.unread.length := by
  have one := Probe.seek_exact (List.cons_ne_nil lf []) (show 0 < 4096 by decide) turns [] w (show 0 ≤ maxRequestLineBytes + 1 by omega)
  have length : ∀ s : Probe.State UInt8 ε, s.stream = w.unread → s.buffer.length ≤ w.unread.length := by
    intro s own
    rw [← own,Probe.State.stream,List.length_append]
    omega
  unfold readRequest
  generalize Probe.seek [lf] maxRequestLineBytes 4096 turns [] w = out at one
  obtain ⟨outcome,s⟩ := out
  have stream : s.stream = w.unread := one.stream
  cases outcome with
  | late =>
    have late := one.late rfl
    exact .inr ⟨rfl,Nat.le_trans late (length s stream)⟩
  | beyond =>
    have same : _ = Probe.sought [lf] maxRequestLineBytes w.unread w.ending := one.same.resolve_left nofun
    rw [line_beyond same.symm]
    exact .inl (.turned _ _)
  | ended final =>
    have same : _ = Probe.sought [lf] maxRequestLineBytes w.unread w.ending := one.same.resolve_left nofun
    rw [line_ended same.symm]
    exact .inl (.turned _ _)
  | found newline =>
    have found := one.found newline rfl
    have place := Probe.first_append (List.cons_ne_nil _ _) found s.wire.unread
    have fault := lineFault_append found s.wire.unread
    rw [← Probe.State.stream,stream] at place fault
    have judged : judge w.unread w.ending = match lineFault s.buffer newline with
        | some status => .turned (refusal status)
        | none => judgeHead w.unread w.ending := by
      unfold judge
      rw [place]
      simp only [fault]
    rw [judged]
    simp only
    cases lineFault s.buffer newline with
    | some status => exact .inl (.turned _ _)
    | none =>
      have room : s.buffer.length ≤ maxHeaderBytes + 1 := Nat.le_trans one.room (by decide)
      have two := Probe.seek_exact blank_some (show 0 < 4096 by decide) s.turns s.buffer s.wire room
      simp only
      generalize Probe.seek (Pairs.blank cr lf) maxHeaderBytes 4096 s.turns s.buffer s.wire = out at two
      obtain ⟨outcome,later⟩ := out
      have whole : later.stream = w.unread := two.stream.trans stream
      have ending : s.wire.ending = w.ending := one.ending
      cases outcome with
      | late =>
        refine .inr ⟨rfl,?_⟩
        have patience := one.patience newline rfl
        have late := two.late rfl
        have within := length later whole
        simp only [List.length_nil] at patience
        simp only at late
        omega
      | beyond =>
        have same := two.same.resolve_left nofun
        rw [← Probe.State.stream,stream,ending] at same
        rw [beyond_judged same.symm]
        exact .inl (.turned _ _)
      | ended final =>
        have same := two.same.resolve_left nofun
        rw [← Probe.State.stream,stream,ending] at same
        rw [ended_judged same.symm]
        exact .inl (.turned _ _)
      | found marker =>
        left
        rw [← whole]
        exact head_agrees (two.found marker rfl) w.ending

theorem lineFault_none (found : Markers.first [lf] stream = some newline) (fits : lineFault stream newline = none) :
    ∃ line rest, lf ∉ line ∧ stream = line ++ cr :: lf :: rest := by
  obtain ⟨clean,own⟩ := Probe.sign_first found
  have room := Probe.first_room (List.cons_ne_nil _ _) found
  rw [List.length_singleton] at room
  unfold lineFault at fits
  split at fits
  · cases fits
  · split at fits
    · cases fits
    · rename_i returned
      rw [not_or,not_not] at returned
      have last : (stream.take newline).getLast? = some cr := by
        rw [List.getLast?_eq_getElem?,List.length_take,Nat.min_eq_left (by omega),List.getElem?_take,if_pos (by omega)]
        exact returned.2
      obtain ⟨line,whole⟩ := List.getLast?_eq_some_iff.mp last
      rw [whole] at clean own
      exact ⟨line,stream.drop (newline + 1),fun inside => clean (List.mem_append_left _ inside),by rw [List.append_assoc] at own; exact own⟩

theorem cut_clear {line rest later : Bytes} (clean : lf ∉ line) (same : head ++ cr :: lf :: later = line ++ cr :: lf :: rest) :
    ∀ first ∈ (Pairs.cut cr lf head).head?, lf ∉ first := by
  by_cases inside : lf ∈ head
  · obtain ⟨before,behind,own,free⟩ := List.eq_append_cons_of_mem inside
    have sides : before ++ lf :: (behind ++ cr :: lf :: later) = (line ++ [cr]) ++ lf :: rest := by
      rw [own] at same
      simpa using same
    obtain ⟨rfl,_⟩ := Digits.split_unique free (by simpa [clean] using (by decide : lf ≠ cr)) sides
    rw [own,List.append_assoc,List.singleton_append,Pairs.cut_line (by decide) clean]
    rintro _ ⟨⟩
    exact clean
  · rw [Pairs.cut_single inside]
    rintro _ ⟨⟩
    exact inside

theorem judge_head (judged : judge stream ending = .head head rest) : stream = head ++ Pairs.blank cr lf ++ rest ∧
    head.length + 4 ≤ maxHeaderBytes ∧ ∀ line ∈ (Pairs.cut cr lf head).head?, lf ∉ line := by
  unfold judge at judged
  split at judged
  · rename_i newline first
    split at judged
    · cases judged
    · rename_i fits
      obtain ⟨line,tail,clean,own⟩ := lineFault_none first fits
      unfold judgeHead at judged
      split at judged
      · rename_i marker found
        split at judged
        · cases judged
        · rename_i within
          cases judged
          have room : marker + 4 ≤ stream.length := Probe.first_room blank_some found
          obtain ⟨more,behind⟩ := (Markers.first_found found).1
          have rest : stream.drop (marker + 4) = more := by rw [← List.drop_drop,← behind]; rfl
          have whole : stream = stream.take marker ++ Pairs.blank cr lf ++ stream.drop (marker + 4) := by
            conv => lhs; rw [← List.take_append_drop marker stream,← behind,← rest]
            rw [List.append_assoc]
          refine ⟨whole,by rw [List.length_take]; omega,?_⟩
          have head : stream.take marker ++ cr :: lf :: cr :: lf :: stream.drop (marker + 4) = stream := by
            conv => rhs; rw [whole,List.append_assoc]
            rfl
          exact cut_clear clean (head.trans own)
      · split at judged <;> cases judged
  · split at judged <;> cases judged

theorem judge_written (q : Asked limit) (within : q.head.length + 4 ≤ maxHeaderBytes) (ending : Ending ε) :
    judge (q.head ++ Pairs.blank cr lf) ending = .head q.head [] := by
  have found := Pairs.blank_exact (a := cr) (z := lf) (by decide) (lines_clear q) (List.cons_ne_nil _ _) []
  rw [List.append_nil] at found
  obtain ⟨later,begins⟩ : ∃ later, q.head ++ Pairs.blank cr lf = q.start ++ cr :: lf :: later := by
    unfold Asked.head
    cases q.fields with
    | nil => exact ⟨[cr,lf],by simp [Pairs.join,Pairs.blank]⟩
    | cons f fields => exact ⟨_,by simp only [List.map_cons,Pairs.join,List.append_assoc,List.cons_append]; rfl⟩
  have newline : Markers.first [lf] (q.head ++ Pairs.blank cr lf) = some (q.start.length + 1) := by
    have free : lf ∉ q.start ++ [cr] := by simpa [start_clear q] using (by decide : lf ≠ cr)
    have := Probe.first_sign free later
    rwa [List.append_assoc,List.singleton_append,← begins,List.length_append,List.length_singleton] at this
  have fits : lineFault (q.head ++ Pairs.blank cr lf) (q.start.length + 1) = none := by
    unfold lineFault
    rw [if_neg (by have := q.short; simp only [Asked.start]; omega),begins]
    simp
  unfold judge judgeHead
  rw [newline]
  simp only [fits]
  show (match Markers.first (Pairs.blank cr lf) (q.head ++ Pairs.blank cr lf) with
    | some marker => if maxHeaderBytes < marker + 4 then Judged.turned (refusal 431)
      else .head ((q.head ++ Pairs.blank cr lf).take marker) ((q.head ++ Pairs.blank cr lf).drop (marker + 4))
    | none => _) = _
  unfold Asked.head at within ⊢
  rw [found]
  simp only
  rw [if_neg (by omega),List.take_left,List.drop_eq_nil_of_le]
  simp [Pairs.blank]

theorem judge_turned (stream : Bytes) (ending : Ending ε) (r : Request) : judge stream ending ≠ .turned (.asked r) := by
  have halts : stopped ending ≠ .asked r := by cases ending <;> nofun
  unfold judge judgeHead
  split
  · split
    · nofun
    · split <;> split <;> simp_all [refusal]
  · split <;> simp_all [refusal]

theorem agrees_asked {later : Wire UInt8 ε} (agrees : Agrees limit (judge stream ending) (.asked r,later)) : ∃ q : Asked limit,
    stream = q.head ++ Pairs.blank cr lf ++ later.unread ∧ q.head.length + 4 ≤ maxHeaderBytes ∧ Carries q r := by
  generalize judged : judge stream ending = verdict at agrees
  generalize whole : (Reading.asked r,later) = out at agrees
  cases agrees with
  | turned reading w =>
    cases whole
    exact absurd judged (judge_turned stream ending r)
  | crowded head more w some' => cases whole
  | taken head w =>
    obtain ⟨read,rfl⟩ := Prod.ext_iff.mp whole
    obtain ⟨own,within,clear⟩ := judge_head judged
    have parses : parseHead limit head = .ok r := by
      simp only [parsed] at read
      split at read
      · rename_i request reads
        cases read
        exact reads
      · cases read
    obtain ⟨q,rfl,carries⟩ := parseHead_read parses clear
    exact ⟨q,own,within,carries⟩

theorem agrees_head {out : Reading ε × Wire UInt8 ε} (agrees : Agrees limit (.head head []) out) :
    out.1 = parsed limit head ∧ out.2.unread = [] := by
  generalize whole : ([] : Bytes) = rest at agrees
  cases agrees with
  | taken head w => exact ⟨rfl,rfl⟩
  | crowded head more w some' => exact absurd (List.append_eq_nil_iff.mp whole.symm).1 some'

-- The requests that are accepted are exactly those of the grammar, and each is read as it was written.
theorem readRequest_accepts (limit : Option Nat) (turns : Nat) (w : Wire UInt8 ε) :
    (∀ r later, readRequest limit turns w = (.asked r,later) → ∃ q : Asked limit,
      w.unread = q.head ++ Pairs.blank cr lf ++ later.unread ∧ q.head.length + 4 ≤ maxHeaderBytes ∧ Carries q r) ∧
    ∀ q : Asked limit, w.unread = q.head ++ Pairs.blank cr lf → q.head.length + 4 ≤ maxHeaderBytes → w.unread.length < turns →
      ∃ r later, readRequest limit turns w = (.asked r,later) ∧ later.unread = [] ∧ Carries q r := by
  constructor
  · intro r later read
    rcases readRequest_exact limit turns w with agrees | ⟨late,_⟩
    · rw [read] at agrees
      exact agrees_asked agrees
    · rw [read] at late
      cases late
  · intro q own within patience
    obtain ⟨r,written,carries⟩ := parseHead_written q
    rcases readRequest_exact limit turns w with agrees | ⟨_,late⟩
    · rw [own,judge_written q within] at agrees
      obtain ⟨reading,none'⟩ := agrees_head agrees
      rw [parsed,written] at reading
      exact ⟨r,(readRequest limit turns w).2,Prod.ext reading rfl,none',carries⟩
    · omega

theorem space_pad : ∀ b ∈ [32] ++ [], isPad b = true := List.forall_mem_singleton.mpr rfl
theorem latest_version : ascii "HTTP/1.1" ∈ versions := by decide
theorem get_known : methodGet = methodGet ∨ methodGet = methodHead := .inl rfl

def hostField : Field := ⟨ascii "Host",[32],ascii "127.0.0.1:80",[],by decide,space_pad,by decide,by decide⟩

def rootAsked : Asked none :=
  ⟨methodGet,[slash],ascii "HTTP/1.1",[hostField],get_known,latest_version,by decide,by decide,by decide,by decide,by decide,by decide⟩

theorem root_accepted : ∃ r later, readRequest none 100 (⟨rootAsked.head ++ Pairs.blank cr lf,fun _ => 0,.silent⟩ : Wire UInt8 Unit) =
    (.asked r,later) ∧ later.unread = [] ∧ Carries rootAsked r :=
  (readRequest_accepts none 100 _).2 rootAsked rfl (by decide) (by decide)

end AgentSideCar.Http
