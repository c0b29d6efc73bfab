import AgentSideCar.Library.Lines

namespace AgentSideCar.Inbound
open Lines (nextLine)
variable {α ε : Type}

-- How a connection goes on behind its last byte: closed, broken, or open without another.
inductive Ending (ε : Type) where
  | closed
  | broken (error : ε)
  | silent

-- What the peer has sent and nobody has read. With the next byte come as many as are ready,
-- by how many are left behind it: any way of cutting the bytes into pieces.
structure Wire (α ε : Type) where
  unread : List α
  ready : Nat → Nat
  ending : Ending ε

def Wire.recv (size : Nat) (w : Wire α ε) : Except (Ending ε) (List α) × Wire α ε :=
  match w.unread with
  | [] => (.error w.ending,w)
  | b :: rest =>
    let more := min (size - 1) (w.ready rest.length)
    (.ok (b :: rest.take more),{w with unread := rest.drop more})

variable {w : Wire α ε}

theorem recv_some (some' : w.unread ≠ []) (size : Nat) : ∃ chunk later, chunk ≠ [] ∧ w.unread = chunk ++ later ∧
    Wire.recv size w = (.ok chunk,{w with unread := later}) := by
  obtain ⟨b,rest,whole⟩ := List.exists_cons_of_ne_nil some'
  refine ⟨b :: rest.take (min (size - 1) (w.ready rest.length)),rest.drop (min (size - 1) (w.ready rest.length)),by simp,?_,?_⟩
  · rw [whole,List.cons_append,List.take_append_drop]
  · unfold Wire.recv
    rw [whole]

theorem recv_none (none' : w.unread = []) (size : Nat) : Wire.recv size w = (.error w.ending,w) := by
  unfold Wire.recv
  rw [none']

variable [DecidableEq α] {sep : α} {segment : List α}

structure Reader (α ε : Type) where
  buffer : List α
  wire : Wire α ε

def Reader.stream (s : Reader α ε) : List α := s.buffer ++ s.wire.unread

-- A buffered reader's line: through the separator, up to the limit, or what there is at the end.
-- The steps are the reads it makes of the wire.
def readline (sep : α) (size : Nat) : Nat → Nat → List α → Reader α ε → Except (Ending ε) (List α) × Reader α ε
  | 0,_,_,s => (.error .silent,s)
  | steps+1,limit,taken,s =>
    let window := s.buffer.take limit
    match nextLine sep window with
    | some (segment,_) => (.ok (taken ++ segment ++ [sep]),{s with buffer := s.buffer.drop (segment.length + 1)})
    | none =>
      if window.length = limit then (.ok (taken ++ window),{s with buffer := s.buffer.drop limit})
      else match s.wire.recv size with
        | (.ok chunk,wire) => readline sep size steps (limit - window.length) (taken ++ window) ⟨chunk,wire⟩
        | (.error .closed,wire) => (.ok (taken ++ window),⟨[],wire⟩)
        | (.error ending,wire) => (.error ending,⟨[],wire⟩)

-- The same of the whole stream, however it is cut, with what is left of it.
def lineOf (sep : α) (limit : Nat) (stream : List α) (ending : Ending ε) : Except (Ending ε) (List α × List α) :=
  match nextLine sep stream with
  | some (segment,rest) =>
    if segment.length < limit then .ok (segment ++ [sep],rest) else .ok (stream.take limit,stream.drop limit)
  | none =>
    if limit ≤ stream.length then .ok (stream.take limit,stream.drop limit)
    else match ending with
      | .closed => .ok (stream,[])
      | ending => .error ending

theorem nextLine_line (clean : sep ∉ segment) (rest : List α) : nextLine sep (segment ++ sep :: rest) = some (segment,rest) := by
  unfold nextLine
  have free : ∀ x ∈ segment, decide (x ≠ sep) = true := fun x inside => by
    simpa using fun same : x = sep => clean (same ▸ inside)
  rw [if_pos (List.mem_append_right _ List.mem_cons_self),List.takeWhile_append_of_pos free,List.dropWhile_append_of_pos free]
  simp

theorem nextLine_free (clean : sep ∉ stream) : nextLine sep stream = none := if_neg clean

theorem lineOf_line (clean : sep ∉ segment) (within : segment.length < limit) (rest : List α) (ending : Ending ε) :
    lineOf sep limit (segment ++ sep :: rest) ending = .ok (segment ++ [sep],rest) := by
  unfold lineOf
  rw [nextLine_line clean]
  exact if_pos within

theorem lineOf_last (clean : sep ∉ stream) (short : stream.length < limit) (ending : Ending ε) :
    lineOf sep limit stream ending = match ending with
      | .closed => .ok (stream,[])
      | ending => .error ending := by
  unfold lineOf
  rw [nextLine_free clean]
  exact if_neg (by omega)

theorem lineOf_append (clean : sep ∉ front) (short : front.length < limit) (rest : List α) (ending : Ending ε) :
    lineOf sep limit (front ++ rest) ending =
      (lineOf sep (limit - front.length) rest ending).map fun line => (front ++ line.1,line.2) := by
  have taken : (front ++ rest).take limit = front ++ rest.take (limit - front.length) := by
    rw [List.take_append,List.take_of_length_le (by omega)]
  have dropped : (front ++ rest).drop limit = rest.drop (limit - front.length) := by
    rw [List.drop_append,List.drop_eq_nil_of_le (by omega),List.nil_append]
  unfold lineOf
  cases next : nextLine sep rest with
  | some found =>
    obtain ⟨segment,later⟩ := found
    obtain ⟨free,whole⟩ := Lines.nextLine_some next
    have joined : front ++ rest = (front ++ segment) ++ sep :: later := by rw [whole,List.append_assoc]
    rw [taken,dropped,joined,nextLine_line (by simp [clean,free])]
    simp only [List.length_append]
    by_cases fits : segment.length < limit - front.length
    · rw [if_pos (by omega),if_pos fits]
      simp [Except.map]
    · rw [if_neg (by omega),if_neg fits]
      rfl
  | none =>
    have free := Lines.nextLine_none next
    rw [taken,dropped,nextLine_free (by simp [clean,free])]
    simp only [List.length_append]
    by_cases full : limit - front.length ≤ rest.length
    · rw [if_pos (by omega),if_pos full]
      rfl
    · rw [if_neg (by omega),if_neg full]
      cases ending <;> rfl

theorem lineOf_full (full : limit ≤ front.length) (clean : sep ∉ front.take limit) (rest : List α) (ending : Ending ε) :
    lineOf sep limit (front ++ rest) ending = .ok (front.take limit,front.drop limit ++ rest) := by
  have cut : (front ++ rest).take limit = front.take limit := List.take_append_of_le_length full
  have left : (front ++ rest).drop limit = front.drop limit ++ rest := List.drop_append_of_le_length full
  unfold lineOf
  cases next : nextLine sep (front ++ rest) with
  | some found =>
    obtain ⟨segment,later⟩ := found
    obtain ⟨_,whole⟩ := Lines.nextLine_some next
    have beyond : ¬ segment.length < limit := by
      intro within
      apply clean
      rw [← cut,whole,List.take_append,List.mem_append]
      right
      obtain ⟨n,more⟩ : ∃ n, limit - segment.length = n + 1 := ⟨limit - segment.length - 1,by omega⟩
      rw [more,List.take_succ_cons]
      exact List.mem_cons_self
    rw [cut,left]
    exact if_neg beyond
  | none =>
    rw [cut,left]
    exact if_pos (by rw [List.length_append]; omega)

-- What a reader hands over, and what is left to it, are those of the stream.
structure Reads (expected : Except (Ending ε) (List α × List α)) (ending : Ending ε)
    (out : Except (Ending ε) (List α) × Reader α ε) : Prop where
  same : out.1 = expected.map Prod.fst
  ending : out.2.wire.ending = ending
  left : ∀ line, expected = .ok line → out.2.stream = line.2

theorem readline_exact (size steps limit : Nat) (taken : List α) (s : Reader α ε) (enough : s.wire.unread.length < steps) :
    Reads ((lineOf sep limit s.stream s.wire.ending).map fun line => (taken ++ line.1,line.2)) s.wire.ending
      (readline sep size steps limit taken s) := by
  induction steps generalizing limit taken s with
  | zero => omega
  | succ steps ih =>
    rw [readline]
    cases next : nextLine sep (s.buffer.take limit) with
    | some found =>
      obtain ⟨segment,more⟩ := found
      obtain ⟨clean,window⟩ := Lines.nextLine_some next
      have buffer : s.buffer = segment ++ sep :: (more ++ s.buffer.drop limit) := by
        conv => lhs; rw [← List.take_append_drop limit s.buffer,window]
        simp
      have within : segment.length < limit := by
        have := congrArg List.length window
        rw [List.length_take,List.length_append,List.length_cons] at this
        omega
      have stream : s.stream = segment ++ sep :: (more ++ s.buffer.drop limit ++ s.wire.unread) := by
        rw [Reader.stream]
        conv => lhs; rw [buffer]
        simp
      have line : lineOf sep limit s.stream s.wire.ending =
          .ok (segment ++ [sep],more ++ s.buffer.drop limit ++ s.wire.unread) := by
        rw [stream]
        exact lineOf_line clean within _ _
      rw [line]
      refine ⟨by simp [Except.map],rfl,?_⟩
      rintro _ ⟨⟩
      show s.buffer.drop (segment.length + 1) ++ s.wire.unread = _
      conv => lhs; rw [buffer]
      rw [List.drop_append,List.drop_eq_nil_of_le (by omega),Nat.add_sub_cancel_left]
      rfl
    | none =>
      have clean := Lines.nextLine_none next
      simp only
      split
      · rename_i full
        have reached : limit ≤ s.buffer.length := by
          rw [List.length_take] at full
          omega
        rw [Reader.stream,lineOf_full reached clean]
        exact ⟨rfl,rfl,fun _ same => by cases same; rfl⟩
      · rename_i short
        rw [List.length_take] at short
        have whole : s.buffer.take limit = s.buffer := List.take_of_length_le (by omega)
        rw [whole] at clean ⊢
        rw [Reader.stream,lineOf_append clean (by omega)]
        by_cases some' : s.wire.unread = []
        · rw [recv_none some',some',lineOf_last (by simp) (by simp only [List.length_nil]; omega)]
          cases ending : s.wire.ending with
          | closed =>
            refine ⟨by simp [Except.map],ending,?_⟩
            rintro _ ⟨⟩
            exact some'
          | broken error | silent => exact ⟨rfl,ending,fun _ same => nomatch same⟩
        · obtain ⟨chunk,later,nonempty,cut,received⟩ := recv_some some' size
          rw [received]
          have fewer : later.length < steps := by
            have := List.length_pos_iff.mpr nonempty
            rw [cut,List.length_append] at enough
            omega
          obtain ⟨same,ending,left⟩ := ih (limit - s.buffer.length) (taken ++ s.buffer) ⟨chunk,{s.wire with unread := later}⟩ fewer
          simp only [Reader.stream,← cut] at same ending left
          refine ⟨?_,ending,?_⟩
          · rw [same]
            cases lineOf sep (limit - s.buffer.length) s.wire.unread s.wire.ending <;> simp [Except.map]
          · intro line expected
            cases found : lineOf sep (limit - s.buffer.length) s.wire.unread s.wire.ending with
            | error _ => rw [found] at expected; cases expected
            | ok rest =>
              rw [found] at expected left
              cases expected
              exact left _ (by simp [Except.map])

end AgentSideCar.Inbound
