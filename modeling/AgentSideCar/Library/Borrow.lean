import Mathlib.Data.List.Basic

namespace AgentSideCar.Borrow
variable {ν : Type} [DecidableEq ν]

-- A value that others write too is borrowed: the borrower writes its own over
-- it and gives the original back. Every write is recorded with the value it
-- replaced, the borrower's own as well; the borrower learns of the writes of
-- others from these records alone, and tells its own by what it expects.
structure Loan (ν : Type) where
  original : ν
  written : ν

@[ext]
structure Cell (ν : Type) where
  value : ν
  loan : Option (Loan ν) := none
  contested : Bool := false
  pending : List ν := []
  recorded : List ν := []

namespace Cell

def hear (c : Cell ν) (old : ν) : Cell ν :=
  if c.pending.head? = some old then {c with pending := c.pending.tail}
  else if c.loan.isSome then {c with loan := none, contested := true} else c

def audit (c : Cell ν) : Cell ν :=
  match c.loan with
  | some l => if c.value = l.written then c else {c with loan := none, contested := true}
  | none => c

-- `seen` tells whether a write is recorded at all.
def giveBack (seen : Bool) (c : Cell ν) : Cell ν :=
  match c.loan with
  | some l =>
    if c.value = l.written then
      {c with
        value := l.original, loan := none, contested := false
        pending := c.pending ++ [c.value], recorded := c.recorded ++ if seen then [c.value] else []}
    else {c with loan := none, contested := false}
  | none => {c with contested := false}

def borrow (seen : Bool) (target : ν) (free : ν → Bool) (c : Cell ν) : Cell ν :=
  if c.contested then c
  else match c.loan with
  | some l => if c.value = l.written then c else {c with loan := none, contested := true}
  | none =>
    if free c.value then
      {c with
        value := target, loan := some ⟨c.value,target⟩
        pending := c.pending ++ [c.value], recorded := c.recorded ++ if seen then [c.value] else []}
    else c

-- Another's write; `told` tells whether it is recorded.
def foreign (told : Bool) (v : ν) (c : Cell ν) : Cell ν :=
  {c with value := v, recorded := c.recorded ++ if told then [c.value] else []}

-- All records are delivered; the borrower may not heed those of this value.
def deliver (heeds : Bool) (c : Cell ν) : Cell ν :=
  if heeds then c.recorded.foldl hear {c with recorded := []} else {c with recorded := []}

-- Whether the borrower's own write happens here.
def writes (wanted : Bool) (free : ν → Bool) (c : Cell ν) : Bool :=
  match c.loan with
  | some l => !wanted && decide (c.value = l.written)
  | none => wanted && !c.contested && free c.value

-- `left` is what the others left here. While a value is borrowed it is the
-- original, and every record still to come is of an own write; or others wrote
-- since, and there is a record that tells, or the value itself does.
def Kept (heeds : Bool) (left : ν) (c : Cell ν) : Prop :=
  match c.loan with
  | none => c.value = left
  | some l =>
    (c.value = l.written ∧ left = l.original ∧ (heeds = true → c.recorded = c.pending)) ∨
    (c.value = left ∧ (heeds = true → ∃ late, late ≠ [] ∧ c.recorded = c.pending ++ late) ∧
      (heeds = false → c.value ≠ l.written))

-- The same when no record is outstanding, whatever the borrower still expects.
def Settled (left : ν) (c : Cell ν) : Prop :=
  match c.loan with
  | none => c.value = left
  | some l => (c.value = l.written ∧ left = l.original) ∨ (c.value = left ∧ c.value ≠ l.written)

def Clean (left : ν) (c : Cell ν) : Prop :=
  match c.loan with
  | none => c.value = left
  | some l => c.value = l.written ∧ left = l.original

variable {heeds seen told wanted : Bool} {left target v : ν} {free : ν → Bool} {c : Cell ν} {l : Loan ν}

theorem giveBack_twice : giveBack seen (giveBack seen c) = giveBack seen c := by
  unfold giveBack
  cases c.loan with
  | none => rfl
  | some l => by_cases same : c.value = l.written <;> simp [same]

theorem borrow_twice : borrow seen target free (borrow seen target free c) = borrow seen target free c := by
  unfold borrow
  by_cases contested : c.contested = true
  · simp [contested]
  · cases held : c.loan with
    | none => by_cases open' : free c.value = true <;> simp [contested,held,open']
    | some l => by_cases same : c.value = l.written <;> simp [contested,held,same]

theorem audit_twice : c.audit.audit = c.audit := by
  unfold audit
  cases held : c.loan with
  | none => simp [held]
  | some l => by_cases same : c.value = l.written <;> simp [held,same]

theorem giveBack_free (free : c.loan = none) (calm : c.contested = false) : c.giveBack seen = c := by
  cases c
  simp_all [giveBack]

theorem audit_free (free : c.loan = none) : c.audit = c := by
  unfold audit
  rw [free]

theorem audit_outstanding : c.audit.pending = c.pending ∧ c.audit.recorded = c.recorded := by
  unfold audit
  cases c.loan with
  | none => exact ⟨rfl,rfl⟩
  | some l => by_cases same : c.value = l.written <;> simp [same]

theorem giveBack_loan : (giveBack seen c).loan = none := by
  unfold giveBack
  cases c.loan with
  | none => rfl
  | some l => by_cases same : c.value = l.written <;> simp [same]

theorem audit_loan (held : c.audit.loan = some l) : c.loan = some l := by
  unfold audit at held
  cases old : c.loan with
  | none => rw [old] at held; simp [old] at held
  | some before =>
    rw [old] at held
    by_cases same : c.value = before.written
    · simpa [same,old] using held
    · simp [same] at held

theorem heard_loan {late : List ν} (held : (late.foldl hear c).loan = some l) : c.loan = some l := by
  induction late generalizing c with
  | nil => exact held
  | cons old rest ih =>
    have one := ih held
    unfold hear at one
    split at one
    · exact one
    · split at one
      · cases one
      · exact one

theorem borrow_loan (held : (c.borrow seen target free).loan = some l) : c.loan = some l ∨ l.written = target := by
  unfold borrow at held
  split at held
  · exact .inl held
  cases old : c.loan with
  | none =>
    rw [old] at held
    by_cases open' : free c.value = true
    · simp only [open',if_true] at held
      cases Option.some.inj held
      exact .inr rfl
    · simp [open',old] at held
  | some before =>
    rw [old] at held
    by_cases same : c.value = before.written
    · simp only [same,if_true,old] at held
      exact .inl held
    · simp [same] at held

omit [DecidableEq ν] in
theorem kept_foreign (kept : c.Kept heeds left) (heard : c.loan.isSome = true → heeds = true → told = true)
    (apart : ∀ l, c.loan = some l → heeds = false → v ≠ l.written) : (c.foreign told v).Kept heeds v := by
  unfold Kept at kept
  cases held : c.loan with
  | none => simp [Kept,foreign,held]
  | some l =>
    rw [held] at kept
    have late : heeds = true → ∃ late, late ≠ [] ∧ c.recorded ++ [c.value] = c.pending ++ late := by
      intro heed
      rcases kept with ⟨_,_,same⟩ | ⟨_,more,_⟩
      · exact ⟨[c.value],List.cons_ne_nil _ _,by rw [same heed]⟩
      · obtain ⟨late,_,same⟩ := more heed
        exact ⟨late ++ [c.value],by simp,by rw [same,List.append_assoc]⟩
    have goal : (c.foreign told v).loan = some l := held
    unfold Kept
    rw [goal]
    refine .inr ⟨rfl,fun heed => ?_,apart l held⟩
    have recorded : told = true := heard (by rw [held]; rfl) heed
    simpa [foreign,recorded] using late heed

theorem hear_expected (expected late : List ν) (c : Cell ν) (waits : c.pending = expected) :
    (expected ++ late).foldl hear c =
      late.foldl hear {c with pending := []} := by
  induction expected generalizing c with
  | nil => cases c; cases waits; rfl
  | cons old rest ih =>
    have first : hear c old = {c with pending := rest} := by simp [hear,waits]
    rw [List.cons_append,List.foldl_cons,first,ih _ rfl]

theorem hear_loose (late : List ν) (c : Cell ν) (free : c.loan = none) :
    (late.foldl hear c).loan = none ∧ (late.foldl hear c).value = c.value := by
  induction late generalizing c with
  | nil => exact ⟨free,rfl⟩
  | cons old rest ih =>
    have one : (hear c old).loan = none ∧ (hear c old).value = c.value := by
      unfold hear
      split
      · exact ⟨free,rfl⟩
      · simp [free]
    rw [List.foldl_cons]
    exact ⟨(ih _ one.1).1,(ih _ one.1).2.trans one.2⟩

theorem hear_late (late : List ν) (some' : late ≠ []) (c : Cell ν) (held : c.loan = some l) (empty : c.pending = []) :
    (late.foldl hear c).loan = none ∧ (late.foldl hear c).value = c.value := by
  cases late with
  | nil => exact absurd rfl some'
  | cons old rest =>
    rw [List.foldl_cons]
    have one : hear c old = {c with
      loan := none
      contested := true} := by simp [hear,held,empty]
    rw [one]
    exact hear_loose rest _ rfl

-- After a delivery the borrower holds only what no one else wrote.
theorem kept_deliver (kept : c.Kept heeds left) : (c.deliver heeds).Kept heeds left ∧ Settled left (c.deliver heeds) := by
  unfold Kept at kept
  cases held : c.loan with
  | none =>
    rw [held] at kept
    have loose : (c.deliver heeds).loan = none ∧ (c.deliver heeds).value = c.value := by
      unfold deliver
      split
      · exact hear_loose c.recorded _ held
      · exact ⟨held,rfl⟩
    simp only [Kept,Settled,loose]
    exact ⟨kept,kept⟩
  | some l =>
    rw [held] at kept
    cases heeds with
    | false =>
      have same : c.deliver false = {c with recorded := []} := rfl
      simp only [Kept,Settled,same,held]
      rcases kept with ⟨clean,origin,_⟩ | ⟨touched,_,apart⟩
      · exact ⟨.inl ⟨clean,origin,nofun⟩,.inl ⟨clean,origin⟩⟩
      · exact ⟨.inr ⟨touched,nofun,fun _ => apart rfl⟩,.inr ⟨touched,apart rfl⟩⟩
    | true =>
      rcases kept with ⟨clean,origin,matched⟩ | ⟨touched,more,_⟩
      · have same : c.deliver true = {c with
            pending := []
            recorded := []} := by
          have expected := hear_expected c.pending [] {c with recorded := []} rfl
          rw [List.append_nil] at expected
          rw [deliver,if_pos rfl,matched rfl,expected,List.foldl_nil]
        simp only [Kept,Settled,same,held]
        exact ⟨.inl ⟨clean,origin,fun _ => trivial⟩,.inl ⟨clean,origin⟩⟩
      · obtain ⟨late,nonempty,recorded⟩ := more rfl
        have heard := hear_late (l := l) late nonempty {c with
          pending := []
          recorded := []} held rfl
        have loose : (c.deliver true).loan = none ∧ (c.deliver true).value = c.value := by
          rw [deliver,if_pos rfl,recorded,hear_expected c.pending late {c with recorded := []} rfl]
          exact heard
        simp only [Kept,Settled,loose]
        exact ⟨touched,touched⟩

theorem kept_audit (kept : c.Kept heeds left) : c.audit.Kept heeds left := by
  unfold audit
  cases held : c.loan with
  | none => exact kept
  | some l =>
    show Kept heeds left (if _ then _ else _)
    split
    · exact kept
    · rename_i differs
      simp only [Kept,held] at kept ⊢
      rcases kept with ⟨clean,_⟩ | ⟨touched,_⟩
      · exact absurd clean differs
      · exact touched

theorem settled_audit (settled : Settled left c) : Clean left c.audit := by
  unfold audit
  cases held : c.loan with
  | none =>
    simp only [Settled,Clean,held] at settled ⊢
    exact settled
  | some l =>
    show Clean left (if _ then _ else _)
    simp only [Settled,held] at settled
    split
    · rename_i own
      simp only [Clean,held]
      rcases settled with clean | ⟨_,differs⟩
      · exact clean
      · exact absurd own differs
    · rename_i differs
      rcases settled with ⟨clean,_⟩ | ⟨touched,_⟩
      · exact absurd clean differs
      · exact touched

theorem clean_giveBack (clean : Clean left c) : Clean left (c.giveBack seen) := by
  unfold giveBack
  cases held : c.loan with
  | none =>
    simp only [Clean,held] at clean ⊢
    exact clean
  | some l =>
    simp only [Clean,held] at clean
    show Clean left (if _ then _ else _)
    rw [if_pos clean.1]
    exact clean.2.symm

theorem clean_borrow (clean : Clean left c) : Clean left (c.borrow seen target free) := by
  unfold borrow
  split
  · exact clean
  cases held : c.loan with
  | none =>
    show Clean left (if _ then _ else _)
    split
    · simp only [Clean,held] at clean ⊢
      exact ⟨trivial,clean.symm⟩
    · exact clean
  | some l =>
    show Clean left (if _ then _ else _)
    simp only [Clean,held] at clean
    rw [if_pos clean.1]
    simp only [Clean,held]
    exact clean

omit [DecidableEq ν] in
theorem kept_of_clean (clean : Clean left c) : Kept heeds left {c with pending := [], recorded := []} := by
  unfold Clean at clean
  cases held : c.loan with
  | none => simpa [Kept,held] using clean
  | some l =>
    rw [held] at clean
    simpa [Kept,held] using .inl clean

omit [DecidableEq ν] in
theorem kept_clear (kept : c.Kept heeds left) (told : c.recorded = []) :
    Kept heeds left {c with pending := [], recorded := []} := by
  unfold Kept at kept
  cases held : c.loan with
  | none => simpa [Kept,held] using kept
  | some l =>
    simp only [held] at kept
    simp only [Kept]
    rcases kept with ⟨clean,origin,_⟩ | ⟨touched,more,apart⟩
    · exact .inl ⟨clean,origin,fun _ => trivial⟩
    · cases heeds with
      | false => exact .inr ⟨touched,nofun,fun _ => apart rfl⟩
      | true =>
        obtain ⟨late,nonempty,recorded⟩ := more rfl
        rw [told] at recorded
        exact absurd (List.append_eq_nil_iff.mp recorded.symm).2 nonempty

theorem kept_giveBack {s : Bool} {f : ν → Bool} (kept : c.Kept heeds left)
    (matched : c.writes false f = true → heeds = true → c.recorded = c.pending) :
    (c.giveBack s).Kept heeds left := by
  unfold giveBack
  cases held : c.loan with
  | none =>
    simp only [Kept,held] at kept ⊢
    exact kept
  | some l =>
    show Kept heeds left (if _ then _ else _)
    split
    · rename_i own
      have same := matched (by simp [writes,held,own])
      simp only [Kept,held] at kept ⊢
      rcases kept with ⟨_,origin,_⟩ | ⟨_,more,apart⟩
      · exact origin.symm
      · cases heeds with
        | false => exact absurd own (apart rfl)
        | true =>
          obtain ⟨late,nonempty,recorded⟩ := more rfl
          rw [same rfl] at recorded
          exact absurd (List.append_cancel_left ((List.append_nil _).trans recorded)).symm nonempty
    · rename_i differs
      simp only [Kept,held] at kept ⊢
      rcases kept with ⟨clean,_⟩ | ⟨touched,_⟩
      · exact absurd clean differs
      · exact touched

theorem kept_borrow (kept : c.Kept heeds left) (recorded : seen = true)
    (matched : c.writes true free = true → heeds = true → c.recorded = c.pending) :
    (c.borrow seen target free).Kept heeds left := by
  unfold borrow
  split
  · exact kept
  rename_i loose
  cases held : c.loan with
  | none =>
    show Kept heeds left (if _ then _ else _)
    split
    · rename_i own
      have same := matched (by simp [writes,held,own,loose])
      simp only [Kept,held] at kept ⊢
      exact .inl ⟨trivial,kept.symm,fun heed => by simp [same heed]⟩
    · exact kept
  | some l =>
    show Kept heeds left (if _ then _ else _)
    split
    · exact kept
    · rename_i differs
      simp only [Kept,held] at kept ⊢
      rcases kept with ⟨clean,_⟩ | ⟨touched,_⟩
      · exact absurd clean differs
      · exact touched

end Cell

theorem view_foldl {σ κ γ : Type} [DecidableEq κ] {g : σ → Prop} {v : σ → κ → γ} {h : σ → κ → σ} {f : κ → γ → γ}
    (own : ∀ s k j, g s → v (h s k) j = if j = k then f k (v s k) else v s j)
    (kept : ∀ s k, g s → g (h s k)) (twice : ∀ k c, f k (f k c) = f k c)
    (keys : List κ) (s : σ) (start : g s) (j : κ) :
    (j ∈ keys → v (keys.foldl h s) j = f j (v s j)) ∧ (j ∉ keys → v (keys.foldl h s) j = v s j) := by
  induction keys generalizing s with
  | nil => simp
  | cons k rest ih =>
    have later := ih (h s k) (kept s k start)
    have one := own s k j start
    rw [List.foldl_cons]
    by_cases here : j = k
    · subst here
      rw [if_pos rfl] at one
      rw [one,twice] at later
      refine ⟨fun _ => ?_,fun absent => absurd List.mem_cons_self absent⟩
      by_cases again : j ∈ rest
      · exact later.1 again
      · exact later.2 again
    · rw [if_neg here] at one
      rw [one] at later
      simpa [here] using later

end AgentSideCar.Borrow
