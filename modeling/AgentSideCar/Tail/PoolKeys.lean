import AgentSideCar.Tail.TailerPool

namespace AgentSideCar.TailerPool
open Runs
variable {κ τ γ ε ω : Type} {h : Hooks κ τ γ ε ω} {o : Options} {k key : κ}

-- All the pool holds of one session, and the polls of it in this refresh.
structure Slot (τ γ ω : Type) where
  tailer : Option τ
  path : Option String
  checkpoint : Option (String × γ)
  pending : Bool
  polls : List (Outcome × ω)

-- A tailer and its path come and go together, no checkpoint stands beside a tailer, and
-- only a tailer is pending.
structure Slot.Fits (s : Slot τ γ ω) : Prop where
  paths : s.path.isSome = s.tailer.isSome
  apart : s.tailer.isSome = true → s.checkpoint = none
  pending : s.pending = true → s.tailer.isSome = true

theorem pollTailer_unread (t : τ) (single : Bool) (steps : Nat) (w : ω)
    (unread : hasUnreadData h t (pollTailer h t single steps w).2 = true) :
    ∀ more, (pollTailer h t single steps w).1 = .ended more → more = true := by
  induction steps generalizing w with
  | zero => intro more ended; cases ended; rfl
  | succ steps ih =>
    intro more ended
    unfold pollTailer at unread ended
    generalize h.poll t w = polled at unread ended
    obtain ⟨_ | events,w⟩ := polled
    · cases ended
    · simp only at unread ended
      generalize publishAll h events w = published at unread ended
      obtain ⟨_ | _,w⟩ := published
      · cases ended
      · simp only at unread ended
        split at ended
        · rename_i alone
          rw [if_pos alone] at unread
          cases ended
          exact unread
        · rename_i many
          rw [if_neg many] at unread
          split at ended
          · rename_i quiet
            rw [if_pos quiet] at unread
            simp [unread] at quiet
          · rename_i loud
            rw [if_neg loud] at unread
            exact ih w unread more ended

theorem foldl_loop {σ : Type} (step : κ → σ → σ) (keys : List κ) (s : σ) :
    loop (fun key s => (true,step key s)) keys s = (true,keys.foldl (fun s key => step key s) s) := by
  induction keys generalizing s with
  | nil => rfl
  | cons key rest ih => exact ih (step key s)

-- A poll of a tailer is noted, and leaves it pending unless it raised or nothing is unread.
def Noted (h : Hooks κ τ γ ε ω) (t : τ) (before after : Slot τ γ ω) : Prop := ∃ outcome w,
  outcome ≠ .escaped ∧ after.polls = before.polls ++ [(outcome,w)] ∧
    (outcome ≠ .raised → hasUnreadData h t w = true → after.pending = true)

theorem Noted.begins {earlier before after : Slot τ γ ω} (noted : Noted h t before after) (same : before.polls = earlier.polls) :
    Noted h t earlier after := by
  rw [Noted,← same]
  exact noted

section Keyed
variable [DecidableEq κ] {s s' s'' : State κ τ γ ω}

def slot (s : State κ τ γ ω) (k : κ) : Slot τ γ ω where
  tailer := s.pool.tailers.get k
  path := s.pool.paths.get k
  checkpoint := s.pool.checkpoints.get k
  pending := decide (k ∈ s.pool.pending)
  polls := (s.polls.filter fun polled => polled.1 = k).map Prod.snd

-- What a step on one key keeps: every other slot, and that its own fits.
structure Local (key : κ) (s s' : State κ τ γ ω) : Prop where
  frame : ∀ k, k ≠ key → slot s' k = slot s k
  fits : (slot s key).Fits → (slot s' key).Fits
  known : s'.pool.knownKeys = s.pool.knownKeys
  closed : s'.pool.closed = s.pool.closed

theorem Local.refl (key : κ) (s : State κ τ γ ω) : Local key s s := ⟨fun _ _ => rfl,id,rfl,rfl⟩

theorem Local.trans (first : Local key s s') (second : Local key s' s'') : Local key s s'' where
  frame k apart := (second.frame k apart).trans (first.frame k apart)
  fits := second.fits ∘ first.fits
  known := second.known.trans first.known
  closed := second.closed.trans first.closed

theorem drop_frame (retain : Bool) (s : State κ τ γ ω) (apart : k ≠ key) : slot (drop h retain key s) k = slot s k := by
  unfold drop
  cases s.pool.tailers.get key with
  | none => cases retain <;> simp [slot,Dict.get_erase,apart]
  | some t =>
    cases retain with
    | false => simp [slot,Dict.get_erase,apart]
    | true =>
      simp only [if_true]
      cases s.pool.paths.get key with
      | none => simp [slot,Dict.get_erase,apart]
      | some path => cases (h.exportCheckpoint t s.world).1 <;> simp [slot,Dict.get_erase,Dict.get_set,apart]

theorem drop_slot (retain : Bool) (s : State κ τ γ ω) :
    (slot (drop h retain key s) key).tailer = none ∧ (slot (drop h retain key s) key).path = none ∧
      (slot (drop h retain key s) key).pending = false ∧ (slot (drop h retain key s) key).polls = (slot s key).polls ∧
      (retain = false → (slot (drop h retain key s) key).checkpoint = none) := by
  unfold drop
  cases s.pool.tailers.get key with
  | none => cases retain <;> simp [slot,Dict.get_erase]
  | some t => cases retain <;> simp [slot,Dict.get_erase]

theorem drop_local (retain : Bool) (s : State κ τ γ ω) : Local key s (drop h retain key s) := by
  obtain ⟨tailer,path,pending,_,_⟩ := @drop_slot _ _ _ _ _ h key _ retain s
  refine ⟨fun k => drop_frame retain s,fun _ => ⟨by rw [tailer,path]; rfl,by rw [tailer]; nofun,by rw [pending]; nofun⟩,?_,?_⟩
  · unfold drop
    cases s.pool.tailers.get key <;> cases retain <;> rfl
  · unfold drop
    cases s.pool.tailers.get key <;> cases retain <;> rfl

theorem capture_local (session : Session κ) (s : State κ τ γ ω) (idle : (slot s key).tailer = none) :
    Local key s (captureInitialCheckpoint h key session s) ∧
      (slot (captureInitialCheckpoint h key session s) key).tailer = none := by
  have without : ∀ w, Local key s {s with
      pool := {s.pool with
        checkpoints := s.pool.checkpoints.erase key}
      world := w} := fun w => by
    refine ⟨fun k apart => by simp [slot,Dict.get_erase,apart],fun fits => ?_,rfl,rfl⟩
    exact ⟨fits.paths,fun _ => by simp [slot,Dict.get_erase],fits.pending⟩
  unfold captureInitialCheckpoint
  simp only
  split
  · exact ⟨without _,idle⟩
  split
  · exact ⟨without _,idle⟩
  rcases h.make session false s.world with ⟨t | _ | _,w⟩
  · simp only
    rcases h.exportCheckpoint t w with ⟨_ | checkpoint,w⟩
    · exact ⟨without _,idle⟩
    · refine ⟨⟨fun k apart => by simp [slot,Dict.get_erase,Dict.get_set,apart],fun fits => ?_,rfl,rfl⟩,idle⟩
      refine ⟨fits.paths,fun active => ?_,fits.pending⟩
      change (slot s key).tailer.isSome = true at active
      rw [idle] at active
      cases active
  · exact ⟨without _,idle⟩
  · exact ⟨without _,idle⟩

theorem mark_self (outcome : Outcome) (pending : List κ) : key ∈ mark outcome key pending ↔
    outcome = .ended true ∨ outcome = .escaped ∧ key ∈ pending := by
  cases outcome with
  | raised => simp [mark]
  | escaped => simp [mark]
  | ended more =>
    cases more with
    | false => simp [mark]
    | true =>
      rw [mark]
      split <;> simp_all

theorem mark_other (outcome : Outcome) (pending : List κ) (apart : k ≠ key) :
    k ∈ mark outcome key pending ↔ k ∈ pending := by
  cases outcome with
  | raised => simp [mark,apart]
  | escaped => rfl
  | ended more =>
    cases more with
    | false => simp [mark,apart]
    | true =>
      rw [mark]
      split <;> simp [apart]

theorem pollKey_local (t : τ) (s : State κ τ γ ω) (active : (slot s key).tailer = some t) :
    Local key s (pollKey h o key t s).2 ∧
      ((pollKey h o key t s).1 = true → Noted h t (slot s key) (slot (pollKey h o key t s).2 key)) ∧
      (slot (pollKey h o key t s).2 key).tailer = some t := by
  simp only [pollKey]
  have unread := @pollTailer_unread _ _ _ _ _ h t (h.singlePoll t s.world)
    (if h.singlePoll t s.world = true then 1 else o.maxEventPolls) s.world
  generalize pollTailer h t _ _ s.world = polled at unread ⊢
  obtain ⟨outcome,w⟩ := polled
  refine ⟨⟨fun k apart => ?_,fun fits => ?_,rfl,rfl⟩,fun returned => ⟨outcome,w,of_decide_eq_true returned,?_,?_⟩,active⟩
  · have other : (key = k) = False := by simp [Ne.symm apart]
    simp [slot,mark_other _ _ apart,List.filter_append,other]
  · exact ⟨fits.paths,fits.apart,fun _ => by change (slot s key).tailer.isSome = true; rw [active]; rfl⟩
  · simp [slot,List.filter_append]
  · intro calm left
    cases outcome with
    | raised => exact absurd rfl calm
    | escaped => simp at returned
    | ended more =>
      have := unread left more rfl
      subst this
      simp [slot,mark_self]

theorem openTailer_local (initial newSession : Bool) (session : Session κ) (s : State κ τ γ ω)
    (idle : (slot s key).tailer = none) :
    Local key s (openTailer h initial newSession key session s).2.2 ∧
      (slot (openTailer h initial newSession key session s).2.2 key).tailer = (openTailer h initial newSession key session s).1 ∧
      ((openTailer h initial newSession key session s).1 = none ∨ (openTailer h initial newSession key session s).2.1 = true) ∧
      (slot (openTailer h initial newSession key session s).2.2 key).polls = (slot s key).polls := by
  have kept : ∀ (saved : Option γ) w, Local key s {s with
      pool := {s.pool with
        checkpoints := if saved.isSome then s.pool.checkpoints else s.pool.checkpoints.erase key}
      world := w} := fun saved w => by
    refine ⟨fun k apart => ?_,fun fits => ⟨fits.paths,fun active => ?_,fits.pending⟩,rfl,rfl⟩
    · cases saved <;> simp [slot,Dict.get_erase,apart]
    · change (slot s key).tailer.isSome = true at active
      rw [idle] at active
      cases active
  unfold openTailer
  simp only
  generalize savedCheckpoint key session s.pool = checkpoint
  rcases makeResumableTailer h session (newSession && !initial) checkpoint s.world with ⟨⟨t | _ | _,w⟩,consumed⟩
  · refine ⟨⟨fun k apart => by simp [slot,Dict.get_erase,Dict.get_set,apart],fun _ => ?_,rfl,rfl⟩,?_,.inr rfl,rfl⟩
    · exact ⟨by simp [slot,Dict.get_set],fun _ => by simp [slot,Dict.get_erase],fun _ => by simp [slot,Dict.get_set]⟩
    · simp [slot,Dict.get_set]
  · exact ⟨kept _ w,idle,.inl rfl,rfl⟩
  · exact ⟨kept _ w,idle,.inl rfl,rfl⟩

theorem attach_local (initial newSession : Bool) (session : Session κ) (s : State κ τ γ ω) :
    Local key s (attach h initial newSession key session s).2.2 ∧
      (slot (attach h initial newSession key session s).2.2 key).tailer = (attach h initial newSession key session s).1 ∧
      (slot (attach h initial newSession key session s).2.2 key).polls = (slot s key).polls := by
  have moved : ∃ m, (if (s.pool.tailers.get key).isSome && s.pool.paths.get key ≠ some session.transcript then
      drop h false key s else s) = m ∧ Local key s m ∧ (slot m key).polls = (slot s key).polls := by
    refine ⟨_,rfl,?_⟩
    split
    · exact ⟨drop_local false s,(drop_slot false s).2.2.2.1⟩
    · exact ⟨.refl key s,rfl⟩
  obtain ⟨m,shape,before,polls⟩ := moved
  simp only [attach]
  rw [shape]
  cases active : m.pool.tailers.get key with
  | some t => exact ⟨before.trans ⟨fun _ _ => rfl,id,rfl,rfl⟩,active,polls⟩
  | none =>
    obtain ⟨opened,tailer,_,same⟩ := @openTailer_local _ _ _ _ _ h key _ initial newSession session m active
    exact ⟨before.trans opened,tailer,same.trans polls⟩

theorem update_local (initial newSession : Bool) (now : Int) (session : Session κ) (s : State κ τ γ ω)
    (ready : shouldTail o now session = false → (slot s key).tailer = none) :
    Local key s (update h o initial newSession now key session s).2 ∧
      ((slot (update h o initial newSession now key session s).2 key).tailer.isSome = true → shouldTail o now session = true) ∧
      ((update h o initial newSession now key session s).1 = true → initial = false → ∀ t,
        (slot (update h o initial newSession now key session s).2 key).tailer = some t →
          Noted h t (slot s key) (slot (update h o initial newSession now key session s).2 key)) := by
  unfold update
  cases policy : shouldTail o now session with
  | false =>
    simp only [Bool.not_false,if_true]
    cases initial with
    | true =>
      obtain ⟨kept,idle⟩ := @capture_local _ _ _ _ _ h key _ session s (ready policy)
      exact ⟨kept,fun active => by simp [idle] at active,nofun⟩
    | false =>
      have gone := (@drop_slot _ _ _ _ _ h key _ true s).1
      exact ⟨drop_local true s,fun active => by simp [gone] at active,fun _ _ t active => by simp [gone] at active⟩
  | true =>
    simp only [Bool.not_true,Bool.false_eq_true,if_false]
    obtain ⟨attached,tailer,polls⟩ := @attach_local _ _ _ _ _ h key _ initial newSession session s
    generalize attach h initial newSession key session s = result at attached tailer polls ⊢
    obtain ⟨_ | t,returned,m⟩ := result
    · exact ⟨attached,fun _ => trivial,fun _ _ t active => by simp [tailer] at active⟩
    · cases initial with
      | true => exact ⟨attached,fun _ => trivial,nofun⟩
      | false =>
        obtain ⟨polled,noted,same⟩ := @pollKey_local _ _ _ _ _ h o key _ t m tailer
        refine ⟨attached.trans polled,fun _ => trivial,fun returned _ t' active => ?_⟩
        cases same.symm.trans active
        obtain ⟨outcome,w,calm,note,waits⟩ := noted returned
        exact ⟨outcome,w,calm,note.trans (congrArg (· ++ [(outcome,w)]) polls),waits⟩

theorem loop_local {body : κ → State κ τ γ ω → Bool × State κ τ γ ω} {ready : κ → Slot τ γ ω → Prop}
    (steps : ∀ key s, ready key (slot s key) → Local key s (body key s).2) (keys : List κ) (unique : keys.Nodup)
    (s : State κ τ γ ω) (all : ∀ key ∈ keys, ready key (slot s key)) :
    (∀ k, k ∉ keys → slot (loop body keys s).2 k = slot s k) ∧
      ((∀ k, (slot s k).Fits) → ∀ k, (slot (loop body keys s).2 k).Fits) ∧
      (loop body keys s).2.pool.knownKeys = s.pool.knownKeys ∧ (loop body keys s).2.pool.closed = s.pool.closed ∧
      ((loop body keys s).1 = true → ∀ k ∈ keys, ∃ m, slot m k = slot s k ∧ (body k m).1 = true ∧
        slot (body k m).2 k = slot (loop body keys s).2 k) := by
  induction keys generalizing s with
  | nil => exact ⟨fun _ _ => rfl,id,rfl,rfl,fun _ _ inside => by cases inside⟩
  | cons key rest ih =>
    obtain ⟨fresh,unique⟩ := List.nodup_cons.mp unique
    have step := steps key s (all key List.mem_cons_self)
    have fits : (∀ k, (slot s k).Fits) → ∀ k, (slot (body key s).2 k).Fits := fun fits k => by
      by_cases same : k = key
      · exact same ▸ step.fits (fits key)
      · rw [step.frame k same]
        exact fits k
    rw [loop]
    generalize moved : body key s = result at step fits
    obtain ⟨_ | _,m⟩ := result
    · exact ⟨fun k apart => step.frame k fun same => apart (same ▸ List.mem_cons_self),fits,step.known,step.closed,nofun⟩
    · simp only at step fits ⊢
      obtain ⟨others,later,known,closed,each⟩ := ih unique m fun k inside => by
        rw [step.frame k fun same => fresh (same ▸ inside)]
        exact all k (List.mem_cons_of_mem _ inside)
      refine ⟨fun k apart => ?_,later ∘ fits,known.trans step.known,closed.trans step.closed,fun returned k inside => ?_⟩
      · rw [others k fun inside => apart (List.mem_cons_of_mem _ inside)]
        exact step.frame k fun same => apart (same ▸ List.mem_cons_self)
      · rcases List.mem_cons.mp inside with rfl | inside
        · exact ⟨s,rfl,by rw [moved],by rw [moved,others k fresh]⟩
        · obtain ⟨before,same,rest'⟩ := each returned k inside
          exact ⟨before,same.trans (step.frame k fun same => fresh (same ▸ inside)),rest'⟩

theorem foldl_local {step : κ → State κ τ γ ω → State κ τ γ ω} (steps : ∀ key s, Local key s (step key s)) (keys : List κ)
    (unique : keys.Nodup) (s : State κ τ γ ω) :
    (∀ k, k ∉ keys → slot (keys.foldl (fun s key => step key s) s) k = slot s k) ∧
      ((∀ k, (slot s k).Fits) → ∀ k, (slot (keys.foldl (fun s key => step key s) s) k).Fits) ∧
      (keys.foldl (fun s key => step key s) s).pool.knownKeys = s.pool.knownKeys ∧
      (keys.foldl (fun s key => step key s) s).pool.closed = s.pool.closed ∧
      ∀ k ∈ keys, ∃ m, slot m k = slot s k ∧ slot (step k m) k = slot (keys.foldl (fun s key => step key s) s) k := by
  have looped := @loop_local _ _ _ _ _ (fun key s => (true,step key s)) (fun _ _ => True) (fun key s _ => steps key s) keys
    unique s fun _ _ => trivial
  rw [foldl_loop] at looped
  obtain ⟨others,fits,known,closed,each⟩ := looped
  refine ⟨others,fits,known,closed,fun k inside => ?_⟩
  obtain ⟨m,same,_,moved⟩ := each rfl k inside
  exact ⟨m,same,moved⟩

end Keyed

section Refreshed
variable [LinearOrder κ] {e : Refresh κ} {s s' : State κ τ γ ω}

-- The session of a key in the snapshot is one to tail.
def Tails (o : Options) (e : Refresh κ) (k : κ) : Prop :=
  ∃ session, (currentOf e).get k = some session ∧ shouldTail o e.now session = true

theorem expire_local (key : κ) (s : State κ τ γ ω) : Local key s (expire h o e key s) := by
  unfold expire
  split
  · exact drop_local false s
  · split
    · exact .refl key s
    · exact drop_local true s

-- An expired slot is as before, its session one to tail, or it is emptied but for a
-- checkpoint of a session of the snapshot.
theorem expire_slot (key : κ) (s : State κ τ γ ω) :
    (slot (expire h o e key s) key = slot s key ∧ Tails o e key) ∨
      ((slot (expire h o e key s) key).tailer = none ∧ (slot (expire h o e key s) key).polls = (slot s key).polls ∧
        ((slot (expire h o e key s) key).checkpoint.isSome = true → key ∈ (currentOf e).keys)) := by
  unfold expire
  split
  · obtain ⟨tailer,_,_,polls,saved⟩ := @drop_slot _ _ _ _ _ h key _ false s
    exact .inr ⟨tailer,polls,fun kept => by simp [saved rfl] at kept⟩
  · rename_i session found
    split
    · rename_i tailed
      exact .inl ⟨rfl,session,found,tailed⟩
    · obtain ⟨tailer,_,_,polls,_⟩ := @drop_slot _ _ _ _ _ h key _ true s
      exact .inr ⟨tailer,polls,fun _ => (Dict.mem_keys _).mpr ⟨session,found⟩⟩

-- What is left of a slot before the snapshot is worked through.
structure Stale (o : Options) (e : Refresh κ) (known : List κ) (k : κ) (before after : Slot τ γ ω) : Prop where
  same : after.tailer.isSome = true → after = before ∧ Tails o e k
  polls : after.polls = before.polls
  held : (before.tailer.isSome = true ∨ before.checkpoint.isSome = true → k ∈ known) →
    after.checkpoint.isSome = true → k ∈ (currentOf e).keys

theorem stale_slot (e : Refresh κ) (s : State κ τ γ ω) (unique : s.pool.knownKeys.Nodup) (fits : ∀ k, (slot s k).Fits) :
    (∀ k, Stale o e s.pool.knownKeys k (slot s k) (slot (expireStale h o e (dropRemoved h e s)) k)) ∧
      (∀ k, (slot (expireStale h o e (dropRemoved h e s)) k).Fits) ∧
      (expireStale h o e (dropRemoved h e s)).pool.knownKeys = s.pool.knownKeys ∧
      (expireStale h o e (dropRemoved h e s)).pool.closed = s.pool.closed := by
  obtain ⟨kept,fits₁,known₁,closed₁,gone⟩ := @foldl_local _ _ _ _ _ _ (fun key s => drop_local (h := h) false s)
    (s.pool.knownKeys.filter (· ∉ (currentOf e).keys)) (unique.filter _) s
  generalize shape : (s.pool.knownKeys.filter (· ∉ (currentOf e).keys)).foldl (fun s key => drop h false key s) s = d
    at kept fits₁ known₁ closed₁ gone
  obtain ⟨idle,fits₂,known₂,closed₂,expired⟩ := @foldl_local _ _ _ _ _ _ (expire_local (h := h) (o := o) (e := e))
    d.pool.tailers.keys d.pool.tailers.unique d
  rw [dropRemoved,shape,expireStale]
  refine ⟨fun k => ?_,fits₂ (fits₁ fits),known₂.trans known₁,closed₂.trans closed₁⟩
  have untailed : k ∉ d.pool.tailers.keys → (slot d k).tailer = none := (Dict.get_none _).mpr
  by_cases removed : k ∈ s.pool.knownKeys.filter (· ∉ (currentOf e).keys)
  · obtain ⟨m,same,dropped⟩ := gone k removed
    obtain ⟨tailer,_,_,polls,saved⟩ := @drop_slot _ _ _ _ _ h k _ false m
    rw [dropped] at tailer polls saved
    rw [idle k ((Dict.get_none _).mp tailer)]
    exact ⟨fun active => by simp [tailer] at active,by rw [polls,same],fun _ held => by simp [saved rfl] at held⟩
  · have before := kept k removed
    by_cases active : k ∈ d.pool.tailers.keys
    · obtain ⟨m,same,moved⟩ := expired k active
      rcases @expire_slot _ _ _ _ _ h o _ e k m with ⟨stays,tails⟩ | ⟨tailer,polls,saved⟩
      · have whole := (moved.symm.trans stays).trans (same.trans before)
        exact ⟨fun _ => ⟨whole,tails⟩,by rw [whole],fun _ _ => by
          obtain ⟨session,found,_⟩ := tails
          exact (Dict.mem_keys _).mpr ⟨session,found⟩⟩
      · rw [moved] at tailer polls saved
        exact ⟨fun active => by simp [tailer] at active,by rw [polls,same,before],fun _ => saved⟩
    · have whole := (idle k active).trans before
      refine ⟨fun tailed => ?_,by rw [whole],fun known held => ?_⟩
      · rw [idle k active,untailed active] at tailed
        cases tailed
      · rw [whole] at held
        by_contra absent
        exact removed (List.mem_filter.mpr ⟨known (.inr held),by simpa using absent⟩)

-- A slot awaits its update: a session that is not one to tail has no tailer.
def Awaits (o : Options) (e : Refresh κ) (k : κ) (before : Slot τ γ ω) : Prop :=
  before.tailer.isSome = true → Tails o e k

theorem updateAt_local (known : List κ) (key : κ) (s : State κ τ γ ω) (awaits : Awaits o e key (slot s key)) :
    Local key s (updateAt h o e known key s).2 ∧ Awaits o e key (slot (updateAt h o e known key s).2 key) ∧
      (key ∈ (currentOf e).keys → (updateAt h o e known key s).1 = true → e.initial = false → ∀ t,
        (slot (updateAt h o e known key s).2 key).tailer = some t →
          Noted h t (slot s key) (slot (updateAt h o e known key s).2 key)) := by
  unfold updateAt
  cases found : (currentOf e).get key with
  | none => exact ⟨.refl key s,awaits,fun inside => absurd found ((Dict.get_none _).not.mpr (not_not.mpr inside))⟩
  | some session =>
    obtain ⟨kept,tailed,noted⟩ := @update_local _ _ _ _ _ h o key _ e.initial (decide (key ∉ known)) e.now session s
      fun policy => by
        rw [← Option.not_isSome_iff_eq_none]
        intro active
        obtain ⟨other,found',tails⟩ := awaits active
        cases found.symm.trans found'
        rw [policy] at tails
        cases tails
    exact ⟨kept,fun active => ⟨session,found,tailed active⟩,fun _ => noted⟩

theorem pollWaiting_local (key : κ) (s : State κ τ γ ω) :
    Local key s (pollWaiting h o key s).2 ∧ (slot (pollWaiting h o key s).2 key).tailer = (slot s key).tailer ∧
      (slot (pollWaiting h o key s).2 key).checkpoint = (slot s key).checkpoint ∧
      ((pollWaiting h o key s).1 = true → ∀ t, (slot s key).tailer = some t →
        Noted h t (slot s key) (slot (pollWaiting h o key s).2 key)) := by
  unfold pollWaiting
  cases active : s.pool.tailers.get key with
  | none =>
    refine ⟨⟨fun k apart => by simp [slot,apart],fun fits => ⟨fits.paths,fits.apart,?_⟩,rfl,rfl⟩,rfl,rfl,fun _ t found => ?_⟩
    · simp [slot]
    · change s.pool.tailers.get key = some t at found
      rw [active] at found
      cases found
  | some t =>
    obtain ⟨polled,noted,same⟩ := @pollKey_local _ _ _ _ _ h o key _ t s active
    exact ⟨polled,same.trans active.symm,rfl,fun returned t' found => by
      cases active.symm.trans found
      exact noted returned⟩

theorem sorted_nodup {keys : List κ} (unique : keys.Nodup) : (keys.insertionSort (· ≤ ·)).Nodup :=
  (List.perm_insertionSort _ keys).nodup_iff.mpr unique

theorem mem_sorted {keys : List κ} : k ∈ keys.insertionSort (· ≤ ·) ↔ k ∈ keys := (List.perm_insertionSort _ keys).mem_iff

theorem currentOf_unique (e : Refresh κ) : (currentOf e).keys.Nodup := (currentOf e).unique

-- What holds of a slot after a refresh that returns.
structure Settled (h : Hooks κ τ γ ε ω) (o : Options) (e : Refresh κ) (known : List κ) (k : κ) (before after : Slot τ γ ω) :
    Prop where
  tails : after.tailer.isSome = true → Tails o e k
  held : (before.tailer.isSome = true ∨ before.checkpoint.isSome = true → k ∈ known) →
    after.checkpoint.isSome = true → k ∈ (currentOf e).keys
  polled : ∀ t, after.tailer = some t →
    k ∈ changedOf e ∧ e.initial = false ∨ k ∉ changedOf e ∧ before.pending = true → Noted h t before after

theorem refresh_settles (e : Refresh κ) (s : State κ τ γ ω) (unpolled : s.polls = []) (unique : s.pool.knownKeys.Nodup)
    (fits : ∀ k, (slot s k).Fits) (working : s.pool.closed = false) :
    (∀ k, (slot (refresh h o e s).2 k).Fits) ∧ (refresh h o e s).2.pool.knownKeys.Nodup ∧
      ((refresh h o e s).1 = true → (refresh h o e s).2.pool.knownKeys = (currentOf e).keys ∧
        ∀ k, Settled h o e s.pool.knownKeys k (slot s k) (slot (refresh h o e s).2 k)) := by
  have fresh : {s with polls := []} = s := by rw [← unpolled]
  obtain ⟨stale,fits₁,known₁,closed₁⟩ := @stale_slot _ _ _ _ _ h o _ e s unique fits
  have changes : ∀ k, k ∈ (changedOf e).insertionSort (· ≤ ·) ↔ k ∈ changedOf e := fun k => mem_sorted
  rw [refresh,if_neg (by simp [working])]
  simp only [fresh]
  generalize expireStale h o e (dropRemoved h e s) = st at stale fits₁ known₁ closed₁ ⊢
  obtain ⟨others,fits₂,known₂,closed₂,updated⟩ := @loop_local _ _ _ _ _ (updateAt h o e s.pool.knownKeys) (Awaits o e)
    (fun key s awaits => (updateAt_local _ key s awaits).1) ((changedOf e).insertionSort (· ≤ ·))
    (sorted_nodup ((currentOf_unique e).filter _)) st fun k _ active => ((stale k).same active).2
  rw [updateChanged]
  generalize loop (updateAt h o e s.pool.knownKeys) ((changedOf e).insertionSort (· ≤ ·)) st = result
    at others fits₂ known₂ closed₂ updated ⊢
  obtain ⟨_ | _,u⟩ := result
  · exact ⟨fits₂ fits₁,known₂.trans known₁ ▸ unique,nofun⟩
  obtain ⟨others₃,fits₃,known₃,closed₃,polled⟩ := @loop_local _ _ _ _ _ (pollWaiting h o) (fun _ _ => True)
    (fun key s _ => (pollWaiting_local key s).1) ((u.pool.pending.filter (· ∉ changedOf e)).dedup.insertionSort (· ≤ ·))
    (sorted_nodup (List.nodup_dedup _)) u fun _ _ => trivial
  simp only [pollPending]
  generalize loop (pollWaiting h o) ((u.pool.pending.filter (· ∉ changedOf e)).dedup.insertionSort (· ≤ ·)) u = result
    at others₃ fits₃ known₃ closed₃ polled ⊢
  obtain ⟨_ | _,v⟩ := result
  · exact ⟨fits₃ (fits₂ fits₁),known₃.trans (known₂.trans known₁) ▸ unique,nofun⟩
  refine ⟨fits₃ (fits₂ fits₁),currentOf_unique e,fun _ => ⟨rfl,fun k => ?_⟩⟩
  change Settled h o e s.pool.knownKeys k (slot s k) (slot v k)
  by_cases changed : k ∈ changedOf e
  · have apart : k ∉ (u.pool.pending.filter (· ∉ changedOf e)).dedup.insertionSort (· ≤ ·) := fun inside => by
      simpa [changed] using (List.mem_filter.mp (List.mem_dedup.mp (mem_sorted.mp inside))).2
    rw [others₃ k apart]
    obtain ⟨m,same,returned,moved⟩ := updated rfl k ((changes k).mpr changed)
    obtain ⟨_,tails,noted⟩ := @updateAt_local _ _ _ _ _ h o _ e s.pool.knownKeys k m fun active =>
      ((stale k).same (same ▸ active)).2
    rw [moved,same] at noted
    rw [moved] at tails
    have current := (List.mem_filter.mp changed).1
    refine ⟨tails,fun _ _ => current,fun t active waits => ?_⟩
    rcases waits with ⟨_,working⟩ | ⟨unchanged,_⟩
    · exact (noted current returned working t active).begins (stale k).polls
    · exact absurd changed unchanged
  · have before := others k ((changes k).not.mpr changed)
    simp only at before
    by_cases waiting : k ∈ (u.pool.pending.filter (· ∉ changedOf e)).dedup.insertionSort (· ≤ ·)
    · obtain ⟨m,same,returned,moved⟩ := polled rfl k waiting
      obtain ⟨_,tailer,checkpoint,noted⟩ := @pollWaiting_local _ _ _ _ _ h o _ k m
      rw [moved,same,before] at tailer checkpoint noted
      refine ⟨fun active => ((stale k).same (tailer ▸ active)).2,fun known saved => (stale k).held known (checkpoint ▸ saved),
        fun t active _ => (noted returned t (tailer ▸ active)).begins (stale k).polls⟩
    · rw [others₃ k waiting,before]
      refine ⟨fun active => ((stale k).same active).2,(stale k).held,fun t active waits => ?_⟩
      rcases waits with ⟨listed,_⟩ | ⟨_,pending⟩
      · exact absurd listed changed
      · have whole := ((stale k).same (by rw [active]; rfl)).1
        have left : (slot u k).pending = true := by rw [before,whole,pending]
        exact absurd (mem_sorted.mpr (List.mem_dedup.mpr (List.mem_filter.mpr ⟨of_decide_eq_true left,by simpa using changed⟩)))
          waiting

-- Tailers and paths have the same keys, none of them a checkpoint's, and all pending
-- keys are among them.
structure Kept (p : Pool κ τ γ) : Prop where
  paths : ∀ k, k ∈ p.paths.keys ↔ k ∈ p.tailers.keys
  apart : ∀ k ∈ p.tailers.keys, k ∉ p.checkpoints.keys
  pending : ∀ k ∈ p.pending, k ∈ p.tailers.keys

def Held (p : Pool κ τ γ) : Prop := ∀ k, k ∈ p.tailers.keys ∨ k ∈ p.checkpoints.keys → k ∈ p.knownKeys

-- No exception leaves the refresh.
def Returns (h : Hooks κ τ γ ε ω) (o : Options) (s : State κ τ γ ω) : Op κ ω → Prop
  | .refresh e => (refresh h o e s).1 = true
  | _ => True

theorem active_key (s : State κ τ γ ω) (k : κ) : k ∈ s.pool.tailers.keys ↔ (slot s k).tailer.isSome = true := by
  rw [Dict.mem_keys,Option.isSome_iff_exists]
  rfl

theorem saved_key (s : State κ τ γ ω) (k : κ) : k ∈ s.pool.checkpoints.keys ↔ (slot s k).checkpoint.isSome = true := by
  rw [Dict.mem_keys,Option.isSome_iff_exists]
  rfl

theorem path_key (s : State κ τ γ ω) (k : κ) : k ∈ s.pool.paths.keys ↔ (slot s k).path.isSome = true := by
  rw [Dict.mem_keys,Option.isSome_iff_exists]
  rfl

theorem fits_kept (fits : ∀ k, (slot s k).Fits) : Kept s.pool where
  paths k := by rw [path_key,active_key,(fits k).paths]
  apart k active := by
    rw [saved_key,(fits k).apart ((active_key s k).mp active)]
    nofun
  pending k waits := (active_key s k).mpr ((fits k).pending (decide_eq_true waits))

theorem refresh_polls (working : s.pool.closed = false) (e : Refresh κ) :
    refresh h o e s = refresh h o e {s with polls := []} := by
  rw [refresh,refresh,if_neg (by simp [working]),if_neg (by simp [working])]

theorem refresh_closed (closed : s.pool.closed = true) (e : Refresh κ) : refresh h o e s = (true,s) := by
  rw [refresh,if_pos closed]

theorem cleared_fits (closed : Bool) (s : State κ τ γ ω) (k : κ) : (slot (clear h closed s) k).Fits :=
  ⟨rfl,nofun,nofun⟩

theorem operate_fits (op : Op κ ω) (moved : operate h o s op = some s')
    (before : (∀ k, (slot s k).Fits) ∧ s.pool.knownKeys.Nodup) : (∀ k, (slot s' k).Fits) ∧ s'.pool.knownKeys.Nodup := by
  cases op with
  | refresh e =>
    cases moved
    cases closed : s.pool.closed with
    | true =>
      rw [refresh_closed closed]
      exact before
    | false =>
      rw [refresh_polls closed]
      have settled := @refresh_settles _ _ _ _ _ h o _ e {s with polls := []} rfl before.2
        (fun k => ⟨(before.1 k).paths,(before.1 k).apart,(before.1 k).pending⟩) closed
      exact ⟨settled.1,settled.2.1⟩
  | reset =>
    cases moved
    exact ⟨cleared_fits false s,List.nodup_nil⟩
  | close =>
    cases moved
    split
    · exact before
    · exact ⟨cleared_fits true s,List.nodup_nil⟩
  | outside w =>
    cases moved
    exact before

theorem operate_held (op : Op κ ω) (moved : operate h o s op = some s') (returns : Returns h o s op)
    (before : (∀ k, (slot s k).Fits) ∧ s.pool.knownKeys.Nodup) (held : Held s.pool) : Held s'.pool := by
  cases op with
  | refresh e =>
    cases moved
    cases closed : s.pool.closed with
    | true =>
      rw [refresh_closed closed]
      exact held
    | false =>
      rw [Returns,refresh_polls closed] at returns
      rw [refresh_polls closed]
      have settled := @refresh_settles _ _ _ _ _ h o _ e {s with polls := []} rfl before.2
        (fun k => ⟨(before.1 k).paths,(before.1 k).apart,(before.1 k).pending⟩) closed
      obtain ⟨known,each⟩ := settled.2.2 returns
      intro k
      rw [known,active_key,saved_key]
      rintro (active | saved)
      · obtain ⟨session,found,_⟩ := (each k).tails active
        exact (Dict.mem_keys _).mpr ⟨session,found⟩
      · refine (each k).held (fun some' => held k ?_) saved
        rw [active_key,saved_key]
        exact some'
  | reset =>
    cases moved
    rintro k (active | saved)
    · exact active
    · exact saved
  | close =>
    cases moved
    split
    · exact held
    · rintro k (active | saved)
      · exact active
      · exact saved
  | outside w =>
    cases moved
    exact held

theorem alone_polled (noted : (slot s k).polls = [] ++ [(outcome,w)]) :
    s.polls.filter (fun polled => polled.1 = k) = [(k,outcome,w)] := by
  obtain ⟨polled,shape,same⟩ := List.map_eq_singleton_iff.mp noted
  have own := (List.mem_filter.mp (shape ▸ List.mem_singleton_self polled :
    polled ∈ s.polls.filter fun polled => polled.1 = k)).2
  obtain ⟨key,_⟩ := polled
  cases same
  cases of_decide_eq_true own
  exact shape

-- What any run of refreshes, resets, closings and changes of the files leaves.
theorem pool_kept (h : Hooks κ τ γ ε ω) (o : Options) (start : ω)
    (path : Run (operate h o) Any ⟨{},start,[]⟩ ops s) :
    Kept s.pool ∧ (Run (operate h o) (Returns h o) ⟨{},start,[]⟩ ops s → Held s.pool) ∧
      ∀ e, s.pool.closed = false → (refresh h o e s).1 = true →
        (∀ k ∈ (refresh h o e s).2.pool.tailers.keys, Tails o e k) ∧
          (refresh h o e s).2.pool.tailers.size ≤
            ((currentOf e).entries.filter fun entry => shouldTail o e.now entry.2).length ∧
          ∀ k t, (refresh h o e s).2.pool.tailers.get k = some t →
            k ∈ changedOf e ∧ e.initial = false ∨ k ∉ changedOf e ∧ k ∈ s.pool.pending →
            ∃ outcome w, (refresh h o e s).2.polls.filter (·.1 = k) = [(k,outcome,w)] ∧ outcome ≠ .escaped ∧
              (outcome ≠ .raised → hasUnreadData h t w = true → k ∈ (refresh h o e s).2.pool.pending) := by
  have first : (∀ k, (slot (⟨{},start,[]⟩ : State κ τ γ ω) k).Fits) ∧
      (⟨{},start,[]⟩ : State κ τ γ ω).pool.knownKeys.Nodup := ⟨fun _ => ⟨rfl,nofun,nofun⟩,List.nodup_nil⟩
  have fits := path.invariant (fun s => (∀ k, (slot s k).Fits) ∧ s.pool.knownKeys.Nodup) first
    fun _ op _ before _ moved => operate_fits op moved before
  refine ⟨fits_kept fits.1,fun returned => ?_,fun e working returns => ?_⟩
  · have both := returned.invariant (fun s => ((∀ k, (slot s k).Fits) ∧ s.pool.knownKeys.Nodup) ∧ Held s.pool)
      ⟨first,fun k none' => by rcases none' with none' | none' <;> exact none'⟩
      fun _ op _ before allowed moved => ⟨operate_fits op moved before.1,operate_held op moved allowed before.1 before.2⟩
    exact both.2
  · rw [refresh_polls working] at returns ⊢
    have settled := @refresh_settles _ _ _ _ _ h o _ e {s with polls := []} rfl fits.2
      (fun k => ⟨(fits.1 k).paths,(fits.1 k).apart,(fits.1 k).pending⟩) working
    obtain ⟨_,each⟩ := settled.2.2 returns
    generalize (refresh h o e {s with polls := []}).2 = after at each ⊢
    have tails : ∀ k ∈ after.pool.tailers.keys, Tails o e k := fun k active => (each k).tails ((active_key after k).mp active)
    refine ⟨tails,?_,?_⟩
    · have among : after.pool.tailers.keys ⊆
          ((currentOf e).entries.filter fun entry => shouldTail o e.now entry.2).map Prod.fst := by
        intro k active
        obtain ⟨session,found,tailed⟩ := tails k active
        exact List.mem_map.mpr ⟨(k,session),List.mem_filter.mpr ⟨(Dict.get_iff _).mp found,tailed⟩,rfl⟩
      have fewer := (List.subperm_of_subset after.pool.tailers.unique among).length_le
      rw [List.length_map] at fewer
      rw [Dict.size]
      simpa [Dict.keys] using fewer
    · intro k t active waits
      obtain ⟨outcome,w,calm,noted,left⟩ := (each k).polled t active (by
        rcases waits with now | ⟨apart,pending⟩
        · exact .inl now
        · exact .inr ⟨apart,decide_eq_true pending⟩)
      exact ⟨outcome,w,alone_polled noted,calm,fun quiet unread => of_decide_eq_true (left quiet unread)⟩

end Refreshed

-- Two transcripts, of which the first grows; the world is its size and what was read of
-- it. The factory has an exception of its own for a third session.
def twoHooks : Hooks Nat Nat Unit Unit (Int × Int) where
  factory := true
  make session _ w := (if session.key = 2 then .escapes else .made session.key,w)
  makeFrom session _ _ w := (.made session.key,w)
  restoreCheckpoint _ _ w := w
  exportCheckpoint _ w := (some (),w)
  poll t w := if t = 0 then (some (if w.2 < w.1 then [()] else []),(w.1,w.1)) else (some [],w)
  publish _ w := (true,w)
  adopt _ _ w := w
  close _ w := w
  singlePoll _ _ := false
  hasPendingRecords _ _ := false
  offset t w := some (if t = 0 then ("a.jsonl",w.2) else ("b.jsonl",0))
  size path w := some (if path = "a.jsonl" then w.1 else 0)
  isFile _ _ := true

def onePoll : Options := ⟨60,1,by decide⟩
def row (key : Nat) (transcript : String) (updatedAt : Int) : Session Nat := ⟨key,"codex",transcript,none,.idle,updatedAt,none⟩
def bothRows : List (Session Nat) := [row 0 "a.jsonl" 100,row 1 "b.jsonl" 100]

def watched : State Nat Nat Unit (Int × Int) := (refresh twoHooks onePoll ⟨bothRows,[0,1],false,100⟩ ⟨{},(0,0),[]⟩).2

theorem pool_kept_polled : Kept watched.pool ∧ Tails onePoll ⟨bothRows,[0],false,100⟩ 1 ∧
    (refresh twoHooks onePoll ⟨bothRows,[0],false,100⟩ watched).2.pool.tailers.size ≤ 2 ∧
      ∃ outcome w, (refresh twoHooks onePoll ⟨bothRows,[0],false,100⟩ watched).2.polls.filter (·.1 = 0) = [(0,outcome,w)] ∧
        outcome ≠ .escaped := by
  obtain ⟨kept,_,each⟩ := pool_kept twoHooks onePoll (0,0)
    (show Run (operate twoHooks onePoll) Any ⟨{},(0,0),[]⟩ [.refresh ⟨bothRows,[0,1],false,100⟩] watched from
      .single trivial rfl)
  obtain ⟨tails,few,polled⟩ := each ⟨bothRows,[0],false,100⟩ (by decide +kernel) (by decide +kernel)
  obtain ⟨outcome,w,alone,calm,_⟩ := polled 0 0 (by decide +kernel) (.inl ⟨by decide +kernel,rfl⟩)
  exact ⟨kept,tails 1 (by decide +kernel),few.trans (by decide +kernel),outcome,w,alone,calm⟩

-- A file that grows and is not reported as changed: its tailer has unread data and is not
-- pending, and there are more tailers than the one poll that is the pool's only limit. An
-- initial refresh does not poll the tailer it resumes. A checkpoint of a refresh that an
-- exception left stays when its session is gone.
theorem grown_file_unread :
    (∃ s, Run (operate twoHooks onePoll) Any ⟨{},(0,0),[]⟩
        [.refresh ⟨bothRows,[0,1],false,100⟩,.outside (5,0),.refresh ⟨bothRows,[],false,100⟩] s ∧
      s.pool.tailers.keys = [0,1] ∧ hasUnreadData twoHooks 0 s.world = true ∧ s.pool.pending = []) ∧
      (∃ s, Run (operate twoHooks onePoll) Any ⟨{},(0,0),[]⟩
          [.refresh ⟨bothRows,[0,1],false,100⟩,.refresh ⟨bothRows,[],false,1000⟩,.outside (5,0),
            .refresh ⟨[row 0 "a.jsonl" 1000],[0],true,1000⟩] s ∧
        s.pool.tailers.keys = [0] ∧ hasUnreadData twoHooks 0 s.world = true ∧ s.pool.pending = []) ∧
      ∃ s, Run (operate twoHooks onePoll) Any ⟨{},(0,0),[]⟩
          [.refresh ⟨[row 1 "b.jsonl" 0,row 2 "c.jsonl" 100],[1,2],true,100⟩,.refresh ⟨[],[],false,100⟩] s ∧
        s.pool.checkpoints.keys = [1] ∧ s.pool.knownKeys = [] :=
  ⟨⟨_,.cons trivial rfl (.cons trivial rfl (.cons trivial rfl .nil)),by decide +kernel,by decide +kernel,by decide +kernel⟩,
    ⟨_,.cons trivial rfl (.cons trivial rfl (.cons trivial rfl (.cons trivial rfl .nil))),by decide +kernel,by decide +kernel,
      by decide +kernel⟩,
    ⟨_,.cons trivial rfl (.cons trivial rfl .nil),by decide +kernel,by decide +kernel⟩⟩

end AgentSideCar.TailerPool
