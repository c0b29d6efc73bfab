import AgentSideCar.Plugin.InjectGateway

namespace AgentSideCar.InjectGateway
open Runs

-- Of the message a log entry has its size and the beginning of its hash.
def Carries (d : Deps) (message : String) (e : InjectLogEntry) : Prop :=
  e.messageBytes = message.utf8ByteSize ∧ e.messageSha12 = String.ofList ((d.sha256 message).toList.take shaLogChars)

-- The calls that have ended: a token issued, a preparation refused, an execution answered.
def ended (s : State) : Nat := s.issued.length + s.refused.length + s.answers.length

def Thread.message : Thread → String
  | .preparing req | .preflighting req _ => req.message
  | .confirming req _ _ | .dispatched req _ => req.message

-- The request whose execution a call waits for, and the record it goes by.
def Thread.holds : Thread → Option (String × PendingToken)
  | .confirming req held _ | .dispatched req held => some (req.requestId,held)
  | _ => none

def Held (holds : Option (String × PendingToken)) (s : State) : Prop :=
  ∀ id r, holds = some (id,r) → r.consumed = true ∧ s.pending.get id = some r

def lastEntries (entries : List InjectLogEntry) : List InjectLogEntry := entries.drop (entries.length - logRingLimit)

-- How a stretch of a call leaves the gateway: the call has ended and is in the log once, or it
-- waits, for the execution it waited for before or for one whose record is there.
inductive Leaves (d : Deps) (message : String) (prior : Option (String × PendingToken)) (s after : State) : Prop where
  | waits (t : Thread) : t.message = message → after.threads = s.threads ++ [t] →
      after.logged = s.logged ∧ after.logRing = s.logRing → ended after = ended s →
      t.holds = prior ∨ Held t.holds after → Leaves d message prior s after
  | ends : after.threads = s.threads →
      (∃ e, after.logged = s.logged ++ [e] ∧ after.logRing = lastEntries (s.logRing ++ [e]) ∧ Carries d message e) →
      ended after = ended s + 1 → Leaves d message prior s after

-- What is dropped from the maps ends no call and lets none wait.
structure Quiet (s p : State) : Prop where
  threads : p.threads = s.threads
  logged : p.logged = s.logged ∧ p.logRing = s.logRing
  ended : ended p = ended s

theorem Quiet.leaves (quiet : Quiet s p) (left : Leaves d message prior p after) : Leaves d message prior s after := by
  cases left with
  | waits t same threads logged count held =>
    exact .waits t same (threads.trans (by rw [quiet.threads]))
      ⟨logged.1.trans quiet.logged.1,logged.2.trans quiet.logged.2⟩ (count.trans quiet.ended) held
  | ends threads logged count =>
    exact .ends (threads.trans quiet.threads) (quiet.logged.1 ▸ quiet.logged.2 ▸ logged) (quiet.ended ▸ count)

@[simp] theorem record_frame (entry : InjectLogEntry) (s : State) : (record entry s).threads = s.threads ∧
    (record entry s).issued = s.issued ∧ (record entry s).refused = s.refused ∧ (record entry s).answers = s.answers ∧
    (record entry s).pending = s.pending ∧ (record entry s).results = s.results := by
  simp [record]

@[simp] theorem record_ring (entry : InjectLogEntry) (s : State) :
    (record entry s).logRing = lastEntries (s.logRing ++ [entry]) := by
  simp [record,lastEntries]

@[simp] theorem record_logged (entry : InjectLogEntry) (s : State) : (record entry s).logged = s.logged ++ [entry] := by
  simp [record]

theorem rejectPrepare_leaves (s : State) : Leaves d req.message prior s (rejectPrepare d req code detail hide clock s) := by
  refine .ends (by simp [rejectPrepare]) ?_ ?_
  · simp only [rejectPrepare,record_logged,record_ring]
    exact ⟨_,rfl,rfl,rfl,rfl⟩
  · simp [ended,rejectPrepare]
    omega

theorem rejectExecute_leaves (s : State) : Leaves d req.message prior s (rejectExecute d req held code clock s) := by
  refine .ends (by simp [rejectExecute,answer]) ?_ ?_
  · simp only [rejectExecute,answer,record_logged,record_ring]
    exact ⟨_,rfl,rfl,rfl,rfl⟩
  · simp [ended,rejectExecute,answer]
    omega

theorem settle_leaves (s : State) : Leaves d req.message prior s (answer req result cached (logExecuteResult d req held result clock s)) := by
  refine .ends (by simp [answer,logExecuteResult]) ?_ ?_
  · simp only [answer,logExecuteResult,record_logged,record_ring]
    exact ⟨_,rfl,rfl,rfl,rfl⟩
  · simp [ended,answer,logExecuteResult]
    omega

theorem wait_leaves (t : Thread) (s : State) (held : Held t.holds (wait t s)) : Leaves d t.message prior s (wait t s) :=
  .waits t rfl rfl ⟨rfl,rfl⟩ rfl (.inr held)

theorem none_held (s : State) : Held none s := nofun

theorem issue_leaves (s : State) : Leaves d req.message prior s (issue d req status clock draw s) := by
  unfold issue
  split
  · exact rejectPrepare_leaves s
  · refine .ends (by simp) ?_ ?_
    · simp only [record_logged,record_ring]
      exact ⟨_,rfl,rfl,rfl,rfl⟩
    · simp [ended]
      omega

theorem prune_quiet (now : Nat) (s : State) : Quiet s (prune now s) := ⟨rfl,⟨rfl,rfl⟩,rfl⟩

theorem consume_quiet (id : String) (held : PendingToken) (s : State) : Quiet s (consume id held s) := ⟨rfl,⟨rfl,rfl⟩,rfl⟩

theorem erase_quiet (id : String) (s : State) : Quiet s {s with pending := s.pending.erase id} := ⟨rfl,⟨rfl,rfl⟩,rfl⟩

theorem completed_quiet (results : Dict String CachedResult) (completed : List (String × InjectResult)) (s : State) :
    Quiet s {s with results := results,completed := completed} := ⟨rfl,⟨rfl,rfl⟩,rfl⟩

theorem prepare_leaves (s : State) : Leaves d req.message prior s (prepare d req allowWrite clock s) := by
  refine (prune_quiet clock.now s).leaves ?_
  unfold prepare
  simp only
  split
  · exact rejectPrepare_leaves _
  split
  · exact rejectPrepare_leaves _
  · exact wait_leaves (.preparing req) _ (none_held _)

theorem prepareVerified_leaves (s : State) : Leaves d req.message prior s (prepareVerified d req verdict clock draw s) := by
  unfold prepareVerified
  split
  · exact rejectPrepare_leaves s
  split
  · exact rejectPrepare_leaves s
  split
  · exact wait_leaves (.preflighting req _) s (none_held _)
  · exact issue_leaves s

theorem preparePreflighted_leaves (s : State) :
    Leaves d req.message prior s (preparePreflighted d req status preflight clock draw s) := by
  unfold preparePreflighted
  split
  · exact rejectPrepare_leaves s
  · exact rejectPrepare_leaves s
  · exact issue_leaves s

theorem attempt_leaves (s : State) : Leaves d req.message prior s (attempt d req held allowWrite clock s) := by
  refine (consume_quiet req.requestId held s).leaves ?_
  unfold attempt
  simp only
  split
  · exact rejectExecute_leaves _
  split
  · exact rejectExecute_leaves _
  split
  · exact rejectExecute_leaves _
  · refine wait_leaves (.confirming req _ clock.now) _ fun id r same => ?_
    cases same
    exact ⟨rfl,by simp [wait,consume,Dict.get_set]⟩

theorem execute_leaves (s : State) : Leaves d req.message prior s (execute d req allowWrite clock s) := by
  refine (prune_quiet clock.now s).leaves ?_
  unfold execute
  simp only
  split
  · exact rejectExecute_leaves _
  · split
    · exact rejectExecute_leaves _
    · exact settle_leaves _
  · split
    · exact rejectExecute_leaves _
    split
    · exact rejectExecute_leaves _
    split
    · exact rejectExecute_leaves _
    split
    · exact (erase_quiet req.requestId _).leaves (rejectExecute_leaves _)
    · exact attempt_leaves _

theorem executeVerified_leaves (s : State) :
    Leaves d req.message (some (req.requestId,held)) s (executeVerified d req held admittedAt verdict clock s) := by
  unfold executeVerified
  split
  · exact rejectExecute_leaves s
  split
  · exact rejectExecute_leaves s
  · exact .waits (.dispatched req held) rfl rfl ⟨rfl,rfl⟩ rfl (.inl rfl)

theorem executeSettled_leaves (s : State) : Leaves d req.message prior s (executeSettled d req held settled clock s) := by
  unfold executeSettled
  dsimp only
  exact (completed_quiet _ _ s).leaves (settle_leaves _)

-- The message of a call that starts.
def Event.message : Event → Option String
  | .prepare req _ _ => some req.message
  | .execute req _ _ => some req.message
  | _ => none

-- A step is a stretch of a call that starts, or of one that waited.
theorem advance_leaves (accepted : advance d s event = some after) :
    (∃ message, event.message = some message ∧ Leaves d message none s after) ∨
    event.message = none ∧ ∃ t ∈ s.threads, Leaves d t.message t.holds (resume t s) after := by
  cases event with
  | prepare req allowWrite clock => cases accepted; exact .inl ⟨_,rfl,prepare_leaves s⟩
  | execute req allowWrite clock => cases accepted; exact .inl ⟨_,rfl,execute_leaves s⟩
  | verified t verdict clock draw =>
    simp only [advance] at accepted
    split at accepted
    · rename_i waiting
      refine .inr ⟨rfl,t,waiting,?_⟩
      split at accepted
      · cases accepted; exact prepareVerified_leaves _
      · cases accepted; exact executeVerified_leaves _
      · cases accepted
    · cases accepted
  | preflighted t preflight clock draw =>
    simp only [advance] at accepted
    split at accepted
    · rename_i waiting
      refine .inr ⟨rfl,t,waiting,?_⟩
      split at accepted
      · cases accepted; exact preparePreflighted_leaves _
      · cases accepted
    · cases accepted
  | settled t result clock =>
    simp only [advance] at accepted
    split at accepted
    · rename_i waiting
      refine .inr ⟨rfl,t,waiting,?_⟩
      split at accepted
      · cases accepted; exact executeSettled_leaves _
      · cases accepted
    · cases accepted

def messages (events : List Event) : List String := events.flatMap fun event => event.message.toList

-- Every call that was started waits, or has ended and is in the log once.
structure Accounted (d : Deps) (started : List String) (s : State) : Prop where
  calls : s.logged.length + s.threads.length = started.length
  ended : s.logged.length = ended s
  ring : s.logRing = lastEntries s.logged
  waiting : ∀ t ∈ s.threads, t.message ∈ started
  carried : ∀ e ∈ s.logged, ∃ message ∈ started, Carries d message e

theorem lastEntries_snoc (logged : List InjectLogEntry) (e : InjectLogEntry) :
    lastEntries (lastEntries logged ++ [e]) = lastEntries (logged ++ [e]) := by
  unfold lastEntries
  rw [List.length_append,List.length_drop,List.length_append,List.length_singleton]
  by_cases small : logged.length ≤ logRingLimit
  · have all : logged.length - logRingLimit = 0 := by omega
    rw [all,List.drop_zero,Nat.sub_zero]
  · have one : logged.length - (logged.length - logRingLimit) + 1 - logRingLimit = 1 := by omega
    have next : logged.length + 1 - logRingLimit = logged.length - logRingLimit + 1 := by omega
    rw [one,next,List.drop_append_of_le_length (by rw [List.length_drop]; unfold logRingLimit at *; omega),List.drop_drop,
      List.drop_append_of_le_length (by unfold logRingLimit at *; omega)]

-- All is accounted for but one call, which goes on.
structure Owing (d : Deps) (started : List String) (s : State) : Prop where
  calls : s.logged.length + s.threads.length + 1 = started.length
  ended : s.logged.length = ended s
  ring : s.logRing = lastEntries s.logged
  waiting : ∀ t ∈ s.threads, t.message ∈ started
  carried : ∀ e ∈ s.logged, ∃ message ∈ started, Carries d message e

theorem leaves_accounted (owing : Owing d started base) (among : message ∈ started) (left : Leaves d message prior base after) :
    Accounted d started after := by
  have calls := owing.calls
  cases left with
  | waits t same threads logged count _ =>
    obtain ⟨logged,ring⟩ := logged
    refine ⟨?_,by rw [logged,count,owing.ended],by rw [ring,logged,owing.ring],?_,by rw [logged]; exact owing.carried⟩
    · rw [logged,threads,List.length_append,List.length_singleton]
      omega
    · intro u inside
      rw [threads] at inside
      rcases List.mem_append.mp inside with old | new
      · exact owing.waiting u old
      · rw [List.mem_singleton.mp new,same]
        exact among
  | ends threads logged count =>
    obtain ⟨e,logged,ring,carries⟩ := logged
    refine ⟨?_,by rw [logged,count,List.length_append,owing.ended,List.length_singleton],?_,by rw [threads]; exact owing.waiting,?_⟩
    · rw [logged,threads,List.length_append,List.length_singleton]
      omega
    · rw [ring,logged,owing.ring,lastEntries_snoc]
    · intro f inside
      rw [logged] at inside
      rcases List.mem_append.mp inside with old | new
      · exact owing.carried f old
      · rw [List.mem_singleton.mp new]
        exact ⟨message,among,carries⟩

theorem started_owing (accounted : Accounted d started s) (message : String) : Owing d (started ++ [message]) s where
  calls := by rw [List.length_append,accounted.calls,List.length_singleton]
  ended := accounted.ended
  ring := accounted.ring
  waiting := fun t inside => List.mem_append_left _ (accounted.waiting t inside)
  carried := fun e inside => by
    obtain ⟨m,among,carries⟩ := accounted.carried e inside
    exact ⟨m,List.mem_append_left _ among,carries⟩

theorem resumed_owing (accounted : Accounted d started s) (held : t ∈ s.threads) : Owing d started (resume t s) where
  calls := by
    have calls := accounted.calls
    have waits := List.length_pos_of_mem held
    have fewer : (resume t s).threads.length = s.threads.length - 1 := List.length_erase_of_mem held
    have same : (resume t s).logged.length = s.logged.length := rfl
    omega
  ended := accounted.ended
  ring := accounted.ring
  waiting := fun u inside => accounted.waiting u (List.mem_of_mem_erase inside)
  carried := accounted.carried

theorem advance_accounted (accounted : Accounted d started s) (accepted : advance d s event = some after) :
    Accounted d (started ++ event.message.toList) after := by
  rcases advance_leaves accepted with ⟨message,starts,left⟩ | ⟨goes,t,held,left⟩
  · rw [starts]
    exact leaves_accounted (started_owing accounted message) (List.mem_append_right _ List.mem_cons_self) left
  · rw [goes,Option.toList_none,List.append_nil]
    exact leaves_accounted (resumed_owing accounted held) (accounted.waiting t held) left

theorem initial_accounted (d : Deps) : Accounted d [] {} where
  calls := rfl
  ended := rfl
  ring := rfl
  waiting := fun _ inside => by cases inside
  carried := fun _ inside => by cases inside

theorem run_accounted (path : Run (advance d) allowed s events after) (accounted : Accounted d started s) :
    Accounted d (started ++ messages events) after := by
  induction path generalizing started with
  | nil => simpa [messages] using accounted
  | cons _ accepted _ ih =>
    rw [messages,List.flatMap_cons,← List.append_assoc]
    exact ih (advance_accounted accounted accepted)

def live (now : Nat) (r : PendingToken) : Nat := if !r.consumed && decide (r.expiresAt > now) then 1 else 0

theorem inFlight_weigh (now : Nat) (s : State) : inFlightCount now s = s.pending.weigh (live now) := by
  rw [inFlightCount,Dict.values,Dict.weigh]
  induction s.pending.entries with
  | nil => rfl
  | cons e rest ih =>
    rw [List.map_cons,List.map_cons,List.sum_cons,live,← ih,List.filter_cons]
    split
    · rw [List.length_cons,Nat.add_comm]
    · rw [Nat.zero_add]

-- What a stretch without a new token does to the tokens: none comes back, and no spent record
-- goes before its time.
structure Spares (limit : Nat) (s after : State) : Prop where
  issued : after.issued = s.issued
  fewer : ∀ now, inFlightCount now after ≤ inFlightCount now s
  kept : ∀ id r, s.pending.get id = some r → r.consumed = true → limit ≤ r.expiresAt + resultCacheTtlMs →
    after.pending.get id = some r

theorem Spares.trans (first : Spares limit s p) (second : Spares limit p after) : Spares limit s after where
  issued := second.issued.trans first.issued
  fewer := fun now => Nat.le_trans (second.fewer now) (first.fewer now)
  kept := fun id r held spent late => second.kept id r (first.kept id r held spent late) spent late

theorem same_spares (issued : after.issued = s.issued) (pending : after.pending = s.pending) : Spares limit s after where
  issued := issued
  fewer := fun now => Nat.le_of_eq (by rw [inFlightCount,pending,inFlightCount])
  kept := fun id r held _ _ => by rwa [pending]

theorem prune_spares (early : now < limit) (s : State) : Spares limit s (prune now s) where
  issued := rfl
  fewer := fun at' => by
    rw [inFlight_weigh,inFlight_weigh]
    exact s.pending.weigh_filter _ _
  kept := fun id r held _ late => by
    rw [prune,Dict.get_filter,held,Option.filter_some,if_pos]
    simp only [Bool.not_eq_true',decide_eq_false_iff_not]
    omega

theorem consume_spares (held : s.pending.get key = some r) (unspent : r.consumed = false) : Spares limit s (consume key r s) where
  issued := rfl
  fewer := fun now => by
    have replaced := s.pending.weigh_replace held {r with consumed := true} (live now)
    have nothing : live now {r with consumed := true} = 0 := rfl
    have spent : (consume key r s).pending = s.pending.set key {r with consumed := true} := rfl
    rw [inFlight_weigh,inFlight_weigh,spent]
    omega
  kept := fun id' r' held' spent _ => by
    rw [consume,Dict.get_set]
    split
    · rename_i same
      rw [same,held] at held'
      cases held'
      cases unspent.symm.trans spent
    · exact held'

theorem erase_spares (held : s.pending.get key = some r) (unspent : r.consumed = false) :
    Spares limit s {s with pending := s.pending.erase key} where
  issued := rfl
  fewer := fun now => by
    rw [inFlight_weigh,inFlight_weigh]
    exact s.pending.weigh_filter _ _
  kept := fun id' r' held' spent _ => by
    rw [Dict.get_erase]
    split
    · rename_i same
      rw [same,held] at held'
      cases held'
      cases unspent.symm.trans spent
    · exact held'

theorem rejectPrepare_spares (s : State) : Spares limit s (rejectPrepare d req code detail hide clock s) :=
  same_spares (by simp [rejectPrepare]) (by simp [rejectPrepare])

theorem rejectExecute_spares (s : State) : Spares limit s (rejectExecute d req held code clock s) :=
  same_spares (by simp [rejectExecute,answer]) (by simp [rejectExecute,answer])

theorem settle_spares (s : State) :
    Spares limit s (answer req result cached (logExecuteResult d req held result clock s)) :=
  same_spares (by simp [answer,logExecuteResult]) (by simp [answer,logExecuteResult])

theorem completed_spares (results : Dict String CachedResult) (completed : List (String × InjectResult)) (s : State) :
    Spares limit s {s with results := results,completed := completed} := same_spares rfl rfl

theorem prepare_spares (early : clock.now < limit) (s : State) : Spares limit s (prepare d req allowWrite clock s) := by
  refine (prune_spares early s).trans ?_
  unfold prepare
  simp only
  split
  · exact rejectPrepare_spares _
  split
  · exact rejectPrepare_spares _
  · exact same_spares rfl rfl

theorem attempt_spares (held : s.pending.get req.requestId = some r) (unspent : r.consumed = false) :
    Spares limit s (attempt d req r allowWrite clock s) := by
  refine (consume_spares held unspent).trans ?_
  unfold attempt
  simp only
  split
  · exact rejectExecute_spares _
  split
  · exact rejectExecute_spares _
  split
  · exact rejectExecute_spares _
  · exact same_spares rfl rfl

theorem execute_spares (early : clock.now < limit) (s : State) : Spares limit s (execute d req allowWrite clock s) := by
  refine (prune_spares early s).trans ?_
  unfold execute
  generalize prune clock.now s = p
  simp only
  split
  · exact rejectExecute_spares p
  · split
    · exact rejectExecute_spares p
    · exact settle_spares p
  · split
    · exact rejectExecute_spares p
    split
    · exact rejectExecute_spares p
    · rename_i held
      split
      · exact rejectExecute_spares p
      · rename_i unspent
        have unspent := Bool.eq_false_iff.mpr unspent
        split
        · exact (erase_spares held unspent).trans (rejectExecute_spares _)
        · exact attempt_spares held unspent

theorem executeVerified_spares (s : State) : Spares limit s (executeVerified d req held admittedAt verdict clock s) := by
  unfold executeVerified
  split
  · exact rejectExecute_spares s
  split
  · exact rejectExecute_spares s
  · exact same_spares rfl rfl

theorem executeSettled_spares (s : State) : Spares limit s (executeSettled d req held settled clock s) := by
  unfold executeSettled
  dsimp only
  exact (completed_spares _ _ s).trans (settle_spares _)

-- At every reading of the clock that is not before the last token was issued, no more than
-- the limit are issued, unspent and unexpired.
def Capped (s : State) : Prop :=
  ∀ now, (∀ i ∈ s.issued.getLast?, i.2.expiresAt ≤ now + tokenTtlMs) → inFlightCount now s ≤ maxPendingTokens

theorem Spares.capped (spares : Spares limit s after) (capped : Capped s) : Capped after := by
  intro now late
  rw [spares.issued] at late
  exact Nat.le_trans (spares.fewer now) (capped now late)

theorem inFlight_later (later : now ≤ later') (s : State) : inFlightCount later' s ≤ inFlightCount now s := by
  rw [inFlight_weigh,inFlight_weigh]
  refine s.pending.weigh_mono fun r => ?_
  unfold live
  cases r.consumed with
  | true => exact Nat.le_refl 0
  | false =>
    simp only [Bool.not_false,Bool.true_and,decide_eq_true_eq]
    split_ifs <;> omega

-- No spent record goes before its time, and the cap holds on.
structure Safe (limit : Nat) (s after : State) : Prop where
  capped : Capped s → Capped after
  kept : ∀ id r, s.pending.get id = some r → r.consumed = true → limit ≤ r.expiresAt + resultCacheTtlMs →
    after.pending.get id = some r

theorem Spares.safe (spares : Spares limit s after) : Safe limit s after := ⟨spares.capped,spares.kept⟩

theorem Safe.resumed (safe : Safe limit (resume t s) after) : Safe limit s after := ⟨safe.capped,safe.kept⟩

theorem wait_spares (t : Thread) (s : State) : Spares limit s (wait t s) := same_spares rfl rfl

theorem issue_safe (fresh : s.pending.get draw.requestId = none) : Safe limit s (issue d req status clock draw s) := by
  unfold issue
  split
  · exact (rejectPrepare_spares s).safe
  · rename_i room
    have grown : (record {
        ts := clock.now,phase := .prepare,requestId := some (confirmation req status clock.now draw).requestId
        target := some req.target,mode := some req.mode,ok := true
        messageBytes := (digestMessage d req.message).bytes,messageSha12 := (digestMessage d req.message).sha12}
        {s with
          pending := s.pending.set (confirmation req status clock.now draw).requestId
            (pendingToken d req (confirmation req status clock.now draw))
          issued := s.issued ++ [(req,confirmation req status clock.now draw)]}).pending =
        s.pending.set draw.requestId (pendingToken d req (confirmation req status clock.now draw)) := by simp [confirmation]
    constructor
    · intro capped now late
      have last : clock.now + tokenTtlMs ≤ now + tokenTtlMs := late (req,confirmation req status clock.now draw) (by simp)
      have before := inFlight_later (show clock.now ≤ now by omega) s
      have one : live now (pendingToken d req (confirmation req status clock.now draw)) ≤ 1 := by
        unfold live
        split <;> omega
      rw [inFlight_weigh] at before ⊢
      rw [grown,s.pending.weigh_set fresh]
      omega
    · intro id r held _ _
      rw [grown,Dict.get_set,if_neg]
      · exact held
      · rintro rfl
        cases fresh.symm.trans held

theorem prepareVerified_safe (fresh : s.pending.get draw.requestId = none) :
    Safe limit s (prepareVerified d req verdict clock draw s) := by
  unfold prepareVerified
  split
  · exact (rejectPrepare_spares s).safe
  split
  · exact (rejectPrepare_spares s).safe
  split
  · exact (wait_spares _ s).safe
  · exact issue_safe fresh

theorem preparePreflighted_safe (fresh : s.pending.get draw.requestId = none) :
    Safe limit s (preparePreflighted d req status preflight clock draw s) := by
  unfold preparePreflighted
  split
  · exact (rejectPrepare_spares s).safe
  · exact (rejectPrepare_spares s).safe
  · exact issue_safe fresh

-- The clock at which a call that starts prunes the maps.
def Event.prunes : Event → Option Nat
  | .prepare _ _ clock => some clock.now
  | .execute _ _ clock => some clock.now
  | _ => none

theorem fresh_absent (kept : Kept d s) (fresh : name ∉ s.issued.map (·.2.requestId)) : s.pending.get name = none := by
  cases held : s.pending.get name with
  | none => rfl
  | some r =>
    obtain ⟨i,inside,named,_⟩ := kept.backed name r held
    exact absurd (List.mem_map.mpr ⟨i,inside,named⟩) fresh

theorem advance_safe (kept : Kept d s) (fresh : Fresh s event) (early : ∀ now ∈ event.prunes, now < limit)
    (accepted : advance d s event = some after) : Safe limit s after := by
  cases event with
  | prepare req allowWrite clock => cases accepted; exact (prepare_spares (early _ rfl) s).safe
  | execute req allowWrite clock => cases accepted; exact (execute_spares (early _ rfl) s).safe
  | verified t verdict clock draw =>
    have absent := fresh_absent kept fresh
    simp only [advance] at accepted
    split at accepted
    · split at accepted
      · cases accepted; exact (prepareVerified_safe (s := resume _ s) absent).resumed
      · cases accepted; exact (executeVerified_spares (resume _ s)).safe.resumed
      · cases accepted
    · cases accepted
  | preflighted t preflight clock draw =>
    have absent := fresh_absent kept fresh
    simp only [advance] at accepted
    split at accepted
    · split at accepted
      · cases accepted; exact (preparePreflighted_safe (s := resume _ s) absent).resumed
      · cases accepted
    · cases accepted
  | settled t result clock =>
    simp only [advance] at accepted
    split at accepted
    · split at accepted
      · cases accepted; exact (executeSettled_spares (resume _ s)).safe.resumed
      · cases accepted
    · cases accepted

theorem leaves_holds {s : State} {t : Thread} {id : String} {r : PendingToken} (left : Leaves d message prior base after)
    (older : ∀ u ∈ base.threads, u ∈ s.threads) (before : ∀ id r, prior = some (id,r) → ∃ u ∈ s.threads, u.holds = some (id,r))
    (inside : t ∈ after.threads) (holds : t.holds = some (id,r)) :
    (∃ u ∈ s.threads, u.holds = some (id,r)) ∨ (r.consumed = true ∧ after.pending.get id = some r) := by
  cases left with
  | waits u _ threads _ _ held =>
    rw [threads] at inside
    rcases List.mem_append.mp inside with old | new
    · exact .inl ⟨t,older t old,holds⟩
    · rw [List.mem_singleton.mp new] at holds
      rcases held with same | held
      · exact .inl (before id r (same.symm.trans holds))
      · exact .inr (held id r holds)
  | ends threads _ _ =>
    rw [threads] at inside
    exact .inl ⟨t,older t inside,holds⟩

theorem advance_holds {t : Thread} {id : String} {r : PendingToken} (accepted : advance d s event = some after)
    (inside : t ∈ after.threads) (holds : t.holds = some (id,r)) :
    (∃ u ∈ s.threads, u.holds = some (id,r)) ∨ (r.consumed = true ∧ after.pending.get id = some r) := by
  rcases advance_leaves accepted with ⟨message,_,left⟩ | ⟨_,u,held,left⟩
  · exact leaves_holds left (fun _ old => old) (fun _ _ none => by cases none) inside holds
  · exact leaves_holds left (fun _ old => List.mem_of_mem_erase old) (fun id r same => ⟨u,held,same⟩) inside holds

def Spent (s : State) : Prop := ∀ t ∈ s.threads, ∀ id r, t.holds = some (id,r) → r.consumed = true

theorem run_spent (path : Run (advance d) Fresh {} events s) : Spent s := by
  refine path.invariant Spent (fun _ inside => by cases inside) ?_
  intro before event after spent _ accepted t inside id r holds
  rcases advance_holds accepted inside holds with ⟨u,there,same⟩ | ⟨consumed,_⟩
  · exact spent u there id r same
  · exact consumed

-- A call that waits for an execution goes by a spent record. Unless it waited at `middle` with no
-- record left, the record is there until a call since then has pruned the maps at the limit or later.
def Retained (limit : Nat) (middle s : State) : Prop :=
  ∀ t ∈ s.threads, ∀ id r, t.holds = some (id,r) → r.consumed = true ∧
    ((∀ u ∈ middle.threads, u.holds = some (id,r) → middle.pending.get id = some r) → limit ≤ r.expiresAt + resultCacheTtlMs →
      s.pending.get id = some r)

theorem advance_retained (safe : Safe limit s after) (accepted : advance d s event = some after) (retained : Retained limit middle s) :
    Retained limit middle after := by
  intro t inside id r holds
  rcases advance_holds accepted inside holds with ⟨u,there,same⟩ | ⟨consumed,present⟩
  · obtain ⟨spent,kept⟩ := retained u there id r same
    exact ⟨spent,fun waited late => safe.kept id r (kept waited late) spent late⟩
  · exact ⟨consumed,fun _ _ => present⟩

theorem run_capped (path : Run (advance d) Fresh {} events s) : Capped s := by
  have all : Kept d s ∧ Capped s := by
    refine path.invariant (fun s => Kept d s ∧ Capped s) ⟨initial_kept d,fun _ _ => Nat.zero_le _⟩ ?_
    rintro before event after ⟨kept,capped⟩ fresh accepted
    have early : ∀ now ∈ event.prunes, now < event.prunes.getD 0 + 1 := fun now same => by
      rw [Option.mem_def.mp same]
      exact Nat.lt_succ_self now
    exact ⟨advance_kept kept fresh accepted,(advance_safe kept fresh early accepted).capped capped⟩
  exact all.2

theorem run_retained (reached : Run (advance d) Fresh {} early middle) (path : Run (advance d) Fresh middle late s)
    (soon : ∀ event ∈ late, ∀ now ∈ event.prunes, now < limit) : Retained limit middle s := by
  have kept : Kept d middle := reached.invariant (Kept d) (initial_kept d) fun _ _ _ kept fresh accepted => advance_kept kept fresh accepted
  have start : Retained limit middle middle := fun t inside id r holds =>
    ⟨run_spent reached t inside id r holds,fun waited _ => waited t inside holds⟩
  have all : Kept d s ∧ Retained limit middle s := by
    refine (path.among soon).invariant (fun s => Kept d s ∧ Retained limit middle s) ⟨kept,start⟩ ?_
    rintro before event after ⟨kept,retained⟩ ⟨fresh,early⟩ accepted
    have safe := advance_safe kept fresh early accepted
    exact ⟨advance_kept kept fresh accepted,advance_retained safe accepted retained⟩
  exact all.2

-- Other messages of the same size and hash, with a NUL where there was one.
structure Alike (d : Deps) (f : String → String) : Prop where
  bytes : ∀ message, (f message).utf8ByteSize = message.utf8ByteSize
  hash : ∀ message, d.sha256 (f message) = d.sha256 message
  nul : ∀ message, (f message).toList.contains (Char.ofNat 0) = message.toList.contains (Char.ofNat 0)

def PrepareRequest.mask (f : String → String) (req : PrepareRequest) : PrepareRequest := {req with message := f req.message}

def ExecuteRequest.mask (f : String → String) (req : ExecuteRequest) : ExecuteRequest := {req with message := f req.message}

def Thread.mask (f : String → String) : Thread → Thread
  | .preparing req => .preparing (req.mask f)
  | .preflighting req status => .preflighting (req.mask f) status
  | .confirming req held admittedAt => .confirming (req.mask f) held admittedAt
  | .dispatched req held => .dispatched (req.mask f) held

def Event.mask (f : String → String) : Event → Event
  | .prepare req allowWrite clock => .prepare (req.mask f) allowWrite clock
  | .execute req allowWrite clock => .execute (req.mask f) allowWrite clock
  | .verified t verdict clock draw => .verified (t.mask f) verdict clock draw
  | .preflighted t preflight clock draw => .preflighted (t.mask f) preflight clock draw
  | .settled t result clock => .settled (t.mask f) result clock

-- Two gateways that differ in the messages they were given only.
structure Masked (f : String → String) (s t : State) : Prop where
  pending : t.pending = s.pending
  results : t.results = s.results
  logged : t.logged = s.logged
  ids : t.issued.map (·.2.requestId) = s.issued.map (·.2.requestId)
  threads : (s.threads.map (Thread.mask f)).Perm t.threads

section Mask
variable {d : Deps} {f : String → String} {s t : State} {req : PrepareRequest} {run : ExecuteRequest}

theorem Alike.digest (alike : Alike d f) (message : String) : digestMessage d (f message) = digestMessage d message := by
  rw [digestMessage,alike.hash,alike.bytes]
  rfl

theorem Alike.valid (alike : Alike d f) (message : String) (bytes : Nat) :
    validateMessage (f message) bytes = validateMessage message bytes := by
  rw [validateMessage,alike.nul]
  rfl

theorem Masked.wait (masked : Masked f s t) (u : Thread) : Masked f (wait u s) (wait (u.mask f) t) where
  pending := masked.pending
  results := masked.results
  logged := masked.logged
  ids := masked.ids
  threads := by
    simp only [InjectGateway.wait,List.map_append,List.map_cons,List.map_nil]
    exact masked.threads.append_right _

theorem Masked.resume (masked : Masked f s t) (waiting : u ∈ s.threads) : Masked f (resume u s) (resume (u.mask f) t) where
  pending := masked.pending
  results := masked.results
  logged := masked.logged
  ids := masked.ids
  threads := by
    have there : u.mask f ∈ t.threads := masked.threads.mem_iff.mp (List.mem_map_of_mem waiting)
    have left := (List.perm_cons_erase waiting).map (Thread.mask f)
    exact ((left.symm.trans masked.threads).trans (List.perm_cons_erase there)).cons_inv

theorem Masked.prune (masked : Masked f s t) (now : Nat) : Masked f (prune now s) (prune now t) where
  pending := by simp only [InjectGateway.prune,masked.pending]
  results := by simp only [InjectGateway.prune,masked.results]
  logged := masked.logged
  ids := masked.ids
  threads := masked.threads

theorem Masked.consume (masked : Masked f s t) (id : String) (r : PendingToken) : Masked f (consume id r s) (consume id r t) where
  pending := by simp only [InjectGateway.consume,masked.pending]
  results := masked.results
  logged := masked.logged
  ids := masked.ids
  threads := masked.threads

theorem rejectPrepare_masked (alike : Alike d f) (masked : Masked f s t) :
    Masked f (rejectPrepare d req code detail hide clock s) (rejectPrepare d (req.mask f) code detail hide clock t) := by
  simp only [rejectPrepare,PrepareRequest.mask,alike.digest]
  constructor <;> simp [masked.pending,masked.results,masked.logged,masked.ids,masked.threads]

theorem rejectExecute_masked (alike : Alike d f) (masked : Masked f s t) :
    Masked f (rejectExecute d run held code clock s) (rejectExecute d (run.mask f) held code clock t) := by
  simp only [rejectExecute,answer,ExecuteRequest.mask,alike.digest]
  constructor <;> simp [masked.pending,masked.results,masked.logged,masked.ids,masked.threads]

theorem settle_masked (alike : Alike d f) (masked : Masked f s t) :
    Masked f (answer run result cached (logExecuteResult d run held result clock s))
      (answer (run.mask f) result cached (logExecuteResult d (run.mask f) held result clock t)) := by
  simp only [logExecuteResult,answer,ExecuteRequest.mask,alike.digest]
  constructor <;> simp [masked.pending,masked.results,masked.logged,masked.ids,masked.threads]

theorem Masked.inFlight (masked : Masked f s t) (now : Nat) : inFlightCount now t = inFlightCount now s := by
  rw [inFlightCount,masked.pending,inFlightCount]

theorem issue_masked (alike : Alike d f) (masked : Masked f s t) :
    Masked f (issue d req status clock draw s) (issue d (req.mask f) status clock draw t) := by
  unfold issue
  rw [masked.inFlight]
  split
  · exact rejectPrepare_masked alike masked
  · simp only [confirmation,pendingToken,PrepareRequest.mask,alike.digest]
    constructor <;> simp [masked.pending,masked.results,masked.logged,masked.ids,masked.threads]

theorem prepare_masked (alike : Alike d f) (masked : Masked f s t) :
    Masked f (prepare d req allowWrite clock s) (prepare d (req.mask f) allowWrite clock t) := by
  have pruned := masked.prune clock.now
  have same : validateMessage (req.mask f).message (digestMessage d (req.mask f).message).bytes =
      validateMessage req.message (digestMessage d req.message).bytes := by
    simp only [PrepareRequest.mask,alike.digest,alike.valid]
  unfold prepare
  simp only [same]
  split
  · exact rejectPrepare_masked alike pruned
  split
  · exact rejectPrepare_masked alike pruned
  · exact pruned.wait (.preparing req)

theorem prepareVerified_masked (alike : Alike d f) (masked : Masked f s t) :
    Masked f (prepareVerified d req verdict clock draw s) (prepareVerified d (req.mask f) verdict clock draw t) := by
  have target : (req.mask f).target = req.target := rfl
  unfold prepareVerified
  rw [target]
  split
  · exact rejectPrepare_masked alike masked
  split
  · exact rejectPrepare_masked alike masked
  split
  · exact masked.wait (.preflighting req _)
  · exact issue_masked alike masked

theorem preparePreflighted_masked (alike : Alike d f) (masked : Masked f s t) :
    Masked f (preparePreflighted d req status preflight clock draw s)
      (preparePreflighted d (req.mask f) status preflight clock draw t) := by
  unfold preparePreflighted
  split
  · exact rejectPrepare_masked alike masked
  · exact rejectPrepare_masked alike masked
  · exact issue_masked alike masked

theorem attempt_masked (alike : Alike d f) (masked : Masked f s t) :
    Masked f (attempt d run r allowWrite clock s) (attempt d (run.mask f) r allowWrite clock t) := by
  have spent := masked.consume run.requestId r
  have token : (run.mask f).confirmToken = run.confirmToken := rfl
  have name : (run.mask f).requestId = run.requestId := rfl
  have digest : digestMessage d (run.mask f).message = digestMessage d run.message := alike.digest run.message
  unfold attempt
  simp only [token,name,digest]
  split
  · exact rejectExecute_masked alike spent
  split
  · exact rejectExecute_masked alike spent
  split
  · exact rejectExecute_masked alike spent
  · exact spent.wait (.confirming run _ clock.now)

theorem execute_masked (alike : Alike d f) (masked : Masked f s t) :
    Masked f (execute d run allowWrite clock s) (execute d (run.mask f) allowWrite clock t) := by
  have pruned := masked.prune clock.now
  have token : (run.mask f).confirmToken = run.confirmToken := rfl
  have name : (run.mask f).requestId = run.requestId := rfl
  have bound' : ∀ r, bound d r (run.mask f) = bound d r run := fun r => by
    simp only [bound,ExecuteRequest.mask,alike.hash]
  unfold execute
  simp only [token,name,bound',pruned.results,pruned.pending]
  split
  · exact rejectExecute_masked alike pruned
  · split
    · exact rejectExecute_masked alike pruned
    · exact settle_masked alike pruned
  · split
    · exact rejectExecute_masked alike pruned
    split
    · exact rejectExecute_masked alike pruned
    split
    · exact rejectExecute_masked alike pruned
    split
    · exact rejectExecute_masked alike ⟨rfl,rfl,pruned.logged,pruned.ids,pruned.threads⟩
    · exact attempt_masked alike pruned

theorem executeVerified_masked (alike : Alike d f) (masked : Masked f s t) :
    Masked f (executeVerified d run r admittedAt verdict clock s) (executeVerified d (run.mask f) r admittedAt verdict clock t) := by
  unfold executeVerified
  split
  · exact rejectExecute_masked alike masked
  split
  · exact rejectExecute_masked alike masked
  · rename_i kind _
    have fired : Masked f (fire kind run r admittedAt clock.now s) (fire kind (run.mask f) r admittedAt clock.now t) :=
      ⟨masked.pending,masked.results,masked.logged,masked.ids,masked.threads⟩
    exact fired.wait (.dispatched run r)

theorem executeSettled_masked (alike : Alike d f) (masked : Masked f s t) :
    Masked f (executeSettled d run r settled clock s) (executeSettled d (run.mask f) r settled clock t) := by
  have name : (run.mask f).requestId = run.requestId := rfl
  unfold executeSettled
  simp only [name]
  refine settle_masked alike ⟨masked.pending,?_,masked.logged,masked.ids,masked.threads⟩
  simp only [masked.results]

theorem Masked.waits (masked : Masked f s t) (waiting : u ∈ s.threads) : u.mask f ∈ t.threads :=
  masked.threads.mem_iff.mp (List.mem_map_of_mem waiting)

theorem advance_masked (alike : Alike d f) (masked : Masked f s t) (accepted : advance d s event = some after) :
    ∃ other, advance d t (event.mask f) = some other ∧ Masked f after other := by
  cases event with
  | prepare req allowWrite clock =>
    cases accepted
    exact ⟨_,rfl,prepare_masked alike masked⟩
  | execute req allowWrite clock =>
    cases accepted
    exact ⟨_,rfl,execute_masked alike masked⟩
  | verified u verdict clock draw =>
    simp only [advance] at accepted
    split at accepted
    · rename_i waiting
      simp only [advance,Event.mask,if_pos (masked.waits waiting)]
      have resumed := masked.resume waiting
      cases u with
      | preparing req =>
        cases accepted
        exact ⟨_,rfl,prepareVerified_masked alike resumed⟩
      | confirming req r admittedAt =>
        cases accepted
        exact ⟨_,rfl,executeVerified_masked alike resumed⟩
      | preflighting => cases accepted
      | dispatched => cases accepted
    · cases accepted
  | preflighted u preflight clock draw =>
    simp only [advance] at accepted
    split at accepted
    · rename_i waiting
      simp only [advance,Event.mask,if_pos (masked.waits waiting)]
      have resumed := masked.resume waiting
      cases u with
      | preflighting req status =>
        cases accepted
        exact ⟨_,rfl,preparePreflighted_masked alike resumed⟩
      | preparing => cases accepted
      | confirming => cases accepted
      | dispatched => cases accepted
    · cases accepted
  | settled u result clock =>
    simp only [advance] at accepted
    split at accepted
    · rename_i waiting
      simp only [advance,Event.mask,if_pos (masked.waits waiting)]
      have resumed := masked.resume waiting
      cases u with
      | dispatched req r =>
        cases accepted
        exact ⟨_,rfl,executeSettled_masked alike resumed⟩
      | preparing => cases accepted
      | preflighting => cases accepted
      | confirming => cases accepted
    · cases accepted

theorem Masked.fresh (masked : Masked f s t) (fresh : Fresh s event) : Fresh t (event.mask f) := by
  cases event with
  | prepare => trivial
  | execute => trivial
  | verified => rwa [Event.mask,Fresh,masked.ids]
  | preflighted => rwa [Event.mask,Fresh,masked.ids]
  | settled => trivial

theorem run_masked (alike : Alike d f) (path : Run (advance d) Fresh s events after) (masked : Masked f s t) :
    ∃ other, Run (advance d) Fresh t (events.map (Event.mask f)) other ∧ Masked f after other := by
  induction path generalizing t with
  | nil => exact ⟨t,.nil,masked⟩
  | cons fresh accepted _ ih =>
    obtain ⟨middle,stepped,same⟩ := advance_masked alike masked accepted
    obtain ⟨other,onward,last⟩ := ih same
    exact ⟨other,.cons (masked.fresh fresh) stepped onward,last⟩

end Mask

-- Over any interleaving of calls: each is in the log once from when it ends, with no more of
-- its message than the size and the beginning of the hash, so that another message of that size
-- and hash leaves the same log; the tokens are capped from the last issue on; and the record of an
-- execution that is waited for stays until a call prunes it at its time, the calls before it was
-- waited for left out.
theorem gateway_accounts (path : Run (advance d) Fresh {} events s) :
    Accounted d (messages events) s ∧
    (∀ f, Alike d f → ∃ other, Run (advance d) Fresh {} (events.map (Event.mask f)) other ∧ other.logged = s.logged) ∧
    Capped s ∧ ∀ early middle late limit, Run (advance d) Fresh {} early middle → Run (advance d) Fresh middle late s →
      (∀ event ∈ late, ∀ now ∈ event.prunes, now < limit) → Retained limit middle s := by
  refine ⟨?_,fun f alike => ?_,run_capped path,fun _ _ _ _ reached onward soon => run_retained reached onward soon⟩
  · exact run_accounted path (initial_accounted d)
  · obtain ⟨other,onward,masked⟩ := run_masked alike path ⟨rfl,rfl,rfl,rfl,.refl _⟩
    exact ⟨other,onward,masked.logged⟩

theorem repeated_run_accounts : ∃ s, Run (advance ⟨id,fun _ => false⟩) Fresh {} repeatedRun s ∧
    Accounted ⟨id,fun _ => false⟩ (messages repeatedRun) s ∧ Capped s ∧ Retained 360000 {} s := by
  have path : Run (advance ⟨id,fun _ => false⟩) Fresh {} repeatedRun _ :=
    .cons trivial rfl (.cons (show "r" ∉ ([] : List String) from List.not_mem_nil) rfl (.cons trivial rfl
      (.cons (show "q" ∉ ["r"] by decide) rfl (.cons trivial rfl .nil))))
  obtain ⟨accounted,_,capped,retained⟩ := gateway_accounts path
  exact ⟨_,path,accounted,capped,retained [] {} repeatedRun 360000 .nil path (by decide)⟩

instance (s : State) (event : Event) : Decidable (Fresh s event) := by
  cases event <;> unfold Fresh <;> infer_instance

-- Tokens issued one after another at one time.
def issues (now : Nat) (names : List String) : List Event :=
  names.flatMap fun name => [.prepare helloPrepare true ⟨now,now⟩,
    .verified (.preparing helloPrepare) (.row eligibleRow) ⟨now,now⟩ ⟨name,"t"⟩]

-- A full set of tokens, one more once they have expired, and the clock set back; and an execution
-- that is still waited for when another call prunes the maps five minutes after its token expired.
def setBack : List Event :=
  issues 0 ((List.range maxPendingTokens).map fun n => String.ofList (List.replicate n 'r')) ++ issues 60000 ["s"]

def slowRun : List Event :=
  [.prepare helloPrepare true ⟨0,0⟩,.verified (.preparing helloPrepare) (.row eligibleRow) ⟨0,0⟩ ⟨"r","t"⟩,
    .execute helloExecute true ⟨10,10⟩,
    .verified (.confirming helloExecute helloRecord 10) (.row eligibleRow) ⟨20,20⟩ ⟨"q","u"⟩,
    .prepare helloPrepare true ⟨360000,360000⟩]

theorem pruned_while_pending :
    (∃ s, Run (advance ⟨id,fun _ => false⟩) Fresh {} setBack s ∧ maxPendingTokens < inFlightCount 0 s) ∧
    ∃ s, Run (advance ⟨id,fun _ => false⟩) Fresh {} slowRun s ∧ .dispatched helloExecute helloRecord ∈ s.threads ∧
      s.pending.get helloExecute.requestId = none := by
  constructor
  · have done : (follow (advance ⟨id,fun _ => false⟩) Fresh {} setBack).any (fun s => maxPendingTokens < inFlightCount 0 s) = true := by
      decide +kernel
    obtain ⟨s,followed,beyond⟩ := (Option.any_eq_true _ _).mp done
    exact ⟨s,follow_exact.mp followed,by simpa using beyond⟩
  · exact ⟨_,.cons trivial rfl (.cons (show "r" ∉ ([] : List String) from List.not_mem_nil) rfl (.cons trivial rfl
      (.cons (show "q" ∉ ["r"] by decide) rfl (.cons trivial rfl .nil)))),List.mem_cons_self,rfl⟩

end AgentSideCar.InjectGateway
