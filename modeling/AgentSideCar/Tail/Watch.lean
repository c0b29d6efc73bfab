import AgentSideCar.Tail.Pool

namespace AgentSideCar.Tail
variable {κ ρ ε : Type} [DecidableEq κ] {o : Options κ ρ ε} {e : Refresh κ} {p q : Pool κ ρ ε} {k key : κ}

-- All the pool holds of one session.
structure Slot (κ ρ : Type) where
  tailer : Option (Tailer κ ρ)
  path : Option String
  checkpoint : Option (String × Checkpoint ρ)
  pending : Prop
  out : List ρ

def slot (p : Pool κ ρ ε) (k : κ) : Slot κ ρ where
  tailer := p.tailers.get k
  path := p.paths.get k
  checkpoint := p.checkpoints.get k
  pending := k ∈ p.pending
  out := (p.published.filter (·.key = k)).map (·.record)

theorem drop_frame (retain : Bool) (apart : k ≠ key) (p : Pool κ ρ ε) : slot (drop retain key p) k = slot p k := by
  have saved : (drop retain key p).checkpoints.get k = p.checkpoints.get k := by
    simp only [drop]
    split
    · split
      · rw [Dict.get_set,if_neg apart,Dict.get_erase,if_neg apart]
      · rw [Dict.get_erase,if_neg apart]
    · rw [Dict.get_erase,if_neg apart]
    · split
      · rfl
      · rw [Dict.get_erase,if_neg apart]
  simp only [slot,saved,Slot.mk.injEq]
  simp [drop,Dict.get_erase,apart]

theorem capture_frame (apart : k ≠ key) (look : Option File) (s : Session κ) (p : Pool κ ρ ε) :
    slot (captureInitialCheckpoint o look key s p) k = slot p k := by
  unfold captureInitialCheckpoint
  split
  · simp [slot,Dict.get_erase,apart]
  · simp [slot,Dict.get_set,Dict.get_erase,apart]

omit [DecidableEq κ] in
theorem pollTailer_keys (o : Options κ ρ ε) (key : κ) (looks : Nat → Option File) (steps i : Nat) (t : Tailer κ ρ) :
    ∀ d ∈ (pollTailer o key looks steps i t).2.1, d.key = key := by
  induction steps generalizing i t with
  | zero => simp [pollTailer]
  | succ steps ih =>
    intro d inside
    unfold pollTailer at inside
    split at inside
    · cases inside
    · simp only at inside
      split at inside
      · obtain ⟨_,_,rfl⟩ := List.mem_map.mp inside; rfl
      · rcases List.mem_append.mp inside with now | later
        · obtain ⟨_,_,rfl⟩ := List.mem_map.mp now; rfl
        · exact ih _ _ d later

theorem mark_frame (apart : k ≠ key) (more : Bool) (p : Pool κ ρ ε) : slot (mark more key p) k = slot p k := by
  unfold mark discard
  split
  · simp only [slot,Slot.mk.injEq,true_and,and_true]
    split <;> simp [apart]
  · simp [slot,apart]

theorem pollKey_frame (apart : k ≠ key) (p : Pool κ ρ ε) : slot (pollKey o e key p) k = slot p k := by
  unfold pollKey
  split
  · exact mark_frame apart false p
  · rename_i t held
    rw [mark_frame apart]
    have none' : (pollTailer o key (e.files t.session.transcript) o.maxEventPolls 0 t).2.1.filter (·.key = k) = [] := by
      refine List.filter_eq_nil_iff.mpr fun d inside same => ?_
      rw [pollTailer_keys _ _ _ _ _ _ d inside] at same
      exact apart (of_decide_eq_true same).symm
    simp [slot,Dict.get_set,apart,List.filter_append,none']

theorem openTailer_frame (apart : k ≠ key) (newSession : Bool) (s : Session κ) (p : Pool κ ρ ε) :
    slot (openTailer o e newSession key s p) k = slot p k := by
  simp [openTailer,slot,Dict.get_set,Dict.get_erase,apart]

theorem attach_frame (apart : k ≠ key) (newSession : Bool) (s : Session κ) (p : Pool κ ρ ε) :
    slot (attach o e newSession key s p) k = slot p k := by
  have dropped : slot (if (p.tailers.get key).isSome && p.paths.get key ≠ some s.transcript then drop false key p else p) k =
      slot p k := by
    split
    · exact drop_frame false apart p
    · rfl
  unfold attach
  simp only
  rw [← dropped]
  split
  · simp [slot,Dict.get_set,apart]
  · exact openTailer_frame apart newSession s _

theorem update_frame (apart : k ≠ key) (newSession : Bool) (s : Session κ) (p : Pool κ ρ ε) :
    slot (update o e newSession key s p) k = slot p k := by
  unfold update
  split
  · split
    · exact capture_frame apart _ s p
    · exact drop_frame true apart p
  · simp only
    split
    · exact attach_frame apart newSession s p
    · rw [pollKey_frame apart,attach_frame apart]

theorem expire_frame (apart : k ≠ key) (p : Pool κ ρ ε) : slot (expire o e key p) k = slot p k := by
  unfold expire
  split
  · exact drop_frame false apart p
  · split
    · rfl
    · exact drop_frame true apart p

theorem updateAt_frame (apart : k ≠ key) (known : List κ) (p : Pool κ ρ ε) :
    slot (updateAt o e known key p) k = slot p k := by
  unfold updateAt
  split
  · rfl
  · exact update_frame apart _ _ p

theorem loop_slot (act : κ → Pool κ ρ ε → Pool κ ρ ε)
    (frame : ∀ key, k ≠ key → ∀ p, slot (act key p) k = slot p k) (keys : List κ) (distinct : keys.Nodup) (p : Pool κ ρ ε) :
    (k ∉ keys → slot (keys.foldl (fun p key => act key p) p) k = slot p k) ∧
    (k ∈ keys → ∃ q, slot q k = slot p k ∧ slot (keys.foldl (fun p key => act key p) p) k = slot (act k q) k) := by
  induction keys generalizing p with
  | nil => simp
  | cons key rest ih =>
    obtain ⟨fresh,later⟩ := List.nodup_cons.mp distinct
    obtain ⟨away,inside⟩ := ih later (act key p)
    refine ⟨fun absent => ?_,fun present => ?_⟩
    · have apart : k ≠ key := fun same => absent (same ▸ List.mem_cons_self)
      exact (away fun within => absent (List.mem_cons_of_mem _ within)).trans (frame key apart p)
    · rcases List.mem_cons.mp present with rfl | within
      · exact ⟨p,rfl,away fresh⟩
      · have apart : k ≠ key := fun same => fresh (same ▸ within)
        obtain ⟨q,same,reached⟩ := inside within
        exact ⟨q,same.trans (frame key apart p),reached⟩

-- One file at the looks of one refresh.
structure Looks (r : Reader ρ) (identity : Nat) (looks : Nat → Option File) : Prop where
  shows : ∀ i, Shows r identity (looks i)
  grows : ∀ i j, i ≤ j → bytes (looks i) <+: bytes (looks j)

theorem unread_none (follows : Follows r identity start seen f out) (begun : seen <+: bytes look)
    (read : hasUnreadData look f = false) : f.records = [] ∧ seen = bytes look := by
  unfold hasUnreadData at read
  simp only [Bool.or_eq_false_iff,decide_eq_false_iff_not,not_not] at read
  refine ⟨read.1,begun.eq_of_length_le ?_⟩
  cases look with
  | none => exact Nat.zero_le _
  | some file =>
    have := read.2
    simp only [Option.map_some,Option.getD_some,decide_eq_false_iff_not,not_lt,follows.offset] at this
    exact this

omit [DecidableEq κ] in
theorem pollTailer_follows (o : Options κ ρ ε) (k : κ) (looked : Looks o.reader identity looks) (steps i : Nat)
    (t : Tailer κ ρ) (follows : Follows o.reader identity start seen t.follower out)
    (begun : seen <+: bytes (looks (2 * i + 1))) :
    ∃ after sent more later, pollTailer o k looks steps i t = (after,sent,more) ∧ after.session = t.session ∧
      Follows o.reader identity start later after.follower (out ++ sent.map (·.record)) ∧ seen <+: later ∧
      (∃ j, later <+: bytes (looks j)) ∧
      (more = false → after.follower.records = [] ∧ ∃ j, later = bytes (looks j)) := by
  induction steps generalizing i t seen out with
  | zero => exact ⟨t,[],true,seen,rfl,rfl,by simpa using follows,List.prefix_rfl,⟨_,begun⟩,nofun⟩
  | succ steps ih =>
    obtain ⟨f,records,later,polled,follows,grown,within⟩ :=
      poll_follows o.reader follows (looks (2 * i + 1)) (looked.shows _) begun
    have mapped : (records.map fun record => (⟨k,record,o.normalize t.session record⟩ : Delivery κ ρ ε)).map (·.record) =
        records := by rw [List.map_map]; exact List.map_id' records
    unfold pollTailer
    simp only [polled]
    split
    · rename_i quiet
      have next := within.trans (looked.grows (2 * i + 1) (2 * i + 2) (Nat.le_succ _))
      simp only [Bool.and_eq_true,Bool.not_eq_true'] at quiet
      have read := unread_none follows next quiet.2
      refine ⟨{t with follower := f},_,false,later,rfl,rfl,?_,grown,⟨_,within⟩,fun _ => ⟨read.1,_,read.2⟩⟩
      rw [mapped]; exact follows
    · have next := within.trans (looked.grows (2 * i + 1) (2 * (i + 1) + 1) (by omega))
      obtain ⟨after,sent,more,last,ran,session,follows',grown',reached,caught⟩ := ih (i + 1) {t with follower := f} follows next
      rw [ran]
      refine ⟨_,_,_,last,rfl,session,?_,grown.trans grown',reached,caught⟩
      rw [List.map_append,mapped,← List.append_assoc]
      exact follows'

-- The session is tailed, or a checkpoint of its tailer is kept.
def Watched (r : Reader ρ) (path : String) (identity : Nat) (start seen : Bytes) (s : Slot κ ρ) : Prop :=
  (∃ t, s.tailer = some t ∧ s.path = some path ∧ t.session.transcript = path ∧
    Follows r identity start seen t.follower s.out) ∨
  s.tailer = none ∧ ¬ s.pending ∧ ∃ f, s.checkpoint = some (path,exportCheckpoint path f) ∧
    Follows r identity start seen f s.out

theorem drop_watched (watched : Watched r path identity start seen (slot p k)) :
    Watched r path identity start seen (slot (drop true k p) k) := by
  refine .inr ⟨by simp [slot,drop,Dict.get_erase],by simp [slot,drop],?_⟩
  rcases watched with ⟨t,held,named,same,follows⟩ | ⟨none',_,f,saved,follows⟩
  · refine ⟨t.follower,?_,follows⟩
    have held : p.tailers.get k = some t := held
    have named : p.paths.get k = some path := named
    simp [slot,drop,held,named,same,Dict.get_set]
  · refine ⟨f,?_,follows⟩
    have none' : p.tailers.get k = none := none'
    have saved : p.checkpoints.get k = some (path,exportCheckpoint path f) := saved
    simp [slot,drop,none',saved]

theorem mark_slot (more : Bool) (p : Pool κ ρ ε) : slot (mark more k p) k = {slot p k with pending := more = true} := by
  unfold mark discard
  cases more with
  | true =>
    simp only [if_true,slot,Slot.mk.injEq,true_and,and_true]
    split <;> simp_all
  | false => simp [slot]

-- What a poll leaves: more of the file is read, and all of it where no poll is pending.
def Reached (r : Reader ρ) (path : String) (identity : Nat) (start seen : Bytes) (looks : Nat → Option File)
    (s : Slot κ ρ) : Prop :=
  ∃ later, Watched r path identity start later s ∧ seen <+: later ∧ ∃ j, later <+: bytes (looks j)

def CaughtUp (r : Reader ρ) (start : Bytes) (looks : Nat → Option File) (s : Slot κ ρ) : Prop :=
  ¬ s.pending → ∃ j, s.out = recordsSince r start (bytes (looks j))

theorem pollTailed (looked : Looks o.reader identity (e.files path)) (held : (slot p k).tailer = some t)
    (named : (slot p k).path = some path) (same : t.session.transcript = path)
    (follows : Follows o.reader identity start seen t.follower (slot p k).out) (begun : seen <+: bytes (e.files path 0)) :
    Reached o.reader path identity start seen (e.files path) (slot (pollKey o e k p) k) ∧
      CaughtUp o.reader start (e.files path) (slot (pollKey o e k p) k) := by
  have held : p.tailers.get k = some t := held
  have named : p.paths.get k = some path := named
  obtain ⟨after,sent,more,later,ran,session,follows',grown,reached,caught⟩ := pollTailer_follows o k looked o.maxEventPolls 0 t
    follows (begun.trans (looked.grows 0 _ (Nat.zero_le _)))
  have keyed := pollTailer_keys o k (e.files path) o.maxEventPolls 0 t
  rw [ran] at keyed
  have mine : sent.filter (·.key = k) = sent := List.filter_eq_self.mpr fun d inside => decide_eq_true (keyed d inside)
  have shape : slot (pollKey o e k p) k =
      {slot p k with tailer := some after,pending := more = true,out := (slot p k).out ++ sent.map (·.record)} := by
    simp only [pollKey,held,same,ran,mark_slot]
    simp [slot,Dict.get_set,List.filter_append,mine]
  rw [shape]
  refine ⟨⟨later,.inl ⟨after,rfl,named,by rw [session]; exact same,follows'⟩,grown,reached⟩,fun idle => ?_⟩
  obtain ⟨empty,j,all⟩ := caught (by simpa using idle)
  have exact' := follows'.exact
  rw [empty,List.append_nil] at exact'
  exact ⟨j,all ▸ exact'⟩

theorem pollKey_watched (looked : Looks o.reader identity (e.files path))
    (watched : Watched o.reader path identity start seen (slot p k)) (begun : seen <+: bytes (e.files path 0)) :
    Reached o.reader path identity start seen (e.files path) (slot (pollKey o e k p) k) ∧
      ((slot p k).pending → CaughtUp o.reader start (e.files path) (slot (pollKey o e k p) k)) := by
  rcases watched with ⟨t,held,named,same,follows⟩ | ⟨none',idle,rest⟩
  · have polled := pollTailed looked held named same follows begun
    exact ⟨polled.1,fun _ => polled.2⟩
  · have unheld : p.tailers.get k = none := none'
    have shape : slot (pollKey o e k p) k = slot p k := by
      have idle : k ∉ p.pending := idle
      simp [pollKey,unheld,discard,slot,idle]
    rw [shape]
    exact ⟨⟨seen,.inr ⟨none',idle,rest⟩,List.prefix_rfl,0,begun⟩,fun waits => absurd waits idle⟩

theorem attach_watched (newSession : Bool) (s : Session κ) (same : s.transcript = path)
    (watched : Watched o.reader path identity start seen (slot p k)) :
    ∃ t, (slot (attach o e newSession k s p) k).tailer = some t ∧
      (slot (attach o e newSession k s p) k).path = some path ∧ t.session.transcript = path ∧
      Follows o.reader identity start seen t.follower (slot (attach o e newSession k s p) k).out := by
  rcases watched with ⟨t,held,named,_,follows⟩ | ⟨none',_,f,saved,follows⟩
  · have held : p.tailers.get k = some t := held
    have named : p.paths.get k = some path := named
    have shape : attach o e newSession k s p = {p with tailers := p.tailers.set k {t with session := s}} := by
      simp [attach,held,named,same]
    rw [shape]
    exact ⟨{t with session := s},by simp [slot,Dict.get_set],named,same,follows⟩
  · have unheld : p.tailers.get k = none := none'
    have saved : p.checkpoints.get k = some (path,exportCheckpoint path f) := saved
    have shape : attach o e newSession k s p = openTailer o e newSession k s p := by simp [attach,unheld]
    rw [shape]
    refine ⟨_,by simp [openTailer,slot,Dict.get_set]; rfl,by simp [openTailer,slot,Dict.get_set,same],same,?_⟩
    simp only [saved,same,if_true]
    exact restore_follows path follows _

theorem update_watched (looked : Looks o.reader identity (e.files path)) (newSession : Bool) (s : Session κ)
    (same : s.transcript = path) (running : e.initial = false)
    (watched : Watched o.reader path identity start seen (slot p k)) (begun : seen <+: bytes (e.files path 0)) :
    Reached o.reader path identity start seen (e.files path) (slot (update o e newSession k s p) k) ∧
      (shouldTail o e.now s = true → CaughtUp o.reader start (e.files path) (slot (update o e newSession k s p) k)) := by
  unfold update
  cases tails : shouldTail o e.now s with
  | false =>
    simp only [running,Bool.not_false,if_true,Bool.false_eq_true,if_false]
    exact ⟨⟨seen,drop_watched watched,List.prefix_rfl,0,begun⟩,nofun⟩
  | true =>
    simp only [running,Bool.not_true,Bool.false_eq_true,if_false]
    obtain ⟨t,held,named,same,follows⟩ := attach_watched newSession s same watched
    have polled := pollTailed looked held named same follows begun
    exact ⟨polled.1,fun _ => polled.2⟩

-- The slot of a session the pool holds nothing of, but what it published.
def vacant (out : List ρ) : Slot κ ρ := ⟨none,none,none,False,out⟩

theorem drop_vacant (p : Pool κ ρ ε) : slot (drop false k p) k = vacant (slot p k).out := by
  have cleared : (drop false k p).checkpoints.get k = none := by
    simp only [drop,Bool.false_eq_true,if_false]
    split <;> simp [Dict.get_erase]
  simp only [slot,cleared,vacant,Slot.mk.injEq]
  simp [drop,Dict.get_erase]

theorem dropAll_slot (keys : List κ) (p : Pool κ ρ ε) :
    (k ∉ keys → slot (keys.foldl (fun p key => drop false key p) p) k = slot p k) ∧
    (k ∈ keys ∨ slot p k = vacant (slot p k).out →
      slot (keys.foldl (fun p key => drop false key p) p) k = vacant (slot p k).out) := by
  induction keys generalizing p with
  | nil => exact ⟨fun _ => rfl,fun either => either.resolve_left (by simp)⟩
  | cons key rest ih =>
    obtain ⟨away,within⟩ := ih (drop false key p)
    by_cases same : k = key
    · subst same
      refine ⟨fun absent => absurd List.mem_cons_self absent,fun _ => ?_⟩
      rw [List.foldl_cons,within (.inr (by rw [drop_vacant]; rfl)),drop_vacant]
      rfl
    · have framed := drop_frame false same p
      rw [framed] at away within
      refine ⟨fun absent => away fun inside => absent (List.mem_cons_of_mem _ inside),fun either => within ?_⟩
      exact either.imp_left fun inside => (List.mem_cons.mp inside).resolve_left same

theorem dropRemoved_slot (either : k ∈ (currentOf e).keys ∨ k ∉ p.knownKeys) : slot (dropRemoved e p) k = slot p k := by
  refine (dropAll_slot _ p).1 fun inside => ?_
  obtain ⟨known,gone⟩ := List.mem_filter.mp inside
  exact either.elim (by simpa using gone) (absurd known)

theorem dropRemoved_vacant (known : k ∈ p.knownKeys) (gone : k ∉ (currentOf e).keys) :
    slot (dropRemoved e p) k = vacant (slot p k).out :=
  (dropAll_slot _ p).2 (.inl (List.mem_filter.mpr ⟨known,by simpa using gone⟩))

theorem expireStale_watched (found : (currentOf e).get k = some s)
    (watched : Watched o.reader path identity start seen (slot p k)) :
    Watched o.reader path identity start seen (slot (expireStale o e p) k) ∧
      (shouldTail o e.now s = true → slot (expireStale o e p) k = slot p k) := by
  obtain ⟨away,once⟩ := loop_slot (k := k) (expire o e) (fun _ apart _ => expire_frame apart _) p.tailers.keys
    p.tailers.unique p
  by_cases held : k ∈ p.tailers.keys
  · obtain ⟨q,same,reached⟩ := once held
    unfold expireStale
    rw [reached]
    simp only [expire,found]
    split
    · exact ⟨same ▸ watched,fun _ => same⟩
    · rename_i stale
      exact ⟨drop_watched (same ▸ watched),fun tails => absurd tails stale⟩
  · unfold expireStale
    rw [away held]
    exact ⟨watched,fun _ => rfl⟩

section Refreshed
variable {κ ρ ε : Type} [LinearOrder κ] {o : Options κ ρ ε} {e : Refresh κ} {p : Pool κ ρ ε} {k : κ}

theorem changed_mem (found : (currentOf e).get k = some s) : k ∈ changedOf e ↔ k ∈ e.changed := by
  have present := (Dict.mem_keys _).mpr ⟨s,found⟩
  simp [changedOf,present]

theorem updateChanged_slot (known : List κ) (p : Pool κ ρ ε) :
    (k ∉ changedOf e → slot (updateChanged o e known p) k = slot p k) ∧
    (k ∈ changedOf e → ∃ q, slot q k = slot p k ∧ slot (updateChanged o e known p) k = slot (updateAt o e known k q) k) := by
  have distinct : ((changedOf e).insertionSort (· ≤ ·)).Nodup :=
    (List.perm_insertionSort _ _).nodup_iff.mpr ((currentOf e).unique.filter _)
  obtain ⟨away,once⟩ := loop_slot (k := k) (updateAt o e known) (fun _ apart _ => updateAt_frame apart known _) _ distinct p
  exact ⟨fun absent => away (by simpa using absent),fun present => once (by simpa using present)⟩

theorem pollPending_slot (p : Pool κ ρ ε) :
    ((k ∉ p.pending ∨ k ∈ changedOf e) → slot (pollPending o e p) k = slot p k) ∧
    ((k ∈ p.pending ∧ k ∉ changedOf e) → ∃ q, slot q k = slot p k ∧
      slot (pollPending o e p) k = slot (pollKey o e k q) k) := by
  have distinct : ((p.pending.filter (· ∉ changedOf e)).dedup.insertionSort (· ≤ ·)).Nodup :=
    (List.perm_insertionSort _ _).nodup_iff.mpr (List.nodup_dedup _)
  have inside : k ∈ (p.pending.filter (· ∉ changedOf e)).dedup.insertionSort (· ≤ ·) ↔
      k ∈ p.pending ∧ k ∉ changedOf e := by simp
  obtain ⟨away,once⟩ := loop_slot (k := k) (pollKey o e) (fun _ apart _ => pollKey_frame apart _) _ distinct p
  refine ⟨fun absent => away fun within => ?_,fun present => once (inside.mpr present)⟩
  obtain ⟨waits,fresh⟩ := inside.mp within
  exact absent.elim (absurd waits) fresh

theorem refresh_slot (o : Options κ ρ ε) (p : Pool κ ρ ε) (e : Refresh κ) : slot (refresh o p e) k =
    slot (pollPending o e (updateChanged o e p.knownKeys (expireStale o e (dropRemoved e p)))) k := rfl

-- A known session through one refresh.
theorem refresh_watched (looked : Looks o.reader identity (e.files path)) (found : (currentOf e).get k = some s)
    (same : s.transcript = path) (running : e.initial = false)
    (watched : Watched o.reader path identity start seen (slot p k)) (begun : seen <+: bytes (e.files path 0)) :
    Reached o.reader path identity start seen (e.files path) (slot (refresh o p e) k) ∧
      (shouldTail o e.now s = true → k ∈ e.changed ∨ k ∈ p.pending →
        CaughtUp o.reader start (e.files path) (slot (refresh o p e) k)) := by
  have present := (Dict.mem_keys _).mpr ⟨s,found⟩
  have dropped := dropRemoved_slot (p := p) (e := e) (.inl present)
  obtain ⟨expired,kept⟩ := expireStale_watched (o := o) found (dropped.symm ▸ watched)
  rw [dropped] at kept
  rw [refresh_slot]
  generalize expireStale o e (dropRemoved e p) = q at expired kept
  obtain ⟨away,once⟩ := updateChanged_slot (o := o) (e := e) (k := k) p.knownKeys q
  generalize updateChanged o e p.knownKeys q = updated at away once
  obtain ⟨rest,polled⟩ := pollPending_slot (o := o) (e := e) (k := k) updated
  by_cases changed : k ∈ changedOf e
  · obtain ⟨before,view,reached⟩ := once changed
    rw [rest (.inr changed),reached]
    simp only [updateAt,found]
    obtain ⟨reached,caught⟩ := update_watched looked (k ∉ p.knownKeys) s same running (view.symm ▸ expired) begun
    exact ⟨reached,fun tails _ => caught tails⟩
  · have unchanged := away changed
    have watched' : Watched o.reader path identity start seen (slot updated k) := unchanged.symm ▸ expired
    by_cases waits : k ∈ updated.pending
    · obtain ⟨before,view,reached⟩ := polled ⟨waits,changed⟩
      rw [reached]
      obtain ⟨reached,caught⟩ := pollKey_watched looked (view.symm ▸ watched') begun
      exact ⟨reached,fun _ _ => caught (view.symm ▸ waits)⟩
    · rw [rest (.inl waits)]
      refine ⟨⟨seen,watched',List.prefix_rfl,0,begun⟩,fun tails either => ?_⟩
      have waiting : k ∈ p.pending := either.resolve_left fun inside => changed ((changed_mem found).mpr inside)
      have before : (slot updated k).pending = (slot p k).pending := by rw [unchanged,kept tails]
      exact absurd (before.symm ▸ waiting : (slot updated k).pending) waits

end Refreshed
end AgentSideCar.Tail
