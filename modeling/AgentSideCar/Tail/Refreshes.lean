import AgentSideCar.Tail.Watch

namespace AgentSideCar.Tail
variable {κ ρ ε : Type} [LinearOrder κ] {o : Options κ ρ ε} {e first last : Refresh κ} {p : Pool κ ρ ε} {k : κ}

theorem order_lawful [LinearOrder α] : LawfulBEq α := inferInstance
attribute [local instance] order_lawful

-- A session the pool does not know and holds nothing of.
def Unseen (p : Pool κ ρ ε) (k : κ) (out : List ρ) : Prop := k ∉ p.knownKeys ∧ slot p k = vacant out

theorem unseen_start (k : κ) : Unseen ({} : Pool κ ρ ε) k [] := by simp [Unseen,slot,vacant,Dict.get_empty]

theorem expireStale_vacant (vacated : slot p k = vacant out) : slot (expireStale o e p) k = vacant out := by
  have none' : p.tailers.get k = none := congrArg Slot.tailer vacated
  rw [← vacated]
  exact (loop_slot (k := k) (expire o e) (fun _ apart _ => expire_frame apart _) _ p.tailers.unique p).1
    ((Dict.get_none _).mp none')

theorem unseen_stale (unseen : Unseen p k out) : slot (expireStale o e (dropRemoved e p)) k = vacant out :=
  expireStale_vacant ((dropRemoved_slot (.inr unseen.1)).trans unseen.2)

theorem currentOf_mem (e : Refresh κ) : k ∈ (currentOf e).keys ↔ k ∈ e.sessions.map (·.key) := by
  have general : ∀ (sessions : List (Session κ)) (current : Dict κ (Session κ)),
      k ∈ (sessions.foldl (fun current s => current.set s.key s) current).keys ↔
        k ∈ current.keys ∨ k ∈ sessions.map (·.key) := by
    intro sessions
    induction sessions with
    | nil => simp
    | cons s rest ih =>
      intro current
      have added : k ∈ (current.set s.key s).keys ↔ k ∈ current.keys ∨ k = s.key := by
        simp only [Dict.mem_keys,Dict.get_set]
        by_cases same : k = s.key
        · simp [same]
        · simp [same]
      rw [List.foldl_cons,ih,added,List.map_cons,List.mem_cons,or_assoc]
  rw [currentOf,general]
  simp [Dict.keys,Dict.empty]

theorem refresh_away (away : k ∉ (currentOf e).keys)
    (vacated : slot (expireStale o e (dropRemoved e p)) k = vacant out) : Unseen (refresh o p e) k out := by
  refine ⟨away,?_⟩
  rw [refresh_slot]
  generalize expireStale o e (dropRemoved e p) = q at vacated
  have unchanged := (updateChanged_slot (o := o) (e := e) (k := k) p.knownKeys q).1
    fun inside => away (List.mem_filter.mp inside).1
  rw [(pollPending_slot _).1 (.inl fun waits => ?_),unchanged,vacated]
  exact (congrArg Slot.pending (unchanged.trans vacated)).mp waits

theorem refresh_unseen (unseen : Unseen p k out) (absent : k ∉ e.sessions.map (·.key)) : Unseen (refresh o p e) k out :=
  refresh_away (fun inside => absent ((currentOf_mem e).mp inside)) (unseen_stale unseen)

theorem refresh_hidden (known : k ∈ p.knownKeys) (absent : k ∉ e.sessions.map (·.key)) :
    Unseen (refresh o p e) k (slot p k).out := by
  have away : k ∉ (currentOf e).keys := fun inside => absent ((currentOf_mem e).mp inside)
  exact refresh_away away (expireStale_vacant (dropRemoved_vacant known away))

theorem refreshAll_unseen (unseen : Unseen p k out) (events : List (Refresh κ))
    (absent : ∀ e ∈ events, k ∉ e.sessions.map (·.key)) : Unseen (refreshAll o p events) k out := by
  induction events generalizing p with
  | nil => exact unseen
  | cons e rest ih =>
    exact ih (refresh_unseen unseen (absent e List.mem_cons_self)) fun e inside => absent e (List.mem_cons_of_mem _ inside)

-- What is asked of the refresh that first shows a session: it is reported changed, and
-- a tailer or, at the pool's first refresh, a checkpoint is made of it.
def Noticed (o : Options κ ρ ε) (k : κ) (first : Refresh κ) : Prop :=
  k ∈ first.changed ∧ ∀ s, (currentOf first).get k = some s → shouldTail o first.now s = true ∨
    first.initial = true ∧ supportsTailing s = true ∧ (first.files s.transcript 0).isSome = true

-- At the pool's first refresh a session begins at the end of its file, later at 0.
def startOf (path : String) (opening : Bool) (first : Refresh κ) : Bytes := if opening then bytes (first.files path 0) else []

theorem attach_unseen (s : Session κ) (blank : slot p k = vacant []) (newSession : Bool) :
    slot (attach o e newSession k s p) k = ⟨some ⟨s,initializeFollower o.reader.bounds (newSession && !e.initial)
      (e.files s.transcript 0)⟩,some s.transcript,none,False,[]⟩ := by
  have unheld : p.tailers.get k = none := congrArg Slot.tailer blank
  have unsaved : p.checkpoints.get k = none := congrArg Slot.checkpoint blank
  have idle : (k ∈ p.pending) = False := congrArg Slot.pending blank
  have silent : (p.published.filter (·.key = k)).map (·.record) = [] := congrArg Slot.out blank
  simp only [attach,unheld,Option.isSome_none,Bool.false_and,Bool.false_eq_true,if_false]
  simp [slot,openTailer,unsaved,Dict.get_set,Dict.get_erase,idle,silent]

theorem initialize_follows (r : Reader ρ) (identity : Nat) (fromStart : Bool) (look : Option File)
    (shows : Shows r identity look) :
    ∃ start, start = (if fromStart then [] else bytes look) ∧
      Follows r identity start start (initializeFollower r.bounds fromStart look) [] := by
  refine ⟨_,rfl,?_⟩
  cases look with
  | none => cases fromStart <;> exact initialize_missing r identity _
  | some f =>
    obtain ⟨rfl,opens,_⟩ := shows f rfl
    cases fromStart with
    | true => exact initialize_start r f
    | false => exact initialize_end r f opens

theorem first_watched (looked : Looks o.reader identity (e.files path)) (found : (currentOf e).get k = some s)
    (same : s.transcript = path) (unseen : Unseen p k []) (noticed : Noticed o k e) :
    Reached o.reader path identity (startOf path e.initial e) (startOf path e.initial e) (e.files path) (slot (refresh o p e) k) ∧
      (shouldTail o e.now s = true → e.initial = false →
        CaughtUp o.reader (startOf path e.initial e) (e.files path) (slot (refresh o p e) k)) := by
  have stale := unseen_stale (o := o) (e := e) unseen
  rw [refresh_slot]
  generalize expireStale o e (dropRemoved e p) = q at stale
  have changed : k ∈ changedOf e := (changed_mem found).mpr noticed.1
  obtain ⟨before,view,reached⟩ := (updateChanged_slot (o := o) p.knownKeys q).2 changed
  rw [(pollPending_slot _).1 (.inr changed),reached]
  have blank := view.trans stale
  have new : decide (k ∉ p.knownKeys) = true := decide_eq_true unseen.1
  simp only [updateAt,found,new]
  obtain ⟨start,begins,follows⟩ := initialize_follows o.reader identity (true && !e.initial) (e.files path 0) (looked.shows 0)
  have begins : start = startOf path e.initial e := by
    rw [begins,startOf]
    cases e.initial <;> rfl
  rw [begins] at follows
  have opened : startOf path e.initial e <+: bytes (e.files path 0) := by
    unfold startOf
    split
    · exact List.prefix_rfl
    · exact List.nil_prefix
  generalize startOf path e.initial e = start at follows opened ⊢
  have attached := attach_unseen (o := o) (e := e) s blank true
  rw [same] at attached
  unfold update
  cases tails : shouldTail o e.now s with
  | true =>
    simp only [Bool.not_true,Bool.false_eq_true,if_false]
    cases opening : e.initial with
    | true =>
      simp only [if_true]
      rw [attached]
      refine ⟨⟨_,.inl ⟨_,rfl,rfl,same,follows⟩,List.prefix_rfl,0,opened⟩,fun _ running => ?_⟩
      cases running
    | false =>
      simp only [Bool.false_eq_true,if_false]
      have polled := pollTailed (p := attach o e true k s before) (t := ⟨s,_⟩) looked (by rw [attached]) (by rw [attached]) same
        (by rw [attached]; exact follows) opened
      exact ⟨polled.1,fun _ _ => polled.2⟩
  | false =>
    obtain ⟨opening,supported,exists'⟩ := (noticed.2 s found).resolve_left (by rw [tails]; simp)
    rw [same] at exists'
    have captured : slot (captureInitialCheckpoint o (e.files path 0) k s before) k = {slot before k with
        checkpoint := some (path,exportCheckpoint path (initializeFollower o.reader.bounds false (e.files path 0)))} := by
      have looks : (e.files path 0).isNone = false := by simpa using exists'
      simp [captureInitialCheckpoint,supported,looks,slot,Dict.get_set,same]
    simp only [Bool.not_false,if_true,opening,same]
    rw [captured,blank]
    rw [opening] at follows
    refine ⟨⟨start,.inr ⟨rfl,id,_,rfl,follows⟩,List.prefix_rfl,0,opened⟩,fun watched => ?_⟩
    cases watched

-- The session's transcript path is the same wherever it shows, and names one file,
-- which is only appended to.
def Named (k : κ) (path : String) (events : List (Refresh κ)) : Prop :=
  ∀ e ∈ events, ∀ s, (currentOf e).get k = some s → s.transcript = path

structure Appended (path : String) (identity : Nat) (events : List (Refresh κ)) : Prop where
  one : ∀ e ∈ events, ∀ i f, e.files path i = some f → f.identity = identity
  grows : ∀ e ∈ events, ∀ i j, i ≤ j → bytes (e.files path i) <+: bytes (e.files path j)
  later : events.Pairwise fun e e' => ∀ i j, bytes (e.files path i) <+: bytes (e'.files path j)

-- The file can be opened at every look, and no line of it raises.
def Readable (r : Reader ρ) (looks : Nat → Option File) : Prop :=
  ∀ i f, looks i = some f → f.opens = true ∧ ∀ line ∈ Lines.lines newline f.content, Loads r line

-- Only a pool's first refresh is an initial one, and it is one where it shows the session.
def Opens (k : κ) (events : List (Refresh κ)) : Prop :=
  (∀ e ∈ events.head?, k ∈ e.sessions.map (·.key) → e.initial = true) ∧ ∀ e ∈ events.tail, e.initial = false

-- A refresh that shows the session again must notice it, and the transcript must have
-- held no record when it was last shown.
def Retaken (o : Options κ ρ ε) (k : κ) (path : String) : Bool → Prop → List (Refresh κ) → Prop
  | _,_,[] => True
  | gone,clean,e :: rest =>
    if k ∈ e.sessions.map (·.key) then (gone = true → Noticed o k e ∧ clean) ∧
      Retaken o k path false (∀ j, recordsSince o.reader [] (bytes (e.files path j)) = []) rest
    else Retaken o k path true clean rest

-- What a refresh leaves published of a session: a first part of the records of the
-- lines completed since the start, and all of them where it polled the session dry.
structure Exact (o : Options κ ρ ε) (k : κ) (path : String) (start : Bytes) (before : Pool κ ρ ε) (e : Refresh κ) : Prop where
  sent : ∃ j, (slot (refresh o before e) k).out <+: recordsSince o.reader start (bytes (e.files path j))
  caughtUp : ∀ s, (currentOf e).get k = some s → shouldTail o e.now s = true → e.initial = false →
    k ∈ e.changed ∨ k ∈ before.pending → k ∉ (refresh o before e).pending →
    ∃ j, (slot (refresh o before e) k).out = recordsSince o.reader start (bytes (e.files path j))

-- A tailer may begin anew at 0 as long as the records are the same from there.
def Alike (r : Reader ρ) (start base : Bytes) : Prop := base = start ∨ base = [] ∧ recordsSince r [] start = []

theorem recordsSince_split (r : Reader ρ) (begun : start <+: content) :
    recordsSince r [] content = recordsSince r [] start ++ recordsSince r start content := by
  obtain ⟨rest,same⟩ := @Lines.lines_begin _ _ newline _ _ begun
  simp only [recordsSince,Lines.lines,Lines.feed,List.length_nil,List.drop_zero] at same ⊢
  rw [← same,List.drop_left,List.filterMap_append]

theorem alike_same (alike : Alike r start base) (begun : start <+: content) :
    recordsSince r base content = recordsSince r start content := by
  rcases alike with rfl | ⟨rfl,none'⟩
  · rfl
  · rw [recordsSince_split r begun,none',List.nil_append]

theorem watched_out (watched : Watched r path identity start seen s) :
    start <+: seen ∧ s.out <+: recordsSince r start seen := by
  have general : ∀ f, Follows r identity start seen f s.out → start <+: seen ∧ s.out <+: recordsSince r start seen :=
    fun f follows => ⟨follows.begun,follows.exact ▸ List.prefix_append _ f.records⟩
  rcases watched with ⟨t,_,_,_,follows⟩ | ⟨_,_,f,_,follows⟩
  · exact general _ follows
  · exact general f follows

-- The session between two refreshes, shown at the last one or gone.
structure Tracked (r : Reader ρ) (k : κ) (path : String) (identity : Nat) (start : Bytes) (gone : Bool) (clean : Prop)
    (seen : Bytes) (p : Pool κ ρ ε) : Prop where
  base : ∃ base, Alike r start base ∧ base <+: seen ∧ (slot p k).out <+: recordsSince r base seen ∧
    (gone = false → k ∈ p.knownKeys ∧ Watched r path identity base seen (slot p k))
  vacated : gone = true → Unseen p k (slot p k).out
  silent : clean → recordsSince r [] seen = [] ∧ recordsSince r [] start = []

theorem tracked_out (tracked : Tracked r k path identity start gone clean seen p) (within : seen <+: content)
    (begun : start <+: content) : (slot p k).out <+: recordsSince r start content := by
  obtain ⟨base,alike,opened,sent,_⟩ := tracked.base
  rw [← alike_same alike begun]
  exact sent.trans (recordsSince_grows r opened within)

theorem reached_tracked (alike : Alike o.reader start base) (begun : ∀ i, start <+: bytes (e.files path i))
    (present : k ∈ e.sessions.map (·.key))
    (reached : Reached o.reader path identity base seen (e.files path) (slot (refresh o p e) k)) :
    ∃ later, Tracked o.reader k path identity start false (∀ j, recordsSince o.reader [] (bytes (e.files path j)) = []) later
      (refresh o p e) ∧ ∃ j, later <+: bytes (e.files path j) := by
  obtain ⟨later,watched,_,j,within⟩ := reached
  obtain ⟨opened,sent⟩ := watched_out watched
  refine ⟨later,⟨⟨base,alike,opened,sent,fun _ => ⟨(currentOf_mem e).mpr present,watched⟩⟩,nofun,fun silent => ⟨?_,?_⟩⟩,j,within⟩
  · exact List.prefix_nil.mp (silent j ▸ recordsSince_grows o.reader List.nil_prefix within)
  · exact List.prefix_nil.mp (silent 0 ▸ recordsSince_grows o.reader List.nil_prefix (begun 0))

theorem caughtUp_start (alike : Alike o.reader start base) (begun : ∀ i, start <+: bytes (e.files path i))
    (caught : CaughtUp o.reader base (e.files path) (slot (refresh o p e) k)) (idle : k ∉ (refresh o p e).pending) :
    ∃ j, (slot (refresh o p e) k).out = recordsSince o.reader start (bytes (e.files path j)) := by
  obtain ⟨j,all⟩ := caught idle
  exact ⟨j,all.trans (alike_same alike (begun j))⟩

theorem current_some (present : k ∈ e.sessions.map (·.key)) : ∃ s, (currentOf e).get k = some s :=
  (Dict.mem_keys _).mp ((currentOf_mem e).mpr present)

theorem retaken_tracked (looked : Looks o.reader identity (e.files path)) (running : e.initial = false)
    (named : ∀ s, (currentOf e).get k = some s → s.transcript = path)
    (present : k ∈ e.sessions.map (·.key)) (unseen : Unseen p k []) (noticed : Noticed o k e)
    (alike : Alike o.reader start []) (begun : ∀ i, start <+: bytes (e.files path i)) :
    (∃ later, Tracked o.reader k path identity start false (∀ j, recordsSince o.reader [] (bytes (e.files path j)) = []) later
      (refresh o p e) ∧ ∃ j, later <+: bytes (e.files path j)) ∧ Exact o k path start p e := by
  obtain ⟨s,found⟩ := current_some present
  obtain ⟨reached,caught⟩ := first_watched looked found (named s found) unseen noticed
  rw [show startOf path e.initial e = [] by rw [startOf,running]; rfl] at reached caught
  obtain ⟨later,tracked,j,within⟩ := reached_tracked alike begun present reached
  refine ⟨⟨later,tracked,j,within⟩,⟨j,tracked_out tracked within (begun j)⟩,fun s' found' tails _ _ idle => ?_⟩
  cases found.symm.trans found'
  exact caughtUp_start alike begun (caught tails running) idle

theorem refresh_tracked (looked : Looks o.reader identity (e.files path)) (running : e.initial = false)
    (named : ∀ s, (currentOf e).get k = some s → s.transcript = path)
    (tracked : Tracked o.reader k path identity start gone clean seen p)
    (retaken : Retaken o k path gone clean (e :: rest)) (within : ∀ i, seen <+: bytes (e.files path i))
    (begun : ∀ i, start <+: bytes (e.files path i)) :
    (∃ gone clean later, Tracked o.reader k path identity start gone clean later (refresh o p e) ∧
      Retaken o k path gone clean rest ∧ ∃ j, later <+: bytes (e.files path j)) ∧ Exact o k path start p e := by
  obtain ⟨base,alike,opened,sent,held⟩ := tracked.base
  unfold Retaken at retaken
  split at retaken
  · rename_i present
    obtain ⟨again,rest⟩ := retaken
    cases gone with
    | true =>
      obtain ⟨noticed,quiet⟩ := again rfl
      obtain ⟨silent,before⟩ := tracked.silent quiet
      have unsent : (slot p k).out = [] := by
        have whole := recordsSince_split o.reader opened
        rw [silent] at whole
        exact List.prefix_nil.mp ((List.append_eq_nil_iff.mp whole.symm).2 ▸ sent)
      obtain ⟨⟨later,tracked,reached⟩,exact'⟩ := retaken_tracked looked running named present (unsent ▸ tracked.vacated rfl)
        noticed (.inr ⟨rfl,before⟩) begun
      exact ⟨⟨_,_,later,tracked,rest,reached⟩,exact'⟩
    | false =>
      obtain ⟨s,found⟩ := current_some present
      obtain ⟨reached,caught⟩ := refresh_watched looked found (named s found) running (held rfl).2 (within 0)
      obtain ⟨later,tracked,j,inside⟩ := reached_tracked alike begun present reached
      refine ⟨⟨_,_,later,tracked,rest,j,inside⟩,⟨j,tracked_out tracked inside (begun j)⟩,fun s' found' tails _ either idle => ?_⟩
      cases found.symm.trans found'
      exact caughtUp_start alike begun (caught tails either) idle
  · rename_i absent
    have unseen : Unseen (refresh o p e) k (slot p k).out := by
      cases gone with
      | true => exact refresh_unseen (tracked.vacated rfl) absent
      | false => exact refresh_hidden (held rfl).1 absent
    have same : (slot (refresh o p e) k).out = (slot p k).out := by rw [unseen.2]; rfl
    have tracked' : Tracked o.reader k path identity start true clean seen (refresh o p e) :=
      ⟨⟨base,alike,opened,same.symm ▸ sent,nofun⟩,fun _ => same.symm ▸ unseen,tracked.silent⟩
    refine ⟨⟨_,_,seen,tracked',retaken,0,within 0⟩,⟨0,tracked_out tracked' (within 0) (begun 0)⟩,fun s found => ?_⟩
    exact absurd ((currentOf_mem e).mp ((Dict.mem_keys _).mpr ⟨s,found⟩)) absent

omit [LinearOrder κ] in
theorem appended_looks (appended : Appended path identity events) (readable : ∀ e ∈ events, Readable o.reader (e.files path))
    (inside : e ∈ events) : Looks o.reader identity (e.files path) :=
  ⟨fun i f look => ⟨appended.one e inside i f look,readable e inside i f look⟩,appended.grows e inside⟩

omit [LinearOrder κ] in
theorem appended_tail (appended : Appended path identity (e :: events)) : Appended path identity events :=
  ⟨fun e inside => appended.one e (List.mem_cons_of_mem _ inside),
    fun e inside => appended.grows e (List.mem_cons_of_mem _ inside),(List.pairwise_cons.mp appended.later).2⟩

theorem refreshAll_tracked (events : List (Refresh κ)) (named : Named k path (events ++ [last])) (appended : Appended path identity (events ++ [last]))
    (readable : ∀ e ∈ events ++ [last], Readable o.reader (e.files path))
    (running : ∀ e ∈ events ++ [last], e.initial = false)
    (tracked : Tracked o.reader k path identity start gone clean seen p)
    (retaken : Retaken o k path gone clean (events ++ [last]))
    (within : ∀ e ∈ events ++ [last], ∀ i, seen <+: bytes (e.files path i))
    (begun : ∀ e ∈ events ++ [last], ∀ i, start <+: bytes (e.files path i)) :
    Exact o k path start (refreshAll o p events) last := by
  induction events generalizing p seen gone clean with
  | nil =>
    have inside : last ∈ [] ++ [last] := by simp
    exact (refresh_tracked (appended_looks appended readable inside) (running last inside) (named last inside) tracked
      retaken (within last inside) (begun last inside)).2
  | cons e rest ih =>
    have inside : e ∈ e :: rest ++ [last] := by simp
    obtain ⟨⟨_,_,later,tracked,retaken,j,reached⟩,_⟩ := refresh_tracked (appended_looks appended readable inside)
      (running e inside) (named e inside) tracked retaken (within e inside) (begun e inside)
    refine ih (fun e inside => named e (List.mem_cons_of_mem _ inside)) (appended_tail appended) (fun e inside => readable e (List.mem_cons_of_mem _ inside))
      (fun e inside => running e (List.mem_cons_of_mem _ inside)) tracked retaken (fun e' inside' i => ?_)
      fun e inside => begun e (List.mem_cons_of_mem _ inside)
    exact reached.trans ((List.pairwise_cons.mp appended.later).1 e' inside' j i)

-- The first refresh that could show the session: it does, or it hides it.
def Begun (o : Options κ ρ ε) (k : κ) (path : String) (start : Bytes) (first : Refresh κ) (later : List (Refresh κ)) : Prop :=
  if k ∈ first.sessions.map (·.key) then
    Noticed o k first ∧ Retaken o k path false (∀ j, recordsSince o.reader [] (bytes (first.files path j)) = []) later
  else Retaken o k path true (recordsSince o.reader [] start = []) later

omit [LinearOrder κ] in
theorem startOf_begun (opening : Bool) (appended : Appended path identity (first :: rest)) :
    ∀ e ∈ first :: rest, ∀ i, startOf path opening first <+: bytes (e.files path i) := by
  intro e inside i
  unfold startOf
  split
  · rcases List.mem_cons.mp inside with rfl | later
    · exact appended.grows e List.mem_cons_self 0 i (Nat.zero_le _)
    · exact (List.pairwise_cons.mp appended.later).1 e later 0 i
  · exact List.nil_prefix

theorem first_tracked (opening : Bool) (looked : Looks o.reader identity (first.files path))
    (begun : ∀ i, startOf path opening first <+: bytes (first.files path i))
    (named : ∀ s, (currentOf first).get k = some s → s.transcript = path) (unseen : Unseen p k [])
    (opens : k ∈ first.sessions.map (·.key) → first.initial = opening)
    (begins : Begun o k path (startOf path opening first) first rest) :
    (∃ gone clean later, Tracked o.reader k path identity (startOf path opening first) gone clean later (refresh o p first) ∧
      Retaken o k path gone clean rest ∧ ∃ j, later <+: bytes (first.files path j)) ∧
    Exact o k path (startOf path opening first) p first := by
  unfold Begun at begins
  split at begins
  · rename_i present
    obtain ⟨noticed,retaken⟩ := begins
    obtain ⟨s,found⟩ := current_some present
    obtain ⟨reached,caught⟩ := first_watched looked found (named s found) unseen noticed
    rw [opens present] at reached caught
    obtain ⟨later,tracked,j,within⟩ := reached_tracked (.inl rfl) begun present reached
    refine ⟨⟨_,_,later,tracked,retaken,j,within⟩,⟨j,tracked_out tracked within (begun j)⟩,fun s' found' tails running _ idle => ?_⟩
    cases found.symm.trans found'
    exact caughtUp_start (.inl rfl) begun (caught tails (opens present ▸ running)) idle
  · rename_i absent
    have unseen' : Unseen (refresh o p first) k [] := refresh_unseen unseen absent
    have silent : (slot (refresh o p first) k).out = [] := congrArg Slot.out unseen'.2
    have tracked : Tracked o.reader k path identity (startOf path opening first) true
        (recordsSince o.reader [] (startOf path opening first) = []) (startOf path opening first) (refresh o p first) :=
      ⟨⟨_,.inl rfl,List.prefix_rfl,by rw [silent]; exact List.nil_prefix,nofun⟩,fun _ => silent.symm ▸ unseen',fun h => ⟨h,h⟩⟩
    refine ⟨⟨_,_,_,tracked,begins,0,begun 0⟩,⟨0,by rw [silent]; exact List.nil_prefix⟩,fun s found => ?_⟩
    exact absurd ((currentOf_mem first).mp ((Dict.mem_keys _).mpr ⟨s,found⟩)) absent

-- The run lemma: a session that is only ever retaken clean is published exactly.
theorem retaken_exact (o : Options κ ρ ε) (k : κ) (path : String) (identity : Nat) (absent : List (Refresh κ))
    (first : Refresh κ) (early : List (Refresh κ)) (last : Refresh κ) (later : List (Refresh κ))
    (whole : first :: later = early ++ [last]) (opens : Opens k (absent ++ first :: later))
    (away : ∀ e ∈ absent, k ∉ e.sessions.map (·.key)) (named : Named k path (first :: later))
    (appended : Appended path identity (first :: later))
    (readable : ∀ e ∈ first :: later, Readable o.reader (e.files path))
    (begins : Begun o k path (startOf path absent.isEmpty first) first later) :
    Exact o k path (startOf path absent.isEmpty first) (refreshAll o {} (absent ++ early)) last := by
  have unseen := refreshAll_unseen (o := o) (unseen_start k) absent away
  rw [refreshAll,List.foldl_append,← refreshAll,← refreshAll]
  generalize refreshAll o {} absent = p at unseen
  have begun := startOf_begun absent.isEmpty appended
  have looked := appended_looks appended readable List.mem_cons_self
  have opening : k ∈ first.sessions.map (·.key) → first.initial = absent.isEmpty := by
    intro shown
    cases absent with
    | nil => exact opens.1 first rfl shown
    | cons a absent => exact opens.2 first (List.mem_append_right _ List.mem_cons_self)
  obtain ⟨⟨gone,clean,seen,tracked,retaken,j,reached⟩,exact'⟩ := first_tracked absent.isEmpty looked
    (begun first List.mem_cons_self) (named first List.mem_cons_self) unseen opening begins
  cases early with
  | nil =>
    cases whole
    exact exact'
  | cons e rest =>
    obtain ⟨rfl,rfl⟩ := List.cons.inj whole
    have running : ∀ e ∈ rest ++ [last], e.initial = false := by
      intro e' inside'
      refine opens.2 e' ?_
      cases absent with
      | nil => exact inside'
      | cons a absent => exact List.mem_append_right _ (List.mem_cons_of_mem _ inside')
    exact refreshAll_tracked rest (fun e inside => named e (List.mem_cons_of_mem _ inside)) (appended_tail appended)
      (fun e inside => readable e (List.mem_cons_of_mem _ inside)) running tracked retaken (fun e' inside' i => reached.trans ((List.pairwise_cons.mp appended.later).1 e' inside' j i))
      fun e inside => begun e (List.mem_cons_of_mem _ inside)

theorem retaken_present (later : List (Refresh κ)) (stays : ∀ e ∈ later, k ∈ e.sessions.map (·.key)) (clean : Prop) :
    Retaken o k path false clean later := by
  induction later generalizing clean with
  | nil => exact trivial
  | cons e rest ih =>
    rw [Retaken,if_pos (stays e List.mem_cons_self)]
    exact ⟨nofun,ih (fun e inside => stays e (List.mem_cons_of_mem _ inside)) _⟩

theorem present_session_exact (o : Options κ ρ ε) (k : κ) (path : String) (identity : Nat) (absent : List (Refresh κ))
    (first : Refresh κ) (early : List (Refresh κ)) (last : Refresh κ) (later : List (Refresh κ))
    (whole : first :: later = early ++ [last]) (opens : Opens k (absent ++ first :: later))
    (away : ∀ e ∈ absent, k ∉ e.sessions.map (·.key)) (stays : ∀ e ∈ first :: later, k ∈ e.sessions.map (·.key))
    (named : Named k path (first :: later)) (appended : Appended path identity (first :: later))
    (readable : ∀ e ∈ first :: later, Readable o.reader (e.files path)) (noticed : Noticed o k first) :
    Exact o k path (startOf path absent.isEmpty first) (refreshAll o {} (absent ++ early)) last := by
  refine retaken_exact o k path identity absent first early last later whole opens away named appended readable ?_
  rw [Begun,if_pos (stays first List.mem_cons_self)]
  exact ⟨noticed,retaken_present later (fun e inside => stays e (List.mem_cons_of_mem _ inside)) _⟩

-- Lines in braces are objects, the others are not.
def braced : Reader Bytes := ⟨.usual,fun line => if line.head? = some 123 then .object line else .other⟩
theorem daily_bounded : (0 : Int) ≤ 48 * 60 * 60 ∧ 0 < 32 := by decide
def daily : Options Nat Bytes Unit := ⟨braced,fun _ _ => [()],48 * 60 * 60,32,daily_bounded⟩
def transcriptPath : String := "/s.jsonl"
def scanned (status : Status) (initial : Bool) (now : Int) (content : Bytes) : Refresh Nat :=
  ⟨[⟨0,transcriptPath,status,0,""⟩],[0],initial,now,fun _ _ => some ⟨7,content,true⟩⟩
def empty : Refresh Nat := ⟨[],[],true,0,fun _ _ => none⟩

-- A row open at the end of the file when the pool starts, two days of silence, and
-- then the rest of the row and one line more.
def openedRow : Bytes := [123,10,123]
def closedRow : Bytes := [123,10,123,125,10,123,123,10]

theorem daily_readable (status : Status) (initial : Bool) (now : Int) (content : Bytes) :
    Readable daily.reader ((scanned status initial now content).files transcriptPath) := by
  rintro i f look
  cases look
  refine ⟨rfl,fun line _ _ _ => ?_⟩
  simp only [daily,braced]
  split <;> nofun

theorem daily_named (events : List (Refresh Nat)) (shape : events = [scanned .idle true 0 openedRow,
    scanned .idle false 172801 openedRow,scanned .working false 172900 closedRow]) : Named 0 transcriptPath events := by
  subst shape
  intro e inside s found
  simp only [List.mem_cons,List.not_mem_nil,or_false] at inside
  rcases inside with rfl | rfl | rfl <;> cases found <;> rfl

theorem daily_appended (events : List (Refresh Nat)) (shape : events = [scanned .idle true 0 openedRow,
    scanned .idle false 172801 openedRow,scanned .working false 172900 closedRow]) :
    Appended transcriptPath 7 events := by
  subst shape
  refine ⟨?_,?_,?_⟩
  · intro e inside i f look
    simp only [List.mem_cons,List.not_mem_nil,or_false] at inside
    rcases inside with rfl | rfl | rfl <;> cases look <;> rfl
  · intro e inside i j _
    simp only [List.mem_cons,List.not_mem_nil,or_false] at inside
    rcases inside with rfl | rfl | rfl <;> exact List.prefix_rfl
  · have grown : openedRow <+: closedRow := ⟨[125,10,123,123,10],rfl⟩
    refine .cons ?_ (.cons ?_ (.cons nofun .nil))
    · exact List.forall_mem_cons.mpr ⟨fun _ _ => List.prefix_rfl,List.forall_mem_cons.mpr ⟨fun _ _ => grown,nofun⟩⟩
    · exact List.forall_mem_cons.mpr ⟨fun _ _ => grown,nofun⟩

theorem resumed_session_exact : Exact daily 0 transcriptPath openedRow
    (refreshAll daily {} [scanned .idle true 0 openedRow,scanned .idle false 172801 openedRow])
    (scanned .working false 172900 closedRow) ∧
    (slot (refreshAll daily {} [scanned .idle true 0 openedRow,scanned .idle false 172801 openedRow,
      scanned .working false 172900 closedRow]) 0).out = [[123,125],[123,123]] := by
  refine ⟨?_,by decide +kernel⟩
  refine present_session_exact daily 0 transcriptPath 7 [] (scanned .idle true 0 openedRow)
    [scanned .idle true 0 openedRow,scanned .idle false 172801 openedRow] (scanned .working false 172900 closedRow)
    [scanned .idle false 172801 openedRow,scanned .working false 172900 closedRow] rfl ⟨?_,?_⟩ (by simp) ?_
    (daily_named _ rfl) (daily_appended _ rfl) ?_ ⟨by decide,?_⟩
  · rintro e ⟨⟩ _
    rfl
  · simp [scanned]
  · simp [scanned]
  · simp only [List.forall_mem_cons]
    exact ⟨daily_readable _ _ _ _,daily_readable _ _ _ _,daily_readable _ _ _ _,nofun⟩
  · intro s found
    cases found
    exact .inl (by decide +kernel)

-- A session that is old when it first shows gets no checkpoint: once it works again
-- it is followed from the end of its file.
theorem stale_session_loses :
    (slot (refreshAll daily {} [empty,scanned .idle false 172801 [123,10],scanned .working false 172900 closedRow]) 0).out =
      [] ∧
    0 ∉ (refreshAll daily {} [empty,scanned .idle false 172801 [123,10],scanned .working false 172900 closedRow]).pending ∧
    recordsSince daily.reader [] closedRow = [[123],[123,125],[123,123]] := by
  refine ⟨?_,?_,?_⟩
  · decide +kernel
  · decide +kernel
  · decide +kernel

end AgentSideCar.Tail
