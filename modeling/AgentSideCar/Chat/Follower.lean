import AgentSideCar.Library.Prefixes
import AgentSideCar.Library.Runs
import Mathlib.Algebra.GroupWithZero.Nat

namespace AgentSideCar.Chat
open Prefixes Runs
variable {α β ρ η π σ : Type}

def maxMessageReferences : Nat := 4096

-- A chat's roots are content-addressed: a root id decides the message ids it refers
-- to. Message ids have a fixed width, so their digest is one of the whole list.
structure Roots (α ρ η : Type) where
  messageIds : ρ → List α
  digest : List α → η
  bounded : ∀ root, (messageIds root).length ≤ maxMessageReferences
  collisionFree : ∀ xs ys, digest xs = digest ys → xs = ys

structure ChatState (ρ π : Type) where
  rootBlobId : ρ
  provisionalHash : Option π

-- A CursorChatBusyError, or any other CursorChatError.
inductive ChatError where
  | busy
  | other
  deriving DecidableEq

-- What a follower delivers; a message also tells whether it dates from the session's start.
inductive Record (α ρ π : Type) where
  | message (rootBlobId : ρ) (messageId : α) (historical : Bool)
  | provisional (rootBlobId : ρ) (provisionalHash : Option π)
  | sessionReset (rootBlobId : ρ)
  deriving DecidableEq

structure ChatFollower (α ρ η π σ : Type) where
  rootBlobId : Option ρ := none
  messageCount : Nat := 0
  prefixHash : η
  provisionalHash : Option π := none
  initialized : Bool := false
  historicalCount : Nat := 0
  messageIds : Option (List α) := some []
  pending : Bool := false
  lastSourceSignature : Option σ := none
  lastError : Option ChatError := none

-- What one poll meets: the signatures before and after, the state it reads, and whether
-- the root it followed so far can still be read.
structure Look (ρ π σ : Type) where
  before : Except ChatError σ
  snapshot : Except ChatError (ChatState ρ π)
  after : Except ChatError σ
  previous : Except ChatError Unit

def messageOf : Record α ρ π → Option α
  | .message _ id _ => some id
  | _ => none

def messagesOf (records : List (Record α ρ π)) : List α := records.filterMap messageOf

def resets : Record α ρ π → Bool
  | .sessionReset _ => true
  | _ => false

structure ChatCheckpoint (ρ η π : Type) where
  rootBlobId : Option ρ
  messageCount : Nat
  prefixHash : η
  provisionalHash : Option π
  initialized : Bool
  historicalCount : Nat

def maxCheckpointBytes : Nat := 16 * 1024

def hashBytes (hash : Option β) : Nat := if hash.isSome then 66 else 4

-- The fields of a checkpoint and the bytes of their values, `pathBytes` those of its path.
def checkpointFields (pathBytes : Nat) (checkpoint : ChatCheckpoint ρ η π) : List (String × Nat) :=
  [("version",1),("kind",13),("path",pathBytes),("root_blob_id",hashBytes checkpoint.rootBlobId),
    ("message_count",(Nat.toDigits 10 checkpoint.messageCount).length),("prefix_hash",66),
    ("provisional_hash",hashBytes checkpoint.provisionalHash),("initialized",if checkpoint.initialized then 4 else 5),
    ("historical_count",(Nat.toDigits 10 checkpoint.historicalCount).length)]

-- The separators are compact in an export and spaced in the check of a restore.
def checkpointBytes (comma colon pathBytes : Nat) (checkpoint : ChatCheckpoint ρ η π) : Nat :=
  let fields := checkpointFields pathBytes checkpoint
  2 + (fields.map fun field => field.1.length + 2 + colon + field.2).sum + comma * (fields.length - 1)

def exportChat (pathBytes : Nat) (s : ChatFollower α ρ η π σ) : Except ChatError (ChatCheckpoint ρ η π) :=
  let checkpoint := ⟨s.rootBlobId,s.messageCount,s.prefixHash,s.provisionalHash,s.initialized,s.historicalCount⟩
  if maxCheckpointBytes < checkpointBytes 1 1 pathBytes checkpoint then .error .other else .ok checkpoint

section Follow
variable [DecidableEq α] [DecidableEq η] [DecidableEq π] (c : Roots α ρ η)

def fresh : ChatFollower α ρ η π σ := {prefixHash := c.digest []}

-- A restore that is refused leaves the follower as it is.
def restoreChat (pathBytes : Nat) (checkpoint : ChatCheckpoint ρ η π) (s : ChatFollower α ρ η π σ) :
    Option (ChatFollower α ρ η π σ) :=
  if maxMessageReferences < checkpoint.messageCount ∨ maxMessageReferences < checkpoint.historicalCount then none
  else if checkpoint.initialized = false ∧ (checkpoint.rootBlobId.isSome ∨ checkpoint.messageCount ≠ 0 ∨
      checkpoint.prefixHash ≠ c.digest [] ∨ checkpoint.provisionalHash.isSome ∨ checkpoint.historicalCount ≠ 0) then none
  else if maxCheckpointBytes < checkpointBytes 2 2 pathBytes checkpoint then none
  else some {s with
    rootBlobId := checkpoint.rootBlobId
    messageCount := checkpoint.messageCount
    prefixHash := checkpoint.prefixHash
    provisionalHash := checkpoint.provisionalHash
    initialized := checkpoint.initialized
    historicalCount := checkpoint.historicalCount
    messageIds := if checkpoint.initialized then none else some []
    pending := false
    lastSourceSignature := none
    lastError := none}

def anchor (state : ChatState ρ π) (s : ChatFollower α ρ η π σ) : ChatFollower α ρ η π σ :=
  {s with
    rootBlobId := some state.rootBlobId
    messageCount := (c.messageIds state.rootBlobId).length
    prefixHash := c.digest (c.messageIds state.rootBlobId)
    provisionalHash := state.provisionalHash
    messageIds := some (c.messageIds state.rootBlobId)
    pending := false}

def previousIds (look : Look ρ π σ) (s : ChatFollower α ρ η π σ) : Except ChatError (List α) :=
  match s.messageIds with
  | some ids => .ok ids
  | none =>
    match s.rootBlobId with
    | none => .ok []
    | some root => look.previous.map fun _ => (c.messageIds root).take s.messageCount

def retreat (ids : List α) (common : Nat) (s : ChatFollower α ρ η π σ) : ChatFollower α ρ η π σ :=
  {s with
    messageCount := common
    prefixHash := c.digest (ids.take common)
    messageIds := some (ids.take common)
    historicalCount := min s.historicalCount common}

variable (maxRecords : Nat)

-- The messages at and after an index of the state.
def durableRecords (root : ρ) (historicalCount start : Nat) (ids : List α) : List (Record α ρ π) :=
  (ids.zipIdx start).map fun e => .message root e.1 (e.2 < historicalCount)

def emitAppend (state : ChatState ρ π) (s : ChatFollower α ρ η π σ) : ChatFollower α ρ η π σ × List (Record α ρ π) :=
  let ids := c.messageIds state.rootBlobId
  let finish := min ids.length (s.messageCount + maxRecords)
  let records := durableRecords state.rootBlobId s.historicalCount s.messageCount ((ids.take finish).drop s.messageCount)
  let s : ChatFollower α ρ η π σ := {s with
    messageCount := finish
    prefixHash := c.digest (ids.take finish)
    messageIds := some (ids.take finish)
    rootBlobId := some state.rootBlobId}
  if finish < ids.length then ({s with pending := true},records)
  else if state.provisionalHash ≠ s.provisionalHash ∧ records.length < maxRecords then
    ({s with provisionalHash := state.provisionalHash,pending := false},
      records ++ [.provisional state.rootBlobId state.provisionalHash])
  else ({s with pending := state.provisionalHash ≠ s.provisionalHash},records)

variable [DecidableEq σ] (fromStart : Bool)

-- The reading half of a poll; no state where the source is the one already read.
def readState (look : Look ρ π σ) (s : ChatFollower α ρ η π σ) :
    ChatFollower α ρ η π σ × Except ChatError (Option (ChatState ρ π)) :=
  match look.before with
  | .error e => (s,.error e)
  | .ok before =>
    if s.lastSourceSignature = some before ∧ s.pending = false then (s,.ok none)
    else match look.snapshot with
      | .error e => (s,.error e)
      | .ok state =>
        match look.after with
        | .error e => (s,.error e)
        | .ok after => ({s with lastSourceSignature := if before = after then some before else none},.ok (some state))

def followState (look : Look ρ π σ) (state : ChatState ρ π) (s : ChatFollower α ρ η π σ) :
    ChatFollower α ρ η π σ × Except ChatError (List (Record α ρ π)) :=
  let ids := c.messageIds state.rootBlobId
  if s.initialized = false ∧ fromStart = false then
    (anchor c state {s with initialized := true,historicalCount := 0},.ok [])
  else
    let s := if s.initialized then s else {s with initialized := true,historicalCount := ids.length}
    if s.messageCount ≤ ids.length ∧ c.digest (ids.take s.messageCount) = s.prefixHash then
      let (s,records) := emitAppend c maxRecords state s
      (s,.ok records)
    else match previousIds c look s with
      | .error .busy => (s,.error .busy)
      | .error .other => (anchor c state {s with historicalCount := 0},.ok [.sessionReset state.rootBlobId])
      | .ok previous =>
        let (s,records) := emitAppend c maxRecords state (retreat c ids (lcp previous ids) s)
        (s,.ok records)

-- A poll up to the point where its exception is caught.
def attempt (look : Look ρ π σ) (s : ChatFollower α ρ η π σ) :
    ChatFollower α ρ η π σ × Except ChatError (List (Record α ρ π)) :=
  match readState look s with
  | (s,.error e) => (s,.error e)
  | (s,.ok none) => (s,.ok [])
  | (s,.ok (some state)) => followState c maxRecords fromStart look state s

def pollChat (look : Look ρ π σ) (s : ChatFollower α ρ η π σ) : ChatFollower α ρ η π σ × List (Record α ρ π) :=
  match attempt c maxRecords fromStart look s with
  | (after,.ok records) => ({after with lastError := none},records)
  | (after,.error e) => ({after with
      rootBlobId := s.rootBlobId
      messageCount := s.messageCount
      prefixHash := s.prefixHash
      provisionalHash := s.provisionalHash
      initialized := s.initialized
      historicalCount := s.historicalCount
      messageIds := s.messageIds
      pending := s.pending
      lastSourceSignature := s.lastSourceSignature
      lastError := some e},[])

end Follow

-- A consumer: its list, the ids the list last started over from, all messages delivered
-- to it, and the ids of the state last observed.
structure Consumer (α : Type) where
  list : List α := []
  base : List α := []
  delivered : List α := []
  observed : List α := []

-- A batch cuts the list back to what it shares with the state and appends its messages.
def append [DecidableEq α] (list ids : List α) (records : List (Record α ρ π)) : List α := list.take (lcp list ids) ++ messagesOf records

-- A poll that anchors delivers no message: the consumer starts over from the state's ids.
def Consumer.absorb [DecidableEq α] (u : Consumer α) (anchored : Bool) (ids : List α) (records : List (Record α ρ π)) : Consumer α where
  list := if anchored then ids else append u.list ids records
  base := if anchored then ids else u.base
  delivered := u.delivered ++ messagesOf records
  observed := ids

-- A follower with its consumer, what a checkpoint keeps of both, and whether the
-- follower has read no state since it was restored.
structure Watched (α ρ η π σ : Type) where
  follower : ChatFollower α ρ η π σ
  maxRecords : Nat
  consumer : Consumer α := {}
  saved : Option (ChatCheckpoint ρ η π × Consumer α) := none
  restored : Bool := false

inductive ChatEvent (ρ π σ : Type) where
  | poll (look : Look ρ π σ)
  | checkpoint
  | restart (maxRecords : Nat)

section Steps
variable [DecidableEq α] [DecidableEq η] [DecidableEq π] [DecidableEq σ] (c : Roots α ρ η) (pathBytes : Nat) (fromStart : Bool)

def Watched.initial (maxRecords : Nat) : Watched α ρ η π σ := {follower := fresh c,maxRecords := maxRecords}

def Watched.advance (w : Watched α ρ η π σ) : ChatEvent ρ π σ → Option (Watched α ρ η π σ)
  | .poll look =>
    let after := (pollChat c w.maxRecords fromStart look w.follower).1
    match (readState look w.follower).2,(attempt c w.maxRecords fromStart look w.follower).2 with
    | .ok (some state),.ok records =>
      let anchored := !w.follower.initialized && !fromStart || records.any resets
      some {w with
        follower := after
        consumer := w.consumer.absorb anchored (c.messageIds state.rootBlobId) records
        restored := false}
    | _,_ => some {w with follower := after}
  | .checkpoint =>
    match exportChat pathBytes w.follower with
    | .error _ => some w
    | .ok checkpoint => some {w with saved := some (checkpoint,w.consumer)}
  | .restart maxRecords =>
    match w.saved with
    | none => none
    | some (checkpoint,consumer) => (restoreChat c pathBytes checkpoint (fresh c)).map fun follower =>
      {w with follower := follower,maxRecords := maxRecords,consumer := consumer,restored := true}

end Steps

-- The chat only grows.
def Grows (c : Roots α ρ η) (w : Watched α ρ η π σ) : ChatEvent ρ π σ → Prop
  | .poll look => ∀ state, look.snapshot = .ok state → w.consumer.observed <+: c.messageIds state.rootBlobId
  | _ => True


-- What a follower knows of its consumer's list and of the ids last observed.
structure Follows (c : Roots α ρ η) (s : ChatFollower α ρ η π σ) (list observed : List α) : Prop where
  hash : s.prefixHash = c.digest list
  count : s.messageCount = list.length
  known : s.messageIds = none ∨ s.messageIds = some list
  source : s.rootBlobId = none ∧ observed = [] ∨ ∃ root, s.rootBlobId = some root ∧ c.messageIds root = observed
  begins : list <+: observed
  bounded : s.historicalCount ≤ maxMessageReferences
  young : s.initialized = false → s.rootBlobId = none ∧ s.provisionalHash = none ∧ s.historicalCount = 0

section Batches
variable {c : Roots α ρ η} {look : Look ρ π σ} {pathBytes : Nat} {w : Watched α ρ η π σ} {s after : ChatFollower α ρ η π σ} {list observed : List α}

theorem Follows.size (held : Follows c s list observed) : observed.length ≤ maxMessageReferences := by
  rcases held.source with ⟨-,rfl⟩ | ⟨root,-,rfl⟩
  · exact Nat.zero_le _
  · exact c.bounded root

theorem Follows.marked (held : Follows c s list observed) :
    Follows c {s with lastSourceSignature := signature,lastError := error} list observed :=
  ⟨held.hash,held.count,held.known,held.source,held.begins,held.bounded,held.young⟩

theorem Follows.unstarted (held : Follows c s list observed) (young : s.initialized = false) : list = [] := by
  obtain ⟨unrooted,-,-⟩ := held.young young
  rcases held.source with ⟨-,rfl⟩ | ⟨root,rooted,-⟩
  · exact List.prefix_nil.mp held.begins
  · rw [unrooted] at rooted
    cases rooted

theorem exportChat_exact {checkpoint : ChatCheckpoint ρ η π} (exported : exportChat pathBytes s = .ok checkpoint) :
    checkpoint = ⟨s.rootBlobId,s.messageCount,s.prefixHash,s.provisionalHash,s.initialized,s.historicalCount⟩ := by
  unfold exportChat at exported
  dsimp only at exported
  split at exported
  · cases exported
  · cases exported
    rfl

theorem messagesOf_append (early late : List (Record α ρ π)) :
    messagesOf (early ++ late) = messagesOf early ++ messagesOf late := List.filterMap_append

theorem messagesOf_durable (root : ρ) (historicalCount start : Nat) (ids : List α) :
    messagesOf (durableRecords root historicalCount start ids : List (Record α ρ π)) = ids := by
  induction ids generalizing start with
  | nil => rfl
  | cons id ids ih => simpa [messagesOf,messageOf,durableRecords] using ih (start + 1)

theorem durable_resets (root : ρ) (historicalCount start : Nat) (ids : List α) :
    (durableRecords root historicalCount start ids : List (Record α ρ π)).any resets = false := by
  simp [durableRecords,resets]

theorem anchor_follows {state : ChatState ρ π} (bounded : s.historicalCount ≤ maxMessageReferences)
    (started : s.initialized = true) :
    Follows c (anchor c state s) (c.messageIds state.rootBlobId) (c.messageIds state.rootBlobId) :=
  ⟨rfl,rfl,.inr rfl,.inr ⟨_,rfl,rfl⟩,List.prefix_refl _,bounded,fun young => by rw [anchor,started] at young; cases young⟩

theorem Follows.previous (held : Follows c s list observed) {previous : List α}
    (read : previousIds c look s = .ok previous) : previous = list := by
  unfold previousIds at read
  rcases held.known with known | known
  · rw [known] at read
    rcases held.source with ⟨unread,rfl⟩ | ⟨root,rooted,rfl⟩
    · rw [unread] at read
      cases read
      exact (List.prefix_nil.mp held.begins).symm
    · rw [rooted] at read
      cases readable : look.previous with
      | error e => simp [readable,Except.map] at read
      | ok u =>
        simp only [readable,Except.map,Except.ok.injEq] at read
        rw [← read,held.count]
        exact (List.prefix_iff_eq_take.mp held.begins).symm
  · rw [known] at read
    cases read
    rfl

theorem append_begins [DecidableEq α] {ids : List α} {records : List (Record α ρ π)} (begins : list <+: ids) :
    append list ids records = list ++ messagesOf records := by
  rw [append,lcp_begins begins,List.take_length]

-- The follower stands where its consumer does, and so does what a checkpoint keeps of both.
structure Tracks (c : Roots α ρ η) (pathBytes : Nat) (w : Watched α ρ η π σ) : Prop where
  follows : Follows c w.follower w.consumer.list w.consumer.observed
  caught : w.follower.pending = false → w.restored = false → w.consumer.list = w.consumer.observed
  kept : ∀ checkpoint consumer, w.saved = some (checkpoint,consumer) → ∃ s : ChatFollower α ρ η π σ,
    exportChat pathBytes s = .ok checkpoint ∧ Follows c s consumer.list consumer.observed

theorem initial_tracks : Tracks c pathBytes (.initial c maxRecords : Watched α ρ η π σ) :=
  ⟨⟨rfl,rfl,.inr rfl,.inl ⟨rfl,rfl⟩,List.prefix_refl _,Nat.zero_le _,fun _ => ⟨rfl,rfl,rfl⟩⟩,fun _ _ => rfl,fun _ _ none => by cases none⟩

theorem Follows.matched (held : Follows c s list observed) {ids : List α} :
    (s.messageCount ≤ ids.length ∧ c.digest (ids.take s.messageCount) = s.prefixHash) ↔ list <+: ids := by
  rw [held.count,held.hash]
  constructor
  · intro ⟨_,same⟩
    rw [← c.collisionFree _ _ same]
    exact List.take_prefix ..
  · intro begins
    exact ⟨begins.length_le,by rw [← List.prefix_iff_eq_take.mp begins]⟩

variable [DecidableEq η] [DecidableEq π]

omit [DecidableEq π] in
theorem restore_accepts {checkpoint : ChatCheckpoint ρ η π} (held : Follows c s list observed)
    (exported : exportChat pathBytes s = .ok checkpoint) (fits : checkpointBytes 2 2 pathBytes checkpoint ≤ maxCheckpointBytes)
    (other : ChatFollower α ρ η π σ) : (restoreChat c pathBytes checkpoint other).isSome := by
  have same := exportChat_exact exported
  have few : s.messageCount ≤ maxMessageReferences := by
    rw [held.count]
    exact Nat.le_trans held.begins.length_le held.size
  have bounded := held.bounded
  have consistent : ¬(checkpoint.initialized = false ∧ (checkpoint.rootBlobId.isSome ∨ checkpoint.messageCount ≠ 0 ∨
      checkpoint.prefixHash ≠ c.digest [] ∨ checkpoint.provisionalHash.isSome ∨ checkpoint.historicalCount ≠ 0)) := by
    intro ⟨young,wrong⟩
    rw [same] at young wrong
    obtain ⟨unrooted,unprovisional,historical⟩ := held.young young
    have empty := held.unstarted young
    simp [unrooted,unprovisional,historical,held.count,held.hash,empty] at wrong
  rw [restoreChat,if_neg (by rw [same]; dsimp only; omega),if_neg consistent,if_neg (Nat.not_lt.mpr fits)]
  rfl

omit [DecidableEq π] in
theorem restored_follows {checkpoint : ChatCheckpoint ρ η π} {back other : ChatFollower α ρ η π σ} (held : Follows c s list observed)
    (exported : exportChat pathBytes s = .ok checkpoint) (restored : restoreChat c pathBytes checkpoint other = some back) :
    Follows c back list observed := by
  have same := exportChat_exact exported
  subst same
  unfold restoreChat at restored
  split at restored
  · cases restored
  · split at restored
    · cases restored
    · split at restored
      · cases restored
      · cases restored
        refine ⟨held.hash,held.count,?_,held.source,held.begins,held.bounded,held.young⟩
        cases started : s.initialized with
        | true => exact .inl rfl
        | false =>
          rw [held.unstarted started]
          exact .inr rfl

omit [DecidableEq η] in
theorem emitAppend_exact {state : ChatState ρ π} {records : List (Record α ρ π)}
    (emitted : emitAppend c maxRecords state s = (after,records)) :
    ∃ finish, finish = min (c.messageIds state.rootBlobId).length (s.messageCount + maxRecords) ∧
      messagesOf records = ((c.messageIds state.rootBlobId).take finish).drop s.messageCount ∧
      records.any resets = false ∧
      ∃ provisional pending, after = {s with
        rootBlobId := some state.rootBlobId
        messageCount := finish
        prefixHash := c.digest ((c.messageIds state.rootBlobId).take finish)
        messageIds := some ((c.messageIds state.rootBlobId).take finish)
        provisionalHash := provisional
        pending := pending} ∧ (finish < (c.messageIds state.rootBlobId).length → pending = true) := by
  refine ⟨_,rfl,?_⟩
  unfold emitAppend at emitted
  dsimp only at emitted
  split at emitted
  · cases emitted
    exact ⟨messagesOf_durable ..,durable_resets ..,_,_,rfl,fun _ => rfl⟩
  · rename_i whole
    split at emitted
    · cases emitted
      refine ⟨?_,?_,_,_,rfl,fun short => absurd short whole⟩
      · rw [messagesOf_append,messagesOf_durable]
        exact List.append_nil _
      · rw [List.any_append,durable_resets]
        rfl
    · cases emitted
      exact ⟨messagesOf_durable ..,durable_resets ..,_,_,rfl,fun short => absurd short whole⟩

omit [DecidableEq η] in
theorem emitAppend_follows {state : ChatState ρ π} {records : List (Record α ρ π)}
    (emitted : emitAppend c maxRecords state s = (after,records)) (count : s.messageCount = list.length)
    (begins : list <+: c.messageIds state.rootBlobId) (bounded : s.historicalCount ≤ maxMessageReferences)
    (started : s.initialized = true) :
    Follows c after (list ++ messagesOf records) (c.messageIds state.rootBlobId) ∧ records.any resets = false ∧
      (after.pending = false → list ++ messagesOf records = c.messageIds state.rootBlobId) := by
  obtain ⟨finish,finished,messages,plain,provisional,pending,rfl,short⟩ := emitAppend_exact emitted
  have reaches : list.length ≤ finish := by
    have := begins.length_le
    omega
  have within : finish ≤ (c.messageIds state.rootBlobId).length := by omega
  have taken : list ++ messagesOf records = (c.messageIds state.rootBlobId).take finish := by
    have earlier : list = ((c.messageIds state.rootBlobId).take finish).take list.length := by
      rw [List.take_take,Nat.min_eq_left reaches]
      exact List.prefix_iff_eq_take.mp begins
    rw [messages,count]
    nth_rewrite 1 [earlier]
    exact List.take_append_drop ..
  rw [taken]
  refine ⟨⟨rfl,?_,.inr rfl,.inr ⟨_,rfl,rfl⟩,List.take_prefix ..,bounded,?_⟩,plain,?_⟩
  · rw [List.length_take]
    exact (Nat.min_eq_left within).symm
  · intro young
    rw [started] at young
    cases young
  · intro caught
    apply List.take_of_length_le
    apply Nat.le_of_not_lt
    intro fewer
    rw [short fewer] at caught
    cases caught

variable [DecidableEq α] {fromStart : Bool}

-- A state that is followed leaves the follower where its batch leaves the consumer.
theorem followState_follows {state : ChatState ρ π} {records : List (Record α ρ π)} (held : Follows c s list observed)
    (done : followState c maxRecords fromStart look state s = (after,.ok records))
    (landed : landing = if (!s.initialized && !fromStart || records.any resets) then c.messageIds state.rootBlobId
      else append list (c.messageIds state.rootBlobId) records) :
    Follows c after landing (c.messageIds state.rootBlobId) ∧
      (after.pending = false → landing = c.messageIds state.rootBlobId) := by
  unfold followState at done
  dsimp only at done
  split at done
  · rename_i first
    cases done
    rw [landed,if_pos (by simp [first])]
    exact ⟨anchor_follows (Nat.zero_le _) rfl,fun _ => rfl⟩
  · rename_i followed
    have later : (!s.initialized && !fromStart) = false := by
      simpa using followed
    generalize started : (if s.initialized then s else {s with
      initialized := true,historicalCount := (c.messageIds state.rootBlobId).length}) = t at done
    have going : t.initialized = true ∧ Follows c t list observed := by
      rw [← started]
      split
      · exact ⟨by assumption,held⟩
      · exact ⟨rfl,held.hash,held.count,held.known,held.source,held.begins,c.bounded _,fun young => by cases young⟩
    obtain ⟨going,held⟩ := going
    split at done
    · rename_i matching
      cases done
      have begins := held.matched.mp matching
      obtain ⟨following,plain,caught⟩ := emitAppend_follows (Prod.eta (emitAppend c maxRecords state t)).symm
        held.count begins held.bounded going
      rw [landed,if_neg (by simp [later,plain]),append_begins begins]
      exact ⟨following,caught⟩
    · split at done
      · cases done
      · cases done
        rw [landed,if_pos (by simp [resets])]
        exact ⟨anchor_follows (Nat.zero_le _) going,fun _ => rfl⟩
      · rename_i previous read
        have same := held.previous read
        subst same
        cases done
        have begins : previous.take (lcp previous (c.messageIds state.rootBlobId)) <+: c.messageIds state.rootBlobId := by
          rw [lcp_take]
          exact List.take_prefix ..
        have shared : lcp previous (c.messageIds state.rootBlobId) =
            (previous.take (lcp previous (c.messageIds state.rootBlobId))).length := by
          rw [lcp_take,List.length_take,Nat.min_eq_left (lcp_le _ _)]
        obtain ⟨following,plain,caught⟩ := emitAppend_follows (Prod.eta (emitAppend c maxRecords state
          (retreat c (c.messageIds state.rootBlobId) (lcp previous (c.messageIds state.rootBlobId)) t))).symm shared begins
          (Nat.le_trans (Nat.min_le_left _ _) held.bounded) going
        rw [landed,if_neg (by simp [later,plain]),append]
        exact ⟨following,caught⟩

theorem followState_grows {state : ChatState ρ π} {records : List (Record α ρ π)} (held : Follows c s list observed)
    (done : followState c maxRecords fromStart look state s = (after,.ok records))
    (later : (!s.initialized && !fromStart) = false) (begins : list <+: c.messageIds state.rootBlobId) :
    records.any resets = false := by
  unfold followState at done
  dsimp only at done
  rw [if_neg (by simpa using later)] at done
  generalize started : (if s.initialized then s else {s with
    initialized := true,historicalCount := (c.messageIds state.rootBlobId).length}) = t at done
  have matching : t.messageCount ≤ (c.messageIds state.rootBlobId).length ∧
      c.digest ((c.messageIds state.rootBlobId).take t.messageCount) = t.prefixHash := by
    rw [← started]
    split
    · exact held.matched.mpr begins
    · exact held.matched.mpr begins
  rw [if_pos matching] at done
  cases done
  obtain ⟨_,_,_,plain,_⟩ := emitAppend_exact (Prod.eta (emitAppend c maxRecords state t)).symm
  exact plain

end Batches

section Polls
variable [DecidableEq α] [DecidableEq η] [DecidableEq π] [DecidableEq σ] {c : Roots α ρ η} {pathBytes : Nat} {fromStart : Bool}
  {look : Look ρ π σ} {s : ChatFollower α ρ η π σ} {w after : Watched α ρ η π σ}

theorem attempt_skips (read : (readState look s).2 = .ok none) :
    attempt c maxRecords fromStart look s = (s,.ok []) := by
  unfold attempt readState at *
  cases before : look.before with
  | error e => simp [before] at read
  | ok before =>
    simp only [before] at read ⊢
    split at read
    · rename_i same
      rw [if_pos same]
    · split at read
      · cases read
      · split at read <;> cases read

theorem attempt_follows {state : ChatState ρ π} (read : (readState look s).2 = .ok (some state)) :
    look.snapshot = .ok state ∧ ∃ signature, attempt c maxRecords fromStart look s =
      followState c maxRecords fromStart look state {s with lastSourceSignature := signature} := by
  unfold attempt readState at *
  cases before : look.before with
  | error e => simp [before] at read
  | ok before =>
    simp only [before] at read ⊢
    split at read
    · cases read
    · rename_i changed
      rw [if_neg changed]
      split at read
      · cases read
      · rename_i seen
        split at read
        · cases read
        · cases read
          exact ⟨seen,_,rfl⟩

theorem attempt_unread (read : (readState look s).2 = .error e) :
    (attempt c maxRecords fromStart look s).2 = .error e := by
  unfold attempt
  cases whole : readState look s with
  | mk middle result =>
    rw [whole] at read
    dsimp only at read
    rw [read]

theorem pollChat_failed (failed : (attempt c maxRecords fromStart look s).2 = .error e) :
    pollChat c maxRecords fromStart look s = ({s with lastError := some e},[]) := by
  unfold pollChat
  cases tried : attempt c maxRecords fromStart look s with
  | mk middle result =>
    rw [tried] at failed
    dsimp only at failed
    rw [failed]

theorem pollChat_done (done : attempt c maxRecords fromStart look s = (middle,.ok records)) :
    pollChat c maxRecords fromStart look s = ({middle with lastError := none},records) := by
  rw [pollChat,done]

-- All a poll can do: to leave the follower where it is, or to follow a state.
theorem poll_cases (stepped : Watched.advance c pathBytes fromStart w (.poll look) = some after) :
    (∃ error, after = {w with follower := {w.follower with lastError := error}}) ∨
    ∃ state records signature follower, look.snapshot = .ok state ∧
      followState c w.maxRecords fromStart look state {w.follower with lastSourceSignature := signature} =
        (follower,.ok records) ∧
      after = {w with
        follower := {follower with lastError := none}
        consumer := w.consumer.absorb (!w.follower.initialized && !fromStart || records.any resets)
          (c.messageIds state.rootBlobId) records
        restored := false} := by
  unfold Watched.advance at stepped
  dsimp only at stepped
  cases read : (readState look w.follower).2 with
  | error e =>
    rw [pollChat_failed (attempt_unread read),read] at stepped
    cases stepped
    exact .inl ⟨_,rfl⟩
  | ok reading =>
    cases reading with
    | none =>
      rw [pollChat_done (attempt_skips read),read] at stepped
      cases stepped
      exact .inl ⟨_,rfl⟩
    | some state =>
      obtain ⟨seen,signature,tried⟩ : look.snapshot = .ok state ∧ ∃ signature, attempt c w.maxRecords fromStart look w.follower =
          followState c w.maxRecords fromStart look state {w.follower with lastSourceSignature := signature} :=
        attempt_follows read
      cases followed : followState c w.maxRecords fromStart look state {w.follower with lastSourceSignature := signature} with
      | mk follower result =>
        rw [followed] at tried
        cases result with
        | error e =>
          rw [pollChat_failed (by rw [tried]),read,tried] at stepped
          cases stepped
          exact .inl ⟨_,rfl⟩
        | ok records =>
          rw [pollChat_done tried,read,tried] at stepped
          cases stepped
          exact .inr ⟨state,records,signature,follower,seen,followed,rfl⟩

theorem advance_tracks (held : Tracks c pathBytes w) (stepped : w.advance c pathBytes fromStart event = some after) :
    Tracks c pathBytes after := by
  cases event with
  | poll look =>
    rcases poll_cases stepped with ⟨error,rfl⟩ | ⟨state,records,signature,follower,-,followed,rfl⟩
    · exact ⟨held.follows.marked,held.caught,held.kept⟩
    · obtain ⟨following,caught⟩ := followState_follows held.follows.marked followed rfl
      exact ⟨following.marked,fun idle _ => caught idle,held.kept⟩
  | checkpoint =>
    cases exported : exportChat pathBytes w.follower with
    | error e =>
      simp only [Watched.advance,exported,Option.some.injEq] at stepped
      rw [← stepped]
      exact held
    | ok checkpoint =>
      simp only [Watched.advance,exported,Option.some.injEq] at stepped
      rw [← stepped]
      refine ⟨held.follows,held.caught,?_⟩
      intro k consumer saved
      cases saved
      exact ⟨w.follower,exported,held.follows⟩
  | restart maxRecords =>
    cases saved : w.saved with
    | none => simp [Watched.advance,saved] at stepped
    | some kept =>
      obtain ⟨checkpoint,consumer⟩ := kept
      simp only [Watched.advance,saved] at stepped
      obtain ⟨follower,restored,rfl⟩ := Option.map_eq_some_iff.mp stepped
      obtain ⟨s,exported,following⟩ := held.kept _ _ saved
      refine ⟨restored_follows following exported restored,?_,fun k u same => held.kept k u (saved.trans same)⟩
      intro _ unread
      cases unread

theorem runs_track (path : Run (Watched.advance c pathBytes fromStart) Any (.initial c maxRecords) events w) :
    Tracks c pathBytes w :=
  path.invariant (Tracks c pathBytes) initial_tracks fun _ _ _ held _ stepped => advance_tracks held stepped

-- Since the list last started over, each message was delivered once and in order.
structure Consumer.Complete (fromStart : Bool) (u : Consumer α) : Prop where
  delivered : u.list = u.base ++ u.delivered
  start : fromStart = true → u.base = []

structure Delivers (fromStart : Bool) (w : Watched α ρ η π σ) : Prop where
  complete : w.consumer.Complete fromStart
  kept : ∀ checkpoint consumer, w.saved = some (checkpoint,consumer) → consumer.Complete fromStart

theorem advance_delivers (held : Tracks c pathBytes w) (delivers : Delivers fromStart w) (grows : Grows c w event)
    (stepped : w.advance c pathBytes fromStart event = some after) : Delivers fromStart after := by
  cases event with
  | poll look =>
    rcases poll_cases stepped with ⟨error,rfl⟩ | ⟨state,records,signature,follower,seen,followed,rfl⟩
    · exact ⟨delivers.complete,delivers.kept⟩
    · refine ⟨?_,delivers.kept⟩
      have begins := held.follows.begins.trans (grows state seen)
      cases first : (!w.follower.initialized && !fromStart) with
      | true =>
        obtain ⟨young,late⟩ : w.follower.initialized = false ∧ fromStart = false := by
          simpa using first
        have none : records = [] := by
          rw [followState,if_pos ⟨young,late⟩] at followed
          cases followed
          rfl
        have empty := delivers.complete.delivered.symm.trans (held.follows.unstarted young)
        subst none
        refine ⟨?_,fun start => by rw [late] at start; cases start⟩
        simp [Consumer.absorb,messagesOf,(List.append_eq_nil_iff.mp empty).2]
      | false =>
        rw [followState_grows held.follows.marked followed first begins]
        refine ⟨?_,delivers.complete.start⟩
        simp only [Consumer.absorb]
        rw [if_neg (by decide),if_neg (by decide),append_begins begins,delivers.complete.delivered,List.append_assoc]
  | checkpoint =>
    cases exported : exportChat pathBytes w.follower with
    | error e =>
      simp only [Watched.advance,exported,Option.some.injEq] at stepped
      rw [← stepped]
      exact delivers
    | ok checkpoint =>
      simp only [Watched.advance,exported,Option.some.injEq] at stepped
      rw [← stepped]
      refine ⟨delivers.complete,?_⟩
      intro k consumer saved
      cases saved
      exact delivers.complete
  | restart maxRecords =>
    cases saved : w.saved with
    | none => simp [Watched.advance,saved] at stepped
    | some kept =>
      simp only [Watched.advance,saved] at stepped
      obtain ⟨follower,restored,rfl⟩ := Option.map_eq_some_iff.mp stepped
      exact ⟨delivers.kept _ _ saved,fun k u same => delivers.kept k u (saved.trans same)⟩

theorem growth_delivers (path : Run (Watched.advance c pathBytes fromStart) (Grows c) (.initial c maxRecords) events w) :
    Delivers fromStart w := by
  have both := path.invariant (fun w => Tracks c pathBytes w ∧ Delivers fromStart w)
    ⟨initial_tracks,⟨rfl,fun _ => rfl⟩,fun _ _ none => by cases none⟩
    fun _ _ _ held grows stepped => ⟨advance_tracks held.1 stepped,advance_delivers held.1 held.2 grows stepped⟩
  exact both.2

-- The consumer's list begins the ids last observed and is all of them when nothing is
-- pending; on a chat that only grows each message is delivered once, in order.
theorem follower_keeps_consumer (path : Run (Watched.advance c pathBytes fromStart) Any (.initial c maxRecords) events w) :
    w.consumer.list <+: w.consumer.observed ∧
    (w.follower.pending = false → w.restored = false → w.consumer.list = w.consumer.observed) ∧
    (Run (Watched.advance c pathBytes fromStart) (Grows c) (.initial c maxRecords) events w →
      w.consumer.list = w.consumer.base ++ w.consumer.delivered ∧ (fromStart = true → w.consumer.base = [])) ∧
    (∀ look e, (attempt c w.maxRecords fromStart look w.follower).2 = .error e →
      pollChat c w.maxRecords fromStart look w.follower = ({w.follower with lastError := some e},[])) ∧
    (∀ checkpoint, exportChat pathBytes w.follower = .ok checkpoint →
      checkpointBytes 2 2 pathBytes checkpoint ≤ maxCheckpointBytes →
      ∀ other : ChatFollower α ρ η π σ, (restoreChat c pathBytes checkpoint other).isSome) := by
  have held := runs_track path
  refine ⟨held.follows.begins,held.caught,?_,?_,?_⟩
  · intro grown
    have complete := (growth_delivers grown).complete
    exact ⟨complete.delivered,complete.start⟩
  · intro look e failed
    exact pollChat_failed failed
  · intro checkpoint exported fits other
    exact restore_accepts held.follows exported fits other

end Polls
def demoRoots : Roots Nat Nat (List Nat) where
  messageIds root := List.range (min root 4)
  digest := id
  bounded root := by
    have : min root 4 ≤ maxMessageReferences := Nat.le_trans (Nat.min_le_right _ _) (by decide)
    simpa using this
  collisionFree _ _ same := same

def demoLook (signature root : Nat) : Look Nat Nat Nat := ⟨.ok signature,.ok ⟨root,none⟩,.ok signature,.ok ()⟩

-- A page at a time: a root arrives in the middle of a page, and a restart after it.
theorem demo_consumer : ∃ w : Watched Nat Nat (List Nat) Nat Nat,
    Run (Watched.advance demoRoots 20 true) Any (.initial demoRoots 1)
      [.poll (demoLook 0 2),.poll (demoLook 1 3),.checkpoint,.restart 2,.poll (demoLook 1 3)] w ∧
    w.consumer.list <+: w.consumer.observed ∧ w.consumer.list = [0,1,2] := by
  have path : Run (Watched.advance demoRoots 20 true) Any (.initial demoRoots 1 : Watched Nat Nat (List Nat) Nat Nat)
      [.poll (demoLook 0 2),.poll (demoLook 1 3),.checkpoint,.restart 2,.poll (demoLook 1 3)] _ :=
    .cons trivial rfl (.cons trivial rfl (.cons trivial rfl (.cons trivial rfl (.cons trivial rfl .nil))))
  exact ⟨_,path,(follower_keeps_consumer path).1,rfl⟩

-- A follower that does not start at the beginning delivers nothing of its first state,
-- so a list made of its batches alone misses the state's first message.
theorem late_follower_skips : ∃ first second : ChatFollower Nat Nat (List Nat) Nat Nat × List (Record Nat Nat Nat),
    pollChat demoRoots 4 false (demoLook 0 1) (fresh demoRoots) = first ∧
    pollChat demoRoots 4 false (demoLook 1 2) first.1 = second ∧ second.1.pending = false ∧
    ¬append (append [] (demoRoots.messageIds 1) first.2) (demoRoots.messageIds 2) second.2 <+: demoRoots.messageIds 2 :=
  ⟨_,_,rfl,rfl,rfl,by decide⟩

end AgentSideCar.Chat
