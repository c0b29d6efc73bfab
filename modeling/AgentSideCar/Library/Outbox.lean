import Mathlib.Data.List.Basic

namespace AgentSideCar
variable {φ : Type}

-- What is sent over a connection that may be slow: what was handed over, and what waits behind
-- it while the connection is blocked.
structure Outbox (φ : Type) where
  written : List φ
  pending : List φ
  blocked : Bool
  deriving DecidableEq

namespace Outbox

def empty : Outbox φ := ⟨[],[],false⟩

def whole (b : Outbox φ) : List φ := b.written ++ b.pending

-- A frame waits behind a blocked connection, or is written; `ready` is what writing it answers.
def offer (ready : Bool) (frame : φ) (b : Outbox φ) : Outbox φ :=
  if b.blocked then {b with pending := b.pending ++ [frame]} else {b with written := b.written ++ [frame],blocked := !ready}

-- What waits is written until the connection is blocked again, or nothing waits.
def drain (ready : Nat → Bool) : Nat → List φ → List φ → Outbox φ
  | _,written,[] => ⟨written,[],false⟩
  | n,written,frame :: rest => if ready n then drain ready (n + 1) (written ++ [frame]) rest else ⟨written ++ [frame],rest,true⟩

def flush (ready : Nat → Bool) (b : Outbox φ) : Outbox φ := drain ready 0 b.written b.pending

-- Nothing waits for a connection that is not blocked.
def Settled (b : Outbox φ) : Prop := b.blocked = false → b.pending = []

variable {b : Outbox φ}

theorem offer_whole (settled : b.Settled) (ready : Bool) (frame : φ) : (b.offer ready frame).whole = b.whole ++ [frame] := by
  unfold offer whole
  split
  · rw [List.append_assoc]
  · rename_i open'
    have none' := settled (by simpa using open')
    simp [none']

theorem offer_settled (settled : b.Settled) (ready : Bool) (frame : φ) : (b.offer ready frame).Settled := by
  unfold offer
  split
  · rename_i blocked
    exact fun open' => by rw [blocked] at open'; cases open'
  · rename_i open'
    exact fun _ => settled (by simpa using open')

theorem offer_written (ready : Bool) (frame : φ) : b.written <+: (b.offer ready frame).written := by
  unfold offer
  split
  · exact List.prefix_rfl
  · exact List.prefix_append _ _

theorem drain_whole (ready : Nat → Bool) (n : Nat) (written pending : List φ) : (drain ready n written pending).whole = written ++ pending := by
  induction pending generalizing n written with
  | nil => rfl
  | cons frame rest ih =>
    rw [drain]
    split
    · rw [ih,List.append_assoc]
      rfl
    · simp [whole]

theorem drain_written (ready : Nat → Bool) (n : Nat) (written pending : List φ) : written <+: (drain ready n written pending).written := by
  induction pending generalizing n written with
  | nil => exact List.prefix_rfl
  | cons frame rest ih =>
    rw [drain]
    split
    · apply (List.prefix_append written [frame]).trans
      exact ih _ _
    · exact List.prefix_append _ _

theorem drain_settled (ready : Nat → Bool) (n : Nat) (written pending : List φ) : (drain ready n written pending).Settled := by
  induction pending generalizing n written with
  | nil => exact fun _ => rfl
  | cons frame rest ih =>
    rw [drain]
    split
    · exact ih _ _
    · exact nofun

theorem drain_pending (ready : Nat → Bool) (n : Nat) (written pending : List φ) :
    (drain ready n written pending).pending.length ≤ pending.length := by
  induction pending generalizing n written with
  | nil => exact Nat.le_refl _
  | cons frame rest ih =>
    rw [drain]
    split
    · exact Nat.le_succ_of_le (ih _ _)
    · exact Nat.le_succ _

theorem flush_whole (ready : Nat → Bool) : (b.flush ready).whole = b.whole := drain_whole ready 0 _ _

theorem flush_written (ready : Nat → Bool) : b.written <+: (b.flush ready).written := drain_written ready 0 _ _

theorem flush_settled (ready : Nat → Bool) : (b.flush ready).Settled := drain_settled ready 0 _ _

theorem flush_pending (ready : Nat → Bool) : (b.flush ready).pending.length ≤ b.pending.length := drain_pending ready 0 _ _

end Outbox
end AgentSideCar
