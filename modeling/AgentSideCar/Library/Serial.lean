import Mathlib.Data.List.Nodup
import Mathlib.Logic.Function.Basic
import AgentSideCar.Library.Runs

namespace AgentSideCar.Serial
open Runs
variable {σ ρ ι : Type}

-- A read-modify-write call: what it loads decides its answer and, when it stores at
-- all, the whole contents it stores.
abbrev Call (σ ρ : Type) := σ → ρ × Option σ

inductive Phase (σ ρ : Type) where
  | waiting
  | loaded (seen : σ) (answer : ρ) (contents : σ)
  | answered (answer : ρ)
  | failed

structure World (σ ρ ι : Type) where
  file : σ
  phase : ι → Phase σ ρ
  log : List (ι × ρ)

inductive Event (ι : Type) where
  | load (i : ι)
  | store (i : ι)
  | fail (i : ι)
  deriving DecidableEq

def initial (file : σ) : World σ ρ ι := ⟨file,fun _ => .waiting,[]⟩

section Steps
variable [DecidableEq ι]

-- A call that stores nothing answers as it loads; one that fails leaves the file alone.
def advance (calls : ι → Call σ ρ) (s : World σ ρ ι) : Event ι → Option (World σ ρ ι)
  | .load i =>
    match s.phase i with
    | .waiting =>
      match calls i s.file with
      | (answer,none) => some ⟨s.file,Function.update s.phase i (.answered answer),s.log ++ [(i,answer)]⟩
      | (answer,some contents) => some ⟨s.file,Function.update s.phase i (.loaded s.file answer contents),s.log⟩
    | _ => none
  | .store i =>
    match s.phase i with
    | .loaded _ answer contents => some ⟨contents,Function.update s.phase i (.answered answer),s.log ++ [(i,answer)]⟩
    | _ => none
  | .fail i =>
    match s.phase i with
    | .waiting => some ⟨s.file,Function.update s.phase i .failed,s.log⟩
    | .loaded _ _ _ => some ⟨s.file,Function.update s.phase i .failed,s.log⟩
    | _ => none

end Steps

-- A store finds the file as its own call loaded it.
def Current (s : World σ ρ ι) : Event ι → Prop
  | .store i => ∀ seen answer contents, s.phase i = .loaded seen answer contents → s.file = seen
  | _ => True

-- The calls one after the other, with their answers.
def serially (calls : ι → Call σ ρ) : List ι → σ → σ × List (ι × ρ)
  | [],file => (file,[])
  | i :: rest,file =>
    let later := serially calls rest ((calls i file).2.getD file)
    (later.1,(i,(calls i file).1) :: later.2)

theorem serially_snoc (calls : ι → Call σ ρ) (order : List ι) (i : ι) (file : σ) :
    serially calls (order ++ [i]) file =
      ((calls i (serially calls order file).1).2.getD (serially calls order file).1,
        (serially calls order file).2 ++ [(i,(calls i (serially calls order file).1).1)]) := by
  induction order generalizing file with
  | nil => rfl
  | cons j rest ih => simp only [List.cons_append,serially,ih]

structure Serialized (calls : ι → Call σ ρ) (start : σ) (s : World σ ρ ι) : Prop where
  exact : serially calls (s.log.map Prod.fst) start = (s.file,s.log)
  loaded : ∀ i seen answer contents, s.phase i = .loaded seen answer contents → calls i seen = (answer,some contents)
  answered : ∀ i answer, (i,answer) ∈ s.log ↔ s.phase i = .answered answer
  once : (s.log.map Prod.fst).Nodup

theorem initial_serialized (calls : ι → Call σ ρ) (start : σ) : Serialized calls start (initial start) :=
  ⟨rfl,fun _ _ _ _ held => (nomatch held),fun _ _ => ⟨fun inside => (nomatch inside),fun held => (nomatch held)⟩,.nil⟩

variable [DecidableEq ι] {calls : ι → Call σ ρ}

theorem answer_serialized (held : Serialized calls start s) (busy : ∀ answer, s.phase i ≠ .answered answer)
    (decided : calls i s.file = (answer,stored)) :
    Serialized calls start ⟨stored.getD s.file,Function.update s.phase i (.answered answer),s.log ++ [(i,answer)]⟩ := by
  refine ⟨?_,fun j seen other contents loaded => ?_,fun j other => ?_,?_⟩
  · simp only [List.map_append,List.map_cons,List.map_nil]
    rw [serially_snoc,held.exact,decided]
  · by_cases same : j = i
    · subst same; simp at loaded
    · exact held.loaded j seen other contents (by simpa [same] using loaded)
  · rw [List.mem_append,List.mem_singleton,held.answered]
    by_cases same : j = i
    · subst same
      have := busy other
      simp [this,eq_comm]
    · simp [same]
  · rw [List.map_append,List.nodup_append]
    refine ⟨held.once,by simp,?_⟩
    simp only [List.map_cons,List.map_nil,List.mem_singleton,forall_eq]
    intro j inside same
    obtain ⟨⟨k,other⟩,present,named⟩ := List.mem_map.mp inside
    simp only at named
    subst named
    subst same
    exact busy other ((held.answered k other).mp present)

theorem quiet_serialized (held : Serialized calls start s) (busy : ∀ answer, s.phase i ≠ .answered answer)
    (open' : ∀ answer, next ≠ .answered answer)
    (sound : ∀ seen answer contents, next = .loaded seen answer contents → calls i seen = (answer,some contents)) :
    Serialized calls start ⟨s.file,Function.update s.phase i next,s.log⟩ := by
  refine ⟨held.exact,fun j seen answer contents loaded => ?_,fun j answer => ?_,held.once⟩
  · by_cases same : j = i
    · subst same; exact sound seen answer contents (by simpa using loaded)
    · exact held.loaded j seen answer contents (by simpa [same] using loaded)
  · by_cases same : j = i
    · subst same
      simp [held.answered,busy,open']
    · simp [held.answered,same]

theorem step_serialized (held : Serialized calls start s) (current : Current s event)
    (stepped : advance calls s event = some after) : Serialized calls start after := by
  cases event with
  | load i =>
    simp only [advance] at stepped
    cases phase : s.phase i with
    | waiting =>
      rw [phase] at stepped
      cases decided : calls i s.file with
      | mk answer stored =>
        rw [decided] at stepped
        cases stored with
        | none =>
          cases stepped
          exact answer_serialized held (by simp [phase]) decided
        | some contents =>
          cases stepped
          refine quiet_serialized held (by simp [phase]) (by simp) fun seen other kept same => ?_
          cases same
          exact decided
    | loaded seen answer contents => rw [phase] at stepped; cases stepped
    | answered answer => rw [phase] at stepped; cases stepped
    | failed => rw [phase] at stepped; cases stepped
  | store i =>
    simp only [advance] at stepped
    cases phase : s.phase i with
    | waiting => rw [phase] at stepped; cases stepped
    | loaded seen answer contents =>
      rw [phase] at stepped
      cases stepped
      have decided := held.loaded i seen answer contents phase
      rw [← current seen answer contents phase] at decided
      exact answer_serialized held (by simp [phase]) decided
    | answered answer => rw [phase] at stepped; cases stepped
    | failed => rw [phase] at stepped; cases stepped
  | fail i =>
    simp only [advance] at stepped
    cases phase : s.phase i with
    | waiting =>
      rw [phase] at stepped
      cases stepped
      exact quiet_serialized held (by simp [phase]) (by simp) (by simp)
    | loaded seen answer contents =>
      rw [phase] at stepped
      cases stepped
      exact quiet_serialized held (by simp [phase]) (by simp) (by simp)
    | answered answer => rw [phase] at stepped; cases stepped
    | failed => rw [phase] at stepped; cases stepped

theorem run_serialized (path : Run (advance calls) Current (initial start) events s) : Serialized calls start s := by
  apply Run.invariant (Serialized calls start) (initial_serialized calls start) ?_ path
  intro before event after held current stepped
  exact step_serialized held current stepped

end AgentSideCar.Serial
