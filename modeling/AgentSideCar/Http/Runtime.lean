import AgentSideCar.Http.Files
import AgentSideCar.Library.Runs

namespace AgentSideCar.Http
open Loads (Plain)
open Runs (Run)

-- The runtime directory: its two files, the port file with its identity, and who holds the lock.
structure Directory where
  token : Option Bytes
  port : Option (Bytes × Nat)
  lock : Option Nat

structure Owned where
  port : Nat
  nonce : Bytes
  identity : Nat

-- How far a server has come that starts.
inductive Phase where
  | idle
  | locked
  | tokened (token : Bytes)
  | recorded (token : Bytes) (previous : Option Nat)
  | published (token : Bytes) (owned : Owned)
  | running (token : Bytes) (owned : Owned)

def Phase.token : Phase → Option Bytes
  | .tokened token | .recorded token _ | .published token _ | .running token _ => some token
  | _ => none

def Phase.owned : Phase → Option Owned
  | .published _ owned | .running _ owned => some owned
  | _ => none

structure World where
  directory : Directory
  phase : Nat → Phase

-- A server takes one step of its start, fails in it, closes, or dies; the secrets, the port and the
-- identity of a file are what the system gives it.
inductive Event where
  | lock (server : Nat)
  | token (server : Nat) (secret : List UInt8)
  | record (server : Nat)
  | publish (server port : Nat) (secret : List UInt8) (identity : Nat)
  | ready (server : Nat)
  | fail (server : Nat)
  | close (server : Nat)
  | crash (server : Nat)

variable (p : Plain)

def loadToken (d : Directory) : Option Bytes := d.token.bind fun raw => if maximum < raw.length then none else decodeToken raw

def removeOwnedPort (d : Directory) (owned : Option Owned) : Directory :=
  match owned,d.port with
  | some owned,some (data,identity) =>
    if identity = owned.identity ∧ (loadPortRecord p data).any (·.2 = owned.nonce) then {d with port := none} else d
  | _,_ => d

def World.enter (w : World) (server : Nat) (phase : Phase) : World := {w with phase := fun i => if i = server then phase else w.phase i}

-- The lock goes with whoever held it.
def World.release (w : World) (server : Nat) : World :=
  {directory := {w.directory with lock := if w.directory.lock = some server then none else w.directory.lock},
    phase := (w.enter server .idle).phase}

def World.leave (w : World) (server : Nat) : World :=
  World.release {w with directory := removeOwnedPort p w.directory (w.phase server).owned} server

def World.put (w : World) (directory : Directory) : World := {w with directory := directory}

def advance (w : World) : Event → Option World
  | .lock i => match w.phase i with
    | .idle => some (if w.directory.lock = none then (w.put {w.directory with lock := some i}).enter i .locked else w)
    | _ => none
  | .token i secret => match w.phase i with
    | .locked =>
      let d := match w.directory.token with
        | none => {w.directory with token := some (Base64.encode secret ++ [lf])}
        | some _ => w.directory
      some (match loadToken d with
        | some token => (w.put d).enter i (.tokened token)
        | none => (w.put d).leave p i)
    | _ => none
  | .record i => match w.phase i with
    | .tokened token =>
      some (match w.directory.port with
        | none => w.enter i (.recorded token none)
        | some (data,identity) => match loadPortRecord p data with
          | some _ => w.enter i (.recorded token (some identity))
          | none => w.leave p i)
    | _ => none
  | .publish i port secret identity => match w.phase i with
    | .recorded token previous =>
      if w.directory.port.map Prod.snd = previous then
        some ((w.put {w.directory with port := some (portPayload port (Base64.encode secret),identity)}).enter i
          (.published token ⟨port,Base64.encode secret,identity⟩))
      else some (w.leave p i)
    | _ => none
  | .ready i => match w.phase i with
    | .published token owned => some (w.enter i (.running token owned))
    | _ => none
  | .fail i => match w.phase i with
    | .idle => none
    | .running _ _ => none
    | _ => some (w.leave p i)
  | .close i => match w.phase i with
    | .running _ _ => some (w.leave p i)
    | _ => none
  | .crash i => some (w.release i)

-- What the system gives is what it promises: a bound port, and secrets of their lengths.
def Given : World → Event → Prop
  | _,.token _ secret => secret.length = 32
  | _,.publish _ port secret _ => (1 ≤ port ∧ port ≤ 65535) ∧ secret.length = 24
  | _,_ => True

def Fit (owned : Owned) : Prop := (1 ≤ owned.port ∧ owned.port ≤ 65535) ∧ ∃ secret : List UInt8, secret.length = 24 ∧ owned.nonce = Base64.encode secret

-- Who has begun holds the lock; its token is the file's, and what it has published is in place.
structure Invariant (w : World) : Prop where
  holder : ∀ i, w.phase i ≠ .idle → w.directory.lock = some i
  token : ∀ i token, (w.phase i).token = some token → loadToken w.directory = some token
  owned : ∀ i owned, (w.phase i).owned = some owned →
    w.directory.port = some (portPayload owned.port owned.nonce,owned.identity) ∧ Fit owned

variable {p : Plain} {w after : World}

theorem invariant_idle (idle : ∀ i, w.phase i = .idle) : Invariant w :=
  ⟨fun i begun => absurd (idle i) begun,fun i _ own => (by rw [idle i] at own; cases own),fun i _ own => (by rw [idle i] at own; cases own)⟩

theorem invariant_alone (valid : Invariant w) (begun : w.phase i ≠ .idle) (j : Nat) (other : j ≠ i) : w.phase j = .idle := by
  by_contra also
  have one := valid.holder i begun
  rw [valid.holder j also] at one
  exact other (Option.some.inj one)

theorem invariant_only {phase : Phase} (alone : ∀ j, j ≠ i → w.phase j = .idle) (held : w.directory.lock = some i)
    (token : ∀ t, phase.token = some t → loadToken w.directory = some t)
    (owned : ∀ o, phase.owned = some o → w.directory.port = some (portPayload o.port o.nonce,o.identity) ∧ Fit o) :
    Invariant (w.enter i phase) := by
  have cases' : ∀ j, (w.enter i phase).phase j = if j = i then phase else w.phase j := fun _ => rfl
  constructor
  · intro j begun
    rw [cases' j] at begun
    split at begun
    · rename_i same
      rw [same]
      exact held
    · rename_i other
      exact absurd (alone j other) begun
  · intro j t own
    rw [cases' j] at own
    split at own
    · exact token t own
    · rename_i other
      rw [alone j other] at own
      cases own
  · intro j o own
    rw [cases' j] at own
    split at own
    · exact owned o own
    · rename_i other
      rw [alone j other] at own
      cases own

theorem invariant_leave (alone : ∀ j, j ≠ i → w.phase j = .idle) : Invariant (w.leave p i) := by
  refine invariant_idle fun j => ?_
  show (if j = i then Phase.idle else w.phase j) = .idle
  split
  · rfl
  · rename_i other
    exact alone j other

theorem invariant_release (valid : Invariant w) (i : Nat) : Invariant (w.release i) := by
  by_cases begun : w.phase i = .idle
  · have same : (w.release i).phase = w.phase := by
      funext j
      show (if j = i then Phase.idle else w.phase j) = w.phase j
      split
      · rename_i own
        rw [own,begun]
      · rfl
    constructor
    · intro j other
      rw [same] at other
      have held := valid.holder j other
      have apart : ¬ w.directory.lock = some i := by
        rw [held]
        rintro ⟨⟩
        exact other begun
      show (if w.directory.lock = some i then none else w.directory.lock) = some j
      rw [if_neg apart,held]
    · intro j t own
      rw [same] at own
      exact valid.token j t own
    · intro j o own
      rw [same] at own
      exact valid.owned j o own
  · refine invariant_idle fun j => ?_
    show (if j = i then Phase.idle else w.phase j) = .idle
    split
    · rfl
    · rename_i other
      exact invariant_alone valid begun j other

theorem advance_invariant (valid : Invariant w) (event : Event) (given : Given w event) (stepped : advance p w event = some after) :
    Invariant after := by
  have begun : ∀ {i phase}, w.phase i = phase → phase ≠ .idle → w.phase i ≠ .idle := fun own other => own ▸ other
  cases event with
  | crash i =>
    cases stepped
    exact invariant_release valid i
  | lock i =>
    simp only [advance] at stepped
    split at stepped
    · rename_i idle
      cases stepped
      split
      · rename_i free
        have alone : ∀ j, j ≠ i → w.phase j = .idle := by
          intro j _
          by_contra also
          rw [valid.holder j also] at free
          cases free
        exact invariant_only alone rfl nofun nofun
      · exact valid
    · cases stepped
  | ready i =>
    simp only [advance] at stepped
    split at stepped
    · rename_i token owned own
      cases stepped
      have here := begun own nofun
      refine invariant_only (invariant_alone valid here) (valid.holder i here) ?_ ?_
      · rintro t ⟨⟩
        exact valid.token i _ (by rw [own]; rfl)
      · rintro o ⟨⟩
        exact valid.owned i _ (by rw [own]; rfl)
    · cases stepped
  | fail i =>
    simp only [advance] at stepped
    split at stepped
    · cases stepped
    · cases stepped
    · rename_i idle _
      cases stepped
      exact invariant_leave (invariant_alone valid idle)
  | close i =>
    simp only [advance] at stepped
    split at stepped
    · rename_i own
      cases stepped
      exact invariant_leave (invariant_alone valid (begun own nofun))
    · cases stepped
  | token i secret =>
    simp only [advance] at stepped
    split at stepped
    · rename_i own
      have here := begun own nofun
      have held := valid.holder i here
      have alone := invariant_alone valid here
      cases stepped
      have lock : ∀ d : Directory, (d = match w.directory.token with
          | none => {w.directory with token := some (Base64.encode secret ++ [lf])}
          | some _ => w.directory) → d.lock = some i := by
        rintro d rfl
        cases w.directory.token <;> exact held
      split
      · rename_i token read
        refine invariant_only alone (lock _ rfl) ?_ nofun
        rintro t ⟨⟩
        exact read
      · exact invariant_leave alone
    · cases stepped
  | record i =>
    simp only [advance] at stepped
    split at stepped
    · rename_i token own
      have here := begun own nofun
      have held := valid.holder i here
      have alone := invariant_alone valid here
      have recorded : ∀ previous, Invariant (w.enter i (.recorded token previous)) := by
        intro previous
        refine invariant_only alone held ?_ nofun
        rintro t ⟨⟩
        exact valid.token i _ (by rw [own]; rfl)
      cases stepped
      split
      · exact recorded none
      · split
        · exact recorded _
        · exact invariant_leave alone
    · cases stepped
  | publish i port secret identity =>
    simp only [advance] at stepped
    split at stepped
    · rename_i token previous own
      have here := begun own nofun
      have held := valid.holder i here
      have alone := invariant_alone valid here
      split at stepped
      · cases stepped
        refine invariant_only alone held ?_ ?_
        · rintro t ⟨⟩
          exact valid.token i _ (by rw [own]; rfl)
        · rintro o ⟨⟩
          exact ⟨rfl,given.1,secret,given.2,rfl⟩
      · cases stepped
        exact invariant_leave alone
    · cases stepped

theorem leave_token (w : World) (i : Nat) : (w.leave p i).directory.token = w.directory.token := by
  show (removeOwnedPort p w.directory (w.phase i).owned).token = w.directory.token
  unfold removeOwnedPort
  split
  · split <;> rfl
  · rfl

theorem advance_token (stepped : advance p w event = some after) (there : w.directory.token = some raw) :
    after.directory.token = some raw := by
  cases event with
  | crash i =>
    cases stepped
    exact there
  | lock i =>
    simp only [advance] at stepped
    split at stepped <;> cases stepped
    split <;> exact there
  | ready i =>
    simp only [advance] at stepped
    split at stepped <;> cases stepped
    exact there
  | fail i =>
    simp only [advance] at stepped
    split at stepped <;> cases stepped
    rw [leave_token,there]
  | close i =>
    simp only [advance] at stepped
    split at stepped <;> cases stepped
    rw [leave_token,there]
  | token i secret =>
    simp only [advance,there] at stepped
    split at stepped <;> cases stepped
    split
    · exact there
    · rw [leave_token]
      exact there
  | record i =>
    simp only [advance] at stepped
    split at stepped <;> cases stepped
    split
    · exact there
    · split
      · exact there
      · rw [leave_token,there]
  | publish i port secret identity =>
    simp only [advance] at stepped
    split at stepped
    · split at stepped <;> cases stepped
      · exact there
      · rw [leave_token,there]
    · cases stepped

theorem payload_short (fit : Fit owned) : (portPayload owned.port owned.nonce).length ≤ maximum := by
  obtain ⟨⟨_,most⟩,secret,long,own⟩ := fit
  have digits := decimal_short most
  have nonce := Base64.encode_length secret
  have ends : (ascii "\x7b\"nonce\":\"").length = 10 ∧ (ascii "\",\"port\":").length = 9 ∧ (ascii "\x7d\n").length = 2 := by decide
  simp only [portPayload,own,List.length_append,ends,maximum]
  omega

theorem owned_read (deep : 1 ≤ p.depth) (digits : ∀ most, p.digits = some most → 5 ≤ most) (fit : Fit owned) :
    loadPortRecord p (portPayload owned.port owned.nonce) = some (owned.port,owned.nonce) := by
  obtain ⟨range,secret,long,own⟩ := fit
  exact (loadPortRecord_exact deep digits _ _ _).mpr ⟨rfl,range,payload_short ⟨range,secret,long,own⟩,secret,by omega,own⟩

-- Whatever servers start, fail, close and die over a directory, in whatever order: one runs at a time, its
-- port and its token are those that the files tell, a token that is there stays whatever comes after, and
-- who closes takes its port away.
theorem servers_exclusive (deep : 1 ≤ p.depth) (digits : ∀ most, p.digits = some most → 5 ≤ most) (idle : ∀ i, w.phase i = .idle)
    (ran : Run (advance p) Given w events after) :
    (∀ i j t t' o o', after.phase i = .running t o → after.phase j = .running t' o' → i = j) ∧
    (∀ i token owned, after.phase i = .running token owned → loadToken after.directory = some token ∧
      (after.directory.port.bind fun file => loadPortRecord p file.1) = some (owned.port,owned.nonce)) ∧
    (∀ raw more later, after.directory.token = some raw → Run (advance p) Given after more later → later.directory.token = some raw) ∧
    ∀ i closed, advance p after (.close i) = some closed → closed.directory.port = none := by
  have valid : Invariant after := Run.invariant Invariant (invariant_idle idle) (fun _ event _ valid given stepped =>
    advance_invariant valid event given stepped) ran
  refine ⟨?_,?_,?_,?_⟩
  · intro i j t t' o o' one other
    have held := valid.holder i (by rw [one]; nofun)
    rw [valid.holder j (by rw [other]; nofun)] at held
    exact (Option.some.inj held).symm
  · intro i token owned own
    obtain ⟨file,fit⟩ := valid.owned i owned (by rw [own]; rfl)
    refine ⟨valid.token i token (by rw [own]; rfl),?_⟩
    rw [file,Option.bind_some]
    exact owned_read deep digits fit
  · intro raw more later there goes
    exact Run.invariant (fun w => w.directory.token = some raw) there (fun _ _ _ there _ stepped => advance_token stepped there) goes
  · intro i closed stepped
    simp only [advance] at stepped
    split at stepped
    · rename_i token owned own
      obtain ⟨file,fit⟩ := valid.owned i owned (by rw [own]; rfl)
      cases stepped
      show (removeOwnedPort p after.directory (after.phase i).owned).port = none
      rw [own]
      simp only [removeOwnedPort,Phase.owned,file]
      rw [if_pos ⟨trivial,by rw [owned_read deep digits fit]; simp⟩]
    · cases stepped

def demoPlain : Plain := ⟨1000,some 4300,fun _ => .null⟩
def demoWorld : World := ⟨⟨none,none,none⟩,fun _ => .idle⟩
def demoToken : Bytes := Base64.encode (List.replicate 32 1)
def demoOwned : Owned := ⟨8080,Base64.encode (List.replicate 24 2),9⟩
def demoLocked : World := (demoWorld.put ⟨none,none,some 0⟩).enter 0 .locked
def demoTokened : World := (demoLocked.put ⟨some (demoToken ++ [lf]),none,some 0⟩).enter 0 (.tokened demoToken)
def demoRecorded : World := demoTokened.enter 0 (.recorded demoToken none)
def demoPublished : World :=
  (demoRecorded.put ⟨some (demoToken ++ [lf]),some (portPayload 8080 demoOwned.nonce,9),some 0⟩).enter 0 (.published demoToken demoOwned)
def demoRunning : World := demoPublished.enter 0 (.running demoToken demoOwned)

theorem demo_tokened : advance demoPlain demoLocked (.token 0 (List.replicate 32 1)) = some demoTokened := by
  have token : loadToken ⟨some (Base64.encode (List.replicate 32 1) ++ [lf]),none,some 0⟩ = some demoToken := by decide
  simp only [advance,demoLocked,World.enter,World.put,if_true,token]
  rfl

theorem demo_run : Run (advance demoPlain) Given demoWorld
    [.lock 0,.token 0 (List.replicate 32 1),.record 0,.publish 0 8080 (List.replicate 24 2) 9,.ready 0,.lock 1] demoRunning := by
  have locked : advance demoPlain demoWorld (.lock 0) = some demoLocked := rfl
  have recorded : advance demoPlain demoTokened (.record 0) = some demoRecorded := rfl
  have published : advance demoPlain demoRecorded (.publish 0 8080 (List.replicate 24 2) 9) = some demoPublished := rfl
  have running : advance demoPlain demoPublished (.ready 0) = some demoRunning := rfl
  have refused : advance demoPlain demoRunning (.lock 1) = some demoRunning := rfl
  exact .cons trivial locked (.cons rfl demo_tokened (.cons trivial recorded (.cons ⟨by decide,rfl⟩ published
    (.cons trivial running (.cons trivial refused .nil)))))

theorem demo_exclusive : loadToken demoRunning.directory = some demoToken ∧
    (demoRunning.directory.port.bind fun file => loadPortRecord demoPlain file.1) = some (8080,demoOwned.nonce) :=
  (servers_exclusive (by decide) (by rintro _ ⟨⟩; decide) (fun _ => rfl) demo_run).2.1 0 demoToken demoOwned rfl

end AgentSideCar.Http
