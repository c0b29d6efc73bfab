import AgentSideCar.Library.Digits
import AgentSideCar.Library.Shell
import AgentSideCar.Library.Words
import Mathlib.Algebra.Group.Nat.Defs

namespace AgentSideCar.LiveOwner

-- A character of decoded output: one of Unicode, or a byte that is not UTF-8 and is kept as it is.
inductive Point where
  | char (c : Char)
  | byte (b : UInt8)
deriving DecidableEq

abbrev Text := List Point

def lit (s : String) : Text := s.toList.map .char

def code : Point → Nat
  | .char c => c.toNat
  | .byte _ => 0xDC80

def isSpace (p : Point) : Bool :=
  let n := code p
  (9 ≤ n && n ≤ 13) || (28 ≤ n && n ≤ 32) || n = 0x85 || n = 0xA0 || n = 0x1680 || (0x2000 ≤ n && n ≤ 0x200A) ||
    n = 0x2028 || n = 0x2029 || n = 0x202F || n = 0x205F || n = 0x3000

def isBreak (p : Point) : Bool :=
  let n := code p
  (10 ≤ n && n ≤ 13) || (28 ≤ n && n ≤ 30) || n = 0x85 || n = 0x2028 || n = 0x2029

def blank : Point := .char ' '
def slash : Point := .char '/'
def feed : Point := .char '\n'

-- What is known of characters outside ASCII.
structure Unicode where
  lower : Char → List Char
  decimal : Char → Option Nat

abbrev Identity := Int × Int

-- A file that a path leads to, and whether it can be opened.
inductive File where
  | absent
  | blocked
  | regular (identity : Identity) (readable : Bool)
  | other (readable : Bool)
deriving DecidableEq

-- What stands at a path: the file itself, or a link and where it leads.
structure Entry where
  link : Bool
  target : File
deriving DecidableEq

structure Metadata where
  regular : Bool
  identity : Identity
  uid : Int
  mode : Nat
  nlink : Nat
  size : Nat
  ctimeNs : Int
deriving DecidableEq

-- A process as ps prints it, with the working directory it really has;
-- `opens` tells whether that directory can be opened before the deadline.
structure Process where
  pid : Nat
  pgid : Nat
  comm : Text
  args : List Text
  cwd : Identity
  opens : Bool
  lead : Nat := 0
  gap : Nat := 0
  indent : Nat := 0
  pad : Nat := 0
  real : 0 < pid ∧ 0 < pgid ∧ pid < 2 ^ 31 ∧ pgid < 2 ^ 31

structure Host where
  processes : List Process
  distinct : (processes.map Process.pid).Nodup
  psAnswers : Bool
  stat : Text → File
  entry : Identity → Text → Entry
  lstat : Text → Option Metadata
  uid : Int
  late : Nat → Bool
  unicode : Unicode

structure Bound where
  dev : Int
  ino : Int
  canonicalPath : Text

structure Row where
  pid : Int
  pgid : Int
  argv0 : Text
  command : Text

def spaces (n : Nat) : Text := List.replicate n blank

def joined (args : List Text) : Text :=
  match args with
  | [] => []
  | first :: rest => first ++ rest.flatMap (blank :: ·)

def Process.printed (p : Process) : Text :=
  spaces p.lead ++ ((Digits.digits p.pid).map .char ++ (spaces (p.gap + 1) ++ ((Digits.digits p.pgid).map .char ++
    (spaces (p.indent + 1) ++ (p.comm ++ (spaces (p.pad + 1) ++ joined p.args))))))

def Host.stdout (h : Host) : Text := h.processes.flatMap fun p => p.printed ++ [feed]

-- How far an inspection got: how often the clock was read, how many candidates
-- and tokens were counted. Where it raises there is none.
structure Progress where
  ticks : Nat := 0
  candidates : Nat := 0
  tokens : Nat := 0

def tokenLimit : Nat := 4096
def totalTokenLimit : Nat := 16384
def candidateLimit : Nat := 64

section Text
variable (u : Unicode)

def lower (t : Text) : Text := t.flatMap fun
  | .char c => (if c.toNat < 128 then [c.toLower] else u.lower c).map .char
  | .byte b => [.byte b]

def strip (t : Text) : Text := Words.strip isSpace t
def split (t : Text) : List Text := Words.words isSpace [] t
def splitlines (t : Text) : List Text := Words.lines isBreak (.char '\r') feed false [] t

def isQuote (p : Point) : Bool := p = .char '"' || p = .char '\''
def stripQuotes (t : Text) : Text := Words.strip isQuote t

def basename (t : Text) : Text := t.rtakeWhile (· ≠ slash)

def executableBasename (command : Text) : Text :=
  match Words.split isSpace 1 command with
  | [] => []
  | token :: _ => basename (stripQuotes token)

def decimal : Point → Option Nat
  | .char c => if c.isDigit then some (c.toNat - '0'.toNat) else if c.toNat < 128 then none else u.decimal c
  | .byte _ => none

-- Digits with single underscores between them.
def figures : Nat → Bool → Text → Option Nat
  | value,after,[] => if after then some value else none
  | value,after,p :: rest =>
    if p = .char '_' then (if after then figures value false rest else none)
    else match decimal u p with
    | some digit => figures (10 * value + digit) true rest
    | none => none

def maxDigits : Nat := 4300

def int (t : Text) : Option Int :=
  let body := match t with
    | .char '-' :: rest => rest
    | .char '+' :: rest => rest
    | _ => t
  if maxDigits < (body.filter fun p => (decimal u p).isSome).length then none
  else (figures u 0 false body).map fun value => if t.head? = some (.char '-') then -(value : Int) else value

def isExactKimiToken (token : Text) : Bool := lower u (basename (token.rdropWhile (· = slash))) = lit "kimi"

-- The parts of a path between slashes, the empty ones left out.
def pathParts (t : Text) : List Text := Words.words (· = slash) [] t

def isSuspiciousKimiMain (token : Text) : Bool :=
  let normalized := token.map fun p => if p = .char '\\' then slash else p
  let parts := (pathParts normalized).map (lower u)
  decide (2 ≤ parts.length) && decide (parts.getLast? = some (lit "main.mjs")) && decide (lit "kimi-code" ∈ parts.dropLast)

def hasKimiIndicator (probes : List Text) : Bool :=
  probes.any fun probe => isExactKimiToken u probe || isSuspiciousKimiMain u probe

def tokenProbes (token : Text) : List Text :=
  if token.head? = some (.char '-') ∧ .char '=' ∈ token then
    [token,(token.dropWhile (· ≠ .char '=')).drop 1]
  else [token]

def lexicalCommandProbes (command : Text) : Option (List Text) :=
  if tokenLimit < (split command).length then none
  else some ((split command).flatMap fun raw => tokenProbes (stripQuotes raw))

end Text

def shlex : Shell.Rules Point where
  blank p := p = blank || p = .char '\t' || p = .char '\r' || p = feed
  quotes := isQuote
  escaped p := p = .char '"'
  escape p := p = .char '\\'

def strictCommandTokens (command : Text) : Option (List Text) :=
  if command.any fun | .byte _ => true | .char _ => false then none
  else match Shell.split shlex command with
  | none => none
  | some tokens => if tokens = [] ∨ tokens.any (.char '\x00' ∈ ·) then none else some tokens

-- A malformed command line is read word by word.
def readTokens (command : Text) : List Text := (strictCommandTokens command).getD ((split command).map stripQuotes)

def nodeExecutables : List Text := [lit "node",lit "nodejs"]
def nodeAttachedPathOptions : List Text := [lit "--experimental-loader",lit "--import",lit "--loader",lit "--require"]
def nodeCodeOptions : List Text := [lit "-e",lit "-p",lit "--eval",lit "--print"]

def startsWith (start token : Text) : Bool := decide (start <+: token)

-- What one token adds to the candidates, given that it is no code option's value.
def nodeTokenValues (token : Text) : List Text :=
  if (startsWith (lit "-e") token || startsWith (lit "-p") token) && decide (2 < token.length) && !startsWith (lit "--") token then []
  else if startsWith (lit "-") token then
    if startsWith (lit "-r") token && decide (2 < token.length) then [token.drop 2]
    else if .char '=' ∉ token then []
    else if token.takeWhile (· ≠ .char '=') ∉ nodeAttachedPathOptions then []
    else if (token.dropWhile (· ≠ .char '=')).drop 1 = [] then [] else [(token.dropWhile (· ≠ .char '=')).drop 1]
  else [token]

def nodeValues : Bool → Bool → List Text → List Text
  | _,_,[] => []
  | true,ended,_ :: rest => nodeValues false ended rest
  | false,true,token :: rest => token :: nodeValues false true rest
  | false,false,token :: rest =>
    if token = lit "--" then nodeValues false true rest
    else if token ∈ nodeCodeOptions then nodeValues true false rest
    else nodeTokenValues token ++ nodeValues false false rest

def nodeCandidateTokens (tokens : List Text) : List Text := nodeValues false false tokens.tail

def isabs (t : Text) : Bool := decide (t.head? = some slash)

inductive Classification where
  | ordinary
  | definite
  | needsCwdIdentity
deriving DecidableEq

-- How a look at absolute tokens ends.
inductive Finding where
  | clear
  | unclear
  | found
deriving DecidableEq

namespace Host

def inspectionRemaining (h : Host) (p : Progress) : Option Progress :=
  if h.late p.ticks then none else some {p with ticks := p.ticks + 1}

-- A line that is no row raises when something in it points at kimi.
def unreadRow (h : Host) (stripped : Text) : Option (Option Row) :=
  match lexicalCommandProbes stripped with
  | none => none
  | some probes => if hasKimiIndicator h.unicode probes then none else some none

def readRow (h : Host) (line : Text) : Option (Option Row) :=
  let stripped := strip line
  if stripped = [] then some none
  else match Words.split isSpace 3 stripped with
  | pidText :: pgidText :: argv0 :: rest =>
    let command := rest.head?.getD argv0
    match int h.unicode pidText,int h.unicode pgidText with
    | some pid,some pgid =>
      if pid ≤ 0 ∨ pgid ≤ 0 ∨ argv0 = [] ∨ command = [] then h.unreadRow stripped
      else some (some ⟨pid,pgid,argv0,command⟩)
    | _,_ => h.unreadRow stripped
  | _ => h.unreadRow stripped

def readRows (h : Host) : List Text → Progress → Option (List Row × Progress)
  | [],p => some ([],p)
  | line :: rest,p => do
    let p ← h.inspectionRemaining p
    let row ← h.readRow line
    let (rows,p) ← h.readRows rest p
    pure (row.toList ++ rows,p)

def strictProcessRows (h : Host) (p : Progress) : Option (List Row × Progress) := do
  let p ← h.inspectionRemaining p
  if !h.psAnswers then none
  else
    let p ← h.inspectionRemaining p
    h.readRows (splitlines h.stdout) p

-- The identity of the regular file at an absolute path, if there is one.
def candidateTokenIdentity (h : Host) (token : Text) : Option (Option Identity) :=
  if token = [] ∨ token = lit "--" then some none
  else match h.stat token with
  | .absent => some none
  | .blocked => none
  | .regular identity _ => some (some identity)
  | .other _ => some none

def relativeCandidateTokenIdentity (h : Host) (cwd : Identity) (token : Text) : Option (Option Identity) :=
  match (h.entry cwd token).link,(h.entry cwd token).target with
  | false,.other _ => some none
  | _,.absent => some none
  | _,.blocked => none
  | _,.regular identity readable => if readable then some (some identity) else none
  | true,.other readable => if readable then some none else none

-- The clock is read before a token is looked at, for the relative ones only where `each` says so.
def scanTokens (h : Host) (executable : Identity) (each : Bool) : List Text → Progress → Option (Finding × Progress)
  | [],p => some (.clear,p)
  | token :: rest,p =>
    if !isabs token then
      (if each then h.inspectionRemaining p else some p).bind fun p => h.scanTokens executable each rest p
    else do
      let p ← h.inspectionRemaining p
      match h.candidateTokenIdentity token with
      | none => some (.unclear,p)
      | some identity =>
        let p ← h.inspectionRemaining p
        if identity = some executable then some (.found,p) else h.scanTokens executable each rest p

def consumeNodeTokenBudget (count : Nat) (p : Progress) : Option Progress :=
  if totalTokenLimit < p.tokens + count then none else some {p with tokens := p.tokens + count}

def classifyNodeKimiCandidate (h : Host) (command : Text) (executable : Identity) (p : Progress) :
    Option ((Classification × Option (List Text)) × Progress) := do
  let p ← consumeNodeTokenBudget (readTokens command).length p
  let candidates := nodeCandidateTokens (readTokens command)
  if tokenLimit < (readTokens command).length then
    if hasKimiIndicator h.unicode candidates then none
    else
      let (finding,p) ← h.scanTokens executable false candidates p
      if finding = .clear then some ((.ordinary,none),p) else none
  else if hasKimiIndicator h.unicode candidates then some ((.definite,none),p)
  else
    let (finding,p) ← h.scanTokens executable (strictCommandTokens command).isSome candidates p
    match finding with
    | .found => some ((.definite,none),p)
    | .unclear => some ((.needsCwdIdentity,none),p)
    | .clear =>
      let relative := candidates.filter fun token => !isabs token
      if (strictCommandTokens command).isSome && !relative.isEmpty then some ((.needsCwdIdentity,some relative),p)
      else some ((.ordinary,none),p)

-- The working directory that a lookup by pid gives, where it succeeds.
def strictCandidateCwd (h : Host) (pid : Int) : Option Identity :=
  match h.processes.find? fun p => decide ((p.pid : Int) = pid) with
  | some process => if process.opens then some process.cwd else none
  | none => none

def inspectRelative (h : Host) (executable cwd : Identity) : List Text → Progress → Option Progress
  | [],p => some p
  | token :: rest,p => do
    let p ← h.inspectionRemaining p
    let identity ← h.relativeCandidateTokenIdentity cwd token
    let p ← h.inspectionRemaining p
    if identity = some executable then none else h.inspectRelative executable cwd rest p

def isKimi (h : Host) (row : Row) : Bool :=
  decide (lower h.unicode (basename row.argv0) = lit "kimi") || decide (lower h.unicode (executableBasename row.command) = lit "kimi")

def isNode (h : Host) (row : Row) : Bool :=
  decide (lower h.unicode (basename row.argv0) ∈ nodeExecutables) ||
    decide (lower h.unicode (executableBasename row.command) ∈ nodeExecutables)

-- A candidate's working directory decides; where it cannot be had, a node whose
-- tokens are all relative is skipped.
def inspectCandidate (h : Host) (project executable : Identity) (pid : Int) (classification : Classification)
    (relative : Option (List Text)) (p : Progress) : Option Progress :=
  let p := {p with candidates := p.candidates + 1}
  if candidateLimit < p.candidates then none
  else match h.strictCandidateCwd pid with
  | none => if classification = .needsCwdIdentity ∧ relative.isSome then some p else none
  | some cwd =>
    if cwd ≠ project then some p
    else if classification = .definite then none
    else match relative with
    | none => none
    | some tokens => h.inspectRelative executable cwd tokens p

def inspectRow (h : Host) (project executable : Identity) (excluded : Option Int) (row : Row) (p : Progress) :
    Option Progress := do
  let p ← h.inspectionRemaining p
  if !h.isKimi row && !h.isNode row then some p
  else if excluded = some row.pgid then some p
  else if h.isKimi row then h.inspectCandidate project executable row.pid .definite none p
  else
    let ((classification,relative),p) ← h.classifyNodeKimiCandidate row.command executable p
    if classification = .ordinary then some p
    else h.inspectCandidate project executable row.pid classification relative p

def inspectRows (h : Host) (project executable : Identity) (excluded : Option Int) : List Row → Progress → Option Progress
  | [],p => some p
  | row :: rest,p => (h.inspectRow project executable excluded row p).bind (h.inspectRows project executable excluded rest)

end Host

def strictIdentity (value : Bound) : Option Identity :=
  if value.dev < 0 ∨ value.ino ≤ 0 then none else some (value.dev,value.ino)

def strictCanonicalPath (value : Bound) : Option Text :=
  if value.canonicalPath = [] ∨ .char '\x00' ∈ value.canonicalPath then none else some value.canonicalPath

namespace Host

def strictExecutableBinding (h : Host) (path : Text) (identity : Identity) : Option Metadata :=
  if !isabs path then none
  else match h.lstat path with
  | none => none
  | some metadata =>
    if !metadata.regular ∨ metadata.identity ≠ identity ∨ metadata.uid ≠ h.uid ∨ !metadata.mode.testBit 6 ∨
        metadata.mode.testBit 4 ∨ metadata.mode.testBit 1 ∨ metadata.nlink ≠ 1 then none
    else some metadata

def inspect (h : Host) (project executable : Bound) (excluded : Option Int) : Option Unit := do
  let projectIdentity ← strictIdentity project
  let _ ← strictCanonicalPath project
  let executableIdentity ← strictIdentity executable
  let _ ← strictCanonicalPath executable
  if excluded.any (· ≤ 0) then none
  else
    let (rows,p) ← h.strictProcessRows {}
    let p ← h.inspectionRemaining p
    let _ ← h.inspectRows projectIdentity executableIdentity excluded rows p
    pure ()

-- Nothing comes back where the inspection raises. The files stay as they are
-- while it runs, so the binding taken after it is the one taken before.
def assertNoLiveKimiInProject (h : Host) (project executable : Bound) (excluded : Option Int) : Option Unit := do
  let executableIdentity ← strictIdentity executable
  let executablePath ← strictCanonicalPath executable
  let binding ← h.strictExecutableBinding executablePath executableIdentity
  h.inspect project executable excluded
  let ending ← h.strictExecutableBinding executablePath executableIdentity
  if ending ≠ binding then none else pure ()

end Host
end AgentSideCar.LiveOwner
