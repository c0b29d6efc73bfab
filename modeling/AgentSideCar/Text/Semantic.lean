import AgentSideCar.Library.Dumps
import AgentSideCar.Library.Pattern
import AgentSideCar.Library.Program
import AgentSideCar.Library.Stable
import AgentSideCar.Text.Points
import Mathlib.Data.List.Lex
import Mathlib.Data.Sum.Order

namespace AgentSideCar.Semantic
open Points Pattern Stable
open Dumps (Object Writer)

def semanticInputLimit : Int := 8000
def semanticMaxGroups : Int := 100
def semanticRules : List Text := [lit "largest",lit "recent",lit "agent",lit "model",lit "workspace",lit "max-groups"]
def defaultSemanticRules : List Text := [lit "largest",lit "recent"]

def digit (c : Nat) : Bool := 48 ≤ c && c ≤ 57
def upper (c : Nat) : Bool := 65 ≤ c && c ≤ 90
def lowercase (c : Nat) : Bool := 97 ≤ c && c ≤ 122

def wordChar (c : Nat) : Bool := upper c || lowercase c || digit c || c = 95 || c = 45

-- Where case is ignored the letters are these too: dotted and dotless i, long s and the Kelvin sign.
def letter (c : Nat) : Bool := upper c || lowercase c || c = 0x130 || c = 0x131 || c = 0x17F || c = 0x212A

def localChar (c : Nat) : Bool := letter c || digit c || c ∈ lit "._%+-"
def domainChar (c : Nat) : Bool := letter c || digit c || c ∈ lit ".-"
def pathChar (c : Nat) : Bool := !isSpace c && c ≠ 44 && c ≠ 41

def literal (t : Text) : List (Atom Nat) := t.map fun c => one (· = c)

def skLead : List (Atom Nat) := literal (lit "sk-")
def ghLead : List (Atom Nat) := literal (lit "gh") ++ [one (· ∈ lit "pousr")] ++ literal (lit "_")
def driveLead : List (Atom Nat) := [one fun c => upper c || lowercase c] ++ literal (lit ":\\")

def secretRe : Alternatives Nat := [skLead ++ [many wordChar 8],ghLead ++ [many wordChar 8]]

def emailRe : Alternatives Nat := [[many localChar 1] ++ literal (lit "@") ++ [many domainChar 1] ++ literal (lit ".") ++ [many letter 2]]

def pathRe : Alternatives Nat :=
  [literal (lit "/Users/"),literal (lit "/home/"),literal (lit "/tmp/"),driveLead].map (· ++ [many pathChar 1])

inductive SemanticError where
  | valueError (message : Text)
  | typeError
  | overflowError
  -- a number or a nesting that str or json.dumps refuses
  | unwritable
  deriving DecidableEq

-- The interpreter's part: letter case, str of what is no text, and its floats, none of them NaN.
structure Interpreter (F : Type) where
  lower : Text → Text
  casefold : Text → Text
  spoken : Object F → Option Text
  zero : F
  ofInt : Int → Option F
  negative : F → F
  writer : Writer F

section Payload
variable {F : Type} [LinearOrder F] (i : Interpreter F)

def truthy : Object F → Bool
  | .null => false
  | .bool value => value
  | .int n => n ≠ 0
  | .float x => x ≠ i.zero
  | .text t => !t.isEmpty
  | .list items => !items.isEmpty
  | .dict fields => !fields.isEmpty

def said (value : Object F) : Except SemanticError Text :=
  if truthy i value then
    match value with
    | .text t => .ok t
    | value => (i.spoken value).elim (.error .unwritable) .ok
  else .ok []

-- A negative bound counts from the end.
def cut (limit : Int) (t : Text) : Text := if 0 ≤ limit then t.take limit.toNat else t.take (t.length - limit.natAbs)

def redacted (t : Text) : Text :=
  let text := join (split t)
  let text := sub secretRe (lit "[secret]") text
  let text := sub emailRe (lit "[email]") text
  sub pathRe (lit "[path]") text

def redactSemanticText (value : Object F) (limit : Int) : Except SemanticError Text := do
  let text ← said i value
  return cut limit (redacted text)

abbrev Group (F : Type) := List (Text × Object F)

def get (group : Group F) (key : String) (default : Object F) : Object F :=
  ((group.find? fun field => field.1 = lit key).map Prod.snd).getD default

def groupNumber (group : Group F) (key : String) : Except SemanticError F :=
  match get group key .null with
  | .int n => (i.ofInt n).elim (.error .overflowError) .ok
  | .float x => .ok x
  | _ => .ok i.zero

def groupText (value : Object F) (limit : Nat) : Text :=
  match value with
  | .text t => (Words.strip isSpace t).take limit
  | _ => []

abbrev SortKey (F : Type) := F ⊕ₗ Text

def rank (group : Group F) (key : String) : Except SemanticError (SortKey F) :=
  (groupNumber i group key).map fun x => toLex (.inl (i.negative x))

def label (group : Group F) (key : String) : Except SemanticError (SortKey F) :=
  .ok (toLex (.inr (i.casefold (groupText (get group key .null) 256))))

def ruleKey (rule : Text) (group : Group F) : Option (Except SemanticError (SortKey F)) :=
  if rule = lit "largest" then some (rank i group "count")
  else if rule = lit "recent" then some (rank i group "time_bucket")
  else if rule = lit "agent" then some (label i group "agent")
  else if rule = lit "model" then some (label i group "model")
  else if rule = lit "workspace" then some (label i group "project")
  else none

def sortKey (priorities : List Text) (group : Group F) : Except SemanticError (List (SortKey F)) := do
  let ranks ← (priorities.filterMap (ruleKey i · group)).mapM id
  return ranks ++ [toLex (.inr (groupText (get group "cluster_id" .null) 64))]

def mappings (groups : List (Object F)) : List (Group F) := groups.filterMap fun group =>
  match group with
  | .dict fields => some fields
  | _ => none

def normalizedRules (rules : List Text) : List Text := ((rules.map (Words.strip isSpace)).filter (· ≠ [])).map i.lower

def unknownRules (normalized : List Text) : List Text := normalized.dedup.filter (· ∉ semanticRules)

def selectSemanticGroups (groups : List (Object F)) (rules : List Text) (maxGroups : Int) : Except SemanticError (List (Group F)) := do
  if maxGroups ≤ 0 ∨ 10000 < maxGroups then throw (.valueError (lit "semantic max-groups is out of bounds"))
  let normalized := normalizedRules i rules
  let unknown := unknownRules normalized
  if unknown ≠ [] then throw (.valueError (lit "unknown semantic rule: " ++ Words.join 44 (sortBy id unknown)))
  if ¬ normalized.Nodup then throw (.valueError (lit "semantic rules must not repeat"))
  let cap := if lit "max-groups" ∈ normalized then min maxGroups semanticMaxGroups else maxGroups
  let priorities := if normalized = [] then defaultSemanticRules else normalized
  let keyed ← (mappings groups).mapM fun group => do return (← sortKey i priorities group,group)
  return ((sortBy Prod.fst keyed).map Prod.snd).take cap.toNat

def iterated : Object F → Except SemanticError (List (Object F))
  | .list items => .ok items
  | .dict fields => .ok (fields.map (.text ·.1))
  | .text t => .ok (t.map fun c => .text [c])
  | _ => .error .typeError

def texts (values : List (Object F)) : List (Object F) := values.filter fun value =>
  match value with
  | .text _ => true
  | _ => false

def field (group : Group F) (key : String) (limit : Int) : Except SemanticError (Text × Object F) := do
  return (lit key,.text (← redactSemanticText i (get group key .null) limit))

def clusterRow (group : Group F) : Except SemanticError (Object F) := do
  let project ← field i group "project" 160
  let agent ← field i group "agent" 80
  let model ← field i group "model" 120
  let provider ← field i group "model_provider" 120
  let hosts ← iterated (get group "hosts" (.list []))
  let hosts ← (texts hosts).mapM (redactSemanticText i · 80)
  return .dict [project,agent,model,provider,(lit "count",get group "count" (.int 0)),(lit "hosts",.list (hosts.map .text))]

def snippetRows (snippets : List (Object F)) : Except SemanticError (Object F) := do
  let snippets ← snippets.mapM (redactSemanticText i · 300)
  return .list (((snippets.filter (· ≠ [])).take 16).map .text)

def payload (rows : List (Object F)) : Option (List (Object F)) → Except SemanticError (Group F)
  | none | some [] => .ok [(lit "clusters",.list rows)]
  | some snippets => do return [(lit "clusters",.list rows),(lit "snippets",← snippetRows i snippets)]

def buildSemanticPayload (groups : List (Object F)) (snippets : Option (List (Object F))) (limit : Int) (rules : List Text)
    (maxGroups : Int) : Except SemanticError Text := do
  let rows ← (← selectSemanticGroups i groups rules maxGroups).mapM (clusterRow i)
  let fields ← payload i rows snippets
  match Dumps.dumps i.writer 0 (.dict fields) with
  | some json => redactSemanticText i (.text json) limit
  | none => .error .unwritable

end Payload

section Patterns

def spaces : List Nat :=
  [9,10,11,12,13,28,29,30,31,32,0x85,0xA0,0x1680,0x2000,0x2001,0x2002,0x2003,0x2004,0x2005,0x2006,0x2007,0x2008,0x2009,0x200A,0x2028,
    0x2029,0x202F,0x205F,0x3000]

theorem space_mem (space : isSpace c = true) : c ∈ spaces := by
  simp [isSpace] at space
  simp [spaces]
  omega

theorem literal_mem (inside : c ∈ t) : one (· = c) ∈ literal t := List.mem_map_of_mem (f := fun c => one (· = c)) inside

theorem secret_some : ¬ Matches secretRe [] := matches_some (by decide)
theorem email_some : ¬ Matches emailRe [] := matches_some (by decide)
theorem path_some : ¬ Matches pathRe [] := matches_some (by decide)

theorem secret_clear : Clear secretRe (91 :: spaces) := by decide
theorem email_clear : Clear emailRe (91 :: spaces) := by decide
theorem path_clear : Clear pathRe (44 :: 41 :: spaces) := by decide

theorem clear_solid (clear : Clear p marks) (all : spaces ⊆ marks) (fresh : ∀ c ∈ new, isSpace c = false) (some' : new ≠ []) :
    Solid isSpace p new := by
  refine ⟨fun s matched c inside => ?_,fresh,some'⟩
  by_contra space
  exact clear_avoids clear (all (space_mem (by simpa using space))) matched inside

theorem secret_inert (early : Text) (whole : new = early ++ [93]) (lacks : 45 ∉ new ∧ 95 ∉ new) : Inert secretRe new := by
  refine marked_inert whole ?_
  intro atoms inside
  rcases List.mem_pair.mp inside with rfl | rfl
  · exact ⟨skLead,_,45,rfl,by decide,literal_mem (by decide),lacks.1⟩
  · exact ⟨ghLead,_,95,rfl,by decide,List.mem_append_right _ (literal_mem (by decide)),lacks.2⟩

theorem email_inert (early : Text) (whole : new = early ++ [93]) (lacks : 64 ∉ new) : Inert emailRe new := by
  refine marked_inert whole ?_
  intro atoms inside
  cases List.mem_singleton.mp inside
  exact ⟨[many localChar 1] ++ literal (lit "@"),[many domainChar 1] ++ literal (lit ".") ++ [many letter 2],64,by simp,by decide,
    List.mem_append_right _ (literal_mem (by decide)),lacks⟩

theorem path_inert (early : Text) (whole : new = early ++ [93]) (lacks : 47 ∉ new ∧ 58 ∉ new) : Inert pathRe new := by
  refine marked_inert whole ?_
  intro atoms inside
  obtain ⟨lead,among,rfl⟩ := List.mem_map.mp inside
  simp only [List.mem_cons,List.not_mem_nil,or_false] at among
  rcases among with rfl | rfl | rfl | rfl
  · exact ⟨_,_,47,rfl,by decide,literal_mem (by decide),lacks.1⟩
  · exact ⟨_,_,47,rfl,by decide,literal_mem (by decide),lacks.1⟩
  · exact ⟨_,_,47,rfl,by decide,literal_mem (by decide),lacks.1⟩
  · exact ⟨_,_,58,rfl,by decide,List.mem_append_right _ (literal_mem (by decide)),lacks.2⟩

theorem pathChar_path (matched : Matches pathRe (c :: more)) : pathChar c = true := by
  have avoids : ∀ mark ∈ 44 :: 41 :: spaces, c ≠ mark := fun mark among same =>
    clear_avoids path_clear among matched (same ▸ List.mem_cons_self)
  have solid : isSpace c = false := by
    by_contra space
    exact avoids c (List.mem_cons_of_mem _ (List.mem_cons_of_mem _ (space_mem (by simpa using space)))) rfl
  simp [pathChar,solid,avoids 44 (by decide),avoids 41 (by decide)]

theorem path_resumes : Resumes pathRe 91 := by
  rintro a b c ⟨atoms,inside,word⟩ kind
  have taken : pathChar c = true := by
    rcases kind with rfl | ⟨more,matched⟩
    · rfl
    · exact pathChar_path matched
  obtain ⟨lead,among,rfl⟩ := List.mem_map.mp inside
  have avoids : ∀ lead ∈ [literal (lit "/Users/"),literal (lit "/home/"),literal (lit "/tmp/"),driveLead], ∀ atom ∈ lead,
      atom.fits 91 = false := by decide
  exact ⟨_,inside,word_resumes pathChar (avoids lead among) word taken⟩

end Patterns

section Cleaning

-- No secret, no address and no path.
structure Clean (t : Text) : Prop where
  secret : Free secretRe t
  email : Free emailRe t
  path : Free pathRe t

theorem redacted_replaced (t : Text) : ∃ bare named, Replaced secretRe (lit "[secret]") (join (split t)) bare ∧
    Replaced emailRe (lit "[email]") bare named ∧ Replaced pathRe (lit "[path]") named (redacted t) :=
  ⟨_,_,sub_replaced secret_some _ _,sub_replaced email_some _ _,sub_replaced path_some _ _⟩

theorem redacted_clean (t : Text) : Clean (redacted t) := by
  obtain ⟨bare,named,first,second,third⟩ := redacted_replaced t
  have secretless : Free secretRe bare := replaced_free first secret_some rfl (secret_inert (lit "[secret") rfl (by decide))
    (resumes_avoided fun _ => clear_avoids secret_clear List.mem_cons_self)
  have nameless : Free emailRe named := replaced_free second email_some rfl (email_inert (lit "[email") rfl (by decide))
    (resumes_avoided fun _ => clear_avoids email_clear List.mem_cons_self)
  have kept : Free secretRe named := replaced_keeps second rfl (secret_inert (lit "[email") rfl (by decide))
    (fun _ => clear_avoids secret_clear List.mem_cons_self) secretless
  exact ⟨replaced_keeps third rfl (secret_inert (lit "[path") rfl (by decide))
      (fun _ => clear_avoids secret_clear List.mem_cons_self) kept,
    replaced_keeps third rfl (email_inert (lit "[path") rfl (by decide))
      (fun _ => clear_avoids email_clear List.mem_cons_self) nameless,
    replaced_free third path_some rfl (path_inert (lit "[path") rfl (by decide)) path_resumes⟩

-- Words with single blanks between them.
structure Settled (t : Text) : Prop where
  tidy : Tidy t
  single : ∀ c ∈ t, isSpace c = true → c = blank

theorem joined_settled (t : Text) : Settled (join (split t)) :=
  have solid := fun w inside => (split_solid t w inside).2
  ⟨(join_tidy _ solid).mpr (.inr fun w inside => (split_solid t w inside).1),join_single _ solid⟩

theorem replaced_settled (solid : Solid isSpace p new) (replaced : Replaced p new text out) (settled : Settled text) : Settled out := by
  refine ⟨⟨fun c first => ?_,fun c last => ?_,replaced_apart solid replaced settled.tidy.apart⟩,fun c inside space => ?_⟩
  · by_contra space
    have there := settled.tidy.first c (replaced_head solid replaced first (by simpa using space))
    exact space there
  · by_contra space
    have there := settled.tidy.last c (replaced_last solid replaced last (by simpa using space))
    exact space there
  · rcases replaced_mem replaced inside with before | fresh
    · exact settled.single c before space
    · exact absurd space (by simp [solid.fresh c fresh])

theorem redacted_settled (t : Text) : Settled (redacted t) := by
  obtain ⟨bare,named,first,second,third⟩ := redacted_replaced t
  have one := replaced_settled (clear_solid secret_clear (List.subset_cons_self _ _) (by decide) (by decide)) first (joined_settled t)
  have two := replaced_settled (clear_solid email_clear (List.subset_cons_self _ _) (by decide) (by decide)) second one
  refine replaced_settled (clear_solid path_clear ?_ (by decide) (by decide)) third two
  exact List.Subset.trans (List.subset_cons_self _ _) (List.subset_cons_self _ _)

-- A text without the blank at its end.
def trimmed (t : Text) : Text := if t.getLast?.any isSpace then t.dropLast else t

theorem trimmed_begins (t : Text) : trimmed t <+: t := by
  unfold trimmed
  split
  · exact List.dropLast_prefix t
  · exact List.prefix_refl t

theorem settled_begins (settled : Settled t) (begins : s <+: t) (last : ∀ c, s.getLast? = some c → isSpace c = false) : Settled s := by
  refine ⟨⟨fun c first => ?_,last, List.IsChain.prefix settled.tidy.apart begins⟩,fun c inside => settled.single c (begins.subset inside)⟩
  obtain ⟨rest,rfl⟩ := begins
  exact settled.tidy.first c (by rw [List.head?_append,first]; rfl)

theorem join_cut (settled : Settled t) (begins : s <+: t) : join (split s) = trimmed s := by
  unfold trimmed
  split
  · rename_i blank
    obtain ⟨c,last,space⟩ := (Option.any_eq_true _ _).mp blank
    obtain ⟨kept,rfl⟩ := List.getLast?_eq_some_iff.mp last
    have before : kept <+: t := (List.prefix_append kept [c]).trans begins
    have solid : ∀ d, kept.getLast? = some d → isSpace d = false := fun d ends =>
      ((List.isChain_append.mp ( List.IsChain.prefix settled.tidy.apart begins)).2.2 d ends c rfl).resolve_right (by simp [space])
    have inner := settled_begins settled before solid
    rw [List.dropLast_concat,split,Words.words_last space]
    exact tidy_settled inner.tidy inner.single
  · rename_i solid
    have inner := settled_begins settled begins fun c last => by simpa [last] using solid
    exact tidy_settled inner.tidy inner.single

theorem clean_begins (clean : Clean t) (begins : s <+: t) : Clean s :=
  ⟨free_within clean.secret begins.isInfix,free_within clean.email begins.isInfix,free_within clean.path begins.isInfix⟩

theorem redacted_again (clean : Clean t) (settled : Settled t) (begins : s <+: t) : redacted s = trimmed s := by
  have within := clean_begins clean ((trimmed_begins s).trans begins)
  unfold redacted
  rw [join_cut settled begins]
  dsimp only
  rw [sub_free _ within.secret,sub_free _ within.email,sub_free _ within.path]

theorem cut_begins (limit : Int) (t : Text) : cut limit t <+: t := by
  unfold cut
  split
  · exact List.take_prefix _ _
  · exact List.take_prefix _ _

theorem cut_length (natural : 0 ≤ limit) (t : Text) : ((cut limit t).length : Int) ≤ limit := by
  rw [cut,if_pos natural,List.length_take]
  omega

theorem cut_short (short : (t.length : Int) ≤ limit) : cut limit t = t := by
  rw [cut,if_pos (by omega)]
  exact List.take_of_length_le (by omega)

end Cleaning

section Payloads
variable {F : Type} [LinearOrder F] (i : Interpreter F)

-- What a text that is redacted is, and what redacting it once more leaves.
structure Redacted (limit : Int) (text : Text) : Prop where
  clean : Clean text
  bounded : 0 ≤ limit → (text.length : Int) ≤ limit
  again : redactSemanticText i (.text text) limit = .ok (if 0 ≤ limit then trimmed text else cut limit (trimmed text))

theorem redact_text (t : Text) (limit : Int) : redactSemanticText i (.text t) limit = .ok (cut limit (redacted t)) := by
  cases t <;> rfl

theorem redact_redacted (made : redactSemanticText i value limit = .ok text) : Redacted i limit text := by
  obtain ⟨whole,rfl⟩ : ∃ t, text = cut limit (redacted t) := by
    obtain ⟨t,_,same⟩ := Attempt.bound_ok made
    cases same
    exact ⟨t,rfl⟩
  have begins := cut_begins limit (redacted whole)
  refine ⟨clean_begins (redacted_clean whole) begins,fun natural => cut_length natural _,?_⟩
  rw [redact_text,redacted_again (redacted_clean whole) (redacted_settled whole) begins]
  split
  · rename_i natural
    have shorter := (trimmed_begins (cut limit (redacted whole))).length_le
    have bound := cut_length natural (redacted whole)
    rw [cut_short (by omega)]
  · rfl

theorem payload_redacted (groups : List (Object F)) (snippets : Option (List (Object F))) (limit : Int) (rules : List Text) (maxGroups : Int)
    (built : buildSemanticPayload i groups snippets limit rules maxGroups = .ok text) : Redacted i limit text := by
  unfold buildSemanticPayload at built
  obtain ⟨_,_,built⟩ := Attempt.bound_ok built
  obtain ⟨_,_,built⟩ := Attempt.bound_ok built
  obtain ⟨fields,_,built⟩ := Attempt.bound_ok built
  split at built
  · exact redact_redacted i built
  · cases built

def demoInterpreter : Interpreter Int :=
  { lower := id
    casefold := id
    spoken := fun _ => none
    zero := 0
    ofInt := some
    negative := (- ·)
    writer := ⟨100,fun n => some ((Nat.toDigits 10 n.natAbs).map Char.toNat),fun _ => none⟩ }

def demoGroup : Object Int := .dict [(lit "project",.text (lit "/tmp/a")),(lit "agent",.text (lit "me@host.io")),(lit "count",.int 3)]

def demoText : Text := lit ("\x7b\"clusters\":[\x7b\"project\":\"[path]\",\"agent\":\"[email]\",\"model\":\"\",\"model_provider\":\"\"," ++
  "\"count\":3,\"hosts\":[]\x7d],\"snippets\":[\"a b [secret]\"]\x7d")

theorem demo_payload : buildSemanticPayload demoInterpreter [demoGroup] (some [.text (lit "a  b sk-abcdefgh12")]) semanticInputLimit
    defaultSemanticRules 100 = .ok demoText ∧ Redacted demoInterpreter semanticInputLimit demoText :=
  have built : buildSemanticPayload demoInterpreter [demoGroup] (some [.text (lit "a  b sk-abcdefgh12")]) semanticInputLimit
      defaultSemanticRules 100 = .ok demoText := by decide +kernel
  ⟨built,payload_redacted demoInterpreter [demoGroup] (some [.text (lit "a  b sk-abcdefgh12")]) semanticInputLimit defaultSemanticRules 100 built⟩

end Payloads

-- A cut right after a blank is one character longer than what a second pass leaves, and no
-- text is as short as a negative bound.
theorem blank_at_the_cut : (¬ ∀ (F : Type) [LinearOrder F] (i : Interpreter F) (groups : List (Object F)) (snippets : Option (List (Object F)))
      (limit : Int) (rules : List Text) (maxGroups : Int) (text : Text),
      buildSemanticPayload i groups snippets limit rules maxGroups = .ok text →
        Clean text ∧ (text.length : Int) ≤ limit ∧ redactSemanticText i (.text text) limit = .ok text) ∧
    ¬ ∀ (F : Type) [LinearOrder F] (i : Interpreter F) (groups : List (Object F)) (snippets : Option (List (Object F)))
      (limit : Int) (rules : List Text) (maxGroups : Int) (text : Text),
      buildSemanticPayload i groups snippets limit rules maxGroups = .ok text → (text.length : Int) ≤ limit := by
  constructor
  · intro always
    have built : buildSemanticPayload demoInterpreter [] (some [.text (lit "a b")]) 30 defaultSemanticRules 100 =
        .ok (lit "\x7b\"clusters\":[],\"snippets\":[\"a ") := by decide +kernel
    have again : redactSemanticText demoInterpreter (.text (lit "\x7b\"clusters\":[],\"snippets\":[\"a ")) 30 =
        .ok (lit "\x7b\"clusters\":[],\"snippets\":[\"a") := by decide +kernel
    have same := (always Int demoInterpreter _ _ _ _ _ _ built).2.2
    rw [again] at same
    exact absurd same (by decide)
  · intro always
    have built : buildSemanticPayload demoInterpreter [] none (-1) defaultSemanticRules 100 = .ok (lit "\x7b\"clusters\":[]") := by
      decide +kernel
    exact absurd (always Int demoInterpreter _ _ _ _ _ _ built) (by decide)

end AgentSideCar.Semantic
