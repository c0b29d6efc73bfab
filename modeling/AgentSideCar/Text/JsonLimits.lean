import AgentSideCar.Library.Digits
import AgentSideCar.Library.Page
import AgentSideCar.Library.Utf8
import AgentSideCar.Text.Points
import Mathlib.Data.Nat.Size

namespace AgentSideCar.JsonValidation
open Points (Text)

inductive JsonError where
  | syntaxError (reason message : String)
  | limitError (reason message : String)
  deriving DecidableEq

structure JsonLimits where
  maxDepth : Option Nat := none
  maxItems : Option Nat := none
  maxNodes : Option Nat := none
  maxStringBytes : Option Nat := none
  maxIntegerBits : Option Nat := none

-- A container has an identity; a key is none where it is not text. Of a float only
-- whether it is finite is looked at.
inductive Value where
  | null
  | bool (value : Bool)
  | int (value : Int)
  | float (finite : Bool)
  | str (value : Text)
  | list (id : Nat) (items : List Value)
  | mapping (id : Nat) (pairs : List (Option Text × Value))
  | other

def keyNode (key : Option Text) : Value := (key.map Value.str).getD .other

def children : Value → List Value
  | .list _ items => items
  | .mapping _ pairs => pairs.flatMap fun pair => [keyNode pair.1,pair.2]
  | _ => []

theorem keyNode_size (key : Option Text) : sizeOf (keyNode key) ≤ sizeOf key + 1 := by
  cases key <;> simp [keyNode]

theorem child_below (node : Value) : ∀ child ∈ children node, sizeOf child < sizeOf node := by
  intro child inside
  cases node with
  | list id items =>
    have smaller := List.sizeOf_lt_of_mem inside
    simp only [Value.list.sizeOf_spec]
    have : sizeOf child < sizeOf items := smaller
    omega
  | mapping id pairs =>
    obtain ⟨⟨key,value⟩,among,own⟩ := List.mem_flatMap.mp inside
    have smaller := List.sizeOf_lt_of_mem among
    have bound := keyNode_size key
    simp only [Prod.mk.sizeOf_spec] at smaller
    simp only [Value.mapping.sizeOf_spec]
    rcases List.mem_cons.mp own with first | second
    · rw [first]
      dsimp only
      omega
    · rw [List.mem_singleton.mp second]
      dsimp only
      omega
  | _ => cases inside

noncomputable def branches : Branches Value := ⟨children,sizeOf,child_below⟩

def exceeds (limit : Option Nat) (n : Nat) : Bool := limit.any (· < n)

def bitLength (n : Int) : Nat := n.natAbs.size

-- What a container adds to the two counts.
def members : Value → Nat
  | .list _ items => items.length
  | .mapping _ pairs => pairs.length
  | _ => 0

def pushes : Value → Nat
  | .list _ items => items.length
  | .mapping _ pairs => pairs.length * 2
  | _ => 0

structure Frame where
  current : Value
  depth : Nat
  leaving : Bool

structure Traversal where
  nodes : Nat
  items : Nat
  active : List Nat
  stack : List Frame

def checkStructureCounts (items nodes : Nat) (limits : JsonLimits) : Except JsonError Unit :=
  if exceeds limits.maxItems items then .error (.limitError "items" "JSON structure exceeds item limit")
  else if exceeds limits.maxNodes nodes then .error (.limitError "nodes" "JSON structure exceeds node limit")
  else .ok ()

def enterContainer (id : Nat) (active : List Nat) : Except JsonError (List Nat) :=
  if id ∈ active then .error (.syntaxError "cycle" "cyclic JSON value") else .ok (id :: active)

-- A container is entered: its children go on the stack before the frame that leaves it.
def enter (limits : JsonLimits) (current : Value) (id depth : Nat) (s : Traversal) : Except JsonError Traversal := do
  let items := s.items + members current
  let nodes := s.nodes + pushes current
  checkStructureCounts items nodes limits
  let active ← enterContainer id s.active
  return ⟨nodes,items,active,(children current).map (⟨·,depth + 1,false⟩) ++ ⟨current,depth,true⟩ :: s.stack⟩

def visit (limits : JsonLimits) (current : Value) (depth : Nat) (s : Traversal) : Except JsonError Traversal :=
  if exceeds limits.maxDepth depth then .error (.limitError "depth" "JSON structure exceeds depth limit")
  else match current with
    | .null => .ok s
    | .bool _ => .ok s
    | .int n =>
      if exceeds limits.maxIntegerBits (bitLength n) then .error (.limitError "integer" "JSON integer exceeds limits") else .ok s
    | .float finite => if finite then .ok s else .error (.syntaxError "nonfinite" "non-finite JSON number")
    | .str text =>
      match Utf8.encode text with
      | none => .error (.syntaxError "unicode" "JSON string contains invalid Unicode")
      | some encoded =>
        if exceeds limits.maxStringBytes encoded.length then .error (.limitError "string" "JSON string exceeds byte limit") else .ok s
    | .list id items => enter limits (.list id items) id depth s
    | .mapping id pairs =>
      match enter limits (.mapping id pairs) id depth s with
      | .error e => .error e
      | .ok entered =>
        if pairs.any (·.1.isNone) then .error (.syntaxError "key" "JSON object key is not text") else .ok entered
    | .other => .error (.syntaxError "type" "unsupported JSON value")

def identity : Value → Option Nat
  | .list id _ => some id
  | .mapping id _ => some id
  | _ => none

-- What is asked of a node by itself, beside the containers it is in and its depth.
def Fine (limits : JsonLimits) (place : List Nat × Nat) (node : Value) : Prop :=
  exceeds limits.maxDepth place.2 = false ∧
  match node with
  | .null | .bool _ => True
  | .int n => exceeds limits.maxIntegerBits (bitLength n) = false
  | .float finite => finite = true
  | .str text => ∃ encoded, Utf8.encode text = some encoded ∧ exceeds limits.maxStringBytes encoded.length = false
  | .list id _ => id ∉ place.1
  | .mapping id pairs => id ∉ place.1 ∧ ∀ pair ∈ pairs, pair.1.isSome = true
  | .other => False

def down (place : List Nat × Nat) (node : Value) : List Nat × Nat := ((identity node).toList ++ place.1,place.2 + 1)

-- The recursive definition: every node is fine where it stands, keys too, and the
-- members of all containers, and with the keys and the root the nodes, are within their limits.
structure Valid (limits : JsonLimits) (value : Value) : Prop where
  fine : branches.Every down (Fine limits) ([],0) value
  items : exceeds limits.maxItems (branches.total members value) = false
  nodes : exceeds limits.maxNodes (1 + branches.total pushes value) = false

def leaves (node : Value) (depth : Nat) : List Frame := if (identity node).isSome then [⟨node,depth,true⟩] else []

def entered (node : Value) (depth : Nat) (s : Traversal) : Traversal :=
  ⟨s.nodes + pushes node,s.items + members node,(identity node).toList ++ s.active,
    (children node).map (⟨·,depth + 1,false⟩) ++ (leaves node depth ++ s.stack)⟩

theorem enter_exact (limits : JsonLimits) (node : Value) (id depth : Nat) (s after : Traversal) :
    enter limits node id depth s = .ok after ↔ id ∉ s.active ∧ exceeds limits.maxItems (s.items + members node) = false ∧
      exceeds limits.maxNodes (s.nodes + pushes node) = false ∧ after = ⟨s.nodes + pushes node,s.items + members node,id :: s.active,
        (children node).map (⟨·,depth + 1,false⟩) ++ ⟨node,depth,true⟩ :: s.stack⟩ := by
  unfold enter checkStructureCounts enterContainer
  cases many : exceeds limits.maxItems (s.items + members node) with
  | true => simp [many,bind,Except.bind]
  | false =>
    cases much : exceeds limits.maxNodes (s.nodes + pushes node) with
    | true => simp [many,much,bind,Except.bind]
    | false =>
      by_cases cyclic : id ∈ s.active
      · simp [many,much,cyclic,bind,Except.bind]
      · simp [many,much,cyclic,bind,Except.bind,pure,Except.pure,eq_comm]

theorem fits_less (fits : exceeds limit (m + n) = false) : exceeds limit m = false := by
  cases limit with
  | none => rfl
  | some most =>
    simp only [exceeds,Option.any_some,decide_eq_false_iff_not] at fits ⊢
    omega

theorem scalar_light {node : Value} (leaf : identity node = none) (depth : Nat) (s : Traversal) :
    members node = 0 ∧ pushes node = 0 ∧ entered node depth s = s := by
  cases node with
  | list id values => cases leaf
  | mapping id pairs => cases leaf
  | _ => exact ⟨rfl,rfl,rfl⟩

theorem visit_exact {limits : JsonLimits} {s : Traversal} (items : exceeds limits.maxItems s.items = false)
    (nodes : exceeds limits.maxNodes s.nodes = false) (node : Value) (depth : Nat) (after : Traversal) :
    visit limits node depth s = .ok after ↔ Fine limits (s.active,depth) node ∧
      exceeds limits.maxItems (s.items + members node) = false ∧ exceeds limits.maxNodes (s.nodes + pushes node) = false ∧
      after = entered node depth s := by
  have passed (leaf : identity node = none) : (.ok s : Except JsonError Traversal) = .ok after ↔
      exceeds limits.maxItems (s.items + members node) = false ∧ exceeds limits.maxNodes (s.nodes + pushes node) = false ∧
        after = entered node depth s := by
    obtain ⟨few,light,same⟩ := scalar_light leaf depth s
    rw [few,light,same,Except.ok.injEq]
    exact ⟨fun eq => ⟨items,nodes,eq.symm⟩,fun all => all.2.2.symm⟩
  unfold visit Fine
  cases deep : exceeds limits.maxDepth depth with
  | true => simp
  | false =>
    simp only [Bool.false_eq_true,if_false,true_and]
    cases node with
    | null => simpa only [true_and] using passed rfl
    | bool value => simpa only [true_and] using passed rfl
    | int n =>
      cases wide : exceeds limits.maxIntegerBits (bitLength n) with
      | true => simp [wide]
      | false => simpa only [wide,Bool.false_eq_true,if_false,true_and] using passed rfl
    | float finite =>
      cases finite with
      | false => simp
      | true => simpa only [if_true,true_and] using passed rfl
    | str text =>
      cases raw : Utf8.encode text with
      | none => simp [raw]
      | some encoded =>
        cases long : exceeds limits.maxStringBytes encoded.length with
        | true => simp [raw,long]
        | false => simpa only [raw,Option.some.injEq,exists_eq_left',long,Bool.false_eq_true,if_false,true_and] using passed rfl
    | list id values =>
      rw [enter_exact]
      simp [entered,leaves,identity]
    | mapping id pairs =>
      have whole : ∀ inner, enter limits (.mapping id pairs) id depth s = .ok inner ↔ id ∉ s.active ∧
          exceeds limits.maxItems (s.items + members (.mapping id pairs)) = false ∧
          exceeds limits.maxNodes (s.nodes + pushes (.mapping id pairs)) = false ∧ inner = entered (.mapping id pairs) depth s := by
        intro inner
        rw [enter_exact]
        simp [entered,leaves,identity]
      have keyed : pairs.any (·.1.isNone) = false ↔ ∀ pair ∈ pairs, pair.1.isSome = true := by
        simp only [List.any_eq_false,Bool.not_eq_true,Option.isNone_eq_false_iff]
      dsimp only
      cases inside : enter limits (.mapping id pairs) id depth s with
      | error e =>
        have refused := fun inner => (not_congr (whole inner)).mp (by simp [inside])
        simp only [reduceCtorEq,false_iff]
        exact fun all => refused after ⟨all.1.1,all.2⟩
      | ok inner =>
        obtain ⟨fresh,few,light,own⟩ := (whole inner).mp inside
        dsimp only
        cases bare : pairs.any (·.1.isNone) with
        | true =>
          simp only [if_true,reduceCtorEq,false_iff]
          exact fun all => absurd (keyed.mpr all.1.2) (by simp [bare])
        | false =>
          simp only [Bool.false_eq_true,if_false,Except.ok.injEq,own]
          exact ⟨fun eq => ⟨⟨fresh,keyed.mp bare⟩,few,light,eq.symm⟩,fun all => all.2.2.2.symm⟩
    | other => simp

-- A node costs twice, entered and left; a frame that leaves costs once.
noncomputable def work (frame : Frame) : Nat := if frame.leaving then 1 else 2 * branches.total (fun _ => 1) frame.current

noncomputable def remaining (stack : List Frame) : Nat := (stack.map work).sum

theorem visit_stack {limits : JsonLimits} (visited : visit limits node depth s = .ok after) :
    after.stack = (children node).map (⟨·,depth + 1,false⟩) ++ (leaves node depth ++ s.stack) := by
  unfold visit at visited
  split at visited
  · cases visited
  · cases node with
    | list id values =>
      obtain ⟨_,_,_,own⟩ := (enter_exact ..).mp visited
      simp [own,leaves,identity]
    | mapping id pairs =>
      dsimp only at visited
      split at visited
      · cases visited
      · rename_i inner inside
        obtain ⟨_,_,_,own⟩ := (enter_exact ..).mp inside
        split at visited
        · cases visited
        · cases visited
          simp [own,leaves,identity]
    | _ => revert visited; simp only; (repeat' split) <;> simp_all [children,leaves,identity]

theorem visit_lighter {limits : JsonLimits} (visited : visit limits node depth s = .ok after) :
    remaining after.stack < remaining (⟨node,depth,false⟩ :: s.stack) := by
  have under : ((children node).map (work ∘ (⟨·,depth + 1,false⟩))).sum = 2 * ((children node).map (branches.total fun _ => 1)).sum := by
    induction children node with
    | nil => rfl
    | cons child rest ih => simp only [List.map_cons,List.sum_cons,ih,Function.comp,work,Bool.false_eq_true,if_false]; omega
  have whole : branches.total (fun _ => 1) node = 1 + ((children node).map (branches.total fun _ => 1)).sum := branches.total_split ..
  have once : ((leaves node depth).map work).sum ≤ 1 := by
    unfold leaves
    split <;> simp [work]
  have cost : work ⟨node,depth,false⟩ = 2 * branches.total (fun _ => 1) node := rfl
  simp only [visit_stack visited,remaining,List.map_append,List.sum_append,List.map_map,List.map_cons,List.sum_cons,under]
  omega

def leave (current : Value) (active : List Nat) : List Nat := (identity current).elim active active.erase

def traverse (limits : JsonLimits) : Traversal → Except JsonError Unit
  | ⟨_,_,_,[]⟩ => .ok ()
  | ⟨nodes,items,active,⟨current,_,true⟩ :: rest⟩ => traverse limits ⟨nodes,items,leave current active,rest⟩
  | ⟨nodes,items,active,⟨current,depth,false⟩ :: rest⟩ =>
    match _ : visit limits current depth ⟨nodes,items,active,rest⟩ with
    | .error e => .error e
    | .ok after => traverse limits after
termination_by s => remaining s.stack
decreasing_by
  · simp [remaining,work]
  · exact visit_lighter ‹_›

theorem traverse_left (limits : JsonLimits) (nodes items : Nat) (active : List Nat) (node : Value) (depth : Nat) (rest : List Frame) :
    traverse limits ⟨nodes,items,(identity node).toList ++ active,leaves node depth ++ rest⟩ = traverse limits ⟨nodes,items,active,rest⟩ := by
  unfold leaves
  cases own : identity node with
  | none => rfl
  | some id =>
    simp only [Option.isSome_some,if_true,List.cons_append,List.nil_append,Option.toList_some]
    rw [traverse]
    simp [leave,own]

-- The loop over these trees accepts where the recursive definition does, and goes on with
-- the counts added and the containers as before.
def Walks (limits : JsonLimits) (trees : List Value) : Prop := ∀ nodes items active depth rest,
  exceeds limits.maxItems items = false → exceeds limits.maxNodes nodes = false →
  (traverse limits ⟨nodes,items,active,trees.map (⟨·,depth,false⟩) ++ rest⟩ = .ok () ↔
    (∀ tree ∈ trees, branches.Every down (Fine limits) (active,depth) tree) ∧
    exceeds limits.maxItems (items + (trees.map (branches.total members)).sum) = false ∧
    exceeds limits.maxNodes (nodes + (trees.map (branches.total pushes)).sum) = false ∧
    traverse limits ⟨nodes + (trees.map (branches.total pushes)).sum,items + (trees.map (branches.total members)).sum,active,rest⟩ = .ok ())

theorem walks_each {limits : JsonLimits} {trees : List Value} (each : ∀ tree ∈ trees, Walks limits [tree]) : Walks limits trees := by
  induction trees with
  | nil =>
    intro nodes items active depth rest few light
    simp [few,light]
  | cons tree trees ih =>
    intro nodes items active depth rest few light
    have head := each tree List.mem_cons_self nodes items active depth
      (trees.map (⟨·,depth,false⟩) ++ rest) few light
    have later := ih (fun tree inside => each tree (List.mem_cons_of_mem _ inside))
    simp only [List.map_cons,List.map_nil,List.cons_append,List.nil_append,List.forall_mem_singleton,List.sum_cons,List.sum_nil,
      Nat.add_zero] at head
    simp only [List.map_cons,List.cons_append,List.sum_cons,List.forall_mem_cons,head]
    constructor
    · intro ⟨first,few,light,after⟩
      obtain ⟨all,few,light,after⟩ := (later _ _ _ _ _ few light).mp after
      simp only [Nat.add_assoc] at few light after
      exact ⟨⟨first,all⟩,few,light,after⟩
    · intro ⟨⟨first,all⟩,few,light,after⟩
      simp only [← Nat.add_assoc] at few light after
      exact ⟨first,fits_less few,fits_less light,(later _ _ _ _ _ (fits_less few) (fits_less light)).mpr ⟨all,few,light,after⟩⟩

theorem walks_tree (limits : JsonLimits) (tree : Value) : Walks limits [tree] := by
  induction tree using branches.induct with
  | step tree ih =>
    intro nodes items active depth rest few light
    have exact := visit_exact (s := ⟨nodes,items,active,rest⟩) few light tree depth
    have under : Walks limits (children tree) := walks_each ih
    have inner : branches.total members tree = _ := branches.total_split members tree
    have pushed : branches.total pushes tree = _ := branches.total_split pushes tree
    simp only [List.map_cons,List.map_nil,List.cons_append,List.nil_append,List.forall_mem_singleton,List.sum_cons,List.sum_nil,
      Nat.add_zero]
    rw [Branches.every_split,inner,pushed,traverse]
    split
    · rename_i e refused
      simp only [reduceCtorEq,false_iff]
      intro ⟨⟨fine,_⟩,few,light,_⟩
      rw [← Nat.add_assoc] at few light
      have passed := (exact _).mpr ⟨fine,fits_less few,fits_less light,rfl⟩
      rw [refused] at passed
      cases passed
    · rename_i after passed
      obtain ⟨fine,few,light,own⟩ := (exact after).mp passed
      rw [own,entered,under _ _ _ _ _ few light,traverse_left]
      simp only [Nat.add_assoc]
      constructor
      · intro ⟨all,few,light,after⟩
        exact ⟨⟨fine,all⟩,few,light,after⟩
      · intro ⟨⟨_,all⟩,few,light,after⟩
        exact ⟨all,few,light,after⟩

def validateJson (value : Value) (limits : JsonLimits) : Except JsonError Unit :=
  if exceeds limits.maxNodes 1 then .error (.limitError "nodes" "JSON structure exceeds node limit")
  else traverse limits ⟨1,0,[],[⟨value,0,false⟩]⟩

theorem validate_exact (value : Value) (limits : JsonLimits) : validateJson value limits = .ok () ↔ Valid limits value := by
  unfold validateJson
  cases root : exceeds limits.maxNodes 1 with
  | true =>
    simp only [if_true,reduceCtorEq,false_iff]
    intro valid
    exact absurd (fits_less valid.nodes) (by simp [root])
  | false =>
    have empty : exceeds limits.maxItems 0 = false := by cases limits.maxItems <;> simp [exceeds]
    have walked := walks_tree limits value 1 0 [] 0 [] empty root
    simp only [List.map_cons,List.map_nil,List.cons_append,List.nil_append,List.forall_mem_singleton,List.sum_cons,List.sum_nil,
      Nat.add_zero,Nat.zero_add] at walked
    simp only [Bool.false_eq_true,if_false,walked]
    constructor
    · intro ⟨fine,few,light,_⟩
      exact ⟨fine,few,light⟩
    · intro valid
      refine ⟨valid.fine,valid.items,valid.nodes,?_⟩
      rw [traverse]

def digitCount (text : List Char) : Nat := text.length - (if text.head? = some '-' then 1 else 0)

def intOf (text : List Char) : Int :=
  match text with
  | '-' :: digits => - (Nat.ofDigitChars 10 digits 0 : Int)
  | digits => (Nat.ofDigitChars 10 digits 0 : Int)

-- int() of a text refuses from the interpreter's own ceiling of digits on, where it has one.
def parseInteger (ceiling : Option Nat) (limits : JsonLimits) (text : List Char) : Except JsonError Int :=
  if exceeds limits.maxIntegerBits (digitCount text) then .error (.limitError "integer" "JSON integer exceeds limits")
  else if exceeds ceiling (digitCount text) then .error (.limitError "integer" "JSON integer exceeds limits")
  else if exceeds limits.maxIntegerBits (bitLength (intOf text)) then .error (.limitError "integer" "JSON integer exceeds limits")
  else .ok (intOf text)

-- An integer as JSON writes it; zero may have a sign too.
def literal (negative : Bool) (magnitude : Nat) : List Char := (if negative then ['-'] else []) ++ Digits.digits magnitude

def meaning (negative : Bool) (magnitude : Nat) : Int := if negative then -(magnitude : Int) else magnitude

theorem digits_head (n : Nat) : (Digits.digits n).head? ≠ some '-' := by
  intro dash
  have := Digits.digits_digit (List.mem_of_mem_head? dash)
  simp at this

theorem digitCount_literal (negative : Bool) (magnitude : Nat) : digitCount (literal negative magnitude) = (Digits.digits magnitude).length := by
  cases negative with
  | true => simp [digitCount,literal]
  | false => simp [digitCount,literal,digits_head]

theorem intOf_literal (negative : Bool) (magnitude : Nat) : intOf (literal negative magnitude) = meaning negative magnitude := by
  cases negative with
  | true => simp [intOf,literal,meaning,Digits.digits_value]
  | false =>
    unfold intOf literal
    split
    · rename_i rest own
      exact absurd (by rw [show Digits.digits magnitude = '-' :: rest from own]; rfl) (digits_head magnitude)
    · simp [meaning,Digits.digits_value]

theorem bitLength_meaning (negative : Bool) (magnitude : Nat) : bitLength (meaning negative magnitude) = magnitude.size := by
  cases negative <;> simp [bitLength,meaning]

theorem digits_bits (positive : 0 < n) : (Digits.digits n).length ≤ n.size := by
  have least : 2 ^ ((Digits.digits n).length - 1) ≤ n := by
    induction n using Nat.strongRecOn with
    | ind n ih =>
      by_cases small : n < 10
      · rw [Digits.digits,Nat.toDigits_of_lt_base small]
        exact positive
      · have shorter := ih (n / 10) (by omega) (by omega)
        have some := List.length_pos_of_ne_nil (Digits.digits_nonempty (n / 10))
        have long : (Digits.digits n).length - 1 = ((Digits.digits (n / 10)).length - 1) + 1 := by
          rw [Digits.digits,Nat.toDigits_of_base_le (by omega) (by omega)]
          simp only [List.length_append,List.length_singleton,Digits.digits] at some ⊢
          omega
        rw [long,Nat.pow_succ]
        omega
  have := Nat.lt_size.mpr least
  omega

-- The count of digits never goes beyond the bits, but for zero, that has a digit and no bit.
theorem precheck_sound {limits : JsonLimits} {magnitude : Nat} (apart : ¬ (magnitude = 0 ∧ limits.maxIntegerBits = some 0))
    (refused : exceeds limits.maxIntegerBits (Digits.digits magnitude).length = true) :
    exceeds limits.maxIntegerBits magnitude.size = true := by
  cases limit : limits.maxIntegerBits with
  | none => simp [exceeds,limit] at refused
  | some most =>
    simp only [exceeds,limit,Option.any_some,decide_eq_true_eq] at refused ⊢
    rcases Nat.eq_zero_or_pos magnitude with zero | positive
    · rw [zero] at refused
      have : most = 0 := Nat.lt_one_iff.mp refused
      exact absurd ⟨zero,by rw [limit,this]⟩ apart
    · have := digits_bits positive
      omega

theorem parseInteger_exact {limits : JsonLimits} {magnitude : Nat} (apart : ¬ (magnitude = 0 ∧ limits.maxIntegerBits = some 0))
    (ceiling : Option Nat) (negative : Bool) (n : Int) : parseInteger ceiling limits (literal negative magnitude) = .ok n ↔
      n = meaning negative magnitude ∧ exceeds ceiling (Digits.digits magnitude).length = false ∧
      exceeds limits.maxIntegerBits (bitLength n) = false := by
  unfold parseInteger
  rw [digitCount_literal,intOf_literal,bitLength_meaning]
  cases wide : exceeds limits.maxIntegerBits magnitude.size with
  | true =>
    constructor
    · intro parsed
      simp at parsed
    · intro ⟨own,_,fits⟩
      rw [own,bitLength_meaning,wide] at fits
      cases fits
  | false =>
    have short : exceeds limits.maxIntegerBits (Digits.digits magnitude).length = false := by
      cases long : exceeds limits.maxIntegerBits (Digits.digits magnitude).length with
      | false => rfl
      | true => rw [precheck_sound apart long] at wide; cases wide
    cases beyond : exceeds ceiling (Digits.digits magnitude).length with
    | true => simp [short]
    | false =>
      simp only [short,Bool.false_eq_true,if_false,Except.ok.injEq,true_and]
      constructor
      · intro own
        exact ⟨own.symm,by rw [← own,bitLength_meaning,wide]⟩
      · intro own
        exact own.1.symm

-- The walk accepts what the recursive definition does; the digits of an integer are refused
-- only where its bits are, and what is parsed is within the bits and the ceiling of digits.
theorem validated_exactly (limits : JsonLimits) : (∀ value, validateJson value limits = .ok () ↔ Valid limits value) ∧
    ∀ ceiling negative magnitude, ¬ (magnitude = 0 ∧ limits.maxIntegerBits = some 0) →
      (exceeds limits.maxIntegerBits (digitCount (literal negative magnitude)) = true →
        exceeds limits.maxIntegerBits (bitLength (meaning negative magnitude)) = true) ∧
      ∀ n, parseInteger ceiling limits (literal negative magnitude) = .ok n ↔
        n = meaning negative magnitude ∧ exceeds ceiling (digitCount (literal negative magnitude)) = false ∧
        exceeds limits.maxIntegerBits (bitLength n) = false := by
  refine ⟨(validate_exact · limits),?_⟩
  intro ceiling negative magnitude apart
  rw [digitCount_literal]
  constructor
  · intro refused
    rw [bitLength_meaning]
    exact precheck_sound apart refused
  · exact parseInteger_exact apart ceiling negative

def pairOfLists : Value := .list 0 [.list 1 [.null],.list 2 [.null]]

def twoItems : JsonLimits := { maxItems := some 2,maxIntegerBits := some 4 }

theorem fifteen_parsed : parseInteger (some 4300) twoItems (literal true 15) = .ok (-15) :=
  (((validated_exactly twoItems).2 (some 4300) true 15 (by decide)).2 (-15)).mpr ⟨rfl,by decide,by decide⟩

-- No container has more than two members, and there are four in all.
theorem four_in_all : branches.Every down (fun place node => Fine twoItems place node ∧ exceeds twoItems.maxItems (members node) = false)
      ([],0) pairOfLists ∧
    exceeds twoItems.maxNodes (1 + branches.total pushes pairOfLists) = false ∧ validateJson pairOfLists twoItems ≠ .ok () := by
  have leaf (place) : branches.Every down (fun place node => Fine twoItems place node ∧ exceeds twoItems.maxItems (members node) = false)
      place .null := by
    refine .node ⟨⟨rfl,trivial⟩,rfl⟩ ?_
    intro child inside
    cases inside
  have single (place : List Nat × Nat) (id : Nat) (fresh : id ∉ place.1) :
      branches.Every down (fun place node => Fine twoItems place node ∧ exceeds twoItems.maxItems (members node) = false)
        place (.list id [.null]) := by
    refine .node ⟨⟨rfl,fresh⟩,rfl⟩ ?_
    intro child inside
    rw [List.mem_singleton.mp inside]
    exact leaf _
  refine ⟨.node ⟨⟨rfl,List.not_mem_nil⟩,rfl⟩ ?_,?_,?_⟩
  · intro child inside
    rcases List.mem_cons.mp inside with first | second
    · rw [first]
      exact single _ _ (by simp [down,identity,pairOfLists])
    · rw [List.mem_singleton.mp second]
      exact single _ _ (by simp [down,identity,pairOfLists])
  · simp [Branches.total_split,branches,children,pushes,pairOfLists,exceeds,twoItems]
  · rw [Ne,validate_exact]
    intro valid
    have few := valid.items
    have count : branches.total members pairOfLists = 4 := by
      simp [Branches.total_split,branches,children,members,pairOfLists]
    rw [count] at few
    cases few

end AgentSideCar.JsonValidation
