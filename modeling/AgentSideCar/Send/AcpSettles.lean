import AgentSideCar.Send.AcpPrompt

namespace AgentSideCar.Acp
open Loads (Value Text str)
open Wrapper (get finite)
open Send (Snag Foreign)
open Attempt (bound_ok mapM_ok)

-- What may be raised, a refusal among it.
class Admits (P : Snag → Prop) : Prop where
  refused : P protocolError

variable {P : Snag → Prop}

def Settles {α : Type} (P : Snag → Prop) (outcome : Except Snag α) : Prop := ∀ snag, outcome = .error snag → P snag

section Checks
variable {α β : Type} {v : Value} {item : Fields} {key : String} {check : Value → Check}

@[simp] theorem settles_ok (a : α) : Settles P (.ok a : Except Snag α) := nofun

@[simp] theorem settles_pure (a : α) : Settles P (pure a : Except Snag α) := nofun

@[simp] theorem settles_raised {snag : Snag} (admitted : P snag) : Settles P (.error snag : Except Snag α) := fun _ same => by
  cases same
  exact admitted

@[simp] theorem settles_bind {x : Except Snag α} {next : α → Except Snag β} :
    Settles P (x >>= next) ↔ Settles P x ∧ ∀ a, x = .ok a → Settles P (next a) := by
  cases x with
  | error snag => exact ⟨fun settles => ⟨fun e same => settles e (by cases same; rfl),nofun⟩,fun both e same => both.1 e (by cases same; rfl)⟩
  | ok a => exact ⟨fun settles => ⟨nofun,fun _ same => by cases same; exact settles⟩,fun both => both.2 a rfl⟩

@[simp] theorem settles_map {x : Except Snag α} {f : α → β} : Settles P (f <$> x) ↔ Settles P x := by
  cases x with
  | error snag => exact ⟨fun settles e same => settles e (by cases same; rfl),fun settles e same => settles e (by cases same; rfl)⟩
  | ok a => exact ⟨fun _ => settles_ok a,fun _ => settles_ok (f a)⟩

@[simp] theorem settles_ite {c : Prop} [Decidable c] {x y : Except Snag α} : Settles P (if c then x else y) ↔ (c → Settles P x) ∧ (¬ c → Settles P y) := by
  split <;> simp_all

theorem settles_foldlM {α β : Type} {step : β → α → Except Snag β} {l : List α} (every : ∀ b, ∀ a ∈ l, Settles P (step b a)) (b : β) :
    Settles P (l.foldlM step b) := by
  induction l generalizing b with
  | nil => exact settles_pure _
  | cons a l ih =>
    rw [List.foldlM_cons,settles_bind]
    exact ⟨every b a List.mem_cons_self,fun c _ => ih (fun b a inside => every b a (List.mem_cons_of_mem _ inside)) c⟩

theorem settles_present (each : ∀ v, get item key = some v → Settles P (check v)) : Settles P (ifPresent item key check) := by
  unfold ifPresent
  split
  · exact settles_ok _
  · rename_i v found
    exact each v found

theorem settles_given (each : ∀ v, get item key = some v → Settles P (check v)) : Settles P (ifGiven item key check) := by
  refine settles_present fun v found => ?_
  unfold unlessNone
  split
  · exact settles_ok _
  · exact each v found

theorem settles_said (update : Bool) (each : ∀ v, get item key = some v → Settles P (check v)) : Settles P (ifSaid update item key check) := by
  unfold ifSaid
  split
  · exact settles_given each
  · exact settles_present each

theorem settles_forM {l : List α} {check : α → Check} (each : ∀ a ∈ l, Settles P (check a)) : Settles P (forM l check) := by
  induction l with
  | nil => exact settles_pure _
  | cons a l ih =>
    rw [List.forM_cons,settles_bind]
    exact ⟨each a List.mem_cons_self,fun _ _ => ih fun b inside => each b (List.mem_cons_of_mem _ inside)⟩

@[simp] theorem settles_present_all (all : ∀ v, Settles P (check v)) : Settles P (ifPresent item key check) := settles_present fun v _ => all v
@[simp] theorem settles_given_all (all : ∀ v, Settles P (check v)) : Settles P (ifGiven item key check) := settles_given fun v _ => all v
@[simp] theorem settles_said_all (update : Bool) (all : ∀ v, Settles P (check v)) : Settles P (ifSaid update item key check) :=
  settles_said update fun v _ => all v
@[simp] theorem settles_forM_all {l : List α} {check : α → Check} (all : ∀ a, Settles P (check a)) : Settles P (forM l check) :=
  settles_forM fun a _ => all a

variable [Admits P]

@[simp] theorem settles_refuse : Settles P (refuse : Except Snag α) := settles_raised Admits.refused

@[simp] theorem settles_demand (holds : Bool) : Settles P (demand holds) := by
  cases holds <;> simp [demand]

@[simp] theorem settles_mapping (v : Value) : Settles P (mapping v) := by
  cases v <;> simp [mapping]

@[simp] theorem settles_object (v : Value) (required optional : List String) : Settles P (object v required optional) := by
  simp [object]

@[simp] theorem settles_string (nullable nonempty : Bool) (v : Value) : Settles P (string nullable nonempty v) := by
  cases v <;> simp [string]

@[simp] theorem settles_boolean (v : Value) : Settles P (boolean v) := by
  cases v <;> simp [boolean]

@[simp] theorem settles_counted (v : Value) : Settles P (counted v) := by
  cases v <;> simp [counted]

@[simp] theorem settles_metaOnly (v : Value) : Settles P (metaOnly v) := settles_demand _

theorem settles_each (every : ∀ items, v = .list items → ∀ item ∈ items, Settles P (check item)) : Settles P (each check v) := by
  cases v with
  | list items => exact settles_forM (every items rfl)
  | _ => exact settles_refuse

@[simp] theorem settles_each_all (all : ∀ v, Settles P (check v)) : Settles P (each check v) := settles_each fun _ _ item _ => all item
@[simp] theorem settles_optionalString : Settles P (optionalString item key) := by simp [optionalString]

end Checks

section Plain
variable [Admits P] (v : Value)

@[simp] theorem settles_textBlock : Settles P (textBlock v) := by simp [textBlock]
@[simp] theorem settles_mediaBlock (uri : List String) : Settles P (mediaBlock uri v) := by simp [mediaBlock]
@[simp] theorem settles_resourceBlock : Settles P (resourceBlock v) := by simp [resourceBlock]
@[simp] theorem settles_toolLocation : Settles P (validateToolLocation v) := by simp [validateToolLocation]
@[simp] theorem settles_availableCommand : Settles P (validateAvailableCommand v) := by simp [validateAvailableCommand]
@[simp] theorem settles_configSelectOption : Settles P (validateConfigSelectOption v) := by simp [validateConfigSelectOption]
@[simp] theorem settles_optionGroup : Settles P (validateOptionGroup v) := by simp [validateOptionGroup]
@[simp] theorem settles_configOption : Settles P (validateConfigOption v) := by
  simp only [validateConfigOption,settles_bind,settles_mapping,settles_demand,settles_object,settles_string,settles_optionalString,
    settles_ite,settles_boolean,true_and,implies_true]
  intros
  split
  · exact settles_forM_all fun option => by split <;> simp
  · exact settles_refuse
@[simp] theorem settles_configOptions : Settles P (validateConfigOptions v) := by simp [validateConfigOptions]
@[simp] theorem settles_choices (list current id : String) : Settles P (validateChoices list current id v) := by simp [validateChoices]
@[simp] theorem settles_sessionInfo : Settles P (validateSessionInfo v) := by simp [validateSessionInfo]
@[simp] theorem settles_boolCapabilities (fields : List String) : Settles P (validateBoolCapabilities fields v) := by
  simp [validateBoolCapabilities]
@[simp] theorem settles_context : Settles P (validateContext v) := by simp [validateContext]
@[simp] theorem settles_document : Settles P (validateDocument v) := by simp [validateDocument]
@[simp] theorem settles_nesCapabilities : Settles P (validateNesCapabilities v) := by simp [validateNesCapabilities]
@[simp] theorem settles_variable : Settles P (validateVariable v) := by simp [validateVariable]

@[simp] theorem settles_authMethod (kind : Value) : Settles P (authMethod v kind) := by
  simp only [authMethod,settles_ite]
  refine ⟨fun _ => ?_,fun _ => ⟨fun _ => ?_,fun _ => ?_⟩⟩
  · simp
  · simp only [settles_bind,settles_object,settles_present_all,settles_each_all,settles_string,true_and,implies_true]
    intro item _ _ _
    refine ⟨settles_present_all fun environment => ?_,by simp⟩
    split
    · exact settles_forM_all fun entry => settles_string _ _ _
    · exact settles_refuse
  · split <;> simp

@[simp] theorem settles_validateAuthMethod : Settles P (validateAuthMethod v) := by simp [validateAuthMethod]
@[simp] theorem settles_positionEncodings : Settles P (positionEncodings v) := by simp [positionEncodings]
@[simp] theorem settles_sessionCapabilities : Settles P (validateSessionCapabilities v) := by simp [validateSessionCapabilities]
@[simp] theorem settles_agentCapabilities : Settles P (validateAgentCapabilities v) := by simp [validateAgentCapabilities]
@[simp] theorem settles_sessionRow : Settles P (sessionRow v) := by simp [sessionRow]
@[simp] theorem settles_error : Settles P (validateError v) := by
  simp only [validateError,settles_bind,settles_mapping,true_and]
  intro error _
  split <;> simp

variable (envelope : Fields)

theorem settles_initialize : Settles P (initializeResult envelope) := by simp [initializeResult]
theorem settles_resume : Settles P (resumeResult envelope) := by simp [resumeResult,validateModelState,validateModeState]
theorem settles_mode : Settles P (modeResult envelope) := settles_metaOnly _

@[simp] theorem settles_rpcId : Settles P (rpcId v) := by
  cases v <;> simp [rpcId]

end Plain

section Limits
variable {v : Value} {fields item : Fields} {items : List Value} {key : String}

-- The value is one that parse_json has let through, or a part of it.
def Bounded (v : Value) : Prop := ∃ depth nodes after, Wrapper.validateJson jsonLimits depth nodes v = .ok after

theorem items_bounded {l : Wrapper.JSONLimits} (valid : Wrapper.validateItems l depth nodes items = .ok after) (there : v ∈ items) :
    ∃ depth nodes after, Wrapper.validateJson l depth nodes v = .ok after := by
  induction items generalizing nodes with
  | nil => cases there
  | cons first items ih =>
    rw [Wrapper.validateItems] at valid
    split at valid
    · cases valid
    · rename_i own
      rcases List.mem_cons.mp there with same | later
      · exact ⟨_,_,_,same ▸ own⟩
      · exact ih valid later

theorem fields_bounded {l : Wrapper.JSONLimits} (valid : Wrapper.validateFields l depth nodes fields = .ok after) (there : field ∈ fields) :
    ∃ depth nodes after, Wrapper.validateJson l depth nodes field.2 = .ok after := by
  induction fields generalizing nodes with
  | nil => cases there
  | cons first fields ih =>
    obtain ⟨key,item⟩ := first
    rw [Wrapper.validateFields] at valid
    split at valid
    · cases valid
    split at valid
    · cases valid
    · rename_i own
      rcases List.mem_cons.mp there with rfl | later
      · exact ⟨_,_,_,own⟩
      · exact ih valid later

theorem bounded_item (bounded : Bounded (.list items)) (there : v ∈ items) : Bounded v := by
  obtain ⟨depth,nodes,after,valid⟩ := bounded
  rw [Wrapper.validateJson] at valid
  split at valid
  · cases valid
  · exact items_bounded valid there

theorem bounded_field (bounded : Bounded (.dict fields)) (there : field ∈ fields) : Bounded field.2 := by
  obtain ⟨depth,nodes,after,valid⟩ := bounded
  rw [Wrapper.validateJson] at valid
  split at valid
  · cases valid
  · exact fields_bounded valid there

theorem bounded_get (bounded : Bounded (.dict fields)) (found : get fields key = some v) : Bounded v := by
  obtain ⟨field,first,rfl⟩ := Option.map_eq_some_iff.mp found
  exact bounded_field bounded (List.mem_of_find?_eq_some first)

theorem bounded_read (bounded : Bounded (.dict fields)) (key : String) : Bounded (read fields key) := by
  unfold read
  cases found : get fields key with
  | none => exact ⟨0,0,0,rfl⟩
  | some v => exact bounded_get bounded found

theorem bounded_object {required optional : List String} (bounded : Bounded v) (made : object v required optional = .ok item) :
    Bounded (.dict item) := object_dict made ▸ bounded

theorem mapping_dict (made : mapping v = .ok item) : v = .dict item := by
  cases v with
  | dict own => cases made; rfl
  | _ => cases made

theorem bounded_finite {n : Int} (bounded : Bounded (.int n)) : finite n 0 = true := by
  obtain ⟨depth,nodes,after,valid⟩ := bounded
  rw [Wrapper.validateJson] at valid
  split at valid
  · cases valid
  · rename_i within
    have bits : Wrapper.bitLength n.natAbs ≤ 256 := Nat.le_of_not_lt (not_or.mp within).2
    have small : n.natAbs < 2 ^ 256 := by
      unfold Wrapper.bitLength at bits
      split at bits
      · omega
      · rename_i positive
        exact (Nat.log2_lt positive).mp bits
    have room : 2 ^ 256 < 2 ^ 1024 - 2 ^ 970 := by decide +kernel
    rw [finite,if_pos (Int.le_refl 0),Int.toNat_zero,Nat.pow_zero,Nat.mul_one]
    exact decide_eq_true (small.trans room)

theorem settles_number [Admits P] (bounded : Bounded v) : Settles P (number v) := by
  cases v with
  | int n =>
    rw [number,if_pos (bounded_finite bounded)]
    exact settles_ok _
  | float mantissa exponent => exact settles_demand _
  | _ => exact settles_refuse

end Limits

section Numbers
variable [Admits P] {v : Value}

theorem settles_annotations (bounded : Bounded v) : Settles P (validateAnnotations v) := by
  simp only [validateAnnotations,settles_bind,settles_object,settles_optionalString,true_and]
  intro item made
  have fields := bounded_object bounded made
  refine ⟨settles_given_all fun roles => ?_,fun _ _ _ _ => settles_given fun priority found => settles_number (bounded_get fields found)⟩
  split <;> simp

theorem settles_linkBlock (bounded : Bounded v) : Settles P (linkBlock v) := by
  simp only [linkBlock,settles_bind,settles_object,settles_string,List.forM_eq_forM,settles_forM_all,settles_optionalString,settles_pure,
    true_and,and_true,implies_true]
  intro item made _ _ _ _ _ _
  exact settles_given fun size found => settles_number (bounded_get (bounded_object bounded made) found)

theorem textBlock_dict (made : textBlock v = .ok item) : v = .dict item := by
  obtain ⟨_,own,later⟩ := bound_ok made
  obtain ⟨_,_,same⟩ := bound_ok later
  cases same
  exact object_dict own

theorem mediaBlock_dict {uri : List String} (made : mediaBlock uri v = .ok item) : v = .dict item := by
  obtain ⟨_,own,later⟩ := bound_ok made
  obtain ⟨_,_,later⟩ := bound_ok later
  obtain ⟨_,_,later⟩ := bound_ok later
  obtain ⟨_,_,same⟩ := bound_ok later
  cases same
  exact object_dict own

theorem linkBlock_dict (made : linkBlock v = .ok item) : v = .dict item := by
  obtain ⟨_,own,later⟩ := bound_ok made
  obtain ⟨_,_,later⟩ := bound_ok later
  obtain ⟨_,_,later⟩ := bound_ok later
  obtain ⟨_,_,later⟩ := bound_ok later
  obtain ⟨_,_,same⟩ := bound_ok later
  cases same
  exact object_dict own

theorem resourceBlock_dict (made : resourceBlock v = .ok item) : v = .dict item := by
  obtain ⟨_,own,later⟩ := bound_ok made
  obtain ⟨_,_,later⟩ := bound_ok later
  obtain ⟨_,_,later⟩ := bound_ok later
  obtain ⟨_,_,later⟩ := bound_ok later
  obtain ⟨_,_,later⟩ := bound_ok later
  obtain ⟨_,_,same⟩ := bound_ok later
  cases same
  exact object_dict own

theorem contentBlock_dict {kind : Value} (made : contentBlock v kind = .ok item) : v = .dict item := by
  unfold contentBlock at made
  split at made
  · exact textBlock_dict made
  split at made
  · exact mediaBlock_dict made
  split at made
  · exact mediaBlock_dict made
  split at made
  · exact linkBlock_dict made
  split at made
  · exact resourceBlock_dict made
  · cases made

theorem settles_contentBlock (bounded : Bounded v) (kind : Value) : Settles P (contentBlock v kind) := by
  simp [contentBlock,settles_linkBlock bounded]

theorem settles_validateContentBlock (bounded : Bounded v) : Settles P (validateContentBlock v) := by
  simp only [validateContentBlock,settles_bind,settles_mapping,settles_contentBlock bounded,true_and]
  intro kinds _ item made
  have fields : Bounded (.dict item) := contentBlock_dict made ▸ bounded
  exact settles_given fun notes found => settles_annotations (bounded_get fields found)

theorem settles_toolContent (bounded : Bounded v) : Settles P (validateToolContent v) := by
  simp only [validateToolContent,settles_bind,settles_mapping,settles_ite,settles_object,settles_string,settles_optionalString,settles_refuse,
    true_and,implies_true,and_true]
  intro _ _ _ item made
  exact settles_validateContentBlock (bounded_read (bounded_object bounded made) _)

theorem settles_toolCall (update discriminator : Bool) (bounded : Bounded v) : Settles P (validateToolCall update discriminator v) := by
  simp only [validateToolCall,settles_bind,settles_object,settles_string,settles_present_all,settles_said_all,settles_demand,settles_each_all,
    settles_toolLocation,true_and,and_true,implies_true]
  intro item made _ _ _ _ _ _ _ _
  have fields := bounded_object bounded made
  refine settles_said update fun content found => settles_each fun items same block inside => ?_
  have held := bounded_get fields found
  rw [same] at held
  exact settles_toolContent (bounded_item held inside)

theorem settles_chunk (bounded : Bounded v) : Settles P (validateChunk v) := by
  simp only [validateChunk,settles_bind,settles_object,settles_optionalString,true_and,and_true,implies_true]
  intro item made
  exact settles_validateContentBlock (bounded_read (bounded_object bounded made) _)

theorem settles_usageUpdate (bounded : Bounded v) : Settles P (validateUsageUpdate v) := by
  simp only [validateUsageUpdate,settles_bind,settles_object,true_and]
  intro item made
  have fields := bounded_object bounded made
  refine ⟨settles_number (bounded_read fields _),fun _ _ => ⟨settles_number (bounded_read fields _),fun _ _ => ?_⟩⟩
  refine settles_given fun cost found => ?_
  simp only [settles_bind,settles_object,settles_string,true_and,and_true,implies_true]
  intro priced own
  exact settles_number (bounded_read (bounded_object (bounded_get fields found) own) _)

theorem settles_usage (bounded : Bounded v) : Settles P (validateUsage v) := by
  simp only [validateUsage,settles_bind,settles_object,true_and]
  intro item made
  refine settles_forM fun field inside => ?_
  unfold unlessNone
  split
  · exact settles_ok _
  · exact settles_number (bounded_field (bounded_object bounded made) inside)

end Numbers

section Members
variable {v : Value} {e : Fields}

-- Python's hash takes anything but a list or a mapping.
def hashes : Value → Bool
  | .list _ => false
  | .dict _ => false
  | _ => true

def field (v : Value) (key : String) : Value :=
  match v with
  | .dict fields => read fields key
  | _ => .null

@[simp] theorem field_dict (fields : Fields) (key : String) : field (.dict fields) key = read fields key := rfl

def entries : Value → List Value
  | .list items => items
  | _ => []

def entriesHash (v : Value) : Bool := (entries v).all fun entry => hashes (field entry "priority") && hashes (field entry "status")

def updateHashes (update : Value) : Bool :=
  let kind := field update "sessionUpdate"
  let plan := field update "plan"
  hashes kind && (!oneOf ["plan"] kind || entriesHash (field update "entries")) &&
    (!(oneOf ["plan_update"] kind && oneOf ["items"] (field plan "type")) || entriesHash (field plan "entries"))

def isFifth : Value → Bool
  | .int n => n = 5
  | _ => false

-- Neither an array nor an object stands where the driver asks for a member of a frozenset: the kind of an
-- update, priority and status of a plan's entry, the kind of an option, the stop reason.
structure Hashes (e : Fields) : Prop where
  update : isText (str "session/update") (read e "method") = true → updateHashes (field (read e "params") "update") = true
  options : isText (str "session/request_permission") (read e "method") = true →
    ∀ option ∈ entries (field (read e "params") "options"), hashes (field option "kind") = true
  stopReason : isFifth (read e "id") = true → hashes (field (read e "result") "stopReason") = true

instance (e : Fields) : Decidable (Hashes e) := decidable_of_iff
  ((isText (str "session/update") (read e "method") = true → updateHashes (field (read e "params") "update") = true) ∧
    (isText (str "session/request_permission") (read e "method") = true →
      ∀ option ∈ entries (field (read e "params") "options"), hashes (field option "kind") = true) ∧
    (isFifth (read e "id") = true → hashes (field (read e "result") "stopReason") = true))
  ⟨fun all => ⟨all.1,all.2.1,all.2.2⟩,fun all => ⟨all.update,all.options,all.stopReason⟩⟩

-- It holds, or may be missing because a TypeError may be raised.
def Fits (P : Snag → Prop) (fact : Bool) : Prop := P (.escape .other) ∨ fact = true

theorem settles_memberOf (names : List String) (hashed : Fits P (hashes v)) : Settles P (memberOf names v) := by
  cases v with
  | list items => exact settles_raised (hashed.resolve_right nofun)
  | dict fields => exact settles_raised (hashed.resolve_right nofun)
  | _ => exact settles_ok _

variable [Admits P]

theorem settles_planEntry (priority : Fits P (hashes (field v "priority"))) (status : Fits P (hashes (field v "status"))) :
    Settles P (validatePlanEntry v) := by
  simp only [validatePlanEntry,settles_bind,settles_object,settles_string,settles_demand,true_and,and_true,implies_true]
  intro entry made _ _
  cases object_dict made
  exact ⟨settles_memberOf _ priority,fun _ _ _ _ => settles_memberOf _ status⟩

theorem settles_planEntries (hashed : Fits P (entriesHash v)) : Settles P (validatePlanEntries v) := by
  refine settles_each fun items same item inside => ?_
  subst same
  have both : P (.escape .other) ∨ hashes (field item "priority") = true ∧ hashes (field item "status") = true :=
    hashed.imp_right fun all => Bool.and_eq_true_iff.mp (List.all_eq_true.mp all item inside)
  exact settles_planEntry (both.imp_right And.left) (both.imp_right And.right)

theorem settles_planUpdate {update : Fields} (hashed : oneOf ["items"] (field (read update "plan") "type") = true →
    Fits P (entriesHash (field (read update "plan") "entries"))) : Settles P (validatePlanUpdate (.dict update)) := by
  simp only [validatePlanUpdate,settles_bind,settles_object,settles_mapping,true_and]
  intro item made plan own
  cases object_dict made
  rw [mapping_dict own] at hashed
  split
  · rename_i listed
    simp only [settles_bind,settles_object,settles_string,true_and,and_true,implies_true]
    intro fields entries
    cases object_dict entries
    exact settles_planEntries (hashed listed)
  split
  · simp
  split
  · simp
  · simp

theorem settles_one {update : Fields} {key : String} {check : Value → Check} (one : Settles P (check (read update key))) :
    Settles P (validateOne key check (.dict update)) := by
  simp only [validateOne,settles_bind,settles_object,true_and]
  intro item made
  cases object_dict made
  exact one

theorem settles_update {update : Fields} (bounded : Bounded (.dict update)) (hashed : Fits P (updateHashes (.dict update))) :
    Settles P (validateUpdate (.dict update)) := by
  simp only [Fits,updateHashes,field_dict,Bool.and_eq_true,Bool.or_eq_true,Bool.not_eq_true'] at hashed
  have kind : Fits P (hashes (read update "sessionUpdate")) := hashed.imp_right fun all => all.1.1
  have plan : oneOf ["plan"] (read update "sessionUpdate") = true → Fits P (entriesHash (read update "entries")) :=
    fun planned => hashed.imp_right fun all => all.1.2.resolve_left (by simp [planned])
  have planUpdate : oneOf ["plan_update"] (read update "sessionUpdate") = true → oneOf ["items"] (field (read update "plan") "type") = true →
      Fits P (entriesHash (field (read update "plan") "entries")) :=
    fun planned listed => hashed.imp_right fun all => all.2.resolve_left (by simp [planned,listed])
  unfold validateUpdate
  rw [settles_bind]
  refine ⟨settles_mapping _,fun item same => ?_⟩
  cases same
  rw [settles_bind]
  refine ⟨settles_memberOf _ kind,fun known _ => ?_⟩
  rw [settles_bind]
  refine ⟨settles_demand _,fun _ _ => ?_⟩
  split
  · exact settles_chunk bounded
  split
  · exact settles_toolCall _ _ bounded
  split
  · exact settles_toolCall _ _ bounded
  split
  · rename_i planned
    exact settles_one (settles_planEntries (plan planned))
  split
  · rename_i planned
    exact settles_planUpdate (planUpdate planned)
  split
  · exact settles_one (settles_string _ _ _)
  split
  · exact settles_one (by simp)
  split
  · exact settles_one (settles_string _ _ _)
  split
  · exact settles_one (settles_configOptions _)
  split
  · exact settles_sessionInfo _
  · exact settles_usageUpdate bounded

theorem settles_updateOf (d : Dialogue) (bounded : Bounded (.dict e)) (hashed : P (.escape .other) ∨ Hashes e) : Settles P (updateOf d e) := by
  simp only [updateOf,settles_bind,settles_demand,settles_object,settles_mapping,settles_pure,true_and,and_true,implies_true]
  intro _ own params made _ _ update there
  have params' := object_dict made
  have update' := mapping_dict there
  have held := bounded_read (bounded_object (bounded_read bounded _) made) "update"
  rw [update'] at held
  have fits : Fits P (updateHashes (field (read e "params") "update")) := hashed.imp_right fun all => all.update (demand_ok.mp own)
  rw [params',field_dict,update'] at fits
  exact settles_update held fits

theorem text_text (fine : text v = .ok ()) : ∃ t, v = .text t := by
  cases v with
  | text t => exact ⟨t,rfl⟩
  | _ => cases fine

theorem contentBlock_text {content : Fields} (fine : validateContentBlock (.dict content) = .ok ()) (kind : oneOf ["text"] (read content "type") = true) :
    ∃ t, read content "text" = .text t := by
  obtain ⟨kinds,same,later⟩ := bound_ok fine
  cases same
  obtain ⟨item,made,_⟩ := bound_ok later
  rw [contentBlock,if_pos kind] at made
  obtain ⟨own,block,later⟩ := bound_ok made
  obtain ⟨_,said,_⟩ := bound_ok later
  cases object_dict block
  exact text_text said

theorem chunk_content {update : Fields} (fine : validateUpdate (.dict update) = .ok ())
    (kind : oneOf ["agent_message_chunk"] (read update "sessionUpdate") = true) : validateContentBlock (read update "content") = .ok () := by
  obtain ⟨item,same,later⟩ := bound_ok fine
  cases same
  obtain ⟨_,_,later⟩ := bound_ok later
  obtain ⟨_,_,later⟩ := bound_ok later
  have chunk : oneOf ["user_message_chunk","agent_message_chunk","agent_thought_chunk"] (read update "sessionUpdate") = true := by
    cases named : read update "sessionUpdate" with
    | text t =>
      rw [named] at kind
      simp only [oneOf,List.contains_iff_mem,List.map_cons,List.map_nil,List.mem_singleton] at kind
      simp [oneOf,kind]
    | _ =>
      rw [named] at kind
      cases kind
  rw [if_pos chunk] at later
  obtain ⟨item,made,later⟩ := bound_ok later
  cases object_dict made
  obtain ⟨_,fine,_⟩ := bound_ok later
  exact fine

theorem settles_chunkText {d : Dialogue} {update : Fields} (made : updateOf d e = .ok update) : Settles P (chunkText update) := by
  have fine : validateUpdate (.dict update) = .ok () := by
    obtain ⟨_,_,later⟩ := bound_ok made
    obtain ⟨_,_,later⟩ := bound_ok later
    obtain ⟨_,_,later⟩ := bound_ok later
    obtain ⟨own,_,later⟩ := bound_ok later
    obtain ⟨_,valid,same⟩ := bound_ok later
    cases same
    exact valid
  unfold chunkText
  split
  · rename_i kind
    rw [settles_bind]
    refine ⟨settles_mapping _,fun content own => ?_⟩
    split
    · rename_i named
      have block := chunk_content fine kind
      rw [mapping_dict own] at block
      obtain ⟨t,said⟩ := contentBlock_text block named
      rw [said]
      exact settles_pure _
    · exact settles_pure _
  · exact settles_pure _

theorem settles_option (seen : List Text) (hashed : Fits P (hashes (field v "kind"))) : Settles P (validateOption seen v) := by
  simp only [validateOption,settles_bind,settles_object,settles_string,settles_demand,true_and]
  intro item made _ _ _ _
  cases object_dict made
  refine ⟨settles_memberOf _ hashed,fun _ _ _ _ => ?_⟩
  split <;> simp

theorem settles_permission (sessionId : Text) (bounded : Bounded (.dict e)) (hashed : P (.escape .other) ∨ Hashes e)
    (asks : isText (str "session/request_permission") (read e "method") = true) :
    Settles P (validatePermissionParams sessionId (read e "params")) := by
  simp only [validatePermissionParams,settles_bind,settles_object,settles_demand,true_and]
  intro params made _ _
  have fields := bounded_object (bounded_read bounded _) made
  refine ⟨settles_toolCall _ _ (bounded_read fields _),fun _ _ => ?_⟩
  have options : ∀ option ∈ entries (field (read e "params") "options"), Fits P (hashes (field option "kind")) :=
    fun option inside => hashed.imp_right fun all => all.options asks option inside
  rw [object_dict made,field_dict] at options
  split
  · rename_i items listed
    rw [listed] at options
    rw [settles_bind]
    exact ⟨settles_demand _,fun _ _ => settles_map.mpr (settles_foldlM (fun seen option inside => settles_option seen (options option inside)) [])⟩
  · exact settles_refuse

theorem settles_promptResult (bounded : Bounded (.dict e)) (hashed : Fits P (hashes (field (read e "result") "stopReason"))) :
    Settles P (promptResult e) := by
  simp only [promptResult,settles_bind,settles_object,settles_demand,settles_optionalString,settles_pure,true_and,and_true,implies_true]
  intro result made
  have fields := bounded_object (bounded_read bounded _) made
  rw [object_dict made,field_dict] at hashed
  refine ⟨settles_memberOf _ hashed,fun _ _ _ _ => ?_⟩
  exact settles_given fun usage found => settles_usage (bounded_get fields found)

end Members

section Answers
variable {d : Dialogue} {e : Fields} {v : Value} {n : Nat}

theorem sessionRow_cwd (made : sessionRow v = .ok item) : ∃ cwd, read item "cwd" = .text cwd := by
  obtain ⟨own,_,later⟩ := bound_ok made
  obtain ⟨_,_,later⟩ := bound_ok later
  obtain ⟨_,cwd,later⟩ := bound_ok later
  obtain ⟨_,_,later⟩ := bound_ok later
  obtain ⟨_,_,later⟩ := bound_ok later
  obtain ⟨_,_,same⟩ := bound_ok later
  cases same
  exact text_text cwd

theorem rows_cwd {sessions : List Value} {items : List Fields} (rows : List.Forall₂ (fun v item => sessionRow v = .ok item) sessions items)
    (there : row ∈ items) : ∃ cwd, read row "cwd" = .text cwd := by
  induction rows with
  | nil => cases there
  | cons made _ ih =>
    rcases List.mem_cons.mp there with rfl | later
    · exact sessionRow_cwd made
    · exact ih later

theorem settles_mapM {α β : Type} {step : α → Except Snag β} (every : ∀ a, Settles P (step a)) (l : List α) : Settles P (l.mapM step) := by
  induction l with
  | nil => exact settles_pure _
  | cons a l ih =>
    rw [List.mapM_cons,settles_bind]
    refine ⟨every a,fun b _ => ?_⟩
    rw [settles_bind]
    exact ⟨ih,fun bs _ => settles_pure _⟩

section Calls
variable (driver : ∀ code, P (.driver code)) (interrupts : ∀ e, e.isException = false → P (.escape e))
include driver interrupts

theorem settles_cwdMatches (validate : Text → Except Foreign Bool) (cwd : Text) : Settles P (cwdMatches validate cwd) := by
  unfold cwdMatches
  split
  · exact settles_ok _
  · exact settles_raised (driver _)
  · rename_i own _
    split
    · exact settles_raised (driver _)
    · rename_i interrupt
      exact settles_raised (interrupts own ((Bool.not_eq_true _).mp interrupt))

variable [Admits P]

theorem settles_list (sessionId : Text) (validate : Text → Except Foreign Bool) (e : Fields) : Settles P (listResult sessionId validate e) := by
  simp only [listResult,settles_bind,settles_object,settles_optionalString,true_and]
  intro result _ _ _
  split
  · rename_i sessions _
    rw [settles_bind]
    refine ⟨settles_mapM settles_sessionRow sessions,fun items rows => ?_⟩
    split
    · exact settles_raised (driver _)
    · rename_i row alone
      have there : row ∈ items := List.mem_of_mem_filter (alone ▸ List.mem_singleton_self row)
      obtain ⟨cwd,own⟩ := rows_cwd (mapM_ok rows) there
      rw [own]
      exact settles_cwdMatches driver interrupts validate cwd
    · exact settles_raised (driver _)
  · exact settles_refuse

theorem settles_accepts (d : Dialogue) (e : Fields) (call : n < 4) : Settles P (accepts d (n + 1) e) := by
  match n with
  | 0 => exact settles_initialize e
  | 1 => exact settles_list driver interrupts _ _ e
  | 2 => exact settles_resume e
  | 3 => exact settles_mode e

end Calls

variable [Admits P]

theorem settles_responseId : Settles P (responseId e) := by simp [responseId]

theorem settles_callFine : Settles P (callFine e) := by simp [callFine]

theorem settles_responseError {id : RpcId}
    (busy : id = .int 5 → (get e "error").isSome = true → errorIsBusy (read e "error") = true → P (.driver "session_busy")) :
    Settles P (responseError id e) := by
  simp only [responseError,settles_ite,settles_bind,settles_error,settles_refuse,settles_ok,true_and,implies_true,and_true]
  intro error _ _ both
  exact settles_raised (busy both.1 error both.2)

theorem rpcId_int (made : rpcId v = .ok (.int m)) : v = .int m := by
  cases v with
  | int n => cases made; rfl
  | _ => cases made

theorem responseId_int (made : responseId e = .ok (.int m)) : read e "id" = .int m := by
  obtain ⟨_,_,own⟩ := bound_ok made
  exact rpcId_int own

end Answers
end AgentSideCar.Acp
