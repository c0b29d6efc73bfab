import AgentSideCar.Library.Loads
import AgentSideCar.Library.Program
import AgentSideCar.Library.Stable
import Mathlib.Data.List.Lex

namespace AgentSideCar.Inventory
open Loads (Text Value str)
open Stable Screen

abbrev Fields := List (Text × Value)

def maxHosts : Nat := 256

def eligiblePhases : List Text := ["ready","no_dsh","running","degraded"].map str

structure RemoteHost where
  hostAlias : Text
  phase : Text
  deriving DecidableEq

def get (row : Fields) (key : String) : Option Value := (row.find? fun entry => entry.1 = str key).map Prod.snd

-- row.get(key, default)
def getD (row : Fields) (key : String) (default : Value) : Value := (get row key).getD default

-- Aliases are ASCII, where folding takes capitals to small letters.
def casefold (t : Text) : Text := t.map fun c => if 65 ≤ c ∧ c ≤ 90 then c + 32 else c

def alphanumeric (c : Nat) : Bool := 48 ≤ c && c ≤ 57 || 65 ≤ c && c ≤ 90 || 97 ≤ c && c ≤ 122

def aliasChar (c : Nat) : Bool := alphanumeric c || c = 46 || c = 95 || c = 45

def validAlias (t : Text) : Bool := t ≠ [] && t.length ≤ 255 && t.head? ≠ some 45 && t.all aliasChar

-- A refusal is none: every one of them becomes the same error.
def validateAlias : Value → Option Text
  | .text t => if validAlias t then some t else none
  | _ => none

def inventoryRow : Value → Option Fields
  | .dict row => some row
  | _ => none

def inventoryRows : Option Value → Option (List (Option Text × Fields))
  | some (.list items) =>
    if maxHosts < items.length then none else screen (fun item => (inventoryRow item).map fun row => some (none,row)) items
  | some (.dict fields) =>
    if maxHosts < fields.length then none
    else screen (fun field => (inventoryRow field.2).map fun row => some (some field.1,row)) fields
  | _ => none

def inventoryContainer (value : Value) : Option (List (Option Text × Fields)) :=
  match value with
  | .dict fields => inventoryRows (get fields "hosts")
  | value => inventoryRows (some value)

def rowAlias (keyAlias : Option Text) (row : Fields) : Option Text :=
  let rowName := getD row "name" .null
  match keyAlias with
  | none => validateAlias rowName
  | some key =>
    match rowName with
    | .null => validateAlias (.text key)
    | .text name => if name = key then validateAlias (.text key) else none
    | _ => none

def registerAlias (name : Text) (aliases : List Text) : Option (List Text) :=
  if casefold name ∈ aliases then none else some (casefold name :: aliases)

def strictBool : Value → Option Bool
  | .bool value => some value
  | _ => none

def validPhase (t : Text) : Bool := t ≠ [] && t.length ≤ 64 && t.all fun c => alphanumeric c || c = 95 || c = 45

def strictPhase : Value → Option Text
  | .text t => if validPhase t then some t else none
  | _ => none

-- local is kept for the host itself.
def remoteHost (name phase : Text) : Option RemoteHost :=
  if validAlias name ∧ casefold name ≠ str "local" ∧ phase ∈ eligiblePhases then some ⟨name,phase⟩ else none

def sortHosts (hosts : List RemoteHost) : List RemoteHost :=
  sortBy (fun host => (toLex (casefold host.hostAlias,host.hostAlias) : Text ×ₗ Text)) hosts

def configOf (row : Fields) : Option Fields :=
  match getD row "config" .null with
  | .null => some []
  | .dict config => some config
  | _ => none

def canonicalHost (name : Text) (row : Fields) : Option (Option RemoteHost) := do
  let config ← configOf row
  let isLocal ← strictBool (getD row "local" (getD config "local" .null))
  if isLocal then return none
  let enabled ← strictBool (getD config "enabled" (getD row "enabled" .null))
  let orphaned ← strictBool (getD row "orphaned" .null)
  let phase ← strictPhase (getD row "phase" .null)
  if enabled && !orphaned && phase ∈ eligiblePhases then
    let host ← remoteHost name phase
    return some host
  else return none

def canonicalLoop : List (Option Text × Fields) → List Text → List RemoteHost → Option (List RemoteHost)
  | [],_,eligible => some eligible
  | (keyAlias,row) :: rest,aliases,eligible => do
    let name ← rowAlias keyAlias row
    let aliases ← registerAlias name aliases
    let host ← canonicalHost name row
    canonicalLoop rest aliases (eligible ++ host.toList)

def hostsFromCanonical (value : Value) : Option (List RemoteHost) := do
  let rows ← inventoryContainer value
  let eligible ← canonicalLoop rows [] []
  return sortHosts eligible

def normalizeRows : List (Option Text × Fields) → List Text → Option (List (Text × Fields))
  | [],_ => some []
  | (keyAlias,row) :: rest,aliases => do
    let name ← rowAlias keyAlias row
    let aliases ← registerAlias name aliases
    let normalized ← normalizeRows rest aliases
    return (name,row) :: normalized

def fallbackRows (value : Value) : Option (List (Text × Fields)) := do
  let rows ← inventoryContainer value
  normalizeRows rows []

-- No two of the rows share a folded alias.
def stateEntry (states : List (Text × Fields)) (name : Text) : Option (Text × Fields) :=
  states.find? fun entry => casefold entry.1 = casefold name

def fallbackHost (states : List (Text × Fields)) (entry : Text × Fields) : Option (Option RemoteHost) :=
  let (name,config) := entry
  match stateEntry states name with
  | none => some none
  | some (stateAlias,state) =>
    if stateAlias ≠ name then none
    else do
      let enabled ← strictBool (getD config "enabled" .null)
      let isLocal ← strictBool (getD config "local" .null)
      if !enabled || isLocal then return none
      let phase ← strictPhase (getD state "phase" .null)
      if phase ∈ eligiblePhases then
        let orphaned ← strictBool (getD state "orphaned" .null)
        if orphaned then return none
        let host ← remoteHost name phase
        return some host
      else return none

def hostsFromFallback (configValue stateValue : Value) : Option (List RemoteHost) := do
  let configRows ← fallbackRows configValue
  let stateRows ← fallbackRows stateValue
  let eligible ← screen (fallbackHost stateRows) configRows
  return sortHosts eligible

-- What is known of a host; a value that is missing is none.
structure HostRecord where
  name : Text
  phase : Option Value
  isLocal : Option Value
  enabled : Option Value
  orphaned : Option Value

-- A merged record has the two flags beside its other values, in its config, or in both.
inductive Placement where
  | beside
  | inside
  | both
  deriving DecidableEq

def entryOf (key : String) (value : Option Value) : Fields := value.toList.map (str key,·)

def HostRecord.flags (r : HostRecord) : Fields := entryOf "enabled" r.enabled ++ entryOf "local" r.isLocal

def HostRecord.stateFields (r : HostRecord) : Fields := entryOf "phase" r.phase ++ entryOf "orphaned" r.orphaned

def Placement.fields (flags : Fields) : Placement → Fields
  | .beside => flags
  | .inside => [(str "config",.dict flags)]
  | .both => flags ++ [(str "config",.dict flags)]

def HostRecord.merged (placement : Placement) (r : HostRecord) : Text × Fields :=
  (r.name,r.stateFields ++ placement.fields r.flags)

def HostRecord.config (r : HostRecord) : Text × Fields := (r.name,r.flags)

def HostRecord.state (r : HostRecord) : Text × Fields := (r.name,r.stateFields)

-- An inventory is an array, bare or under hosts, or an object keyed by name.
inductive Form where
  | bare
  | array
  | object (named : Bool)
  deriving DecidableEq

def named (row : Text × Fields) : Fields := (str "name",.text row.1) :: row.2

def Form.inventory (rows : List (Text × Fields)) : Form → Value
  | .bare => .list (rows.map fun row => .dict (named row))
  | .array => .dict [(str "hosts",.list (rows.map fun row => .dict (named row)))]
  | .object false => .dict [(str "hosts",.dict (rows.map fun row => (row.1,.dict row.2)))]
  | .object true => .dict [(str "hosts",.dict (rows.map fun row => (row.1,.dict (named row))))]

-- The values of a record as a reader has them.
def HostRecord.read (r : HostRecord) (value : HostRecord → Option Value) : Value := (value r).getD .null

def HostRecord.eligible (r : HostRecord) : Bool := (strictPhase (r.read (·.phase))).any (· ∈ eligiblePhases)

-- What each reading asks of a record. The canonical one asks nothing more of a local host;
-- the fallback asks nothing of the state of a local or a disabled one, and nothing about
-- orphans where the phase is not eligible.
def HostRecord.CanonicalFine (r : HostRecord) : Prop :=
  ∃ isLocal, strictBool (r.read (·.isLocal)) = some isLocal ∧ (isLocal = false →
    ∃ enabled orphaned, strictBool (r.read (·.enabled)) = some enabled ∧ strictBool (r.read (·.orphaned)) = some orphaned ∧
      (strictPhase (r.read (·.phase))).isSome = true ∧
      (enabled = true → orphaned = false → r.eligible = true → casefold r.name ≠ str "local"))

def HostRecord.FallbackFine (r : HostRecord) : Prop :=
  ∃ enabled isLocal, strictBool (r.read (·.enabled)) = some enabled ∧ strictBool (r.read (·.isLocal)) = some isLocal ∧
    (enabled = true → isLocal = false → (strictPhase (r.read (·.phase))).isSome = true ∧
      (r.eligible = true → ∃ orphaned, strictBool (r.read (·.orphaned)) = some orphaned ∧
        (orphaned = false → casefold r.name ≠ str "local")))

-- Every value has its type.
structure HostRecord.Strict (r : HostRecord) : Prop where
  isLocal : (strictBool (r.read (·.isLocal))).isSome = true
  enabled : (strictBool (r.read (·.enabled))).isSome = true
  orphaned : (strictBool (r.read (·.orphaned))).isSome = true
  phase : (strictPhase (r.read (·.phase))).isSome = true

-- A row as an inventory of a form gives it back.
def Form.row (row : Text × Fields) : Form → Option Text × Fields
  | .bare => (none,named row)
  | .array => (none,named row)
  | .object false => (some row.1,row.2)
  | .object true => (some row.1,named row)

-- What each reading makes of a record.
def canonicalVerdict (r : HostRecord) : Option (Option RemoteHost) := do
  let isLocal ← strictBool (r.read (·.isLocal))
  if isLocal then return none
  let enabled ← strictBool (r.read (·.enabled))
  let orphaned ← strictBool (r.read (·.orphaned))
  let phase ← strictPhase (r.read (·.phase))
  if enabled && !orphaned && phase ∈ eligiblePhases then
    let host ← remoteHost r.name phase
    return some host
  else return none

def fallbackVerdict (r : HostRecord) : Option (Option RemoteHost) := do
  let enabled ← strictBool (r.read (·.enabled))
  let isLocal ← strictBool (r.read (·.isLocal))
  if !enabled || isLocal then return none
  let phase ← strictPhase (r.read (·.phase))
  if phase ∈ eligiblePhases then
    let orphaned ← strictBool (r.read (·.orphaned))
    if orphaned then return none
    let host ← remoteHost r.name phase
    return some host
  else return none

section Reading

theorem get_append (row more : Fields) (key : String) : get (row ++ more) key = (get row key).or (get more key) := by
  rw [get,List.find?_append,Option.map_or]
  rfl

theorem get_entry (key : String) (value : Option Value) : get (entryOf key value) key = value := by
  cases value with
  | none => rfl
  | some value => simp [get,entryOf]

theorem get_other (apart : str key ≠ str other) (value : Option Value) : get (entryOf key value) other = none := by
  cases value with
  | none => rfl
  | some value => simp [get,entryOf,apart]

theorem get_named (apart : str "name" ≠ str key) (row : Text × Fields) : get (named row) key = get row.2 key := by
  simp [get,named,apart]

theorem flags_enabled (r : HostRecord) : get r.flags "enabled" = r.enabled := by
  rw [HostRecord.flags,get_append,get_entry,get_other (by decide),Option.or_none]

theorem flags_local (r : HostRecord) : get r.flags "local" = r.isLocal := by
  rw [HostRecord.flags,get_append,get_entry,get_other (by decide),Option.none_or]

theorem flags_other (r : HostRecord) (enabled : str "enabled" ≠ str key) (isLocal : str "local" ≠ str key) : get r.flags key = none := by
  rw [HostRecord.flags,get_append,get_other enabled,get_other isLocal]
  rfl

theorem state_phase (r : HostRecord) : get r.stateFields "phase" = r.phase := by
  rw [HostRecord.stateFields,get_append,get_entry,get_other (by decide),Option.or_none]

theorem state_orphaned (r : HostRecord) : get r.stateFields "orphaned" = r.orphaned := by
  rw [HostRecord.stateFields,get_append,get_entry,get_other (by decide),Option.none_or]

theorem state_other (r : HostRecord) (phase : str "phase" ≠ str key) (orphaned : str "orphaned" ≠ str key) :
    get r.stateFields key = none := by
  rw [HostRecord.stateFields,get_append,get_other phase,get_other orphaned]
  rfl

theorem config_entry (flags : Fields) : get [(str "config",Value.dict flags)] "config" = some (.dict flags) := by simp [get]

theorem config_other (flags : Fields) (apart : str "config" ≠ str key) : get [(str "config",Value.dict flags)] key = none := by
  simp [get,apart]

theorem placed_other (placement : Placement) (r : HostRecord) (enabled : str "enabled" ≠ str key) (isLocal : str "local" ≠ str key)
    (config : str "config" ≠ str key) : get (placement.fields r.flags) key = none := by
  cases placement with
  | beside => exact flags_other r enabled isLocal
  | inside => exact config_other r.flags config
  | both =>
    rw [Placement.fields,get_append,flags_other r enabled isLocal,config_other r.flags config]
    rfl

theorem placed_flags (placement : Placement) (r : HostRecord) : ∃ config,
    configOf (placement.fields r.flags) = some config ∧
    getD (placement.fields r.flags) "local" (getD config "local" .null) = r.read (·.isLocal) ∧
    getD config "enabled" (getD (placement.fields r.flags) "enabled" .null) = r.read (·.enabled) := by
  have apart : get r.flags "config" = none := flags_other r (by decide) (by decide)
  have outside := config_entry r.flags
  have noLocal := config_other r.flags (by decide : str "config" ≠ str "local")
  have noEnabled := config_other r.flags (by decide : str "config" ≠ str "enabled")
  cases placement with
  | beside =>
    refine ⟨[],?_,?_,?_⟩
    · simp [configOf,getD,Placement.fields,apart]
    · rw [getD,Placement.fields,flags_local]
      rfl
    · rw [Placement.fields,getD,getD,flags_enabled]
      rfl
  | inside =>
    refine ⟨r.flags,?_,?_,?_⟩
    · simp [configOf,getD,Placement.fields,outside]
    · rw [getD,Placement.fields,noLocal,getD,flags_local]
      rfl
    · rw [getD,flags_enabled,Placement.fields,getD,noEnabled]
      rfl
  | both =>
    refine ⟨r.flags,?_,?_,?_⟩
    · simp [configOf,getD,Placement.fields,get_append,apart,outside]
    · rw [getD,Placement.fields,get_append,flags_local,noLocal,Option.or_none,getD,flags_local,HostRecord.read]
      cases r.isLocal <;> rfl
    · rw [getD,flags_enabled,Placement.fields,getD,get_append,flags_enabled,noEnabled,Option.or_none,HostRecord.read]
      cases r.enabled <;> rfl

theorem canonicalHost_merged (placement : Placement) (r : HostRecord) : canonicalHost r.name (r.merged placement).2 = canonicalVerdict r := by
  obtain ⟨config,found,isLocal,enabled⟩ := placed_flags placement r
  have fields (key : String) : get (r.merged placement).2 key = (get r.stateFields key).or (get (placement.fields r.flags) key) :=
    get_append _ _ key
  have beside (key : String) (phase : str "phase" ≠ str key) (orphaned : str "orphaned" ≠ str key) :
      get (r.merged placement).2 key = get (placement.fields r.flags) key := by
    rw [fields,state_other r phase orphaned,Option.none_or]
  have phase : getD (r.merged placement).2 "phase" .null = r.read (·.phase) := by
    rw [getD,fields,state_phase,placed_other placement r (by decide) (by decide) (by decide),Option.or_none,HostRecord.read]
  have orphaned : getD (r.merged placement).2 "orphaned" .null = r.read (·.orphaned) := by
    rw [getD,fields,state_orphaned,placed_other placement r (by decide) (by decide) (by decide),Option.or_none,HostRecord.read]
  have configured : configOf (r.merged placement).2 = some config := by
    rw [← found,configOf,configOf,getD,getD,beside "config" (by decide) (by decide)]
  rw [getD,← beside "local" (by decide) (by decide),← getD] at isLocal
  rw [getD.eq_1 (placement.fields r.flags) "enabled",← beside "enabled" (by decide) (by decide),← getD] at enabled
  unfold canonicalHost canonicalVerdict
  rw [configured]
  simp only [Option.bind_eq_bind,Option.bind_some,isLocal,enabled,phase,orphaned]

theorem canonicalHost_named (row : Text × Fields) (name : Text) : canonicalHost name (named row) = canonicalHost name row.2 := by
  unfold canonicalHost configOf getD
  rw [get_named (by decide),get_named (by decide),get_named (by decide),get_named (by decide),get_named (by decide)]

end Reading

section Inventories
variable {rows : List (Text × Fields)}

theorem screen_all {α β : Type} (f : α → β) (xs : List α) : screen (fun x => some (some (f x))) xs = some (xs.map f) := by
  rw [screen_some fun _ _ => Option.some_ne_none _]
  simp

theorem container_rows (form : Form) (rows : List (Text × Fields)) : inventoryContainer (form.inventory rows) =
    if maxHosts < rows.length then none else some (rows.map form.row) := by
  have hosts (value : Value) : get [(str "hosts",value)] "hosts" = some value := by simp [get]
  have array : inventoryRows (some (.list (rows.map fun row => Value.dict (named row)))) =
      if maxHosts < rows.length then none else some (rows.map fun row => (none,named row)) := by
    rw [inventoryRows,List.length_map,screen_map]
    congr 1
    exact screen_all _ rows
  have object (content : Text × Fields → Fields) :
      inventoryRows (some (.dict (rows.map fun row => (row.1,Value.dict (content row))))) =
      if maxHosts < rows.length then none else some (rows.map fun row => (some row.1,content row)) := by
    rw [inventoryRows,List.length_map,screen_map]
    congr 1
    exact screen_all _ rows
  cases form with
  | bare => exact array
  | array => exact (congrArg inventoryRows (hosts _)).trans array
  | object shown =>
    cases shown with
    | false => exact (congrArg inventoryRows (hosts _)).trans (object Prod.snd)
    | true => exact (congrArg inventoryRows (hosts _)).trans (object named)

-- Rows that can stand in an inventory: a valid alias each, no two alike, and no name of their own.
structure Rows (rows : List (Text × Fields)) : Prop where
  valid : ∀ row ∈ rows, validAlias row.1 = true
  nameless : ∀ row ∈ rows, get row.2 "name" = none
  distinct : (rows.map fun row => casefold row.1).Nodup

theorem Rows.tail (fine : Rows (row :: rest)) : Rows rest :=
  ⟨fun other inside => fine.valid other (List.mem_cons_of_mem _ inside),
    fun other inside => fine.nameless other (List.mem_cons_of_mem _ inside),(List.nodup_cons.mp fine.distinct).2⟩

theorem Rows.fresh_tail (fine : Rows (row :: rest)) (fresh : ∀ other ∈ row :: rest, casefold other.1 ∉ aliases) :
    ∀ other ∈ rest, casefold other.1 ∉ casefold row.1 :: aliases := by
  intro other inside
  obtain ⟨apart,_⟩ := List.nodup_cons.mp fine.distinct
  rw [List.mem_cons,not_or]
  exact ⟨fun same => apart (List.mem_map.mpr ⟨other,inside,same⟩),fresh other (List.mem_cons_of_mem _ inside)⟩

theorem row_alias (form : Form) (valid : validAlias row.1 = true) (nameless : get row.2 "name" = none) :
    rowAlias (form.row row).1 (form.row row).2 = some row.1 := by
  have own : getD (named row) "name" .null = .text row.1 := by simp [getD,get,named]
  have absent : getD row.2 "name" .null = .null := by rw [getD,nameless]; rfl
  cases form with
  | bare => simp [rowAlias,Form.row,own,validateAlias,valid]
  | array => simp [rowAlias,Form.row,own,validateAlias,valid]
  | object shown => cases shown <;> simp [rowAlias,Form.row,own,absent,validateAlias,valid]

theorem row_canonical (form : Form) (row : Text × Fields) (name : Text) :
    canonicalHost name (form.row row).2 = canonicalHost name row.2 := by
  cases form with
  | bare => exact canonicalHost_named row name
  | array => exact canonicalHost_named row name
  | object shown =>
    cases shown with
    | false => rfl
    | true => exact canonicalHost_named row name

theorem canonicalLoop_rows (form : Form) (fine : Rows rows) (aliases : List Text) (fresh : ∀ row ∈ rows, casefold row.1 ∉ aliases)
    (eligible : List RemoteHost) : canonicalLoop (rows.map form.row) aliases eligible =
      (screen (fun row => canonicalHost row.1 row.2) rows).map (eligible ++ ·) := by
  induction rows generalizing aliases eligible with
  | nil => simp [canonicalLoop,screen]
  | cons row rest ih =>
    have named := row_alias form (fine.valid row List.mem_cons_self) (fine.nameless row List.mem_cons_self)
    have registered : registerAlias row.1 aliases = some (casefold row.1 :: aliases) := if_neg (fresh row List.mem_cons_self)
    have later := fine.fresh_tail fresh
    have shape : form.row row = ((form.row row).1,(form.row row).2) := rfl
    rw [List.map_cons,shape,canonicalLoop,named,Option.bind_eq_bind,Option.bind_some,registered,Option.bind_eq_bind,Option.bind_some,
      row_canonical,screen]
    cases canonicalHost row.1 row.2 with
    | none => rfl
    | some host =>
      simp only [Option.bind_eq_bind,Option.bind_some]
      rw [ih fine.tail _ later]
      cases screen (fun row => canonicalHost row.1 row.2) rest <;> simp

theorem normalizeRows_rows (form : Form) (fine : Rows rows) (aliases : List Text) (fresh : ∀ row ∈ rows, casefold row.1 ∉ aliases) :
    normalizeRows (rows.map form.row) aliases = some (rows.map fun row => (row.1,(form.row row).2)) := by
  induction rows generalizing aliases with
  | nil => rfl
  | cons row rest ih =>
    have named := row_alias form (fine.valid row List.mem_cons_self) (fine.nameless row List.mem_cons_self)
    have registered : registerAlias row.1 aliases = some (casefold row.1 :: aliases) := if_neg (fresh row List.mem_cons_self)
    have later := fine.fresh_tail fresh
    have shape : form.row row = ((form.row row).1,(form.row row).2) := rfl
    rw [List.map_cons,shape,normalizeRows,named,Option.bind_eq_bind,Option.bind_some,registered,Option.bind_eq_bind,Option.bind_some,
      ih fine.tail _ later]
    rfl

end Inventories

section Records
variable {records : List HostRecord} {r : HostRecord}

-- Records with valid aliases that differ in more than case.
structure Records (records : List HostRecord) : Prop where
  valid : ∀ r ∈ records, validAlias r.name = true
  distinct : (records.map fun r => casefold r.name).Nodup

theorem Records.perm (fine : Records records) (perm : others.Perm records) : Records others :=
  ⟨fun r inside => fine.valid r (perm.mem_iff.mp inside),(perm.map _).nodup_iff.mpr fine.distinct⟩

theorem Records.rows (fine : Records records) (row : HostRecord → Text × Fields) (named : ∀ r, (row r).1 = r.name)
    (nameless : ∀ r, get (row r).2 "name" = none) : Rows (records.map row) := by
  refine ⟨fun other inside => ?_,fun other inside => ?_,?_⟩
  · obtain ⟨r,among,rfl⟩ := List.mem_map.mp inside
    rw [named]
    exact fine.valid r among
  · obtain ⟨r,_,rfl⟩ := List.mem_map.mp inside
    exact nameless r
  · rw [List.map_map]
    simpa only [Function.comp_def,named] using fine.distinct

theorem merged_nameless (placement : Placement) (r : HostRecord) : get (r.merged placement).2 "name" = none := by
  rw [HostRecord.merged,get_append,state_other r (by decide) (by decide),placed_other placement r (by decide) (by decide) (by decide)]
  rfl

theorem hostsFromCanonical_records (fine : Records records) (placed : HostRecord → Placement) (form : Form) :
    hostsFromCanonical (form.inventory (records.map fun r => r.merged (placed r))) =
      if maxHosts < records.length then none else (screen canonicalVerdict records).map sortHosts := by
  have rows : Rows (records.map fun r => r.merged (placed r)) :=
    fine.rows _ (fun _ => rfl) fun r => merged_nameless (placed r) r
  have looped := canonicalLoop_rows form rows [] (fun _ _ => List.not_mem_nil) []
  rw [screen_map] at looped
  have judged : ((fun row : Text × Fields => canonicalHost row.1 row.2) ∘ fun r => r.merged (placed r)) = canonicalVerdict :=
    funext fun r => canonicalHost_merged (placed r) r
  rw [judged] at looped
  rw [hostsFromCanonical,container_rows,List.length_map]
  split
  · rfl
  · rw [Option.bind_eq_bind,Option.bind_some,looped]
    cases screen canonicalVerdict records <;> rfl

theorem fallbackRows_records (fine : Records records) (row : HostRecord → Text × Fields) (named : ∀ r, (row r).1 = r.name)
    (nameless : ∀ r, get (row r).2 "name" = none) (form : Form) : fallbackRows (form.inventory (records.map row)) =
      if maxHosts < records.length then none else some (records.map fun r => (r.name,(form.row (row r)).2)) := by
  rw [fallbackRows,container_rows,List.length_map]
  split
  · rfl
  · rw [Option.bind_eq_bind,Option.bind_some,normalizeRows_rows form (fine.rows row named nameless) [] fun _ _ => List.not_mem_nil,
      List.map_map]
    simp only [Function.comp_def,named]

theorem form_get (form : Form) (row : Text × Fields) (apart : str "name" ≠ str key) : get (form.row row).2 key = get row.2 key := by
  cases form with
  | bare => exact get_named apart row
  | array => exact get_named apart row
  | object shown =>
    cases shown with
    | false => rfl
    | true => exact get_named apart row

theorem stateEntry_record (fine : Records records) (inside : r ∈ records) (fields : HostRecord → Fields) :
    stateEntry (records.map fun r => (r.name,fields r)) r.name = some (r.name,fields r) := by
  induction records with
  | nil => cases inside
  | cons first rest ih =>
    obtain ⟨apart,distinct⟩ := List.nodup_cons.mp fine.distinct
    rw [List.map_cons,stateEntry]
    rcases List.mem_cons.mp inside with rfl | later
    · exact List.find?_cons_of_pos (by simp)
    · have other : casefold first.name ≠ casefold r.name := fun same => apart (List.mem_map.mpr ⟨r,later,same.symm⟩)
      rw [List.find?_cons_of_neg (by simpa using other)]
      exact ih ⟨fun r among => fine.valid r (List.mem_cons_of_mem _ among),distinct⟩ later

theorem fallbackHost_record (fine : Records records) (inside : r ∈ records) (configForm stateForm : Form) :
    fallbackHost (records.map fun r => (r.name,(stateForm.row r.state).2)) (r.name,(configForm.row r.config).2) = fallbackVerdict r := by
  have enabled : getD (configForm.row r.config).2 "enabled" .null = r.read (·.enabled) := by
    rw [getD,form_get configForm _ (by decide)]
    exact congrArg (·.getD .null) (flags_enabled r)
  have isLocal : getD (configForm.row r.config).2 "local" .null = r.read (·.isLocal) := by
    rw [getD,form_get configForm _ (by decide)]
    exact congrArg (·.getD .null) (flags_local r)
  have phase : getD (stateForm.row r.state).2 "phase" .null = r.read (·.phase) := by
    rw [getD,form_get stateForm _ (by decide)]
    exact congrArg (·.getD .null) (state_phase r)
  have orphaned : getD (stateForm.row r.state).2 "orphaned" .null = r.read (·.orphaned) := by
    rw [getD,form_get stateForm _ (by decide)]
    exact congrArg (·.getD .null) (state_orphaned r)
  unfold fallbackHost fallbackVerdict
  simp only [stateEntry_record fine inside fun r => (stateForm.row r.state).2,ne_eq,not_true_eq_false,if_false,enabled,isLocal,
    phase,orphaned]

theorem hostsFromFallback_records (configs : Records cs) (states : Records ss) (same : ∀ r, r ∈ cs → r ∈ ss)
    (length : cs.length = ss.length) (configForm stateForm : Form) :
    hostsFromFallback (configForm.inventory (cs.map HostRecord.config)) (stateForm.inventory (ss.map HostRecord.state)) =
      if maxHosts < cs.length then none else (screen fallbackVerdict cs).map sortHosts := by
  have configRows := fallbackRows_records configs HostRecord.config (fun _ => rfl)
    (fun r => flags_other r (by decide) (by decide)) configForm
  have stateRows := fallbackRows_records states HostRecord.state (fun _ => rfl)
    (fun r => state_other r (by decide) (by decide)) stateForm
  rw [hostsFromFallback,configRows,stateRows,← length]
  split
  · rfl
  · have judged : screen (fallbackHost (ss.map fun r => (r.name,(stateForm.row r.state).2)))
        (cs.map fun r => (r.name,(configForm.row r.config).2)) = screen fallbackVerdict cs := by
      rw [screen_map]
      exact screen_congr fun r inside => fallbackHost_record states (same r inside) configForm stateForm
    rw [Option.bind_eq_bind,Option.bind_some,Option.bind_eq_bind,Option.bind_some,judged]
    cases screen fallbackVerdict cs <;> rfl

end Records

section Verdicts
variable {r : HostRecord} {records l ms cs ss : List HostRecord} {verdict : HostRecord → Option (Option RemoteHost)}

theorem remoteHost_some (valid : validAlias name = true) (eligible : phase ∈ eligiblePhases) :
    remoteHost name phase = if casefold name = str "local" then none else some ⟨name,phase⟩ := by
  by_cases reserved : casefold name = str "local" <;> simp [remoteHost,valid,eligible,reserved]

theorem canonicalVerdict_fine (valid : validAlias r.name = true) : canonicalVerdict r ≠ none ↔ r.CanonicalFine := by
  rw [canonicalVerdict,HostRecord.CanonicalFine,HostRecord.eligible]
  cases strictBool (r.read (·.isLocal)) with
  | none => simp
  | some isLocal =>
    cases isLocal with
    | true => simp
    | false =>
      cases strictBool (r.read (·.enabled)) with
      | none => simp
      | some enabled =>
        cases strictBool (r.read (·.orphaned)) with
        | none => simp
        | some orphaned =>
          cases strictPhase (r.read (·.phase)) with
          | none => simp
          | some phase =>
            by_cases eligible : phase ∈ eligiblePhases
            · cases enabled <;> cases orphaned <;> simp [eligible,remoteHost_some valid eligible]
            · simp [eligible]

theorem fallbackVerdict_fine (valid : validAlias r.name = true) : fallbackVerdict r ≠ none ↔ r.FallbackFine := by
  rw [fallbackVerdict,HostRecord.FallbackFine,HostRecord.eligible]
  cases strictBool (r.read (·.enabled)) with
  | none => simp
  | some enabled =>
    cases strictBool (r.read (·.isLocal)) with
    | none => simp
    | some isLocal =>
      cases enabled with
      | false => simp
      | true =>
        cases isLocal with
        | true => simp
        | false =>
          cases strictPhase (r.read (·.phase)) with
          | none => simp
          | some phase =>
            by_cases eligible : phase ∈ eligiblePhases
            · cases strictBool (r.read (·.orphaned)) with
              | none => simp [eligible]
              | some orphaned => cases orphaned <;> simp [eligible,remoteHost_some valid eligible]
            · simp [eligible]

-- The host of a record, where its values make one.
def HostRecord.host (r : HostRecord) : Option RemoteHost :=
  (strictPhase (r.read (·.phase))).bind fun phase =>
    if strictBool (r.read (·.isLocal)) = some false ∧ strictBool (r.read (·.enabled)) = some true ∧
      strictBool (r.read (·.orphaned)) = some false ∧ phase ∈ eligiblePhases then some ⟨r.name,phase⟩ else none

theorem host_named (made : r.host = some host) : host.hostAlias = r.name := by
  obtain ⟨phase,_,chosen⟩ := Option.bind_eq_some_iff.mp made
  split at chosen
  · exact Option.some.inj chosen ▸ rfl
  · cases chosen

theorem canonicalVerdict_host (valid : validAlias r.name = true) : canonicalVerdict r = none ∨ canonicalVerdict r = some r.host := by
  rw [canonicalVerdict,HostRecord.host]
  cases strictBool (r.read (·.isLocal)) with
  | none => exact .inl rfl
  | some isLocal =>
    cases isLocal with
    | true => simp
    | false =>
      cases strictBool (r.read (·.enabled)) with
      | none => exact .inl rfl
      | some enabled =>
        cases strictBool (r.read (·.orphaned)) with
        | none => exact .inl rfl
        | some orphaned =>
          cases strictPhase (r.read (·.phase)) with
          | none => exact .inl rfl
          | some phase =>
            by_cases eligible : phase ∈ eligiblePhases
            · by_cases reserved : casefold r.name = str "local" <;> cases enabled <;> cases orphaned <;>
                simp [eligible,reserved,remoteHost_some valid eligible]
            · simp [eligible]

theorem fallbackVerdict_host (valid : validAlias r.name = true) : fallbackVerdict r = none ∨ fallbackVerdict r = some r.host := by
  rw [fallbackVerdict,HostRecord.host]
  cases strictBool (r.read (·.enabled)) with
  | none => exact .inl rfl
  | some enabled =>
    cases strictBool (r.read (·.isLocal)) with
    | none => exact .inl rfl
    | some isLocal =>
      cases strictPhase (r.read (·.phase)) with
      | none => cases enabled <;> cases isLocal <;> simp
      | some phase =>
        by_cases eligible : phase ∈ eligiblePhases
        · cases strictBool (r.read (·.orphaned)) with
          | none => cases enabled <;> cases isLocal <;> simp [eligible]
          | some orphaned =>
            by_cases reserved : casefold r.name = str "local" <;> cases enabled <;> cases isLocal <;> cases orphaned <;>
              simp [eligible,reserved,remoteHost_some valid eligible]
        · cases enabled <;> cases isLocal <;> simp [eligible]

theorem verdict_records (fine : Records records) (settled : ∀ r ∈ records, verdict r = none ∨ verdict r = some r.host)
    (perm : l.Perm records) : (screen verdict l).map sortHosts =
      if ∀ r ∈ records, verdict r ≠ none then some (sortHosts (records.filterMap HostRecord.host)) else none := by
  split
  next accepted =>
    have taken : ∀ r ∈ l, verdict r = some r.host := fun r inside =>
      (settled r (perm.mem_iff.mp inside)).resolve_left (accepted r (perm.mem_iff.mp inside))
    have hosts : l.filterMap (fun r => (verdict r).join) = l.filterMap HostRecord.host :=
      List.filterMap_congr fun r inside => by rw [taken r inside]; rfl
    rw [screen_some fun r inside => accepted r (perm.mem_iff.mp inside),hosts]
    apply congrArg some
    apply sortBy_congr (perm.filterMap _)
    intro host inHosts other inOthers same
    obtain ⟨r,among,made⟩ := List.mem_filterMap.mp inHosts
    obtain ⟨s,amongOther,madeOther⟩ := List.mem_filterMap.mp inOthers
    have named : casefold r.name = casefold s.name := by
      rw [← host_named made,← host_named madeOther]
      exact congrArg (fun key : Text ×ₗ Text => (ofLex key).1) same
    have one : r = s := List.inj_on_of_nodup_map fine.distinct (perm.mem_iff.mp among) (perm.mem_iff.mp amongOther) named
    rw [one] at made
    exact Option.some.inj (made.symm.trans madeOther)
  next refused =>
    push Not at refused
    obtain ⟨r,inside,refusal⟩ := refused
    rw [screen_none (perm.mem_iff.mpr inside) refusal]
    rfl

theorem strict_alike (strict : r.Strict) : r.CanonicalFine ↔ r.FallbackFine := by
  obtain ⟨isLocal,isLocalRead⟩ := Option.isSome_iff_exists.mp strict.isLocal
  obtain ⟨enabled,enabledRead⟩ := Option.isSome_iff_exists.mp strict.enabled
  obtain ⟨orphaned,orphanedRead⟩ := Option.isSome_iff_exists.mp strict.orphaned
  rw [HostRecord.CanonicalFine,HostRecord.FallbackFine,isLocalRead,enabledRead,orphanedRead]
  cases isLocal <;> cases enabled <;> cases orphaned <;> simp [strict.phase]

-- However the records are ordered, placed and framed, the two readings come to the same
-- exactly where there are too many of them or both or neither is satisfied with them all;
-- whenever both yield hosts, the hosts are the same.
theorem inventories_exact (fine : Records records) (merged : ms.Perm records) (configs : cs.Perm records) (states : ss.Perm records)
    (placed : HostRecord → Placement) (form configForm stateForm : Form) :
    (hostsFromCanonical (form.inventory (ms.map fun r => r.merged (placed r))) =
        hostsFromFallback (configForm.inventory (cs.map HostRecord.config)) (stateForm.inventory (ss.map HostRecord.state)) ↔
      maxHosts < records.length ∨ ((∀ r ∈ records, r.CanonicalFine) ↔ ∀ r ∈ records, r.FallbackFine)) ∧
    (∀ hosts others, hostsFromCanonical (form.inventory (ms.map fun r => r.merged (placed r))) = some hosts →
      hostsFromFallback (configForm.inventory (cs.map HostRecord.config)) (stateForm.inventory (ss.map HostRecord.state)) = some others →
      hosts = others) ∧
    ((∀ r ∈ records, r.Strict) → hostsFromCanonical (form.inventory (ms.map fun r => r.merged (placed r))) =
      hostsFromFallback (configForm.inventory (cs.map HostRecord.config)) (stateForm.inventory (ss.map HostRecord.state))) := by
  have canonicalAll : (∀ r ∈ records, canonicalVerdict r ≠ none) ↔ ∀ r ∈ records, r.CanonicalFine :=
    forall₂_congr fun r inside => canonicalVerdict_fine (fine.valid r inside)
  have fallbackAll : (∀ r ∈ records, fallbackVerdict r ≠ none) ↔ ∀ r ∈ records, r.FallbackFine :=
    forall₂_congr fun r inside => fallbackVerdict_fine (fine.valid r inside)
  have canonical := hostsFromCanonical_records (fine.perm merged) placed form
  have fallback := hostsFromFallback_records (fine.perm configs) (fine.perm states)
    (fun r inside => states.mem_iff.mpr (configs.mem_iff.mp inside)) (configs.length_eq.trans states.length_eq.symm) configForm stateForm
  rw [verdict_records fine (fun r inside => canonicalVerdict_host (fine.valid r inside)) merged,merged.length_eq] at canonical
  rw [verdict_records fine (fun r inside => fallbackVerdict_host (fine.valid r inside)) configs,configs.length_eq] at fallback
  have alike (strict : ∀ r ∈ records, r.Strict) : (∀ r ∈ records, canonicalVerdict r ≠ none) ↔ ∀ r ∈ records, fallbackVerdict r ≠ none :=
    (canonicalAll.trans (forall₂_congr fun r inside => strict_alike (strict r inside))).trans fallbackAll.symm
  rw [canonical,fallback,← canonicalAll,← fallbackAll]
  by_cases many : maxHosts < records.length
  · simp [many]
  · rw [if_neg many,if_neg many]
    by_cases first : ∀ r ∈ records, canonicalVerdict r ≠ none
    · by_cases second : ∀ r ∈ records, fallbackVerdict r ≠ none
      · rw [if_pos first,if_pos second]
        exact ⟨iff_of_true rfl (.inr (iff_of_true first second)),fun hosts others one two => Option.some.inj (one.symm.trans two),
          fun _ => rfl⟩
      · rw [if_pos first,if_neg second]
        exact ⟨iff_of_false nofun fun either => second ((either.resolve_left many).mp first),nofun,
          fun strict => absurd ((alike strict).mp first) second⟩
    · by_cases second : ∀ r ∈ records, fallbackVerdict r ≠ none
      · rw [if_neg first,if_pos second]
        exact ⟨iff_of_false nofun fun either => first ((either.resolve_left many).mpr second),nofun,
          fun strict => absurd ((alike strict).mpr second) first⟩
      · rw [if_neg first,if_neg second]
        exact ⟨iff_of_true rfl (.inr (iff_of_false first second)),nofun,fun _ => rfl⟩

end Verdicts

def demoRecord (name phase : String) (isLocal enabled orphaned : Bool) : HostRecord :=
  ⟨str name,some (.text (str phase)),some (.bool isLocal),some (.bool enabled),some (.bool orphaned)⟩

def demoRecords : List HostRecord :=
  [demoRecord "edge" "ready" false true false,demoRecord "Core" "running" false true false,demoRecord "gone" "ready" false true true]

theorem demoRecords_fine : Records demoRecords := ⟨by decide,by decide⟩

theorem demo_inventories : hostsFromFallback (Form.bare.inventory (demoRecords.map HostRecord.config))
    (Form.array.inventory (demoRecords.reverse.map HostRecord.state)) = some [⟨str "Core",str "running"⟩,⟨str "edge",str "ready"⟩] := by
  have strict : ∀ r ∈ demoRecords, r.Strict := by
    intro r inside
    simp only [demoRecords,List.mem_cons,List.not_mem_nil,or_false] at inside
    obtain rfl | rfl | rfl := inside <;> exact ⟨rfl,rfl,rfl,rfl⟩
  have alike := (inventories_exact demoRecords_fine (List.Perm.refl _) (List.Perm.refl _) (List.reverse_perm _) (fun _ => .inside)
    (.object false) .bare .array).2.2 strict
  rw [← alike,hostsFromCanonical_records demoRecords_fine]
  have taken : screen canonicalVerdict demoRecords = some [⟨str "edge",str "ready"⟩,⟨str "Core",str "running"⟩] := by decide +kernel
  have swapped : sortHosts [⟨str "edge",str "ready"⟩,⟨str "Core",str "running"⟩] =
      sortHosts [⟨str "Core",str "running"⟩,⟨str "edge",str "ready"⟩] := sortBy_congr (List.Perm.swap _ _ _) (by decide)
  rw [if_neg (by decide),taken,Option.map_some,swapped]
  exact congrArg some (sortBy_id (by decide))

-- A disabled host whose phase is not known: the canonical reading refuses the inventory, the
-- fallback leaves the host out.
theorem disabled_without_phase : ¬ ∀ records : List HostRecord, Records records → ∀ (placement : Placement) (form configForm stateForm : Form),
    hostsFromCanonical (form.inventory (records.map fun r => r.merged placement)) =
      hostsFromFallback (configForm.inventory (records.map HostRecord.config)) (stateForm.inventory (records.map HostRecord.state)) := by
  intro claimed
  have record : Records [⟨str "edge",none,some (.bool false),some (.bool false),some (.bool false)⟩] := ⟨by decide,by decide⟩
  exact absurd (claimed _ record .beside .array .array .array) (by decide +kernel)

end AgentSideCar.Inventory
