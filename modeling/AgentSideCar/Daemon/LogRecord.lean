import AgentSideCar.Library.Json
import AgentSideCar.Library.Lines
import Mathlib.Algebra.Group.Nat.Defs

namespace AgentSideCar.DaemonLog
open Json (Scalar Fields)

abbrev Text := List Char

def schemaVersion : Int := 1
def maxLineBytes : Nat := 4 * 1024
def maxBackups : Nat := 3

def identifierChar (c : Char) : Bool := c.isAlphanum || c = '_' || c = '.' || c = ':' || c = '-'
def identifier : Text → Bool
  | [] => false
  | c :: rest => c.isAlphanum && rest.all identifierChar

def levels : List String := ["debug","info","warning","error","critical"]
def stringLimit (name : String) : Option Nat :=
  [("component",48),("event",64),("level",16),("version",64),("adapter",64),("agent",64),("code",128),("stage",64)].lookup name
def optionalFields : List String := ["component","level","http_enabled","http_port","count","adapter","agent","session_id",
  "code","stage","timed_out"]
def requiredFields : List String := ["schema_version","ts","ts_epoch","component","event","level","version","pid"]

-- A value as the caller passes it; the last is of any other type.
inductive Value where
  | text (value : String)
  | bool (value : Bool)
  | int (value : Int)
  | other

def safeIdentifier (value : Value) (limit : Nat) (fallback : String) : String :=
  match value with
  | .text s => if s.length ≤ limit ∧ identifier s.toList = true then s else fallback
  | _ => fallback

structure Options where
  version : Value
  maxBytes : Nat := 2 * 1024 * 1024
  backups : Nat := 2
  lineBytes : Nat := maxLineBytes
  bounds : 0 < maxBytes ∧ 0 < lineBytes ∧ lineBytes ≤ maxLineBytes ∧ backups ≤ maxBackups

-- What the process is told by its surroundings: its id, the sixteen hex digits it takes of a
-- digest, and the time, as isoformat writes it and as the literal of a float. A float below
-- ten to the sixteenth is written without an exponent.
structure Surroundings where
  pid : {pid : Int // 0 < pid}
  digest : String → {hex : String // Json.Plain hex}
  ts : {ts : String // Json.Plain ts}
  epoch : Fin (10 ^ 16)
  places : Json.Places

section Record
variable (o : Options) (w : Surroundings)

def sessionIdentifier (value : Value) : String :=
  match value with
  | .text s => if s = "" then "unknown" else "sha256:" ++ (w.digest s).val
  | _ => "unknown"

-- What one given field becomes, if anything.
def normalized (name : String) (value : Value) : Option Scalar :=
  match stringLimit name with
  | some limit =>
    let safe := safeIdentifier value limit "unknown"
    some (.text (if name = "level" ∧ safe ∉ levels then "info" else safe))
  | none =>
    if name = "session_id" then some (.text (sessionIdentifier w value))
    else match value with
      | .bool b => if name = "http_enabled" ∨ name = "timed_out" then some (.bool b) else none
      | .int n =>
        if name = "http_port" then some (.int (min 65535 (max 0 n)))
        else if name = "count" then some (.int (min 1000000000 (max 0 n)))
        else none
      | _ => none

def fixed (event : Value) (name : String) : Option Scalar :=
  if name = "schema_version" then some (.int schemaVersion)
  else if name = "ts" then some (.text w.ts.val)
  else if name = "ts_epoch" then some (.float false w.epoch w.places)
  else if name = "component" then some (.text "daemon")
  else if name = "event" then some (.text (safeIdentifier event 64 "unknown"))
  else if name = "level" then some (.text "info")
  else if name = "version" then some (.text (safeIdentifier o.version 64 ""))
  else if name = "pid" then some (.int w.pid.val)
  else none

def fieldOf (event : Value) (fields : List (String × Value)) (name : String) : Option Scalar :=
  ((if name ∈ optionalFields then fields.lookup name else none).bind (normalized w name)).or (fixed o w event name)

-- The keys in the order that sort_keys puts them in.
def sortedNames : List String := ["adapter","agent","code","component","count","event","http_enabled","http_port","level","pid",
  "schema_version","session_id","stage","timed_out","ts","ts_epoch","version"]

def record (event : Value) (fields : List (String × Value)) : Fields :=
  sortedNames.filterMap fun name => (fieldOf o w event fields name).map (name,·)

end Record

def isText : Option Scalar → Bool
  | some (.text _) => true
  | _ => false

-- The first integer that rounds to no finite double.
def doubleLimit : Nat := 2 ^ 1024 - 2 ^ 970

def finite : Option Scalar → Bool
  | some (.int n) => n.natAbs < doubleLimit
  | some (.float _ whole _) => whole < doubleLimit
  | _ => false

def validOptional (name : String) (value : Scalar) : Bool :=
  if name = "http_enabled" ∨ name = "timed_out" then value matches .bool _
  else if name = "http_port" ∨ name = "count" then value matches .int _
  else value matches .text _

def validRecord (record : Fields) : Bool :=
  requiredFields.all (fun name => (record.lookup name).isSome)
    && record.all (fun field => field.1 ∈ requiredFields ∨ field.1 ∈ optionalFields)
    && record.lookup "schema_version" = some (.int schemaVersion)
    && (match record.lookup "pid" with | some (.int pid) => decide (0 < pid) | _ => false)
    && isText (record.lookup "ts") && finite (record.lookup "ts_epoch")
    && ["component","event","level","version"].all (fun name => isText (record.lookup name))
    && record.all (fun field => decide (field.1 ∈ requiredFields) || validOptional field.1 field.2)

-- json.loads of one line. A nested value, which no field may hold, refuses the line here.
def validateRecordLine (o : Options) (raw : Text) : Bool :=
  raw ≠ [] && raw.length + 1 ≤ o.lineBytes && (Json.loads raw).any validRecord

-- A record whose line the validator takes and reads back.
structure Written (o : Options) (r : Fields) : Prop where
  valid : validateRecordLine o (Json.dumps r) = true
  read : Json.loads (Json.dumps r) = some r
  clean : '\n' ∉ Json.dumps r

variable {o : Options} {w : Surroundings} {event : Value} {fields : List (String × Value)}

theorem identifier_plain (fits : identifier s.toList = true) : Json.Plain s := by
  have body : ∀ c, identifierChar c = true → Json.plain c = true := by
    intro c fits
    simp only [identifierChar,Bool.or_eq_true,decide_eq_true_eq] at fits
    rcases fits with (((fits | rfl) | rfl) | rfl) | rfl
    · exact Json.alphanum_plain fits
    all_goals decide
  intro c inside
  unfold identifier at fits
  split at fits
  · cases fits
  · rename_i first rest same
    simp only [Bool.and_eq_true,List.all_eq_true] at fits
    rw [same] at inside
    rcases List.mem_cons.mp inside with rfl | inside
    · exact Json.alphanum_plain fits.1
    · exact body c (fits.2 c inside)

theorem safeIdentifier_plain {value : Value} {fallback : String} (plain : Json.Plain fallback) :
    Json.Plain (safeIdentifier value limit fallback) := by
  unfold safeIdentifier
  split
  · split
    · rename_i fits
      exact identifier_plain fits.2
    · exact plain
  · exact plain

theorem unknown_plain : Json.Plain "unknown" := by decide

theorem normalized_plain {name : String} {value : Value} (given : normalized w name value = some scalar) : scalar.Plain := by
  unfold normalized at given
  split at given
  · cases given
    show Json.Plain _
    split
    · decide
    · exact safeIdentifier_plain unknown_plain
  split at given
  · cases given
    show Json.Plain (sessionIdentifier w value)
    unfold sessionIdentifier
    split
    · split
      · exact unknown_plain
      · intro c inside
        rw [String.toList_append,List.mem_append] at inside
        rcases inside with lead | hex
        · exact (by decide : Json.Plain "sha256:") c lead
        · exact (w.digest _).property c hex
    · exact unknown_plain
  split at given
  · split at given <;> cases given
    trivial
  · split at given
    · cases given
      trivial
    · split at given <;> cases given
      trivial
  · cases given

theorem fixed_plain {name : String} (given : fixed o w event name = some scalar) : scalar.Plain := by
  unfold fixed at given
  split at given
  · cases given; trivial
  split at given
  · cases given; exact w.ts.property
  split at given
  · cases given; trivial
  split at given
  · cases given; exact (by decide : Json.Plain "daemon")
  split at given
  · cases given; exact safeIdentifier_plain unknown_plain
  split at given
  · cases given; exact (by decide : Json.Plain "info")
  split at given
  · cases given; exact safeIdentifier_plain (by decide : Json.Plain "")
  split at given <;> cases given
  trivial

theorem fieldOf_plain {name : String} (given : fieldOf o w event fields name = some scalar) : scalar.Plain := by
  unfold fieldOf at given
  rcases Option.or_eq_some_iff.mp given with own | ⟨_,default⟩
  · obtain ⟨value,_,same⟩ := Option.bind_eq_some_iff.mp own
    exact normalized_plain same
  · exact fixed_plain default

theorem record_field {field : String × Scalar} (inside : field ∈ record o w event fields) :
    field.1 ∈ sortedNames ∧ fieldOf o w event fields field.1 = some field.2 := by
  obtain ⟨name,listed,given⟩ := List.mem_filterMap.mp inside
  obtain ⟨scalar,value,same⟩ := Option.map_eq_some_iff.mp given
  subst same
  exact ⟨listed,value⟩

theorem record_plain : ∀ field ∈ record o w event fields, Json.PlainField field := by
  intro field inside
  obtain ⟨listed,given⟩ := record_field inside
  refine ⟨?_,fieldOf_plain given⟩
  have names : ∀ name ∈ sortedNames, Json.Plain name := by decide
  exact names field.1 listed

theorem lookup_filterMap (f : String → Option Scalar) (names : List String) (unique : names.Nodup) (name : String) :
    (names.filterMap fun n => (f n).map (n,·)).lookup name = if name ∈ names then f name else none := by
  induction names with
  | nil => rfl
  | cons first rest ih =>
    obtain ⟨fresh,unique⟩ := List.nodup_cons.mp unique
    have later := ih unique
    rw [List.filterMap_cons]
    by_cases same : name = first
    · subst same
      rw [if_pos List.mem_cons_self]
      cases given : f name with
      | none => simpa [given,fresh] using later
      | some scalar => simp
    · have listed : (name ∈ first :: rest) = (name ∈ rest) := by simp [same]
      simp only [listed]
      cases f first with
      | none => exact later
      | some scalar => simpa [List.lookup_cons,beq_eq_false_iff_ne.mpr same] using later

theorem sortedNames_unique : sortedNames.Nodup := by decide

theorem record_lookup {name : String} (listed : name ∈ sortedNames) :
    (record o w event fields).lookup name = fieldOf o w event fields name := by
  rw [record,lookup_filterMap _ _ sortedNames_unique,if_pos listed]

theorem record_keys : ((record o w event fields).map Prod.fst).Nodup := by
  have names : (record o w event fields).map Prod.fst = sortedNames.filter fun name => (fieldOf o w event fields name).isSome := by
    unfold record
    induction sortedNames with
    | nil => rfl
    | cons first rest ih =>
      rw [List.filterMap_cons,List.filter_cons]
      cases fieldOf o w event fields first with
      | none => simpa using ih
      | some scalar => simpa using ih
  rw [names]
  exact sortedNames_unique.filter _

theorem limited_text {name : String} {value : Value} (limited : (stringLimit name).isSome = true)
    (given : normalized w name value = some scalar) : ∃ s, scalar = .text s := by
  obtain ⟨limit,found⟩ := Option.isSome_iff_exists.mp limited
  simp only [normalized,found] at given
  cases given
  exact ⟨_,rfl⟩

theorem fieldOf_text {name : String} (limited : (stringLimit name).isSome = true)
    (default : ∃ s, fixed o w event name = some (.text s)) : isText (fieldOf o w event fields name) = true := by
  obtain ⟨s,default⟩ := default
  cases given : fieldOf o w event fields name with
  | none => simp [fieldOf,default] at given
  | some scalar =>
    rcases Option.or_eq_some_iff.mp given with own | ⟨_,same⟩
    · obtain ⟨value,_,same⟩ := Option.bind_eq_some_iff.mp own
      obtain ⟨s,rfl⟩ := limited_text limited same
      rfl
    · rw [default] at same
      cases same
      rfl

theorem fieldOf_fixed {name : String} (required : name ∉ optionalFields) : fieldOf o w event fields name = fixed o w event name := by
  simp [fieldOf,required]

theorem normalized_valid {name : String} {value : Value} (listed : name ∈ optionalFields)
    (given : normalized w name value = some scalar) : validOptional name scalar = true := by
  have kinds : ∀ name ∈ optionalFields, (stringLimit name).isSome = true ∧ name ≠ "http_enabled" ∧ name ≠ "timed_out" ∧
      name ≠ "http_port" ∧ name ≠ "count" ∨ stringLimit name = none := by decide
  unfold normalized at given
  rcases kinds name listed with ⟨limited,a,b,c,d⟩ | none'
  · obtain ⟨s,rfl⟩ := limited_text limited given
    simp [validOptional,a,b,c,d]
  · rw [none'] at given
    simp only at given
    split at given
    · rename_i same
      cases given
      subst same
      rfl
    split at given
    · split at given <;> cases given
      rename_i same
      rcases same with rfl | rfl <;> rfl
    · split at given
      · rename_i same
        cases given
        subst same
        rfl
      · split at given <;> cases given
        rename_i same
        subst same
        rfl
    · cases given

theorem record_valid : validRecord (record o w event fields) = true := by
  have text : ∀ name ∈ ["component","event","level","version"], isText ((record o w event fields).lookup name) = true := by
    intro name inside
    rw [record_lookup (by revert name; decide)]
    have known : ∀ name ∈ ["component","event","level","version"], (stringLimit name).isSome = true := by decide
    refine fieldOf_text (known name inside) ?_
    simp only [List.mem_cons,List.not_mem_nil,or_false] at inside
    rcases inside with rfl | rfl | rfl | rfl <;> exact ⟨_,rfl⟩
  have schema : (record o w event fields).lookup "schema_version" = some (.int schemaVersion) := by
    rw [record_lookup (by decide),fieldOf_fixed (by decide)]
    rfl
  have pid : (record o w event fields).lookup "pid" = some (.int w.pid.val) := by
    rw [record_lookup (by decide),fieldOf_fixed (by decide)]
    rfl
  have ts : (record o w event fields).lookup "ts" = some (.text w.ts.val) := by
    rw [record_lookup (by decide),fieldOf_fixed (by decide)]
    rfl
  have epoch : (record o w event fields).lookup "ts_epoch" = some (.float false w.epoch w.places) := by
    rw [record_lookup (by decide),fieldOf_fixed (by decide)]
    rfl
  have limit : (10 : Nat) ^ 16 ≤ doubleLimit := by
    have wide : (2 : Nat) ^ 1024 = 2 ^ 54 * 2 ^ 970 := by rw [← Nat.pow_add]
    have some' : 1 ≤ (2 : Nat) ^ 970 := Nat.one_le_two_pow
    rw [doubleLimit,wide]
    generalize (2 : Nat) ^ 970 = x at *
    omega
  have small := w.epoch.isLt
  have required : requiredFields.all (fun name => ((record o w event fields).lookup name).isSome) = true := by
    have present : ∀ name ∈ ["component","event","level","version"], ((record o w event fields).lookup name).isSome = true := by
      intro name inside
      have := text name inside
      cases found : (record o w event fields).lookup name with
      | none => rw [found] at this; cases this
      | some scalar => rfl
    simp [requiredFields,schema,pid,ts,epoch,present]
  have allowed : (record o w event fields).all (fun field => field.1 ∈ requiredFields ∨ field.1 ∈ optionalFields) = true := by
    refine List.all_eq_true.mpr fun field inside => ?_
    have kinds : ∀ name ∈ sortedNames, decide (name ∈ requiredFields ∨ name ∈ optionalFields) = true := by decide
    exact kinds field.1 (record_field inside).1
  have optional : (record o w event fields).all
      (fun field => decide (field.1 ∈ requiredFields) || validOptional field.1 field.2) = true := by
    refine List.all_eq_true.mpr fun field inside => ?_
    by_cases fixed' : field.1 ∈ requiredFields
    · simp [fixed']
    · obtain ⟨listed,given⟩ := record_field inside
      have rest : ∀ name ∈ sortedNames, name ∉ requiredFields → name ∈ optionalFields ∧
          name ∉ ["schema_version","ts","ts_epoch","component","event","level","version","pid"] := by decide
      obtain ⟨own,apart⟩ := rest field.1 listed fixed'
      rcases Option.or_eq_some_iff.mp given with found | ⟨_,default⟩
      · obtain ⟨value,_,same⟩ := Option.bind_eq_some_iff.mp found
        simp [normalized_valid own same]
      · simp only [List.mem_cons,List.not_mem_nil,or_false,not_or] at apart
        simp [DaemonLog.fixed,apart] at default
  simp only [validRecord,required,allowed,schema,pid,ts,epoch,optional,isText,finite,Bool.true_and,Bool.and_true,
    Bool.and_eq_true,decide_eq_true_eq]
  exact ⟨⟨⟨trivial,w.pid.property⟩,Nat.lt_of_lt_of_le small limit⟩,List.all_eq_true.mpr text⟩

theorem record_nonempty : record o w event fields ≠ [] := by
  intro none'
  have found : (record o w event fields).lookup "schema_version" = some (.int schemaVersion) := by
    rw [record_lookup (by decide),fieldOf_fixed (by decide)]
    rfl
  rw [none'] at found
  cases found

theorem record_written (short : (Json.dumps (record o w event fields)).length + 1 ≤ o.lineBytes) :
    Written o (record o w event fields) := by
  have read := Json.loads_dumps _ record_nonempty (@record_plain o w event fields) record_keys
  refine ⟨?_,read,fun inside => (Json.dumps_line _ record_plain _ inside).1 rfl⟩
  simp only [validateRecordLine,read,Option.any_some,record_valid,Bool.and_true,Bool.and_eq_true,decide_eq_true_eq]
  exact ⟨by simp [Json.dumps],short⟩

end AgentSideCar.DaemonLog
