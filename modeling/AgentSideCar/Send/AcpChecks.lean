import AgentSideCar.Remote.Frames
import AgentSideCar.Send.Acp

namespace AgentSideCar.Acp
open Loads (Value Text str)
open Wrapper (get finite)
open Send (Snag Foreign)

abbrev Fields := List (Text × Value)
abbrev Check := Except Snag Unit

def protocolError : Snag := .driver "protocol_error"
def refuse {α : Type} : Except Snag α := .error protocolError
def demand (holds : Bool) : Check := if holds then .ok () else refuse

def oneOf (names : List String) : Value → Bool
  | .text t => (names.map str).contains t
  | _ => false

-- What has no hash makes the test for a member of a frozenset raise a TypeError of its own.
def memberOf (names : List String) : Value → Except Snag Bool
  | .list _ => .error (.escape .other)
  | .dict _ => .error (.escape .other)
  | v => .ok (oneOf names v)

def mapping : Value → Except Snag Fields
  | .dict fields => .ok fields
  | _ => refuse

inductive RpcId where
  | int (n : Int)
  | text (t : Text)
  deriving DecidableEq

def rpcId : Value → Except Snag RpcId
  | .int n => .ok (.int n)
  | .text t => .ok (.text t)
  | _ => refuse

-- A field, None where there is none.
def read (item : Fields) (key : String) : Value := (get item key).getD .null

def metaAllowed : Option Value → Bool
  | none => true
  | some .null => true
  | some (.dict _) => true
  | _ => false

def keysAmong (item : Fields) (keys : List String) : Bool := item.all fun field => (keys.map str).contains field.1

def validMetaOnly : Value → Bool
  | .dict item => keysAmong item ["_meta"] && metaAllowed (get item "_meta")
  | _ => false

def object (v : Value) (required optional : List String) : Except Snag Fields := do
  let item ← mapping v
  demand (required.all fun key => (get item key).isSome)
  demand (keysAmong item (required ++ optional))
  demand (metaAllowed (get item "_meta"))
  return item

def string (nullable nonempty : Bool) : Value → Check
  | .null => demand nullable
  | .text t => demand (!(nonempty && t.isEmpty))
  | _ => refuse

abbrev text : Value → Check := string false false

-- An integer too large for a float is an OverflowError.
def number : Value → Check
  | .int n => if finite n 0 then .ok () else .error (.escape .other)
  | .float mantissa exponent => demand (finite mantissa exponent)
  | _ => refuse

def boolean : Value → Check
  | .bool _ => .ok ()
  | _ => refuse

def counted : Value → Check
  | .int n => demand (0 ≤ n && n ≤ 4294967295)
  | _ => refuse

-- What is there is checked; so it is unless it is None; so it is unless an update says None.
def ifPresent (item : Fields) (key : String) (check : Value → Check) : Check :=
  match get item key with
  | none => .ok ()
  | some v => check v

def unlessNone (check : Value → Check) : Value → Check
  | .null => .ok ()
  | v => check v

def ifGiven (item : Fields) (key : String) (check : Value → Check) : Check := ifPresent item key (unlessNone check)

def ifSaid (update : Bool) (item : Fields) (key : String) (check : Value → Check) : Check :=
  if update then ifGiven item key check else ifPresent item key check

def optionalString (item : Fields) (key : String) : Check := ifPresent item key (string true false)

def each (check : Value → Check) : Value → Check
  | .list items => items.forM check
  | _ => refuse

def metaOnly (v : Value) : Check := demand (validMetaOnly v)

section Content

def validateAnnotations (v : Value) : Check := do
  let item ← object v [] ["_meta","audience","lastModified","priority"]
  ifGiven item "audience" fun
    | .list roles => demand (roles.all (oneOf ["assistant","user"]))
    | _ => refuse
  optionalString item "lastModified"
  ifGiven item "priority" number

def common : List String := ["_meta","annotations","type"]

def textBlock (v : Value) : Except Snag Fields := do
  let item ← object v ["type","text"] common
  text (read item "text")
  return item

def mediaBlock (uri : List String) (v : Value) : Except Snag Fields := do
  let item ← object v ["type","data","mimeType"] (common ++ uri)
  text (read item "data")
  text (read item "mimeType")
  optionalString item "uri"
  return item

def linkBlock (v : Value) : Except Snag Fields := do
  let item ← object v ["type","name","uri"] (common ++ ["description","mimeType","size","title"])
  text (read item "name")
  text (read item "uri")
  ["description","mimeType","title"].forM (optionalString item)
  ifGiven item "size" number
  return item

def resourceBlock (v : Value) : Except Snag Fields := do
  let item ← object v ["type","resource"] common
  let resource ← mapping (read item "resource")
  demand ((get resource "text").isSome != (get resource "blob").isSome)
  let required := if (get resource "text").isSome then ["uri","text"] else ["uri","blob"]
  let resource ← object (.dict resource) required ["_meta","mimeType"]
  required.forM fun key => text (read resource key)
  optionalString resource "mimeType"
  return item

def contentBlock (v : Value) (kind : Value) : Except Snag Fields :=
  if oneOf ["text"] kind then textBlock v
  else if oneOf ["image"] kind then mediaBlock ["uri"] v
  else if oneOf ["audio"] kind then mediaBlock [] v
  else if oneOf ["resource_link"] kind then linkBlock v
  else if oneOf ["resource"] kind then resourceBlock v
  else refuse

def validateContentBlock (v : Value) : Check := do
  let kinds ← mapping v
  let item ← contentBlock v (read kinds "type")
  ifGiven item "annotations" validateAnnotations

end Content

section Tools

def toolKinds : List String := ["read","edit","delete","move","search","execute","think","fetch","switch_mode","other"]
def toolStatuses : List String := ["pending","in_progress","completed","failed"]

def validateToolLocation (v : Value) : Check := do
  let item ← object v ["path"] ["_meta","line"]
  text (read item "path")
  ifGiven item "line" counted

def validateToolContent (v : Value) : Check := do
  let item ← mapping v
  let kind := read item "type"
  if oneOf ["content"] kind then
    let item ← object v ["type","content"] ["_meta"]
    validateContentBlock (read item "content")
  else if oneOf ["diff"] kind then
    let item ← object v ["type","newText","path"] ["_meta","oldText"]
    text (read item "newText")
    text (read item "path")
    optionalString item "oldText"
  else if oneOf ["terminal"] kind then
    let item ← object v ["type","terminalId"] ["_meta"]
    text (read item "terminalId")
  else refuse

def validateToolCall (update discriminator : Bool) (v : Value) : Check := do
  let required := if update then ["toolCallId"] else ["toolCallId","title"]
  let item ← object v required (["_meta","content","kind","locations","rawInput","rawOutput","status"]
    ++ (if update then ["title"] else []) ++ (if discriminator then ["sessionUpdate"] else []))
  string false true (read item "toolCallId")
  ifPresent item "title" (string update false)
  ifSaid update item "kind" fun kind => demand (oneOf toolKinds kind)
  ifSaid update item "status" fun status => demand (oneOf toolStatuses status)
  ifSaid update item "content" (each validateToolContent)
  ifSaid update item "locations" (each validateToolLocation)

end Tools

section Plans

def planPriorities : List String := ["high","medium","low"]
def planStatuses : List String := ["pending","in_progress","completed"]

def validatePlanEntry (v : Value) : Check := do
  let item ← object v ["content","priority","status"] ["_meta"]
  text (read item "content")
  demand (← memberOf planPriorities (read item "priority"))
  demand (← memberOf planStatuses (read item "status"))

def validatePlanEntries : Value → Check := each validatePlanEntry

def validatePlanUpdate (v : Value) : Check := do
  let item ← object v ["plan"] ["_meta","sessionUpdate"]
  let plan ← mapping (read item "plan")
  let kind := read plan "type"
  if oneOf ["items"] kind then
    let plan ← object (.dict plan) ["type","id","entries"] ["_meta"]
    validatePlanEntries (read plan "entries")
  else if oneOf ["file"] kind then
    let plan ← object (.dict plan) ["type","id","uri"] ["_meta"]
    text (read plan "uri")
  else if oneOf ["markdown"] kind then
    let plan ← object (.dict plan) ["type","id","content"] ["_meta"]
    text (read plan "content")
  else refuse
  text (read plan "id")

end Plans

section Config

def validateAvailableCommand (v : Value) : Check := do
  let item ← object v ["description","name"] ["_meta","input"]
  text (read item "description")
  text (read item "name")
  ifGiven item "input" fun input => do
    let nested ← object input ["hint"] ["_meta"]
    text (read nested "hint")

def validateConfigSelectOption (v : Value) : Check := do
  let item ← object v ["name","value"] ["_meta","description"]
  text (read item "name")
  text (read item "value")
  optionalString item "description"

def grouped : List Value → Bool
  | .dict first :: _ => (get first "group").isSome
  | _ => false

def validateOptionGroup (v : Value) : Check := do
  let group ← object v ["group","name","options"] ["_meta"]
  text (read group "group")
  text (read group "name")
  each validateConfigSelectOption (read group "options")

def validateConfigOption (v : Value) : Check := do
  let item ← mapping v
  let kind := read item "type"
  demand (oneOf ["select","boolean"] kind)
  let required := ["type","currentValue","id","name"] ++ if oneOf ["select"] kind then ["options"] else []
  let item ← object v required ["_meta","category","description"]
  text (read item "id")
  text (read item "name")
  optionalString item "category"
  optionalString item "description"
  if oneOf ["boolean"] kind then boolean (read item "currentValue")
  else
    text (read item "currentValue")
    match read item "options" with
    | .list options => options.forM (if grouped options then validateOptionGroup else validateConfigSelectOption)
    | _ => refuse

def validateConfigOptions : Value → Check := each validateConfigOption

-- What there is to choose from, and what is chosen.
def validateChoices (list current id : String) (v : Value) : Check := do
  let item ← object v [list,current] ["_meta"]
  text (read item current)
  each (fun choice => do
    let nested ← object choice [id,"name"] ["_meta","description"]
    text (read nested id)
    text (read nested "name")
    optionalString nested "description") (read item list)

def validateModeState : Value → Check := validateChoices "availableModes" "currentModeId" "id"
def validateModelState : Value → Check := validateChoices "availableModels" "currentModelId" "modelId"

def validateUsage (v : Value) : Check := do
  let item ← object v ["inputTokens","outputTokens","totalTokens"] ["cachedReadTokens","cachedWriteTokens","thoughtTokens"]
  item.forM fun field => unlessNone number field.2

end Config

section Updates

def sessionUpdateKinds : List String := ["user_message_chunk","agent_message_chunk","agent_thought_chunk","tool_call",
  "tool_call_update","plan","plan_update","plan_removed","available_commands_update","current_mode_update",
  "config_option_update","session_info_update","usage_update"]

def validateChunk (v : Value) : Check := do
  let item ← object v ["sessionUpdate","content"] ["_meta","messageId"]
  validateContentBlock (read item "content")
  optionalString item "messageId"

-- One field more, with its check.
def validateOne (key : String) (check : Value → Check) (v : Value) : Check := do
  let item ← object v ["sessionUpdate",key] ["_meta"]
  check (read item key)

def validateUsageUpdate (v : Value) : Check := do
  let item ← object v ["sessionUpdate","size","used"] ["_meta","cost"]
  number (read item "size")
  number (read item "used")
  ifGiven item "cost" fun cost => do
    let cost ← object cost ["amount","currency"] []
    number (read cost "amount")
    text (read cost "currency")

def validateSessionInfo (v : Value) : Check := do
  let item ← object v ["sessionUpdate"] ["_meta","title","updatedAt"]
  optionalString item "title"
  optionalString item "updatedAt"

def validateUpdate (v : Value) : Check := do
  let item ← mapping v
  let kind := read item "sessionUpdate"
  demand (← memberOf sessionUpdateKinds kind)
  if oneOf ["user_message_chunk","agent_message_chunk","agent_thought_chunk"] kind then validateChunk v
  else if oneOf ["tool_call"] kind then validateToolCall false true v
  else if oneOf ["tool_call_update"] kind then validateToolCall true true v
  else if oneOf ["plan"] kind then validateOne "entries" validatePlanEntries v
  else if oneOf ["plan_update"] kind then validatePlanUpdate v
  else if oneOf ["plan_removed"] kind then validateOne "id" text v
  else if oneOf ["available_commands_update"] kind then validateOne "availableCommands" (each validateAvailableCommand) v
  else if oneOf ["current_mode_update"] kind then validateOne "currentModeId" text v
  else if oneOf ["config_option_update"] kind then validateOne "configOptions" validateConfigOptions v
  else if oneOf ["session_info_update"] kind then validateSessionInfo v
  else validateUsageUpdate v

end Updates

section Capabilities

def validateBoolCapabilities (fields : List String) (v : Value) : Check := do
  let item ← object v [] (fields ++ ["_meta"])
  fields.forM fun key => ifPresent item key boolean

def validateContext (v : Value) : Check := do
  let context ← object v [] ["_meta","diagnostics","editHistory","openFiles","recentFiles","relatedSnippets","userActions"]
  ["diagnostics","openFiles","relatedSnippets"].forM fun key => ifGiven context key metaOnly
  ["editHistory","recentFiles","userActions"].forM fun key => ifGiven context key fun capability => do
    let capability ← object capability [] ["_meta","maxCount"]
    ifGiven capability "maxCount" counted

def validateDocument (v : Value) : Check := do
  let document ← object v [] ["_meta","didChange","didClose","didFocus","didOpen","didSave"]
  ["didClose","didFocus","didOpen","didSave"].forM fun key => ifGiven document key metaOnly
  ifGiven document "didChange" fun changed => do
    let changed ← object changed ["syncKind"] ["_meta"]
    demand (oneOf ["full","incremental"] (read changed "syncKind"))

def validateNesCapabilities (v : Value) : Check := do
  let item ← object v [] ["_meta","context","events"]
  ifGiven item "context" validateContext
  ifGiven item "events" fun events => do
    let events ← object events [] ["_meta","document"]
    ifGiven events "document" validateDocument

def validateVariable (v : Value) : Check := do
  let nested ← object v ["name"] ["_meta","label","optional","secret"]
  text (read nested "name")
  optionalString nested "label"
  ["optional","secret"].forM fun key => ifPresent nested key boolean

def authMethod (v kind : Value) : Except Snag Fields :=
  if oneOf ["env_var"] kind then do
    let item ← object v ["type","id","name","vars"] ["_meta","description","link"]
    each validateVariable (read item "vars")
    optionalString item "link"
    return item
  else if oneOf ["terminal"] kind then do
    let item ← object v ["type","id","name"] ["_meta","args","description","env"]
    ifPresent item "args" (each text)
    ifPresent item "env" fun
      | .dict environment => environment.forM fun entry => text entry.2
      | _ => refuse
    return item
  else match kind with
    | .null => object v ["id","name"] ["_meta","description"]
    | _ => refuse

def validateAuthMethod (v : Value) : Check := do
  let kinds ← mapping v
  let item ← authMethod v (read kinds "type")
  text (read item "id")
  text (read item "name")
  optionalString item "description"

def positionEncodings (v : Value) : Check := demand (oneOf ["utf-16","utf-32","utf-8"] v)

def isNone : Value → Bool
  | .null => true
  | _ => false

def validateSessionCapabilities (v : Value) : Check := do
  let item ← object v ["list","resume"] ["_meta","additionalDirectories","close","delete","fork"]
  ["additionalDirectories","close","delete","fork","list","resume"].forM fun key => ifGiven item key metaOnly
  demand (!isNone (read item "list") && !isNone (read item "resume"))

def isTrue : Value → Bool
  | .bool value => value
  | _ => false

def validateAgentCapabilities (v : Value) : Check := do
  let capabilities ← object v ["loadSession","sessionCapabilities"]
    ["_meta","auth","mcpCapabilities","nes","positionEncoding","promptCapabilities","providers"]
  demand (isTrue (read capabilities "loadSession"))
  ifPresent capabilities "auth" fun auth => do
    let auth ← object auth [] ["_meta","logout"]
    ifGiven auth "logout" metaOnly
  ifPresent capabilities "mcpCapabilities" (validateBoolCapabilities ["acp","http","sse"])
  ifPresent capabilities "promptCapabilities" (validateBoolCapabilities ["audio","embeddedContext","image"])
  ifGiven capabilities "nes" validateNesCapabilities
  ifGiven capabilities "positionEncoding" positionEncodings
  ifGiven capabilities "providers" metaOnly
  validateSessionCapabilities (read capabilities "sessionCapabilities")

end Capabilities

section Results

def isOne : Value → Bool
  | .int n => n = 1
  | _ => false

def initializeResult (envelope : Fields) : Check := do
  let result ← object (read envelope "result") ["protocolVersion","agentCapabilities"] ["_meta","agentInfo","authMethods"]
  demand (isOne (read result "protocolVersion"))
  validateAgentCapabilities (read result "agentCapabilities")
  ifGiven result "agentInfo" fun info => do
    let info ← object info ["name","version"] ["_meta","title"]
    text (read info "name")
    text (read info "version")
    optionalString info "title"
  ifPresent result "authMethods" (each validateAuthMethod)

def sessionRow (row : Value) : Except Snag Fields := do
  let item ← object row ["sessionId","cwd"] ["_meta","additionalDirectories","title","updatedAt"]
  text (read item "sessionId")
  text (read item "cwd")
  optionalString item "title"
  optionalString item "updatedAt"
  ifPresent item "additionalDirectories" (each text)
  return item

def isText (t : Text) : Value → Bool
  | .text own => own = t
  | _ => false

-- The caller's validator answers or raises.
def cwdMatches (validate : Text → Except Foreign Bool) (cwd : Text) : Check :=
  match validate cwd with
  | .ok true => .ok ()
  | .ok false => .error (.driver "invalid_session")
  | .error e => if e.isException then .error (.driver "invalid_session") else .error (.escape e)

def listResult (sessionId : Text) (validate : Text → Except Foreign Bool) (envelope : Fields) : Check := do
  let result ← object (read envelope "result") ["sessions"] ["_meta","nextCursor"]
  optionalString result "nextCursor"
  match read result "sessions" with
  | .list sessions =>
    let items ← sessions.mapM sessionRow
    match items.filter fun item => isText sessionId (read item "sessionId") with
    | [] => .error (.driver "session_unavailable")
    | [item] => match read item "cwd" with
      | .text cwd => cwdMatches validate cwd
      | _ => .error (.escape .other)
    | _ => .error (.driver "invalid_session")
  | _ => refuse

def resumeResult (envelope : Fields) : Check := do
  let result ← object (read envelope "result") [] ["_meta","configOptions","models","modes"]
  ifGiven result "configOptions" validateConfigOptions
  ifGiven result "models" validateModelState
  ifGiven result "modes" validateModeState

def modeResult (envelope : Fields) : Check := metaOnly (read envelope "result")

def stopReasons : List String := ["end_turn","max_tokens","max_turn_requests","refusal","cancelled"]

def promptResult (envelope : Fields) : Except Snag Value := do
  let result ← object (read envelope "result") ["stopReason"] ["_meta","usage","userMessageId"]
  demand (← memberOf stopReasons (read result "stopReason"))
  ifGiven result "usage" validateUsage
  optionalString result "userMessageId"
  return read result "stopReason"

def validateError (v : Value) : Check := do
  let error ← mapping v
  match read error "code" with
  | .int code => demand (-2147483648 ≤ code && code ≤ 2147483647)
  | _ => refuse
  text (read error "message")
  demand (keysAmong error ["code","message","data"])

def busyCode (v : Value) : Bool :=
  match v with
  | .dict fields => oneOf ["turn.agent_busy"] (read fields "code")
  | _ => false

def errorIsBusy : Value → Bool
  | .dict error => match read error "data" with
    | .dict data => busyCode (.dict data) || busyCode (read data "error")
    | _ => false
  | _ => false

def permissionKinds : List String := ["allow_once","allow_always","reject_once","reject_always"]

-- `seen` is the ids of the options before.
def validateOption (seen : List Text) (option : Value) : Except Snag (List Text) := do
  let item ← object option ["optionId","name","kind"] ["_meta"]
  string false true (read item "optionId")
  string false true (read item "name")
  demand (← memberOf permissionKinds (read item "kind"))
  match read item "optionId" with
  | .text id =>
    demand (!seen.contains id)
    return id :: seen
  | _ => refuse

def validatePermissionParams (sessionId : Text) (v : Value) : Check := do
  let params ← object v ["sessionId","toolCall","options"] ["_meta"]
  demand (isText sessionId (read params "sessionId"))
  validateToolCall true false (read params "toolCall")
  match read params "options" with
  | .list options =>
    demand !options.isEmpty
    discard (options.foldlM validateOption [])
  | _ => refuse

end Results
end AgentSideCar.Acp
