import AgentSideCar.Library.Loads
import Mathlib.Algebra.GroupWithZero.Nat

namespace AgentSideCar.Wrapper
open Loads

abbrev Bytes := List UInt8

def newline : UInt8 := 10
def carriage : UInt8 := 13

def ascii (s : String) : Bytes := s.toList.map fun c => c.toNat.toUInt8

def maxLine : Nat := 262144

inductive Code where
  | protocol
  | resourceLimit
  | remote
  deriving DecidableEq

def Code.name : Code → String
  | .protocol => "protocol"
  | .resourceLimit => "resource_limit"
  | .remote => "remote"

def readyFrame : Bytes := ascii "\x7b\"type\":\"ready\"\x7d"
def endFrame : Bytes := ascii "\x7b\"type\":\"end\"\x7d"
def pingFrame : Bytes := ascii "\x7b\"type\":\"ping\"\x7d"
def errorFrame (code : Code) : Bytes := ascii ("\x7b\"type\":\"error\",\"code\":\"" ++ code.name ++ "\"\x7d")

def isSpace (b : UInt8) : Bool := b = 32 || 9 ≤ b && b ≤ 13

def strip (raw : Bytes) : Bytes := ((raw.dropWhile isSpace).reverse.dropWhile isSpace).reverse

def eventKeys : List Text := ["ts","agent","session_id","kind","text","extra"].map str

def keysAre (fields : List (Text × Value)) (keys : List Text) : Bool :=
  (fields.map Prod.fst).all (keys.contains ·) && keys.all ((fields.map Prod.fst).contains ·)

def get (fields : List (Text × Value)) (key : String) : Option Value :=
  (fields.find? fun field => field.1 = str key).map Prod.snd

def isText : Option Value → Bool
  | some (.text _) => true
  | _ => false

def isDict : Option Value → Bool
  | some (.dict _) => true
  | _ => false

def isEvent : Value → Bool
  | .dict fields => keysAre fields eventKeys && isText (get fields "ts") && isText (get fields "agent") &&
    isText (get fields "session_id") && isText (get fields "kind") && isText (get fields "text") && isDict (get fields "extra")
  | _ => false

-- What the wrapper finds wrong with a line of the child.
def eventLineError (h : Hooks) (raw : Bytes) : Option Code :=
  if raw = [] ∨ carriage ∈ raw ∨ raw ≠ strip raw then some .protocol
  else match loadsBytes h raw with
    | .error .recursion => some .resourceLimit
    | .error _ => some .protocol
    | .ok value => if isEvent value then none else some .protocol

structure JSONLimits where
  maxDepth : Nat
  maxNodes : Nat
  maxStringBytes : Nat
  maxIntegerBits : Nat

-- The limits of a line that is received.
def lineLimits : JSONLimits := ⟨32,8192,192 * 1024,4096⟩

inductive JSONError where
  | limit
  | malformed
  deriving DecidableEq

def bitLength (n : Nat) : Nat := if n = 0 then 0 else n.log2 + 1

def surrogate (c : Nat) : Bool := 55296 ≤ c && c < 57344

def utf8Length (text : Text) : Nat :=
  (text.map fun c => if c < 128 then 1 else if c < 2048 then 2 else if c < 65536 then 3 else 4).sum

-- A float is finite below the number that rounds to 2 ^ 1024.
def finite (mantissa exponent : Int) : Bool :=
  if 0 ≤ exponent then mantissa.natAbs * 10 ^ exponent.toNat < 2 ^ 1024 - 2 ^ 970
  else mantissa.natAbs < (2 ^ 1024 - 2 ^ 970) * 10 ^ (-exponent).toNat

def validateText (l : JSONLimits) (depth nodes : Nat) (text : Text) : Except JSONError Nat :=
  if l.maxDepth < depth then .error .limit
  else if text.any surrogate then .error .malformed
  else if l.maxStringBytes < utf8Length text then .error .limit
  else .ok nodes

mutual
def validateJson (l : JSONLimits) (depth nodes : Nat) : Value → Except JSONError Nat
  | .text text => validateText l depth nodes text
  | .int n => if l.maxDepth < depth ∨ l.maxIntegerBits < bitLength n.natAbs then .error .limit else .ok nodes
  | .float m e => if l.maxDepth < depth then .error .limit else if finite m e then .ok nodes else .error .malformed
  | .list items =>
    if l.maxDepth < depth ∨ l.maxNodes < nodes + items.length then .error .limit
    else validateItems l (depth + 1) (nodes + items.length) items
  | .dict fields =>
    if l.maxDepth < depth ∨ l.maxNodes < nodes + 2 * fields.length then .error .limit
    else validateFields l (depth + 1) (nodes + 2 * fields.length) fields
  | .null => if l.maxDepth < depth then .error .limit else .ok nodes
  | .bool _ => if l.maxDepth < depth then .error .limit else .ok nodes

def validateItems (l : JSONLimits) (depth nodes : Nat) : List Value → Except JSONError Nat
  | [] => .ok nodes
  | item :: items =>
    match validateJson l depth nodes item with
    | .error e => .error e
    | .ok nodes => validateItems l depth nodes items

def validateFields (l : JSONLimits) (depth nodes : Nat) : List (Text × Value) → Except JSONError Nat
  | [] => .ok nodes
  | (key,item) :: fields =>
    match validateText l depth nodes key with
    | .error e => .error e
    | .ok nodes =>
      match validateJson l depth nodes item with
      | .error e => .error e
      | .ok nodes => validateFields l depth nodes fields
end

def parseInteger (l : JSONLimits) (digits : Text) : Option LoadsError :=
  if l.maxIntegerBits < digits.length ∨ l.maxIntegerBits < bitLength (digitsValue digits) then some .integer else none

-- `depth` is where the receiver's own interpreter stops.
def parseJson (depth : Nat) (l : JSONLimits) (line : Bytes) : Except JSONError Value :=
  match loadsBytes ⟨depth,parseInteger l⟩ line with
  | .error .recursion => .error .limit
  | .error .integer => .error .limit
  | .error .malformed => .error .malformed
  | .ok value => (validateJson l 0 1 value).map fun _ => value

def parsedLine (depth : Nat) (line : Bytes) : Except JSONError Value :=
  if line = [] ∨ maxLine < line.length ∨ carriage ∈ line ∨ line ≠ strip line then .error .malformed
  else parseJson depth lineLimits line

-- What the receiver makes of a line. An event is still to be validated.
inductive Heard where
  | ready
  | ping
  | ended
  | error (code : Code)
  | refused (code : Code)
  | event (value : Value)
  | typeError

def errorCode : Option Value → Option Code
  | some (.text name) => [Code.protocol,Code.resourceLimit,Code.remote].find? fun code => name = str code.name
  | _ => none

-- An array or an object is no member of a frozenset: the test itself raises.
def unhashable : Option Value → Bool
  | some (.list _) => true
  | some (.dict _) => true
  | _ => false

def validatedEventLine (depth : Nat) (line : Bytes) : Heard :=
  match parsedLine depth line with
  | .error .limit => .refused .resourceLimit
  | .error .malformed => .refused .protocol
  | .ok (.dict fields) =>
    if (get fields "type").isSome then
      match keysAre fields [str "type",str "code"],get fields "type" with
      | true,some (.text kind) =>
        if kind = str "error" then
          if unhashable (get fields "code") then .typeError
          else (errorCode (get fields "code")).elim (.refused .protocol) .error
        else .refused .protocol
      | _,_ => .refused .protocol
    else .event (.dict fields)
  | .ok value => .event value

-- The first line of a stream, and the lines after it.
def readReady (line : Bytes) : Heard :=
  if line = readyFrame then .ready
  else match [Code.protocol,Code.resourceLimit,Code.remote].find? fun code => line = errorFrame code with
    | some code => .error code
    | none => .refused .protocol

def nextEvent (depth : Nat) (line : Bytes) : Heard :=
  if line = pingFrame then .ping else if line = endFrame then .ended else validatedEventLine depth line

def Heard.control : Heard → Bool
  | .ready => true
  | .ping => true
  | .ended => true
  | .error _ => true
  | _ => false

def isControl (depth : Nat) (line : Bytes) : Bool := (readReady line).control || (nextEvent depth line).control

theorem readReady_control (control : (readReady line).control = true) :
    line = readyFrame ∨ ∃ code, line = errorFrame code := by
  unfold readReady at control
  split at control
  · rename_i same
    exact .inl same
  · split at control
    · rename_i found
      exact .inr ⟨_,by simpa using List.find?_some found⟩
    · cases control

theorem parsedLine_parse (parsed : parsedLine depth line = .ok value) : parseBytes line = some value := by
  unfold parsedLine at parsed
  split at parsed
  · cases parsed
  · unfold parseJson at parsed
    split at parsed
    · cases parsed
    · cases parsed
    · cases parsed
    · rename_i loaded
      cases valid : validateJson lineLimits 0 1 _ with
      | error e =>
        rw [valid] at parsed
        cases parsed
      | ok nodes =>
        rw [valid] at parsed
        cases parsed
        exact loadsBytes_parse loaded

theorem nextEvent_control (control : (nextEvent depth line).control = true) :
    line = pingFrame ∨ line = endFrame ∨ ∃ fields, parseBytes line = some (.dict fields) ∧
      keysAre fields [str "type",str "code"] = true := by
  unfold nextEvent at control
  split at control
  · rename_i same
    exact .inl same
  · split at control
    · rename_i same
      exact .inr (.inl same)
    · unfold validatedEventLine at control
      split at control
      · cases control
      · cases control
      · rename_i fields parsed
        split at control
        · split at control
          · rename_i keys _
            exact .inr (.inr ⟨fields,parsedLine_parse parsed,keys⟩)
          · cases control
        · cases control
      · cases control

-- The frames of the wrapper, the only ones that are no event.
inductive Frame where
  | ready
  | ping
  | ended
  | error (code : Code)
  | event (line : Bytes)

def Frame.line : Frame → Bytes
  | .ready => readyFrame
  | .ping => pingFrame
  | .ended => endFrame
  | .error code => errorFrame code
  | .event line => line

def Frame.control : Frame → Bool
  | .event _ => false
  | _ => true

-- A control frame is one flat object: a letter follows its first quote, and no bracket is
-- closed before its end.
structure Flat (line : Bytes) : Prop where
  ascii : Ascii line
  shape : line.map UInt8.toNat = (openDict :: quote :: 116 :: ((line.map UInt8.toNat).drop 3).dropLast) ++ [closeDict]
  plain : (((line.map UInt8.toNat).drop 3).dropLast.map closing).sum = 0

theorem errorFrame_flat (code : Code) : Flat (errorFrame code) := by
  cases code <;> exact ⟨by decide,by decide,by decide⟩

theorem control_flat {frame : Frame} (control : frame.control = true) : Flat frame.line := by
  cases frame with
  | ready => exact ⟨by decide,by decide,by decide⟩
  | ping => exact ⟨by decide,by decide,by decide⟩
  | ended => exact ⟨by decide,by decide,by decide⟩
  | error code => exact errorFrame_flat code
  | event line => cases control

def typed (line : Bytes) : Prop := ∃ fields, parseBytes line = some (.dict fields) ∧ str "type" ∈ fields.map Prod.fst

theorem ready_typed : typed readyFrame := ⟨[(str "type",.text (str "ready"))],rfl,List.mem_cons_self⟩
theorem ping_typed : typed pingFrame := ⟨[(str "type",.text (str "ping"))],rfl,List.mem_cons_self⟩
theorem end_typed : typed endFrame := ⟨[(str "type",.text (str "end"))],rfl,List.mem_cons_self⟩
theorem error_typed (code : Code) : typed (errorFrame code) :=
  ⟨[(str "type",.text (str "error")),(str "code",.text (str code.name))],by cases code <;> rfl,List.mem_cons_self⟩

theorem control_typed (control : isControl depth line = true) : typed line := by
  rw [isControl,Bool.or_eq_true] at control
  rcases control with first | later
  · rcases readReady_control first with rfl | ⟨code,rfl⟩
    · exact ready_typed
    · exact error_typed code
  · rcases nextEvent_control later with rfl | rfl | ⟨fields,parsed,keys⟩
    · exact ping_typed
    · exact end_typed
    · refine ⟨fields,parsed,?_⟩
      simp only [keysAre,Bool.and_eq_true,List.all_eq_true,List.contains_iff_mem] at keys
      exact keys.2 _ List.mem_cons_self

theorem strip_solid (stripped : ¬b :: rest ≠ strip (b :: rest)) : blank b.toNat = false := by
  cases white : blank b.toNat with
  | false => rfl
  | true =>
    have space : isSpace b = true := by
      simp only [blank,Bool.or_eq_true,decide_eq_true_eq] at white
      have : b = 32 ∨ b = 9 ∨ b = 10 ∨ b = 13 := by
        simp only [← UInt8.toNat_inj]
        simpa [or_assoc] using white
      rcases this with rfl | rfl | rfl | rfl <;> rfl
    have shorter : (strip (b :: rest)).length ≤ rest.length := by
      rw [strip,List.length_reverse,List.dropWhile_cons_of_pos space]
      have back := (List.dropWhile_sublist isSpace (l := (rest.dropWhile isSpace).reverse)).length_le
      rw [List.length_reverse] at back
      exact Nat.le_trans back (List.dropWhile_sublist _).length_le
    rw [← not_not.mp stripped,List.length_cons] at shorter
    omega

theorem event_exact (fine : eventLineError h line = none) :
    ∃ rest fields, line = 123 :: rest ∧ parseBytes line = some (.dict fields) ∧ str "type" ∉ fields.map Prod.fst := by
  unfold eventLineError at fine
  split at fine
  · cases fine
  · rename_i solid
    split at fine
    · cases fine
    · cases fine
    · rename_i value loaded
      split at fine
      · rename_i event
        cases value with
        | dict fields =>
          have parsed := loadsBytes_parse loaded
          simp only [isEvent,keysAre,Bool.and_eq_true,List.all_eq_true,List.contains_iff_mem] at event
          have keys := event.1.1.1.1.1.1.1
          cases line with
          | nil => exact absurd (.inl rfl) solid
          | cons b rest =>
            have white := strip_solid (not_or.mp (not_or.mp solid).2).2
            have brace := parseBytes_brace parsed white
            subst brace
            refine ⟨rest,fields,rfl,parsed,fun inside => ?_⟩
            exact absurd (keys _ inside) (by decide)
        | _ => cases event
      · cases fine

def Fine (h : Hooks) : Frame → Prop
  | .event line => newline ∉ line ∧ eventLineError h line = none
  | _ => True

theorem fine_brace {frame : Frame} (fine : Fine h frame) : ∃ rest, frame.line = 123 :: rest := by
  cases frame with
  | ready => exact ⟨_,rfl⟩
  | ping => exact ⟨_,rfl⟩
  | ended => exact ⟨_,rfl⟩
  | error code => cases code <;> exact ⟨_,rfl⟩
  | event line =>
    obtain ⟨rest,_,same,_⟩ := event_exact fine.2
    exact ⟨rest,same⟩

theorem fine_clean {frame : Frame} (fine : Fine h frame) : newline ∉ frame.line := by
  cases frame with
  | ready => decide
  | ping => decide
  | ended => decide
  | error code => cases code <;> decide
  | event line => exact fine.1

theorem untyped_plain (untyped : ¬typed line) : isControl depth line = false := by
  cases control : isControl depth line with
  | false => rfl
  | true => exact absurd (control_typed control) untyped

theorem unread_plain (unread : parseBytes line = none) : isControl depth line = false := by
  apply untyped_plain
  intro ⟨fields,parsed,_⟩
  rw [unread] at parsed
  cases parsed

theorem event_plain (fine : eventLineError h line = none) : isControl depth line = false := by
  obtain ⟨rest,fields,_,parsed,untyped⟩ := event_exact fine
  apply untyped_plain
  intro ⟨other,same,inside⟩
  rw [parsed] at same
  cases same
  exact untyped inside

theorem decode_ascii (ascii : Ascii bytes) : decode bytes = some (bytes.map UInt8.toNat) := by
  rw [decode,decodeBytes_ascii ascii _ rfl]
  simp

theorem flat_unread (flat : Flat line) (begins : piece <+: line) (short : piece ≠ line) : parseBytes piece = none := by
  have ascii : Ascii piece := fun b inside => flat.ascii b (begins.subset inside)
  rw [parseBytes,decode_ascii ascii,Option.bind_some,parse]
  have part := begins.map UInt8.toNat
  rw [flat.shape,List.prefix_concat_iff] at part
  rcases part with whole | part
  · rw [← flat.shape] at whole
    exact absurd (List.map_injective_iff.mpr (fun _ _ => UInt8.toNat_inj.mp) whole) short
  · cases same : piece.map UInt8.toNat with
    | nil => rfl
    | cons first rest =>
      rw [same] at part
      obtain ⟨rfl,within⟩ := List.cons_prefix_cons.mp part
      have opened : run start (openDict :: rest) = run ⟨.first,[.dict [] []]⟩ rest := rfl
      rw [opened]
      apply open_unread
      obtain ⟨more,sums⟩ := within
      have sums := congrArg (fun text => (text.map closing).sum) sums
      simp only [List.map_append,List.sum_append,List.map_cons,List.sum_cons,flat.plain] at sums
      have : closing quote = 0 := rfl
      have : closing 116 = 0 := rfl
      simp only [List.length_singleton]
      omega

theorem piece_plain {frame : Frame} (fine : Fine h frame) (begins : piece <+: frame.line) (short : piece ≠ frame.line) :
    isControl depth piece = false := by
  cases control : frame.control with
  | true => exact unread_plain (flat_unread (control_flat control) begins short)
  | false =>
    cases frame with
    | event line =>
      obtain ⟨rest,fields,brace,parsed,untyped⟩ := event_exact fine.2
      cases piece with
      | nil => exact unread_plain rfl
      | cons b early =>
        obtain ⟨late,whole⟩ := begins
        rw [Frame.line,brace] at whole
        obtain ⟨rfl,_⟩ := List.cons.inj whole
        rw [brace,← whole] at parsed
        rcases parseBytes_beginning parsed with unread | same
        · exact unread_plain unread
        · apply untyped_plain
          intro ⟨other,taken,inside⟩
          rw [same] at taken
          cases taken
          exact untyped inside
    | _ => cases control

theorem splice_plain {frame : Frame} (fine : Fine h frame) (begins : piece <+: frame.line) (some_piece : piece ≠ [])
    (more : rest <+: errorFrame code) (some_rest : rest ≠ []) : isControl depth (piece ++ rest) = false := by
  obtain ⟨tail,brace⟩ := fine_brace fine
  obtain ⟨b,early,rfl⟩ := List.exists_cons_of_ne_nil some_piece
  obtain ⟨late,whole⟩ := begins
  rw [brace] at whole
  obtain ⟨rfl,_⟩ := List.cons.inj whole
  have flat := errorFrame_flat code
  have within := more.map UInt8.toNat
  rw [flat.shape] at within
  apply unread_plain
  exact parseBytes_spliced some_rest (fun b inside => flat.ascii b (more.subset inside)) within (by decide) (by decide) flat.plain

end AgentSideCar.Wrapper
