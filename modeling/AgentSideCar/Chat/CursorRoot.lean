import AgentSideCar.Library.Digits
import AgentSideCar.Library.Wire
import Mathlib.Data.Nat.Bitwise

namespace AgentSideCar.CursorRoot
open Wire Varint

inductive CursorChatError where
  | protobuf (message : String)
  | limit (message : String)
  deriving DecidableEq

def maxRootBlobBytes : Nat := 8 * 1024 * 1024
def maxMessageBlobBytes : Nat := 4 * 1024 * 1024
def maxProtoFields : Nat := 65536
def maxProtoPayloadBytes : Nat := 8 * 1024 * 1024
def maxMessageReferences : Nat := 4096
def maxWorkspaceUriBytes : Nat := 16 * 1024
def maxFieldNumber : Nat := 2 ^ 29 - 1
def digestSize : Nat := 32

-- The loop over the ten bytes; `left` of them may still come.
def readBytes (data : Bytes) : Nat → Nat → Nat → Nat → Except CursorChatError (Nat × Nat)
  | 0,_,_,_ => .error (.protobuf "Protobuf varint is too long")
  | left+1,index,value,position =>
    match data[position]? with
    | none => .error (.protobuf "Truncated protobuf varint")
    | some byte =>
      if index = 9 ∧ 1 < byte.toNat then .error (.protobuf "Protobuf varint overflow")
      else
        let value := value ||| (byte.toNat &&& 0x7F) <<< (index * 7)
        if byte.toNat &&& 0x80 = 0 then .ok (value,position + 1) else readBytes data left (index + 1) value (position + 1)

def readVarint (data : Bytes) (position : Nat) : Except CursorChatError (Nat × Nat) := readBytes data 10 0 0 position

structure Scan where
  position : Nat := 0
  fields : Nat := 0
  payloadBytes : Nat := 0
  references : List (List Char) := []
  provisional : Option Bytes := none
  workspaceUri : Option Bytes := none
  deriving DecidableEq

def hex (payload : Bytes) : List Char := payload.flatMap fun byte => Hex.hexDigits Nat.digitChar 2 byte.toNat

-- What is done with a payload once it is cut out.
def keep (number : Nat) (payload : Bytes) (s : Scan) : Except CursorChatError Scan :=
  if number = 1 then
    if payload.length ≠ digestSize then .error (.protobuf "Cursor chat message digest has the wrong length")
    else if maxMessageReferences < s.references.length + 1 then .error (.limit "Cursor chat has too many message references")
    else .ok {s with references := s.references ++ [hex payload]}
  else if number = 4 then
    if maxMessageBlobBytes < payload.length then .error (.limit "Cursor chat provisional message is too large")
    else .ok {s with provisional := some payload}
  else if number = 9 then
    if maxWorkspaceUriBytes < payload.length then .error (.limit "Cursor workspace URI is too large")
    else .ok {s with workspaceUri := some payload}
  else .ok s

def takePayload (data : Bytes) (number position : Nat) (s : Scan) : Except CursorChatError Scan :=
  match readVarint data position with
  | .error e => .error e
  | .ok (length,position) =>
    if data.length - position < length then .error (.protobuf "Protobuf length exceeds payload")
    else if maxProtoPayloadBytes < s.payloadBytes + length then .error (.limit "Cursor chat protobuf payload is too large")
    else keep number ((data.drop position).take length)
      {s with position := position + length,payloadBytes := s.payloadBytes + length}

-- One turn of the loop.
def step (data : Bytes) (s : Scan) : Except CursorChatError Scan :=
  if maxProtoFields < s.fields + 1 then .error (.limit "Cursor chat protobuf has too many fields")
  else
    let s := {s with fields := s.fields + 1}
    match readVarint data s.position with
    | .error e => .error e
    | .ok (key,position) =>
      let number := key >>> 3
      let wireType := key &&& 7
      if number = 0 ∨ maxFieldNumber < number then .error (.protobuf "Protobuf field number is invalid")
      else if number ∈ [1,4,9] ∧ wireType ≠ 2 then .error (.protobuf "Cursor chat root field has the wrong wire type")
      else if wireType = 0 then (readVarint data position).map fun read => {s with position := read.2}
      else if wireType = 1 then
        if data.length - position < 8 then .error (.protobuf "Truncated fixed64 field") else .ok {s with position := position + 8}
      else if wireType = 5 then
        if data.length - position < 4 then .error (.protobuf "Truncated fixed32 field") else .ok {s with position := position + 4}
      else if wireType ≠ 2 then .error (.protobuf "Unsupported protobuf wire type")
      else takePayload data number position s

theorem low_bits (byte : UInt8) : byte.toNat &&& 0x7F = byte.toNat % 128 := Nat.and_two_pow_sub_one_eq_mod byte.toNat 7

theorem high_bit (byte : UInt8) : byte.toNat &&& 0x80 = 0 ↔ byte.toNat < 128 := by
  have range := byte.toNat_lt
  have bit : byte.toNat &&& 0x80 = (byte.toNat.testBit 7).toNat * 2 ^ 7 := Nat.and_two_pow byte.toNat 7
  rw [bit,Nat.testBit_eq_decide_div_mod_eq]
  by_cases set : byte.toNat / 2 ^ 7 % 2 = 1
  · simp only [set,decide_true,Bool.toNat_true]
    omega
  · simp only [set,decide_false,Bool.toNat_false]
    omega

theorem joined_bits (low : value < 2 ^ (7 * index)) (c : Nat) : value ||| c <<< (index * 7) = value + 2 ^ (7 * index) * c := by
  rw [Nat.mul_comm index 7,Nat.or_comm,← Nat.shiftLeft_add_eq_or_of_lt low,Nat.shiftLeft_eq]
  ring

theorem readBytes_exact (data : Bytes) (left index value position m p : Nat) (whole : index + left = 10)
    (low : value < 2 ^ (7 * index)) : readBytes data left index value position = .ok (m,p) ↔
      ∃ bytes n, Spells bytes n ∧ bytes.length ≤ left ∧ data.drop position = bytes ++ data.drop p ∧
        p = position + bytes.length ∧ m = value + 2 ^ (7 * index) * n ∧ m < 2 ^ 64 := by
  induction left generalizing index value position with
  | zero =>
    refine iff_of_false (fun read => by cases read) ?_
    rintro ⟨bytes,n,spelled,short,_⟩
    have := spelled.nonempty
    omega
  | succ left ih =>
    rw [readBytes]
    cases there : data[position]? with
    | none =>
      refine iff_of_false (fun read => by cases read) ?_
      rintro ⟨bytes,n,spelled,_,shape,_⟩
      rw [List.drop_eq_nil_of_le (List.getElem?_eq_none_iff.mp there)] at shape
      have := spelled.nonempty
      rw [(List.append_eq_nil_iff.mp shape.symm).1] at this
      cases this
    | some byte =>
      have cut : data.drop position = byte :: data.drop (position + 1) := by
        obtain ⟨inside,same⟩ := List.getElem?_eq_some_iff.mp there
        rw [List.drop_eq_getElem_cons inside,same]
      have next : 2 ^ (7 * (index + 1)) = 128 * 2 ^ (7 * index) := by rw [Nat.mul_add,Nat.pow_add]; ring
      have grown : value + 2 ^ (7 * index) * (byte.toNat % 128) < 2 ^ (7 * (index + 1)) := by
        have := Nat.mul_le_mul_left (2 ^ (7 * index)) (show byte.toNat % 128 ≤ 127 by omega)
        omega
      by_cases beyond : index = 9 ∧ 1 < byte.toNat
      · simp only [if_pos beyond]
        refine iff_of_false (fun read => by cases read) ?_
        rintro ⟨bytes,n,spelled,short,shape,_,same,fits⟩
        obtain ⟨rfl,more⟩ := beyond
        rw [cut] at shape
        cases spelled with
        | last =>
          injection shape with first
          subst first
          omega
        | more _ later =>
          have := later.nonempty
          rw [List.length_cons] at short
          omega
      · simp only [if_neg beyond,low_bits,joined_bits low,high_bit]
        by_cases small : byte.toNat < 128
        · rw [if_pos small]
          have same : byte.toNat % 128 = byte.toNat := Nat.mod_eq_of_lt small
          constructor
          · intro read
            cases read
            refine ⟨[byte],byte.toNat,.last small,by simp,cut,rfl,by rw [same],?_⟩
            by_cases ninth : index = 9
            · subst ninth
              omega
            · have := Nat.pow_le_pow_right (show 0 < 2 by omega) (show 7 * (index + 1) ≤ 63 by omega)
              omega
          · rintro ⟨bytes,n,spelled,_,shape,rfl,rfl,_⟩
            rw [cut] at shape
            cases spelled with
            | last =>
              cases shape
              rw [same]
              rfl
            | more large =>
              injection shape with first
              subst first
              omega
        · have range := byte.toNat_lt
          rw [if_neg small,ih (index + 1) _ (position + 1) (by omega) grown]
          have value' : ∀ n, value + 2 ^ (7 * index) * (byte.toNat % 128) + 2 ^ (7 * (index + 1)) * n =
              value + 2 ^ (7 * index) * (byte.toNat - 128 + 128 * n) := fun n => by
            rw [next,show byte.toNat % 128 = byte.toNat - 128 by omega]
            ring
          constructor
          · rintro ⟨bytes,n,spelled,short,shape,rfl,same,fits⟩
            refine ⟨byte :: bytes,_,.more (by omega) spelled,by rw [List.length_cons]; omega,?_,?_,by rw [same,value'],fits⟩
            · rw [cut,shape]
              rfl
            · rw [List.length_cons]
              omega
          · rintro ⟨bytes,n,spelled,short,shape,there',same,fits⟩
            rw [cut] at shape
            cases spelled with
            | last =>
              injection shape with first
              subst first
              omega
            | more large later =>
              injection shape with first others
              subst first
              rw [List.length_cons] at short there'
              exact ⟨_,_,later,by omega,others,by omega,by rw [same,value'],fits⟩

theorem readVarint_exact (data : Bytes) (position m p : Nat) : readVarint data position = .ok (m,p) ↔
    ∃ bytes, Reads bytes m ∧ data.drop position = bytes ++ data.drop p ∧ p = position + bytes.length := by
  rw [readVarint,readBytes_exact data 10 0 0 position m p rfl (by decide)]
  constructor
  · rintro ⟨bytes,n,spelled,short,shape,there,same,fits⟩
    have same : m = n := by simpa using same
    exact ⟨bytes,⟨same ▸ spelled,short,fits⟩,shape,there⟩
  · rintro ⟨bytes,read,shape,there⟩
    exact ⟨bytes,m,read.spelled,read.short,shape,there,by simp,read.fits⟩

-- The content of a field of that number.
def content (number : Nat) (f : WireField) : Option Bytes :=
  match f.payload with
  | .bytes content => if f.number = number then some content else none
  | _ => none

def size (f : WireField) : Nat :=
  match f.payload with
  | .bytes content => content.length
  | _ => 0

-- What is asked of a field by itself.
structure Sound (f : WireField) : Prop where
  numbered : 0 < f.number ∧ f.number ≤ maxFieldNumber
  typed : f.number ∈ [1,4,9] → f.payload.wireType = 2
  digest : ∀ bytes ∈ content 1 f, bytes.length = digestSize
  provisional : ∀ bytes ∈ content 4 f, bytes.length ≤ maxMessageBlobBytes
  workspace : ∀ bytes ∈ content 9 f, bytes.length ≤ maxWorkspaceUriBytes

def add (f : WireField) (width : Nat) (s : Scan) : Scan where
  position := s.position + width
  fields := s.fields + 1
  payloadBytes := s.payloadBytes + size f
  references := s.references ++ ((content 1 f).map hex).toList
  provisional := (content 4 f).or s.provisional
  workspaceUri := (content 9 f).or s.workspaceUri

-- What is asked of it beside those before it.
structure Room (f : WireField) (s : Scan) : Prop where
  fields : s.fields + 1 ≤ maxProtoFields
  payload : f.payload.wireType = 2 → s.payloadBytes + size f ≤ maxProtoPayloadBytes
  references : (content 1 f).isSome → s.references.length + 1 ≤ maxMessageReferences

theorem keep_exact (number : Nat) (payload : Bytes) (s after : Scan) : keep number payload s = .ok after ↔
    (number = 1 → payload.length = digestSize ∧ s.references.length + 1 ≤ maxMessageReferences) ∧
    (number = 4 → payload.length ≤ maxMessageBlobBytes) ∧ (number = 9 → payload.length ≤ maxWorkspaceUriBytes) ∧
    after = {s with
      references := s.references ++ ((content 1 ⟨number,.bytes payload⟩).map hex).toList
      provisional := (content 4 ⟨number,.bytes payload⟩).or s.provisional
      workspaceUri := (content 9 ⟨number,.bytes payload⟩).or s.workspaceUri} := by
  unfold keep
  split
  · rename_i one
    subst one
    split
    · rename_i wrong
      simp [wrong]
    · rename_i right
      split
      · rename_i many
        simp [content]
        omega
      · rename_i few
        have right : payload.length = digestSize := by simpa using right
        simp [content,right,eq_comm]
        omega
  split
  · rename_i four
    subst four
    split
    · rename_i large
      simp [content]
      omega
    · rename_i small
      simp [content,eq_comm]
      omega
  split
  · rename_i nine
    subst nine
    split
    · rename_i large
      simp [content]
      omega
    · rename_i small
      simp [content,eq_comm]
      omega
  · rename_i one four nine
    simp only [content,one,four,nine,if_false,false_implies,true_and,Option.map_none,Option.toList_none,List.append_nil,
      Option.none_or,Except.ok.injEq]
    exact eq_comm

theorem shifted (number wireType : Nat) (small : wireType < 8) :
    (number * 8 + wireType) >>> 3 = number ∧ (number * 8 + wireType) &&& 7 = wireType := by
  have low : (number * 8 + wireType) &&& 7 = (number * 8 + wireType) % 2 ^ 3 := Nat.and_two_pow_sub_one_eq_mod _ 3
  rw [Nat.shiftRight_eq_div_pow,low]
  omega

-- The bytes at a position.
structure Span (data : Bytes) (position : Nat) (whole : Bytes) : Prop where
  bound : position + whole.length ≤ data.length
  there : (data.drop position).take whole.length = whole

theorem span_drop (span : Span data position whole) : data.drop position = whole ++ data.drop (position + whole.length) := by
  have split := List.take_append_drop whole.length (data.drop position)
  rw [span.there,List.drop_drop] at split
  exact split.symm

theorem drop_span (shape : data.drop position = whole ++ rest) (bound : position ≤ data.length) : Span data position whole := by
  have lengths := congrArg List.length shape
  rw [List.length_append,List.length_drop] at lengths
  exact ⟨by omega,by rw [shape,List.take_left']; rfl⟩

theorem span_taken (data : Bytes) (position n : Nat) (bound : position + n ≤ data.length) : ((data.drop position).take n).length = n ∧
    Span data position ((data.drop position).take n) := by
  have length : ((data.drop position).take n).length = n := by
    rw [List.length_take,List.length_drop]
    omega
  exact ⟨length,by omega,by rw [length]⟩

theorem span_append : Span data position (early ++ late) ↔ Span data position early ∧ Span data (position + early.length) late := by
  constructor
  · intro span
    have bound := span.bound
    have shape := span_drop span
    rw [List.length_append] at bound
    rw [List.append_assoc] at shape
    refine ⟨drop_span shape (by omega),?_⟩
    have onward : data.drop (position + early.length) = late ++ data.drop (position + (early ++ late).length) := by
      rw [← List.drop_drop,shape,List.drop_left']
      rfl
    exact drop_span onward (by omega)
  · rintro ⟨first,second⟩
    have bound := second.bound
    have shape : data.drop position = early ++ late ++ data.drop (position + early.length + late.length) := by
      rw [span_drop first,span_drop second,List.append_assoc]
    exact drop_span shape (by omega)

theorem readVarint_span (data : Bytes) (position m p : Nat) : readVarint data position = .ok (m,p) ↔
    ∃ bytes, Reads bytes m ∧ Span data position bytes ∧ p = position + bytes.length := by
  rw [readVarint_exact]
  constructor
  · rintro ⟨bytes,read,shape,rfl⟩
    have some' := read.spelled.nonempty
    have bound : position ≤ data.length := by
      by_contra beyond
      rw [List.drop_eq_nil_of_le (by omega)] at shape
      rw [(List.append_eq_nil_iff.mp shape.symm).1] at some'
      cases some'
    exact ⟨bytes,read,drop_span shape bound,rfl⟩
  · rintro ⟨bytes,read,span,rfl⟩
    exact ⟨bytes,read,span_drop span,rfl⟩

theorem takePayload_exact (data : Bytes) (number position : Nat) (s after : Scan) :
    takePayload data number position s = .ok after ↔ ∃ payload body, (Payload.bytes payload).Spelled body ∧
      Span data position body ∧ s.payloadBytes + payload.length ≤ maxProtoPayloadBytes ∧
      keep number payload {s with position := position + body.length,payloadBytes := s.payloadBytes + payload.length} = .ok after := by
  unfold takePayload
  constructor
  · intro done
    split at done
    · cases done
    · rename_i length start read
      obtain ⟨key,reads,span,rfl⟩ := (readVarint_span data position length start).mp read
      split at done
      · cases done
      split at done
      · cases done
      rename_i room limit
      have bound := span.bound
      obtain ⟨same,taken⟩ := span_taken data (position + key.length) length (by omega)
      refine ⟨_,key ++ _,⟨key,by rwa [same],rfl⟩,span_append.mpr ⟨span,taken⟩,by rw [same]; omega,?_⟩
      rw [List.length_append,same,← Nat.add_assoc]
      exact done
  · rintro ⟨payload,body,⟨key,reads,rfl⟩,span,limit,kept⟩
    obtain ⟨first,second⟩ := span_append.mp span
    have bound := second.bound
    rw [(readVarint_span data position payload.length _).mpr ⟨key,reads,first,rfl⟩]
    simp only
    rw [if_neg (by omega),if_neg (by omega),second.there]
    rw [List.length_append,← Nat.add_assoc] at kept
    exact kept

theorem content_bytes (same : bytes ∈ content number ⟨number',.bytes payload⟩) : number' = number ∧ payload = bytes := by
  simpa [content] using same

theorem wireType_small (p : Payload) : p.wireType < 8 := by cases p <;> simp [Payload.wireType]

theorem plain_sound (plain : f.payload.wireType ≠ 2) (numbered : 0 < f.number ∧ f.number ≤ maxFieldNumber)
    (unknown : f.number ∉ [1,4,9]) : Sound f ∧ (s.fields + 1 ≤ maxProtoFields → Room f s) ∧
      ∀ width, add f width s = {s with position := s.position + width,fields := s.fields + 1} := by
  obtain ⟨number,payload⟩ := f
  cases payload with
  | bytes => exact absurd rfl plain
  | varint | fixed64 | fixed32 =>
    refine ⟨⟨numbered,fun known => absurd known unknown,?_,?_,?_⟩,fun room => ⟨room,fun typed => absurd typed plain,?_⟩,?_⟩ <;>
      simp [content,add,size]

theorem step_reads (data : Bytes) (s : Scan) (few : s.fields + 1 ≤ maxProtoFields) (first : Bytes) (number wireType : Nat)
    (reads : Reads first (number * 8 + wireType)) (small : wireType < 8) (span : Span data s.position first) :
    step data s =
      if number = 0 ∨ maxFieldNumber < number then .error (.protobuf "Protobuf field number is invalid")
      else if number ∈ [1,4,9] ∧ wireType ≠ 2 then .error (.protobuf "Cursor chat root field has the wrong wire type")
      else if wireType = 0 then
        (readVarint data (s.position + first.length)).map fun read => {s with fields := s.fields + 1,position := read.2}
      else if wireType = 1 then
        if data.length - (s.position + first.length) < 8 then .error (.protobuf "Truncated fixed64 field")
        else .ok {s with fields := s.fields + 1,position := s.position + first.length + 8}
      else if wireType = 5 then
        if data.length - (s.position + first.length) < 4 then .error (.protobuf "Truncated fixed32 field")
        else .ok {s with fields := s.fields + 1,position := s.position + first.length + 4}
      else if wireType ≠ 2 then .error (.protobuf "Unsupported protobuf wire type")
      else takePayload data number (s.position + first.length) {s with fields := s.fields + 1} := by
  obtain ⟨shiftedKey,masked⟩ := shifted number wireType small
  rw [step,if_neg (by omega)]
  simp only
  rw [(readVarint_span data s.position _ _).mpr ⟨first,reads,span,rfl⟩]
  simp only [shiftedKey,masked]

theorem field_spelled (reads : Reads first (number * 8 + wireType)) (typed : p.wireType = wireType) (spelled : p.Spelled body) :
    (WireField.mk number p).Spelled (first ++ body) := ⟨first,body,by rw [WireField.key,typed]; exact reads,spelled,rfl⟩

theorem fixed_field (make : Bytes → Payload) (typed : ∀ body, (make body).wireType = wireType) (plain : wireType ≠ 2)
    (spelled : ∀ body : Bytes, body.length = n → (make body).Spelled body) (reads : Reads first (number * 8 + wireType))
    (span : Span data s.position first) (numbered : 0 < number ∧ number ≤ maxFieldNumber) (unknown : number ∉ [1,4,9])
    (few : s.fields + 1 ≤ maxProtoFields) (enough : ¬ data.length - (s.position + first.length) < n) :
    ∃ f whole, f.Spelled whole ∧ Span data s.position whole ∧ Sound f ∧ Room f s ∧
      {s with fields := s.fields + 1,position := s.position + first.length + n} = add f whole.length s := by
  have bound := span.bound
  obtain ⟨length,second⟩ := span_taken data (s.position + first.length) n (by omega)
  obtain ⟨sound,room,added⟩ := plain_sound (f := ⟨number,make ((data.drop (s.position + first.length)).take n)⟩) (s := s)
    (by rw [typed]; exact plain) numbered unknown
  exact ⟨_,first ++ _,field_spelled reads (typed _) (spelled _ length),span_append.mpr ⟨span,second⟩,sound,room few,
    by rw [added,List.length_append,length,Nat.add_assoc]⟩

theorem step_sound (done : step data s = .ok after) :
    ∃ f whole, f.Spelled whole ∧ Span data s.position whole ∧ Sound f ∧ Room f s ∧ after = add f whole.length s := by
  have few : s.fields + 1 ≤ maxProtoFields := by
    by_contra many
    rw [step,if_pos (by omega)] at done
    cases done
  obtain ⟨key,position,read⟩ : ∃ key position, readVarint data s.position = .ok (key,position) := by
    cases read : readVarint data s.position with
    | error e =>
      rw [step,if_neg (by omega)] at done
      simp only [read] at done
      cases done
    | ok found => exact ⟨found.1,found.2,rfl⟩
  obtain ⟨first,reads,span,rfl⟩ := (readVarint_span data s.position key position).mp read
  have parts : key / 8 * 8 + key % 8 = key := by omega
  rw [← parts] at reads
  rw [step_reads data s few first (key / 8) (key % 8) reads (by omega) span] at done
  have bound := span.bound
  split at done
  · cases done
  rename_i numbered
  have numbered : 0 < key / 8 ∧ key / 8 ≤ maxFieldNumber := by omega
  split at done
  · cases done
  rename_i typed
  split at done
  · rename_i varint
    have unknown : key / 8 ∉ [1,4,9] := fun known => typed ⟨known,by omega⟩
    cases read : readVarint data (s.position + first.length) with
    | error e =>
      rw [read] at done
      cases done
    | ok found =>
      obtain ⟨value,p⟩ := found
      obtain ⟨body,value',second,rfl⟩ := (readVarint_span data _ value p).mp read
      rw [read] at done
      cases done
      obtain ⟨sound,room,added⟩ := plain_sound (f := ⟨key / 8,.varint value⟩) (s := s) (by simp [Payload.wireType]) numbered unknown
      exact ⟨⟨key / 8,.varint value⟩,first ++ body,field_spelled reads varint.symm value',span_append.mpr ⟨span,second⟩,sound,room few,
        by rw [added,List.length_append,Nat.add_assoc]⟩
  split at done
  · rename_i fixed
    have unknown : key / 8 ∉ [1,4,9] := fun known => typed ⟨known,by omega⟩
    split at done
    · cases done
    rename_i enough
    cases done
    exact fixed_field .fixed64 (fun _ => fixed.symm) (by omega) (fun _ length => ⟨rfl,length⟩) reads span numbered unknown few enough
  split at done
  · rename_i fixed
    have unknown : key / 8 ∉ [1,4,9] := fun known => typed ⟨known,by omega⟩
    split at done
    · cases done
    rename_i enough
    cases done
    exact fixed_field .fixed32 (fun _ => fixed.symm) (by omega) (fun _ length => ⟨rfl,length⟩) reads span numbered unknown few enough
  split at done
  · cases done
  rename_i bytes
  have bytes : key % 8 = 2 := by omega
  obtain ⟨payload,body,spelled,second,limit,kept⟩ := (takePayload_exact _ _ _ _ _).mp done
  obtain ⟨one,four,nine,rfl⟩ := (keep_exact _ _ _ _).mp kept
  refine ⟨⟨key / 8,.bytes payload⟩,first ++ body,field_spelled reads bytes.symm spelled,span_append.mpr ⟨span,second⟩,?_,?_,?_⟩
  · refine ⟨numbered,fun _ => rfl,?_,?_,?_⟩
    · intro bytes same
      obtain ⟨named,rfl⟩ := content_bytes same
      exact (one named).1
    · intro bytes same
      obtain ⟨named,rfl⟩ := content_bytes same
      exact four named
    · intro bytes same
      obtain ⟨named,rfl⟩ := content_bytes same
      exact nine named
  · refine ⟨few,fun _ => limit,fun some' => ?_⟩
    obtain ⟨bytes,same⟩ := Option.isSome_iff_exists.mp some'
    exact (one (content_bytes same).1).2
  · simp only [add,size,List.length_append,Nat.add_assoc]

theorem step_complete (spelled : f.Spelled whole) (span : Span data s.position whole) (sound : Sound f) (room : Room f s) :
    step data s = .ok (add f whole.length s) := by
  obtain ⟨first,body,reads,spelled,rfl⟩ := spelled
  obtain ⟨early,late⟩ := span_append.mp span
  have numbered := sound.numbered
  have bound := late.bound
  rw [step_reads data s room.fields first f.number f.payload.wireType reads (wireType_small _) early,if_neg (by omega),
    if_neg fun bad => bad.2 (sound.typed bad.1)]
  obtain ⟨number,payload⟩ := f
  cases payload with
  | varint value =>
    have read := (readVarint_span data _ value _).mpr ⟨body,spelled,late,rfl⟩
    simp [Payload.wireType,read,Except.map,add,content,size,Nat.add_assoc]
  | fixed64 taken =>
    obtain ⟨rfl,length⟩ := spelled
    have enough : ¬ data.length - (s.position + first.length) < 8 := by omega
    simp [Payload.wireType,enough,add,content,size,length,Nat.add_assoc]
  | fixed32 taken =>
    obtain ⟨rfl,length⟩ := spelled
    have enough : ¬ data.length - (s.position + first.length) < 4 := by omega
    simp [Payload.wireType,enough,add,content,size,length,Nat.add_assoc]
  | bytes taken =>
    simp only [Payload.wireType,OfNat.ofNat_ne_zero,OfNat.ofNat_ne_one,Nat.reduceEqDiff,reduceIte,ne_eq,not_true]
    refine (takePayload_exact _ _ _ _ _).mpr ⟨taken,body,spelled,late,room.payload rfl,(keep_exact _ _ _ _).mpr ⟨?_,?_,?_,?_⟩⟩
    · rintro rfl
      exact ⟨sound.digest taken rfl,room.references rfl⟩
    · rintro rfl
      exact sound.provisional taken rfl
    · rintro rfl
      exact sound.workspace taken rfl
    · simp only [add,size,List.length_append,Nat.add_assoc]

theorem step_advances (done : step data s = .ok after) : s.position < after.position ∧ after.position ≤ data.length := by
  obtain ⟨f,whole,spelled,span,_,_,rfl⟩ := step_sound done
  have some' := field_nonempty spelled
  have bound := span.bound
  exact ⟨show s.position < s.position + whole.length by omega,bound⟩

def scan (data : Bytes) (s : Scan) : Except CursorChatError Scan :=
  if s.position < data.length then
    match done : step data s with
    | .error e => .error e
    | .ok after =>
      have := step_advances done
      scan data after
  else .ok s
termination_by data.length - s.position
decreasing_by omega

structure Root where
  references : List (List Char)
  provisional : Option Bytes
  workspaceUri : Option Bytes
  deriving DecidableEq

def scanRoot (data : Bytes) : Except CursorChatError Root :=
  if maxRootBlobBytes < data.length then .error (.limit "Cursor chat root blob is too large")
  else (scan data {}).map fun s => ⟨s.references,s.provisional,s.workspaceUri⟩

def contents (number : Nat) (fields : List WireField) : List Bytes := fields.filterMap (content number)

-- The limits, for fields that follow what has been read.
structure Within (fields : List WireField) (s : Scan) : Prop where
  sound : ∀ f ∈ fields, Sound f
  count : s.fields + fields.length ≤ maxProtoFields
  payload : s.payloadBytes + (fields.map size).sum ≤ maxProtoPayloadBytes
  references : s.references.length + (contents 1 fields).length ≤ maxMessageReferences

-- What fields add to what has been read.
structure Sums (fields : List WireField) (s after : Scan) : Prop where
  references : after.references = s.references ++ (contents 1 fields).map hex
  provisional : after.provisional = (contents 4 fields).getLast?.or s.provisional
  workspaceUri : after.workspaceUri = (contents 9 fields).getLast?.or s.workspaceUri

theorem contents_cons (number : Nat) (f : WireField) (rest : List WireField) :
    contents number (f :: rest) = (content number f).toList ++ contents number rest := by
  unfold contents
  rw [List.filterMap_cons]
  cases content number f <;> rfl

theorem references_length (f : WireField) (width : Nat) (s : Scan) :
    (add f width s).references.length = s.references.length + (content 1 f).toList.length := by
  simp only [add,List.length_append]
  cases content 1 f <;> rfl

theorem within_cons (width : Nat) : Within (f :: rest) s ↔ Sound f ∧ Room f s ∧ Within rest (add f width s) := by
  have counted := references_length f width s
  have payload : (add f width s).payloadBytes = s.payloadBytes + size f := rfl
  have fields : (add f width s).fields = s.fields + 1 := rfl
  constructor
  · intro within
    obtain ⟨sound,count,total,references⟩ := within
    rw [contents_cons,List.length_append] at references
    rw [List.map_cons,List.sum_cons] at total
    rw [List.length_cons] at count
    refine ⟨sound f List.mem_cons_self,⟨by omega,fun _ => by omega,fun some' => ?_⟩,
      fun g inside => sound g (List.mem_cons_of_mem _ inside),by omega,by omega,by omega⟩
    obtain ⟨bytes,same⟩ := Option.isSome_iff_exists.mp some'
    rw [same,Option.toList_some,List.length_singleton] at references
    omega
  · rintro ⟨own,_,sound,count,total,references⟩
    refine ⟨fun g inside => ?_,?_,?_,?_⟩
    · rcases List.mem_cons.mp inside with rfl | later
      · exact own
      · exact sound g later
    · rw [List.length_cons]
      omega
    · rw [List.map_cons,List.sum_cons]
      omega
    · rw [contents_cons,List.length_append]
      omega

theorem last_cons (number : Nat) (f : WireField) (rest : List WireField) (before : Option Bytes) :
    (contents number (f :: rest)).getLast?.or before = (contents number rest).getLast?.or ((content number f).or before) := by
  rw [contents_cons,List.getLast?_append,Option.or_assoc]
  cases content number f <;> rfl

theorem sums_cons (width : Nat) (sums : Sums rest (add f width s) after) : Sums (f :: rest) s after where
  references := by
    rw [sums.references,contents_cons,List.map_append,add,List.append_assoc]
    cases content 1 f <;> rfl
  provisional := by rw [sums.provisional,last_cons]; rfl
  workspaceUri := by rw [sums.workspaceUri,last_cons]; rfl

theorem room_within (room : Room f s) (start : Within [] s) (width : Nat) : Within [] (add f width s) where
  sound := fun g inside => by cases inside
  count := room.fields
  payload := by
    have total := start.payload
    have grown : (add f width s).payloadBytes = s.payloadBytes + size f := rfl
    rw [List.map_nil,List.sum_nil,grown] at *
    by_cases typed : f.payload.wireType = 2
    · exact room.payload typed
    · have nothing : size f = 0 := by
        unfold size
        split
        · rename_i shape
          rw [shape] at typed
          exact absurd rfl typed
        · rfl
      omega
  references := by
    have counted := references_length f width s
    have before := start.references
    have none : (contents 1 []).length = 0 := rfl
    have more := room.references
    rw [none] at *
    cases same : content 1 f with
    | none =>
      rw [same,Option.toList_none,List.length_nil] at counted
      omega
    | some bytes =>
      rw [same] at counted more
      have := more rfl
      rw [Option.toList_some,List.length_singleton] at counted
      omega

theorem scan_sound (data : Bytes) (s after : Scan) (done : scan data s = .ok after) (start : Within [] s)
    (bound : s.position ≤ data.length) : ∃ fields whole, Spelled fields whole ∧ Span data s.position whole ∧
      s.position + whole.length = data.length ∧ Within fields s ∧ Sums fields s after := by
  induction left : data.length - s.position using Nat.strongRecOn generalizing s with
  | ind left ih =>
    rw [scan] at done
    split at done
    · split at done
      · cases done
      · rename_i next turned
        obtain ⟨onward,within⟩ := step_advances turned
        obtain ⟨f,whole,spelled,span,sound,room,rfl⟩ := step_sound turned
        obtain ⟨fields,rest,others,second,ends,admitted,sums⟩ :=
          ih _ (by omega) (add f whole.length s) done (room_within room start whole.length) within rfl
        refine ⟨f :: fields,whole ++ rest,.cons spelled others,span_append.mpr ⟨span,second⟩,?_,
          (within_cons whole.length).mpr ⟨sound,room,admitted⟩,sums_cons whole.length sums⟩
        rw [List.length_append,← Nat.add_assoc]
        exact ends
    · cases done
      refine ⟨[],[],.nil,⟨by simpa using bound,rfl⟩,?_,start,⟨?_,rfl,rfl⟩⟩
      · rw [List.length_nil]
        omega
      · simp [contents]

theorem scan_complete (spelled : Spelled fields whole) (span : Span data s.position whole)
    (ends : s.position + whole.length = data.length) (within : Within fields s) :
    ∃ after, scan data s = .ok after ∧ Sums fields s after := by
  induction spelled generalizing s with
  | nil =>
    rw [scan,if_neg (by simp only [List.length_nil] at ends; omega)]
    exact ⟨s,rfl,by simp [contents],rfl,rfl⟩
  | @cons rest late f early first _ ih =>
    obtain ⟨sound,room,later⟩ := (within_cons early.length).mp within
    obtain ⟨begun,onward⟩ := span_append.mp span
    have some' := field_nonempty first
    rw [List.length_append] at ends
    have moved : (add f early.length s).position = s.position + early.length := rfl
    obtain ⟨after,done,sums⟩ := ih (s := add f early.length s) onward (by omega) later
    refine ⟨after,?_,sums_cons early.length sums⟩
    rw [scan,if_pos (by omega)]
    have turned := step_complete first begun sound room
    split
    · rename_i failed
      cases turned.symm.trans failed
    · rename_i next reached
      cases turned.symm.trans reached
      exact done

-- What a message says: the digests of its fields 1, and the last of its fields 4 and 9.
def rootOf (fields : List WireField) : Root :=
  ⟨(contents 1 fields).map hex,(contents 4 fields).getLast?,(contents 9 fields).getLast?⟩

theorem root_exact (data : Bytes) (root : Root) : scanRoot data = .ok root ↔
    ∃ fields, Spelled fields data ∧ data.length ≤ maxRootBlobBytes ∧ Within fields {} ∧ root = rootOf fields := by
  have start : Within [] {} := by constructor <;> simp [contents]
  have sum : ∀ fields after, Sums fields {} after → Root.mk after.references after.provisional after.workspaceUri = rootOf fields := by
    intro fields after sums
    rw [sums.references,sums.provisional,sums.workspaceUri]
    simp [rootOf]
  constructor
  · intro done
    unfold scanRoot at done
    split at done
    · cases done
    · rename_i small
      cases scanned : scan data {} with
      | error e =>
        rw [scanned] at done
        cases done
      | ok after =>
        rw [scanned] at done
        cases done
        obtain ⟨fields,whole,spelled,span,ends,within,sums⟩ := scan_sound data {} after scanned start (Nat.zero_le _)
        have all : whole = data := by
          have there := span.there
          have length : whole.length = data.length := by
            rw [← ends]
            exact (Nat.zero_add _).symm
          rw [length] at there
          exact there.symm.trans (List.take_length)
        exact ⟨fields,all ▸ spelled,by omega,within,sum fields after sums⟩
  · rintro ⟨fields,spelled,small,within,rfl⟩
    obtain ⟨after,scanned,sums⟩ := scan_complete (s := {}) spelled ⟨by simp,List.take_length⟩ (Nat.zero_add _) within
    rw [scanRoot,if_neg (by omega),scanned]
    exact congrArg Except.ok (sum fields after sums)

theorem root_encoded (sized : ∀ f ∈ fields, f.Sized) (small : (Wire.encode fields).length ≤ maxRootBlobBytes)
    (within : Within fields {}) : scanRoot (Wire.encode fields) = .ok (rootOf fields) :=
  (root_exact _ _).mpr ⟨fields,encode_spelled fields sized,small,within,rfl⟩

theorem content_unknown (known : number ∈ [1,4,9]) (unknown : f.number ∉ [1,4,9]) : content number f = none := by
  unfold content
  split
  · exact if_neg fun same => unknown (by rwa [same])
  · rfl

theorem root_skips (unknown : f.number ∉ [1,4,9]) (before after : List WireField) :
    rootOf (before ++ f :: after) = rootOf (before ++ after) := by
  have skipped : ∀ number ∈ [1,4,9], contents number (before ++ f :: after) = contents number (before ++ after) := by
    intro number known
    unfold contents
    rw [List.filterMap_append,List.filterMap_cons_none (content_unknown known unknown),← List.filterMap_append]
  rw [rootOf,rootOf,skipped 1 (by simp),skipped 4 (by simp),skipped 9 (by simp)]

theorem encode_span (before rest : Bytes) (n : Nat) : Span (before ++ (Varint.encode n ++ rest)) before.length (Varint.encode n) where
  bound := by
    simp only [List.length_append]
    omega
  there := by rw [List.drop_left',List.take_left'] <;> rfl

theorem readVarint_encoded (before rest : Bytes) (fits : n < 2 ^ 64) :
    readVarint (before ++ (Varint.encode n ++ rest)) before.length = .ok (n,before.length + (Varint.encode n).length) :=
  (readVarint_span _ _ _ _).mpr ⟨_,encode_reads fits,encode_span before rest n,rfl⟩

theorem readVarint_large (before rest : Bytes) (large : 2 ^ 64 ≤ n) :
    ∃ e, readVarint (before ++ (Varint.encode n ++ rest)) before.length = .error e := by
  cases read : readVarint (before ++ (Varint.encode n ++ rest)) before.length with
  | error e => exact ⟨e,rfl⟩
  | ok found =>
    obtain ⟨m,p⟩ := found
    obtain ⟨bytes,reads,span,_⟩ := (readVarint_span _ _ _ _).mp read
    have same := (span_drop span).symm.trans (span_drop (encode_span before rest n))
    obtain ⟨_,rfl,_⟩ := spells_alone reads.spelled (encode_spells n) same
    exact absurd reads.fits (by omega)

-- The scan accepts the messages without groups that are in its limits, however their numbers
-- are spelled, and reads off what they say.
theorem root_scanned :
    (∀ data root, scanRoot data = .ok root ↔
      ∃ fields, Spelled fields data ∧ data.length ≤ maxRootBlobBytes ∧ Within fields {} ∧ root = rootOf fields) ∧
    (∀ fields, (∀ f ∈ fields, f.Sized) → (Wire.encode fields).length ≤ maxRootBlobBytes → Within fields {} →
      scanRoot (Wire.encode fields) = .ok (rootOf fields)) ∧
    (∀ (f : WireField) before after, f.number ∉ [1,4,9] → rootOf (before ++ f :: after) = rootOf (before ++ after)) ∧
    (∀ data s after, step data s = .ok after → s.position < after.position ∧ after.position ≤ data.length) ∧
    ∀ (before rest : Bytes) n,
      (n < 2 ^ 64 → readVarint (before ++ (Varint.encode n ++ rest)) before.length =
        .ok (n,before.length + (Varint.encode n).length)) ∧
      (2 ^ 64 ≤ n → ∃ e, readVarint (before ++ (Varint.encode n ++ rest)) before.length = .error e) := by
  refine ⟨root_exact,fun fields => root_encoded,fun f before after unknown => root_skips unknown before after,
    fun data s after => step_advances,fun before rest n => ⟨readVarint_encoded before rest,readVarint_large before rest⟩⟩

theorem scan_failed (failed : step data s = .error e) (more : s.position < data.length) : scan data s = .error e := by
  rw [scan,if_pos more]
  split
  · rename_i error
    cases failed.symm.trans error
    rfl
  · rename_i reached
    cases failed.symm.trans reached

-- A group, and a field 1 that is a number.
theorem group_refused : scanRoot [0x13,0x14] = .error (.protobuf "Unsupported protobuf wire type") ∧
    scanRoot [0x08,0x00] = .error (.protobuf "Cursor chat root field has the wrong wire type") := by
  have group : scan [0x13,0x14] {} = .error (.protobuf "Unsupported protobuf wire type") := scan_failed (by decide) (by decide)
  have number : scan [0x08,0x00] {} = .error (.protobuf "Cursor chat root field has the wrong wire type") :=
    scan_failed (by decide) (by decide)
  rw [scanRoot,if_neg (by decide),group,scanRoot,if_neg (by decide),number]
  exact ⟨rfl,rfl⟩

end AgentSideCar.CursorRoot
