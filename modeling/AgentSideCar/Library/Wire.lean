import AgentSideCar.Library.Varint

namespace AgentSideCar.Wire
open Varint

abbrev Bytes := List UInt8

-- The wire format's payloads, groups left out.
inductive Payload where
  | varint (value : Nat)
  | fixed64 (bytes : Bytes)
  | bytes (bytes : Bytes)
  | fixed32 (bytes : Bytes)
  deriving DecidableEq

structure WireField where
  number : Nat
  payload : Payload
  deriving DecidableEq

def Payload.wireType : Payload → Nat
  | .varint _ => 0
  | .fixed64 _ => 1
  | .bytes _ => 2
  | .fixed32 _ => 5

def WireField.key (f : WireField) : Nat := f.number * 8 + f.payload.wireType

-- What a payload may be written as: any spelling of a number or a length.
def Payload.Spelled : Payload → Bytes → Prop
  | .varint value,body => Reads body value
  | .fixed64 content,body => body = content ∧ content.length = 8
  | .bytes content,body => ∃ size, Reads size content.length ∧ body = size ++ content
  | .fixed32 content,body => body = content ∧ content.length = 4

def WireField.Spelled (f : WireField) (whole : Bytes) : Prop :=
  ∃ key body, Reads key f.key ∧ f.payload.Spelled body ∧ whole = key ++ body

inductive Spelled : List WireField → Bytes → Prop where
  | nil : Spelled [] []
  | cons : f.Spelled early → Spelled rest late → Spelled (f :: rest) (early ++ late)

-- A field that the wire format has room for.
def Payload.Sized : Payload → Prop
  | .varint value => value < 2 ^ 64
  | .fixed64 content => content.length = 8
  | .bytes content => content.length < 2 ^ 64
  | .fixed32 content => content.length = 4

def WireField.Sized (f : WireField) : Prop := f.key < 2 ^ 64 ∧ f.payload.Sized

def Payload.encode : Payload → Bytes
  | .varint value => Varint.encode value
  | .fixed64 content => content
  | .bytes content => Varint.encode content.length ++ content
  | .fixed32 content => content

def WireField.encode (f : WireField) : Bytes := Varint.encode f.key ++ f.payload.encode

def encode (fields : List WireField) : Bytes := fields.flatMap WireField.encode

theorem payload_encoded (p : Payload) (sized : p.Sized) : p.Spelled p.encode := by
  cases p with
  | varint value => exact encode_reads sized
  | fixed64 content => exact ⟨rfl,sized⟩
  | bytes content => exact ⟨_,encode_reads sized,rfl⟩
  | fixed32 content => exact ⟨rfl,sized⟩

theorem encode_spelled (fields : List WireField) (sized : ∀ f ∈ fields, f.Sized) : Spelled fields (encode fields) := by
  induction fields with
  | nil => exact .nil
  | cons f rest ih =>
    have own := sized f List.mem_cons_self
    exact .cons ⟨_,_,encode_reads own.1,payload_encoded f.payload own.2,rfl⟩
      (ih fun g inside => sized g (List.mem_cons_of_mem _ inside))

theorem field_nonempty {f : WireField} (spelled : f.Spelled whole) : 0 < whole.length := by
  obtain ⟨key,body,read,_,rfl⟩ := spelled
  rw [List.length_append]
  exact Nat.add_pos_left read.spelled.nonempty _

end AgentSideCar.Wire
