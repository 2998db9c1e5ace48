import TypeStream.Record.TableShape
import TypeStream.Record.VirtualTable

/-! # Records

A record is a virtual function table, the shape of one, or any other leaf, which is kept as it
was found so that references to it still lead somewhere. -/

namespace TypeStream

/-- The leaf kind of virtual function tables. -/
def LeafKind.virtualTable : UInt16 := 0x151d

/-- The leaf kind of shapes. -/
def LeafKind.tableShape : UInt16 := 0x000a

/-- A record of a stream. -/
inductive Record
  | virtualTable (table : VirtualTable)
  | tableShape (shape : TableShape)
  /-- A leaf that was not decoded. -/
  | unknown (kind : UInt16) (bytes : List UInt8)
deriving DecidableEq, Repr

namespace Record

/-- The leaf kind of a record. -/
def kind : Record → UInt16
  | virtualTable _ => LeafKind.virtualTable
  | tableShape _ => LeafKind.tableShape
  | unknown kind _ => kind

/-- Whether the record was kept without being decoded. -/
def isUnknown : Record → Bool
  | unknown _ _ => true
  | _ => false

/-- The indices that are looked up when a record is rendered, in order. -/
def targets : Record → List TypeIndex
  | virtualTable table => table.targets
  | _ => []

/-- Renders a record, given how to render the indices that it refers to. -/
def render (lookUp : TypeIndex → Except Error String) : Record → Except Error String
  | virtualTable table => table.render lookUp
  | tableShape shape => .ok shape.text
  | unknown kind _ => .ok ("UnknownType(0x" ++ Text.hexadecimal 4 kind.toNat ++ ")")

end Record

end TypeStream
