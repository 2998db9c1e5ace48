import TypeStream.Reader

/-! # Virtual function tables

A virtual function table belongs to a type, may extend another table, and names its methods in
slot order.  Its body is

* the index of the owner, 4 bytes
* the index of the table that it extends, 4 bytes, `0` for none
* the offset of the table pointer in the owner, 4 bytes in two's complement
* the length of the name block, 4 bytes
* the name block
* padding -/

namespace TypeStream

/-- A virtual function table. -/
structure VirtualTable where
  /-- The type that the table belongs to. -/
  owner : TypeIndex
  /-- The table that this one extends, or index `0`. -/
  base : TypeIndex
  /-- The offset of the table pointer in the owner. -/
  pointerOffset : Int32
  /-- The names of the table and of its methods. -/
  names : NameBlock
deriving DecidableEq, Repr

namespace VirtualTable

/-- Whether the table extends another one. -/
def hasBase (t : VirtualTable) : Bool := !t.base.isNone

/-- The indices that are looked up when the table is rendered, in order. -/
def targets (t : VirtualTable) : List TypeIndex :=
  if t.hasBase then [t.owner, t.base] else [t.owner]

/-- Reads the body of a table.  The owner and the base are reported as soon as they are read. -/
def decode (ctx : Context) : Reader VirtualTable := do
  let owner ← Reader.reference ctx
  let base ← Reader.reference ctx
  let pointerOffset ← Cursor.i32
  let length ← Cursor.u32
  let block ← Cursor.block length.toNat
  let names ← Reader.within block (NameBlock.decode ctx.options.charset ctx.options.naming)
  let _ ← Cursor.align
  return { owner, base, pointerOffset, names }

/-- The text of a table whose owner and base have the texts given. -/
def text (t : VirtualTable) (owner : String) (base : Option String) : String :=
  "VFTable for [" ++ owner ++ "<vfptr_offset=" ++ toString t.pointerOffset.toInt ++ ">" ++
    (match base with
      | some b => " : " ++ b
      | none => "") ++
    "] " ++ t.names.tableName.getD "" ++ ": \x7b" ++ String.intercalate "," t.names.methods ++
    "\x7d"

/-- Renders a table: first its owner, then its base if it has one. -/
def render (t : VirtualTable) (lookUp : TypeIndex → Except Error String) :
    Except Error String := do
  let owner ← lookUp t.owner
  if t.hasBase then
    let base ← lookUp t.base
    return t.text owner (some base)
  else
    return t.text owner none

end VirtualTable

end TypeStream
