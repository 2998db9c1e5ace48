import TypeStream.Reader

/-! # Shapes of virtual function tables

A shape gives the kind of every slot of a table.  Its body is the number of slots, 2 bytes, and the
codes of the slots, 4 bits each with the low half of a byte first, and padding. -/

namespace TypeStream

/-- The kind of a slot. -/
inductive SlotKind
  | near
  | far
  | thin
  | outer
  | metaSlot
  | near32
  | far32
  | unused
  /-- A code without a meaning. -/
  | unknown (code : UInt8)
deriving DecidableEq, Repr

namespace SlotKind

/-- The kind that a code stands for. -/
def ofCode (code : UInt8) : SlotKind :=
  match code.toNat with
  | 0 => near
  | 1 => far
  | 2 => thin
  | 3 => outer
  | 4 => metaSlot
  | 5 => near32
  | 6 => far32
  | 7 => unused
  | _ => unknown code

/-- The code of a kind. -/
def code : SlotKind → UInt8
  | near => 0
  | far => 1
  | thin => 2
  | outer => 3
  | metaSlot => 4
  | near32 => 5
  | far32 => 6
  | unused => 7
  | unknown code => code

/-- The kind as it is shown. -/
def text : SlotKind → String
  | near => "near"
  | far => "far"
  | thin => "thin"
  | outer => "outer"
  | metaSlot => "meta"
  | near32 => "near32"
  | far32 => "far32"
  | unused => "unused"
  | unknown code => "unknown(" ++ toString code.toNat ++ ")"

theorem code_ofCode (c : UInt8) : (ofCode c).code = c := by
  rw [← UInt8.toNat_inj]
  simp only [ofCode]
  split <;> simp_all [code]

end SlotKind

/-- The kinds of the slots of a table, in slot order. -/
structure TableShape where
  slots : List SlotKind
deriving DecidableEq, Repr

namespace TableShape

/-- The halves of every byte, the low one first. -/
def unpack (packed : List UInt8) : List UInt8 :=
  packed.flatMap fun b => [b % 16, b / 16]

/-- Reads the body of a shape. -/
def decode (_ : Context) : Reader TableShape := do
  let count ← Cursor.u16
  let packed ← Cursor.bytes "vtshape descriptors" ((count.toNat + 1) / 2)
  let _ ← Cursor.align
  return ⟨((unpack packed).take count.toNat).map SlotKind.ofCode⟩

/-- The shape as it is shown. -/
def text (s : TableShape) : String :=
  "VTShape: \x7b" ++ String.intercalate "," (s.slots.map SlotKind.text) ++ "\x7d"

end TableShape

end TypeStream
