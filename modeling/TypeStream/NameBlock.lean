import TypeStream.Cursor

/-! # Name blocks

A name block is a run of strings, each ended by a zero byte.  The first string names a table, the
others its methods; a block without strings leaves the table unnamed, which can be forbidden. -/

namespace TypeStream

/-- Whether a table must have a name. -/
inductive TableNaming
  | optional
  | required
deriving DecidableEq, Repr

/-- The names of a table and of its methods. -/
structure NameBlock where
  /-- The first string, if there is any. -/
  tableName : Option String
  /-- The other strings, in order. -/
  methods : List String
deriving DecidableEq, Repr

namespace NameBlock

/-- How many names there are. -/
def size (b : NameBlock) : Nat := b.tableName.toList.length + b.methods.length

/-- Whether there is no name, which shows at the first one. -/
def isEmpty (b : NameBlock) : Bool := b.tableName.isNone

/-- The block that the strings make up, if there is any string. -/
def ofStrings? : List String → Option NameBlock
  | [] => none
  | tableName :: methods => some ⟨some tableName, methods⟩

/-- Reads a block that takes up the rest of a window. -/
def decode (charset : Charset) (naming : TableNaming) : Cursor.Read NameBlock := do
  match ofStrings? (← Cursor.terminatedStrings charset), naming with
  | some block, _ => return block
  | none, .optional => return ⟨none, []⟩
  | none, .required => throw .unnamedTable

end NameBlock

end TypeStream
