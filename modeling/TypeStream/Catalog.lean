import TypeStream.OrderedMap
import TypeStream.Primitive
import TypeStream.Record

/-! # Catalogs

A catalog holds the records of a stream by index and renders them as text.

A record is rendered by rendering the indices that it refers to.  Three things stop that: an index
that is neither stored nor a primitive type, a record that is already being rendered, and a record
with `Catalog.maxDepth` others being rendered around it.  The stop is an error, or a placeholder in
the text if the catalog is set so.  A stored record wins over a primitive type of the same index. -/

namespace TypeStream

instance : Ranked TypeIndex where
  rank := TypeIndex.toNat
  rank_injective := TypeIndex.toNat_inj.1

/-- Records by index. -/
structure Catalog where
  /-- The records in ascending order of index. -/
  records : OrderedMap TypeIndex Record
  /-- Whether rendering puts a placeholder where it cannot go on. -/
  placeholders : Bool

namespace Catalog

/-- The catalog without records. -/
def empty (placeholders : Bool) : Catalog := ⟨.empty, placeholders⟩

/-- Stores a record, instead of any other with its index. -/
def insert (c : Catalog) (i : TypeIndex) (r : Record) : Catalog :=
  { c with records := c.records.insert i r }

/-- The record with an index, if there is one. -/
def find? (c : Catalog) (i : TypeIndex) : Option Record := c.records.find? i

/-- Whether there is a record with an index. -/
def contains (c : Catalog) (i : TypeIndex) : Bool := c.records.contains i

/-- How many records there are. -/
def size (c : Catalog) : Nat := c.records.size

/-- The records with their indices, in ascending order of index. -/
def entries (c : Catalog) : List (TypeIndex × Record) := c.records.entries

theorem find?_insert (c : Catalog) (i j : TypeIndex) (r : Record) :
    (c.insert i r).find? j = if j = i then some r else c.find? j := by
  simp only [find?, insert, OrderedMap.find?_insert]
  by_cases h : j = i
  · simp [h]
  · have : rank j ≠ rank i := fun hr => h (Ranked.rank_injective hr)
    simp [h, this]

/-! ### Rendering -/

/-- How many records may be rendered inside each other. -/
def maxDepth : Nat := 64

/-- What stops rendering at an index. -/
inductive Obstacle
  /-- The index is neither stored nor a primitive type. -/
  | unresolved
  /-- The record is being rendered already. -/
  | cycle
  /-- Too many records are being rendered around the record. -/
  | tooDeep
deriving DecidableEq, Repr

namespace Obstacle

/-- The word in a placeholder. -/
def word : Obstacle → String
  | unresolved => "unresolved"
  | cycle => "cycle"
  | tooDeep => "too deep"

/-- The placeholder for an index. -/
def placeholder (o : Obstacle) (i : TypeIndex) : String := "<" ++ o.word ++ " " ++ i.text ++ ">"

/-- The error at an index. -/
def error (i : TypeIndex) : Obstacle → Error
  | unresolved => .unresolved i
  | cycle => .cyclic i
  | tooDeep => .tooDeep i maxDepth

end Obstacle

/-- What rendering gives where it is stopped. -/
def stop (c : Catalog) (o : Obstacle) (i : TypeIndex) : Except Error String :=
  if c.placeholders then .ok (o.placeholder i) else .error (o.error i)

/-- What rendering gives for an index without a record. -/
def renderUnstored (c : Catalog) (i : TypeIndex) : Except Error String :=
  match Primitive.name? i with
  | some name => .ok name
  | none => c.stop .unresolved i

/-- Renders an index inside the records being rendered, the innermost first, where `budget` more
    records may be rendered inside each other. -/
def renderWithin (c : Catalog) (budget : Nat) (inProgress : List TypeIndex) (i : TypeIndex) :
    Except Error String :=
  match c.find? i with
  | none => c.renderUnstored i
  | some r =>
    if i ∈ inProgress then c.stop .cycle i
    else
      match budget with
      | 0 => c.stop .tooDeep i
      | budget + 1 => r.render (c.renderWithin budget (i :: inProgress))

/-- Renders an index. -/
def render (c : Catalog) (i : TypeIndex) : Except Error String := c.renderWithin maxDepth [] i

theorem stop_congr {c c' : Catalog} (h : c.placeholders = c'.placeholders) (o : Obstacle)
    (i : TypeIndex) : c.stop o i = c'.stop o i := by
  unfold stop
  rw [h]

theorem renderUnstored_congr {c c' : Catalog} (h : c.placeholders = c'.placeholders)
    (i : TypeIndex) : c.renderUnstored i = c'.renderUnstored i := by
  unfold renderUnstored
  rw [stop_congr h]

theorem renderWithin_of_none {c : Catalog} {i : TypeIndex} (h : c.find? i = none) (budget : Nat)
    (inProgress : List TypeIndex) : c.renderWithin budget inProgress i = c.renderUnstored i := by
  cases budget <;> simp [renderWithin, h]

theorem renderWithin_of_mem {c : Catalog} {i : TypeIndex} {r : Record} {inProgress : List TypeIndex}
    (h : c.find? i = some r) (hi : i ∈ inProgress) (budget : Nat) :
    c.renderWithin budget inProgress i = c.stop .cycle i := by
  cases budget <;> simp [renderWithin, h, hi]

theorem renderWithin_zero {c : Catalog} {i : TypeIndex} {r : Record} {inProgress : List TypeIndex}
    (h : c.find? i = some r) (hi : i ∉ inProgress) :
    c.renderWithin 0 inProgress i = c.stop .tooDeep i := by
  simp [renderWithin, h, hi]

theorem renderWithin_succ {c : Catalog} {i : TypeIndex} {r : Record} {inProgress : List TypeIndex}
    (h : c.find? i = some r) (hi : i ∉ inProgress) (budget : Nat) :
    c.renderWithin (budget + 1) inProgress i =
      r.render (c.renderWithin budget (i :: inProgress)) := by
  simp [renderWithin, h, hi]

end Catalog

end TypeStream
