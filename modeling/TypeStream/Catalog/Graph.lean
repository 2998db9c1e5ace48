import TypeStream.Catalog

/-! # The graph of a catalog

The stored records and what they refer to form a graph.  Rendering walks it from a record to its
owner and its base, so what it gives depends on the walks from an index. -/

namespace TypeStream.Catalog

/-- The stored record at `i` looks up `j` when it is rendered. -/
def Refers (c : Catalog) (i j : TypeIndex) : Prop := ∃ r, c.find? i = some r ∧ j ∈ r.targets

/-- From `i` there is a way to `j` along references. -/
inductive Reaches (c : Catalog) (i : TypeIndex) : TypeIndex → Prop
  | here : Reaches c i i
  | step {j k : TypeIndex} : Reaches c i j → c.Refers j k → Reaches c i k

/-- A walk is a list of stored records each of which refers to the next. -/
inductive Walk (c : Catalog) : List TypeIndex → Prop
  | single {i : TypeIndex} : c.contains i = true → Walk c [i]
  | cons {i j : TypeIndex} {rest : List TypeIndex} :
      c.Refers i j → Walk c (j :: rest) → Walk c (i :: j :: rest)

/-- Rendering can end at `i`: it is stored, or it is a primitive type. -/
def Resolves (c : Catalog) (i : TypeIndex) : Prop := c.contains i = true ∨ i.isPrimitive = true

instance (c : Catalog) (i : TypeIndex) : Decidable (c.Resolves i) :=
  inferInstanceAs (Decidable (_ ∨ _))

/-- A record that refers to something is stored. -/
theorem Refers.contains {c : Catalog} {i j : TypeIndex} (h : c.Refers i j) :
    c.contains i = true := by
  obtain ⟨r, hr, _⟩ := h
  simp only [find?] at hr
  simp [Catalog.contains, OrderedMap.contains, hr]

/-- Every record of a walk is stored. -/
theorem Walk.contains {c : Catalog} {path : List TypeIndex} (h : c.Walk path) :
    ∀ i ∈ path, c.contains i = true := by
  induction h with
  | single hi => simpa using hi
  | cons href _ ih =>
    intro k hk
    rcases List.mem_cons.1 hk with rfl | hk
    · exact href.contains
    · exact ih k hk

end TypeStream.Catalog
