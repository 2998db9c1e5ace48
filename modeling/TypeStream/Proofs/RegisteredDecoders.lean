import TypeStream.Proofs.Runs

/-!
# Tables made by registering decoders

A table that is made by registering the decoders of this library gives one of them for every leaf
kind, or keeps the leaf as it is.  So a property of these five decoders is one of whatever the
table gives (`Registered.decoder_induction`).

None of the five looks at all options: `Options.ReadsAlike` names those that matter while a record
is read.

## Key results

- `Registered.decoder_induction`: what holds of the five decoders holds of the table
- `Registered.outcome_eq`: what a frame decodes to depends on three options only
-/

namespace TypeStream

/-- The options agree on how the bytes of a record are read. -/
structure Options.ReadsAlike (o o' : Options) : Prop where
  charset_eq : o.charset = o'.charset
  alignment_eq : o.alignment = o'.alignment
  naming_eq : o.naming = o'.naming

namespace DecoderTable

/-- The tables that registering the decoders of this library makes, in any order and under any leaf
    kinds. -/
inductive Registered : DecoderTable → Prop
  | empty : Registered .empty
  | standard : Registered .standard
  | insert {t : DecoderTable} (kind : UInt16) {decoder : Decoder} : Registered t →
      decoder ∈ [Decoder.virtualTable, .tableShape, .pair, .refuse] →
      Registered (t.insert kind decoder)

variable {t : DecoderTable}

/-- What holds of the five decoders holds of every decoder that a table of them gives. -/
theorem Registered.decoder_induction {P : Decoder → Prop} (hvirtualTable : P .virtualTable)
    (htableShape : P .tableShape) (hpair : P .pair) (hrefuse : P .refuse)
    (hkeep : ∀ kind, P (.keep kind)) (ht : t.Registered) (kind : UInt16) :
    P (t.decoder kind) := by
  have hempty : ∀ kind, P (DecoderTable.empty.decoder kind) := hkeep
  induction ht with
  | empty => exact hempty kind
  | standard =>
    -- The table knows the two kinds of its own and keeps every other.
    simp only [DecoderTable.standard, decoder_insert]
    split
    · exact htableShape
    · split
      · exact hvirtualTable
      · exact hempty kind
  | insert k _ hdecoder ih =>
    rw [decoder_insert]
    split
    -- A registered decoder is one of four.
    · simp only [List.mem_cons, List.not_mem_nil, or_false] at hdecoder
      rcases hdecoder with rfl | rfl | rfl | rfl
      · exact hvirtualTable
      · exact htableShape
      · exact hpair
      · exact hrefuse
    · exact ih

/-! ### Options that matter -/

variable {o o' : Options}

/-- Options that read alike give a decoder that does the same. -/
theorem Registered.decoder_eq (ht : t.Registered) (h : o.ReadsAlike o') (kind : UInt16)
    (index : TypeIndex) : t.decoder kind ⟨index, o⟩ = t.decoder kind ⟨index, o'⟩ := by
  apply ht.decoder_induction (P := fun decoder => decoder ⟨index, o⟩ = decoder ⟨index, o'⟩)
  · unfold Decoder.virtualTable VirtualTable.decode
    simp only [h.charset_eq, h.naming_eq]
    rfl
  all_goals intros; rfl

/-- Frames decode to the same under options that are read alike. -/
theorem Registered.outcome_eq (ht : t.Registered) (h : o.ReadsAlike o') :
    t.outcome o = t.outcome o' := by
  funext f
  unfold outcome readFrame
  simp only [h.alignment_eq, ht.decoder_eq h]

end DecoderTable

end TypeStream
