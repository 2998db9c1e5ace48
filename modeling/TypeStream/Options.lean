import TypeStream.NameBlock

/-! # Options

The settings of one decoding run.  `Options.validate` holds the two rules that a setting can
break; of two broken rules the alignment is reported. -/

namespace TypeStream

/-- How a stream is decoded. -/
structure Options where
  /-- How the bytes of names are read. -/
  charset : Charset := .latin1
  /-- The distance of the boundaries that records are padded to. -/
  alignment : Nat := 4
  /-- Whether tables must have a name. -/
  naming : TableNaming := .optional
  /-- The index of the first record. -/
  firstIndex : TypeIndex := .firstRecord
  /-- Whether the first record that cannot be decoded ends the run. -/
  strict : Bool := false
  /-- Whether rendering puts a placeholder where it cannot go on. -/
  placeholders : Bool := false
deriving DecidableEq, Repr

namespace Options

/-- Refuses an alignment that is no power of two, and the first index `0`. -/
def validate (o : Options) : Except Error Unit :=
  if ¬ o.alignment.isPowerOfTwo then
    .error (.invalidArgument s!"alignment must be a power of two, got {o.alignment}")
  else if o.firstIndex.isNone then
    .error (.invalidArgument "first record index cannot be the 0 sentinel")
  else .ok ()

theorem validate_eq_ok_iff {o : Options} :
    o.validate = .ok () ↔ o.alignment.isPowerOfTwo ∧ o.firstIndex ≠ .none := by
  by_cases ha : o.alignment.isPowerOfTwo <;> by_cases hf : o.firstIndex = .none <;>
    simp [validate, TypeIndex.isNone, ha, hf]

end Options

end TypeStream
