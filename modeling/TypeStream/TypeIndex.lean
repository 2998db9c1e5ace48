import TypeStream.Text.Hexadecimal
import TypeStream.Text.Numeral

/-! # Type indices

Records refer to each other by index.  Index `0` stands for "no reference", the indices below
`0x1000` name primitive types that no stream stores, and the records of a stream are numbered
from `0x1000` on unless another first index is chosen.

Numbering never wraps: the successor of the last index is that index again (`toNat_next`).  An
index is shown as `0x` and at least four hexadecimal digits, and `ofText` reads that form back
beside plain decimal numerals. -/

namespace TypeStream

/-- The number of a record, a primitive type, or of no type at all. -/
structure TypeIndex where
  value : UInt32
deriving DecidableEq, Repr, Inhabited

namespace TypeIndex

/-- The index as a natural number. -/
def toNat (i : TypeIndex) : Nat := i.value.toNat

theorem toNat_lt (i : TypeIndex) : i.toNat < UInt32.size := i.value.toNat_lt

theorem toNat_inj {i j : TypeIndex} : i.toNat = j.toNat ↔ i = j := by
  cases i; cases j; simp [toNat, UInt32.toNat_inj]

/-- Indices are ordered by number. -/
instance : LT TypeIndex := ⟨fun i j => i.toNat < j.toNat⟩

theorem lt_def {i j : TypeIndex} : i < j ↔ i.toNat < j.toNat := Iff.rfl

instance (i j : TypeIndex) : Decidable (i < j) := inferInstanceAs (Decidable (i.toNat < j.toNat))

/-- The index that means "no reference". -/
def none : TypeIndex := ⟨0⟩

/-- The usual index of the first record of a stream, and the bound of the primitive types. -/
def firstRecord : TypeIndex := ⟨0x1000⟩

/-- Whether the index means "no reference". -/
def isNone (i : TypeIndex) : Bool := i = none

/-- Whether the index lies in the range of the primitive types. -/
def isPrimitive (i : TypeIndex) : Bool := !i.isNone && i < firstRecord

/-- The index of the record that follows; the last index follows itself. -/
def next (i : TypeIndex) : TypeIndex :=
  if i.toNat + 1 < UInt32.size then ⟨i.value + 1⟩ else i

theorem toNat_next (i : TypeIndex) : i.next.toNat = min (i.toNat + 1) (UInt32.size - 1) := by
  have hi := i.toNat_lt
  unfold next
  split
  · rename_i h
    have : (i.value + 1).toNat = i.value.toNat + 1 := by
      rw [UInt32.toNat_add]
      exact Nat.mod_eq_of_lt h
    simp only [toNat] at *
    omega
  · omega

/-- The index as it is shown: `0x` and at least four hexadecimal digits. -/
def text (i : TypeIndex) : String := "0x" ++ Text.hexadecimal 4 i.toNat

theorem isAlphanum_of_mem_text {i : TypeIndex} {c : Char} (h : c ∈ i.text.toList) :
    c.isAlphanum = true := by
  rw [text, String.toList_append, List.mem_append] at h
  rcases h with h | h
  · have hdigits : "0x".toList.all Char.isAlphanum = true := by decide
    exact List.all_eq_true.1 hdigits c h
  · exact Text.isAlphanum_of_mem_hexadecimal h

/-- A text that does not name an index. -/
structure TextError where
  /-- The text as it was given. -/
  text : String
  /-- What is wrong with its numeral. -/
  reason : Text.NumeralError
deriving DecidableEq, Repr

/-- The report shown to the user. -/
def TextError.message (e : TextError) : String :=
  "invalid record index '" ++ e.text ++ "': " ++ e.reason.message

/-- The radix of a numeral and the characters that hold its sign and digits: sixteen behind `0x`
    or `0X`, else ten. -/
def numeralOf : List Char → Nat × List Char
  | '0' :: 'x' :: digits => (16, digits)
  | '0' :: 'X' :: digits => (16, digits)
  | digits => (10, digits)

/-- Reads an index, hexadecimal behind `0x` or `0X` and decimal otherwise. -/
def ofText (text : String) : Except TextError TypeIndex :=
  let (radix, digits) := numeralOf text.toList
  match Text.Numeral.parse radix UInt32.size digits with
  | .ok n => .ok ⟨UInt32.ofNat n⟩
  | .error reason => .error ⟨text, reason⟩

end TypeIndex

end TypeStream
