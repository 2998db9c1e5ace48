import TypeStream.TypeIndex

/-! # Primitive types

The indices below `0x1000` name primitive types.  The low byte selects a base type and the next
four bits how it is pointed to; values and near pointers of the known base types have a name, all
others are shown by number. -/

namespace TypeStream.Primitive

/-- The base types by code. -/
def baseName? : Nat → Option String
  | 0x03 => some "void"
  | 0x08 => some "HRESULT"
  | 0x10 => some "signed char"
  | 0x11 => some "short"
  | 0x12 => some "long"
  | 0x13 => some "__int64"
  | 0x20 => some "unsigned char"
  | 0x21 => some "unsigned short"
  | 0x22 => some "unsigned long"
  | 0x23 => some "unsigned __int64"
  | 0x30 => some "bool"
  | 0x40 => some "float"
  | 0x41 => some "double"
  | 0x42 => some "long double"
  | 0x68 => some "__int8"
  | 0x69 => some "unsigned __int8"
  | 0x70 => some "char"
  | 0x71 => some "wchar_t"
  | 0x72 => some "short"
  | 0x73 => some "unsigned short"
  | 0x74 => some "int"
  | 0x75 => some "unsigned int"
  | 0x76 => some "__int64"
  | 0x77 => some "unsigned __int64"
  | 0x7a => some "char16_t"
  | 0x7b => some "char32_t"
  | _ => none

/-- How the pointer modes are written behind a base type; other modes have no name. -/
def modeText? : Nat → Option String
  | 0x0 => some ""
  | 0x4 | 0x6 => some " *"
  | _ => none

/-- The text of the primitive type with the given number. -/
def describe (n : Nat) : String :=
  match baseName? (n % 0x100), modeText? (n / 0x100 % 0x10) with
  | some base, some mode => base ++ mode
  | _, _ => "primitive(0x" ++ Text.hexadecimal 4 n ++ ")"

/-- The name of a primitive type; other indices have none. -/
def name? (i : TypeIndex) : Option String :=
  if i.isPrimitive then some (describe i.toNat) else none

end TypeStream.Primitive
