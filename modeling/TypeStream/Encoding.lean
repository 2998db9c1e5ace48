import TypeStream.Record

/-! # Writing records

The bytes that decoding reads.  Names are written in a character set that has all their
characters; the frame of a record ends with padding of any content. -/

namespace TypeStream

/-- Names as a block: each one is ended by a zero byte. -/
def NameBlock.encode? (charset : Charset) (b : NameBlock) : Option (List UInt8) :=
  ((b.tableName.toList ++ b.methods).mapM charset.encode?).map fun names =>
    names.flatMap (· ++ [0])

/-- The body of a table in front of its padding. -/
def VirtualTable.encode? (charset : Charset) (t : VirtualTable) : Option (List UInt8) :=
  (t.names.encode? charset).map fun block =>
    LittleEndian.encode 4 t.owner.toNat ++ LittleEndian.encode 4 t.base.toNat ++
      LittleEndian.encode 4 t.pointerOffset.toUInt32.toNat ++
      LittleEndian.encode 4 block.length ++ block

namespace TableShape

/-- Bytes whose halves are the codes given, the low one first; a missing last half is zero. -/
def pack : List UInt8 → List UInt8
  | [] => []
  | [a] => [a]
  | a :: b :: rest => (a + 16 * b) :: pack rest

/-- The body of a shape in front of its padding. -/
def encode (s : TableShape) : List UInt8 :=
  LittleEndian.encode 2 s.slots.length ++ pack (s.slots.map SlotKind.code)

theorem take_unpack_pack {codes : List UInt8} (h : ∀ c ∈ codes, c.toNat < 16) :
    (unpack (pack codes)).take codes.length = codes := by
  induction codes using pack.induct with
  | case1 => rfl
  | case2 a =>
    have ha := h a (by simp)
    have hlow : a % 16 = a := by
      rw [← UInt8.toNat_inj, UInt8.toNat_mod]
      exact Nat.mod_eq_of_lt ha
    simp [pack, unpack, hlow]
  | case3 a b rest ih =>
    have ha := h a (by simp)
    have hb := h b (by simp)
    have hsum : (a + 16 * b).toNat = a.toNat + 16 * b.toNat := by
      simp only [UInt8.toNat_add, UInt8.toNat_mul, UInt8.reduceToNat]
      omega
    have hlow : (a + 16 * b) % 16 = a := by
      rw [← UInt8.toNat_inj, UInt8.toNat_mod, hsum]
      show (a.toNat + 16 * b.toNat) % 16 = a.toNat
      omega
    have hhigh : (a + 16 * b) / 16 = b := by
      rw [← UInt8.toNat_inj, UInt8.toNat_div, hsum]
      show (a.toNat + 16 * b.toNat) / 16 = b.toNat
      omega
    have hrest := ih fun c hc => h c (by simp [hc])
    simp only [unpack] at hrest
    simp [pack, unpack, hlow, hhigh, hrest]

end TableShape

/-- The body of a record in front of its padding. -/
def Record.encode? (charset : Charset) : Record → Option (List UInt8)
  | .virtualTable table => table.encode? charset
  | .tableShape shape => some shape.encode
  | .unknown _ bytes => some bytes

namespace Frame

/-- A frame with the payload given, which is the leaf kind, the body and the padding. -/
def encode (payload : List UInt8) : List UInt8 :=
  LittleEndian.encode 2 payload.length ++ payload

/-- The frame of a record. -/
def ofRecord? (charset : Charset) (r : Record) (padding : List UInt8) : Option (List UInt8) :=
  (r.encode? charset).map fun body =>
    encode (LittleEndian.encode 2 r.kind.toNat ++ body ++ padding)

/-- The payloads of the complete frames at the front of a byte list, and what lies behind them. -/
def split (bytes : List UInt8) : List (List UInt8) × List UInt8 :=
  match bytes with
  | low :: high :: rest =>
    let length := LittleEndian.decode [low, high]
    if length ≤ rest.length then
      let (payloads, tail) := split (rest.drop length)
      (rest.take length :: payloads, tail)
    else ([], bytes)
  | _ => ([], bytes)
termination_by bytes.length
decreasing_by
  simp only [List.length_drop, List.length_cons]
  omega

end Frame

end TypeStream
