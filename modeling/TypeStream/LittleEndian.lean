/-! # Numbers as bytes

Numbers of fixed width are stored with the least significant byte first.  `encode` and `decode`
are inverse to each other on the byte lists of a width and the numbers that fit into it. -/

namespace TypeStream.LittleEndian

/-- The number that bytes stand for. -/
def decode : List UInt8 → Nat
  | [] => 0
  | b :: bytes => b.toNat + 256 * decode bytes

/-- The `width` low bytes of a number. -/
def encode : Nat → Nat → List UInt8
  | 0, _ => []
  | width + 1, n => UInt8.ofNat n :: encode width (n / 256)

/-- How many numbers there are of a width. -/
def capacity : Nat → Nat
  | 0 => 1
  | width + 1 => 256 * capacity width

@[simp] theorem length_encode (width n : Nat) : (encode width n).length = width := by
  induction width generalizing n with
  | zero => rfl
  | succ width ih => simp [encode, ih]

/-- Bytes stand for a number of their width. -/
theorem decode_lt (bytes : List UInt8) : decode bytes < capacity bytes.length := by
  induction bytes with
  | nil => simp [decode, capacity]
  | cons b bytes ih =>
    have hb := b.toNat_lt
    simp only [decode, List.length_cons, capacity]
    omega

theorem decode_lt_of_length {bytes : List UInt8} {width : Nat} (h : bytes.length = width) :
    decode bytes < capacity width := by
  have hlt := decode_lt bytes
  rwa [h] at hlt

/-- Two bytes stand for a number of 16 bits. -/
theorem toNat_ofNat_decode {bytes : List UInt8} (h : bytes.length = 2) :
    (UInt16.ofNat (decode bytes)).toNat = decode bytes := by
  rw [UInt16.toNat_ofNat']
  exact Nat.mod_eq_of_lt (decode_lt_of_length h)

/-- Numbers of a width are read back. -/
theorem decode_encode {width n : Nat} (h : n < capacity width) : decode (encode width n) = n := by
  induction width generalizing n with
  | zero =>
    simp only [capacity] at h
    simp only [encode, decode]
    omega
  | succ width ih =>
    simp only [capacity] at h
    have hrest : n / 256 < capacity width := by omega
    simp only [encode, decode, ih hrest, UInt8.toNat_ofNat']
    omega

/-- Bytes are written again as they were read. -/
theorem encode_decode (bytes : List UInt8) : encode bytes.length (decode bytes) = bytes := by
  induction bytes with
  | nil => rfl
  | cons b bytes ih =>
    have hb := b.toNat_lt
    have hdiv : (b.toNat + 256 * decode bytes) / 256 = decode bytes := by omega
    have hlow : UInt8.ofNat (b.toNat + 256 * decode bytes) = b := by
      rw [← UInt8.toNat_inj, UInt8.toNat_ofNat']
      omega
    simp only [List.length_cons, encode, decode, hdiv, hlow, ih]

end TypeStream.LittleEndian
