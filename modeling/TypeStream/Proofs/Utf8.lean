import TypeStream.Charset

/-!
# Reading UTF-8 that is well-formed

The bytes of a character take the reader from between two characters through the states of one
sequence and back, whatever bytes follow.  Its first byte announces a sequence (`lead?_two` and its
siblings), every other byte lies in the range that the state asks for, and the payload bits add up
to the code point.

## Key results

- `Utf8.decode_encodeChar_append`: the bytes of a character are read as that character
- `Utf8.zero_notMem_encodeChar`: only the character NUL is written with a zero byte
-/

namespace TypeStream.Utf8

/-! ### One byte -/

/-- Of all numbers that fit into a byte only zero gives the zero byte. -/
theorem zero_ne_ofNat {n : Nat} (hlow : 0 < n) (hhigh : n < 0x100) :
    (0 : UInt8) ≠ UInt8.ofNat n := by
  intro hzero
  have hn := congrArg UInt8.toNat hzero
  rw [UInt8.toNat_zero, UInt8.toNat_ofNat_of_lt' hhigh] at hn
  omega

/-- A byte below `0x80` is a character by itself. -/
theorem decode_ascii {n : Nat} (h : n < 0x80) (bytes : List UInt8) :
    decode (UInt8.ofNat n :: bytes) = Char.ofNat n :: decode bytes := by
  have hn : (UInt8.ofNat n).toNat = n := UInt8.toNat_ofNat_of_lt' (by show n < 0x100; omega)
  simp only [decode, decodeFrom_cons, step, start, hn, h, ↓reduceIte]
  rfl

/-- A byte that announces a sequence opens it. -/
theorem decode_lead {n : Nat} {p : Pending} (hlow : 0x80 ≤ n) (hhigh : n < 0x100)
    (hlead : lead? n = some p) (bytes : List UInt8) :
    decode (UInt8.ofNat n :: bytes) = decodeFrom (some p) bytes := by
  have hn : (UInt8.ofNat n).toNat = n := UInt8.toNat_ofNat_of_lt' hhigh
  simp only [decode, decodeFrom_cons, step, start, hn, Nat.not_lt.2 hlow, ↓reduceIte, hlead]
  rfl

/-- A byte in the range that is asked for goes on with a sequence. -/
theorem decodeFrom_next {p : Pending} {n more : Nat} (hlow : p.low ≤ n) (hhigh : n ≤ p.high)
    (hn : n < 0x100) (hmore : p.more = more + 1) (bytes : List UInt8) :
    decodeFrom (some p) (UInt8.ofNat n :: bytes) =
      decodeFrom (some ⟨p.bits * 64 + n % 64, 0x80, 0xbf, more⟩) bytes := by
  have hn' : (UInt8.ofNat n).toNat = n := UInt8.toNat_ofNat_of_lt' hn
  simp only [decodeFrom_cons, step, hn', hlow, hhigh, and_self, ↓reduceIte, hmore]
  rfl

/-- The last byte of a sequence completes a character. -/
theorem decodeFrom_last {p : Pending} {n : Nat} (hlow : p.low ≤ n) (hhigh : n ≤ p.high)
    (hn : n < 0x100) (hmore : p.more = 0) (bytes : List UInt8) :
    decodeFrom (some p) (UInt8.ofNat n :: bytes) =
      Char.ofNat (p.bits * 64 + n % 64) :: decode bytes := by
  have hn' : (UInt8.ofNat n).toNat = n := UInt8.toNat_ofNat_of_lt' hn
  simp only [decodeFrom_cons, step, hn', hlow, hhigh, and_self, ↓reduceIte, hmore]
  rfl

/-! ### First bytes -/

/-- The first bytes of two. -/
theorem lead?_two {b : Nat} (hlow : 0xc2 ≤ b) (hhigh : b ≤ 0xdf) :
    lead? b = some ⟨b - 0xc0, 0x80, 0xbf, 0⟩ := by
  simp [lead?, hlow, hhigh]

/-- The first bytes of three.  Behind the first one of them and behind `0xed` the second byte has a
    smaller range. -/
theorem lead?_three {b : Nat} (hlow : 0xe0 ≤ b) (hhigh : b ≤ 0xef) :
    lead? b = some ⟨b - 0xe0, if b = 0xe0 then 0xa0 else 0x80,
      if b = 0xed then 0x9f else 0xbf, 1⟩ := by
  unfold lead?
  grind

/-- The first bytes of four, with smaller ranges behind the first and the last one of them. -/
theorem lead?_four {b : Nat} (hlow : 0xf0 ≤ b) (hhigh : b ≤ 0xf4) :
    lead? b = some ⟨b - 0xf0, if b = 0xf0 then 0x90 else 0x80,
      if b = 0xf4 then 0x8f else 0xbf, 2⟩ := by
  unfold lead?
  grind

/-! ### Sequences -/

/-- The bytes of a code point that is written with two bytes. -/
theorem decode_two {n : Nat} (hlow : 0x80 ≤ n) (hhigh : n ≤ 0x7ff) (bytes : List UInt8) :
    decode (UInt8.ofNat (n / 64 % 0x20 + 0xc0) :: UInt8.ofNat (n % 0x40 + 0x80) :: bytes) =
      Char.ofNat n :: decode bytes := by
  have hlead := lead?_two (b := n / 64 % 0x20 + 0xc0) (by omega) (by omega)
  rw [decode_lead (by omega) (by omega) hlead,
    decodeFrom_last (by show 0x80 ≤ _; omega) (by show _ ≤ 0xbf; omega) (by omega) rfl]
  have hbits : (n / 64 % 0x20 + 0xc0 - 0xc0) * 64 + (n % 0x40 + 0x80) % 64 = n := by omega
  rw [hbits]

/-- The bytes of a code point that is written with three bytes.  The range of the second byte keeps
    out the surrogates and what two bytes are enough for. -/
theorem decode_three {n : Nat} (hlow : 0x7ff < n) (hhigh : n ≤ 0xffff)
    (hchar : n < 0xd800 ∨ 0xdfff < n) (bytes : List UInt8) :
    decode (UInt8.ofNat (n / 4096 % 0x10 + 0xe0) :: UInt8.ofNat (n / 64 % 0x40 + 0x80) ::
      UInt8.ofNat (n % 0x40 + 0x80) :: bytes) = Char.ofNat n :: decode bytes := by
  have hlead := lead?_three (b := n / 4096 % 0x10 + 0xe0) (by omega) (by omega)
  -- The second byte of a sequence has a range that depends on the first one.
  have hlow' : (if n / 4096 % 0x10 + 0xe0 = 0xe0 then 0xa0 else 0x80) ≤
      n / 64 % 0x40 + 0x80 := by split <;> omega
  have hhigh' : n / 64 % 0x40 + 0x80 ≤
      (if n / 4096 % 0x10 + 0xe0 = 0xed then 0x9f else 0xbf) := by split <;> omega
  rw [decode_lead (by omega) (by omega) hlead, decodeFrom_next hlow' hhigh' (by omega) rfl,
    decodeFrom_last (by show 0x80 ≤ _; omega) (by show _ ≤ 0xbf; omega) (by omega) rfl]
  -- The payload bits of the three bytes add up to the code point.
  have hbits : ((n / 4096 % 0x10 + 0xe0 - 0xe0) * 64 + (n / 64 % 0x40 + 0x80) % 64) * 64 +
      (n % 0x40 + 0x80) % 64 = n := by omega
  rw [hbits]

theorem decode_four {n : Nat} (hlow : 0xffff < n) (hhigh : n < 0x110000) (bytes : List UInt8) :
    decode (UInt8.ofNat (n / 262144 % 0x08 + 0xf0) :: UInt8.ofNat (n / 4096 % 0x40 + 0x80) ::
      UInt8.ofNat (n / 64 % 0x40 + 0x80) :: UInt8.ofNat (n % 0x40 + 0x80) :: bytes) =
        Char.ofNat n :: decode bytes := by
  -- The lead byte decides the range of the byte behind it.
  have hlead := lead?_four (b := n / 262144 % 0x08 + 0xf0) (by omega) (by omega)
  have hlow' : (if n / 262144 % 0x08 + 0xf0 = 0xf0 then 0x90 else 0x80) ≤
      n / 4096 % 0x40 + 0x80 := by split <;> omega
  have hhigh' : n / 4096 % 0x40 + 0x80 ≤
      (if n / 262144 % 0x08 + 0xf0 = 0xf4 then 0x8f else 0xbf) := by split <;> omega
  rw [decode_lead (by omega) (by omega) hlead, decodeFrom_next hlow' hhigh' (by omega) rfl,
    decodeFrom_next (by show 0x80 ≤ _; omega) (by show _ ≤ 0xbf; omega) (by omega) rfl,
    decodeFrom_last (by show 0x80 ≤ _; omega) (by show _ ≤ 0xbf; omega) (by omega) rfl]
  -- The bits of the four bytes make up the number.
  have hbits : (((n / 262144 % 0x08 + 0xf0 - 0xf0) * 64 + (n / 4096 % 0x40 + 0x80) % 64) * 64 +
      (n / 64 % 0x40 + 0x80) % 64) * 64 + (n % 0x40 + 0x80) % 64 = n := by omega
  rw [hbits]

/-! ### Characters -/

theorem toNat_val (c : Char) : c.val.toNat = c.toNat := rfl

/-- Code points go up to `0x10ffff`, without the surrogates. -/
theorem toNat_bounds (c : Char) :
    c.toNat < 0xd800 ∨ (0xdfff < c.toNat ∧ c.toNat < 0x110000) := c.valid

/-- The bytes of a character are read as that character, whatever follows them. -/
theorem decode_encodeChar_append (c : Char) (bytes : List UInt8) :
    decode (String.utf8EncodeChar c ++ bytes) = c :: decode bytes := by
  have hbounds := toNat_bounds c
  have hchar := Char.ofNat_toNat c
  unfold String.utf8EncodeChar
  simp only [toNat_val]
  -- `utf8EncodeChar` splits on the number of bytes, from one to four.
  split
  · rw [List.singleton_append, decode_ascii (by omega), hchar]
  split
  · exact (decode_two (by omega) (by omega) bytes).trans (congrArg (· :: _) hchar)
  split
  · have hscalar : c.toNat < 0xd800 ∨ 0xdfff < c.toNat := by omega
    exact (decode_three (by omega) (by omega) hscalar bytes).trans (congrArg (· :: _) hchar)
  · exact (decode_four (by omega) (by omega) bytes).trans (congrArg (· :: _) hchar)

/-- Only the character NUL is written with a zero byte. -/
theorem zero_notMem_encodeChar {c : Char} (h : 0 < c.toNat) : 0 ∉ String.utf8EncodeChar c := by
  have hbounds := toNat_bounds c
  unfold String.utf8EncodeChar
  simp only [toNat_val]
  -- Every byte of a character has bits of its own or a mark, so none is zero.
  split
  · simpa using zero_ne_ofNat h (by omega)
  split
  · simp only [List.mem_cons, List.not_mem_nil, or_false, not_or]
    refine ⟨?_, ?_⟩ <;> exact zero_ne_ofNat (by omega) (by omega)
  split
  · simp only [List.mem_cons, List.not_mem_nil, or_false, not_or]
    refine ⟨?_, ?_, ?_⟩ <;> exact zero_ne_ofNat (by omega) (by omega)
  · simp only [List.mem_cons, List.not_mem_nil, or_false, not_or]
    refine ⟨?_, ?_, ?_, ?_⟩ <;> exact zero_ne_ofNat (by omega) (by omega)

end TypeStream.Utf8
