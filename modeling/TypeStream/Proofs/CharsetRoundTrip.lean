import TypeStream.Proofs.Utf8

/-!
# Names that a character set can write

A text that has no NUL and only characters of a character set is written without a zero byte, so it
can stand in a name block, and its bytes are read as that text again.

## Key results

- `Charset.encode?_of_writes`: such a text has bytes
- `Charset.decode_encode` / `Charset.zero_notMem_encode`: which are read as the text, and none of
  which is zero
-/

namespace TypeStream

/-- Where every element has a result, the results are those of the elements. -/
theorem mapM_eq_some_map {α β : Type} {f : α → Option β} {g : α → β} {l : List α}
    (h : ∀ a ∈ l, f a = some (g a)) : l.mapM f = some (l.map g) := by
  induction l with
  | nil => rfl
  | cons a l ih =>
    have ha := h a List.mem_cons_self
    have hl := ih fun b hb => h b (List.mem_cons_of_mem _ hb)
    simp [ha, hl]

namespace Charset

/-- How many code points a character set has, from NUL on. -/
def limit : Charset → Nat
  | latin1 => 0x100
  | ascii => 0x80
  | utf8 => 0x110000

/-- The text can stand in a name block: it has no NUL, and the character set has all the others. -/
def Writes (charset : Charset) (text : String) : Prop :=
  ∀ c ∈ text.toList, 0 < c.toNat ∧ c.toNat < charset.limit

instance (charset : Charset) (text : String) : Decidable (charset.Writes text) :=
  -- Only the characters of the text are gone through, and not all that there are.
  List.decidableBAll (fun c : Char => 0 < c.toNat ∧ c.toNat < charset.limit) text.toList

/-- The bytes of a character that the character set has. -/
def encodeChar (charset : Charset) (c : Char) : List UInt8 := (charset.encodeChar? c).getD []

/-- The bytes of a text that the character set can write. -/
def encode (charset : Charset) (text : String) : List UInt8 :=
  text.toList.flatMap charset.encodeChar

variable {charset : Charset} {c : Char} {text : String}

/-- A character below the limit of a character set has bytes in it. -/
theorem encodeChar?_of_lt (h : c.toNat < charset.limit) :
    charset.encodeChar? c = some (charset.encodeChar c) := by
  cases charset with
  | latin1 =>
    have h : c.toNat < 0x100 := h
    simp [encodeChar, encodeChar?, h]
  | ascii =>
    have h : c.toNat < 0x80 := h
    simp [encodeChar, encodeChar?, h]
  | utf8 => rfl

/-- The bytes of a character are read as that character, whatever follows them. -/
theorem chars_encodeChar_append (h : c.toNat < charset.limit) (bytes : List UInt8) :
    charset.chars (charset.encodeChar c ++ bytes) = c :: charset.chars bytes := by
  -- A code point below 256 fits the byte that it is written as.
  have hbyte : c.toNat < 0x100 → (UInt8.ofNat c.toNat).toNat = c.toNat :=
    UInt8.toNat_ofNat_of_lt'
  cases charset with
  | latin1 =>
    have h : c.toNat < 0x100 := h
    simp [encodeChar, encodeChar?, chars, h, hbyte h]
  | ascii =>
    have h : c.toNat < 0x80 := h
    simp [encodeChar, encodeChar?, chars, asciiChar, h, hbyte (by omega)]
  | utf8 => exact Utf8.decode_encodeChar_append c bytes

/-- Of all characters of a character set only NUL is written with a zero byte. -/
theorem zero_notMem_encodeChar (hpos : 0 < c.toNat) (h : c.toNat < charset.limit) :
    0 ∉ charset.encodeChar c := by
  have hbyte : c.toNat < 0x100 → (0 : UInt8) ≠ UInt8.ofNat c.toNat := Utf8.zero_ne_ofNat hpos
  cases charset with
  | latin1 =>
    have h : c.toNat < 0x100 := h
    simpa [encodeChar, encodeChar?, h] using hbyte h
  | ascii =>
    have h : c.toNat < 0x80 := h
    simpa [encodeChar, encodeChar?, h] using hbyte (by omega)
  | utf8 => exact Utf8.zero_notMem_encodeChar hpos

/-- A text that can stand in a name block has bytes. -/
theorem encode?_of_writes (h : charset.Writes text) :
    charset.encode? text = some (charset.encode text) := by
  have hchars : text.toList.mapM charset.encodeChar? =
      some (text.toList.map charset.encodeChar) :=
    mapM_eq_some_map fun c hc => encodeChar?_of_lt (h c hc).2
  simp only [encode?, hchars, Option.map_some, encode, List.flatMap_def]

/-- Characters that are written one after the other are read as they were. -/
theorem chars_flatMap_encodeChar {cs : List Char} (h : ∀ c ∈ cs, c.toNat < charset.limit) :
    charset.chars (cs.flatMap charset.encodeChar) = cs := by
  induction cs with
  | nil => cases charset <;> rfl
  | cons c cs ih =>
    rw [List.flatMap_cons, chars_encodeChar_append (h c List.mem_cons_self),
      ih fun d hd => h d (List.mem_cons_of_mem _ hd)]

/-- What a character set writes it reads again. -/
theorem decode_encode (h : charset.Writes text) : charset.decode (charset.encode text) = text := by
  rw [decode, encode, chars_flatMap_encodeChar fun c hc => (h c hc).2, String.ofList_toList]

/-- A text without NUL is written without a zero byte. -/
theorem zero_notMem_encode (h : charset.Writes text) : 0 ∉ charset.encode text := by
  intro hzero
  obtain ⟨c, hc, hmem⟩ := List.mem_flatMap.1 hzero
  exact zero_notMem_encodeChar (h c hc).1 (h c hc).2 hmem

end Charset

end TypeStream
