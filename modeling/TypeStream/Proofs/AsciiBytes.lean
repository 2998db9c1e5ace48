import Mathlib.Algebra.Group.Nat.Defs
import TypeStream.Proofs.Utf8

/-!
# Bytes of ASCII characters

A byte below `0x80` is read as the character of that number in every character set, whatever stands
around it, and nothing else is read as that character.  In UTF-8 this rests on what a sequence can
still come to: its bytes are all above `0x7f`, and so is the code point that they stand for
(`Utf8.Pending.Sound`).

## Key results

- `Utf8.sound_of_lead?`, `Utf8.Pending.Sound.next`: what is kept while a sequence is read
- `Utf8.mem_decodeFrom_iff`: ASCII characters in text that is read as UTF-8
- `Charset.mem_chars_iff`: the same for all character sets
-/

namespace TypeStream

/-- A number that is the code point of a character is that of the character with this number. -/
theorem toNat_charOfNat {n : Nat} (h : n.isValidChar) : (Char.ofNat n).toNat = n := by
  rw [Char.ofNat, dif_pos h]
  rfl

/-- The number of an ASCII character fits into a byte. -/
theorem toNat_ofNat_ascii {c : Char} (hc : c.toNat < 0x80) :
    (UInt8.ofNat c.toNat).toNat = c.toNat := UInt8.toNat_ofNat_of_lt' (by show _ < 0x100; omega)

/-- A byte is the code point of an ASCII character if it has the same number. -/
theorem charOfByte_eq_iff {c : Char} (hc : c.toNat < 0x80) (b : UInt8) :
    Char.ofNat b.toNat = c ↔ UInt8.ofNat c.toNat = b := by
  have hb := b.toNat_lt
  have hcode : (Char.ofNat b.toNat).toNat = b.toNat := toNat_charOfNat (.inl (by omega))
  have hbyte : (UInt8.ofNat c.toNat).toNat = c.toNat := toNat_ofNat_ascii hc
  constructor
  · rintro rfl
    rw [hcode, UInt8.ofNat_toNat]
  · rintro rfl
    rw [hbyte, Char.ofNat_toNat]

namespace Utf8

/-- The character that stands for what is ill-formed is none of ASCII. -/
theorem replacement_ne {c : Char} (hc : c.toNat < 0x80) : c ≠ replacement := by
  rintro rfl
  exact absurd hc (by decide)

/-! ### Sequences -/

/-- The least code point that a sequence can come to. -/
def Pending.least (p : Pending) : Nat := (p.bits * 64 + (p.low - 0x80)) * 64 ^ p.more

/-- A bound of the code points that a sequence can come to. -/
def Pending.bound (p : Pending) : Nat := (p.bits * 64 + (p.high - 0x80) + 1) * 64 ^ p.more

/-- The sequence can only go on with bytes above `0x7f`, and it comes to the code point of a
    character that needs more than one byte. -/
structure Pending.Sound (p : Pending) : Prop where
  low_ge : 0x80 ≤ p.low
  high_le : p.high ≤ 0xbf
  least_ge : 0x80 ≤ p.least
  not_surrogate : p.bound ≤ 0xd800 ∨ 0xe000 ≤ p.least
  bound_le : p.bound ≤ 0x110000

/-- A first byte that announces a sequence announces a sound one. -/
theorem sound_of_lead? {b : Nat} {p : Pending} (h : lead? b = some p) : p.Sound := by
  unfold lead? at h
  repeat' split at h
  all_goals simp only [Option.some.injEq, reduceCtorEq] at h
  all_goals subst h
  -- The ranges of the second byte keep out overlong forms, surrogates and what is beyond.
  all_goals constructor
  all_goals simp only [Pending.least, Pending.bound, Nat.reducePow, Nat.reduceSub]
  all_goals omega

namespace Pending.Sound

variable {p : Pending} {b : Nat}

/-- The next byte narrows down what the sequence can come to. -/
theorem next {more : Nat} (h : p.Sound) (hmore : p.more = more + 1) (hlow : p.low ≤ b)
    (hhigh : b ≤ p.high) : Sound ⟨p.bits * 64 + b % 64, 0x80, 0xbf, more⟩ := by
  obtain ⟨hlow', hhigh', hleast, hsurrogate, hbound⟩ := h
  have hb : b % 64 = b - 0x80 := by omega
  -- One byte more does not make the least code point smaller.
  have hle : p.least ≤ least ⟨p.bits * 64 + b % 64, 0x80, 0xbf, more⟩ := by
    simp only [least, Nat.sub_self, Nat.add_zero]
    rw [hmore, hb, Nat.mul_assoc _ 64, ← Nat.pow_succ']
    exact Nat.mul_le_mul_right _ (by omega)
  -- Nor does it make the bound greater.
  have hge : bound ⟨p.bits * 64 + b % 64, 0x80, 0xbf, more⟩ ≤ p.bound := by
    have hsum : (p.bits * 64 + b % 64) * 64 + (0xbf - 0x80) + 1 =
        (p.bits * 64 + b % 64 + 1) * 64 := by omega
    simp only [bound]
    rw [hmore, hsum, hb, Nat.mul_assoc _ 64, ← Nat.pow_succ']
    exact Nat.mul_le_mul_right _ (by omega)
  exact ⟨Nat.le_refl _, Nat.le_refl _, by omega, by omega, by omega⟩

/-- What a sequence can come to are the code points of characters. -/
theorem isValidChar {n : Nat} (h : p.Sound) (hleast : p.least ≤ n) (hbound : n < p.bound) :
    n.isValidChar := by
  have hbound' := h.bound_le
  rcases h.not_surrogate with hbelow | habove
  · exact .inl (by omega)
  · exact .inr (by omega)

/-- The last byte makes a code point of a character that is none of ASCII. -/
theorem last_code (h : p.Sound) (hmore : p.more = 0) (hlow : p.low ≤ b) (hhigh : b ≤ p.high) :
    (p.bits * 64 + b % 64).isValidChar ∧ 0x80 ≤ p.bits * 64 + b % 64 := by
  have hlow' := h.low_ge
  have hhigh' := h.high_le
  -- With its last byte the sequence comes to one code point, between the two bounds.
  have hleast : p.least ≤ p.bits * 64 + b % 64 := by
    simp only [least, hmore, Nat.pow_zero, Nat.mul_one]
    omega
  have hbound : p.bits * 64 + b % 64 < p.bound := by
    simp only [bound, hmore, Nat.pow_zero, Nat.mul_one]
    omega
  exact ⟨h.isValidChar hleast hbound, Nat.le_trans h.least_ge hleast⟩

/-- The last byte of a sequence makes a character that is none of ASCII. -/
theorem last (h : p.Sound) (hmore : p.more = 0) (hlow : p.low ≤ b) (hhigh : b ≤ p.high) :
    0x80 ≤ (Char.ofNat (p.bits * 64 + b % 64)).toNat := by
  obtain ⟨hvalid, hle⟩ := h.last_code hmore hlow hhigh
  rwa [toNat_charOfNat hvalid]

end Pending.Sound

/-! ### ASCII characters -/

variable {c : Char} (hc : c.toNat < 0x80)
include hc

/-- Between two characters, a byte is read as an ASCII character exactly if it is that of the
    character. -/
theorem mem_start_iff (b : UInt8) : c ∈ (start b).1 ↔ UInt8.ofNat c.toNat = b := by
  unfold start
  split
  · rw [List.mem_singleton, eq_comm, charOfByte_eq_iff hc]
  · rename_i hb
    -- A byte that is none of ASCII is part of a sequence or replaced.
    have hne : UInt8.ofNat c.toNat ≠ b := by
      rintro rfl
      exact hb (by rwa [toNat_ofNat_ascii hc])
    split
    · exact iff_of_false List.not_mem_nil hne
    · exact iff_of_false (fun h => replacement_ne hc (List.mem_singleton.1 h)) hne

omit hc in
/-- A sequence that is opened between two characters is sound. -/
theorem sound_of_start {b : UInt8} {p : Pending} (h : (start b).2 = some p) : p.Sound := by
  unfold start at h
  split at h
  · exact nomatch h
  · split at h
    · rename_i hlead
      rw [← Option.some.inj h]
      exact sound_of_lead? hlead
    · exact nomatch h

/-- In any state, a byte completes an ASCII character only if it is that of the character, and
    leaves a sequence that is sound again. -/
theorem step_sound {state : Option Pending} (hstate : ∀ p, state = some p → p.Sound) (b : UInt8) :
    (c ∈ (step state b).1 ↔ UInt8.ofNat c.toNat = b) ∧
      ∀ p, (step state b).2 = some p → p.Sound := by
  cases state with
  | none => exact ⟨mem_start_iff hc b, fun p => sound_of_start⟩
  | some p =>
    have hsound := hstate p rfl
    simp only [step]
    split
    · rename_i hrange
      obtain ⟨hlow, hhigh⟩ := hrange
      -- A byte in the range that is asked for is none of ASCII.
      have hne : UInt8.ofNat c.toNat ≠ b := by
        rintro rfl
        have hp := hsound.low_ge
        rw [toNat_ofNat_ascii hc] at hlow
        omega
      split
      · rename_i hmore
        refine ⟨iff_of_false ?_ hne, ?_⟩
        -- The character that is completed is none of ASCII, either.
        · intro hmem
          have hlast := hsound.last hmore hlow hhigh
          rw [← List.mem_singleton.1 hmem] at hlast
          omega
        · rintro _ ⟨⟩
      · rename_i more hmore
        -- The sequence goes on, so nothing is completed yet.
        refine ⟨iff_of_false List.not_mem_nil hne, ?_⟩
        rintro _ ⟨⟩
        exact hsound.next hmore hlow hhigh
    · -- The sequence is given up for a replacement, and the byte begins anew.
      refine ⟨?_, fun p => sound_of_start⟩
      rw [List.mem_cons, mem_start_iff hc b, or_iff_right (replacement_ne hc)]

/-- An ASCII character stands in the text exactly if its byte stands among the bytes. -/
theorem mem_decodeFrom_iff {state : Option Pending} (hstate : ∀ p, state = some p → p.Sound)
    (bytes : List UInt8) : c ∈ decodeFrom state bytes ↔ UInt8.ofNat c.toNat ∈ bytes := by
  induction bytes generalizing state with
  | nil =>
    refine iff_of_false ?_ List.not_mem_nil
    -- Bytes that end within a sequence leave a replacement.
    cases state with
    | none => exact List.not_mem_nil
    | some p => exact fun h => replacement_ne hc (List.mem_singleton.1 h)
  | cons b bytes ih =>
    obtain ⟨hmem, hnext⟩ := step_sound hc hstate b
    rw [decodeFrom_cons, List.mem_append, hmem, ih hnext, List.mem_cons]

end Utf8

/-- In every character set an ASCII character is read from its byte, and from nothing else. -/
theorem Charset.mem_chars_iff {c : Char} (hc : c.toNat < 0x80) (charset : Charset)
    (bytes : List UInt8) : c ∈ charset.chars bytes ↔ UInt8.ofNat c.toNat ∈ bytes := by
  cases charset with
  | latin1 =>
    simp only [chars, List.mem_map, charOfByte_eq_iff hc, exists_eq_right']
  | ascii =>
    have hbyte : ∀ b, asciiChar b = c ↔ UInt8.ofNat c.toNat = b := by
      intro b
      unfold asciiChar
      split
      · exact charOfByte_eq_iff hc b
      · rename_i hb
        refine iff_of_false (Utf8.replacement_ne hc).symm ?_
        rintro rfl
        exact hb (by rwa [toNat_ofNat_ascii hc])
    simp only [chars, List.mem_map, hbyte, exists_eq_right']
  | utf8 => exact Utf8.mem_decodeFrom_iff hc (by nofun) bytes

end TypeStream
