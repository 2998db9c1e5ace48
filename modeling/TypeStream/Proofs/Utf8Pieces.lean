import TypeStream.Proofs.AsciiBytes

/-!
# Ill-formed pieces of UTF-8

Between two characters, bytes go on with those of a character or with a piece that is replaced: the
longest one that the bytes of some character begin with, or a single byte if there is none.
`Utf8.ReadAs` says so without the states of the reader, and the reader does the same.

What ties the two together are the characters that a state can still come to
(`Utf8.Pending.Covers`): they are those whose bytes begin with the bytes read so far
(`Utf8.Pending.Opens`).  A byte out of the range that the state asks for is the next byte of none
of them.

## Key results

- `Utf8.encodeChar_cases`: the bytes of a character, by its code point
- `Utf8.Pending.opens_of_lead?`, `Utf8.Pending.Opens.next`: what is known inside a sequence
- `Utf8.decode_eq_iff`: reading is replacing the longest pieces
-/

namespace TypeStream.Utf8

/-! ### Reading with replacement -/

/-- The bytes of some character begin with the piece. -/
def Begins (piece : List UInt8) : Prop := ∃ c, piece <+: String.utf8EncodeChar c

/-- The piece in front of the rest is replaced.  No character stands there, and the piece is the
    longest one that begins a character, or a single byte if none does. -/
structure IllFormed (piece rest : List UInt8) : Prop where
  no_character : ∀ c, ¬ String.utf8EncodeChar c <+: piece ++ rest
  ne_nil : piece ≠ []
  begins : Begins piece ∨ piece.length = 1
  longest : ∀ front, front <+: piece ++ rest → Begins front → front.length ≤ piece.length

/-- The characters that bytes are read as, with a replacement for every ill-formed piece. -/
inductive ReadAs : List UInt8 → List Char → Prop
  | nil : ReadAs [] []
  | character (c : Char) {rest : List UInt8} {cs : List Char} (hrest : ReadAs rest cs) :
    ReadAs (String.utf8EncodeChar c ++ rest) (c :: cs)
  | replaced {piece rest : List UInt8} {cs : List Char} (hpiece : IllFormed piece rest)
    (hrest : ReadAs rest cs) : ReadAs (piece ++ rest) (replacement :: cs)

/-! ### The bytes of a character -/

/-- The byte with six bits of a code point that stands `k` bytes in front of its last one. -/
def follower (n k : Nat) : Nat := 0x80 + n / 64 ^ k % 64

/-- The last bytes of a code point. -/
def followers (n : Nat) : Nat → List UInt8
  | 0 => []
  | k + 1 => UInt8.ofNat (follower n k) :: followers n k

/-- Only the first byte of a character can be as large as `0xc0`. -/
theorem follower_lt (n k : Nat) : follower n k < 0xc0 := by
  unfold follower
  omega

/-- The first byte of a character tells how many others follow it. -/
theorem encodeChar_cases (c : Char) :
    c.toNat < 0x80 ∧ String.utf8EncodeChar c = [UInt8.ofNat c.toNat] ∨
    (0x80 ≤ c.toNat ∧ c.toNat < 0x800 ∧
      String.utf8EncodeChar c = UInt8.ofNat (0xc0 + c.toNat / 64) :: followers c.toNat 1) ∨
    (0x800 ≤ c.toNat ∧ c.toNat < 0x10000 ∧
      String.utf8EncodeChar c = UInt8.ofNat (0xe0 + c.toNat / 4096) :: followers c.toNat 2) ∨
    (0x10000 ≤ c.toNat ∧
      String.utf8EncodeChar c = UInt8.ofNat (0xf0 + c.toNat / 262144) :: followers c.toNat 3) := by
  have hbounds := toNat_bounds c
  unfold String.utf8EncodeChar
  simp only [toNat_val, followers, follower, Nat.reducePow, Nat.div_one, Nat.add_comm 0x80]
  -- How many bytes a character has is decided by its code point.
  split
  · exact .inl ⟨by omega, rfl⟩
  split
  · have hlead : c.toNat / 64 % 32 + 192 = 0xc0 + c.toNat / 64 := by omega
    exact .inr (.inl ⟨by omega, by omega, by rw [hlead]⟩)
  split
  · have hlead : c.toNat / 4096 % 16 + 224 = 0xe0 + c.toNat / 4096 := by omega
    exact .inr (.inr (.inl ⟨by omega, by omega, by rw [hlead]⟩))
  · have hlead : c.toNat / 262144 % 8 + 240 = 0xf0 + c.toNat / 262144 := by omega
    exact .inr (.inr (.inr ⟨by omega, by rw [hlead]⟩))

/-- An ASCII character is written as one byte. -/
theorem encodeChar_of_lt {c : Char} (h : c.toNat < 0x80) :
    String.utf8EncodeChar c = [UInt8.ofNat c.toNat] := by
  rcases encodeChar_cases c with ⟨-, hbytes⟩ | ⟨hlow, -⟩ | ⟨hlow, -⟩ | ⟨hlow, -⟩
  · exact hbytes
  all_goals omega

/-- The bytes of a character do not begin with those of another one. -/
theorem eq_of_prefix_encodeChar {c d : Char}
    (h : String.utf8EncodeChar c <+: String.utf8EncodeChar d) : c = d := by
  obtain ⟨rest, hrest⟩ := h
  have hd := decode_encodeChar_append d []
  rw [List.append_nil, ← hrest, decode_encodeChar_append] at hd
  exact (List.cons.inj hd).1

/-! ### What a sequence can come to -/

namespace Pending

/-- The sequence can come to the code point: its first bits are those read so far, and the byte
    behind them is in the range that is asked for. -/
def Covers (p : Pending) (n : Nat) : Prop :=
  n / 64 ^ (p.more + 1) = p.bits ∧ p.low ≤ follower n p.more ∧ follower n p.more ≤ p.high

variable {p : Pending} {n b : Nat}

/-- The next byte is one more thing that is known of the code point. -/
theorem covers_next_iff {more : Nat} (h : p.Sound) (hmore : p.more = more + 1) (hlow : p.low ≤ b)
    (hhigh : b ≤ p.high) :
    Covers ⟨p.bits * 64 + b % 64, 0x80, 0xbf, more⟩ n ↔ p.Covers n ∧ follower n p.more = b := by
  have hlow' := h.low_ge
  have hhigh' := h.high_le
  -- One byte more takes six bits more from the code point.
  have hdiv : n / 64 ^ (more + 2) = n / 64 ^ (more + 1) / 64 := by
    rw [Nat.div_div_eq_div_mul, ← Nat.pow_succ]
  have hlast := follower_lt n more
  have hfirst : 0x80 ≤ follower n more := Nat.le_add_right _ _
  simp only [Covers, hmore, hdiv]
  unfold follower at *
  omega

/-- A sequence whose next byte is in a range that holds any comes to some character. -/
theorem exists_covers (h : p.Sound) (hrange : p.low ≤ p.high) : ∃ c : Char, p.Covers c.toNat := by
  have hlow := h.low_ge
  have hhigh := h.high_le
  have hpow : 0 < 64 ^ p.more := Nat.pow_pos (by decide)
  -- The least of the code points is one of a character.
  have hlt : p.least < p.bound := Nat.mul_lt_mul_of_pos_right (by omega) hpow
  have hvalid : p.least.isValidChar := h.isValidChar (Nat.le_refl _) hlt
  have hdiv : p.least / 64 ^ p.more = p.bits * 64 + (p.low - 0x80) := Nat.mul_div_cancel _ hpow
  refine ⟨Char.ofNat p.least, ?_⟩
  rw [toNat_charOfNat hvalid, Covers, Nat.pow_succ, ← Nat.div_div_eq_div_mul, follower, hdiv]
  omega

end Pending

/-- The first byte of a character announces it, and says how many bytes follow. -/
theorem exists_lead_of_le {c : Char} (h : 0x80 ≤ c.toNat) :
    ∃ b p, b < 0x100 ∧ lead? b = some p ∧ p.Covers c.toNat ∧
      String.utf8EncodeChar c = UInt8.ofNat b :: followers c.toNat (p.more + 1) := by
  have hbounds := toNat_bounds c
  rcases encodeChar_cases c with ⟨hlt, -⟩ | ⟨hlow, hhigh, hbytes⟩ | ⟨hlow, hhigh, hbytes⟩ |
    ⟨hlow, hbytes⟩
  · omega
  · refine ⟨_, _, by omega, lead?_two (by omega) (by omega), ?_, hbytes⟩
    simp only [Pending.Covers, follower]
    omega
  · refine ⟨_, _, by omega, lead?_three (by omega) (by omega), ?_, hbytes⟩
    simp only [Pending.Covers, follower]
    split <;> split <;> omega
  · refine ⟨_, _, by omega, lead?_four (by omega) (by omega), ?_, hbytes⟩
    simp only [Pending.Covers, follower]
    split <;> split <;> omega

theorem range_of_lead? {b : Nat} {p : Pending} (h : lead? b = some p) : 0xc2 ≤ b ∧ b ≤ 0xf4 := by
  unfold lead? at h
  grind

/-- The first byte of a character is one of ASCII, or announces it. -/
theorem lead_of_prefix_encodeChar {b : UInt8} {c : Char} (h : [b] <+: String.utf8EncodeChar c) :
    b.toNat < 0x80 ∨ ∃ p, lead? b.toNat = some p ∧ p.Covers c.toNat := by
  obtain ⟨rest, hrest⟩ := h
  by_cases hascii : c.toNat < 0x80
  · rw [encodeChar_of_lt hascii] at hrest
    obtain ⟨rfl, -⟩ := List.cons.inj hrest
    rw [UInt8.toNat_ofNat_of_lt' (by show _ < 0x100; omega)]
    exact .inl hascii
  -- The first byte of the other characters announces the bytes behind it.
  · obtain ⟨b', p, hb', hlead, hcovers, hbytes⟩ := exists_lead_of_le (Nat.le_of_not_lt hascii)
    rw [hbytes] at hrest
    obtain ⟨rfl, -⟩ := List.cons.inj hrest
    rw [UInt8.toNat_ofNat_of_lt' hb']
    exact .inr ⟨p, hlead, hcovers⟩

/-- The code points that a first byte announces are those of its number of bytes. -/
theorem lead_of_covers {b n : Nat} {p : Pending} (hlead : lead? b = some p) (h : p.Covers n) :
    (0x80 ≤ n ∧ n < 0x800 ∧ b = 0xc0 + n / 64 ∧ p.more = 0) ∨
    (0x800 ≤ n ∧ n < 0x10000 ∧ b = 0xe0 + n / 4096 ∧ p.more = 1) ∨
    (0x10000 ≤ n ∧ b = 0xf0 + n / 262144 ∧ p.more = 2) := by
  obtain ⟨hlow, hhigh⟩ := range_of_lead? hlead
  by_cases htwo : b ≤ 0xdf
  · obtain rfl := Option.some.inj ((lead?_two hlow htwo).symm.trans hlead)
    simp only [Pending.Covers, follower] at h
    exact .inl ⟨by omega, by omega, by omega, rfl⟩
  by_cases hthree : b ≤ 0xef
  · obtain rfl := Option.some.inj ((lead?_three (by omega) hthree).symm.trans hlead)
    simp only [Pending.Covers, follower] at h
    -- The range behind `0xe0` leaves out what two bytes are enough for.
    split at h <;> exact .inr (.inl ⟨by omega, by omega, by omega, rfl⟩)
  · obtain rfl := Option.some.inj ((lead?_four (by omega) hhigh).symm.trans hlead)
    simp only [Pending.Covers, follower] at h
    split at h <;> exact .inr (.inr ⟨by omega, by omega, rfl⟩)

/-- The characters that a first byte announces begin with it. -/
theorem encodeChar_of_lead? {b : Nat} {p : Pending} (hlead : lead? b = some p) {c : Char}
    (h : p.Covers c.toNat) :
    String.utf8EncodeChar c = UInt8.ofNat b :: followers c.toNat (p.more + 1) := by
  have hlead' := lead_of_covers hlead h
  rcases encodeChar_cases c with ⟨hc, -⟩ | ⟨hc, hc', hbytes⟩ | ⟨hc, hc', hbytes⟩ | ⟨hc, hbytes⟩
  -- The lead byte has told the number of bytes, so the other cases are excluded.
  · omega
  · obtain ⟨hb, hmore⟩ : b = 0xc0 + c.toNat / 64 ∧ p.more = 0 := by omega
    rw [hbytes, hb, hmore]
  · obtain ⟨hb, hmore⟩ : b = 0xe0 + c.toNat / 4096 ∧ p.more = 1 := by omega
    rw [hbytes, hb, hmore]
  · obtain ⟨hb, hmore⟩ : b = 0xf0 + c.toNat / 262144 ∧ p.more = 2 := by omega
    rw [hbytes, hb, hmore]

/-! ### The bytes read so far -/

namespace Pending

/-- The bytes have been read, and the sequence can come to the characters that begin with them. -/
structure Opens (p : Pending) (piece : List UInt8) : Prop where
  ne_nil : piece ≠ []
  range : p.low ≤ p.high
  prefix_iff : ∀ c, piece <+: String.utf8EncodeChar c ↔ p.Covers c.toNat
  bytes_eq : ∀ c, p.Covers c.toNat →
    String.utf8EncodeChar c = piece ++ followers c.toNat (p.more + 1)

variable {p : Pending} {piece : List UInt8} {b : UInt8}

/-- The byte behind those that have been read is one of the code point. -/
theorem Opens.follower_eq (h : p.Opens piece) {c : Char} (hc : p.Covers c.toNat)
    (hb : piece ++ [b] <+: String.utf8EncodeChar c) : follower c.toNat p.more = b.toNat := by
  have hlt := follower_lt c.toNat p.more
  rw [h.bytes_eq c hc, List.prefix_append_right_inj, followers, List.cons_prefix_cons] at hb
  rw [hb.1, UInt8.toNat_ofNat_of_lt' (by show _ < 0x100; omega)]

/-- After a first byte it is known which characters can come. -/
theorem opens_of_lead? (h : lead? b.toNat = some p) : p.Opens [b] := by
  have hbytes : ∀ c : Char, p.Covers c.toNat →
      String.utf8EncodeChar c = b :: followers c.toNat (p.more + 1) := by
    intro c hc
    rw [encodeChar_of_lead? h hc, UInt8.ofNat_toNat]
  have hrange : p.low ≤ p.high := by
    unfold lead? at h
    grind
  refine ⟨List.cons_ne_nil _ _, hrange, fun c => ⟨fun hfirst => ?_, fun hc => ?_⟩, hbytes⟩
  · obtain ⟨hlow, -⟩ := range_of_lead? h
    -- A byte that announces others is above the bytes that stand for themselves.
    rcases lead_of_prefix_encodeChar hfirst with hascii | ⟨p', hlead, hcovers⟩
    · omega
    · rwa [Option.some.inj (h.symm.trans hlead)]
  · exact ⟨_, (hbytes c hc).symm⟩

/-- A byte in the range that is asked for is the next one of the characters that can still come. -/
theorem Opens.next {more : Nat} (h : p.Opens piece) (hsound : p.Sound) (hmore : p.more = more + 1)
    (hlow : p.low ≤ b.toNat) (hhigh : b.toNat ≤ p.high) :
    Opens ⟨p.bits * 64 + b.toNat % 64, 0x80, 0xbf, more⟩ (piece ++ [b]) := by
  have hnext : ∀ {n : Nat}, Covers ⟨p.bits * 64 + b.toNat % 64, 0x80, 0xbf, more⟩ n ↔
      p.Covers n ∧ follower n p.more = b.toNat := covers_next_iff hsound hmore hlow hhigh
  have hbytes : ∀ c : Char, Covers ⟨p.bits * 64 + b.toNat % 64, 0x80, 0xbf, more⟩ c.toNat →
      String.utf8EncodeChar c = piece ++ [b] ++ followers c.toNat (more + 1) := by
    intro c hc
    obtain ⟨hcovers, hfollower⟩ := hnext.1 hc
    rw [h.bytes_eq c hcovers, followers, hfollower, UInt8.ofNat_toNat, hmore, List.append_assoc]
    rfl
  refine ⟨by simp, by show 0x80 ≤ 0xbf; decide,
    fun c => ⟨fun hc => hnext.2 ?_, fun hc => ⟨_, (hbytes c hc).symm⟩⟩, hbytes⟩
  -- A character that begins with the bytes read so far is one that they allow.
  have hcovers := (h.prefix_iff c).1 ((List.prefix_append piece [b]).trans hc)
  refine ⟨hcovers, ?_⟩
  exact h.follower_eq hcovers hc

/-- The last byte completes a character. -/
theorem Opens.last (h : p.Opens piece) (hsound : p.Sound) (hmore : p.more = 0)
    (hlow : p.low ≤ b.toNat) (hhigh : b.toNat ≤ p.high) :
    String.utf8EncodeChar (Char.ofNat (p.bits * 64 + b.toNat % 64)) = piece ++ [b] := by
  have hlow' := hsound.low_ge
  have hhigh' := hsound.high_le
  have hcode := toNat_charOfNat (hsound.last_code hmore hlow hhigh).1
  have hfollower : follower (p.bits * 64 + b.toNat % 64) 0 = b.toNat := by
    unfold follower
    omega
  -- The byte is in its range, so the code point is one of those that were announced.
  have hcovers : p.Covers (p.bits * 64 + b.toNat % 64) := by
    rw [Covers, hmore, hfollower]
    exact ⟨by omega, hlow, hhigh⟩
  rw [← hcode] at hcovers
  rw [h.bytes_eq _ hcovers, hcode, hmore, followers, hfollower, UInt8.ofNat_toNat]
  rfl

/-- What has been read of a sequence is replaced where the next byte is out of range, or where there
    is none. -/
theorem Opens.illFormed (h : p.Opens piece) (hsound : p.Sound) {rest : List UInt8}
    (hrest : ∀ b ∈ rest.head?, ¬ (p.low ≤ b.toNat ∧ b.toNat ≤ p.high)) : IllFormed piece rest := by
  obtain ⟨c, hc⟩ := exists_covers hsound h.range
  have hbegins : piece <+: String.utf8EncodeChar c := (h.prefix_iff c).2 hc
  -- A byte behind the piece would be the next one of a character that is covered.
  have hlongest : ∀ front, front <+: piece ++ rest → Begins front →
      front.length ≤ piece.length := by
    intro front hfront hd
    obtain ⟨d, hd⟩ := hd
    refine Nat.not_lt.1 fun hlonger => ?_
    obtain ⟨more, rfl⟩ :=
      List.prefix_of_prefix_length_le (List.prefix_append piece rest) hfront (by omega)
    rw [List.prefix_append_right_inj] at hfront
    cases more with
    | nil => simp at hlonger
    | cons b more =>
      have hb : piece ++ [b] <+: String.utf8EncodeChar d :=
        ((List.prefix_append_right_inj piece).2 (by simp)).trans hd
      have hcovers := (h.prefix_iff d).1 ((List.prefix_append piece [b]).trans hb)
      have hrange := hcovers.2
      rw [h.follower_eq hcovers hb] at hrange
      obtain ⟨_, rfl⟩ := hfront
      exact hrest b rfl hrange
  refine ⟨fun d hd => ?_, h.ne_nil, .inl ⟨c, hbegins⟩, hlongest⟩
  -- A character in front would be all of the piece, which is only a part of another one.
  have hle := hlongest _ hd ⟨d, List.prefix_rfl⟩
  have hpart := List.prefix_of_prefix_length_le hd (List.prefix_append piece rest) hle
  obtain rfl := eq_of_prefix_encodeChar (hpart.trans hbegins)
  rw [h.bytes_eq d hc, List.length_append, followers, List.length_cons] at hle
  omega

end Pending

/-- A byte that begins no character is replaced alone. -/
theorem illFormed_singleton {b : UInt8} (h : ∀ c, ¬ [b] <+: String.utf8EncodeChar c)
    (rest : List UInt8) : IllFormed [b] rest := by
  -- What begins a character would have to begin with this byte.
  have hnot : ∀ front, front ≠ [] → front <+: b :: rest → ¬ Begins front := by
    rintro front hne hfront ⟨c, hc⟩
    obtain ⟨b', front, rfl⟩ := List.exists_cons_of_ne_nil hne
    obtain ⟨rfl, -⟩ := List.cons_prefix_cons.1 hfront
    exact h c (.trans (by simp) hc)
  refine ⟨fun c hc => ?_, by simp, .inr rfl, fun front hfront hbegins => ?_⟩
  · exact hnot _ String.utf8EncodeChar_ne_nil hc ⟨c, List.prefix_rfl⟩
  · by_cases hnil : front = []
    · simp [hnil]
    · exact absurd hbegins (hnot front hnil hfront)

/-! ### Reading -/

/-- Between two characters, the reader goes on with a character, a sequence or a replacement. -/
theorem readAs_start {b : UInt8} {bytes : List UInt8}
    (hbetween : ReadAs bytes (decodeFrom none bytes))
    (hinside : ∀ p, Pending.Sound p → p.Opens [b] →
      ReadAs (b :: bytes) (decodeFrom (some p) bytes)) :
    ReadAs (b :: bytes) (decodeFrom none (b :: bytes)) := by
  rw [decodeFrom_cons]
  simp only [step, start]
  by_cases hascii : b.toNat < 0x80
  · rw [if_pos hascii]
    have hcode : (Char.ofNat b.toNat).toNat = b.toNat := toNat_charOfNat (.inl (by omega))
    have hbyte := encodeChar_of_lt (c := Char.ofNat b.toNat) (by omega)
    have hreads := ReadAs.character (Char.ofNat b.toNat) hbetween
    rwa [hbyte, hcode, UInt8.ofNat_toNat] at hreads
  rw [if_neg hascii]
  split
  · rename_i p hlead
    exact hinside p (sound_of_lead? hlead) (Pending.opens_of_lead? hlead)
  · rename_i hnone
    -- A byte that announces nothing begins no character.
    refine .replaced (illFormed_singleton (fun c hc => ?_) bytes) hbetween
    rcases lead_of_prefix_encodeChar hc with hlt | ⟨p, hlead, -⟩
    · exact hascii hlt
    · simp [hnone] at hlead

/-- What the reader makes of bytes, between two characters and inside of a sequence. -/
theorem readAs_decodeFrom (bytes : List UInt8) : ReadAs bytes (decodeFrom none bytes) ∧
    ∀ p piece, Pending.Sound p → p.Opens piece →
      ReadAs (piece ++ bytes) (decodeFrom (some p) bytes) := by
  induction bytes with
  | nil =>
    refine ⟨.nil, fun p piece hsound hopens => ?_⟩
    exact .replaced (hopens.illFormed hsound (by simp)) .nil
  | cons b bytes ih =>
    obtain ⟨hbetween, hinside⟩ := ih
    have hstart := readAs_start hbetween fun p => hinside p [b]
    refine ⟨hstart, fun p piece hsound hopens => ?_⟩
    rw [decodeFrom_cons]
    simp only [step]
    split
    · rename_i hrange
      obtain ⟨hlow, hhigh⟩ := hrange
      split
      -- The last byte that was announced completes the character.
      · rename_i hmore
        have hreads := ReadAs.character (Char.ofNat (p.bits * 64 + b.toNat % 64)) hbetween
        rwa [hopens.last hsound hmore hlow hhigh, List.append_assoc] at hreads
      -- Any other one leaves the sequence open.
      · rename_i more hmore
        have hreads := hinside _ _ (hsound.next hmore hlow hhigh)
          (hopens.next hsound hmore hlow hhigh)
        rwa [List.append_assoc] at hreads
    · rename_i hrange
      -- The byte that is out of range is read as the first one of what follows.
      exact .replaced (hopens.illFormed hsound (by simpa using hrange)) hstart

/-- Of two pieces that are replaced in the same place, none is longer. -/
theorem IllFormed.eq {piece rest piece' rest' : List UInt8} (h : IllFormed piece rest)
    (h' : IllFormed piece' rest') (heq : piece ++ rest = piece' ++ rest') :
    piece = piece' ∧ rest = rest' := by
  -- Both are as long as they can be, so they are of the same length.
  have hle : ∀ {piece rest piece' rest' : List UInt8}, IllFormed piece rest →
      IllFormed piece' rest' → piece ++ rest = piece' ++ rest' →
      piece'.length ≤ piece.length := by
    intro piece rest piece' rest' h h' heq
    rcases h'.begins with hbegins | hone
    · exact h.longest piece' (heq ▸ List.prefix_append _ _) hbegins
    · have hpos := List.length_pos_iff.2 h.ne_nil
      omega
  exact List.append_inj heq (Nat.le_antisymm (hle h' h heq.symm) (hle h h' heq))

/-- There is only one way to read bytes. -/
theorem ReadAs.unique {bytes : List UInt8} {cs cs' : List Char} (h : ReadAs bytes cs)
    (h' : ReadAs bytes cs') : cs = cs' := by
  -- The bytes are not taken apart in the second reading before those of the first are named.
  induction h generalizing cs' with
  | nil =>
    generalize heq : ([] : List UInt8) = bytes at h'
    cases h' with
    | nil => rfl
    | character d _ => simp at heq
    | replaced hpiece _ => simp [hpiece.ne_nil] at heq
  -- The second reading has the same character in front, since decoding gives only one.
  | @character c rest cs _ ih =>
    generalize heq : String.utf8EncodeChar c ++ rest = bytes at h'
    cases h' with
    | nil => simp at heq
    | character d hrest =>
      have hdecode := congrArg decode heq
      rw [decode_encodeChar_append, decode_encodeChar_append] at hdecode
      obtain ⟨rfl, -⟩ := List.cons.inj hdecode
      rw [List.append_cancel_left_eq] at heq
      subst heq
      rw [ih hrest]
    -- A piece that is replaced begins no character.
    | replaced hpiece _ => exact absurd (heq ▸ List.prefix_append _ _) (hpiece.no_character c)
  | @replaced piece rest cs hpiece _ ih =>
    generalize heq : piece ++ rest = bytes at h'
    cases h' with
    | nil => simp [hpiece.ne_nil] at heq
    | character d _ => exact absurd (heq ▸ List.prefix_append _ _) (hpiece.no_character d)
    | replaced hpiece' hrest =>
      obtain ⟨rfl, rfl⟩ := hpiece.eq hpiece' heq
      rw [ih hrest]

/-- Bytes are read as the characters that replacing the longest pieces gives. -/
theorem decode_eq_iff {bytes : List UInt8} {cs : List Char} :
    decode bytes = cs ↔ ReadAs bytes cs :=
  have hreads : ReadAs bytes (decode bytes) := (readAs_decodeFrom bytes).1
  ⟨fun h => h ▸ hreads, hreads.unique⟩

end TypeStream.Utf8
