/-! # UTF-8 with replacement

`Utf8.decode` reads any byte list as UTF-8.  Every maximal ill-formed piece becomes one U+FFFD:
the piece is the longest start of some well-formed sequence, or a single byte that starts none.

The reader goes through the bytes one by one.  Between characters its state is `none`; inside a
sequence it is the `Pending` part, which fixes the range of the next byte.  A byte outside that
range ends the piece and is read again as the start of a character, so no byte is swallowed. -/

namespace TypeStream.Utf8

/-- The character that stands for an ill-formed piece. -/
def replacement : Char := '\ufffd'

/-- A sequence whose first bytes have been read. -/
structure Pending where
  /-- The payload bits of the bytes read so far. -/
  bits : Nat
  /-- The least value of the next byte. -/
  low : Nat
  /-- The greatest value of the next byte. -/
  high : Nat
  /-- How many bytes follow the next one. -/
  more : Nat
deriving DecidableEq, Repr

/-- The sequence that a first byte above `0x7f` announces.  The ranges of the second byte leave
    out overlong forms, surrogates and everything above U+10FFFF. -/
def lead? (b : Nat) : Option Pending :=
  if 0xc2 ≤ b ∧ b ≤ 0xdf then some ⟨b - 0xc0, 0x80, 0xbf, 0⟩
  else if b = 0xe0 then some ⟨0x0, 0xa0, 0xbf, 1⟩
  else if b = 0xed then some ⟨0xd, 0x80, 0x9f, 1⟩
  else if 0xe1 ≤ b ∧ b ≤ 0xef then some ⟨b - 0xe0, 0x80, 0xbf, 1⟩
  else if b = 0xf0 then some ⟨0, 0x90, 0xbf, 2⟩
  else if 0xf1 ≤ b ∧ b ≤ 0xf3 then some ⟨b - 0xf0, 0x80, 0xbf, 2⟩
  else if b = 0xf4 then some ⟨4, 0x80, 0x8f, 2⟩
  else none

/-- Reads a byte between characters: the characters that are complete, and the state after it. -/
def start (b : UInt8) : List Char × Option Pending :=
  if b.toNat < 0x80 then ([Char.ofNat b.toNat], none)
  else
    match lead? b.toNat with
    | some p => ([], some p)
    | none => ([replacement], none)

/-- Reads a byte in any state. -/
def step : Option Pending → UInt8 → List Char × Option Pending
  | none, b => start b
  | some p, b =>
    if p.low ≤ b.toNat ∧ b.toNat ≤ p.high then
      let bits := p.bits * 64 + b.toNat % 64
      match p.more with
      | 0 => ([Char.ofNat bits], none)
      | more + 1 => ([], some ⟨bits, 0x80, 0xbf, more⟩)
    else
      let (cs, next) := start b
      (replacement :: cs, next)

/-- Reads the bytes that follow a state; a sequence cut off by the end is ill-formed. -/
def decodeFrom : Option Pending → List UInt8 → List Char
  | none, [] => []
  | some _, [] => [replacement]
  | state, b :: bytes => (step state b).1 ++ decodeFrom (step state b).2 bytes

/-- The characters of a byte list, with a replacement for every ill-formed piece. -/
def decode (bytes : List UInt8) : List Char := decodeFrom none bytes

/-- The bytes of a list of characters. -/
def encode (cs : List Char) : List UInt8 := cs.flatMap String.utf8EncodeChar

@[simp] theorem decode_nil : decode [] = [] := rfl

theorem decodeFrom_cons (state : Option Pending) (b : UInt8) (bytes : List UInt8) :
    decodeFrom state (b :: bytes) = (step state b).1 ++ decodeFrom (step state b).2 bytes := by
  cases state <;> rfl

end TypeStream.Utf8
