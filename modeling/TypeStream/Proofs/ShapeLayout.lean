import TypeStream.Proofs.RecordFronts

/-!
# The layout of shapes

What reading the body of a shape comes to, as one equation over all bodies: by the length of the
body and the number in its first two bytes.  Two slots share a byte, so there is a byte for every
two slots, and one for the last slot if their number is odd.  The high half of that one belongs to
no slot.

## Key results

- `TableShape.getElem?_unpack`: the code of a slot, by its byte
- `TableShape.take_unpack_set`: the half of a byte that belongs to no slot
- `TableShape.decode_eq_ite`: the body of a shape, by its length
- `TableShape.decode_halves`: the body of a shape, slot by slot
-/

namespace TypeStream

namespace TableShape

/-! ### Halves of bytes -/

/-- The code of slot `k` in its byte: the low half if `k` is even, and the high one if it is odd. -/
def half (b : UInt8) (k : Nat) : UInt8 := if k % 2 = 0 then b % 16 else b / 16

/-- A byte holds two codes, the low half first. -/
theorem unpack_cons (b : UInt8) (packed : List UInt8) :
    unpack (b :: packed) = b % 16 :: b / 16 :: unpack packed := by
  simp [unpack]

/-- There are two codes for every byte. -/
@[simp] theorem length_unpack (packed : List UInt8) :
    (unpack packed).length = 2 * packed.length := by
  induction packed with
  | nil => rfl
  | cons b packed ih =>
    simp only [unpack_cons, List.length_cons, ih]
    omega

/-- Two slots share a byte, the even one of them comes first. -/
theorem getElem?_unpack (packed : List UInt8) (k : Nat) :
    (unpack packed)[k]? = (packed[k / 2]?).map (half · k) := by
  induction packed generalizing k with
  | nil => simp [unpack]
  | cons b packed ih =>
    rw [unpack_cons]
    -- The first byte has the slots `0` and `1`; the other slots are those of the bytes behind it.
    obtain _ | _ | k := k
    · rfl
    · rfl
    · have hbyte : (k + 1 + 1) / 2 = k / 2 + 1 := by omega
      have hparity : (k + 1 + 1) % 2 = k % 2 := by omega
      simp only [hbyte, half, hparity, List.getElem?_cons_succ, ih]

/-- An odd number of slots ends with the low half of a byte, so the high half does not matter. -/
theorem take_unpack_set {packed : List UInt8} {count : Nat} {b : UInt8} (hodd : count % 2 = 1)
    (hlow : ∀ old, packed[count / 2]? = some old → b % 16 = old % 16) :
    (unpack (packed.set (count / 2) b)).take count = (unpack packed).take count := by
  apply List.ext_getElem?
  intro k
  by_cases hk : k < count
  · rw [List.getElem?_take_of_lt hk, List.getElem?_take_of_lt hk, getElem?_unpack, getElem?_unpack]
    by_cases hlast : count / 2 = k / 2
    · -- Slot `k` is the last one, which is even.
      have heven : k % 2 = 0 := by omega
      rw [hlast] at hlow ⊢
      cases hold : packed[k / 2]? with
      | none =>
        rw [List.getElem?_eq_none_iff] at hold
        simp [hold]
      | some old =>
        obtain ⟨hlt, _⟩ := List.getElem?_eq_some_iff.1 hold
        simp [List.getElem?_set_self hlt, half, heven, hlow old hold]
    · rw [List.getElem?_set_ne hlast]
  -- Behind the count nothing is taken from either.
  · have hle := Nat.le_of_not_lt hk
    rw [List.getElem?_eq_none (by simp; omega), List.getElem?_eq_none (by simp; omega)]

/-! ### Bodies -/

/-- The number in the first two bytes of a body. -/
def count (body : List UInt8) : Nat := LittleEndian.decode (body.take 2)

/-- How many bytes hold the codes of the slots. -/
def packedSize (body : List UInt8) : Nat := (count body + 1) / 2

/-- The kinds of the slots that the bytes behind the number stand for. -/
def slotsOf (body : List UInt8) : List SlotKind :=
  ((unpack ((body.drop 2).take (packedSize body))).take (count body)).map SlotKind.ofCode

/-- A body that is not cut short has a code for every slot. -/
theorem slotsOf_spec {body : List UInt8} (h : 2 + packedSize body ≤ body.length) :
    (slotsOf body).length = count body ∧ ∀ k < count body, ∃ b,
      body[2 + k / 2]? = some b ∧ (slotsOf body)[k]? = some (.ofCode (half b k)) := by
  have hsize : packedSize body = (count body + 1) / 2 := rfl
  constructor
  · simp only [slotsOf, List.length_map, List.length_take, length_unpack, List.length_drop]
    omega
  · intro k hk
    have hlt : 2 + k / 2 < body.length := by omega
    refine ⟨body[2 + k / 2], List.getElem?_eq_getElem hlt, ?_⟩
    rw [slotsOf, List.getElem?_map, List.getElem?_take_of_lt hk, getElem?_unpack,
      List.getElem?_take_of_lt (by omega), List.getElem?_drop, List.getElem?_eq_getElem hlt]
    rfl

/-- The body of a shape, by its length. -/
theorem decode_eq_ite (ctx : Context) (body : List UInt8) (origin alignment : Nat) :
    let start := Cursor.ofBytes body origin alignment
    let boundary := max alignment 1
    let wanted := (boundary - (origin + (2 + packedSize body)) % boundary) % boundary
    decode ctx (.ofCursor start) =
      if body.length < 2 then .error (.truncated "u16" origin 2 body.length) ⟨start, []⟩
      else if body.length - 2 < packedSize body then
        .error (.truncated "vtshape descriptors" (origin + 2) (packedSize body) (body.length - 2))
          ⟨start.advance 2, []⟩
      else
        .ok ⟨slotsOf body⟩ ⟨start.advance
          (2 + packedSize body + min wanted (body.length - (2 + packedSize body))), []⟩ := by
  intro start boundary wanted
  -- The number of slots is cut off.
  by_cases hshort : body.length < 2
  · rw [if_pos hshort]
    show EStateM.bind (Reader.ofRead Cursor.u16) _ _ = _
    simp only [EStateM.bind, Reader.ofRead, Cursor.u16, bind, Reader.State.ofCursor,
      Cursor.bytes_of_lt (c := start) hshort]
    rfl
  have hcount : (body.take 2).length = 2 := List.length_take_of_le (by omega)
  rw [if_neg hshort, decode_count ctx (s := .ofCursor start) hcount
    (List.take_append_drop 2 body).symm]
  have hleft : (start.advance 2).remaining = body.length - 2 := Cursor.remaining_advance start 2
  -- The codes are cut off, or all there.
  by_cases hover : body.length - 2 < packedSize body
  · rw [if_pos hover, ← hleft]
    exact decodeCodes_of_lt (s := ⟨start.advance 2, []⟩) (by rwa [hleft])
  · have hle : packedSize body ≤ (start.advance 2).remaining := by
      rw [hleft]
      exact Nat.le_of_not_lt hover
    rw [if_neg hover, ← Cursor.padded_advance_ofBytes, ← Cursor.advance_advance]
    exact decodeCodes_of_le (s := ⟨start.advance 2, []⟩) hle

/-- The half of a byte that belongs to no slot does not matter. -/
theorem decode_set (ctx : Context) {body : List UInt8} {b : UInt8} (hodd : count body % 2 = 1)
    (hlow : ∀ old, body[1 + packedSize body]? = some old → b % 16 = old % 16)
    (origin alignment : Nat) :
    decode ctx (.ofCursor (.ofBytes (body.set (1 + packedSize body) b) origin alignment)) =
      decode ctx (.ofCursor (.ofBytes body origin alignment)) := by
  have hsize : packedSize body = (count body + 1) / 2 := rfl
  by_cases hshort : body.length ≤ 1 + packedSize body
  · -- There is no such byte.
    rw [List.set_eq_of_length_le hshort]
  -- The byte that is set is behind the number and is the last one of the codes.
  have hcount : count (body.set (1 + packedSize body) b) = count body := by
    rw [count, List.take_set_of_le (by omega)]
    rfl
  have hpacked : packedSize (body.set (1 + packedSize body) b) = packedSize body := by
    rw [packedSize, hcount]
    rfl
  have hslots : slotsOf (body.set (1 + packedSize body) b) = slotsOf body := by
    have hdrop : ((body.set (1 + packedSize body) b).drop 2).take (packedSize body) =
        ((body.drop 2).take (packedSize body)).set (count body / 2) b := by
      rw [List.drop_set, if_neg (by omega), List.take_set]
      congr 1
      omega
    have hlast : ∀ old, ((body.drop 2).take (packedSize body))[count body / 2]? = some old →
        b % 16 = old % 16 := by
      intro old hold
      rw [List.getElem?_take_of_lt (by omega), List.getElem?_drop] at hold
      apply hlow
      rw [← hold]
      congr 1
      omega
    rw [slotsOf, hcount, hpacked, hdrop, take_unpack_set hodd hlast]
    rfl
  -- Behind the codes both cursors hold the same bytes.
  have hstop : ∀ n, 1 + packedSize body < n →
      (Cursor.ofBytes (body.set (1 + packedSize body) b) origin alignment).advance n =
        (Cursor.ofBytes body origin alignment).advance n := by
    intro n hn
    simp only [Cursor.advance, Cursor.ofBytes, List.drop_set_of_lt hn]
  have h := decode_eq_ite ctx body origin alignment
  have h' := decode_eq_ite ctx (body.set (1 + packedSize body) b) origin alignment
  simp only [hpacked, hslots, List.length_set] at h h'
  rw [if_neg (by omega), if_neg (by omega)] at h h'
  rw [h, h', hstop _ (by omega)]

/-- Codes are read back from their packed form, whatever stands behind it. -/
theorem decode_pack (ctx : Context) {codes : List UInt8} (hcodes : ∀ code ∈ codes, code.toNat < 16)
    (hlength : codes.length ≤ 0xffff) (padding : List UInt8) (origin alignment : Nat) :
    let body := LittleEndian.encode 2 codes.length ++ pack codes ++ padding
    ∃ n, decode ctx (.ofCursor (.ofBytes body origin alignment)) =
      .ok ⟨codes.map SlotKind.ofCode⟩ ⟨(Cursor.ofBytes body origin alignment).advance n, []⟩ := by
  intro body
  -- The number and the codes are read back one by one.
  have hcount : count body = codes.length := by
    have htake : body.take 2 = LittleEndian.encode 2 codes.length := by
      simp only [body, List.append_assoc]
      exact List.take_left' (LittleEndian.length_encode 2 _)
    rw [count, htake, LittleEndian.decode_encode]
    simp only [LittleEndian.capacity]
    omega
  have hpacked : (pack codes).length = packedSize body := by
    rw [length_pack, packedSize, hcount]
  have hslots : slotsOf body = codes.map SlotKind.ofCode := by
    have hdrop : body.drop 2 = pack codes ++ padding := by
      simp only [body, List.append_assoc]
      exact List.drop_left' (LittleEndian.length_encode 2 _)
    rw [slotsOf, hdrop, List.take_left' hpacked, hcount, take_unpack_pack hcodes]
  have hsize : body.length = 2 + packedSize body + padding.length := by
    simp only [body, List.length_append, LittleEndian.length_encode, hpacked]
  have h := decode_eq_ite ctx body origin alignment
  simp only [hslots] at h
  rw [if_neg (by omega), if_neg (by omega)] at h
  exact ⟨_, h⟩

/-- What reading the body of a shape comes to.  A number of slots or codes that are cut short are
    refused where they stand.  Otherwise there are as many slots as the number says; the code of
    slot `k` is the low half of byte `2 + k / 2` if `k` is even and its high half if `k` is odd, and
    the padding behind the codes is passed over as far as there is any.  Nothing is reported.  If
    the number of slots is odd, the high half of the last byte does not matter.  Codes of four bits
    are read back from their packed form. -/
theorem decode_halves (ctx : Context) (body : List UInt8) (origin alignment : Nat) :
    let start := Cursor.ofBytes body origin alignment
    let count := LittleEndian.decode (body.take 2)
    let size := (count + 1) / 2
    let boundary := max alignment 1
    let wanted := (boundary - (origin + (2 + size)) % boundary) % boundary
    (∃ slots : List SlotKind,
      (decode ctx (.ofCursor start) =
        if body.length < 2 then .error (.truncated "u16" origin 2 body.length) ⟨start, []⟩
        else if body.length - 2 < size then
          .error (.truncated "vtshape descriptors" (origin + 2) size (body.length - 2))
            ⟨start.advance 2, []⟩
        else
          .ok ⟨slots⟩ ⟨start.advance (2 + size + min wanted (body.length - (2 + size))), []⟩) ∧
      (2 + size ≤ body.length → slots.length = count ∧
        ∀ k < count, ∃ b, body[2 + k / 2]? = some b ∧
          slots[k]? = some (.ofCode (if k % 2 = 0 then b % 16 else b / 16)))) ∧
    (∀ b, count % 2 = 1 → (∀ old, body[1 + size]? = some old → b % 16 = old % 16) →
      decode ctx (.ofCursor (.ofBytes (body.set (1 + size) b) origin alignment)) =
        decode ctx (.ofCursor start)) ∧
    ∀ codes padding : List UInt8, (∀ code ∈ codes, code.toNat < 16) → codes.length ≤ 0xffff →
      let packed := Cursor.ofBytes
        (LittleEndian.encode 2 codes.length ++ pack codes ++ padding) origin alignment
      ∃ n shape, decode ctx (.ofCursor packed) = .ok shape ⟨packed.advance n, []⟩ ∧
        shape.slots = codes.map SlotKind.ofCode ∧ shape.slots.map SlotKind.code = codes := by
  intro start count size boundary wanted
  refine ⟨⟨slotsOf body, decode_eq_ite ctx body origin alignment, slotsOf_spec⟩,
    fun b hodd hlow => decode_set ctx hodd hlow origin alignment, ?_⟩
  intro codes padding hcodes hlength packed
  obtain ⟨n, h⟩ := decode_pack ctx hcodes hlength padding origin alignment
  refine ⟨n, _, h, rfl, ?_⟩
  simp only [List.map_map]
  exact (List.map_congr_left fun code _ => SlotKind.code_ofCode code).trans (List.map_id _)

/-- Three slots in two bytes.  The high half of the second byte belongs to no slot, so it may be
    anything, and the three codes are packed into the same halves. -/
theorem decode_halves_three_slots :
    let body : List UInt8 := [3, 0, 0x65, 0x02, 0xf1]
    let packed := Cursor.ofBytes (LittleEndian.encode 2 3 ++ pack [5, 6, 2] ++ [0xf1]) 4 4
    (LittleEndian.decode (body.take 2) % 2 = 1 ∧
      (∀ old, body[3]? = some old → (0xf2 : UInt8) % 16 = old % 16) ∧
      decode ⟨⟨0x1000⟩, {}⟩ (.ofCursor (.ofBytes (body.set 3 0xf2) 4 4)) =
        decode ⟨⟨0x1000⟩, {}⟩ (.ofCursor (.ofBytes body 4 4))) ∧
    (∀ code ∈ ([5, 6, 2] : List UInt8), code.toNat < 16) ∧
      ∃ n shape, decode ⟨⟨0x1000⟩, {}⟩ (.ofCursor packed) = .ok shape ⟨packed.advance n, []⟩ ∧
        shape.slots = [.near32, .far32, .thin] ∧ shape.slots.map SlotKind.code = [5, 6, 2] := by
  intro body packed
  obtain ⟨-, hset, hpack⟩ := decode_halves ⟨⟨0x1000⟩, {}⟩ body 4 4
  have hcount : LittleEndian.decode (body.take 2) = 3 := by decide
  rw [hcount] at hset
  have hodd : LittleEndian.decode (body.take 2) % 2 = 1 := by decide
  have hlow : ∀ old, body[3]? = some old → (0xf2 : UInt8) % 16 = old % 16 := by
    rintro _ ⟨⟩
    rfl
  have hcodes : ∀ code ∈ ([5, 6, 2] : List UInt8), code.toNat < 16 := by simp
  exact ⟨⟨hodd, hlow, hset 0xf2 (by decide) hlow⟩, hcodes,
    hpack [5, 6, 2] [0xf1] hcodes (by decide)⟩

/-- Three slots take two bytes, whose last half is not looked at; one byte of padding follows. -/
example :
    let start := Cursor.ofBytes [3, 0, 0x65, 0xf2, 0xf1, 0x00] 7 4
    decode ⟨⟨0x1000⟩, {}⟩ (.ofCursor start) =
      .ok ⟨[.near32, .far32, .thin]⟩ ⟨start.advance 5, []⟩ := by
  cbv

end TableShape

end TypeStream
