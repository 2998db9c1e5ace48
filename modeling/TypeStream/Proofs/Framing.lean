import TypeStream.Encoding
import TypeStream.Stream
import TypeStream.Proofs.Reads

/-!
# Frames in a byte list

Every byte list falls into complete frames and a tail at whose front no complete frame stands, and
there is only one way to cut it so.  `Frame.Splits` is this cut as a relation, `Frame.split` finds
it, and `Cursor.frame` goes along it: it takes the frames one by one and fails at a tail that holds
any byte.

## Key results

- `Frame.splits_split`: `Frame.split` cuts every byte list
- `Frame.Splits.eq_split`: there is no other cut
- `Cursor.frame_of_encode` / `Cursor.frame_of_incomplete`: reading at a frame and at a tail
-/

namespace TypeStream

namespace Frame

/-- How long a payload can be, so that its length fits into two bytes. -/
def maxLength : Nat := 0xffff

/-- No complete frame stands at the front of the bytes. -/
def Incomplete : List UInt8 → Prop
  | low :: high :: rest => rest.length < LittleEndian.decode [low, high]
  | _ => True

/-- The bytes are frames with the payloads given, and a tail in front of which there is none. -/
structure Splits (bytes : List UInt8) (payloads : List (List UInt8)) (tail : List UInt8) :
    Prop where
  bytes_eq : bytes = payloads.flatMap encode ++ tail
  length_le : ∀ payload ∈ payloads, payload.length ≤ maxLength
  incomplete : Incomplete tail

/-- Why a tail at the offset given cannot be read as a frame, if it holds any byte. -/
def tailError? (offset : Nat) : List UInt8 → Option Error
  | [] => none
  | [_] => some (.truncated "u16" offset 2 1)
  | low :: high :: rest => some (.blockOverrun (LittleEndian.decode [low, high]) rest.length)

/-- Only an empty tail is no error. -/
theorem tailError?_eq_none_iff {offset : Nat} {tail : List UInt8} :
    tailError? offset tail = none ↔ tail = [] := by
  rcases tail with _ | ⟨low, _ | ⟨high, rest⟩⟩ <;> simp [tailError?]

/-- A frame is two bytes longer than its payload. -/
@[simp] theorem length_encode (payload : List UInt8) :
    (encode payload).length = payload.length + 2 := by
  simp [encode]
  omega

/-- A length that fits into two bytes is read as it was written. -/
theorem decode_length {payload : List UInt8} (h : payload.length ≤ maxLength) :
    LittleEndian.decode (LittleEndian.encode 2 payload.length) = payload.length := by
  apply LittleEndian.decode_encode
  simp only [LittleEndian.capacity]
  unfold maxLength at h
  omega

/-! ### The cut that `split` finds -/

/-- Where no complete frame stands in front, all is tail. -/
theorem split_of_incomplete {bytes : List UInt8} (h : Incomplete bytes) :
    split bytes = ([], bytes) := by
  match bytes with
  | [] => rw [split]; simp
  | [_] => rw [split]; simp
  | low :: high :: rest =>
    have hlt : ¬ LittleEndian.decode [low, high] ≤ rest.length := Nat.not_le.2 h
    rw [split]
    exact if_neg hlt

/-- A frame in front is cut off, and the rest is cut in the same way. -/
theorem split_encode_append {payload : List UInt8} (h : payload.length ≤ maxLength)
    (rest : List UInt8) :
    split (encode payload ++ rest) = (payload :: (split rest).1, (split rest).2) := by
  have hlength := decode_length h
  simp only [LittleEndian.encode] at hlength
  simp only [encode, LittleEndian.encode, List.cons_append, List.nil_append]
  rw [split]
  simp [hlength]

/-- `split` cuts every byte list into frames and an incomplete tail. -/
theorem splits_split (bytes : List UInt8) : Splits bytes (split bytes).1 (split bytes).2 := by
  induction bytes using split.induct with
  | case1 low high rest length h _ _ _ ih =>
    -- a complete frame: its two length bytes are those that `encode` writes
    have hpair : LittleEndian.encode 2 length = [low, high] :=
      LittleEndian.encode_decode [low, high]
    have htake : (rest.take length).length = length := List.length_take_of_le h
    have hframe : encode (rest.take length) ++ rest.drop length = low :: high :: rest := by
      simp only [encode, htake, hpair, List.append_assoc, List.take_append_drop]
      rfl
    have hlength : length ≤ maxLength := by
      have := LittleEndian.decode_lt [low, high]
      simp only [LittleEndian.capacity, List.length_cons, List.length_nil] at this
      show LittleEndian.decode [low, high] ≤ 0xffff
      omega
    rw [← hframe, split_encode_append (by rw [htake]; exact hlength)]
    refine ⟨?_, ?_, ih.incomplete⟩
    · simp only [List.flatMap_cons, List.append_assoc]
      rw [← ih.bytes_eq]
    · intro payload hpayload
      rcases List.mem_cons.1 hpayload with rfl | hrest
      · rw [htake]
        exact hlength
      · exact ih.length_le payload hrest
  | case2 low high rest length h =>
    -- the length reaches beyond the end
    have hincomplete : Incomplete (low :: high :: rest) := Nat.not_le.1 h
    rw [split_of_incomplete hincomplete]
    exact ⟨rfl, by simp, hincomplete⟩
  | case3 bytes h =>
    -- fewer than two bytes
    have hincomplete : Incomplete bytes := by
      rcases bytes with _ | ⟨low, _ | ⟨high, rest⟩⟩
      · trivial
      · trivial
      · exact absurd rfl (h low high rest)
    rw [split_of_incomplete hincomplete]
    exact ⟨rfl, by simp, hincomplete⟩

/-- There is one way to cut a byte list. -/
theorem Splits.eq_split {bytes tail : List UInt8} {payloads : List (List UInt8)}
    (h : Splits bytes payloads tail) : split bytes = (payloads, tail) := by
  obtain ⟨rfl, hlength, hincomplete⟩ := h
  -- Frame by frame, `split` takes off what the cut has in front.
  induction payloads with
  | nil => simpa using split_of_incomplete hincomplete
  | cons payload rest ih =>
    have hrest := ih fun p hp => hlength p (List.mem_cons_of_mem _ hp)
    simp only [List.flatMap_cons, List.append_assoc]
    rw [split_encode_append (hlength payload List.mem_cons_self), hrest]

end Frame

/-! ### Reading a frame -/

namespace Cursor

/-- A window is a cursor at the start of its bytes, in their place. -/
theorem window_eq_ofBytes (c : Cursor) (n : Nat) :
    c.window n = ofBytes (c.unread.take n) c.offset c.alignment := by
  have := c.alignment_pos
  simp only [window, ofBytes, mk.injEq, true_and]
  omega

/-- In front of a frame, the payload is read as a window of its own. -/
theorem frame_of_encode {c : Cursor} {payload rest : List UInt8}
    (h : c.unread = Frame.encode payload ++ rest) (hlength : payload.length ≤ Frame.maxLength) :
    frame c = .ok (ofBytes payload (c.offset + 2) c.alignment)
      (c.advance (Frame.encode payload).length) := by
  have hu16 : u16 c = .ok (UInt16.ofNat payload.length) (c.advance 2) := by
    have hread := Reads.u16_of_length (LittleEndian.length_encode 2 payload.length)
    rw [Frame.decode_length hlength] at hread
    simpa using hread c (payload ++ rest) (by simp [h, Frame.encode])
  have hunread : (c.advance 2).unread = payload ++ rest := by
    simp [h, Frame.encode, LittleEndian.encode]
  have htoNat : (UInt16.ofNat payload.length).toNat = payload.length := by
    rw [UInt16.toNat_ofNat']
    unfold Frame.maxLength at hlength
    omega
  -- What the length counts is the payload, two bytes further on.
  have hblock : block payload.length (c.advance 2) =
      .ok (ofBytes payload (c.offset + 2) c.alignment) (c.advance (payload.length + 2)) := by
    have hle : payload.length ≤ (c.advance 2).remaining := by
      rw [remaining, hunread]
      simp
    rw [block_of_le hle, window_eq_ofBytes, hunread]
    simp [Nat.add_comm]
  show EStateM.bind u16 (fun length => block length.toNat) c = _
  simp only [EStateM.bind, hu16, htoNat, hblock, Frame.length_encode]

/-- In front of a tail that holds any byte, there is no frame to read. -/
theorem frame_of_incomplete {c : Cursor} {e : Error} (h : Frame.Incomplete c.unread)
    (he : Frame.tailError? c.offset c.unread = some e) : ∃ stop, frame c = .error e stop := by
  match htail : c.unread with
  | [] => simp [htail, Frame.tailError?] at he
  | [b] =>
    -- the length itself is cut short
    simp only [htail, Frame.tailError?, Option.some.injEq] at he
    have hremaining : c.remaining = 1 := by simp [remaining, htail]
    have hlt : c.remaining < 2 := by omega
    refine ⟨c, ?_⟩
    simp only [frame, u16, bind, EStateM.bind, bytes_of_lt hlt, hremaining, he]
  | low :: high :: rest =>
    -- the length is read, but not all of the bytes that it counts are there
    simp only [htail, Frame.tailError?, Option.some.injEq] at he
    have hu16 : u16 c = .ok (UInt16.ofNat (LittleEndian.decode [low, high])) (c.advance 2) :=
      Reads.u16_of_length rfl c rest htail
    have htoNat : (UInt16.ofNat (LittleEndian.decode [low, high])).toNat =
        LittleEndian.decode [low, high] := LittleEndian.toNat_ofNat_decode rfl
    have hremaining : (c.advance 2).remaining = rest.length := by simp [remaining, htail]
    have hlt : (c.advance 2).remaining < LittleEndian.decode [low, high] := by
      rw [htail] at h
      rw [hremaining]
      exact h
    refine ⟨c.advance 2, ?_⟩
    show EStateM.bind u16 (fun length => block length.toNat) c = _
    simp only [EStateM.bind, hu16, htoNat, block_of_lt hlt, hremaining, he]

end Cursor

end TypeStream
