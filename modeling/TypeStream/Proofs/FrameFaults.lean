import TypeStream.Proofs.ComparedRuns
import TypeStream.Proofs.NamePieces
import TypeStream.Proofs.TableFrames

/-!
# What failures point at

Bodies and name blocks are read in windows of their own.  The offsets that errors tell are absolute,
but the numbers of bytes beside them are counted inside a window.  Both fit together: every failure
of a run points into its own frame, and names the frame's own bytes.

`Frame.Placed.Fault` lists what can be wrong with a frame, in the numbers of the stream.  The bytes
of a frame are its length at 0, its leaf kind at 2 and its body at 4; in a table, the name block
stands at 20.

## Key results

- `VirtualTable.decode_error_cases`, `TableShape.truncates_of_decode_error`: why a body is refused
- `DecoderTable.fault_of_outcome_error`: why a frame does not decode to a record
- `DecoderTable.readStream_failures_in_frames`: what the failures of a stream point at
-/

namespace TypeStream

open Cursor.Coupling (finish)

/-! ### Faults of a frame -/

namespace Frame.Placed

/-- The body of a frame stands behind its length and its kind. -/
theorem offset_body (o : Options) (f : Placed) : (f.body o).offset = f.offset + 4 := rfl

/-- The body of a frame is its payload without the kind. -/
theorem remaining_body (o : Options) (f : Placed) :
    (f.body o).remaining = f.payload.length - 2 := by
  show (f.payload.drop 2).length = _
  rw [List.length_drop]

/-- What is wrong with a frame that does not decode to a record. -/
inductive Fault (t : DecoderTable) (o : Options) (f : Placed) : Error → Prop
  /-- The bytes from a field to the end of the frame are fewer than the field needs. -/
  | field {field offset needed available} : f.offset + 2 ≤ offset →
      offset + available = f.offset + 2 + f.payload.length → available < needed →
      Fault t o f (.truncated field offset needed available)
  /-- The frame ends before the name block does, which is counted from the block's start. -/
  | block {declared available} : available + 18 = f.payload.length → available < declared →
      Fault t o f (.blockOverrun declared available)
  /-- The last bytes of the name block, behind all that end in a zero byte, have no zero byte. -/
  | string {front pieces run offset} : t.HoldsTable f.payload front →
      NameBlock.Cut (front.drop 16) pieces run → run ≠ [] →
      offset = f.offset + 20 + (pieces.flatMap (· ++ [0])).length →
      offset + run.length = f.offset + 4 + front.length →
      f.offset + 4 + front.length ≤ f.offset + 2 + f.payload.length →
      Fault t o f (.unterminated offset)
  /-- The name block is empty, and the table must have a name. -/
  | unnamed {front} : t.HoldsTable f.payload front → front.length = 16 → o.naming = .required →
      Fault t o f .unnamedTable
  /-- The record does not take up the frame: the last bytes of the frame are left over. -/
  | leftover {kind body record count} {s : Reader.State} :
      f.payload = LittleEndian.encode 2 kind.toNat ++ body →
      t.decoder kind ⟨f.index, o⟩ (.ofCursor (f.body o)) = .ok record s →
      s.cursor.unread = f.payload.drop (f.payload.length - count) →
      0 < count → count + 2 ≤ f.payload.length →
      Fault t o f (.leftover f.index count)

end Frame.Placed

/-! ### Bodies -/

namespace Reader

variable {α β : Type}

/-- Where the computation succeeds, the cursor has moved forward in its window. -/
def Advances (m : Reader α) : Prop :=
  ∀ s a s', m s = .ok a s' → ∃ n ≤ s.cursor.remaining, s'.cursor = s.cursor.advance n

/-- What fails is the computation, not what is made of its result. -/
theorem error_of_map_error {m : Reader α} {f : α → β} {s s' : State} {e : Error}
    (h : (do return f (← m) : Reader β) s = .error e s') : m s = .error e s' := by
  change EStateM.bind m _ s = _ at h
  unfold EStateM.bind at h
  split at h
  · cases h
  · rename_i hm
    cases h
    exact hm

/-- What becomes of a value makes no difference to the position of the reader. -/
theorem Advances.map {m : Reader α} (h : Advances m) (f : α → β) :
    Advances (do return f (← m)) := by
  intro s b s' hok
  obtain ⟨a, middle, hm, hpure⟩ := exists_ok_of_bind_ok hok
  rw [← (EStateM.Result.ok.inj hpure).2]
  exact h s a middle hm

end Reader

/-- The padding behind bytes that are left ends at bytes that are left or at the end. -/
theorem Cursor.exists_padded_advance {c : Cursor} {n : Nat} (h : n ≤ c.remaining) :
    ∃ k ≤ c.remaining, (c.advance n).padded = c.advance k := by
  obtain ⟨m, hm, hpadded⟩ := (c.advance n).padded_eq_advance
  rw [remaining_advance] at hm
  refine ⟨n + m, by omega, ?_⟩
  rw [hpadded, advance_advance]

/-- The front of the bytes left is no longer than these. -/
theorem Cursor.length_le_remaining {c : Cursor} {front padding : List UInt8}
    (h : c.unread = front ++ padding) : front.length ≤ c.remaining := by
  rw [remaining, h, List.length_append]
  omega

namespace VirtualTable

/-- Decoding a table moves on inside of its body. -/
theorem advances_decode (ctx : Context) : Reader.Advances (decode ctx) := by
  intro s table s' h
  -- The front of the table is all there, or the cursor is cut off within it.
  obtain ⟨front, padding, hs, hfront⟩ | ⟨e, s'', _, hdecode⟩ := front_or_cutOff ctx.index s
  · obtain ⟨owner, base, pointerOffset, hdecode⟩ := decode_of_front hfront
    rw [hdecode ctx s padding hs] at h
    split at h
    · exact nomatch h
    · rw [← (EStateM.Result.ok.inj h).2]
      exact Cursor.exists_padded_advance (Cursor.length_le_remaining hs)
  · rw [hdecode ctx.options] at h
    exact nomatch h

/-- A body is refused because it ends inside its front, or because of its name block. -/
theorem decode_error_cases {ctx : Context} {s s' : Reader.State} {e : Error}
    (h : decode ctx s = .error e s') :
    CutOff s.cursor e ∨ ∃ front padding, s.cursor.unread = front ++ padding ∧ IsFront front ∧
      ((∃ pieces run, NameBlock.Cut (front.drop 16) pieces run ∧ run ≠ [] ∧
          e = .unterminated (s.cursor.offset + 16 + (pieces.flatMap (· ++ [0])).length)) ∨
        front.length = 16 ∧ ctx.options.naming = .required ∧ e = .unnamedTable) := by
  obtain ⟨front, padding, hs, hfront⟩ | ⟨e', s'', hcut, hdecode⟩ := front_or_cutOff ctx.index s
  · obtain ⟨owner, base, pointerOffset, hdecode⟩ := decode_of_front hfront
    rw [hdecode ctx s padding hs] at h
    split at h
    · rename_i hnames
      obtain ⟨rfl, _⟩ := EStateM.Result.error.inj h
      refine .inr ⟨front, padding, hs, hfront, ?_⟩
      -- The names fail at a string without an end, or because there is none.
      obtain hstring | ⟨hend, hrequired, herror⟩ := NameBlock.decode_error_cases hnames
      · exact .inl hstring
      · have hempty : (front.drop 16).length = 0 := Cursor.atEnd_iff.1 hend
        have hle := hfront.fields_le
        rw [List.length_drop] at hempty
        exact .inr ⟨by omega, hrequired, herror⟩
    · exact nomatch h
  · rw [hdecode ctx.options] at h
    obtain ⟨rfl, _⟩ := EStateM.Result.error.inj h
    exact .inl hcut

end VirtualTable

namespace TableShape

theorem advances_decode (ctx : Context) : Reader.Advances (decode ctx) := by
  intro s shape s' h
  obtain ⟨front, padding, hs, hfront⟩ | ⟨e, s'', _, hdecode⟩ := front_or_truncates ctx s
  · obtain ⟨shape', hdecode⟩ := decode_of_front hfront
    rw [hdecode ctx s padding hs] at h
    rw [← (EStateM.Result.ok.inj h).2]
    exact Cursor.exists_padded_advance (Cursor.length_le_remaining hs)
  · rw [hdecode] at h
    exact nomatch h

/-- A shape that is not decoded is cut off by the end of its body. -/
theorem truncates_of_decode_error {ctx : Context} {s s' : Reader.State} {e : Error}
    (h : decode ctx s = .error e s') : s.cursor.Truncates e := by
  obtain ⟨front, padding, hs, hfront⟩ | ⟨e', s'', htruncates, hdecode⟩ := front_or_truncates ctx s
  · obtain ⟨shape', hdecode⟩ := decode_of_front hfront
    rw [hdecode ctx s padding hs] at h
    exact nomatch h
  · rw [hdecode] at h
    rwa [← (EStateM.Result.error.inj h).1]

end TableShape

/-- A payload with a kind has the two bytes of the kind. -/
theorem Frame.two_le_of_kind {payload body : List UInt8} {kind : UInt16}
    (h : payload = LittleEndian.encode 2 kind.toNat ++ body) : 2 ≤ payload.length := by
  rw [h, List.length_append, LittleEndian.length_encode]
  omega

namespace DecoderTable

/-- Tables and shapes have decoders of their own, and all else is kept. -/
theorem standard_decoder_cases (kind : UInt16) :
    standard.decoder kind = .virtualTable ∨ standard.decoder kind = .tableShape ∨
      standard.decoder kind = .keep kind := by
  simp only [standard, decoder_insert]
  split
  · exact .inr (.inl rfl)
  · split
    · exact .inl rfl
    · exact .inr (.inr rfl)

/-- Whichever decoder is used, it moves on inside of the body. -/
theorem advances_standard (kind : UInt16) (ctx : Context) :
    Reader.Advances (standard.decoder kind ctx) := by
  obtain hkind | hkind | hkind := standard_decoder_cases kind
  · rw [hkind]
    exact (VirtualTable.advances_decode ctx).map Record.virtualTable
  · rw [hkind]
    exact (TableShape.advances_decode ctx).map Record.tableShape
  -- Every other kind is kept as it is, with all bytes that are left.
  · intro s record s' h
    rw [hkind, Decoder.keep_apply] at h
    rw [← (EStateM.Result.ok.inj h).2]
    exact ⟨_, Nat.le_refl _, rfl⟩

/-! ### Frames that fail -/

variable {t : DecoderTable} {o : Options} {f : Frame.Placed} {e : Error} {kind : UInt16}
  {body : List UInt8}

/-- A field of the body that is cut short is one of the frame. -/
theorem fault_of_truncates (hlength : 2 ≤ f.payload.length) (h : (f.body o).Truncates e) :
    f.Fault t o e := by
  cases h with
  | intro hoffset hend hlt =>
    rw [Frame.Placed.offset_body] at hoffset hend
    rw [Frame.Placed.remaining_body] at hend
    exact .field (by omega) (by omega) hlt

/-- A body that is refused as a table has one of the faults. -/
theorem fault_of_virtualTable_error {s : Reader.State}
    (hpayload : f.payload = LittleEndian.encode 2 kind.toNat ++ body)
    (hkind : t.decoder kind = .virtualTable)
    (h : VirtualTable.decode ⟨f.index, o⟩ (.ofCursor (f.body o)) = .error e s) :
    f.Fault t o e := by
  have hlength := Frame.two_le_of_kind hpayload
  obtain hcut | ⟨front, padding, hs, hfront, hnames⟩ := VirtualTable.decode_error_cases h
  · cases hcut with
    | field htruncates => exact fault_of_truncates hlength htruncates
    | block hend hlt =>
      change _ = (f.body o).remaining at hend
      rw [Frame.Placed.remaining_body] at hend
      exact .block (by omega) hlt
  · -- The front is all there, so the name block ends inside the frame.
    change (f.body o).unread = front ++ padding at hs
    have htable : t.HoldsTable f.payload front :=
      ⟨kind, padding, by rw [hpayload, ← unread_body o hpayload, hs], hkind, hfront⟩
    have hinside := Cursor.length_le_remaining hs
    have hle := hfront.fields_le
    rw [Frame.Placed.remaining_body] at hinside
    obtain ⟨pieces, run, hcut, hrun, rfl⟩ | ⟨hempty, hrequired, rfl⟩ := hnames
    · have hblock := congrArg List.length hcut.bytes_eq
      rw [List.length_drop, List.length_append] at hblock
      show f.Fault t o (.unterminated ((f.body o).offset + 16 + _))
      rw [Frame.Placed.offset_body]
      exact .string htable hcut hrun (by omega) (by omega) (by omega)
    · exact .unnamed htable hempty hrequired

/-- A body that the decoder of its leaf kind refuses has one of the faults. -/
theorem fault_of_decoder_error {s : Reader.State}
    (hpayload : f.payload = LittleEndian.encode 2 kind.toNat ++ body)
    (h : standard.decoder kind ⟨f.index, o⟩ (.ofCursor (f.body o)) = .error e s) :
    f.Fault standard o e := by
  obtain hkind | hkind | hkind := standard_decoder_cases kind
  · rw [hkind] at h
    exact fault_of_virtualTable_error hpayload hkind (Reader.error_of_map_error h)
  · rw [hkind] at h
    exact fault_of_truncates (Frame.two_le_of_kind hpayload)
      (TableShape.truncates_of_decode_error (Reader.error_of_map_error h))
  · rw [hkind, Decoder.keep_apply] at h
    cases h

/-- A frame that does not decode to a record has one of the faults. -/
theorem fault_of_outcome_error (h : (standard.outcome o f).result = .error e) :
    f.Fault standard o e := by
  by_cases hshort : f.payload.length < 2
  -- A frame without room for a leaf kind.
  · rw [outcome_of_short standard o hshort] at h
    rw [← Except.error.inj h]
    exact .field (Nat.le_refl _) rfl hshort
  obtain ⟨kind, hpayload⟩ := Frame.exists_kind (Nat.le_of_not_lt hshort)
  rw [outcome_of_kind standard o hpayload] at h
  split at h
  -- The decoder of the kind fails.
  · rename_i hdecoder
    rw [← Except.error.inj h]
    exact fault_of_decoder_error hpayload hdecoder
  · rename_i record s hdecoder
    simp only [finish] at h
    split at h
    · exact nomatch h
    · -- What is left over of the body is the end of the frame.
      rename_i hend
      obtain ⟨n, hn, hcursor⟩ := advances_standard kind ⟨f.index, o⟩ _ _ _ hdecoder
      change n ≤ (f.body o).remaining at hn
      change s.cursor = (f.body o).advance n at hcursor
      rw [Cursor.atEnd_iff] at hend
      have hremaining : s.cursor.remaining = (f.body o).remaining - n := by
        rw [hcursor, Cursor.remaining_advance]
      rw [Frame.Placed.remaining_body] at hremaining hn
      rw [← Except.error.inj h]
      refine .leftover hpayload hdecoder ?_ (by omega) (by omega)
      have hdrop : f.payload.length - s.cursor.remaining = 2 + n := by omega
      rw [hcursor, Cursor.unread_advance, ← hcursor, hdrop, ← List.drop_drop]
      rfl

/-- The kind of a frame is not known exactly if there is no room for it. -/
theorem kind_outcome_eq_none_iff (t : DecoderTable) (o : Options) (f : Frame.Placed) :
    (t.outcome o f).kind = none ↔ f.payload.length < 2 := by
  by_cases hshort : f.payload.length < 2
  · rw [outcome_of_short t o hshort]
    exact iff_of_true rfl hshort
  · obtain ⟨kind, hpayload⟩ := Frame.exists_kind (Nat.le_of_not_lt hshort)
    rw [outcome_of_kind t o hpayload]
    refine iff_of_false ?_ hshort
    split <;> exact nofun

/-- Every failure of a stream that is decoded is one of a complete frame of the stream.  It has the
    index and the offset of the frame, and no leaf kind exactly if the frame is too short for one,
    and its error tells what is wrong with the frame. -/
theorem readStream_failures_in_frames {stream : List UInt8} {σ : Type} [Collector σ]
    {collector : σ} {d : Decoded} (h : (standard.readStream o stream collector).1 = .ok d) :
    ∀ g ∈ d.report.failures, ∃ before payload after,
      Frame.Splits stream (before ++ payload :: after) [] ∧
      g.index = o.firstIndex.nth before.length ∧
      g.offset = (before.flatMap Frame.encode).length ∧
      (g.kind = none ↔ payload.length < 2) ∧
      Frame.Placed.Fault standard o ⟨g.index, g.offset, payload⟩ g.error := by
  intro g hg
  obtain ⟨_, payloads, hsplits, _, rfl⟩ := exists_of_readStream_ok collector h
  -- A failure belongs to one frame, and the frames around it make up the stream.
  obtain ⟨f, hf, e, he, rfl⟩ := mem_failures_iff.1 hg
  obtain ⟨before, after, hpayloads, hplace⟩ := Frame.exists_around_of_mem_place hf
  rw [Nat.zero_add] at hplace
  refine ⟨before, f.payload, after, hpayloads ▸ hsplits, ?_, ?_, ?_, ?_⟩
  · exact congrArg Frame.Placed.index hplace
  · exact congrArg Frame.Placed.offset hplace
  · exact kind_outcome_eq_none_iff standard o f
  · exact fault_of_outcome_error he

/-- An empty frame, a table whose second name has no end, and a table with bytes left over. -/
theorem readStream_failures_in_frames_three_faults :
    let fields : List UInt8 := [0x1d, 0x15, 0x74, 0, 0, 0, 0, 0, 0, 0, 0, 0, 0, 0]
    let stream : List UInt8 := [0, 0] ++ [21, 0] ++ fields ++ [3, 0, 0, 0, 97, 0, 98] ++
      [22, 0] ++ fields ++ [0, 0, 0, 0, 1, 2, 3, 4]
    ∃ d, (standard.readStream {} stream ()).1 = .ok d ∧
      d.report.failures = [⟨⟨0x1000⟩, none, 0, .truncated "u16" 2 2 0⟩,
        ⟨⟨0x1001⟩, some 0x151d, 2, .unterminated 24⟩,
        ⟨⟨0x1002⟩, some 0x151d, 25, .leftover ⟨0x1002⟩ 1⟩] ∧
      ∀ g ∈ d.report.failures, ∃ before payload after,
        Frame.Splits stream (before ++ payload :: after) [] ∧
        g.offset = (before.flatMap Frame.encode).length ∧
        Frame.Placed.Fault standard {} ⟨g.index, g.offset, payload⟩ g.error := by
  intro fields stream
  have hvalid : ({} : Options).validate = .ok () := Options.validate_eq_ok_iff.2 (by decide)
  have hsplits : Frame.Splits stream [[], fields ++ [3, 0, 0, 0, 97, 0, 98],
      fields ++ [0, 0, 0, 0, 1, 2, 3, 4]] [] := ⟨by decide, by decide, trivial⟩
  have hread := congrArg Prod.fst (readStream_eq (t := standard) () hvalid hsplits)
  refine ⟨_, hread, by decide +kernel, ?_⟩
  intro g hg
  obtain ⟨before, payload, after, hcut, _, hoffset, _, hfault⟩ :=
    readStream_failures_in_frames hread g hg
  exact ⟨before, payload, after, hcut, hoffset, hfault⟩

end DecoderTable

end TypeStream
