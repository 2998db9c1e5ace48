import TypeStream.Proofs.ComparedRuns
import TypeStream.Proofs.TableFrames

/-!
# Frames that are not decoded

A frame whose leaf kind has no decoder is kept as its leaf kind and the bytes behind it.  That is
all of the frame: its length is that of the two together, so from the record the frame can be
written again, byte for byte.  Without any decoders this holds for every frame that has a leaf
kind, and the frames of the records, one behind the other, are the stream.

## Key results

- `DecoderTable.outcome_of_unsupported`: a frame whose leaf kind has no decoder
- `DecoderTable.failures_empty`, `DecoderTable.records_empty`: frames read without any decoders
- `DecoderTable.readStream_undecoded`: the stream and the frames that are written again
-/

namespace TypeStream

/-! ### Records that were kept -/

/-- The record that a payload is kept as. -/
def Frame.kept (payload : List UInt8) : Record := .unknown (kindOf payload) (payload.drop 2)

/-- The frame of a record that was kept: the length of what follows, the leaf kind, and the bytes
    behind it. -/
def Record.keptFrame? : Record → Option (List UInt8)
  | .unknown kind bytes => some (LittleEndian.encode 2 (2 + bytes.length) ++
      LittleEndian.encode 2 kind.toNat ++ bytes)
  | _ => none

/-- A payload that is kept tells the frame that it came from. -/
theorem Frame.keptFrame?_kept {payload : List UInt8} (h : 2 ≤ payload.length) :
    (kept payload).keptFrame? = some (encode payload) := by
  have hlength : 2 + (payload.drop 2).length = payload.length := by
    rw [List.length_drop]
    omega
  simp only [kept, Record.keptFrame?, hlength, List.append_assoc, encode_kindOf h]
  rfl

theorem Frame.map_payload_place (index : TypeIndex) (offset : Nat) (payloads : List (List UInt8)) :
    (place index offset payloads).map Placed.payload = payloads := by
  induction payloads generalizing index offset with
  | nil => rfl
  | cons payload rest ih => simp only [place, List.map_cons, ih]

/-! ### Frames without a decoder -/

/-- The failure of a frame that is too short for a leaf kind. -/
def Frame.Placed.tooShort (f : Placed) : Failure :=
  ⟨f.index, none, f.offset, .truncated "u16" (f.offset + 2) 2 f.payload.length⟩

namespace DecoderTable

variable {t : DecoderTable} {o : Options} {f : Frame.Placed} {frames : List Frame.Placed}

/-- A kind without a decoder is kept. -/
theorem decoder_of_unsupported {kind : UInt16} (h : t.supports kind = false) :
    t.decoder kind = .keep kind := by
  simp only [supports, OrderedMap.contains, Option.isSome_eq_false_iff, Option.isNone_iff_eq_none]
    at h
  simp only [decoder, h, Option.getD_none]

/-- A frame whose leaf kind has no decoder is kept, and reports nothing. -/
theorem outcome_of_unsupported (hlength : 2 ≤ f.payload.length)
    (h : t.supports (Frame.kindOf f.payload) = false) :
    t.outcome o f = ⟨some (Frame.kindOf f.payload), [], .ok (Frame.kept f.payload)⟩ := by
  have hpayload := (Frame.encode_kindOf hlength).symm
  rw [outcome_of_kind t o hpayload, decoder_of_unsupported h, Decoder.keep_apply]
  simp only [Reader.State.ofCursor, unread_body o hpayload, Cursor.Coupling.finish,
    Cursor.atEnd_advance_remaining, ↓reduceIte]
  rfl

/-- A frame whose leaf kind has no decoder leaves a record that it can be written from again. -/
theorem exists_kept_of_unsupported {before after : List (List UInt8)} {payload : List UInt8}
    (offset : Nat)
    (hbound : o.firstIndex.toNat + (before ++ payload :: after).length ≤ UInt32.size)
    (hlength : 2 ≤ payload.length) (h : t.supports (Frame.kindOf payload) = false) :
    ∃ record, (t.gather o (Frame.place o.firstIndex offset
        (before ++ payload :: after))).catalog.find? (o.firstIndex.nth before.length) =
      some record ∧ record.keptFrame? = some (Frame.encode payload) := by
  refine ⟨Frame.kept payload, ?_, Frame.keptFrame?_kept hlength⟩
  apply (find?_gather_iff (Frame.pairwise_place hbound offset)).2
  refine ⟨⟨o.firstIndex.nth before.length, offset + (before.flatMap Frame.encode).length, payload⟩,
    ?_, rfl, ?_⟩
  · rw [Frame.place_append]
    exact List.mem_append_right _ List.mem_cons_self
  · rw [outcome_of_unsupported hlength h]

/-! ### Frames read without any decoders -/

/-- Without decoders nothing is reported. -/
theorem references_empty (o : Options) (frames : List Frame.Placed) :
    empty.references o frames = [] := by
  apply List.flatMap_eq_nil_iff.2
  intro f _
  by_cases hshort : f.payload.length < 2
  · rw [outcome_of_short empty o hshort]
  · rw [outcome_of_unsupported (Nat.le_of_not_lt hshort) rfl]

/-- Only a frame that is too short for a leaf kind fails. -/
theorem failure?_empty (o : Options) (f : Frame.Placed) :
    empty.failure? o f = if f.payload.length < 2 then some f.tooShort else none := by
  by_cases hshort : f.payload.length < 2
  · simp only [failure?, outcome_of_short empty o hshort, hshort, ↓reduceIte]
    rfl
  · simp only [failure?, outcome_of_unsupported (t := empty) (o := o) (Nat.le_of_not_lt hshort) rfl,
      hshort, ↓reduceIte]

/-- Without decoders only a frame without room for a kind fails. -/
theorem failures_empty (o : Options) (frames : List Frame.Placed) :
    empty.failures o frames =
      (frames.filter fun f => f.payload.length < 2).map Frame.Placed.tooShort := by
  unfold failures
  induction frames with
  | nil => rfl
  | cons f rest ih =>
    -- With no decoder only a frame that is too short for a leaf kind fails.
    by_cases hshort : f.payload.length < 2
    · rw [List.filterMap_cons_some ((failure?_empty o f).trans (if_pos hshort)), ih]
      simp only [List.filter_cons, hshort, decide_true, ↓reduceIte, List.map_cons]
    · rw [List.filterMap_cons_none ((failure?_empty o f).trans (if_neg hshort)), ih]
      simp only [List.filter_cons, hshort, decide_false, Bool.false_eq_true, ↓reduceIte]

/-- Frames that are all long enough for a leaf kind are kept in order. -/
theorem records_empty (h : ∀ f ∈ frames, 2 ≤ f.payload.length) :
    empty.records o frames = frames.map fun f => (f.index, Frame.kept f.payload) := by
  rw [← List.filterMap_eq_map]
  refine List.filterMap_congr fun f hf => ?_
  simp only [record?, outcome_of_unsupported (t := empty) (o := o) (h f hf) rfl]
  rfl

/-- A strict run without decoders ends at a frame that is too short for a leaf kind. -/
theorem exists_tooShort_of_refusal? {e : Error} (h : empty.refusal? o frames = some e) :
    o.strict = true ∧ ∃ f ∈ frames, f.payload.length < 2 ∧ e = f.tooShort.error := by
  obtain ⟨hstrict, g, hg, rfl⟩ := exists_failure_of_refusal? h
  rw [failures_empty] at hg
  obtain ⟨f, hf, rfl⟩ := List.mem_map.1 hg
  obtain ⟨hf, hshort⟩ := List.mem_filter.1 hf
  exact ⟨hstrict, f, hf, of_decide_eq_true hshort, rfl⟩

/-- So without failures every frame has a kind. -/
theorem le_length_of_failures_empty (h : empty.failures o frames = []) :
    ∀ f ∈ frames, 2 ≤ f.payload.length := by
  intro f hf
  rw [failures_empty, List.map_eq_nil_iff, List.filter_eq_nil_iff] at h
  have hlong := h f hf
  simp only [decide_eq_true_eq] at hlong
  omega

/-- The frames of the records, in order of index, are the frames that were read. -/
theorem keptFrame?_gather_empty {payloads : List (List UInt8)} (offset : Nat)
    (hbound : o.firstIndex.toNat + payloads.length ≤ UInt32.size)
    (h : empty.failures o (Frame.place o.firstIndex offset payloads) = []) :
    (empty.gather o (Frame.place o.firstIndex offset payloads)).catalog.entries.map
      (fun e => e.2.keptFrame?) = (payloads.map Frame.encode).map some := by
  -- The bound gives every frame an index of its own, so the catalog is in stream order.
  have hascending := empty.pairwise_records o (Frame.pairwise_place hbound offset)
  have hlong := le_length_of_failures_empty h
  have hentries : (empty.gather o (Frame.place o.firstIndex offset payloads)).catalog.entries =
      empty.records o (Frame.place o.firstIndex offset payloads) :=
    Catalog.entries_insertAll (.empty o.placeholders) hascending nofun
  rw [hentries, records_empty hlong, List.map_map, List.map_map]
  -- Both sides are maps over the frames now, so one frame is enough.
  conv_rhs => rw [← Frame.map_payload_place o.firstIndex offset payloads, List.map_map]
  exact List.map_congr_left fun f hf => Frame.keptFrame?_kept (hlong f hf)

/-! ### Streams -/

variable {σ : Type} [Collector σ] {stream tail : List UInt8} {payloads : List (List UInt8)}

/-- Without decoders, no reference is reported and only frames that are too short for a leaf kind
    fail; if there are none, the frames of the records, in order of index, are the stream.  With
    any decoders, the record at the index of a frame whose leaf kind has none is written again as
    that frame. -/
theorem readStream_undecoded (hsplits : Frame.Splits stream payloads tail)
    (hbound : o.firstIndex.toNat + payloads.length ≤ UInt32.size) (collector : σ) :
    let frames := Frame.place o.firstIndex 0 payloads
    let undecoded := empty.readStream o stream collector
    undecoded.2 = collector ∧
      (∀ d, undecoded.1 = .ok d → d.report.failures =
        (frames.filter fun f => f.payload.length < 2).map Frame.Placed.tooShort) ∧
      (∀ e, undecoded.1 = .error e → o.validate = .error e ∨
        Frame.tailError? (payloads.flatMap Frame.encode).length tail = some e ∨
        o.strict = true ∧ ∃ f ∈ frames, f.payload.length < 2 ∧ e = f.tooShort.error) ∧
      (∀ d, undecoded.1 = .ok d → d.report.failures = [] → ∃ written : List (List UInt8),
        d.catalog.entries.map (fun entry => entry.2.keptFrame?) = written.map some ∧
        written.flatten = stream) ∧
      ∀ (t : DecoderTable) d, (t.readStream o stream collector).1 = .ok d →
        ∀ before payload after, payloads = before ++ payload :: after → 2 ≤ payload.length →
          t.supports (Frame.kindOf payload) = false →
          ∃ record, d.catalog.find? (o.firstIndex.nth before.length) = some record ∧
            record.keptFrame? = some (Frame.encode payload) := by
  intro frames undecoded
  refine ⟨?_, ?_, ?_, ?_, ?_⟩
  -- references and failures; options that do not hold are refused before anything is read
  · cases hvalid : o.validate with
    | error e => simp only [undecoded, readStream, hvalid]
    | ok u =>
      simp only [undecoded, readStream_eq collector hvalid hsplits, references_empty]
      rfl
  · intro d hd
    rw [(gather_of_readStream_ok collector hsplits hd).2]
    exact failures_empty o frames
  · intro e he
    cases hvalid : o.validate with
    | error e' =>
      simp only [undecoded, readStream, hvalid, Except.error.injEq] at he
      exact .inl (congrArg Except.error he)
    | ok u =>
      refine .inr ?_
      simp only [undecoded, readStream_eq collector hvalid hsplits,
        Decoded.unless_eq_error_iff] at he
      obtain hrefusal | ⟨_, htail⟩ := Option.or_eq_some_iff.1 he
      · exact .inr (exists_tooShort_of_refusal? hrefusal)
      · exact .inl htail
  -- the frames that are written again
  · intro d hd hnil
    obtain ⟨rfl, rfl⟩ := gather_of_readStream_ok collector hsplits hd
    refine ⟨payloads.map Frame.encode, keptFrame?_gather_empty 0 hbound hnil, ?_⟩
    rw [hsplits.bytes_eq, List.append_nil, List.flatMap_def]
  · intro t d hd before payload after hpayloads hlength hunsupported
    obtain ⟨rfl, rfl⟩ := gather_of_readStream_ok collector hsplits hd
    subst hpayloads
    exact exists_kept_of_unsupported 0 hbound hlength hunsupported

/-- A leaf with three bytes behind it and one with none, at the end of the index space.  Neither
    has a decoder, be there any decoders or not. -/
theorem readStream_undecoded_last_two :
    let o : Options := { firstIndex := ⟨0xfffffffe⟩ }
    let stream : List UInt8 := [5, 0, 0x34, 0x12, 1, 2, 3, 2, 0, 0xff, 0xff]
    (∃ d, (empty.readStream o stream ()).1 = .ok d ∧ d.report.failures = [] ∧
      ∃ written : List (List UInt8),
        d.catalog.entries.map (fun entry => entry.2.keptFrame?) = written.map some ∧
        written.flatten = stream) ∧
      ∃ d record, (standard.readStream o stream ()).1 = .ok d ∧
        d.catalog.find? ⟨0xffffffff⟩ = some record ∧
        record.keptFrame? = some [2, 0, 0xff, 0xff] := by
  intro o stream
  have hvalid : o.validate = .ok () := Options.validate_eq_ok_iff.2 (by decide)
  have hsplits : Frame.Splits stream ([[0x34, 0x12, 1, 2, 3]] ++ [0xff, 0xff] :: []) [] :=
    ⟨by decide, by decide, trivial⟩
  obtain ⟨_, hfailures, _, hwritten, hkept⟩ := readStream_undecoded (o := o) hsplits (by decide) ()
  have hread := congrArg Prod.fst (readStream_eq (t := empty) () hvalid hsplits)
  have hread' := congrArg Prod.fst (readStream_eq (t := standard) () hvalid hsplits)
  have hnil := hfailures _ hread
  obtain ⟨record, hrecord, hframe⟩ :=
    hkept standard _ hread' _ [0xff, 0xff] [] rfl (by decide) (by decide)
  exact ⟨⟨_, hread, hnil, hwritten _ hread hnil⟩, _, record, hread', hrecord, hframe⟩

end DecoderTable

end TypeStream
