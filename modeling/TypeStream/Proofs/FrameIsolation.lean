import TypeStream.Proofs.ComparedRuns
import TypeStream.Proofs.TableFrames

/-!
# Damage stays in its frame

Where a frame stands, how it is numbered and how long it is does not depend on what the frames in
front of it hold.  So if one frame of a stream is replaced by another one of the same length, a
lenient run decodes every other frame as before.  If the two frames only differ in padding, not
even the frame itself is decoded to anything else.

## Key results

- `DecoderTable.outcome_of_samePlace`: padding is told apart by its length only
- `DecoderTable.gather_agreeOutside`: a frame leaves nothing under the index of another one
- `DecoderTable.readStream_isolated`: a stream in which one frame was replaced
-/

namespace TypeStream

open Cursor.Coupling (finish)

/-- Whether bytes are left over depends on the number of those left alone. -/
theorem Cursor.SamePlace.finish_eq {c c' : Cursor} (h : SamePlace c c') (index : TypeIndex)
    (record : Record) : finish index record c = finish index record c' := by
  unfold finish
  rw [h.atEnd_eq, h.remaining_eq]

/-! ### A frame in place of another -/

namespace Frame

/-- The frames stand in the same place of a stream, whatever they hold. -/
structure Placed.SamePlace (f f' : Placed) : Prop where
  index_eq : f.index = f'.index
  offset_eq : f.offset = f'.offset
  length_eq : f.payload.length = f'.payload.length

/-- Frames in the same place have bodies in the same place. -/
theorem Placed.SamePlace.body {f f' : Placed} (h : f.SamePlace f') (o : Options) :
    (f.body o).SamePlace (f'.body o) := by
  have hframe : (Cursor.ofBytes f.payload (f.offset + 2) o.alignment).SamePlace
      (.ofBytes f'.payload (f'.offset + 2) o.alignment) :=
    ⟨congrArg (· + 2) h.offset_eq, h.length_eq, rfl⟩
  exact hframe.advance 2

/-- With another payload of the same length in a stream, one frame is another and the others are
    the same. -/
theorem exists_place_around (index : TypeIndex) (offset : Nat) (before after : List (List UInt8))
    {payload payload' : List UInt8} (h : payload.length = payload'.length) :
    ∃ fs f f' gs, place index offset (before ++ payload :: after) = fs ++ f :: gs ∧
      place index offset (before ++ payload' :: after) = fs ++ f' :: gs ∧
      f.SamePlace f' ∧ f.index = index.nth before.length ∧
      f.payload = payload ∧ f'.payload = payload' := by
  refine ⟨place index offset before, ⟨_, _, payload⟩, ⟨_, _, payload'⟩, _,
    place_append _ _ _ _, ?_, ⟨rfl, rfl, h⟩, rfl, rfl, rfl⟩
  rw [place_append, place, length_encode, length_encode, h]

end Frame

/-- The two have the same records and failures at all indices but the one given. -/
structure Decoded.AgreeOutside (index : TypeIndex) (d d' : Decoded) : Prop where
  find?_eq : ∀ i, i ≠ index → d.catalog.find? i = d'.catalog.find? i
  failures_eq : d.report.failures.filter (·.index ≠ index) =
    d'.report.failures.filter (·.index ≠ index)

namespace DecoderTable

variable {t : DecoderTable} {o : Options} {f f' : Frame.Placed} {fs gs : List Frame.Placed}

/-- Padding of tables and shapes is told apart by its length only. -/
theorem outcome_of_samePlace (h : f.SamePlace f') {kind : UInt16}
    {front padding padding' : List UInt8}
    (hfront : t.decoder kind = .virtualTable ∧ VirtualTable.IsFront front ∨
      t.decoder kind = .tableShape ∧ TableShape.IsFront front)
    (hf : f.payload = LittleEndian.encode 2 kind.toNat ++ (front ++ padding))
    (hf' : f'.payload = LittleEndian.encode 2 kind.toNat ++ (front ++ padding')) :
    t.outcome o f = t.outcome o f' := by
  have hbody := h.body o
  have hend := (hbody.advance front.length).padded
  -- Behind the front, both frames are the same for the decoder.
  obtain ⟨hkind, hfront⟩ | ⟨hkind, hfront⟩ := hfront
  · obtain ⟨owner, base, pointerOffset, houtcome⟩ := outcome_of_table hkind hfront
    rw [houtcome o f padding hf, houtcome o f' padding' hf', h.index_eq, hbody.offset_eq,
      hbody.alignment_eq]
    simp only [hend.finish_eq]
  · obtain ⟨shape, houtcome⟩ := outcome_of_shape hkind hfront
    rw [houtcome o f padding hf, houtcome o f' padding' hf', h.index_eq, hend.finish_eq]

/-- Frames with the same outcome can be put in each other's place. -/
theorem gather_of_outcome_eq (h : f.SamePlace f') (houtcome : t.outcome o f = t.outcome o f') :
    t.gather o (fs ++ f :: gs) = t.gather o (fs ++ f' :: gs) := by
  have hrecord : t.record? o f = t.record? o f' := by
    unfold record?
    rw [houtcome, h.index_eq]
  have hfailure : t.failure? o f = t.failure? o f' := by
    unfold failure?
    rw [houtcome, h.index_eq, h.offset_eq]
  simp only [gather, records, failures, List.filterMap_append, List.filterMap_cons, hrecord,
    hfailure]

/-! ### What a frame leaves under other indices -/

/-- Under any other index there stands what stands there without the frame. -/
theorem find?_gather_of_ne {i : TypeIndex} (h : i ≠ f.index) :
    (t.gather o (fs ++ f :: gs)).catalog.find? i = (t.gather o (fs ++ gs)).catalog.find? i := by
  -- The frame stores at its own index only.
  have hnone : (t.records o [f]).reverse.lookup i = none := by
    rw [List.lookup_eq_none_iff]
    rintro ⟨j, record⟩ hrecord
    obtain ⟨g, hg, rfl, _⟩ := mem_records_iff.1 (List.mem_reverse.1 hrecord)
    rw [List.mem_singleton.1 hg]
    exact bne_iff_ne.2 h
  rw [List.append_cons]
  simp only [gather, Catalog.find?_insertAll, records_append, List.reverse_append,
    List.lookup_append, hnone, Option.none_or]

/-- The failures of all other indices are those without the frame. -/
theorem filter_failures_of_eq {index : TypeIndex} (h : f.index = index) :
    (t.failures o (fs ++ f :: gs)).filter (·.index ≠ index) =
      (t.failures o (fs ++ gs)).filter (·.index ≠ index) := by
  have hnil : (t.failures o [f]).filter (·.index ≠ index) = [] := by
    rw [List.filter_eq_nil_iff]
    intro g hg
    obtain ⟨f', hf', e, _, rfl⟩ := mem_failures_iff.1 hg
    simp [List.mem_singleton.1 hf', h]
  rw [List.append_cons]
  simp only [failures_append, List.filter_append, hnil, List.append_nil]

/-- The references from all other indices are those without the frame. -/
theorem Registered.filter_references_of_eq (ht : t.Registered) {index : TypeIndex}
    (h : f.index = index) :
    (t.references o (fs ++ f :: gs)).filter (·.source ≠ index) =
      (t.references o (fs ++ gs)).filter (·.source ≠ index) := by
  have hnil : (t.references o [f]).filter (·.source ≠ index) = [] := by
    rw [List.filter_eq_nil_iff]
    intro r hr
    obtain ⟨f', hf', hr⟩ := List.mem_flatMap.1 hr
    rw [List.mem_singleton.1 hf'] at hr
    simp [ht.source_eq hr, h]
  rw [List.append_cons]
  simp only [references_append, List.filter_append, hnil, List.append_nil]

/-- Two frames in the same place only make a difference under their index. -/
theorem gather_agreeOutside {index : TypeIndex} (h : f.index = index) (h' : f'.index = index) :
    (t.gather o (fs ++ f :: gs)).AgreeOutside index (t.gather o (fs ++ f' :: gs)) := by
  constructor
  · intro i hi
    rw [find?_gather_of_ne (h.symm ▸ hi), find?_gather_of_ne (h'.symm ▸ hi)]
  · show (t.failures o _).filter _ = (t.failures o _).filter _
    rw [filter_failures_of_eq h, filter_failures_of_eq h']

/-! ### A stream with one frame replaced -/

/-- A lenient run over two streams that differ in the payload of one frame, of the same length in
    both.  Either both fail with the same error or none does, and but for the index of the frame
    they come to the same records, failures and references.  If the payloads only differ in the
    padding of a table or a shape, they come to the same altogether. -/
theorem readStream_isolated (ht : t.Registered) (hvalid : o.validate = .ok ())
    (hstrict : o.strict = false) {stream stream' payload payload' tail : List UInt8}
    {before after : List (List UInt8)}
    (hsplits : Frame.Splits stream (before ++ payload :: after) tail)
    (hsplits' : Frame.Splits stream' (before ++ payload' :: after) tail)
    (hlength : payload.length = payload'.length) :
    ∃ edges edges' result result',
      (∀ (σ : Type) [Collector σ] (collector : σ),
        t.readStream o stream collector = (result, Collector.noteAll collector edges) ∧
        t.readStream o stream' collector = (result', Collector.noteAll collector edges')) ∧
      SameFate (Decoded.AgreeOutside (o.firstIndex.nth before.length)) result result' ∧
      edges.filter (·.source ≠ o.firstIndex.nth before.length) =
        edges'.filter (·.source ≠ o.firstIndex.nth before.length) ∧
      ∀ kind front padding padding',
        (t.decoder kind = .virtualTable ∧ VirtualTable.IsFront front ∨
          t.decoder kind = .tableShape ∧ TableShape.IsFront front) →
        payload = LittleEndian.encode 2 kind.toNat ++ (front ++ padding) →
        payload' = LittleEndian.encode 2 kind.toNat ++ (front ++ padding') →
          result = result' ∧ edges = edges' := by
  obtain ⟨fs, f, f', gs, hframes, hframes', hplace, hindex, hf, hf'⟩ :=
    Frame.exists_place_around o.firstIndex 0 before after hlength
  have hindex' : f'.index = o.firstIndex.nth before.length := by rw [← hplace.index_eq, hindex]
  -- The tail begins at the same offset of both streams.
  have hend : ((before ++ payload :: after).flatMap Frame.encode).length =
      ((before ++ payload' :: after).flatMap Frame.encode).length := by
    simp only [List.flatMap_append, List.flatMap_cons, List.length_append, Frame.length_encode,
      hlength]
  -- No frame ends a lenient run, whatever it decodes to.
  have hlenient : o.strict = true → False := by simp [hstrict]
  refine ⟨_, _, _, _, fun σ _ collector =>
    ⟨readStream_of_go collector hvalid hsplits fun hs => (hlenient hs).elim,
      readStream_of_go collector hvalid hsplits' fun hs => (hlenient hs).elim⟩, ?_, ?_, ?_⟩
  · rw [hframes, hframes', hend]
    exact Decoded.sameFate_unless (gather_agreeOutside hindex hindex') _
  · rw [hframes, hframes', ht.filter_references_of_eq hindex, ht.filter_references_of_eq hindex']
  · intro kind front padding padding' hfront hpayload hpayload'
    -- Up to their padding the two frames are the same, so they decode to the same.
    have houtcome : t.outcome o f = t.outcome o f' :=
      outcome_of_samePlace hplace hfront (hf.trans hpayload) (hf'.trans hpayload')
    rw [hframes, hframes', hend, gather_of_outcome_eq hplace houtcome]
    simp only [references, List.flatMap_append, List.flatMap_cons, houtcome, and_self]

/-- The names of the first table do not fit into its frame in the damaged stream, and its owner is
    another one; in the padded stream only its padding is.  The table behind it is not affected, and
    neither are its references. -/
theorem readStream_isolated_two_tables :
    let o : Options := {}
    let table : List UInt8 := [0x74, 0, 0, 0, 0, 0, 0, 0, 0, 0, 0, 0, 2, 0, 0, 0, 0x41, 0]
    let wrong : List UInt8 := [0, 0x20, 0, 0, 0, 0, 0, 0, 0, 0, 0, 0, 9, 0, 0, 0, 0x41, 0]
    let behind : List UInt8 :=
      [18, 0, 0x1d, 0x15, 0, 0x10, 0, 0, 0, 0, 0, 0, 0, 0, 0, 0, 0, 0, 0, 0]
    let damaged := [22, 0, 0x1d, 0x15] ++ wrong ++ [0, 0] ++ behind
    let padded := [22, 0, 0x1d, 0x15] ++ table ++ [0xf2, 0xf1] ++ behind
    let sound := [22, 0, 0x1d, 0x15] ++ table ++ [0, 0] ++ behind
    let start : Array Reference := #[]
    standard.Registered ∧ o.validate = .ok () ∧ o.strict = false ∧
      (∃ d d', standard.readStream o damaged start = (.ok d, #[⟨⟨0x1000⟩, ⟨0x2000⟩⟩,
          ⟨⟨0x1000⟩, .none⟩, ⟨⟨0x1001⟩, ⟨0x1000⟩⟩, ⟨⟨0x1001⟩, .none⟩]) ∧
        standard.readStream o sound start = (.ok d', #[⟨⟨0x1000⟩, ⟨0x74⟩⟩, ⟨⟨0x1000⟩, .none⟩,
          ⟨⟨0x1001⟩, ⟨0x1000⟩⟩, ⟨⟨0x1001⟩, .none⟩]) ∧
        d.AgreeOutside ⟨0x1000⟩ d' ∧
        d.report.failures = [⟨⟨0x1000⟩, some 0x151d, 0, .blockOverrun 9 4⟩] ∧
        d'.report.failures = [] ∧
        d.catalog.find? ⟨0x1001⟩ = some (.virtualTable ⟨⟨0x1000⟩, .none, 0, ⟨none, []⟩⟩)) ∧
      standard.readStream o padded start = standard.readStream o sound start := by
  intro o table wrong behind damaged padded sound start
  have hvalid : o.validate = .ok () := Options.validate_eq_ok_iff.2 (by decide)
  have hdamaged : Frame.Splits damaged ([] ++ (damaged.take 24).drop 2 :: [behind.drop 2]) [] :=
    ⟨by decide, by decide, trivial⟩
  have hpadded : Frame.Splits padded ([] ++ (padded.take 24).drop 2 :: [behind.drop 2]) [] :=
    ⟨by decide, by decide, trivial⟩
  have hsound : Frame.Splits sound ([] ++ (sound.take 24).drop 2 :: [behind.drop 2]) [] :=
    ⟨by decide, by decide, trivial⟩
  have hdecoded : ∀ {stream payloads}, Frame.Splits stream payloads [] →
      standard.readStream o stream start =
        (.ok (standard.gather o (Frame.place o.firstIndex 0 payloads)), Collector.noteAll start
          (standard.references o (Frame.place o.firstIndex 0 payloads))) :=
    fun hsplits => readStream_of_go start hvalid hsplits nofun
  refine ⟨.standard, hvalid, rfl, ?_, ?_⟩
  · obtain ⟨edges, edges', result, result', hread, hfate, _⟩ :=
      readStream_isolated .standard hvalid rfl hdamaged hsound rfl
    obtain ⟨hresult, hresult'⟩ := hread (Array Reference) start
    obtain ⟨rfl, _⟩ := Prod.mk.inj (hresult.symm.trans (hdecoded hdamaged))
    obtain ⟨rfl, _⟩ := Prod.mk.inj (hresult'.symm.trans (hdecoded hsound))
    cases hfate with
    | ok hagree =>
      rw [hdecoded hdamaged, hdecoded hsound]
      exact ⟨_, _, congrArg (Prod.mk _) (by decide +kernel),
        congrArg (Prod.mk _) (by decide +kernel), hagree,
        by decide +kernel, by decide +kernel, by decide +kernel⟩
  · obtain ⟨edges, edges', result, result', hread, _, _, hpadding⟩ :=
      readStream_isolated .standard hvalid rfl hpadded hsound rfl
    obtain ⟨rfl, rfl⟩ := hpadding LeafKind.virtualTable table [0xf2, 0xf1] [0, 0]
      (.inl ⟨rfl, by decide⟩) rfl rfl
    obtain ⟨hresult, hresult'⟩ := hread (Array Reference) start
    exact hresult.trans hresult'.symm

end DecoderTable

end TypeStream
