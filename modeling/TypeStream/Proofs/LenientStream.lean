import TypeStream.Proofs.Runs

/-!
# Lenient decoding, frame by frame

A lenient run keeps four things in step: the position in the stream, the index, the catalog, and
the report.  Seen from outside there is none of that.  The stream is cut into frames and a tail,
every frame is decoded for itself, and the results are put together; only the tail decides whether
the call succeeds.

## Key results

- `DecoderTable.readStream_lenient`: a lenient run is a cut and a map over the frames
-/

namespace TypeStream

/-- The decoded stream holds what the frames given decode to, and nothing else. -/
structure DecoderTable.Assembles (t : DecoderTable) (o : Options) (frames : List Frame.Placed)
    (d : Decoded) : Prop where
  /-- Under an index stands the last of the records decoded for it. -/
  find?_eq : ∀ i, d.catalog.find? i = (t.records o frames).reverse.lookup i
  placeholders_eq : d.catalog.placeholders = o.placeholders
  decoded_eq : d.report.decoded = (t.records o frames).countP fun e => !e.2.isUnknown
  unknown_eq : d.report.unknown = (t.records o frames).countP fun e => e.2.isUnknown
  /-- Every frame that does not decode to a record is listed, in stream order. -/
  failures_eq : d.report.failures = t.failures o frames

namespace DecoderTable

variable {σ : Type} [Collector σ]

/-- A run that starts without records ends with what its frames decode to. -/
theorem assembles_addAll (t : DecoderTable) (o : Options) (payloads : List (List UInt8)) :
    t.Assembles o (Frame.place o.firstIndex 0 payloads)
      ((Progress.start o).addAll t o (Frame.place o.firstIndex 0 payloads)).decoded := by
  have hcatalog := Progress.catalog_addAll_start t o payloads
  have hreport := Progress.report_addAll_start t o payloads
  constructor
  · intro i
    rw [hcatalog, Catalog.find?_insertAll]
    exact Option.or_none
  · rw [hcatalog, Catalog.placeholders_insertAll]
    rfl
  · rw [hreport]
  · rw [hreport]
  · rw [hreport]

/-- Options that are refused are refused with the reason. -/
theorem exists_reason_of_validate {o : Options} {e : Error} (h : o.validate = .error e) :
    ∃ reason, e = .invalidArgument reason := by
  simp only [Options.validate] at h
  split at h
  · exact ⟨_, (Except.error.inj h).symm⟩
  · split at h
    · exact ⟨_, (Except.error.inj h).symm⟩
    · cases h

/-- Lenient decoding is a cut into frames and a map over them.  Options that do not hold are
    refused before anything is read.  Otherwise the stream is cut in the one way that there is, and
    the frame at place `k` is decoded under the index `k` behind the first one, on its own bytes, at
    the offset where they stand.  The references are those of all frames, whatever the tail is; the
    tail alone decides whether the call succeeds. -/
theorem readStream_lenient (t : DecoderTable) {o : Options} (hstrict : o.strict = false)
    (stream : List UInt8) (collector : σ) :
    (∀ e, o.validate = .error e → (∃ reason, e = .invalidArgument reason) ∧
      t.readStream o stream collector = (.error e, collector)) ∧
    (o.validate = .ok () → ∃ payloads tail,
      (∀ ps tl, Frame.Splits stream ps tl ↔ ps = payloads ∧ tl = tail) ∧
      (∀ k, (Frame.place o.firstIndex 0 payloads)[k]? = payloads[k]?.map fun payload =>
        Frame.Placed.mk (o.firstIndex.nth k) ((payloads.take k).flatMap Frame.encode).length
          payload) ∧
      (t.readStream o stream collector).2 =
        Collector.noteAll collector (t.references o (Frame.place o.firstIndex 0 payloads)) ∧
      ((∃ d, (t.readStream o stream collector).1 = .ok d) ↔ tail = []) ∧
      (∀ d, (t.readStream o stream collector).1 = .ok d →
        t.Assembles o (Frame.place o.firstIndex 0 payloads) d) ∧
      (∀ b, tail = [b] → (t.readStream o stream collector).1 =
        .error (.truncated "u16" (stream.length - 1) 2 1)) ∧
      (∀ low high rest, tail = low :: high :: rest → (t.readStream o stream collector).1 =
        .error (.blockOverrun (LittleEndian.decode [low, high]) (tail.length - 2)))) := by
  constructor
  · intro e he
    refine ⟨exists_reason_of_validate he, ?_⟩
    simp only [readStream, he]
  · intro hvalid
    have hsplits := Frame.splits_split stream
    generalize (Frame.split stream).1 = payloads, (Frame.split stream).2 = tail at hsplits
    have hread := readStream_of_splits t collector hvalid hsplits fun hs => by simp [hstrict] at hs
    have hlength : stream.length = (payloads.flatMap Frame.encode).length + tail.length := by
      rw [hsplits.bytes_eq, List.length_append]
    refine ⟨payloads, tail, ?_, ?_, ?_, ?_, ?_, ?_, ?_⟩
    -- the cut, and where it puts the frames
    · intro ps tl
      constructor
      · intro h
        have heq := h.eq_split.symm.trans hsplits.eq_split
        exact Prod.mk.inj heq
      · rintro ⟨rfl, rfl⟩
        exact hsplits
    · intro k
      simpa using Frame.getElem?_place o.firstIndex 0 payloads k
    -- what is reported, whether the call succeeds, and with what
    · rw [hread]
    · rw [hread, ← Frame.tailError?_eq_none_iff]
      cases Frame.tailError? (payloads.flatMap Frame.encode).length tail <;> simp
    · intro d hd
      rw [hread] at hd
      cases htail : Frame.tailError? (payloads.flatMap Frame.encode).length tail with
      | none =>
        simp only [htail] at hd
        rw [← Except.ok.inj hd]
        exact assembles_addAll t o payloads
      | some e =>
        simp only [htail] at hd
        cases hd
    -- the two ways to fail
    · rintro b rfl
      rw [hread, hlength]
      simp [Frame.tailError?]
    · rintro low high rest rfl
      rw [hread]
      simp [Frame.tailError?]

/-- The first record of this stream is cut short, and the second one, a table, reports two
    references; behind them stands a single byte or nothing. -/
theorem readStream_lenient_failure_and_table :
    let records : List UInt8 := [2, 0, 0x0a, 0, 18, 0, 0x1d, 0x15, 0x74, 0, 0, 0, 0, 0, 0, 0, 0, 0,
      0, 0, 0, 0, 0, 0]
    let start : Array Reference := #[]
    let reported : Array Reference := #[⟨⟨0x1001⟩, ⟨0x74⟩⟩, ⟨⟨0x1001⟩, .none⟩]
    ({} : Options).strict = false ∧
    standard.readStream {} (records ++ [7]) start =
      (.error (.truncated "u16" 24 2 1), reported) ∧
    ∃ d, standard.readStream {} records start = (.ok d, reported) ∧
      d.catalog.find? ⟨0x1001⟩ = some (.virtualTable ⟨⟨0x74⟩, .none, 0, ⟨none, []⟩⟩) ∧
      d.report.failures = [⟨⟨0x1000⟩, some 0x0a, 0, .truncated "u16" 4 2 0⟩] := by
  intro records start reported
  have hvalid : ({} : Options).validate = .ok () := Options.validate_eq_ok_iff.2 (by decide)
  -- The tail is arbitrary in the cut, so both runs use the same two frames.
  have hpayloads : ∀ tail, Frame.Incomplete tail →
      Frame.Splits (records ++ tail) [records.take 4 |>.drop 2, records.drop 6] tail :=
    fun tail htail => ⟨congrArg (· ++ tail) (by decide), by decide, htail⟩
  have hreported : Collector.noteAll start (standard.references {}
      (Frame.place .firstRecord 0 [records.take 4 |>.drop 2, records.drop 6])) = reported := by
    decide +kernel
  refine ⟨rfl, ?_, ?_⟩
  -- A lone byte behind the frames ends the run.
  · obtain ⟨_, hread⟩ := readStream_lenient standard (o := {}) rfl (records ++ [7]) start
    obtain ⟨payloads, tail, hcut, _, hedges, _, _, hbyte, _⟩ := hread hvalid
    obtain ⟨rfl, rfl⟩ := (hcut _ _).1 (hpayloads [7] trivial)
    exact Prod.ext (hbyte 7 rfl) (hedges.trans hreported)
  -- Without it the run returns what it has gathered.
  · obtain ⟨_, hread⟩ := readStream_lenient standard (o := {}) rfl (records ++ []) start
    obtain ⟨payloads, tail, hcut, _, hedges, hok, hall, _, _⟩ := hread hvalid
    obtain ⟨rfl, rfl⟩ := (hcut _ _).1 (hpayloads [] trivial)
    obtain ⟨d, hd⟩ := hok.2 rfl
    have hd' := hall d hd
    refine ⟨d, Prod.ext hd (hedges.trans hreported), ?_, ?_⟩
    · rw [hd'.find?_eq]
      decide +kernel
    · rw [hd'.failures_eq]
      decide +kernel

end DecoderTable

end TypeStream
