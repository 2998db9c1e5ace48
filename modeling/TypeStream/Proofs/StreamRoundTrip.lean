import TypeStream.Proofs.RecordRoundTrip

/-!
# Reading back a stream

Records are written one behind the other, each with padding up to a boundary.  Every frame then
starts at a boundary, so each is decoded to the record that it was written for, under the index of
its place.

## Key results

- `DecoderTable.readStream_encode`: a stream is decoded to the records that it was written for
-/

namespace TypeStream

namespace DecoderTable

variable {σ : Type} [Collector σ] {o : Options} {items : List (Record × List UInt8)}

/-- Numbering records changes nothing about how many there are of a sort. -/
theorem countP_numbered (first : TypeIndex) (p : Record → Bool)
    (items : List (Record × List UInt8)) :
    (items.mapIdx fun k item => (first.nth k, item.1)).countP (fun e => p e.2) =
      items.countP fun item => p item.1 := by
  -- The indices that the records are numbered with do not matter for counting.
  have hitems : items.zipIdx.map Prod.fst = items := List.zipIdx_map_fst 0 items
  calc (items.mapIdx fun k item => (first.nth k, item.1)).countP (fun e => p e.2)
      = items.zipIdx.countP (fun e => p e.1.1) := by
        rw [List.mapIdx_eq_zipIdx_map, List.countP_map]
        rfl
    _ = (items.zipIdx.map Prod.fst).countP fun item => p item.1 := by
        rw [List.countP_map]
        rfl
    _ = items.countP fun item => p item.1 := by rw [hitems]

/-- From a boundary on, the frames of records are decoded to these records, and nothing else is
    reported. -/
theorem place_of_fits (hfits : ∀ item ∈ items, Frame.Fits o item.1 item.2) (first : TypeIndex)
    {offset : Nat} (hoffset : o.alignment ∣ offset) :
    let frames := Frame.place first offset
      (items.map fun item => Frame.payload o.charset item.1 item.2)
    standard.records o frames = (items.mapIdx fun k item => (first.nth k, item.1)) ∧
    standard.references o frames =
      (items.mapIdx fun k item => item.1.reported (first.nth k)).flatten ∧
    standard.failures o frames = [] := by
  induction items generalizing first offset with
  | nil => exact ⟨rfl, rfl, rfl⟩
  | cons item items ih =>
    have hitem := hfits item List.mem_cons_self
    have houtcome := outcome_of_fits hitem first hoffset
    -- The frame ends at a boundary, so the next one starts at one.
    have hnext : o.alignment ∣
        offset + (Frame.encode (Frame.payload o.charset item.1 item.2)).length := by
      have hsize : (Frame.encode (Frame.payload o.charset item.1 item.2)).length =
          4 + (item.1.encode o.charset).length + item.2.length := by
        simp only [Frame.length_encode, Frame.payload, List.length_append,
          LittleEndian.length_encode]
        omega
      rw [hsize]
      exact Nat.dvd_add hoffset hitem.boundary
    obtain ⟨hrecords, hreferences, hfailures⟩ :=
      ih (fun other hother => hfits other (List.mem_cons_of_mem _ hother)) first.next hnext
    simp only [TypeIndex.nth_next] at hrecords hreferences
    refine ⟨?_, ?_, ?_⟩
    · rw [List.mapIdx_cons, TypeIndex.nth_zero, ← hrecords]
      simp [Frame.place, records, record?, houtcome]
    · rw [List.mapIdx_cons, TypeIndex.nth_zero, List.flatten_cons, ← hreferences]
      simp [Frame.place, references, houtcome]
    · rw [← hfailures]
      simp [Frame.place, failures, failure?, houtcome]

/-- The frames of records, one behind the other, make up a stream without a tail. -/
theorem splits_of_fits (hfits : ∀ item ∈ items, Frame.Fits o item.1 item.2) :
    let payloads := items.map fun item => Frame.payload o.charset item.1 item.2
    Frame.Splits (payloads.map Frame.encode).flatten payloads [] := by
  refine ⟨by rw [List.flatMap_def, List.append_nil], ?_, trivial⟩
  intro payload hpayload
  obtain ⟨item, hitem, rfl⟩ := List.mem_map.1 hpayload
  have hle := (hfits item hitem).length_le
  simp only [Frame.payload, List.length_append, LittleEndian.length_encode]
  omega

/-- A stream is decoded to the records that it was written for.  The records can be written, and
    the frames one behind the other are decoded without a failure, strict or not: record `k` stands
    under the index `k` behind the first one, and the tables' references are reported in order. -/
theorem readStream_encode (hvalid : o.validate = .ok ())
    (hfits : ∀ item ∈ items, Frame.Fits o item.1 item.2)
    (hcount : o.firstIndex.toNat + items.length ≤ UInt32.size) (collector : σ) :
    ∃ frames d,
      items.mapM (fun item => Frame.ofRecord? o.charset item.1 item.2) = some frames ∧
      standard.readStream o frames.flatten collector = (.ok d, Collector.noteAll collector
        (items.mapIdx fun k item => item.1.reported (o.firstIndex.nth k)).flatten) ∧
      d.catalog.entries = (items.mapIdx fun k item => (o.firstIndex.nth k, item.1)) ∧
      d.catalog.placeholders = o.placeholders ∧
      d.report = { decoded := items.countP fun item => !item.1.isUnknown
                   unknown := items.countP fun item => item.1.isUnknown
                   failures := [] } := by
  -- From here on the stream is only known by its payloads.
  generalize hpayloads : (items.map fun item => Frame.payload o.charset item.1 item.2) = payloads
  have hlength : payloads.length = items.length := by
    rw [← hpayloads, List.length_map]
  have hframes : items.mapM (fun item => Frame.ofRecord? o.charset item.1 item.2) =
      some (payloads.map Frame.encode) := by
    rw [← hpayloads, List.map_map]
    exact mapM_eq_some_map fun item hitem => Frame.ofRecord?_of_fits (hfits item hitem)
  have hsplits := splits_of_fits hfits
  rw [hpayloads] at hsplits
  -- No frame fails, so it makes no difference whether the options are strict.
  obtain ⟨hrecords, hreferences, hfailures⟩ :=
    place_of_fits hfits o.firstIndex (Nat.dvd_zero o.alignment)
  simp only [hpayloads] at hrecords hreferences hfailures
  have hread := readStream_of_splits standard collector hvalid hsplits fun _ =>
    forall_ok_of_failures_eq_nil standard o hfailures
  rw [hreferences] at hread
  have hcatalog := Progress.catalog_addAll_start standard o payloads
  have hreport := Progress.report_addAll_start standard o payloads
  -- No two records share an index, so the catalog holds them in the order of the stream.
  have hascending := pairwise_records standard o
    (Frame.pairwise_place (by rw [hlength]; exact hcount) 0)
  have hdecoded := countP_numbered o.firstIndex (fun r => !r.isUnknown) items
  have hunknown := countP_numbered o.firstIndex Record.isUnknown items
  refine ⟨_, _, hframes, hread, ?_, ?_, ?_⟩
  · rw [hcatalog, Catalog.entries_insertAll (.empty o.placeholders) hascending
      (fun a ha => nomatch ha), hrecords]
    rfl
  · rw [hcatalog, Catalog.placeholders_insertAll]
    rfl
  · rw [hreport, hrecords, hfailures, hdecoded, hunknown]

/-- A table with names beyond ASCII, a shape with an odd number of slots, and an unknown record,
    decoded strictly. -/
theorem readStream_encode_three_records :
    let o : Options := { charset := .utf8, strict := true }
    let table : VirtualTable := ⟨⟨0x1001⟩, .none, -4, ⟨some "Γ", ["f"]⟩⟩
    let items : List (Record × List UInt8) :=
      [(.virtualTable table, [0xf3, 0xf2, 0xf1]), (.tableShape ⟨[.near32]⟩, [0]),
        (.unknown 0x1203 [1, 2, 3, 4], [])]
    o.validate = .ok () ∧ (∀ item ∈ items, Frame.Fits o item.1 item.2) ∧
      o.firstIndex.toNat + items.length ≤ UInt32.size ∧
      ∃ frames d, items.mapM (fun item => Frame.ofRecord? .utf8 item.1 item.2) = some frames ∧
        standard.readStream o frames.flatten Trail.empty =
          (.ok d, ⟨[], #[⟨⟨0x1000⟩, ⟨0x1001⟩⟩, ⟨⟨0x1000⟩, .none⟩]⟩) ∧
        d.catalog.find? ⟨0x1000⟩ = some (.virtualTable table) ∧
        d.report = { decoded := 2, unknown := 1, failures := [] } := by
  intro o table items
  have hvalid : o.validate = .ok () := Options.validate_eq_ok_iff.2 (by decide)
  have hfits : ∀ item ∈ items, Frame.Fits o item.1 item.2 := by
    simp only [items, List.forall_mem_cons, List.not_mem_nil, false_imp_iff, implies_true, and_true]
    refine ⟨?_, ?_, ?_⟩
    · refine ⟨⟨nofun, by decide⟩, by decide, nofun, by decide, by decide⟩
    · refine ⟨⟨by decide, ?_⟩, by decide, nofun, by decide, by decide⟩
      exact fun slot hslot => ⟨5, by decide, List.mem_singleton.1 hslot⟩
    · refine ⟨⟨by decide, by decide⟩, by decide, fun _ => rfl, by decide, by decide⟩
  have hcount : o.firstIndex.toNat + items.length ≤ UInt32.size := by decide
  obtain ⟨frames, d, hframes, hread, hentries, _, hreport⟩ :=
    readStream_encode hvalid hfits hcount Trail.empty
  refine ⟨hvalid, hfits, hcount, frames, d, hframes, hread, ?_, hreport⟩
  show OrderedMap.findEntry _ d.catalog.entries = _
  rw [hentries]
  rfl

end DecoderTable

end TypeStream
