import Mathlib.Data.List.Dedup
import Mathlib.Data.List.Nodup
import TypeStream.CommandLine.Output
import TypeStream.Proofs.StreamOutcome

/-!
# Records with an index of their own

The frames of a stream are numbered one after the other, and the last index follows itself.  As
long as the numbers do not get there twice, every frame has an index of its own, so the catalog
holds all records that were decoded and none under the index of a failure.  As soon as two frames
share the last index this is lost: records replace each other, failures share an index, or a record
stands under the index of a failure.

## Key results

- `Frame.nodup_index_place_iff`: when the indices of frames are distinct
- `Catalog.size_insertAll_iff`: a catalog counts what was stored exactly if it replaced nothing
- `DecoderTable.perm_index`: every index is one of a record or of a failure
- `DecoderTable.readStream_own_index`: when nothing that was decoded is lost
-/

namespace TypeStream

/-! ### The indices of frames -/

namespace Frame

variable (index : TypeIndex) (offset : Nat) (payloads : List (List UInt8))

@[simp] theorem length_place : (place index offset payloads).length = payloads.length := by
  induction payloads generalizing index offset with
  | nil => rfl
  | cons payload rest ih => simp [place, ih]

/-- The frames have the indices from the first one on. -/
theorem map_index_place : (place index offset payloads).map Placed.index =
    (List.range payloads.length).map index.nth := by
  apply List.ext_getElem?
  intro k
  rw [List.getElem?_map, List.getElem?_map, getElem?_place]
  by_cases hk : k < payloads.length
  · simp [hk]
  · simp [hk]

/-- Frames have distinct indices exactly if the last index is not reached twice. -/
theorem nodup_index_place_iff : ((place index offset payloads).map Placed.index).Nodup ↔
    index.toNat + payloads.length ≤ UInt32.size := by
  constructor
  · intro hnodup
    rw [map_index_place] at hnodup
    by_contra hbound
    -- Otherwise the last two frames have the last index.
    have hindex := index.toNat_lt
    have hlast : payloads.length - 1 ∈ List.range payloads.length := by
      rw [List.mem_range]
      omega
    have hbefore : payloads.length - 2 ∈ List.range payloads.length := by
      rw [List.mem_range]
      omega
    have hsame : index.nth (payloads.length - 1) = index.nth (payloads.length - 2) := by
      rw [← TypeIndex.toNat_inj, TypeIndex.toNat_nth, TypeIndex.toNat_nth]
      omega
    have := List.inj_on_of_nodup_map hnodup hlast hbefore hsame
    omega
  · intro hbound
    -- Within the numbers of an index, each frame has a greater one than those before it.
    apply List.pairwise_map.2
    refine (pairwise_place hbound offset).imp ?_
    intro f g hlt heq
    rw [TypeIndex.lt_def, heq] at hlt
    exact Nat.lt_irrefl _ hlt

end Frame

/-! ### The indices of a catalog -/

namespace Catalog

variable (placeholders : Bool) (stored : List (TypeIndex × Record))

/-- The indices with a record, in ascending order. -/
def indices (c : Catalog) : List TypeIndex := c.entries.map Prod.fst

/-- No index of a catalog comes twice. -/
theorem nodup_indices (c : Catalog) : c.indices.Nodup := by
  apply List.pairwise_map.2
  refine c.records.ascending.imp ?_
  intro a b hlt heq
  rw [heq] at hlt
  exact Nat.lt_irrefl _ hlt

/-- Nothing is found under an index exactly if it is none of the catalog. -/
theorem find?_eq_none_iff {c : Catalog} {i : TypeIndex} : c.find? i = none ↔ i ∉ c.indices := by
  unfold find? OrderedMap.find? indices entries
  induction c.records.entries with
  | nil => simp [OrderedMap.findEntry]
  | cons e rest ih =>
    obtain ⟨j, r⟩ := e
    by_cases h : i = j
    · simp [OrderedMap.findEntry, h]
    · have hrank : ¬ rank i = rank j := fun hr => h (Ranked.rank_injective hr)
      simpa [OrderedMap.findEntry, hrank, h] using ih

/-- The indices of a catalog are those that records were stored under. -/
theorem mem_indices_insertAll {i : TypeIndex} :
    i ∈ ((empty placeholders).insertAll stored).indices ↔ i ∈ stored.map Prod.fst := by
  rw [← not_iff_not, ← find?_eq_none_iff, find?_insertAll]
  have hnone : (empty placeholders).find? i = none := rfl
  rw [hnone, Option.or_none, List.lookup_eq_none_iff]
  simp only [List.mem_reverse, bne_iff_ne, List.mem_map, not_exists, not_and]
  exact forall₂_congr fun e _ => ne_comm

/-- A catalog holds as many records as were stored exactly if no two of them had the same index. -/
theorem size_insertAll_iff :
    ((empty placeholders).insertAll stored).size = stored.length ↔
      (stored.map Prod.fst).Nodup := by
  -- Inserting stores at each index once, so the size is the number of different indices.
  have hperm : ((empty placeholders).insertAll stored).indices.Perm
      (stored.map Prod.fst).dedup := by
    apply (List.perm_ext_iff_of_nodup (nodup_indices _) (List.nodup_dedup _)).2
    intro i
    rw [mem_indices_insertAll, List.mem_dedup]
  have hsize : ((empty placeholders).insertAll stored).size =
      (stored.map Prod.fst).dedup.length := by
    rw [← hperm.length_eq]
    exact (List.length_map _).symm
  rw [hsize]
  constructor
  · intro hlength
    rw [← List.length_map (f := Prod.fst)] at hlength
    rw [← List.dedup_eq_self]
    exact (List.dedup_sublist _).eq_of_length hlength
  · intro hnodup
    rw [List.dedup_eq_self.2 hnodup, List.length_map]

end Catalog

/-! ### The indices of a run -/

namespace DecoderTable

variable (t : DecoderTable) (o : Options) (frames : List Frame.Placed)

/-- Every frame leaves its index to a record or to a failure. -/
theorem perm_index : (frames.map Frame.Placed.index).Perm
    ((t.records o frames).map Prod.fst ++ (t.failures o frames).map Failure.index) := by
  induction frames with
  | nil => exact List.Perm.nil
  -- A frame adds its index to the stored records or to the failures.
  | cons f rest ih =>
    unfold records failures at ih ⊢
    cases hresult : (t.outcome o f).result with
    | ok record =>
      have hrecord : t.record? o f = some (f.index, record) := by simp only [record?, hresult]
      have hfailure : t.failure? o f = none := by simp only [failure?, hresult]
      rw [List.filterMap_cons_some hrecord, List.filterMap_cons_none hfailure]
      exact ih.cons f.index
    | error e =>
      have hrecord : t.record? o f = none := by simp only [record?, hresult]
      have hfailure : t.failure? o f = some ⟨f.index, (t.outcome o f).kind, f.offset, e⟩ := by
        simp only [failure?, hresult]
      rw [List.filterMap_cons_none hrecord, List.filterMap_cons_some hfailure]
      exact (ih.cons f.index).trans List.perm_middle.symm

/-- The records that are counted are those that frames decode to. -/
theorem length_records_add : (t.gather o frames).report.decoded +
    (t.gather o frames).report.unknown = (t.records o frames).length := by
  rw [List.length_eq_countP_add_countP fun e => e.2.isUnknown, Nat.add_comm]
  congr 1
  apply List.countP_congr
  simp

/-- What was gathered from frames is complete exactly if the frames have distinct indices. -/
theorem nodup_index_iff : (frames.map Frame.Placed.index).Nodup ↔
    (t.gather o frames).catalog.size =
        (t.gather o frames).report.decoded + (t.gather o frames).report.unknown ∧
      ((t.gather o frames).report.failures.map Failure.index).Nodup ∧
      ∀ g ∈ (t.gather o frames).report.failures,
        (t.gather o frames).catalog.find? g.index = none := by
  rw [(t.perm_index o frames).nodup_iff, List.nodup_append, length_records_add]
  unfold gather
  rw [Catalog.size_insertAll_iff]
  refine and_congr Iff.rfl (and_congr Iff.rfl ?_)
  simp only [Catalog.find?_eq_none_iff, Catalog.mem_indices_insertAll]
  constructor
  · intro hdisjoint g hg hmem
    exact hdisjoint _ hmem _ (List.mem_map_of_mem hg) rfl
  · intro hnone a ha b hb heq
    obtain ⟨g, hg, rfl⟩ := List.mem_map.1 hb
    exact hnone g hg (heq ▸ ha)

variable {t o} {σ : Type} [Collector σ]

/-- Decoding counts every frame of the stream once, as a record or as a failure.  The catalog holds
    each record that was counted, under an index that no failure has, exactly if the frames reach
    the last index at most once; then the summary tells how many frames there are. -/
theorem readStream_own_index {stream : List UInt8} {collector : σ} {d : Decoded}
    (h : (t.readStream o stream collector).1 = .ok d) :
    ∃ payloads, Frame.Splits stream payloads [] ∧
      d.report.decoded + d.report.unknown + d.report.failures.length = payloads.length ∧
      (o.firstIndex.toNat + payloads.length ≤ UInt32.size ↔
        d.catalog.size = d.report.decoded + d.report.unknown ∧
        (d.report.failures.map Failure.index).Nodup ∧
        ∀ g ∈ d.report.failures, d.catalog.find? g.index = none) ∧
      (o.firstIndex.toNat + payloads.length ≤ UInt32.size →
        d.catalog.size + d.report.failures.length = payloads.length ∧
        CommandLine.summary d = s!"{payloads.length} records ({d.report.decoded} decoded, " ++
          s!"{d.report.unknown} unknown, {d.report.failures.length} failed)") := by
  obtain ⟨_, payloads, hsplits, _, rfl⟩ := exists_of_readStream_ok collector h
  have hiff := (Frame.nodup_index_place_iff o.firstIndex 0 payloads).symm.trans
    (t.nodup_index_iff o _)
  generalize hframes : Frame.place o.firstIndex 0 payloads = frames at hiff ⊢
  -- Every frame is counted once, as decoded, unknown or failed.
  have htotal : (t.gather o frames).report.decoded + (t.gather o frames).report.unknown +
      (t.gather o frames).report.failures.length = payloads.length := by
    have hlength := (t.perm_index o frames).length_eq
    simp only [List.length_append, List.length_map] at hlength
    rw [length_records_add, ← Frame.length_place o.firstIndex 0 payloads, hframes, hlength]
    rfl
  refine ⟨payloads, hsplits, htotal, hiff, ?_⟩
  intro hbound
  have hsize : (t.gather o frames).catalog.size + (t.gather o frames).report.failures.length =
      payloads.length := by rw [(hiff.1 hbound).1, htotal]
  refine ⟨hsize, ?_⟩
  simp only [CommandLine.summary, hsize, String.append_assoc]

/-- An empty frame, which fails, and an unknown record, at the end of the index space. -/
theorem readStream_own_index_last_two :
    let o : Options := { firstIndex := ⟨0xfffffffe⟩ }
    let stream : List UInt8 := [0, 0, 2, 0, 1, 0]
    ∃ d, (standard.readStream o stream ()).1 = .ok d ∧
      d.catalog.size = d.report.decoded + d.report.unknown ∧
      (d.report.failures.map Failure.index).Nodup ∧
      (∀ g ∈ d.report.failures, d.catalog.find? g.index = none) ∧
      d.catalog.size + d.report.failures.length = 2 := by
  intro o stream
  have hvalid : o.validate = .ok () := Options.validate_eq_ok_iff.2 (by decide)
  have hsplits : Frame.Splits stream [[], [1, 0]] [] := ⟨by decide, by decide, trivial⟩
  have hread := congrArg Prod.fst (readStream_eq (t := standard) () hvalid hsplits)
  obtain ⟨payloads, hcut, _, hiff, hcount⟩ := readStream_own_index hread
  obtain ⟨rfl, _⟩ := Prod.mk.inj (hcut.eq_split.symm.trans hsplits.eq_split)
  have hbound : o.firstIndex.toNat + [[], [(1 : UInt8), 0]].length ≤ UInt32.size := by decide
  obtain ⟨hsize, hdistinct, hempty⟩ := hiff.1 hbound
  exact ⟨_, hread, hsize, hdistinct, hempty, (hcount hbound).1⟩

/-- Two empty frames and two unknown records that all have the last index.  Both failures have it,
    one record has replaced the other under it, and the summary tells of three records. -/
theorem readStream_shared_index :
    let o : Options := { firstIndex := ⟨0xffffffff⟩ }
    let stream : List UInt8 := [0, 0, 0, 0, 2, 0, 1, 0, 2, 0, 2, 0]
    o.validate = .ok () ∧ o.strict = false ∧ (Frame.split stream).1.length = 4 ∧
      ∃ d, (standard.readStream o stream ()).1 = .ok d ∧
        d.catalog.size ≠ d.report.decoded + d.report.unknown ∧
        ¬ (d.report.failures.map Failure.index).Nodup ∧
        (∃ g ∈ d.report.failures, d.catalog.find? g.index ≠ none) ∧
        CommandLine.summary d = "3 records (0 decoded, 2 unknown, 2 failed)" := by
  intro o stream
  have hvalid : o.validate = .ok () := Options.validate_eq_ok_iff.2 (by decide)
  have hsplits : Frame.Splits stream [[], [], [1, 0], [2, 0]] [] := ⟨by decide, by decide, trivial⟩
  have hread := congrArg Prod.fst (readStream_eq (t := standard) () hvalid hsplits)
  refine ⟨hvalid, rfl, by rw [hsplits.eq_split]; rfl, _, hread, ?_, ?_, ?_, ?_⟩
  · decide +kernel
  · decide +kernel
  · decide +kernel
  · decide +kernel

end DecoderTable

end TypeStream
