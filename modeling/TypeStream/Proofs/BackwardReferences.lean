import TypeStream.Proofs.RegisteredDecoders
import TypeStream.Proofs.Rendering

/-!
# Streams that only refer backward

A virtual table that is decoded has reported its owner and its base before, under the index that it
is stored at.  So the trail of a run knows every reference that rendering follows later, and if
they all lead backward there is no cycle to render.

## Key results

- `VirtualTable.references_of_decode_ok`: what decoding a table reports
- `Catalog.render_ne_cyclic`: rendering along descending references meets no cycle
- `DecoderTable.readStream_backward`: the two together, for a run into a fresh trail
-/

namespace TypeStream

/-! ### What a decoder reports -/

/-- A table that is decoded has reported its owner and its base. -/
theorem VirtualTable.references_of_decode_ok {ctx : Context} {s s' : Reader.State}
    {table : VirtualTable} (h : decode ctx s = .ok table s') :
    s'.references = s.references ++ [⟨ctx.index, table.owner⟩, ⟨ctx.index, table.base⟩] := by
  obtain ⟨owner, s₁, howner, h⟩ := Reader.exists_ok_of_bind_ok h
  obtain ⟨base, s₂, hbase, h⟩ := Reader.exists_ok_of_bind_ok h
  obtain ⟨pointerOffset, s₃, hpointer, h⟩ := Reader.exists_ok_of_bind_ok h
  obtain ⟨length, s₄, hlength, h⟩ := Reader.exists_ok_of_bind_ok h
  obtain ⟨block, s₅, hblock, h⟩ := Reader.exists_ok_of_bind_ok h
  obtain ⟨names, s₆, hnames, h⟩ := Reader.exists_ok_of_bind_ok h
  obtain ⟨_, s₇, halign, h⟩ := Reader.exists_ok_of_bind_ok h
  obtain ⟨rfl, rfl⟩ := EStateM.Result.ok.inj h
  -- Of the seven steps only the first two report anything.
  calc s₇.references
      = s₆.references := Reader.references_of_ofRead_ok halign
    _ = s₅.references := Reader.references_of_within_ok hnames
    _ = s₄.references := Reader.references_of_ofRead_ok hblock
    _ = s₃.references := Reader.references_of_ofRead_ok hlength
    _ = s₂.references := Reader.references_of_ofRead_ok hpointer
    _ = s₁.references ++ [⟨ctx.index, base⟩] := Reader.references_of_reference_ok hbase
    _ = s.references ++ [⟨ctx.index, owner⟩, ⟨ctx.index, base⟩] := by
      rw [Reader.references_of_reference_ok howner, List.append_assoc, List.singleton_append]

namespace Decoder

/-- The decoder reports the owner and the base of every table that it gives. -/
def ReportsTables (decoder : Decoder) : Prop :=
  ∀ ctx s table s', decoder ctx s = .ok (.virtualTable table) s' →
    s'.references = s.references ++ [⟨ctx.index, table.owner⟩, ⟨ctx.index, table.base⟩]

/-- The decoder of tables reports the owner and the base of each table, in this order. -/
theorem reportsTables_virtualTable : virtualTable.ReportsTables := by
  intro ctx s table s' h
  obtain ⟨table', middle, hdecode, hpure⟩ := Reader.exists_ok_of_bind_ok h
  obtain ⟨heq, rfl⟩ := EStateM.Result.ok.inj hpure
  rw [← Record.virtualTable.inj heq]
  exact VirtualTable.references_of_decode_ok hdecode

/-- A decoder that gives no tables has none to report. -/
theorem reportsTables_of_ne {decoder : Decoder}
    (h : ∀ ctx s table s', decoder ctx s ≠ .ok (.virtualTable table) s') :
    decoder.ReportsTables :=
  fun ctx s table s' hok => absurd hok (h ctx s table s')

/-- The decoder of shapes gives no table. -/
theorem reportsTables_tableShape : tableShape.ReportsTables := by
  refine reportsTables_of_ne fun ctx s table s' h => ?_
  obtain ⟨shape, middle, _, hpure⟩ := Reader.exists_ok_of_bind_ok h
  exact nomatch (EStateM.Result.ok.inj hpure).1

/-- The decoder of pairs gives none, and neither do the other two. -/
theorem reportsTables_pair : pair.ReportsTables := by
  refine reportsTables_of_ne fun ctx s table s' h => ?_
  obtain ⟨kind, s₁, _, h⟩ := Reader.exists_ok_of_bind_ok h
  obtain ⟨_, s₂, _, h⟩ := Reader.exists_ok_of_bind_ok h
  obtain ⟨bytes, s₃, _, hpure⟩ := Reader.exists_ok_of_bind_ok h
  exact nomatch (EStateM.Result.ok.inj hpure).1

theorem reportsTables_refuse : refuse.ReportsTables := by
  refine reportsTables_of_ne fun ctx s table s' h => ?_
  obtain ⟨_, middle, _, hthrow⟩ := Reader.exists_ok_of_bind_ok h
  exact nomatch hthrow

theorem reportsTables_keep (kind : UInt16) : (keep kind).ReportsTables := by
  refine reportsTables_of_ne fun ctx s table s' h => ?_
  obtain ⟨c, hread, _⟩ := Reader.exists_ok_of_ofRead_ok h
  obtain ⟨bytes, rest, _, hpure⟩ := Reader.exists_ok_of_bind_ok hread
  exact nomatch (EStateM.Result.ok.inj hpure).1

end Decoder

/-! ### Tables of decoders -/

namespace DecoderTable

/-- Whichever decoder is used, the owner and the base of a table are reported. -/
theorem Registered.reportsTables {t : DecoderTable} (ht : t.Registered) (kind : UInt16) :
    (t.decoder kind).ReportsTables := by
  apply ht.decoder_induction
  · exact Decoder.reportsTables_virtualTable
  · exact Decoder.reportsTables_tableShape
  · exact Decoder.reportsTables_pair
  · exact Decoder.reportsTables_refuse
  · exact Decoder.reportsTables_keep

variable {t : DecoderTable} {o : Options} {i : TypeIndex} {table : VirtualTable}

/-- A frame that is decoded to a table reports its owner and its base. -/
theorem references_outcome (ht : t.Registered) {f : Frame.Placed}
    (h : (t.outcome o f).result = .ok (.virtualTable table)) :
    (t.outcome o f).references = [⟨f.index, table.owner⟩, ⟨f.index, table.base⟩] := by
  simp only [outcome, readFrame] at h ⊢
  -- Too few bytes for a kind, no record, or bytes left over behind one.
  split at h
  · exact nomatch h
  · rename_i kind body _
    split at h
    · exact nomatch h
    · rename_i record s hdecoder
      simp only at h
      split at h
      · rw [Except.ok.inj h] at hdecoder
        exact ht.reportsTables kind _ _ _ _ hdecoder
      · exact nomatch h

/-- A table that frames leave in a catalog is one whose owner and base they have reported. -/
theorem references_of_find? (ht : t.Registered) {placeholders : Bool} {frames : List Frame.Placed}
    (h : ((Catalog.empty placeholders).insertAll (t.records o frames)).find? i =
      some (.virtualTable table)) :
    ⟨i, table.owner⟩ ∈ t.references o frames ∧ ⟨i, table.base⟩ ∈ t.references o frames := by
  obtain ⟨f, hf, rfl, hresult⟩ := mem_records_iff.1 (Catalog.mem_of_find?_insertAll h)
  have hreferences := references_outcome ht hresult
  constructor
  · exact List.mem_flatMap.2 ⟨f, hf, by simp [hreferences]⟩
  · exact List.mem_flatMap.2 ⟨f, hf, by simp [hreferences]⟩

end DecoderTable

/-- A reference that leads neither forward nor to its own record leads backward. -/
theorem Trail.target_lt_source {trail : Trail} (hforward : trail.forward = [])
    (hself : trail.selfLoops = []) {r : Reference} (hr : r ∈ trail.references) :
    r.target < r.source := by
  have hnotself : r.target ≠ r.source := by
    simpa [Reference.isSelf] using List.filter_eq_nil_iff.1 hself r hr
  have hnotforward := List.filter_eq_nil_iff.1 hforward r hr
  have hne : r.target.toNat ≠ r.source.toNat := fun h => hnotself (TypeIndex.toNat_inj.1 h)
  -- `forward` leaves out references to index `0`, which is below every other index anyway.
  by_cases hnone : r.target = .none
  · have hzero : r.target.toNat = 0 := by rw [hnone]; rfl
    show r.target.toNat < r.source.toNat
    omega
  · simp only [Reference.isNone, TypeIndex.isNone, hnone, Reference.isForward, decide_false,
      Bool.not_false, Bool.true_and, decide_eq_true_eq, TypeIndex.lt_def] at hnotforward
    show r.target.toNat < r.source.toNat
    omega

/-! ### Descending references -/

namespace Catalog

variable {c : Catalog} {i j : TypeIndex}

/-- Where references only lead back, nothing behind an index is reached from it. -/
theorem toNat_le_of_reaches (hbelow : ∀ i j, c.Refers i j → j < i) (h : c.Reaches i j) :
    j.toNat ≤ i.toNat := by
  induction h with
  | here => exact Nat.le_refl _
  | step _ href ih => exact Nat.le_trans (Nat.le_of_lt (hbelow _ _ href)) ih

/-- Along descending references there is no cycle to render. -/
theorem render_ne_cyclic (hc : c.placeholders = false) (hbelow : ∀ i j, c.Refers i j → j < i)
    (i j : TypeIndex) : c.render i ≠ .error (.cyclic j) := by
  intro h
  cases fault_of_renderWithin_error hc (by nofun) h with
  | cyclic _ hcycle =>
    obtain ⟨k, href, hreach⟩ := hcycle
    have hlt : k.toNat < j.toNat := hbelow j k href
    exact Nat.not_lt_of_le (toNat_le_of_reaches hbelow hreach) hlt

end Catalog

/-- The trail of a run holds the references of every table that is stored, to its owner and to its
    base.  So if no reference on it leads forward or to its own record, then rendering what was
    decoded meets no cycle. -/
theorem DecoderTable.readStream_backward {t : DecoderTable} (ht : t.Registered) {o : Options}
    {stream : List UInt8} {d : Decoded} {trail : Trail}
    (h : t.readStream o stream Trail.empty = (.ok d, trail)) :
    (∀ i table, d.catalog.find? i = some (.virtualTable table) →
      ⟨i, table.owner⟩ ∈ trail.references ∧ ⟨i, table.base⟩ ∈ trail.references) ∧
    (trail.forward = [] → trail.selfLoops = [] → ∀ j k,
      ({ d.catalog with placeholders := false } : Catalog).render j ≠ .error (.cyclic k)) := by
  obtain ⟨payloads, _, rfl, rfl⟩ := readStream_ok t Trail.empty h
  have htrail : (Collector.noteAll Trail.empty
      (t.references o (Frame.place o.firstIndex 0 payloads))).references =
        t.references o (Frame.place o.firstIndex 0 payloads) :=
    Trail.references_noteAll Trail.empty _
  rw [Progress.catalog_addAll_start]
  constructor
  · intro i table hfind
    rw [htrail]
    exact references_of_find? ht hfind
  · intro hforward hself
    -- Rendering looks up what has been reported, except a base of index `0`.
    refine Catalog.render_ne_cyclic rfl fun i j href => ?_
    obtain ⟨record, hfind, hj⟩ := href
    cases record with
    | virtualTable table =>
      obtain ⟨howner, hbase⟩ := references_of_find? ht hfind
      rw [← htrail] at howner hbase
      have hlow : table.owner < i := Trail.target_lt_source hforward hself howner
      have hlow' : table.base < i := Trail.target_lt_source hforward hself hbase
      simp only [Record.targets, VirtualTable.targets] at hj
      split at hj
      · rcases List.mem_cons.1 hj with rfl | hj
        · exact hlow
        · rwa [List.mem_singleton.1 hj]
      · rwa [List.mem_singleton.1 hj]
    | tableShape shape => cases hj
    | unknown kind bytes => cases hj

/-- The second of two tables belongs to the first and extends it. -/
theorem DecoderTable.readStream_backward_two_tables :
    let stream : List UInt8 :=
      [18, 0, 0x1d, 0x15, 0x74, 0, 0, 0, 0, 0, 0, 0, 0, 0, 0, 0, 0, 0, 0, 0,
        18, 0, 0x1d, 0x15, 0, 0x10, 0, 0, 0, 0x10, 0, 0, 0, 0, 0, 0, 0, 0, 0, 0]
    let trail : Trail := ⟨[], #[⟨⟨0x1000⟩, ⟨0x74⟩⟩, ⟨⟨0x1000⟩, .none⟩,
      ⟨⟨0x1001⟩, ⟨0x1000⟩⟩, ⟨⟨0x1001⟩, ⟨0x1000⟩⟩]⟩
    standard.Registered ∧ trail.forward = [] ∧ trail.selfLoops = [] ∧
      ∃ d, standard.readStream {} stream Trail.empty = (.ok d, trail) ∧
        ∀ j k, ({ d.catalog with placeholders := false } : Catalog).render j ≠
          .error (.cyclic k) := by
  intro stream trail
  have hvalid : ({} : Options).validate = .ok () := Options.validate_eq_ok_iff.2 (by decide)
  have hsplits : Frame.Splits stream [(stream.take 20).drop 2, stream.drop 22] [] :=
    ⟨by decide, by decide, trivial⟩
  have hread := readStream_of_splits standard Trail.empty hvalid hsplits (by nofun)
  have htrail : Collector.noteAll Trail.empty (standard.references {}
      (Frame.place .firstRecord 0 [(stream.take 20).drop 2, stream.drop 22])) = trail := by
    decide +kernel
  rw [htrail] at hread
  have hforward : trail.forward = [] := by decide
  have hself : trail.selfLoops = [] := by decide
  have hbackward := readStream_backward .standard hread
  exact ⟨.standard, hforward, hself, _, hread, hbackward.2 hforward hself⟩

end TypeStream
