import TypeStream.Proofs.ComparedRuns
import TypeStream.Proofs.CoupledReaders
import TypeStream.Proofs.NamePieces
import TypeStream.Proofs.TableFrames

/-!
# The choice of a charset

A charset says what the bytes of a name stand for.  It has no part in finding the names: strings
end at zero bytes, and how far a record reaches is told in bytes.  So with another charset a stream
is decoded to the same records under other names, fails where it failed, and is rendered where it
was.

## Key results

- `DecoderTable.Registered.results_withCharset`: a frame read with another charset
- `Catalog.Alike.renderWithin`: catalogs that agree up to names render the same indices
- `DecoderTable.readStream_withCharset`: a stream read with another charset
-/

namespace TypeStream

/-- The options with another charset. -/
def Options.withCharset (o : Options) (charset : Charset) : Options := { o with charset }

/-- The names are what the two charsets make of the same bytes. -/
def Charset.SameBytes (charset charset' : Charset) (name name' : String) : Prop :=
  ∃ bytes, charset.decode bytes = name ∧ charset'.decode bytes = name'

/-- Reading the same bytes in the same place with another charset. -/
def Cursor.Coupling.withCharset (o : Options) (charset : Charset) :
    Coupling o.charset (o.withCharset charset).charset where
  Cursors := Eq
  Padded := Eq
  Errors := Eq
  Names := o.charset.SameBytes charset
  unread_eq h := congrArg _ h
  advance h n := congrArg (·.advance n) h
  window h n := congrArg (·.window n) h
  padded h := h
  padding h := by rw [h]
  truncated h _ _ _ := by rw [h]
  unterminated h := by rw [h]
  errors_self _ := rfl
  names bytes := ⟨bytes, rfl, rfl⟩

/-! ### Records under other names -/

section Alike

variable {N : String → String → Prop} {lookUp lookUp' : TypeIndex → Except Error String}

/-- Tables that are alike are rendered alike, if what they refer to is. -/
theorem VirtualTable.Alike.render {t t' : VirtualTable} (h : Alike N t t')
    (hlookUp : ∀ i, SameFate (fun _ _ => True) (lookUp i) (lookUp' i)) :
    SameFate (fun _ _ => True) (t.render lookUp) (t'.render lookUp') := by
  have hhas : t.hasBase = t'.hasBase := by
    unfold hasBase
    rw [h.base_eq]
  unfold VirtualTable.render
  rw [h.owner_eq, h.base_eq, hhas]
  apply (hlookUp t'.owner).bind
  intro owner owner' _
  by_cases hbase : t'.hasBase = true
  · rw [if_pos hbase, if_pos hbase]
    exact (hlookUp t'.base).bind fun _ _ _ => .ok trivial
  · rw [if_neg hbase, if_neg hbase]
    exact .ok trivial

/-- Records that are alike are rendered alike, if what they refer to is. -/
theorem Record.Alike.render {r r' : Record} (h : Alike N r r')
    (hlookUp : ∀ i, SameFate (fun _ _ => True) (lookUp i) (lookUp' i)) :
    SameFate (fun _ _ => True) (r.render lookUp) (r'.render lookUp') := by
  cases h with
  | virtualTable htable => exact htable.render hlookUp
  | tableShape shape => exact .ok trivial
  | unknown kind bytes => exact .ok trivial

/-- Records that are alike are unknown both or not at all. -/
theorem Record.Alike.isUnknown_eq {r r' : Record} (h : Alike N r r') :
    r.isUnknown = r'.isUnknown := by
  cases h <;> rfl

/-- The catalogs have records at the same indices, which agree in all but the names of tables. -/
structure Catalog.Alike (N : String → String → Prop) (c c' : Catalog) : Prop where
  placeholders_eq : c.placeholders = c'.placeholders
  find? : ∀ i, Option.Rel (Record.Alike N) (c.find? i) (c'.find? i)

namespace Catalog.Alike

variable {c c' : Catalog}

/-- Names have no part in whether an index can be rendered. -/
theorem renderWithin (h : c.Alike N c') (budget : Nat) (inProgress : List TypeIndex)
    (i : TypeIndex) :
    SameFate (fun _ _ => True) (c.renderWithin budget inProgress i)
      (c'.renderWithin budget inProgress i) := by
  -- A record spends one of the budget, and its parts are rendered with the rest.
  induction budget using Nat.strongRecOn generalizing inProgress i with
  | ind budget ih =>
    have hfind := h.find? i
    generalize hr : c.find? i = found, hr' : c'.find? i = found' at hfind
    -- Both catalogs have a record at the index or none has, so they take the same branch.
    cases hfind with
    | none =>
      rw [renderWithin_of_none hr, renderWithin_of_none hr',
        renderUnstored_congr h.placeholders_eq]
      exact .refl (fun _ => trivial) _
    | some halike =>
      by_cases hi : i ∈ inProgress
      · rw [renderWithin_of_mem hr hi, renderWithin_of_mem hr' hi, stop_congr h.placeholders_eq]
        exact .refl (fun _ => trivial) _
      · cases budget with
        | zero =>
          rw [renderWithin_zero hr hi, renderWithin_zero hr' hi, stop_congr h.placeholders_eq]
          exact .refl (fun _ => trivial) _
        | succ budget =>
          rw [renderWithin_succ hr hi, renderWithin_succ hr' hi]
          exact halike.render fun j => ih budget (Nat.lt_succ_self budget) (i :: inProgress) j

end Catalog.Alike

end Alike

/-! ### Lists of records under other names -/

section Entries

variable {N : String → String → Prop} {entries entries' : List (TypeIndex × Record)}

/-- The records stand at the same index and agree in all but the names of tables. -/
def AlikeEntries (N : String → String → Prop) (e e' : TypeIndex × Record) : Prop :=
  e.1 = e'.1 ∧ Record.Alike N e.2 e'.2

/-- Under an index, entries that are alike have records that are alike. -/
theorem lookup_alike (h : List.Forall₂ (AlikeEntries N) entries entries') (i : TypeIndex) :
    Option.Rel (Record.Alike N) (entries.lookup i) (entries'.lookup i) := by
  induction h with
  | nil => exact .none
  | @cons e e' _ _ hfirst _ ih =>
    obtain ⟨j, record⟩ := e
    obtain ⟨j', record'⟩ := e'
    obtain ⟨rfl, halike⟩ : j = j' ∧ Record.Alike N record record' := hfirst
    -- The first entry is at the index, in both lists or in neither.
    simp only [List.lookup_cons]
    cases i == j with
    | true => exact .some halike
    | false => exact ih

/-- Entries that are alike are counted alike by what does not tell their records apart. -/
theorem countP_alike {p : Record → Bool} (hp : ∀ r r', Record.Alike N r r' → p r = p r')
    (h : List.Forall₂ (AlikeEntries N) entries entries') :
    entries.countP (fun e => p e.2) = entries'.countP fun e => p e.2 := by
  induction h with
  | nil => rfl
  | cons hfirst _ ih => rw [List.countP_cons, List.countP_cons, ih, hp _ _ hfirst.2]

/-- Catalogs made of entries that are alike are alike. -/
theorem Catalog.alike_insertAll (placeholders : Bool)
    (h : List.Forall₂ (AlikeEntries N) entries entries') :
    ((empty placeholders).insertAll entries).Alike N ((empty placeholders).insertAll entries') := by
  constructor
  · rw [placeholders_insertAll, placeholders_insertAll]
  · intro i
    have hnone : (empty placeholders).find? i = none := rfl
    rw [find?_insertAll, find?_insertAll, hnone, Option.or_none, Option.or_none]
    exact lookup_alike (List.forall₂_reverse_iff.2 h) i

end Entries

/-- What was decoded is the same in all but the names of tables, and the same indices can be
    rendered. -/
structure Decoded.Alike (N : String → String → Prop) (d d' : Decoded) : Prop where
  report_eq : d.report = d'.report
  find? : ∀ i, Option.Rel (Record.Alike N) (d.catalog.find? i) (d'.catalog.find? i)
  render : ∀ i, SameFate (fun _ _ => True) (d.catalog.render i) (d'.catalog.render i)

namespace DecoderTable

variable {t : DecoderTable} {o : Options}

/-! ### Frames -/

/-- A frame has the same leaf kind and reports the same with every charset, and it fails alike or
    decodes to records that agree up to names. -/
theorem Registered.results_withCharset (ht : t.Registered) (charset : Charset)
    (f : Frame.Placed) :
    (t.outcome o f).kind = (t.outcome (o.withCharset charset) f).kind ∧
      (t.outcome o f).references = (t.outcome (o.withCharset charset) f).references ∧
      SameFate (Record.Alike (o.charset.SameBytes charset)) (t.outcome o f).result
        (t.outcome (o.withCharset charset) f).result := by
  obtain ⟨hkind, hreferences, hresults⟩ :=
    (Cursor.Coupling.withCharset o charset).outcome ht rfl (f := f) rfl
  refine ⟨hkind, hreferences, ?_⟩
  obtain ⟨e, _, rfl, he, he'⟩ | ⟨record, record', c, _, halike, rfl, heq, heq'⟩ := hresults
  -- The decoder fails with the same error on both sides.
  · rw [he, he']
    exact .error e
  -- Both sides stop at the same cursor, so the same bytes are left over.
  · rw [heq, heq']
    unfold Cursor.Coupling.finish
    by_cases hend : c.atEnd = true
    · rw [if_pos hend, if_pos hend]
      exact .ok halike
    · rw [if_neg hend, if_neg hend]
      exact .error _

/-- Whether a frame fails, and how, does not depend on the charset. -/
theorem Registered.failure?_withCharset (ht : t.Registered) (charset : Charset)
    (f : Frame.Placed) : t.failure? o f = t.failure? (o.withCharset charset) f := by
  obtain ⟨hkind, _, hresults⟩ := ht.results_withCharset (o := o) charset f
  unfold failure?
  rw [hkind]
  generalize (t.outcome o f).result = result,
    (t.outcome (o.withCharset charset) f).result = result' at hresults
  cases hresults <;> rfl

/-- Frames are decoded to records that are alike, one by one. -/
theorem Registered.records_withCharset (ht : t.Registered) (charset : Charset)
    (frames : List Frame.Placed) :
    List.Forall₂ (AlikeEntries (o.charset.SameBytes charset)) (t.records o frames)
      (t.records (o.withCharset charset) frames) := by
  refine List.rel_filterMap (R := Eq) ?_ (List.forall₂_same.2 fun _ _ => rfl)
  intro f _ heq
  subst heq
  obtain ⟨_, _, hresults⟩ := ht.results_withCharset (o := o) charset f
  unfold record?
  generalize (t.outcome o f).result = result,
    (t.outcome (o.withCharset charset) f).result = result' at hresults
  cases hresults with
  | ok halike => exact .some ⟨rfl, halike⟩
  | error e => exact .none

/-! ### Streams -/

/-- What frames decode to is alike with both charsets. -/
theorem Registered.gather_withCharset (ht : t.Registered) (charset : Charset)
    (frames : List Frame.Placed) :
    Decoded.Alike (o.charset.SameBytes charset) (t.gather o frames)
      (t.gather (o.withCharset charset) frames) := by
  have hrecords := ht.records_withCharset (o := o) charset frames
  have hcatalog := Catalog.alike_insertAll o.placeholders hrecords
  -- A failure carries no name, so the failures are equal and not only alike.
  have hfailures : t.failures o frames = t.failures (o.withCharset charset) frames :=
    failures_congr_of_mem fun f _ => ht.failure?_withCharset charset f
  refine ⟨?_, hcatalog.find?, hcatalog.renderWithin Catalog.maxDepth []⟩
  simp only [gather, Report.mk.injEq]
  refine ⟨?_, ?_, hfailures⟩
  · exact countP_alike (p := fun r => !r.isUnknown) (fun _ _ h => by rw [h.isUnknown_eq]) hrecords
  · exact countP_alike (p := Record.isUnknown) (fun _ _ h => h.isUnknown_eq) hrecords

/-- The bytes of all name blocks of a stream are below `0x80`. -/
def AsciiNames (t : DecoderTable) (stream : List UInt8) : Prop :=
  ∀ payload ∈ (Frame.split stream).1, ∀ front, t.HoldsTable payload front →
    ∀ b ∈ front.drop 16, b.toNat < 0x80

/-- With another charset, a stream is decoded to the same but for the names of tables.  It is
    decoded to the very same if the names are plain ASCII. -/
theorem readStream_withCharset (ht : t.Registered) (hvalid : o.validate = .ok ())
    (charset : Charset) (stream : List UInt8) {σ : Type} [Collector σ] (collector : σ) :
    SameFate (Decoded.Alike (o.charset.SameBytes charset)) (t.readStream o stream collector).1
        (t.readStream (o.withCharset charset) stream collector).1 ∧
      (t.readStream o stream collector).2 =
        (t.readStream (o.withCharset charset) stream collector).2 ∧
      (t.AsciiNames stream → t.readStream o stream collector =
        t.readStream (o.withCharset charset) stream collector) := by
  have hsplits := Frame.splits_split stream
  have hfailure? := ht.failure?_withCharset (o := o) charset
  have hvalid' : (o.withCharset charset).validate = .ok () := hvalid
  -- Whatever relates the results of the frames relates those of the runs.
  have hfates {R : Decoded → Decoded → Prop} :=
    readStream_sameFate_of_failure? (fun f _ => hfailure? f) collector hvalid hvalid' rfl hsplits
      rfl rfl (fun f _ => (ht.results_withCharset charset f).2.1) (R := R)
  obtain ⟨halike, hcollectors⟩ := hfates (ht.gather_withCharset charset _)
  refine ⟨halike, hcollectors, fun hascii => ?_⟩
  -- With plain names every frame decodes to the same, so what is gathered is equal.
  have houtcome : ∀ f ∈ Frame.place o.firstIndex 0 (Frame.split stream).1,
      t.outcome o f = t.outcome (o.withCharset charset) f := by
    intro f hf
    refine ht.outcome_congr rfl fun front hfront c hc => ?_
    refine NameBlock.decode_of_ascii ?_ _ _ _
    rw [hc]
    exact hascii _ (Frame.payload_mem_of_mem_place hf) front hfront
  obtain ⟨hequal, _⟩ := hfates (gather_congr_of_mem houtcome rfl)
  exact Prod.ext hequal.eq hcollectors

/-- A table whose name is the byte `0xe9`, which is not UTF-8, and one with a plain name. -/
theorem readStream_withCharset_two_names :
    let o : Options := {}
    let fields : List UInt8 := [0x1d, 0x15, 0x74, 0, 0, 0, 0, 0, 0, 0, 0, 0, 0, 0, 2, 0, 0, 0]
    let accented : List UInt8 := [22, 0] ++ fields ++ [0xe9, 0, 0, 0]
    let plain : List UInt8 := [22, 0] ++ fields ++ [0x65, 0, 0, 0]
    let start : Array Reference := #[]
    standard.Registered ∧ o.validate = .ok () ∧
      (∃ d d', (standard.readStream o accented start).1 = .ok d ∧
        (standard.readStream (o.withCharset .utf8) accented start).1 = .ok d' ∧
        Decoded.Alike (o.charset.SameBytes .utf8) d d' ∧
        d.catalog.find? ⟨0x1000⟩ = some (.virtualTable ⟨⟨0x74⟩, ⟨0⟩, 0, ⟨some "é", []⟩⟩) ∧
        d'.catalog.find? ⟨0x1000⟩ = some (.virtualTable ⟨⟨0x74⟩, ⟨0⟩, 0, ⟨some "�", []⟩⟩)) ∧
      (standard.readStream (o.withCharset .utf8) accented start).2 =
        #[⟨⟨0x1000⟩, ⟨0x74⟩⟩, ⟨⟨0x1000⟩, .none⟩] ∧
      standard.AsciiNames plain ∧
      standard.readStream o plain start =
        standard.readStream (o.withCharset .utf8) plain start := by
  intro o fields accented plain start
  have hvalid : o.validate = .ok () := Options.validate_eq_ok_iff.2 (by decide)
  have hvalid' : (o.withCharset .utf8).validate = .ok () := hvalid
  have haccented : Frame.Splits accented [accented.drop 2] [] := ⟨by decide, by decide, trivial⟩
  have hplain : Frame.Splits plain [plain.drop 2] [] := ⟨by decide, by decide, trivial⟩
  have hbytes : ∀ b ∈ plain.drop 2, b.toNat < 0x80 := by decide +kernel
  have hascii : standard.AsciiNames plain := by
    intro payload hpayload front hfront b hb
    rw [hplain.eq_split, List.mem_singleton] at hpayload
    obtain ⟨kind, padding, heq, _, _⟩ := hfront
    refine hbytes b ?_
    rw [← hpayload, heq]
    exact List.mem_append_right _ (List.mem_append_left _ (List.mem_of_mem_drop hb))
  obtain ⟨hfate, hedges, _⟩ := readStream_withCharset .standard hvalid .utf8 accented start
  obtain ⟨_, _, hequal⟩ := readStream_withCharset .standard hvalid .utf8 plain start
  refine ⟨.standard, hvalid, ?_, hedges.symm.trans (by decide +kernel), hascii, hequal hascii⟩
  rw [readStream_eq start hvalid haccented, readStream_eq start hvalid' haccented] at hfate ⊢
  cases hfate with
  | ok halike =>
    exact ⟨_, _, rfl, rfl, halike, by decide +kernel, by decide +kernel⟩

end DecoderTable

end TypeStream
