import TypeStream.Proofs.ComparedRuns
import TypeStream.Proofs.NamePieces
import TypeStream.Proofs.TableFrames

/-!
# Tables that must have a name

Whether a table has a name is looked at when its name block has been read, before padding and
before it is known whether the frame ends there.  So if names are required, an empty block is what
is complained about, whether the table would have been kept or would have had bytes left over.
Every other frame decodes to the same as before.

## Key results

- `DecoderTable.Registered.results_withNaming`: a frame under either rule
- `DecoderTable.readStream_withNaming`: a stream under either rule
-/

namespace TypeStream

open Cursor.Coupling (finish)

/-- The options with tables that must have a name, or need not. -/
def Options.withNaming (o : Options) (naming : TableNaming) : Options := { o with naming }

/-- Whether the record is a table without a name. -/
def Record.isUnnamed : Record → Bool
  | virtualTable table => table.names.tableName.isNone
  | _ => false

/-- The result is not a table without a name, nor a complaint about one. -/
inductive Record.Named : Except Error Record → Prop
  | ok {record : Record} : record.isUnnamed = false → Named (.ok record)
  | error {e} : e ≠ .unnamedTable → Named (.error e)

/-- Bytes left over are no complaint about a name. -/
theorem Record.Named.finish {record : Record} (h : record.isUnnamed = false) (index : TypeIndex)
    (c : Cursor) : Named (finish index record c) := by
  unfold Cursor.Coupling.finish
  split
  · exact .ok h
  · exact .error nofun

/-- What a frame comes to if tables need not have a name, and if they must.  The two differ where
    the name block of a table is empty. -/
inductive Record.NamingRequired (index : TypeIndex) (empty : Prop) :
    Except Error Record → Except Error Record → Prop
  | same {result} : Named result → NamingRequired index empty result result
  | table {table : VirtualTable} : empty → table.names = ⟨none, []⟩ →
      NamingRequired index empty (.ok (.virtualTable table)) (.error .unnamedTable)
  | leftover (count) : empty →
      NamingRequired index empty (.error (.leftover index count)) (.error .unnamedTable)

namespace Record.NamingRequired

variable {index : TypeIndex} {empty : Prop} {result result' : Except Error Record} {e : Error}
  (h : NamingRequired index empty result result')
include h

/-- What is decoded if tables must have a name is what is decoded anyway and not without a name. -/
theorem eq_ok_iff {record : Record} :
    result' = .ok record ↔ result = .ok record ∧ record.isUnnamed = false := by
  cases h with
  -- Where both runs agree, no table without a name is read.
  | same hnamed =>
    refine ⟨?_, And.left⟩
    rintro rfl
    cases hnamed with
    | ok hnamed => exact ⟨rfl, hnamed⟩
  -- The run without the demand reads a table that the other one refuses.
  | @table table _ hnames =>
    refine ⟨nofun, ?_⟩
    rintro ⟨heq, hnamed⟩
    cases heq
    simp [isUnnamed, hnames] at hnamed
  | leftover => exact ⟨nofun, nofun⟩

/-- What fails then has failed anyway, or is a table without a name. -/
theorem exists_error_iff :
    (∃ e, result' = .error e) ↔
      (∃ e, result = .error e) ∨ ∃ record, result = .ok record ∧ record.isUnnamed = true := by
  cases h with
  | same hnamed =>
    refine ⟨.inl, ?_⟩
    rintro (herror | ⟨record, rfl, hunnamed⟩)
    · exact herror
    · cases hnamed with
      | ok hnamed => simp [hnamed] at hunnamed
  | @table table _ hnames =>
    exact ⟨fun _ => .inr ⟨_, rfl, by simp [isUnnamed, hnames]⟩, fun _ => ⟨_, rfl⟩⟩
  | leftover count => exact ⟨fun _ => .inl ⟨_, rfl⟩, fun _ => ⟨_, rfl⟩⟩

/-- Nobody complains about a name if tables need not have one. -/
theorem ne_unnamedTable (he : result = .error e) : e ≠ .unnamedTable := by
  subst he
  cases h with
  | same hnamed =>
    cases hnamed with
    | error hne => exact hne
  | leftover => nofun

/-- Any other complaint was there before. -/
theorem eq_error (he : result' = .error e) (hne : e ≠ .unnamedTable) : result = .error e := by
  subst he
  cases h with
  | same => rfl
  | table => exact absurd rfl hne
  | leftover => exact absurd rfl hne

/-- The complaint is about an empty block, of a table that else is decoded or has bytes left over.
    -/
theorem of_unnamedTable (he : result' = .error .unnamedTable) :
    empty ∧ ((∃ table, result = .ok (.virtualTable table) ∧ table.names = ⟨none, []⟩) ∨
      ∃ count, result = .error (.leftover index count)) := by
  subst he
  cases h with
  | same hnamed =>
    cases hnamed with
    | error hne => exact absurd rfl hne
  | table hempty hnames => exact ⟨hempty, .inl ⟨_, rfl, hnames⟩⟩
  | leftover count hempty => exact ⟨hempty, .inr ⟨count, rfl⟩⟩

end Record.NamingRequired

namespace DecoderTable

variable {t : DecoderTable} {o : Options} {f : Frame.Placed}

/-! ### Frames -/

/-- The frame holds a table with an empty name block. -/
def HoldsEmptyBlock (t : DecoderTable) (payload : List UInt8) : Prop :=
  ∃ front, t.HoldsTable payload front ∧ front.length = 16

/-- Behind the fields of a table there are names, unless its block is empty. -/
theorem not_atEnd_names {front : List UInt8} {c : Cursor} (hnames : c.unread = front.drop 16)
    (hfront : VirtualTable.IsFront front) (h : front.length ≠ 16) : ¬ c.atEnd = true := by
  have hle := hfront.fields_le
  rw [Cursor.atEnd_iff, Cursor.remaining, hnames, List.length_drop]
  omega

/-- A table with an empty name block is kept or has bytes left over, unless it must have a name. -/
theorem outcome_of_holdsEmptyBlock (h : t.HoldsEmptyBlock f.payload) :
    ∃ kind references table c, table.names = ⟨none, []⟩ ∧
      t.outcome (o.withNaming .optional) f =
        ⟨some kind, references, finish f.index (.virtualTable table) c⟩ ∧
      t.outcome (o.withNaming .required) f = ⟨some kind, references, .error .unnamedTable⟩ := by
  obtain ⟨front, ⟨kind, padding, hpayload, htable, hfront⟩, hlength⟩ := h
  obtain ⟨owner, base, pointerOffset, houtcome⟩ := outcome_of_table htable hfront
  -- Behind the fields there is nothing, so there is no first name.
  have hend : ∀ offset alignment,
      (Cursor.ofBytes (front.drop 16) offset alignment).atEnd = true := by
    intro offset alignment
    rw [Cursor.atEnd_iff]
    show (front.drop 16).length = 0
    rw [List.length_drop, hlength]
  have hnames := fun charset offset alignment =>
    NameBlock.decode_of_atEnd (hend offset alignment) charset
  refine ⟨kind, [⟨f.index, owner⟩, ⟨f.index, base⟩], ⟨owner, base, pointerOffset, ⟨none, []⟩⟩,
    ((f.body o).advance front.length).padded, rfl, ?_, ?_⟩
  · rw [houtcome (o.withNaming .optional) f padding hpayload]
    simp only [Options.withNaming, (hnames _ _ _).1]
    rfl
  · rw [houtcome (o.withNaming .required) f padding hpayload]
    simp only [Options.withNaming, (hnames _ _ _).2]

/-- Without an empty name block, a frame comes to nothing that names could be required for. -/
theorem Registered.named_of_not_holdsEmptyBlock (ht : t.Registered)
    (h : ¬ t.HoldsEmptyBlock f.payload) : Record.Named (t.outcome o f).result := by
  by_cases hshort : f.payload.length < 2
  -- A frame without a leaf kind fails, but not for a name.
  · rw [outcome_of_short t o hshort]
    exact .error nofun
  obtain ⟨kind, hpayload⟩ := Frame.exists_kind (Nat.le_of_not_lt hshort)
  rcases ht.decoder_cases kind with htable | hplain
  · obtain ⟨front, padding, hs, hfront⟩ | ⟨e, s', hcut, hdecode⟩ :=
      VirtualTable.front_or_cutOff f.index (.ofCursor (f.body o))
    -- All of the name block is there, and there are bytes in it.
    · have hbody : f.payload.drop 2 = front ++ padding := hs
      rw [hbody] at hpayload
      have hne : front.length ≠ 16 := fun hlength =>
        h ⟨front, ⟨kind, padding, hpayload, htable, hfront⟩, hlength⟩
      obtain ⟨owner, base, pointerOffset, houtcome⟩ := outcome_of_table htable hfront
      rw [houtcome o f padding hpayload]
      obtain ⟨_, _, _, _, hnames⟩ | ⟨tableName, methods, stop, hnames⟩ :=
        NameBlock.decode_of_not_atEnd (c := .ofBytes (front.drop 16) ((f.body o).offset + 16)
          (f.body o).alignment) (not_atEnd_names rfl hfront hne) o.charset
      · rw [hnames]
        exact .error nofun
      · rw [hnames]
        exact .finish rfl _ _
    -- The body ends before the name block does, so the names are not even looked at.
    · rw [outcome_of_kind t o hpayload, htable]
      simp only [Decoder.virtualTable, bind, EStateM.bind, hdecode]
      exact .error hcut.ne_unnamedTable
  -- The decoders of other kinds never return a table, nor do they ask for a name.
  · have hmeets := hplain.meets ⟨f.index, o⟩ (.ofCursor (f.body o)) (.nil f.index)
    rw [outcome_of_kind t o hpayload]
    generalize t.decoder kind ⟨f.index, o⟩ _ = r at hmeets
    cases r with
    | error e s => exact .error hmeets.1
    | ok record s =>
      refine .finish ?_ _ _
      cases record with
      | virtualTable table => exact absurd rfl (hmeets.1 table)
      | tableShape shape => rfl
      | unknown kind bytes => rfl

/-- What a frame comes to under either rule. -/
theorem Registered.results_withNaming (ht : t.Registered) (f : Frame.Placed) :
    (t.outcome (o.withNaming .optional) f).kind = (t.outcome (o.withNaming .required) f).kind ∧
      (t.outcome (o.withNaming .optional) f).references =
        (t.outcome (o.withNaming .required) f).references ∧
      Record.NamingRequired f.index (t.HoldsEmptyBlock f.payload)
        (t.outcome (o.withNaming .optional) f).result
        (t.outcome (o.withNaming .required) f).result := by
  by_cases hempty : t.HoldsEmptyBlock f.payload
  -- The complaint about the name comes first, so it hides bytes that are left over.
  · obtain ⟨kind, references, table, c, hnames, hoptional, hrequired⟩ :=
      outcome_of_holdsEmptyBlock (o := o) hempty
    rw [hoptional, hrequired]
    refine ⟨rfl, rfl, ?_⟩
    unfold Cursor.Coupling.finish
    split
    · exact .table hempty hnames
    · exact .leftover _ hempty
  · have hsame : t.outcome (o.withNaming .optional) f = t.outcome (o.withNaming .required) f := by
      refine ht.outcome_congr rfl fun front hfront c hc => ?_
      obtain ⟨_, _, _, _, hfront'⟩ := id hfront
      have hend := not_atEnd_names hc hfront' fun hlength => hempty ⟨front, hfront, hlength⟩
      obtain ⟨_, _, _, _, hnames⟩ | ⟨tableName, methods, stop, hnames⟩ :=
        NameBlock.decode_of_not_atEnd hend o.charset
      · exact (hnames _).trans (hnames _).symm
      · exact (hnames _).trans (hnames _).symm
    rw [hsame]
    exact ⟨rfl, rfl, .same (ht.named_of_not_holdsEmptyBlock hempty)⟩

/-! ### Streams -/

/-- What is left of what was decoded from the frames given, if tables must have a name. -/
structure RequiringNames (t : DecoderTable) (frames : List Frame.Placed) (d d' : Decoded) :
    Prop where
  /-- The tables without a name are gone, and everything else is there. -/
  find?_eq : ∀ i, d'.catalog.find? i = (d.catalog.find? i).filter fun record => !record.isUnnamed
  fails_iff : ∀ i, (∃ g ∈ d'.report.failures, g.index = i) ↔
    (∃ g ∈ d.report.failures, g.index = i) ∨
      ∃ record, d.catalog.find? i = some record ∧ record.isUnnamed = true
  other_failure : ∀ g ∈ d'.report.failures, g.error ≠ .unnamedTable → g ∈ d.report.failures
  /-- Where names are missed there is a table with an empty block.  It was kept without names, or
      its frame went on behind it. -/
  unnamed_failure : ∀ g ∈ d'.report.failures, g.error = .unnamedTable →
    (∃ f ∈ frames, f.index = g.index ∧ t.HoldsEmptyBlock f.payload) ∧
      ((∃ table, d.catalog.find? g.index = some (.virtualTable table) ∧
          table.names = ⟨none, []⟩) ∨
        ∃ count, ⟨g.index, g.kind, g.offset, .leftover g.index count⟩ ∈ d.report.failures)
  not_unnamed : ∀ g ∈ d.report.failures, g.error ≠ .unnamedTable

/-- The requirement on names, for all that frames decode to. -/
theorem Registered.gather_withNaming (ht : t.Registered) {frames : List Frame.Placed}
    (hascending : frames.Pairwise fun f g => f.index < g.index) :
    t.RequiringNames frames (t.gather (o.withNaming .optional) frames)
      (t.gather (o.withNaming .required) frames) := by
  have hframe := fun f => ht.results_withNaming (o := o) f
  constructor
  -- The tables without a name are those that are gone.
  · intro i
    refine Option.ext fun record => ?_
    rw [Option.filter_eq_some_iff, find?_gather_iff hascending, find?_gather_iff hascending]
    simp only [(hframe _).2.2.eq_ok_iff, Bool.not_eq_true', ← and_assoc, exists_and_right]
  -- They are the failures that have come in addition.
  · intro i
    refine exists_failure_iff.trans ?_
    simp only [(hframe _).2.2.exists_error_iff]
    constructor
    · rintro ⟨f, hf, hindex, herror | ⟨record, hok, hunnamed⟩⟩
      · exact .inl (exists_failure_iff.2 ⟨f, hf, hindex, herror⟩)
      · exact .inr ⟨record, (find?_gather_iff hascending).2 ⟨f, hf, hindex, hok⟩, hunnamed⟩
    · rintro (hfailure | ⟨record, hrecord, hunnamed⟩)
      · obtain ⟨f, hf, hindex, herror⟩ := exists_failure_iff.1 hfailure
        exact ⟨f, hf, hindex, .inl herror⟩
      · obtain ⟨f, hf, hindex, hok⟩ := (find?_gather_iff hascending).1 hrecord
        exact ⟨f, hf, hindex, .inr ⟨record, hok, hunnamed⟩⟩
  -- Other failures are the same in both runs.
  · intro g hg hne
    obtain ⟨f, hf, e, he, rfl⟩ := mem_failures_iff.1 hg
    obtain ⟨hkind, _, hresults⟩ := hframe f
    refine mem_failures_iff.2 ⟨f, hf, e, hresults.eq_error he hne, ?_⟩
    rw [hkind]
  · intro g hg hunnamed
    obtain ⟨f, hf, e, he, rfl⟩ := mem_failures_iff.1 hg
    obtain ⟨hkind, _, hresults⟩ := hframe f
    obtain rfl : e = .unnamedTable := hunnamed
    -- A missing name hides a table, or another failure of the frame.
    obtain ⟨hempty, ⟨table, hok, hnames⟩ | ⟨count, hleftover⟩⟩ := hresults.of_unnamedTable he
    · exact ⟨⟨f, hf, rfl, hempty⟩,
        .inl ⟨table, (find?_gather_iff hascending).2 ⟨f, hf, rfl, hok⟩, hnames⟩⟩
    · refine ⟨⟨f, hf, rfl, hempty⟩, .inr ⟨count, ?_⟩⟩
      refine mem_failures_iff.2 ⟨f, hf, _, hleftover, ?_⟩
      rw [hkind]
  · intro g hg
    obtain ⟨f, hf, e, he, rfl⟩ := mem_failures_iff.1 hg
    exact (hframe f).2.2.ne_unnamedTable he

/-- What a lenient run makes of a stream if tables must have a name, next to what it makes of it if
    they need not. -/
theorem readStream_withNaming (ht : t.Registered) (hvalid : o.validate = .ok ())
    (hstrict : o.strict = false) {stream tail : List UInt8} {payloads : List (List UInt8)}
    (hsplits : Frame.Splits stream payloads tail)
    (hbound : o.firstIndex.toNat + payloads.length ≤ UInt32.size)
    {σ : Type} [Collector σ] (collector : σ) :
    SameFate (t.RequiringNames (Frame.place o.firstIndex 0 payloads))
        (t.readStream (o.withNaming .optional) stream collector).1
        (t.readStream (o.withNaming .required) stream collector).1 ∧
      (t.readStream (o.withNaming .optional) stream collector).2 =
        (t.readStream (o.withNaming .required) stream collector).2 := by
  have hvalid' : ∀ naming, (o.withNaming naming).validate = .ok () := fun _ => hvalid
  exact readStream_sameFate_of_lenient collector (hvalid' .optional) (hvalid' .required) hstrict
    hstrict hsplits rfl rfl (fun f _ => (ht.results_withNaming f).2.1)
    (ht.gather_withNaming (Frame.pairwise_place hbound 0))

/-- Two tables with empty name blocks, and the second with bytes left over. -/
theorem readStream_withNaming_two_tables :
    let o : Options := {}
    let table : List UInt8 := [0x1d, 0x15, 0x74, 0, 0, 0, 0, 0, 0, 0, 0, 0, 0, 0, 0, 0, 0, 0]
    let stream : List UInt8 := [18, 0] ++ table ++ [22, 0] ++ table ++ [0, 0, 0, 0]
    let start : Array Reference := #[]
    standard.Registered ∧ o.validate = .ok () ∧ o.strict = false ∧
      (standard.readStream (o.withNaming .required) stream start).2 =
        #[⟨⟨0x1000⟩, ⟨0x74⟩⟩, ⟨⟨0x1000⟩, .none⟩, ⟨⟨0x1001⟩, ⟨0x74⟩⟩, ⟨⟨0x1001⟩, .none⟩] ∧
      ∃ d d', (standard.readStream (o.withNaming .optional) stream start).1 = .ok d ∧
        (standard.readStream (o.withNaming .required) stream start).1 = .ok d' ∧
        standard.RequiringNames (Frame.place o.firstIndex 0 [table, table ++ [0, 0, 0, 0]]) d d' ∧
        d.catalog.find? ⟨0x1000⟩ = some (.virtualTable ⟨⟨0x74⟩, ⟨0⟩, 0, ⟨none, []⟩⟩) ∧
        d.report.failures = [⟨⟨0x1001⟩, some 0x151d, 20, .leftover ⟨0x1001⟩ 4⟩] ∧
        d'.catalog.find? ⟨0x1000⟩ = none ∧
        d'.report.failures = [⟨⟨0x1000⟩, some 0x151d, 0, .unnamedTable⟩,
          ⟨⟨0x1001⟩, some 0x151d, 20, .unnamedTable⟩] := by
  intro o table stream start
  have hvalid : o.validate = .ok () := Options.validate_eq_ok_iff.2 (by decide)
  have hvalid' : ∀ naming, (o.withNaming naming).validate = .ok () := fun _ => hvalid
  have hsplits : Frame.Splits stream [table, table ++ [0, 0, 0, 0]] [] :=
    ⟨by decide, by decide, trivial⟩
  obtain ⟨hfate, hedges⟩ :=
    readStream_withNaming .standard hvalid rfl hsplits (by decide) start
  refine ⟨.standard, hvalid, rfl, hedges.symm.trans (by decide +kernel), ?_⟩
  rw [readStream_eq start (hvalid' _) hsplits, readStream_eq start (hvalid' _) hsplits] at hfate ⊢
  cases hfate with
  | ok hnames =>
    exact ⟨_, _, rfl, rfl, hnames, by decide +kernel, by decide +kernel, by decide +kernel,
      by decide +kernel⟩

end DecoderTable

end TypeStream
