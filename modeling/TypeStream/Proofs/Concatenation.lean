import TypeStream.Proofs.ShiftedFrames

/-!
# Streams one behind the other

Decoding two streams written one behind the other is decoding the first, and then the second with
the numbering going on where the first ended.  Where records share an index the second stream wins,
and what its failures and errors tell about offsets moves by the length of the first.

The first stream must be decoded to its end and must keep to the alignment, so that padding in the
second falls on the same bytes.

## Key results

- `Catalog.find?_override`: which records are found after two streams
- `DecoderTable.gather_append`: what frames decode to, in two parts
- `DecoderTable.readStream_append`: decoding two streams in a row
-/

namespace TypeStream

variable {o : Options}

/-! ### Two catalogs -/

namespace Catalog

/-- The records of both catalogs; where both have one, that of the second. -/
def override (c c' : Catalog) : Catalog := c.insertAll c'.entries

/-- Storing the records of a catalog in a new one finds them again. -/
theorem lookup_reverse_entries (c : Catalog) (i : TypeIndex) :
    c.entries.reverse.lookup i = c.find? i := by
  -- The entries ascend, so inserting them one by one lists them in their order.
  have hentries : ((empty c.placeholders).insertAll c.entries).entries = [] ++ c.entries := by
    apply entries_insertAll
    · exact c.records.ascending
    · exact nofun
  have hnone : (empty c.placeholders).find? i = none := rfl
  calc c.entries.reverse.lookup i
      = ((empty c.placeholders).insertAll c.entries).find? i := by
        rw [find?_insertAll, hnone, Option.or_none]
    _ = OrderedMap.findEntry i ((empty c.placeholders).insertAll c.entries).entries := rfl
    _ = c.find? i := by
      rw [hentries]
      rfl

/-- The overriding catalog is asked first. -/
theorem find?_override (c c' : Catalog) (i : TypeIndex) :
    (c.override c').find? i = (c'.find? i).or (c.find? i) := by
  unfold override
  rw [find?_insertAll, lookup_reverse_entries]

/-- Catalogs that are rendered in the same way and have the same records are equal. -/
theorem ext_find? {c c' : Catalog} (hplaceholders : c.placeholders = c'.placeholders)
    (h : ∀ i, c.find? i = c'.find? i) : c = c' := by
  obtain ⟨records, placeholders⟩ := c
  obtain ⟨records', placeholders'⟩ := c'
  have hrecords : records = records' := OrderedMap.ext_find? h
  have hplaceholders' : placeholders = placeholders' := hplaceholders
  rw [hrecords, hplaceholders']

/-- Storing records in two parts is storing each part, and then overriding. -/
theorem insertAll_append (placeholders : Bool) (before after : List (TypeIndex × Record)) :
    (empty placeholders).insertAll (before ++ after) =
      ((empty placeholders).insertAll before).override ((empty placeholders).insertAll after) := by
  apply ext_find?
  · unfold override
    simp only [placeholders_insertAll]
  · intro i
    have hnone : (empty placeholders).find? i = none := rfl
    rw [find?_override, find?_insertAll, find?_insertAll, find?_insertAll, List.reverse_append,
      List.lookup_append, hnone, Option.or_none, Option.or_none, Option.or_none]

end Catalog

/-! ### Two runs -/

namespace Decoded

/-- What two streams decode to, one behind the other, where the first is `d` bytes long. -/
def append (d : Nat) (first second : Decoded) : Decoded where
  catalog := first.catalog.override second.catalog
  report :=
    { decoded := first.report.decoded + second.report.decoded
      unknown := first.report.unknown + second.report.unknown
      failures := first.report.failures ++ second.report.failures.map (Failure.shift d) }

/-- The result of a stream of `d` bytes that has been decoded, and of another one behind it. -/
def andThen (d : Nat) (first : Decoded) : Except Error Decoded → Except Error Decoded
  | .ok second => .ok (first.append d second)
  | .error e => .error (e.shift d)

/-- A second part that an error has ended ends the whole, with the offsets of the whole. -/
theorem andThen_unless (d : Nat) (first second : Decoded) (e? : Option Error) :
    first.andThen d (second.unless e?) =
      (first.append d second).unless (e?.map (Error.shift d)) := by
  cases e? <;> rfl

end Decoded

/-- The options with another first index. -/
def Options.numberedFrom (o : Options) (firstIndex : TypeIndex) : Options := { o with firstIndex }

/-- A stream of complete frames and another one behind it are cut where each of them is. -/
theorem Frame.Splits.append {first second tail : List UInt8}
    {payloads payloads' : List (List UInt8)} (h : Splits first payloads [])
    (h' : Splits second payloads' tail) :
    Splits (first ++ second) (payloads ++ payloads') tail := by
  refine ⟨?_, ?_, h'.incomplete⟩
  · rw [h.bytes_eq, h'.bytes_eq, List.append_nil, List.flatMap_append, List.append_assoc]
  · intro payload hpayload
    rcases List.mem_append.1 hpayload with hmem | hmem
    · exact h.length_le payload hmem
    · exact h'.length_le payload hmem

namespace DecoderTable

variable {t : DecoderTable} {before after : List Frame.Placed}

/-- What frames decode to is what those in front decode to, and then the others. -/
theorem gather_append (ht : t.Registered) {d : Nat} (halign : o.alignment ∣ d) :
    t.gather o (before ++ after.map (Frame.Placed.shift d)) =
      (t.gather o before).append d (t.gather o after) := by
  unfold gather Decoded.append
  rw [records_append, failures_append, ht.records_shift halign, ht.failures_shift halign,
    Catalog.insertAll_append, List.countP_append, List.countP_append]

/-- Numbering from a later record on is valid where numbering from the first one is. -/
theorem validate_numberedFrom (hvalid : o.validate = .ok ()) (n : Nat) :
    (o.numberedFrom (o.firstIndex.nth n)).validate = .ok () := by
  obtain ⟨halignment, hfirst⟩ := Options.validate_eq_ok_iff.1 hvalid
  refine Options.validate_eq_ok_iff.2 ⟨halignment, ?_⟩
  intro hnone
  -- Numbering only goes up, so it comes to index `0` only from there.
  apply hfirst
  have hzero : min (o.firstIndex.toNat + n) (UInt32.size - 1) = 0 := by
    rw [← TypeIndex.toNat_nth]
    exact congrArg TypeIndex.toNat hnone
  apply TypeIndex.toNat_inj.1
  show o.firstIndex.toNat = 0
  simp only [UInt32.size] at hzero
  omega

variable {σ : Type} [Collector σ]

/-- With another first index the same frames are decoded, under other indices. -/
theorem Registered.readStream_numberedFrom (ht : t.Registered) (collector : σ) {index : TypeIndex}
    {stream tail : List UInt8} {payloads : List (List UInt8)}
    (hvalid : (o.numberedFrom index).validate = .ok ())
    (hsplits : Frame.Splits stream payloads tail) :
    t.readStream (o.numberedFrom index) stream collector =
      ((t.gather o (Frame.place index 0 payloads)).unless
        ((t.refusal? o (Frame.place index 0 payloads)).or
          (Frame.tailError? (payloads.flatMap Frame.encode).length tail)),
      Collector.noteAll collector
        (t.references o (t.reached o (Frame.place index 0 payloads)))) := by
  have houtcome : t.outcome (o.numberedFrom index) = t.outcome o := ht.outcome_eq ⟨rfl, rfl, rfl⟩
  rw [readStream_eq collector hvalid hsplits, references_congr houtcome,
    reached_congr houtcome rfl, refusal?_congr houtcome rfl, gather_congr houtcome rfl]
  rfl

/-- Decoding two streams in a row, where the first keeps to the alignment and is decoded.  The
    second is decoded as if it stood alone, with the numbering going on behind the frames of the
    first; its failures and its error move along, and its references come behind those of the
    first. -/
theorem readStream_append (ht : t.Registered) {first : List UInt8} {d : Decoded} {start : σ}
    (halign : o.alignment ∣ first.length) (h : (t.readStream o first start).1 = .ok d)
    (second : List UInt8) :
    ∃ payloads edges edges' result, Frame.Splits first payloads [] ∧
      ∀ (τ : Type) [Collector τ] (collector : τ),
        t.readStream o first collector = (.ok d, Collector.noteAll collector edges) ∧
        t.readStream (o.numberedFrom (o.firstIndex.nth payloads.length)) second collector =
          (result, Collector.noteAll collector edges') ∧
        t.readStream o (first ++ second) collector =
          (d.andThen first.length result, Collector.noteAll collector (edges ++ edges')) := by
  obtain ⟨hvalid, payloads, hfirst, hrefusal, rfl⟩ := exists_of_readStream_ok start h
  have hsecond := Frame.splits_split second
  generalize (Frame.split second).1 = payloads', (Frame.split second).2 = tail at hsecond
  have hlength : (payloads.flatMap Frame.encode).length = first.length := by
    rw [hfirst.bytes_eq, List.append_nil]
  -- The frames of the second stream are those that it has alone, only further on.
  have hframes : Frame.place o.firstIndex 0 (payloads ++ payloads') =
      Frame.place o.firstIndex 0 payloads ++
        (Frame.place (o.firstIndex.nth payloads.length) 0 payloads').map
          (Frame.Placed.shift first.length) := by
    rw [Frame.place_append, ← Frame.place_shift, hlength]
  have htail : Frame.tailError? ((payloads ++ payloads').flatMap Frame.encode).length tail =
      (Frame.tailError? (payloads'.flatMap Frame.encode).length tail).map
        (Error.shift first.length) := by
    rw [List.flatMap_append, List.length_append, hlength, Nat.add_comm, Frame.tailError?_shift]
  -- The first run ends without an error, so it has reached all of its frames.
  have hread : ∀ (τ : Type) [Collector τ] (collector : τ), t.readStream o first collector =
      (.ok (t.gather o (Frame.place o.firstIndex 0 payloads)), Collector.noteAll collector
        (t.references o (t.reached o (Frame.place o.firstIndex 0 payloads)))) := by
    intro τ _ collector
    rw [readStream_eq collector hvalid hfirst, hrefusal]
    rfl
  have hread' := fun (τ : Type) [Collector τ] (collector : τ) =>
    ht.readStream_numberedFrom collector (validate_numberedFrom hvalid payloads.length) hsecond
  refine ⟨payloads, _, _, _, hfirst, fun τ _ collector =>
    ⟨hread τ collector, hread' τ collector, ?_⟩⟩
  rw [readStream_eq collector hvalid (hfirst.append hsecond), hframes, htail,
    refusal?_append hrefusal, reached_append hrefusal, references_append,
    gather_append ht halign, ht.refusal?_shift halign, ht.references_reached_shift halign,
    ← Option.map_or, ← Decoded.andThen_unless]

/-- An empty frame and an unknown record, and behind them a table that is cut short.  The failure
    of the table tells of an offset in the second stream, moved by the eight bytes of the first. -/
theorem readStream_append_two_failures :
    let o : Options := {}
    let first : List UInt8 := [0, 0, 4, 0, 1, 0, 9, 9]
    let second : List UInt8 := [6, 0, 0x1d, 0x15, 0x74, 0, 0, 0]
    standard.Registered ∧ o.alignment ∣ first.length ∧
      (∃ d, (standard.readStream o first (#[] : Array Reference)).1 = .ok d) ∧
      ∃ d, standard.readStream o (first ++ second) (#[] : Array Reference) =
          (.ok d, #[⟨⟨0x1002⟩, ⟨0x74⟩⟩]) ∧
        d.catalog.entries = [(⟨0x1001⟩, .unknown 1 [9, 9])] ∧
        d.report = ⟨0, 1, [⟨⟨0x1000⟩, none, 0, .truncated "u16" 2 2 0⟩,
          ⟨⟨0x1002⟩, some 0x151d, 8, .truncated "u32" 16 4 0⟩]⟩ := by
  intro o first second
  have hvalid : o.validate = .ok () := Options.validate_eq_ok_iff.2 (by decide)
  have halign : o.alignment ∣ first.length := by decide
  have hfirst : Frame.Splits first [[], [1, 0, 9, 9]] [] := ⟨by decide, by decide, trivial⟩
  have hsecond : Frame.Splits second [second.drop 2] [] := ⟨by decide, by decide, trivial⟩
  have hread := readStream_eq (t := standard) (#[] : Array Reference) hvalid hfirst
  obtain ⟨payloads, edges, edges', result, hcut, hall⟩ :=
    readStream_append .standard halign (congrArg Prod.fst hread) second
  -- The pieces of the first stream are the only ones that it can be cut into.
  obtain ⟨rfl, _⟩ := Prod.mk.inj (hcut.eq_split.symm.trans hfirst.eq_split)
  obtain ⟨hread₁, _, hboth⟩ := hall _ (#[] : Array Reference)
  obtain ⟨_, hread₂, _⟩ := hall _ (Collector.noteAll (#[] : Array Reference) edges)
  rw [readStream_eq _ (validate_numberedFrom hvalid _) hsecond] at hread₂
  obtain ⟨rfl, hedges'⟩ := Prod.mk.inj hread₂
  have hedges := (Prod.mk.inj (hread.symm.trans hread₁)).2
  -- The references of both runs are known, so those of the run over both streams are.
  have hreported : Collector.noteAll #[] (edges ++ edges') =
      (#[⟨⟨0x1002⟩, ⟨0x74⟩⟩] : Array Reference) := by
    rw [Collector.noteAll_append, ← hedges', ← hedges]
    decide +kernel
  rw [hreported] at hboth
  exact ⟨.standard, halign, ⟨_, congrArg Prod.fst hread⟩, _, hboth, by decide +kernel,
    by decide +kernel⟩

end DecoderTable

end TypeStream
