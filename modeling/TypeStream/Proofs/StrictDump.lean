import TypeStream.Proofs.OwnIndices
import TypeStream.Proofs.PrintedOutput
import TypeStream.Proofs.StrictStream

/-!
# Strict dumps

Being strict makes a difference to a dump in two places: the first record that cannot be decoded
ends it before anything is printed, and the first one that cannot be rendered ends it behind the
lines of the records in front.  Where neither happens the dump is the lenient one, and where one
does it has printed the first lines of the lenient one.

## Key results

- `recordLines_cases`: the lines that a strict dump prints, up to the first error
- `dumps_compared`: the two dumps of a stream, by what goes wrong
- `dump_strict`: what the strict dump prints, when it fails, and with what
-/

namespace TypeStream

/-! ### Records in order -/

namespace Catalog

variable {c : Catalog} {i : TypeIndex}

/-- An index is rendered without an error. -/
def Renders (c : Catalog) (i : TypeIndex) : Prop := ∃ text, c.render i = .ok text

/-- The indices of a catalog ascend. -/
theorem pairwise_indices (c : Catalog) : c.indices.Pairwise (· < ·) :=
  List.pairwise_map.2 c.records.ascending

/-- The indices in front of one are those that are smaller. -/
theorem filter_indices_lt {before after : List TypeIndex} (h : c.indices = before ++ i :: after) :
    c.indices.filter (· < i) = before := by
  have hascending := c.pairwise_indices
  rw [h] at hascending ⊢
  -- What stands in front of the index is smaller, and the index and what stands behind are not.
  obtain ⟨_, hrest, hbefore⟩ := List.pairwise_append.1 hascending
  have hsmaller : before.filter (· < i) = before := by
    apply List.filter_eq_self.2
    intro j hj
    exact decide_eq_true (hbefore j hj i List.mem_cons_self)
  have hnot : (i :: after).filter (· < i) = [] := by
    apply List.filter_eq_nil_iff.2
    intro j hj hlt
    have hlt : j.toNat < i.toNat := of_decide_eq_true hlt
    rcases List.mem_cons.1 hj with rfl | hj
    · omega
    · have hgreater : i.toNat < j.toNat := (List.pairwise_cons.1 hrest).1 j hj
      omega
  rw [List.filter_append, hsmaller, hnot, List.append_nil]

end Catalog

namespace CommandLine

open Output (textOfLines)

/-- The lines of records, with a remark in each line of one that cannot be rendered. -/
def allLines (c : Catalog) (indices : List TypeIndex) : List String :=
  indices.map fun i => recordLine i (c.render i)

/-- The remarks of a dump that succeeds. -/
def dumpRemarks (d : Decoded) : List String :=
  d.report.failures.map ("skipped " ++ ·.text) ++ [summary d]

/-- The lines of records that are rendered hold their texts. -/
theorem exists_texts_of_renders {c : Catalog} {indices : List TypeIndex}
    (h : ∀ j ∈ indices, c.Renders j) :
    ∃ texts : TypeIndex → String, (∀ j ∈ indices, c.render j = .ok (texts j)) ∧
      allLines c indices = indices.map fun j => j.text ++ ": " ++ texts j := by
  have htexts : ∀ j ∈ indices, c.render j = .ok ((c.render j).toOption.getD "") := by
    intro j hj
    obtain ⟨text, htext⟩ := h j hj
    rw [htext]
    rfl
  refine ⟨fun j => (c.render j).toOption.getD "", htexts, List.map_congr_left fun j hj => ?_⟩
  rw [htexts j hj]
  rfl

/-- A lenient dump prints the lines of all records. -/
theorem recordLines_lenient (c : Catalog) (indices : List TypeIndex) :
    recordLines false c indices = (allLines c indices, none) := by
  induction indices with
  | nil => rfl
  | cons i rest ih => simp only [recordLines, ih, allLines, List.map_cons]

/-- A strict dump prints the lines of all records, or those in front of the first one that cannot
    be rendered. -/
theorem recordLines_cases (c : Catalog) (indices : List TypeIndex) :
    (∀ i ∈ indices, c.Renders i) ∧ recordLines true c indices = (allLines c indices, none) ∨
      ∃ before i after e, indices = before ++ i :: after ∧ (∀ j ∈ before, c.Renders j) ∧
        c.render i = .error e ∧ recordLines true c indices = (allLines c before, some e) := by
  induction indices with
  | nil => exact .inl ⟨nofun, rfl⟩
  -- A record that does not render ends the lines, or is followed by what the rest prints.
  | cons i rest ih =>
    cases hrender : c.render i with
    | error e =>
      refine .inr ⟨[], i, rest, e, rfl, nofun, hrender, ?_⟩
      simp only [recordLines, hrender, allLines, List.map_nil]
    | ok text =>
      -- The line is printed, and the rest decides how it goes on.
      have hfirst : ∀ {js}, (∀ j ∈ js, c.Renders j) → ∀ j ∈ i :: js, c.Renders j :=
        fun hjs => List.forall_mem_cons.2 ⟨⟨text, hrender⟩, hjs⟩
      obtain ⟨hall, hlines⟩ | ⟨before, k, after, e, hrest, hbefore, he, hlines⟩ := ih
      · refine .inl ⟨hfirst hall, ?_⟩
        simp only [recordLines, hrender, hlines, allLines, List.map_cons]
      · refine .inr ⟨i :: before, k, after, e, by rw [hrest]; rfl, hfirst hbefore, he, ?_⟩
        simp only [recordLines, hrender, hlines, allLines, List.map_cons]

/-- The owner of the table is not there, so the shape behind it is not printed either. -/
example :
    let table : VirtualTable := ⟨⟨0x2000⟩, .none, 0, ⟨none, []⟩⟩
    let c := (((Catalog.empty false).insert ⟨0x1000⟩ (.tableShape ⟨[.near]⟩)).insert ⟨0x1001⟩
      (.virtualTable table)).insert ⟨0x1002⟩ (.tableShape ⟨[.far]⟩)
    recordLines true c c.indices =
      (["0x1000: VTShape: \x7bnear\x7d"], some (.unresolved ⟨0x2000⟩)) := by
  decide +kernel

/-! ### One dump -/

section Dump

variable {o : Options} {stream : List UInt8} {d : Decoded} {lines : List String} {e : Error}

/-- A dump of a stream that is not decoded prints nothing. -/
theorem dump_of_error (h : (DecoderTable.standard.readStream o stream ()).1 = .error e) :
    dump o stream = ⟨[], [], some e⟩ := by
  simp only [dump, h]

/-- A dump whose records are all printed ends with its remarks. -/
theorem dump_of_lines (h : (DecoderTable.standard.readStream o stream ()).1 = .ok d)
    (hlines : recordLines o.strict d.catalog d.catalog.indices = (lines, none)) :
    dump o stream = ⟨lines, dumpRemarks d, none⟩ := by
  unfold Catalog.indices at hlines
  simp only [dump, h, hlines, dumpRemarks]

/-- A dump that stops at a record has printed the lines in front of it. -/
theorem dump_of_lines_error (h : (DecoderTable.standard.readStream o stream ()).1 = .ok d)
    (hlines : recordLines o.strict d.catalog d.catalog.indices = (lines, some e)) :
    dump o stream = ⟨lines, [], some e⟩ := by
  unfold Catalog.indices at hlines
  simp only [dump, h, hlines]

end Dump

/-! ### The two dumps of a stream -/

/-- The lenient and the strict dump of a stream, by what the lenient run makes of it. -/
inductive Compared (decoded : Except Error Decoded) : Output → Output → Prop
  /-- The stream is not decoded at all. -/
  | notDecoded {e e'} : decoded = .error e → Compared decoded ⟨[], [], some e⟩ ⟨[], [], some e'⟩
  /-- A record is not decoded. -/
  | failure {d g rest} : decoded = .ok d → d.report.failures = g :: rest →
      Compared decoded ⟨allLines d.catalog d.catalog.indices, dumpRemarks d, none⟩
        ⟨[], [], some g.error⟩
  /-- All records are decoded, and one of them is not rendered. -/
  | notRendered {d before i after e} : decoded = .ok d → d.report.failures = [] →
      d.catalog.indices = before ++ i :: after → (∀ j ∈ before, d.catalog.Renders j) →
      d.catalog.render i = .error e →
      Compared decoded ⟨allLines d.catalog d.catalog.indices, dumpRemarks d, none⟩
        ⟨allLines d.catalog before, [], some e⟩
  /-- All records are decoded and rendered. -/
  | same {d} : decoded = .ok d → d.report.failures = [] →
      (∀ i ∈ d.catalog.indices, d.catalog.Renders i) →
      Compared decoded ⟨allLines d.catalog d.catalog.indices, dumpRemarks d, none⟩
        ⟨allLines d.catalog d.catalog.indices, dumpRemarks d, none⟩

/-- The two dumps of any stream compare in one of these four ways. -/
theorem dumps_compared (o : Options) (stream : List UInt8) :
    Compared (DecoderTable.standard.readStream (o.withStrict false) stream ()).1
      (dump (o.withStrict false) stream) (dump (o.withStrict true) stream) := by
  cases hdecoded : (DecoderTable.standard.readStream (o.withStrict false) stream ()).1 with
  | error e =>
    -- The strict run may fail with another error, but not later.
    obtain ⟨e', he'⟩ := DecoderTable.Registered.standard.exists_error_of_lenient () hdecoded
    rw [dump_of_error hdecoded, dump_of_error he']
    exact .notDecoded rfl
  | ok d =>
    have hstrict := DecoderTable.Registered.standard.readStream_strict_of_lenient () hdecoded
    rw [dump_of_lines hdecoded (recordLines_lenient _ _)]
    cases hfailures : d.report.failures with
    | cons g rest =>
      rw [hfailures] at hstrict
      rw [dump_of_error hstrict]
      exact .failure rfl hfailures
    | nil =>
      rw [hfailures] at hstrict
      -- Both runs have decoded the same, so they print the same up to the first error.
      obtain ⟨hall, hlines⟩ | ⟨before, i, after, e, hindices, hbefore, he, hlines⟩ :=
        recordLines_cases d.catalog d.catalog.indices
      · rw [dump_of_lines hstrict hlines]
        exact .same rfl hfailures hall
      · rw [dump_of_lines_error hstrict hlines]
        exact .notRendered rfl hfailures hindices hbefore he

namespace Compared

variable {decoded : Except Error Decoded} {lenient strict : Output} {d : Decoded} {e : Error}
  (h : Compared decoded lenient strict)
include h

/-- The strict dump has printed the first lines of the lenient one. -/
theorem lines_prefix : strict.lines <+: lenient.lines := by
  cases h with
  | notDecoded => exact List.prefix_rfl
  | failure => exact List.nil_prefix
  | notRendered _ _ hindices =>
    rw [hindices]
    simp only [allLines, List.map_append]
    exact List.prefix_append _ _
  | same => exact List.prefix_rfl

/-- The lenient dump fails with the stream. -/
theorem lenient_failure_iff : lenient.failure = some e ↔ decoded = .error e := by
  cases h with
  | notDecoded hdecoded => rw [hdecoded, Option.some.injEq, Except.error.injEq]
  | failure hdecoded | notRendered hdecoded | same hdecoded =>
    rw [hdecoded]
    exact iff_of_false nofun nofun

/-- Neither dump prints anything of a stream that is not decoded. -/
theorem silent (he : decoded = .error e) :
    lenient.Fails "" e ∧ ∃ e', strict.Fails "" e' := by
  cases h with
  | notDecoded hdecoded =>
    obtain rfl := Except.error.inj (hdecoded.symm.trans he)
    exact ⟨Output.fails_of_lines [] _, _, Output.fails_of_lines [] _⟩
  | failure hdecoded | notRendered hdecoded | same hdecoded =>
    exact nomatch hdecoded.symm.trans he

/-- The lenient dump prints the lines of all records that are decoded. -/
theorem lenient_succeeds (hd : decoded = .ok d) :
    lenient.Succeeds (textOfLines (allLines d.catalog d.catalog.indices))
      (textOfLines (dumpRemarks d)) := by
  cases h with
  | notDecoded hdecoded => exact nomatch hdecoded.symm.trans hd
  | failure hdecoded | notRendered hdecoded | same hdecoded =>
    obtain rfl := Except.ok.inj (hdecoded.symm.trans hd)
    exact Output.succeeds_of_lines _ _

/-- The strict dump succeeds exactly if every record is decoded and rendered. -/
theorem strict_succeeds_iff : strict.failure = none ↔ ∃ d, decoded = .ok d ∧
    d.report.failures = [] ∧ ∀ i ∈ d.catalog.indices, d.catalog.Renders i := by
  cases h with
  -- In the first three cases the strict dump has failed.
  | notDecoded hdecoded =>
    refine iff_of_false nofun ?_
    rintro ⟨d, hd, _⟩
    exact nomatch hdecoded.symm.trans hd
  | failure hdecoded hfailures =>
    refine iff_of_false nofun ?_
    rintro ⟨d, hd, hnil, _⟩
    obtain rfl := Except.ok.inj (hdecoded.symm.trans hd)
    exact nomatch hfailures.symm.trans hnil
  | notRendered hdecoded _ hindices _ hrender =>
    refine iff_of_false nofun ?_
    rintro ⟨d, hd, _, hall⟩
    obtain rfl := Except.ok.inj (hdecoded.symm.trans hd)
    rw [hindices] at hall
    obtain ⟨text, htext⟩ := hall _ (List.mem_append_right _ List.mem_cons_self)
    exact nomatch hrender.symm.trans htext
  | same hdecoded hfailures hall => exact iff_of_true rfl ⟨_, hdecoded, hfailures, hall⟩

/-- Where the strict dump succeeds it makes no difference to be strict. -/
theorem strict_succeeds (hnone : strict.failure = none) :
    strict.Succeeds lenient.standardOutput lenient.standardError := by
  cases h with
  | notDecoded | failure | notRendered => exact nomatch hnone
  | same => exact ⟨rfl, rfl, rfl, rfl⟩

/-- What fails the strict dump of a stream that is decoded, and what it has printed by then. -/
theorem strict_failure (hd : decoded = .ok d) (he : strict.failure = some e) :
    (∃ g rest, d.report.failures = g :: rest ∧ e = g.error ∧ strict.Fails "" e) ∨
      d.report.failures = [] ∧ ∃ i ∈ d.catalog.indices, d.catalog.render i = .error e ∧
        ∃ texts : TypeIndex → String,
          (∀ j ∈ d.catalog.indices, j < i → d.catalog.render j = .ok (texts j)) ∧
          strict.Fails (String.join ((d.catalog.indices.filter (· < i)).map fun j =>
            j.text ++ ": " ++ texts j ++ "\n")) e := by
  cases h with
  | notDecoded hdecoded => exact nomatch hdecoded.symm.trans hd
  -- The failure is the one of the first frame that did not decode, and nothing is printed.
  | failure hdecoded hfailures =>
    obtain rfl := Except.ok.inj (hdecoded.symm.trans hd)
    obtain rfl := Option.some.inj he
    exact .inl ⟨_, _, hfailures, rfl, Output.fails_of_lines [] _⟩
  | notRendered hdecoded hfailures hindices hbefore hrender =>
    obtain rfl := Except.ok.inj (hdecoded.symm.trans hd)
    obtain rfl := Option.some.inj he
    obtain ⟨texts, htexts, hlines⟩ := exists_texts_of_renders hbefore
    have hsmaller := Catalog.filter_indices_lt hindices
    refine .inr ⟨hfailures, _, ?_, hrender, texts, ?_, ?_⟩
    · rw [hindices]
      exact List.mem_append_right _ List.mem_cons_self
    · intro j hj hlt
      apply htexts
      rw [← hsmaller]
      exact List.mem_filter.2 ⟨hj, decide_eq_true hlt⟩
    · -- What was printed are the lines of the smaller indices.
      rw [hsmaller, ← Output.textOfLines_map fun j => j.text ++ ": " ++ texts j, ← hlines]
      exact Output.fails_of_lines _ _
  | same => exact nomatch he

end Compared

/-- Strict and lenient dumps of one stream print the same up to the first problem.  The lenient one
    fails only with its options or because the stream is no sequence of frames, and then both print
    nothing; otherwise it prints the lines of all records.  The strict one succeeds exactly if there
    is no problem, and then it prints what the lenient one does.  Otherwise it fails with the error
    of the first record that cannot be decoded, having printed nothing, or, where all of them can,
    with that of the smallest index that cannot be rendered, having printed the texts of all smaller
    ones. -/
theorem dump_strict (o : Options) (stream : List UInt8) :
    let decoded := (DecoderTable.standard.readStream (o.withStrict false) stream ()).1
    let lenient := dump (o.withStrict false) stream
    let strict := dump (o.withStrict true) stream
    (∃ rest, lenient.standardOutput = strict.standardOutput ++ rest) ∧
      (∀ e, lenient.failure = some e ↔ decoded = .error e) ∧
      ((∃ e, decoded = .error e) ↔
        (∃ e, o.validate = .error e) ∨ (Frame.split stream).2 ≠ []) ∧
      (∀ e, decoded = .error e → lenient.Fails "" e ∧ ∃ e', strict.Fails "" e') ∧
      (∀ d, decoded = .ok d → lenient.Succeeds
        (String.join (d.catalog.indices.map fun i => recordLine i (d.catalog.render i) ++ "\n"))
        (textOfLines (dumpRemarks d))) ∧
      (strict.failure = none ↔ ∃ d, decoded = .ok d ∧ d.report.failures = [] ∧
        ∀ i ∈ d.catalog.indices, d.catalog.Renders i) ∧
      (strict.failure = none → strict.Succeeds lenient.standardOutput lenient.standardError) ∧
      ∀ d e, decoded = .ok d → strict.failure = some e →
        (∃ g rest, d.report.failures = g :: rest ∧ e = g.error ∧ strict.Fails "" e) ∨
        d.report.failures = [] ∧ ∃ i ∈ d.catalog.indices, d.catalog.render i = .error e ∧
          ∃ texts : TypeIndex → String,
            (∀ j ∈ d.catalog.indices, j < i → d.catalog.render j = .ok (texts j)) ∧
            strict.Fails (String.join ((d.catalog.indices.filter (· < i)).map fun j =>
              j.text ++ ": " ++ texts j ++ "\n")) e := by
  intro decoded lenient strict
  have hcompared : Compared decoded lenient strict := dumps_compared o stream
  refine ⟨?_, fun e => hcompared.lenient_failure_iff, DecoderTable.exists_error_of_lenient_iff (),
    fun e => hcompared.silent, fun d hd => ?_, hcompared.strict_succeeds_iff,
    hcompared.strict_succeeds, fun d e => hcompared.strict_failure⟩
  · obtain ⟨rest, hrest⟩ := hcompared.lines_prefix
    refine ⟨textOfLines rest, ?_⟩
    rw [Output.standardOutput, ← hrest, Output.textOfLines_append]
    rfl
  · rw [← Output.textOfLines_map fun i => recordLine i (d.catalog.render i)]
    exact hcompared.lenient_succeeds hd

/-- The owner of the table is not there.  The strict dump ends in front of its line, and the lenient
    one goes on to the shape behind it. -/
theorem dump_strict_missing_owner :
    let stream : List UInt8 := [6, 0, 0x0a, 0, 1, 0, 5, 0, 18, 0, 0x1d, 0x15, 0, 0x20, 0, 0, 0, 0,
      0, 0, 0, 0, 0, 0, 0, 0, 0, 0, 6, 0, 0x0a, 0, 1, 0, 1, 0]
    let first := "0x1000: VTShape: \x7bnear32\x7d\n"
    let all := first ++ "0x1001: <error: Unresolved reference to record 0x2000>\n" ++
      "0x1002: VTShape: \x7bfar\x7d\n"
    (dump {} stream).Succeeds all "3 records (3 decoded, 0 unknown, 0 failed)\n" ∧
      (dump { strict := true } stream).Fails first (.unresolved ⟨0x2000⟩) := by
  intro stream first all
  obtain ⟨_, hfails, _, _, hlenient, _, _, hstrict⟩ := dump_strict {} stream
  have hnone : (dump {} stream).failure = none := by decide +kernel
  have hsome : (dump { strict := true } stream).failure = some (.unresolved ⟨0x2000⟩) := by
    decide +kernel
  -- The lenient run decodes, since its dump does not fail.
  cases hread : (DecoderTable.standard.readStream {} stream ()).1 with
  | error e =>
    have hfailure : (dump {} stream).failure = some e := (hfails e).2 hread
    exact nomatch hnone.symm.trans hfailure
  | ok d =>
    constructor
    · have hprinted : (dump {} stream).Succeeds _ _ := hlenient d hread
      have hall : (dump {} stream).standardOutput = all := by decide +kernel
      have hsummary : (dump {} stream).standardError =
          "3 records (3 decoded, 0 unknown, 0 failed)\n" := by decide +kernel
      rwa [← hprinted.standardOutput_eq, ← hprinted.standardError_eq, hall, hsummary] at hprinted
    · have hfirst : (dump { strict := true } stream).standardOutput = first := by decide +kernel
      -- The text that is printed is not empty, so the run did not stop at a frame.
      obtain ⟨_, _, _, _, hstopped⟩ | ⟨_, _, _, _, _, _, hstopped⟩ := hstrict d _ hread hsome
      · exact absurd (hstopped.standardOutput_eq.symm.trans hfirst) (by decide)
      · rw [← hstopped.standardOutput_eq] at hstopped
        rw [← hfirst]
        exact hstopped

end CommandLine

end TypeStream
