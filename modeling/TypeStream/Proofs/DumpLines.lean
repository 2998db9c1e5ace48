import TypeStream.Proofs.AsciiBytes
import TypeStream.Proofs.FailingWalks
import TypeStream.Proofs.Placeholders
import TypeStream.Proofs.SingleLines
import TypeStream.Proofs.StoredNames
import TypeStream.Proofs.StrictDump

/-!
# The lines of a dump

A dump that succeeds prints a text for every record in order of index, each behind its index.  The
names of tables stand in these texts as they were read, so a text is one line only if the names in
it are.  In every character set a name has a line feed if and only if its bytes hold `0x0a`, which
nothing keeps out of a name block.

## Key results

- `Catalog.oneLine_of_renderWithin_ok`: what is rendered is one line, if the names are
- `CommandLine.oneLine_allLines_iff`: the lines of all records, by the names of those rendered
- `CommandLine.dump_line_feeds`: a dump that succeeds
- `CommandLine.dump_two_lines`: one record that is printed as two lines
-/

namespace TypeStream

open Text

/-! ### Rendered texts -/

/-- The text of a table is made of the texts that its owner and its base were rendered to. -/
theorem VirtualTable.exists_text_of_render_ok {t : VirtualTable}
    {lookUp : TypeIndex → Except Error String} {text : String} (h : t.render lookUp = .ok text) :
    ∃ owner base, lookUp t.owner = .ok owner ∧ (∀ b ∈ base, lookUp t.base = .ok b) ∧
      text = t.text owner base := by
  obtain ⟨_, _, heq⟩ | ⟨owner, howner, _, heq⟩ | ⟨_, _, _, _, _, heq⟩ |
    ⟨owner, base, howner, _, hbase, heq⟩ := t.render_cases lookUp
  · exact nomatch heq.symm.trans h
  · exact ⟨owner, none, howner, nofun, Except.ok.inj (h.symm.trans heq)⟩
  · exact nomatch heq.symm.trans h
  · refine ⟨owner, some base, howner, ?_, Except.ok.inj (h.symm.trans heq)⟩
    rintro b ⟨⟩
    exact hbase

namespace Catalog

variable {c : Catalog} {i : TypeIndex} {text : String}

/-- The indices of a catalog are those under which a record is stored. -/
theorem mem_indices_iff : i ∈ c.indices ↔ c.contains i = true := by
  rw [← not_iff_not, ← find?_eq_none_iff]
  simp [contains, OrderedMap.contains, find?]

theorem withPlaceholders_placeholders (c : Catalog) : c.withPlaceholders c.placeholders = c := rfl

/-- With placeholders every index is rendered. -/
theorem renders_of_placeholders (hc : c.placeholders = true) (i : TypeIndex) : c.Renders i := by
  have hmarks := c.renderWithin_marks maxDepth [] i
  rw [← hc, withPlaceholders_placeholders] at hmarks
  exact hmarks.exists_ok

/-- Without them it is, unless an obstacle stops it. -/
theorem exists_obstacle_of_render_error {e : Error} (h : c.render i = .error e) :
    ∃ (o : Obstacle) (j : TypeIndex), e = o.error j := by
  cases hc : c.placeholders with
  | true =>
    obtain ⟨text, htext⟩ := renders_of_placeholders hc i
    exact nomatch htext.symm.trans h
  | false =>
    have hmarks := c.renderWithin_marks maxDepth [] i
    rw [← hc, withPlaceholders_placeholders] at hmarks
    exact hmarks.exists_obstacle h

/-- What is rendered inside other records is rendered on its own, with placeholders or without. -/
theorem renders_inside {budget : Nat} (hbudget : budget ≤ maxDepth) {inProgress : List TypeIndex}
    (h : c.renderWithin budget inProgress i = .ok text) : c.Renders i := by
  cases hc : c.placeholders with
  | true => exact renders_of_placeholders hc i
  | false => exact ⟨text, render_of_renderWithin_ok hc hbudget h⟩

/-- No name of a table that is rendered has a line feed. -/
def OneLineNames (c : Catalog) : Prop :=
  ∀ i table, c.Renders i → c.find? i = some (.virtualTable table) →
    ∀ name ∈ table.names.names, OneLine name

/-- Where rendering stops without an error there is a placeholder, which is one line. -/
theorem oneLine_of_stop_ok {o : Obstacle} (h : c.stop o i = .ok text) : OneLine text := by
  unfold stop at h
  split at h
  · rw [← Except.ok.inj h]
    exact o.oneLine_placeholder i
  · exact nomatch h

/-- An index without a record is rendered as one line: as a primitive type, or as a placeholder. -/
theorem oneLine_of_renderUnstored_ok (h : c.renderUnstored i = .ok text) : OneLine text := by
  unfold renderUnstored at h
  split at h
  · rename_i name hname
    obtain ⟨_, hdescribe⟩ := Option.ite_none_right_eq_some.1 hname
    rw [← Except.ok.inj h, ← Option.some.inj hdescribe]
    exact Primitive.oneLine_describe _
  · exact oneLine_of_stop_ok h

/-- What is rendered inside other records is one line, if the names of tables are. -/
theorem oneLine_of_renderWithin_ok (hnames : c.OneLineNames) {budget : Nat}
    (hbudget : budget ≤ maxDepth) {inProgress : List TypeIndex}
    (h : c.renderWithin budget inProgress i = .ok text) : OneLine text := by
  induction budget using Nat.strongRecOn generalizing inProgress i text with
  | ind budget ih =>
    -- Names are only known to be one line where the record is rendered on its own.
    have hrenders := renders_inside hbudget h
    -- The record is not stored, already being rendered, too deep, or rendered with its parts.
    cases hr : c.find? i with
    | none =>
      rw [renderWithin_of_none hr] at h
      exact oneLine_of_renderUnstored_ok h
    | some r =>
      by_cases hi : i ∈ inProgress
      · rw [renderWithin_of_mem hr hi] at h
        exact oneLine_of_stop_ok h
      · cases budget with
        | zero =>
          rw [renderWithin_zero hr hi] at h
          exact oneLine_of_stop_ok h
        | succ budget =>
          rw [renderWithin_succ hr hi] at h
          cases r with
          | virtualTable table =>
            obtain ⟨owner, base, howner, hbase, rfl⟩ := VirtualTable.exists_text_of_render_ok h
            -- The texts of the owner and of the base were rendered with less of the budget.
            have hinside : ∀ {j text}, c.renderWithin budget (i :: inProgress) j = .ok text →
                OneLine text := ih budget (Nat.lt_succ_self budget) (by omega)
            refine VirtualTable.oneLine_text_iff.2 ⟨hinside howner, ?_, hnames i table hrenders hr⟩
            exact fun b hb => hinside (hbase b hb)
          | tableShape shape =>
            rw [← Except.ok.inj h]
            exact shape.oneLine_text
          | unknown kind bytes =>
            rw [← Except.ok.inj h]
            simp +decide only [oneLine_append, oneLine_hexadecimal]

/-- The names of a table stand in its text. -/
theorem oneLine_names_of_render_ok {table : VirtualTable}
    (hfind : c.find? i = some (.virtualTable table)) (h : c.render i = .ok text)
    (htext : OneLine text) : ∀ name ∈ table.names.names, OneLine name := by
  have heq : c.render i = Record.render _ _ :=
    renderWithin_succ hfind List.not_mem_nil (maxDepth - 1)
  rw [heq] at h
  obtain ⟨owner, base, _, _, rfl⟩ := VirtualTable.exists_text_of_render_ok h
  exact (VirtualTable.oneLine_text_iff.1 htext).2.2

end Catalog

/-! ### Printed lines -/

namespace CommandLine

open Catalog (OneLineNames)

/-- The line of a record starts with its index. -/
theorem exists_recordLine_eq (i : TypeIndex) (rendered : Except Error String) :
    ∃ text, recordLine i rendered = i.text ++ ": " ++ text := ⟨_, rfl⟩

/-- The line of a record has the line feeds of its text, and no other. -/
theorem oneLine_recordLine_ok {i : TypeIndex} {text : String} :
    OneLine (recordLine i (.ok text)) ↔ OneLine text := by
  simp +decide only [recordLine, oneLine_append, i.oneLine_text, true_and]

/-- The line of a record that cannot be rendered is one line. -/
theorem oneLine_recordLine_error (i j : TypeIndex) (o : Catalog.Obstacle) :
    OneLine (recordLine i (.error (o.error j))) := by
  simp +decide only [recordLine, oneLine_append, i.oneLine_text, o.oneLine_message j]

/-- The lines of all records have no line feed exactly if the names of the tables that are rendered
    have none. -/
theorem oneLine_allLines_iff (c : Catalog) :
    (∀ line ∈ allLines c c.indices, OneLine line) ↔ c.OneLineNames := by
  unfold allLines
  rw [List.forall_mem_map]
  constructor
  -- A table that is rendered stands in its line as it is.
  · rintro hlines i table ⟨text, htext⟩ hfind
    have hline := hlines i (Catalog.mem_indices_iff.2 (Catalog.contains_of_find? hfind))
    rw [htext, oneLine_recordLine_ok] at hline
    exact Catalog.oneLine_names_of_render_ok hfind htext hline
  -- Without line feeds in the names neither a text nor an error has one.
  · intro hnames i _
    cases hrender : c.render i with
    | ok text =>
      rw [oneLine_recordLine_ok]
      exact Catalog.oneLine_of_renderWithin_ok hnames (Nat.le_refl _) hrender
    | error e =>
      obtain ⟨o, j, rfl⟩ := Catalog.exists_obstacle_of_render_error hrender
      exact oneLine_recordLine_error i j o

/-- A dump that succeeds has decoded the stream, and prints the lines of all records. -/
theorem dump_of_succeeds {o : Options} {stream : List UInt8} (h : (dump o stream).failure = none) :
    ∃ d, (DecoderTable.standard.readStream o stream ()).1 = .ok d ∧
      dump o stream = ⟨allLines d.catalog d.catalog.indices, dumpRemarks d, none⟩ := by
  cases hread : (DecoderTable.standard.readStream o stream ()).1 with
  | error e =>
    rw [dump_of_error hread] at h
    exact nomatch h
  | ok d =>
    refine ⟨d, rfl, ?_⟩
    -- With `strict` the lines end at the first error, so a dump that succeeds has none.
    cases hstrict : o.strict with
    | false =>
      apply dump_of_lines hread
      rw [hstrict]
      exact recordLines_lenient _ _
    | true =>
      obtain ⟨_, hlines⟩ | ⟨before, i, after, e, _, _, _, hlines⟩ :=
        recordLines_cases d.catalog d.catalog.indices
      · apply dump_of_lines hread
        rwa [hstrict]
      · rw [← hstrict] at hlines
        rw [dump_of_lines_error hread hlines] at h
        exact nomatch h

/-- A dump that succeeds prints one text for each record in the catalog, in ascending order of
    index and each behind its index.  Line feeds count these texts exactly if no name of a table
    that is rendered has one.  A name has one where the bytes that it is read from hold `0x0a`,
    whatever the character set is, and these bytes are a part of the stream. -/
theorem dump_line_feeds {o : Options} {stream : List UInt8} (h : (dump o stream).failure = none) :
    ∃ d, (DecoderTable.standard.readStream o stream ()).1 = .ok d ∧
      (∀ i, i ∈ d.catalog.indices ↔ d.catalog.contains i = true) ∧
      d.catalog.indices.Pairwise (· < ·) ∧
      (dump o stream).lines.length = d.catalog.size ∧
      (∀ (k : Nat) i, d.catalog.indices[k]? = some i →
        ∃ text, (dump o stream).lines[k]? = some (i.text ++ ": " ++ text)) ∧
      ((dump o stream).standardOutput.toList.count '\n' = d.catalog.size ↔
        d.catalog.OneLineNames) ∧
      ∀ i table, d.catalog.find? i = some (.virtualTable table) →
        ∀ name ∈ table.names.names, ∃ bytes, bytes <:+: stream ∧
          name = o.charset.decode bytes ∧ (OneLine name ↔ 0x0a ∉ bytes) := by
  obtain ⟨d, hread, hdump⟩ := dump_of_succeeds h
  -- Every stored record gives one line.
  have hsize : (allLines d.catalog d.catalog.indices).length = d.catalog.size := by
    rw [allLines, List.length_map]
    exact List.length_map _
  rw [hdump]
  refine ⟨d, hread, fun i => Catalog.mem_indices_iff, d.catalog.pairwise_indices, hsize, ?_, ?_, ?_⟩
  · intro k i hi
    simp only [allLines, List.getElem?_map, hi, Option.map_some, Option.some.injEq]
    exact exists_recordLine_eq i _
  · rw [← oneLine_allLines_iff, ← Output.count_textOfLines_iff, hsize]
    rfl
  · intro i table hfind name hname
    obtain ⟨bytes, hin, rfl⟩ :=
      DecoderTable.Registered.standard.readIn_of_find? hread hfind name hname
    refine ⟨bytes, hin, rfl, not_congr ?_⟩
    rw [Charset.toList_decode]
    exact Charset.mem_chars_iff (by decide) o.charset bytes

/-- The name of the first table ends in a line feed, and the second table extends the first. -/
theorem dump_line_feeds_extended :
    let stream : List UInt8 := [22, 0, 0x1d, 0x15, 0x74, 0, 0, 0, 0, 0, 0, 0, 0, 0, 0, 0, 3, 0, 0,
      0, 0x41, 0x0a, 0, 0, 22, 0, 0x1d, 0x15, 0x74, 0, 0, 0, 0, 0x10, 0, 0, 0, 0, 0, 0, 2, 0, 0, 0,
      0x42, 0, 0, 0]
    (dump {} stream).failure = none ∧
      (dump {} stream).standardOutput.toList.count '\n' = 4 ∧
      ∃ d, (DecoderTable.standard.readStream {} stream ()).1 = .ok d ∧ d.catalog.size = 2 ∧
        ¬ d.catalog.OneLineNames := by
  intro stream
  have hnone : (dump {} stream).failure = none := by decide +kernel
  have hcount : (dump {} stream).standardOutput.toList.count '\n' = 4 := by decide +kernel
  have hlines : (dump {} stream).lines.length = 2 := by decide +kernel
  obtain ⟨d, hread, _, _, hsize, _, hiff, _⟩ := dump_line_feeds hnone
  rw [← hsize, hcount, hlines] at hiff
  exact ⟨hnone, hcount, d, hread, hsize.symm.trans hlines, hiff.not.1 (by decide)⟩

/-- The name of this table holds a line feed and what looks like the line of another record.  The
    catalog has one record, but two lines are printed. -/
theorem dump_two_lines :
    let stream : List UInt8 := [0x1e, 0, 0x1d, 0x15, 0x74, 0, 0, 0, 0, 0, 0, 0, 0, 0, 0, 0,
      12, 0, 0, 0, 0x41, 0x0a, 0x30, 0x78, 0x31, 0x30, 0x30, 0x31, 0x3a, 0x20, 0x42, 0]
    (dump {} stream).failure = none ∧
      (∃ d, (DecoderTable.standard.readStream {} stream ()).1 = .ok d ∧ d.catalog.size = 1 ∧
        (dump {} stream).standardOutput.toList.count '\n' ≠ d.catalog.size ∧
        ∃ text, d.catalog.render ⟨0x1000⟩ = .ok text ∧ '\n' ∈ text.toList) ∧
      (dump {} stream).standardOutput =
        "0x1000: VFTable for [int<vfptr_offset=0>] A\n0x1001: B: \x7b\x7d\n" := by
  intro stream
  have hnone : (dump {} stream).failure = none := by decide +kernel
  obtain ⟨d, hread, _⟩ := dump_of_succeeds hnone
  have hsize : (DecoderTable.standard.readStream {} stream ()).1.map (·.catalog.size) = .ok 1 := by
    decide +kernel
  have hrender : ((DecoderTable.standard.readStream {} stream ()).1.bind fun d =>
      d.catalog.render ⟨0x1000⟩) =
        .ok "VFTable for [int<vfptr_offset=0>] A\n0x1001: B: \x7b\x7d" := by
    decide +kernel
  rw [hread] at hsize hrender
  have hone : d.catalog.size = 1 := Except.ok.inj hsize
  refine ⟨hnone, ⟨d, hread, hone, ?_, _, hrender, by decide⟩, by decide +kernel⟩
  rw [hone]
  decide +kernel

end CommandLine

end TypeStream
