import Mathlib.Data.List.Infix
import TypeStream.Proofs.PlainDecoders
import TypeStream.Proofs.PrintedOutput
import TypeStream.Proofs.SingleLines
import TypeStream.Proofs.StreamOutcome

/-!
# The lines of references

The line of a reference has the first of three remarks that applies, while the summary counts the
references that two of them apply to.  Both come to the same because no reference applies to more
than one: a reference of a record to itself does not lead to index `0`, since no record has that
index.  The options keep it from the first record, and numbering never comes back to it.

## Key results

- `Reference.standsIn_line_iff`: a line has the remark on its reference, and no other
- `DecoderTable.Registered.source_ne_none`: no reference of a decoded stream comes from index `0`
- `CommandLine.edges_lines`: the lines and the summary of all references
-/

namespace TypeStream

open Text

/-! ### Remarks -/

/-- What can be remarked on a reference. -/
inductive Remark
  /-- The reference leads to no record. -/
  | none
  /-- It leads to the record that it comes from. -/
  | self
  /-- It leads to a later record. -/
  | forward
deriving DecidableEq, Repr

namespace Remark

/-- The remark behind a reference. -/
def text : Remark → String
  | none => " (none)"
  | self => " (self)"
  | forward => " (forward)"

/-- The remark is to be found in the line. -/
def StandsIn (m : Remark) (line : String) : Prop := m.text.toList <:+: line.toList

instance (m : Remark) (line : String) : Decidable (m.StandsIn line) :=
  inferInstanceAs (Decidable (_ <:+: _))

/-- No remark is the start of another one. -/
theorem eq_of_text_prefix {m m' : Remark} (h : m.text.toList <+: m'.text.toList) : m = m' := by
  revert h
  cases m <;> cases m' <;> decide

theorem text_inj {m m' : Remark} : m.text = m'.text ↔ m = m' :=
  ⟨fun h => eq_of_text_prefix (h ▸ List.prefix_rfl), congrArg text⟩

theorem empty_ne_text (m : Remark) : "" ≠ m.text := by
  cases m <;> decide

/-- A remark has one opening bracket, behind a blank. -/
theorem exists_toList_text (m : Remark) :
    ∃ word, m.text.toList = [' '] ++ '(' :: word ∧ '(' ∉ word := by
  cases m <;> exact ⟨_, rfl, by decide⟩

/-- Where there is no bracket there is no remark. -/
theorem not_standsIn {line : String} (h : '(' ∉ line.toList) (m : Remark) :
    ¬ m.StandsIn line := by
  intro hin
  obtain ⟨word, htext, _⟩ := m.exists_toList_text
  apply h
  apply hin.subset
  rw [htext]
  simp

/-- Behind a text without brackets a remark is the only one. -/
theorem standsIn_append_iff {front : String} (h : '(' ∉ front.toList) {m m' : Remark} :
    m.StandsIn (front ++ m'.text) ↔ m = m' := by
  constructor
  · rintro ⟨before, behind, hline⟩
    obtain ⟨word, htext, _⟩ := m.exists_toList_text
    obtain ⟨word', htext', hword'⟩ := m'.exists_toList_text
    have hfront : '(' ∉ front.toList ++ [' '] := by simp [h]
    -- Both brackets are the only one in the line, so the words behind them begin alike.
    have hsplit : front.toList ++ [' '] ++ '(' :: word' =
        before ++ [' '] ++ '(' :: (word ++ behind) := by
      rw [String.toList_append, htext, htext'] at hline
      simpa using hline.symm
    obtain ⟨_, _, rfl⟩ := (List.append_cons_inj_of_notMem hfront hword').1 hsplit
    apply eq_of_text_prefix
    rw [htext, htext']
    exact ⟨behind, by simp⟩
  · rintro rfl
    unfold StandsIn
    rw [String.toList_append]
    exact (List.suffix_append _ _).isInfix

end Remark

namespace Reference

variable (r : Reference)

/-- What stands in front of the remark. -/
theorem line_eq : r.line = r.source.text ++ " -> " ++ r.target.text ++ r.remark := rfl

/-- The two indices of a line are shown without brackets. -/
theorem bracket_notMem_front : '(' ∉ (r.source.text ++ " -> " ++ r.target.text).toList := by
  have hindex : ∀ i : TypeIndex, '(' ∉ i.text.toList := fun i hmem =>
    absurd (TypeIndex.isAlphanum_of_mem_text hmem) (by decide)
  simp only [String.toList_append, List.mem_append, hindex, or_false, false_or]
  decide

/-- Three of the cases come with a remark. -/
theorem remark_cases :
    r.target = .none ∧ r.remark = Remark.none.text ∨
      r.target ≠ .none ∧ r.source = r.target ∧ r.remark = Remark.self.text ∨
      r.target ≠ .none ∧ r.source < r.target ∧ r.remark = Remark.forward.text ∨
      r.target ≠ .none ∧ r.target < r.source ∧ r.remark = "" := by
  -- The remarks are tried in this order, so each case excludes the ones before it.
  by_cases hnone : r.target = .none
  · refine .inl ⟨hnone, ?_⟩
    simp [remark, isNone, TypeIndex.isNone, hnone, Remark.text]
  by_cases hself : r.target = r.source
  · refine .inr (.inl ⟨hnone, hself.symm, ?_⟩)
    rw [hself] at hnone
    simp [remark, isNone, isSelf, TypeIndex.isNone, hnone, hself, Remark.text]
  by_cases hforward : r.source < r.target
  · refine .inr (.inr (.inl ⟨hnone, hforward, ?_⟩))
    simp [remark, isNone, isSelf, isForward, TypeIndex.isNone, hnone, hself, hforward, Remark.text]
  · have hne : r.target.toNat ≠ r.source.toNat := fun h => hself (TypeIndex.toNat_inj.1 h)
    refine .inr (.inr (.inr ⟨hnone, ?_, ?_⟩))
    · rw [TypeIndex.lt_def] at hforward ⊢
      omega
    · simp [remark, isNone, isSelf, isForward, TypeIndex.isNone, hnone, hself, hforward]

/-- A line has the remark on its reference, and no other. -/
theorem standsIn_line_iff (m : Remark) : m.StandsIn r.line ↔ r.remark = m.text := by
  have hfront := r.bracket_notMem_front
  have hremark : ∀ m', r.remark = Remark.text m' → (m.StandsIn r.line ↔ r.remark = m.text) := by
    intro m' hm'
    rw [line_eq, hm', Remark.standsIn_append_iff hfront, Remark.text_inj, eq_comm]
  obtain ⟨_, h⟩ | ⟨_, _, h⟩ | ⟨_, _, h⟩ | ⟨_, _, h⟩ := r.remark_cases
  · exact hremark _ h
  · exact hremark _ h
  · exact hremark _ h
  -- Without a remark no bracket stands in the line.
  · rw [line_eq, h, String.append_empty]
    exact iff_of_false (Remark.not_standsIn hfront m) m.empty_ne_text

/-- The line has at most one remark, and that tells where the reference leads. -/
structure ToldBy (line : String) : Prop where
  unique : ∀ m m' : Remark, m.StandsIn line → m'.StandsIn line → m = m'
  none_iff : Remark.none.StandsIn line ↔ r.target = .none
  self_iff : Remark.self.StandsIn line ↔ r.source = r.target
  forward_iff : Remark.forward.StandsIn line ↔ r.source < r.target
  plain_iff : (∀ m : Remark, ¬ m.StandsIn line) ↔
    TypeIndex.none < r.target ∧ r.target < r.source

variable {r} in
/-- The remarks exclude each other where no record has index `0`. -/
theorem toldBy_line (h : r.source ≠ .none) : r.ToldBy r.line := by
  have hnone : ∀ i : TypeIndex, i = .none ↔ i.toNat = 0 := fun i => TypeIndex.toNat_inj.symm
  have hself : r.source = r.target ↔ r.source.toNat = r.target.toNat := TypeIndex.toNat_inj.symm
  have hzero : TypeIndex.none.toNat = 0 := rfl
  have hcases := r.remark_cases
  simp only [Ne, hnone, hself, TypeIndex.lt_def] at h hcases
  have hone : ∀ {m'}, r.remark = Remark.text m' → ∀ m : Remark, m.StandsIn r.line ↔ m' = m := by
    intro m' hm' m
    rw [standsIn_line_iff, hm', Remark.text_inj]
  -- In each of the cases the remark is known, and what it tells is about two numbers.
  obtain ⟨_, hr⟩ | ⟨_, _, hr⟩ | ⟨_, _, hr⟩ | ⟨_, _, hr⟩ := hcases
  · constructor <;> simp [hone hr, hnone, hself, TypeIndex.lt_def, hzero] <;> omega
  · constructor <;> simp [hone hr, hnone, hself, TypeIndex.lt_def, hzero] <;> omega
  · constructor <;> simp [hone hr, hnone, hself, TypeIndex.lt_def, hzero] <;> omega
  · have hnot : ∀ m : Remark, ¬ m.StandsIn r.line := by
      intro m
      rw [standsIn_line_iff, hr]
      exact m.empty_ne_text
    constructor <;> simp [hnot, hnone, hself, TypeIndex.lt_def, hzero] <;> omega

end Reference

/-! ### Numbering -/

/-- Numbering from an index other than `0` on does not come to `0`. -/
theorem TypeIndex.nth_ne_none {first : TypeIndex} (h : first ≠ .none) (n : Nat) :
    first.nth n ≠ .none := by
  rw [Ne, ← toNat_inj] at h ⊢
  have hzero : TypeIndex.none.toNat = 0 := rfl
  rw [toNat_nth, hzero]
  rw [hzero] at h
  have hsize : 0 < UInt32.size - 1 := by decide
  omega

namespace DecoderTable

variable {t : DecoderTable} {o : Options} {stream : List UInt8}

/-- A trail holds the references of the frames that a run decodes, in order. -/
theorem references_of_readStream (hvalid : o.validate = .ok ()) :
    (t.readStream o stream Trail.empty).2.references =
      t.references o (t.reached o (Frame.place o.firstIndex 0 (Frame.split stream).1)) := by
  rw [readStream_eq Trail.empty hvalid (Frame.splits_split stream), Trail.references_noteAll]
  rfl

/-- For a stream that is decoded these are all frames. -/
theorem references_of_readStream_ok {d : Decoded} {trail : Trail}
    (h : t.readStream o stream Trail.empty = (.ok d, trail)) :
    trail.references = t.references o (Frame.place o.firstIndex 0 (Frame.split stream).1) := by
  obtain ⟨payloads, hsplits, _, rfl⟩ := readStream_ok t Trail.empty h
  rw [Trail.references_noteAll, hsplits.eq_split]
  rfl

/-- No reference of a stream that is decoded comes from index `0`. -/
theorem Registered.source_ne_none (ht : t.Registered) {d : Decoded} {trail : Trail}
    (h : t.readStream o stream Trail.empty = (.ok d, trail)) :
    ∀ r ∈ trail.references, r.source ≠ .none := by
  have hvalid := (exists_of_readStream_ok Trail.empty (congrArg Prod.fst h)).1
  intro r hr
  rw [references_of_readStream_ok h] at hr
  -- A reference comes from the index of its frame, which is one of the numbering.
  obtain ⟨f, hf, hreported⟩ := List.mem_flatMap.1 hr
  obtain ⟨k, _, hindex⟩ := Frame.exists_nth_of_mem_place hf
  rw [ht.source_eq hreported, hindex]
  exact TypeIndex.nth_ne_none (Options.validate_eq_ok_iff.1 hvalid).2 k

end DecoderTable

/-! ### The command -/

namespace Trail

variable {trail : Trail} (h : ∀ r ∈ trail.references, r.source ≠ .none)
include h

/-- The references that lead to a later record are as many as lines with that remark. -/
theorem length_forward : trail.forward.length =
    (trail.references.map Reference.line).countP (Remark.forward.StandsIn ·) := by
  unfold forward
  rw [List.countP_map, ← List.countP_eq_length_filter]
  apply List.countP_congr
  intro r hr
  have hiff := (Reference.toldBy_line (h r hr)).forward_iff
  simp only [Function.comp_apply, decide_eq_true_eq, hiff, Bool.and_eq_true, Reference.isForward]
  refine and_iff_right_of_imp fun hlt => ?_
  -- Only `0` would be left out, and nothing is below it.
  rw [Bool.not_eq_true', Reference.isNone, TypeIndex.isNone, decide_eq_false_iff_not]
  intro hnone
  rw [hnone] at hlt
  exact Nat.not_lt_zero _ hlt

/-- Those that lead to their own record are as many as lines with that one. -/
theorem length_selfLoops : trail.selfLoops.length =
    (trail.references.map Reference.line).countP (Remark.self.StandsIn ·) := by
  unfold selfLoops
  rw [List.countP_map, ← List.countP_eq_length_filter]
  apply List.countP_congr
  intro r hr
  have hiff := (Reference.toldBy_line (h r hr)).self_iff
  simp only [Function.comp_apply, decide_eq_true_eq, hiff, Reference.isSelf]
  exact eq_comm

end Trail

namespace CommandLine

section Edges

variable {o : Options} {stream : List UInt8} {trail : Trail}

/-- What the command gives for a stream that is not decoded. -/
theorem edges_of_error {e : Error}
    (h : DecoderTable.standard.readStream o stream Trail.empty = (.error e, trail)) :
    edges o stream = ⟨[], [], some e⟩ := by
  simp only [edges, h]

theorem edges_of_ok {d : Decoded}
    (h : DecoderTable.standard.readStream o stream Trail.empty = (.ok d, trail)) :
    edges o stream = ⟨trail.references.map Reference.line,
      [s!"{trail.references.length} edges, {trail.forward.length} forward, " ++
        s!"{trail.selfLoops.length} self"], none⟩ := by
  simp only [edges, h]

end Edges

/-- The references are those that the frames report which are decoded, in order.  For a stream that
    is decoded the command prints one line for each of them, and no other.  A line has at most one
    remark: that the reference leads to index `0`, to its own record or to a later one; and it has
    none exactly if the reference leads to an earlier record.  The summary tells how many lines
    there are and how many of them have the last two remarks.  Without a decoded stream the command
    fails and prints nothing, whatever has been reported. -/
theorem edges_lines (o : Options) (stream : List UInt8) :
    let run := DecoderTable.standard.readStream o stream Trail.empty
    let frames := Frame.place o.firstIndex 0 (Frame.split stream).1
    let lines := (edges o stream).lines
    let forward := lines.countP (Remark.forward.StandsIn ·)
    let self := lines.countP (Remark.self.StandsIn ·)
    let summary := s!"{lines.length} edges, {forward} forward, " ++ s!"{self} self"
    (o.validate = .ok () → run.2.references =
      DecoderTable.standard.references o (DecoderTable.standard.reached o frames)) ∧
    (∀ d, run.1 = .ok d →
      run.2.references = DecoderTable.standard.references o frames ∧
      lines = run.2.references.map Reference.line ∧
      (edges o stream).standardOutput.toList.count '\n' = run.2.references.length ∧
      (∀ r ∈ run.2.references, OneLine r.line ∧ r.ToldBy r.line) ∧
      (edges o stream).remarks = [summary] ∧
      (edges o stream).Succeeds (String.join (run.2.references.map fun r => r.line ++ "\n"))
        (summary ++ "\n")) ∧
    ∀ e, run.1 = .error e → (edges o stream).Fails "" e := by
  intro run frames lines forward self summary
  refine ⟨DecoderTable.references_of_readStream, fun d hd => ?_, fun e he => ?_⟩
  · have hread : DecoderTable.standard.readStream o stream Trail.empty = (.ok d, run.2) :=
      Prod.ext hd rfl
    -- As no reference comes from index `0`, counting by remarks agrees with the trail's own counts.
    have hsource := DecoderTable.Registered.standard.source_ne_none hread
    have hlines : lines = run.2.references.map Reference.line :=
      congrArg Output.lines (edges_of_ok hread)
    have hlength : run.2.references.length = lines.length := by
      rw [hlines, List.length_map]
    have hedges : edges o stream = ⟨lines, [summary], none⟩ := by
      rw [edges_of_ok hread, Trail.length_forward hsource, Trail.length_selfLoops hsource, ← hlines,
        hlength]
    have hprinted : (edges o stream).Succeeds (Output.textOfLines lines) (summary ++ "\n") := by
      rw [hedges, ← Output.textOfLines_singleton]
      exact Output.succeeds_of_lines lines [summary]
    refine ⟨DecoderTable.references_of_readStream_ok hread, hlines, ?_, ?_,
      congrArg Output.remarks hedges, ?_⟩
    -- No line has a line feed of its own, so there are as many as there are lines.
    · have hone : ∀ line ∈ lines, OneLine line := by
        rw [hlines]
        exact List.forall_mem_map.2 fun r _ => r.oneLine_line
      rw [hprinted.standardOutput_eq, Output.count_textOfLines_iff.2 hone, hlength]
    · exact fun r hr => ⟨r.oneLine_line, Reference.toldBy_line (hsource r hr)⟩
    · rwa [← Output.textOfLines_map Reference.line, ← hlines]
  · rw [edges_of_error (Prod.ext he rfl : _ = (Except.error e, run.2))]
    exact Output.fails_of_lines [] e

/-- Both references of the table have been reported when the frame behind it breaks off. -/
example :
    let stream : List UInt8 := [18, 0, 0x1d, 0x15, 0x74, 0, 0, 0, 0, 0, 0, 0, 0, 0, 0, 0, 0, 0, 0,
      0, 5]
    (DecoderTable.standard.readStream {} stream Trail.empty).2.references =
        [⟨⟨0x1000⟩, ⟨0x74⟩⟩, ⟨⟨0x1000⟩, .none⟩] ∧
      edges {} stream = ⟨[], [], some (.truncated "u16" 20 2 1)⟩ := by
  decide +kernel

end CommandLine

end TypeStream
