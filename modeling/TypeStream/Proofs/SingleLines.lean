import TypeStream.CommandLine.Output
import TypeStream.Proofs.RecordRoundTrip

/-!
# Texts that are one line

What is printed is made of indices, numbers and fixed words, none of which has a line feed, and of
the names of tables, which are put into the text as they are.  So a text is one line exactly if the
names in it are, and so many lines are printed as there are texts only if all of them are one line.

## Key results

- `VirtualTable.oneLine_text_iff`: the text of a table, by its names and the texts inside it
- `Catalog.Obstacle.oneLine_message`: the messages of what stops rendering
- `CommandLine.Output.count_textOfLines_iff`: line feeds count the texts that are printed
-/

namespace TypeStream

/-! ### Line feeds -/

namespace Text

/-- The text has no line feed. -/
def OneLine (text : String) : Prop := '\n' ∉ text.toList

instance (text : String) : Decidable (OneLine text) :=
  inferInstanceAs (Decidable ('\n' ∉ text.toList))

/-- A text made of two is one line if both are. -/
theorem oneLine_append {a b : String} : OneLine (a ++ b) ↔ OneLine a ∧ OneLine b := by
  simp only [OneLine, String.toList_append, List.mem_append, not_or]

/-- Letters and digits are one line. -/
theorem oneLine_of_isAlphanum {text : String} (h : ∀ c ∈ text.toList, c.isAlphanum = true) :
    OneLine text := by
  intro hmem
  exact absurd (h '\n' hmem) (by decide)

/-- Texts with separators between them are one line exactly if all of them are. -/
theorem oneLine_intercalate {separator : String} (h : OneLine separator) {texts : List String} :
    OneLine (separator.intercalate texts) ↔ ∀ text ∈ texts, OneLine text := by
  unfold OneLine at h ⊢
  rw [String.toList_intercalate]
  induction texts with
  | nil => simp
  | cons text rest ih =>
    cases rest with
    | nil => simp
    | cons next rest =>
      rw [List.map_cons, List.map_cons, List.intercalate_cons_cons, ← List.map_cons]
      simp only [List.mem_append, not_or, ih, h, not_false_eq_true, and_true,
        List.forall_mem_cons]

/-- A number is shown in one line. -/
theorem oneLine_repr (n : Nat) : OneLine n.repr := by
  intro hmem
  rw [Nat.toList_repr] at hmem
  exact absurd (Nat.isDigit_of_mem_toDigits (by decide) (by decide) hmem) (by decide)

theorem oneLine_toString_int (n : Int) : OneLine (toString n) := by
  rw [Int.toString_eq_repr, Int.repr_eq_if]
  split
  · exact oneLine_repr _
  · exact oneLine_append.2 ⟨by decide, oneLine_repr _⟩

theorem oneLine_hexadecimal (width n : Nat) : OneLine (hexadecimal width n) :=
  oneLine_of_isAlphanum fun _ hc => isAlphanum_of_mem_hexadecimal hc

end Text

open Text

/-! ### Parts of lines -/

/-- An index is shown in one line. -/
theorem TypeIndex.oneLine_text (i : TypeIndex) : OneLine i.text :=
  oneLine_of_isAlphanum fun _ hc => isAlphanum_of_mem_text hc

theorem Reference.oneLine_line (r : Reference) : OneLine r.line := by
  have hremark : OneLine r.remark := by
    unfold remark
    repeat' split
    all_goals decide
  unfold line
  simp +decide only [oneLine_append, r.source.oneLine_text, r.target.oneLine_text, hremark]

/-- A primitive type is described in one line, also if it has no name. -/
theorem Primitive.oneLine_describe (n : Nat) : OneLine (describe n) := by
  -- The words for kinds and modes come from a fixed list.
  have hbase : ∀ base, baseName? (n % 0x100) = some base → OneLine base := by
    intro base h
    unfold baseName? at h
    split at h <;> cases h <;> decide
  have hmode : ∀ mode, modeText? (n / 0x100 % 0x10) = some mode → OneLine mode := by
    intro mode h
    unfold modeText? at h
    split at h <;> cases h <;> decide
  unfold describe
  split
  · rename_i base mode hb hm
    exact oneLine_append.2 ⟨hbase base hb, hmode mode hm⟩
  · simp +decide only [oneLine_append, oneLine_hexadecimal]

/-- The kind of a slot is shown in one line, also if its code has none. -/
theorem SlotKind.oneLine_text (kind : SlotKind) : OneLine kind.text := by
  cases kind with
  | unknown code =>
    have hcode : OneLine (toString code.toNat) := oneLine_repr _
    simp +decide only [text, oneLine_append, hcode]
  | _ => decide

theorem TableShape.oneLine_text (shape : TableShape) : OneLine shape.text := by
  have hslots : OneLine (String.intercalate "," (shape.slots.map SlotKind.text)) := by
    apply (oneLine_intercalate (by decide)).2
    intro text htext
    obtain ⟨kind, _, rfl⟩ := List.mem_map.1 htext
    exact kind.oneLine_text
  simp +decide only [text, oneLine_append, hslots]

/-- The text of a table is one line exactly if the texts of its owner and its base and all of its
    names are. -/
theorem VirtualTable.oneLine_text_iff {table : VirtualTable} {owner : String}
    {base : Option String} : OneLine (table.text owner base) ↔
      OneLine owner ∧ (∀ text ∈ base, OneLine text) ∧ ∀ name ∈ table.names.names, OneLine name := by
  have hmethods : OneLine (String.intercalate "," table.names.methods) ↔
      ∀ name ∈ table.names.methods, OneLine name := oneLine_intercalate (by decide)
  have hnames : (∀ name ∈ table.names.names, OneLine name) ↔
      OneLine (table.names.tableName.getD "") ∧ ∀ name ∈ table.names.methods, OneLine name := by
    have hempty : OneLine "" := by decide
    unfold NameBlock.names
    cases table.names.tableName <;> simp [hempty]
  have hoffset := oneLine_toString_int table.pointerOffset.toInt
  rw [hnames]
  -- All that stands around these parts is made of fixed words.
  unfold text
  cases base with
  | none => simp +decide only [oneLine_append, hmethods, hoffset, true_and, and_true, and_assoc]
  | some base =>
    simp +decide only [oneLine_append, hmethods, hoffset, true_and, and_true, and_assoc,
      Option.mem_some_iff, forall_eq']

/-! ### What stops rendering -/

namespace Catalog.Obstacle

variable (o : Obstacle) (i : TypeIndex)

/-- A placeholder is one line. -/
theorem oneLine_placeholder : OneLine (o.placeholder i) := by
  have hword : OneLine o.word := by cases o <;> decide
  simp +decide only [placeholder, oneLine_append, hword, i.oneLine_text]

/-- The message about an obstacle is one line. -/
theorem oneLine_message : OneLine (o.error i).message := by
  have hindex := i.oneLine_text
  cases o with
  | unresolved =>
    have hwords : OneLine "Unresolved reference to record " := by decide +kernel
    exact oneLine_append.2 ⟨hwords, hindex⟩
  | cycle =>
    have hwords : OneLine "Reference cycle detected while rendering record " := by decide +kernel
    exact oneLine_append.2 ⟨hwords, hindex⟩
  | tooDeep =>
    have hdepth : OneLine s!" exceeds the maximum nesting depth of {maxDepth}" := by decide +kernel
    exact oneLine_append.2 ⟨oneLine_append.2 ⟨by decide, hindex⟩, hdepth⟩

end Catalog.Obstacle

/-! ### Printed texts -/

namespace CommandLine.Output

/-- Besides the line feeds that end the texts there are those in the texts. -/
theorem count_textOfLines (lines : List String) : (textOfLines lines).toList.count '\n' =
    lines.length + (lines.flatMap String.toList).count '\n' := by
  unfold textOfLines
  induction lines with
  | nil => rfl
  | cons line rest ih =>
    simp only [List.map_cons, String.join_cons, String.toList_append, List.count_append, ih,
      List.length_cons, List.flatMap_cons]
    have hfeed : "\n".toList.count '\n' = 1 := by decide
    omega

/-- There are as many line feeds as texts exactly if every text is one line. -/
theorem count_textOfLines_iff {lines : List String} :
    (textOfLines lines).toList.count '\n' = lines.length ↔ ∀ line ∈ lines, OneLine line := by
  have hnone : (lines.flatMap String.toList).count '\n' = 0 ↔ ∀ line ∈ lines, OneLine line := by
    simp only [List.count_eq_zero, List.mem_flatMap, not_exists, not_and, OneLine]
  rw [count_textOfLines, ← hnone]
  omega

end CommandLine.Output

end TypeStream
