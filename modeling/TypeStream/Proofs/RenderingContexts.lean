import TypeStream.Proofs.Rendering

/-!
# What the text of an index depends on

An index is rendered inside other records or on its own, in one catalog or in another.  The records
around it can stop a render, but they do not stand in the text: what is rendered inside many records
has the same text inside fewer.  And of a catalog only those records matter that the index reaches,
because no other index is ever looked up, not even where rendering is stopped.

## Key results

- `Record.render_congr`: a record is rendered by what its targets are
- `Catalog.renderWithin_mono`: fewer records around an index leave its text as it is
- `Catalog.render_of_renderWithin_ok`: what is rendered inside other records is rendered on its own
- `Catalog.render_ok_parts`: a text is made of the texts that its parts have on their own
- `Catalog.renderWithin_congr`: catalogs that agree on what an index reaches render it alike
- `Catalog.render_local`: the same for rendering as it is called
-/

namespace TypeStream

/-! ### One record -/

/-- A table extends another one exactly if its base is not index `0`. -/
theorem VirtualTable.hasBase_iff {t : VirtualTable} : t.hasBase = true ↔ t.base ≠ .none := by
  simp [hasBase, TypeIndex.isNone]

namespace Record

variable {lookUp lookUp' : TypeIndex → Except Error String} {r : Record}

/-- Only the targets of a record are looked up. -/
theorem render_congr (h : ∀ j ∈ r.targets, lookUp j = lookUp' j) :
    r.render lookUp = r.render lookUp' := by
  cases r with
  | virtualTable table =>
    show table.render lookUp = table.render lookUp'
    unfold VirtualTable.render
    rw [h table.owner table.owner_mem_targets]
    cases hhas : table.hasBase with
    | false => rfl
    | true => rw [h table.base (table.base_mem_targets hhas)]
  | tableShape shape => rfl
  | unknown kind bytes => rfl

/-- A record that is rendered keeps its text if all texts that are looked up are kept. -/
theorem render_ok_mono {text : String}
    (h : ∀ j text, lookUp j = .ok text → lookUp' j = .ok text) (hr : r.render lookUp = .ok text) :
    r.render lookUp' = .ok text := by
  rw [← hr]
  apply render_congr
  intro j hj
  obtain ⟨text, htext⟩ := exists_ok_of_render_ok hr j hj
  rw [htext, h j text htext]

end Record

namespace Catalog

variable {c c' : Catalog} {i : TypeIndex}

/-! ### The records around an index -/

/-- With fewer records around it, and room for more inside it, an index keeps its text. -/
theorem renderWithin_mono (hc : c.placeholders = false) {budget budget' : Nat}
    (hbudget : budget ≤ budget') {inProgress inProgress' : List TypeIndex}
    (hsub : inProgress' ⊆ inProgress) {text : String}
    (h : c.renderWithin budget inProgress i = .ok text) :
    c.renderWithin budget' inProgress' i = .ok text := by
  induction budget using Nat.strongRecOn generalizing budget' inProgress inProgress' i text with
  | ind budget ih =>
    obtain ⟨hr, _⟩ | ⟨r, _, _, heq⟩ | ⟨r, _, _, _, heq⟩ | ⟨r, rest, hr, hi, rfl, heq⟩ :=
      renderWithin_cases hc budget inProgress i
    · rw [renderWithin_of_none hr] at h ⊢
      exact h
    -- With an error there is no text that could be kept.
    · exact nomatch heq.symm.trans h
    · exact nomatch heq.symm.trans h
    · obtain ⟨rest', rfl⟩ : ∃ rest', budget' = rest' + 1 :=
        Nat.exists_eq_succ_of_ne_zero (by omega)
      rw [heq] at h
      rw [renderWithin_succ hr fun hmem => hi (hsub hmem)]
      -- The record now stands around its targets on both sides.
      refine Record.render_ok_mono (fun j text hj => ?_) h
      exact ih rest (Nat.lt_succ_self rest) (by omega) (List.cons_subset_cons i hsub) hj

/-- What is rendered inside other records is rendered on its own, to the same text. -/
theorem render_of_renderWithin_ok (hc : c.placeholders = false) {budget : Nat}
    (hbudget : budget ≤ maxDepth) {inProgress : List TypeIndex} {text : String}
    (h : c.renderWithin budget inProgress i = .ok text) : c.render i = .ok text :=
  renderWithin_mono hc hbudget (List.nil_subset inProgress) h

/-- An index that is rendered has a text of its own or one that is made of the texts of others, as
    these are rendered on their own: the name of a primitive type if it is not stored, the text of a
    shape or of an unknown record, or the fields of a table with the text of its owner and, if it
    extends another table, of its base. -/
theorem render_ok_parts (hc : c.placeholders = false) {text : String}
    (h : c.render i = .ok text) :
    (c.find? i = none → Primitive.name? i = some text) ∧
    (∀ shape, c.find? i = some (.tableShape shape) → text = shape.text) ∧
    (∀ kind bytes, c.find? i = some (.unknown kind bytes) →
      text = "UnknownType(0x" ++ Text.hexadecimal 4 kind.toNat ++ ")") ∧
    ∀ table, c.find? i = some (.virtualTable table) →
      ∃ owner base, c.render table.owner = .ok owner ∧
        (table.base = .none → base = "") ∧
        (table.base ≠ .none →
          ∃ baseText, c.render table.base = .ok baseText ∧ base = " : " ++ baseText) ∧
        text = "VFTable for [" ++ owner ++ "<vfptr_offset=" ++
          toString table.pointerOffset.toInt ++ ">" ++ base ++ "] " ++
          table.names.tableName.getD "" ++ ": \x7b" ++
          String.intercalate "," table.names.methods ++ "\x7d" := by
  have hrecord : ∀ {r}, c.find? i = some r →
      r.render (c.renderWithin (maxDepth - 1) [i]) = .ok text := by
    intro r hr
    rw [← h]
    exact (renderWithin_succ hr List.not_mem_nil (maxDepth - 1)).symm
  have hown : ∀ {j text}, c.renderWithin (maxDepth - 1) [i] j = .ok text →
      c.render j = .ok text :=
    render_of_renderWithin_ok hc (Nat.sub_le _ _)
  refine ⟨?_, ?_, ?_, ?_⟩
  -- Without a record the text is the name of a primitive.
  · intro hr
    rw [render, renderWithin_of_none hr, renderUnstored] at h
    split at h
    · rename_i name hname
      rw [hname, Except.ok.inj h]
    · rw [stop_of_no_placeholders hc] at h
      cases h
  · intro shape hr
    exact (Except.ok.inj (hrecord hr)).symm
  · intro kind bytes hr
    exact (Except.ok.inj (hrecord hr)).symm
  · intro table hr
    have htable := hrecord hr
    obtain ⟨e, _, heq⟩ | ⟨owner, howner, hhas, heq⟩ | ⟨_, e, _, _, _, heq⟩ |
      ⟨owner, base, howner, hhas, hbase, heq⟩ :=
      table.render_cases (c.renderWithin (maxDepth - 1) [i])
    · cases heq.symm.trans htable
    -- The table has no base.
    · refine ⟨owner, "", hown howner, fun _ => rfl, fun hne => ?_, ?_⟩
      · exact absurd (VirtualTable.hasBase_iff.2 hne) (Bool.eq_false_iff.1 hhas)
      · exact Except.ok.inj (htable.symm.trans heq)
    · cases heq.symm.trans htable
    -- The base is rendered as the owner is.
    · refine ⟨owner, " : " ++ base, hown howner, fun hnone => ?_,
        fun _ => ⟨base, hown hbase, rfl⟩, ?_⟩
      · exact absurd hnone (VirtualTable.hasBase_iff.1 hhas)
      · exact Except.ok.inj (htable.symm.trans heq)

/-- The owner of the table is a shape that is stored at the index of a primitive type, and its base
    is a table that belongs to a primitive type. -/
theorem render_ok_parts_stored_owner :
    let base : Record := .virtualTable ⟨⟨0x75⟩, .none, 0, ⟨some "B", []⟩⟩
    let table : Record := .virtualTable ⟨⟨0x74⟩, ⟨0x1000⟩, -4, ⟨none, ["m", "n"]⟩⟩
    let c := (((Catalog.empty false).insert ⟨0x74⟩ (.tableShape ⟨[.thin]⟩)).insert ⟨0x1000⟩
      base).insert ⟨0x1001⟩ table
    c.placeholders = false ∧ ∃ text owner baseText, c.render ⟨0x1001⟩ = .ok text ∧
      c.render ⟨0x74⟩ = .ok owner ∧ c.render ⟨0x1000⟩ = .ok baseText ∧
      text = "VFTable for [" ++ owner ++ "<vfptr_offset=" ++ "-4" ++ ">" ++ (" : " ++ baseText) ++
        "] " ++ "" ++ ": \x7b" ++ "m,n" ++ "\x7d" := by
  intro base table c
  obtain ⟨_, _, _, hparts⟩ := render_ok_parts (c := c) (i := ⟨0x1001⟩) rfl rfl
  obtain ⟨owner, _, howner, _, hbase, htext⟩ := hparts _ rfl
  obtain ⟨baseText, hbaseText, rfl⟩ := hbase nofun
  exact ⟨rfl, _, owner, baseText, rfl, howner, hbaseText, htext⟩

/-! ### The records elsewhere -/

/-- Catalogs that agree on every index that `i` reaches render it alike, wherever it stands. -/
theorem renderWithin_congr (hflag : c.placeholders = c'.placeholders)
    (h : ∀ j, c.Reaches i j → c.find? j = c'.find? j) (budget : Nat)
    (inProgress : List TypeIndex) :
    c.renderWithin budget inProgress i = c'.renderWithin budget inProgress i := by
  induction budget using Nat.strongRecOn generalizing i inProgress with
  | ind budget ih =>
    -- The index itself is reached, so both catalogs have the same record at it.
    have hfind := h i .here
    cases hr : c.find? i with
    | none =>
      rw [renderWithin_of_none hr, renderWithin_of_none (hfind.symm.trans hr),
        renderUnstored_congr hflag]
    | some r =>
      have hr' : c'.find? i = some r := hfind.symm.trans hr
      by_cases hi : i ∈ inProgress
      · rw [renderWithin_of_mem hr hi, renderWithin_of_mem hr' hi, stop_congr hflag]
      · cases budget with
        | zero => rw [renderWithin_zero hr hi, renderWithin_zero hr' hi, stop_congr hflag]
        | succ budget =>
          rw [renderWithin_succ hr hi, renderWithin_succ hr' hi]
          -- What a target reaches, the record reaches.
          refine Record.render_congr fun j hj => ?_
          refine ih budget (Nat.lt_succ_self budget) (fun k hk => ?_) (i :: inProgress)
          exact h k (.head ⟨r, hr, hj⟩ hk)

/-- Catalogs that are set alike and agree on every index that `i` reaches render it to the same text
    or fail with the same error.  So a record that is stored, or stored instead of another, at an
    index that `i` does not reach has no part in it. -/
theorem render_local (c : Catalog) (i : TypeIndex) :
    (∀ c' : Catalog, c.placeholders = c'.placeholders →
      (∀ j, c.Reaches i j → c.find? j = c'.find? j) → c.render i = c'.render i) ∧
    ∀ k r, ¬ c.Reaches i k → (c.insert k r).render i = c.render i := by
  refine ⟨fun c' hflag h => renderWithin_congr hflag h maxDepth [], fun k r hk => ?_⟩
  have hfind : ∀ j, c.Reaches i j → c.find? j = (c.insert k r).find? j := by
    intro j hj
    rw [find?_insert, if_neg]
    rintro rfl
    exact hk hj
  have hflag : c.placeholders = (c.insert k r).placeholders := rfl
  exact (renderWithin_congr hflag hfind maxDepth []).symm

/-- The table extends itself, and what is stored behind it is another one that extends the first. -/
theorem render_local_behind_cycle :
    let table (owner base : TypeIndex) : Record := .virtualTable ⟨owner, base, 0, ⟨none, []⟩⟩
    let c := (Catalog.empty false).insert ⟨0x1000⟩ (table ⟨0x74⟩ ⟨0x1000⟩)
    let c' := c.insert ⟨0x1001⟩ (table ⟨0x74⟩ ⟨0x1000⟩)
    c.placeholders = c'.placeholders ∧
      (∀ j, c.Reaches ⟨0x1000⟩ j → c.find? j = c'.find? j) ∧ ¬ c.Reaches ⟨0x1000⟩ ⟨0x1001⟩ ∧
      c.render ⟨0x1000⟩ = c'.render ⟨0x1000⟩ ∧ c'.render ⟨0x1000⟩ = c.render ⟨0x1000⟩ := by
  intro table c c'
  -- The table refers to itself and to a primitive, so no more is reached.
  have hreach : ∀ {j}, c.Reaches ⟨0x1000⟩ j → j = ⟨0x1000⟩ ∨ j = ⟨0x74⟩ := by
    intro j hj
    induction hj with
    | here => exact .inl rfl
    | step _ href ih =>
      obtain ⟨r, hr, hmem⟩ := href
      rcases ih with rfl | rfl
      · cases hr
        have htargets : _ ∈ ([⟨0x74⟩, ⟨0x1000⟩] : List TypeIndex) := hmem
        simpa [or_comm] using htargets
      · cases hr
  have hbehind : ¬ c.Reaches ⟨0x1000⟩ ⟨0x1001⟩ := by
    intro h
    rcases hreach h with h | h <;> cases h
  have hfind : ∀ j, c.Reaches ⟨0x1000⟩ j → c.find? j = c'.find? j := by
    intro j hj
    rcases hreach hj with rfl | rfl <;> rfl
  obtain ⟨hagree, hinsert⟩ := render_local c ⟨0x1000⟩
  exact ⟨rfl, hfind, hbehind, hagree c' rfl hfind, hinsert ⟨0x1001⟩ _ hbehind⟩

end Catalog

end TypeStream
