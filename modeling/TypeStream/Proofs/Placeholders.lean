import TypeStream.Catalog

/-!
# Rendering with placeholders

A catalog with placeholders and one without render alike until something stops them.  There the
one gives up with an error, while the other writes a placeholder and goes on, possibly into further
obstacles.  Since the text of an index is part of the text of every record around it, the
placeholder for the error is still to be found in the end.

## Key results

- `Record.render_marks`: the two ways to render agree on a record if they agree on its targets
- `Catalog.renderWithin_marks`: they agree inside any records in progress, with any budget
- `Catalog.render_placeholders`: what rendering with placeholders gives
-/

namespace TypeStream

/-- The catalog with the same records that is set as given. -/
def Catalog.withPlaceholders (c : Catalog) (placeholders : Bool) : Catalog :=
  { c with placeholders }

/-- The second result is the text that the first one is, or a text that holds the placeholder for
    the error that the first one is. -/
inductive Catalog.Marks : Except Error String → Except Error String → Prop
  | same (text : String) : Marks (.ok text) (.ok text)
  | marked {o : Obstacle} {j : TypeIndex} {text : String} :
      (o.placeholder j).toList <:+: text.toList → Marks (.error (o.error j)) (.ok text)

open Catalog (Marks)

/-- With placeholders there is always a text. -/
theorem Catalog.Marks.exists_ok {plain marking : Except Error String} (h : Marks plain marking) :
    ∃ text, marking = .ok text := by
  cases h with
  | same text => exact ⟨text, rfl⟩
  | marked => exact ⟨_, rfl⟩

/-- Without them the error is that of one of the three obstacles. -/
theorem Catalog.Marks.exists_obstacle {plain marking : Except Error String}
    (h : Marks plain marking) {e : Error} (he : plain = .error e) :
    ∃ (o : Obstacle) (j : TypeIndex), e = o.error j := by
  cases h with
  | same text => exact nomatch he
  | marked => exact ⟨_, _, (Except.error.inj he).symm⟩

/-! ### Texts inside texts -/

/-- What stands in a text stands in it behind any other text. -/
theorem infix_append_of_infix {part whole : String} (h : part.toList <:+: whole.toList)
    (before : String) : part.toList <:+: (before ++ whole).toList := by
  rw [String.toList_append]
  exact h.trans (List.suffix_append _ _).isInfix

/-- A text stands in front of what is put behind it. -/
theorem infix_append_self (part after : String) : part.toList <:+: (part ++ after).toList := by
  rw [String.toList_append]
  exact (List.prefix_append _ _).isInfix

namespace VirtualTable

variable (t : VirtualTable)

/-- The text of a table holds that of its owner. -/
theorem infix_text_owner (owner : String) (base : Option String) :
    owner.toList <:+: (t.text owner base).toList := by
  unfold text
  simp only [String.append_assoc]
  apply infix_append_of_infix
  apply infix_append_self

theorem infix_text_base (owner base : String) :
    base.toList <:+: (t.text owner (some base)).toList := by
  unfold text
  simp only [String.append_assoc]
  -- Six pieces stand in front of the base.
  iterate 6 apply infix_append_of_infix
  apply infix_append_self

/-! ### One record -/

/-- A table whose owner and base are rendered alike is rendered alike: an error at the owner or at
    the base is marked in the text of the table. -/
theorem render_marks {plain marking : TypeIndex → Except Error String}
    (h : ∀ j, Marks (plain j) (marking j)) : Marks (t.render plain) (t.render marking) := by
  unfold render
  -- The one with placeholders always has both texts.
  have howner := h t.owner
  generalize plain t.owner = a, marking t.owner = a' at howner
  have hbase := h t.base
  generalize plain t.base = b, marking t.base = b' at hbase
  by_cases hhas : t.hasBase = true
  · simp only [hhas, ↓reduceIte]
    cases howner with
    | same owner =>
      cases hbase with
      | same base => exact .same _
      | marked hin => exact .marked (hin.trans (t.infix_text_base _ _))
    | marked hin =>
      cases hbase with
      | same base => exact .marked (hin.trans (t.infix_text_owner _ _))
      | marked _ => exact .marked (hin.trans (t.infix_text_owner _ _))
  · simp only [hhas]
    cases howner with
    | same owner => exact .same _
    | marked hin => exact .marked (hin.trans (t.infix_text_owner _ _))

end VirtualTable

/-- A record is rendered with a placeholder inside if one of its parts is, and else as without. -/
theorem Record.render_marks {plain marking : TypeIndex → Except Error String}
    (h : ∀ j, Marks (plain j) (marking j)) (r : Record) :
    Marks (r.render plain) (r.render marking) := by
  cases r with
  | virtualTable table => exact table.render_marks h
  | tableShape shape => exact .same _
  | unknown kind bytes => exact .same _

/-! ### Catalogs -/

namespace Catalog

variable (c : Catalog)

/-- Where rendering stops, an error or its placeholder is given. -/
theorem stop_marks (o : Obstacle) (i : TypeIndex) :
    Marks ((c.withPlaceholders false).stop o i) ((c.withPlaceholders true).stop o i) :=
  .marked List.infix_rfl

/-- An index without a record is rendered as a primitive type both times, or stops both times. -/
theorem renderUnstored_marks (i : TypeIndex) :
    Marks ((c.withPlaceholders false).renderUnstored i)
      ((c.withPlaceholders true).renderUnstored i) := by
  unfold renderUnstored
  cases Primitive.name? i with
  | some name => exact .same name
  | none => exact c.stop_marks .unresolved i

/-- Inside the same records in progress and with the same budget, the two ways to render agree up
    to the first obstacle. -/
theorem renderWithin_marks (budget : Nat) (inProgress : List TypeIndex) (i : TypeIndex) :
    Marks ((c.withPlaceholders false).renderWithin budget inProgress i)
      ((c.withPlaceholders true).renderWithin budget inProgress i) := by
  induction budget using Nat.strongRecOn generalizing inProgress i with
  | ind budget ih =>
    -- Both catalogs have the same records, so they take the same branch.
    have hfind : ∀ placeholders, (c.withPlaceholders placeholders).find? i = c.find? i :=
      fun _ => rfl
    cases hr : c.find? i with
    | none =>
      simp only [renderWithin_of_none ((hfind _).trans hr)]
      exact c.renderUnstored_marks i
    | some r =>
      by_cases hi : i ∈ inProgress
      · simp only [renderWithin_of_mem ((hfind _).trans hr) hi]
        exact c.stop_marks .cycle i
      · cases budget with
        | zero =>
          simp only [renderWithin_zero ((hfind _).trans hr) hi]
          exact c.stop_marks .tooDeep i
        | succ budget =>
          simp only [renderWithin_succ ((hfind _).trans hr) hi]
          exact Record.render_marks (ih budget (Nat.lt_succ_self budget) (i :: inProgress)) r

/-- A placeholder has one word for its obstacle, and the index. -/
theorem Obstacle.placeholder_eq (o : Obstacle) (j : TypeIndex) :
    o.placeholder j =
      (match o with
        | unresolved => "<unresolved "
        | cycle => "<cycle "
        | tooDeep => "<too deep ") ++ j.text ++ ">" := by
  cases o <;> rfl

/-- Rendering with placeholders always gives a text.  Where rendering without them gives one it is
    the same, and where that fails the text holds the placeholder for its error. -/
theorem render_placeholders (i : TypeIndex) :
    ∃ text, (c.withPlaceholders true).render i = .ok text ∧
      (∀ plain, (c.withPlaceholders false).render i = .ok plain → plain = text) ∧
      (∀ j, (c.withPlaceholders false).render i = .error (.unresolved j) →
        ("<unresolved " ++ j.text ++ ">").toList <:+: text.toList) ∧
      (∀ j, (c.withPlaceholders false).render i = .error (.cyclic j) →
        ("<cycle " ++ j.text ++ ">").toList <:+: text.toList) ∧
      (∀ j depth, (c.withPlaceholders false).render i = .error (.tooDeep j depth) →
        ("<too deep " ++ j.text ++ ">").toList <:+: text.toList) := by
  have hmarks := c.renderWithin_marks maxDepth [] i
  change Marks ((c.withPlaceholders false).render i) ((c.withPlaceholders true).render i) at hmarks
  generalize (c.withPlaceholders false).render i = plain,
    (c.withPlaceholders true).render i = marking at hmarks
  cases hmarks with
  | same text => exact ⟨text, rfl, fun _ h => (Except.ok.inj h).symm, nofun, nofun, nofun⟩
  | @marked o j text hin =>
    rw [Obstacle.placeholder_eq] at hin
    -- The error tells which obstacle was met, and so which placeholder there is.
    cases o with
    | unresolved =>
      refine ⟨text, rfl, nofun, ?_, nofun, nofun⟩
      rintro _ ⟨⟩
      exact hin
    | cycle =>
      refine ⟨text, rfl, nofun, nofun, ?_, nofun⟩
      rintro _ ⟨⟩
      exact hin
    | tooDeep =>
      refine ⟨text, rfl, nofun, nofun, nofun, ?_⟩
      rintro _ _ ⟨⟩
      exact hin

/-- The owner of this table extends itself, and the table extends another one that is missing.
    Rendering stops at the owner's cycle; the placeholder for it is in the text. -/
theorem render_placeholders_two_obstacles :
    let table (owner base : TypeIndex) : Record := .virtualTable ⟨owner, base, 0, ⟨none, []⟩⟩
    let c := ((Catalog.empty false).insert ⟨0x1000⟩ (table ⟨0x74⟩ ⟨0x1000⟩)).insert ⟨0x1001⟩
      (table ⟨0x1000⟩ ⟨0x2000⟩)
    (c.withPlaceholders false).render ⟨0x1001⟩ = .error (.cyclic ⟨0x1000⟩) ∧
      ∃ text, (c.withPlaceholders true).render ⟨0x1001⟩ = .ok text ∧
        ("<cycle " ++ (⟨0x1000⟩ : TypeIndex).text ++ ">").toList <:+: text.toList := by
  intro table c
  have hplain : (c.withPlaceholders false).render ⟨0x1001⟩ = .error (.cyclic ⟨0x1000⟩) := rfl
  obtain ⟨text, htext, _, _, hcycle, _⟩ := c.render_placeholders ⟨0x1001⟩
  exact ⟨hplain, text, htext, hcycle ⟨0x1000⟩ hplain⟩

end Catalog

end TypeStream
