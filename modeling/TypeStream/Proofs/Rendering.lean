import TypeStream.Catalog.Graph

/-!
# When rendering succeeds

Rendering keeps the records in progress and counts down a budget.  What comes of it can be told
from the graph alone: without placeholders an index is rendered exactly when every index that it
reaches resolves, and no walk from it visits more records than may be rendered inside each other.
A cycle needs no condition of its own, because around it there are walks of any length.

## Key results

- `Catalog.bounded_of_renderWithin_ok`: what a rendered index says about the walks from it
- `Catalog.fault_of_renderWithin_error`: what an error says about them
- `Catalog.render_ok_iff`: the two together, for rendering as it is called
-/

namespace TypeStream

/-! ### One record -/

namespace VirtualTable

variable (t : VirtualTable)

theorem owner_mem_targets : t.owner ∈ t.targets := by
  unfold targets
  split <;> exact List.mem_cons_self

theorem base_mem_targets (h : t.hasBase = true) : t.base ∈ t.targets := by
  simp [targets, h]

/-- What rendering a table does: the owner and then the base can fail, and else both are in the
    text. -/
theorem render_cases (lookUp : TypeIndex → Except Error String) :
    (∃ e, lookUp t.owner = .error e ∧ t.render lookUp = .error e) ∨
    (∃ owner, lookUp t.owner = .ok owner ∧ t.hasBase = false ∧
      t.render lookUp = .ok (t.text owner none)) ∨
    (∃ owner e, lookUp t.owner = .ok owner ∧ t.hasBase = true ∧ lookUp t.base = .error e ∧
      t.render lookUp = .error e) ∨
    (∃ owner base, lookUp t.owner = .ok owner ∧ t.hasBase = true ∧ lookUp t.base = .ok base ∧
      t.render lookUp = .ok (t.text owner (some base))) := by
  simp only [render, bind, Except.bind]
  cases lookUp t.owner with
  | error e => exact .inl ⟨e, rfl, rfl⟩
  | ok owner =>
    -- The owner has a text, so the base is the next to be looked up.
    refine .inr ?_
    cases hhas : t.hasBase with
    | false => exact .inl ⟨owner, rfl, rfl, rfl⟩
    | true =>
      refine .inr ?_
      cases lookUp t.base with
      | error e => exact .inl ⟨owner, e, rfl, rfl, rfl, rfl⟩
      | ok base => exact .inr ⟨owner, base, rfl, rfl, rfl, rfl⟩

end VirtualTable

namespace Record

variable {lookUp : TypeIndex → Except Error String} {r : Record}

/-- A record is rendered only if every index that it refers to is. -/
theorem exists_ok_of_render_ok {text : String} (h : r.render lookUp = .ok text) :
    ∀ j ∈ r.targets, ∃ text, lookUp j = .ok text := by
  cases r with
  | virtualTable table =>
    change table.render lookUp = .ok text at h
    show ∀ j ∈ table.targets, _
    obtain ⟨e, _, heq⟩ | ⟨owner, howner, hhas, _⟩ | ⟨_, e, _, _, _, heq⟩ |
      ⟨owner, base, howner, hhas, hbase, _⟩ := table.render_cases lookUp
    -- Where a lookup fails, the table would have no text.
    · exact nomatch heq.symm.trans h
    · simp [VirtualTable.targets, hhas, howner]
    · exact nomatch heq.symm.trans h
    · simp [VirtualTable.targets, hhas, howner, hbase]
  | tableShape shape => exact fun j hj => nomatch hj
  | unknown kind bytes => exact fun j hj => nomatch hj

/-- A record is not rendered only because of the owner of a table or, where that is rendered,
    because of its base. -/
theorem exists_table_of_render_error {e : Error} (h : r.render lookUp = .error e) :
    ∃ table, r = .virtualTable table ∧ (lookUp table.owner = .error e ∨
      table.hasBase = true ∧ (∃ text, lookUp table.owner = .ok text) ∧
        lookUp table.base = .error e) := by
  cases r with
  | virtualTable table =>
    change table.render lookUp = .error e at h
    refine ⟨table, rfl, ?_⟩
    obtain ⟨e', howner, heq⟩ | ⟨_, _, _, heq⟩ | ⟨owner, e', howner, hhas, hbase, heq⟩ |
      ⟨_, _, _, _, _, heq⟩ := table.render_cases lookUp
    · rw [← heq.symm.trans h]
      exact .inl howner
    · exact nomatch heq.symm.trans h
    · rw [← heq.symm.trans h]
      exact .inr ⟨hhas, ⟨owner, howner⟩, hbase⟩
    · exact nomatch heq.symm.trans h
  | tableShape shape => exact nomatch h
  | unknown kind bytes => exact nomatch h

/-- A record is not rendered only because of an index that it refers to. -/
theorem exists_error_of_render_error {e : Error} (h : r.render lookUp = .error e) :
    ∃ j ∈ r.targets, lookUp j = .error e := by
  obtain ⟨table, rfl, howner | ⟨hhas, _, hbase⟩⟩ := exists_table_of_render_error h
  · exact ⟨table.owner, table.owner_mem_targets, howner⟩
  · exact ⟨table.base, table.base_mem_targets hhas, hbase⟩

end Record

namespace Catalog

variable {c : Catalog} {i j k : TypeIndex}

/-! ### Ways along references -/

/-- From `i` there is a way of one reference or more to `j`. -/
def Leads (c : Catalog) (i j : TypeIndex) : Prop := ∃ k, c.Refers i k ∧ c.Reaches k j

/-- What is reached from a target is reached from the record. -/
theorem Reaches.head (h : c.Refers i j) (hjk : c.Reaches j k) : c.Reaches i k := by
  induction hjk with
  | here => exact .step .here h
  | step _ href ih => exact .step ih href

/-- An index is reached in no step or in some. -/
theorem Reaches.eq_or_leads (h : c.Reaches i j) : i = j ∨ c.Leads i j := by
  induction h with
  | here => exact .inl rfl
  | step _ href ih =>
    rcases ih with rfl | ⟨m, hm, hreach⟩
    · exact .inr ⟨_, href, .here⟩
    · exact .inr ⟨m, hm, .step hreach href⟩

/-- From a cycle there are walks of any length, also from whatever reaches it. -/
theorem exists_walk_of_cycle (hcycle : c.Leads j j) (h : c.Reaches k j) (n : Nat) :
    ∃ path, c.Walk (k :: path) ∧ path.length = n := by
  -- On the way to a cycle and around it there is always a next record.
  have hnext : ∀ k, c.Reaches k j → c.Leads k j := by
    intro k hk
    rcases hk.eq_or_leads with rfl | hleads
    · exact hcycle
    · exact hleads
  induction n generalizing k with
  | zero =>
    obtain ⟨m, href, _⟩ := hnext k h
    exact ⟨[], .single href.contains, rfl⟩
  | succ n ih =>
    obtain ⟨m, href, hm⟩ := hnext k h
    obtain ⟨path, hwalk, hlength⟩ := ih hm
    exact ⟨m :: path, .cons href hwalk, congrArg (· + 1) hlength⟩

/-- Where a record is found one is stored. -/
theorem contains_of_find? {r : Record} (h : c.find? i = some r) : c.contains i = true := by
  simp only [find?] at h
  simp [Catalog.contains, OrderedMap.contains, h]

theorem not_contains_of_find? (h : c.find? i = none) : ¬ c.contains i = true := by
  simp only [find?] at h
  simp [Catalog.contains, OrderedMap.contains, h]

/-- A stored record refers to its targets. -/
theorem refers_iff {r : Record} (h : c.find? i = some r) : c.Refers i j ↔ j ∈ r.targets := by
  constructor
  · rintro ⟨r', hr', hj⟩
    rw [h] at hr'
    exact Option.some.inj hr' ▸ hj
  · exact fun hj => ⟨r, h, hj⟩

/-- Every index that `i` reaches resolves, and no walk from it visits more records than the
    budget. -/
structure Bounded (c : Catalog) (budget : Nat) (i : TypeIndex) : Prop where
  resolves : ∀ j, c.Reaches i j → c.Resolves j
  length_le : ∀ path, c.Walk (i :: path) → (i :: path).length ≤ budget

/-- A primitive type that is not stored is bounded by any budget. -/
theorem bounded_of_unstored (h : c.find? i = none) (hi : i.isPrimitive = true) (budget : Nat) :
    c.Bounded budget i := by
  have hstored := not_contains_of_find? h
  constructor
  · intro j hj
    rcases hj.eq_or_leads with rfl | ⟨_, href, _⟩
    · exact .inr hi
    · exact absurd href.contains hstored
  · intro path hwalk
    exact absurd (hwalk.contains i List.mem_cons_self) hstored

/-- The ways from a record go through the indices that it refers to. -/
theorem bounded_succ {r : Record} {budget : Nat} (h : c.find? i = some r)
    (htargets : ∀ j ∈ r.targets, c.Bounded budget j) : c.Bounded (budget + 1) i := by
  constructor
  · intro j hj
    -- What is reached is the record itself, or is reached from a target.
    rcases hj.eq_or_leads with rfl | ⟨k, href, hk⟩
    · exact .inl (contains_of_find? h)
    · exact (htargets k ((refers_iff h).1 href)).resolves j hk
  · intro path hwalk
    -- A walk from the record is the record, or goes on from a target.
    cases hwalk with
    | single => exact Nat.le_add_left 1 budget
    | cons href hrest =>
      have hlength := (htargets _ ((refers_iff h).1 href)).length_le _ hrest
      exact Nat.succ_le_succ hlength

/-! ### Rendering inside other records -/

/-- Without placeholders rendering stops with an error. -/
theorem stop_of_no_placeholders (hc : c.placeholders = false) (o : Obstacle) (i : TypeIndex) :
    c.stop o i = .error (o.error i) := by
  simp [stop, hc]

/-- Without placeholders an index without a record is a primitive type or unresolved. -/
theorem renderUnstored_eq (hc : c.placeholders = false) (i : TypeIndex) :
    c.renderUnstored i =
      if i.isPrimitive then .ok (Primitive.describe i.toNat) else .error (.unresolved i) := by
  simp only [renderUnstored, Primitive.name?]
  cases hi : i.isPrimitive
  · simp [stop_of_no_placeholders hc, Obstacle.error]
  · simp

/-- What rendering an index does without placeholders. -/
theorem renderWithin_cases (hc : c.placeholders = false) (budget : Nat)
    (inProgress : List TypeIndex) (i : TypeIndex) :
    (c.find? i = none ∧ c.renderWithin budget inProgress i =
      if i.isPrimitive then .ok (Primitive.describe i.toNat) else .error (.unresolved i)) ∨
    (∃ r, c.find? i = some r ∧ i ∈ inProgress ∧
      c.renderWithin budget inProgress i = .error (.cyclic i)) ∨
    (∃ r, c.find? i = some r ∧ i ∉ inProgress ∧ budget = 0 ∧
      c.renderWithin budget inProgress i = .error (.tooDeep i maxDepth)) ∨
    (∃ r rest, c.find? i = some r ∧ i ∉ inProgress ∧ budget = rest + 1 ∧
      c.renderWithin budget inProgress i = r.render (c.renderWithin rest (i :: inProgress))) := by
  cases hr : c.find? i with
  | none =>
    refine .inl ⟨rfl, ?_⟩
    rw [renderWithin_of_none hr, renderUnstored_eq hc]
  | some r =>
    by_cases hi : i ∈ inProgress
    · refine .inr (.inl ⟨r, rfl, hi, ?_⟩)
      rw [renderWithin_of_mem hr hi, stop_of_no_placeholders hc, Obstacle.error]
    · cases budget with
      | zero =>
        refine .inr (.inr (.inl ⟨r, rfl, hi, rfl, ?_⟩))
        rw [renderWithin_zero hr hi, stop_of_no_placeholders hc, Obstacle.error]
      | succ rest =>
        exact .inr (.inr (.inr ⟨r, rest, rfl, hi, rfl, renderWithin_succ hr hi rest⟩))

/-- An index that is rendered is bounded by the budget. -/
theorem bounded_of_renderWithin_ok (hc : c.placeholders = false) {budget : Nat}
    {inProgress : List TypeIndex} {text : String}
    (h : c.renderWithin budget inProgress i = .ok text) : c.Bounded budget i := by
  induction budget using Nat.strongRecOn generalizing inProgress i text with
  | ind budget ih =>
    obtain ⟨hr, heq⟩ | ⟨r, hr, hi, heq⟩ | ⟨r, hr, _, hzero, heq⟩ | ⟨r, rest, hr, _, rfl, heq⟩ :=
      renderWithin_cases hc budget inProgress i
    -- Without a stored record there is only a text for a primitive.
    · rw [heq] at h
      split at h
      · rename_i hi
        exact bounded_of_unstored hr hi budget
      · exact nomatch h
    · rw [heq] at h
      exact nomatch h
    · rw [heq] at h
      exact nomatch h
    · rw [heq] at h
      -- Each index that the record refers to was rendered with what is left of the budget.
      refine bounded_succ hr fun j hj => ?_
      obtain ⟨text, hok⟩ := Record.exists_ok_of_render_ok h j hj
      exact ih rest (Nat.lt_succ_self rest) hok

/-! ### Faults -/

/-- What is wrong with an index that is not rendered: it reaches one that does not resolve, it
    reaches a cycle, or a walk from it visits too many records. -/
inductive Fault (c : Catalog) (budget : Nat) (i : TypeIndex) : Error → Prop
  | unresolved {j : TypeIndex} : c.Reaches i j → ¬ c.Resolves j → Fault c budget i (.unresolved j)
  | cyclic {j : TypeIndex} : c.Reaches i j → c.Leads j j → Fault c budget i (.cyclic j)
  | tooDeep {j : TypeIndex} {path : List TypeIndex} : c.Reaches i j → c.Walk (i :: path) →
      (i :: path).getLast? = some j → budget < (i :: path).length →
      Fault c budget i (.tooDeep j maxDepth)

/-- A fault of a target is one of the record, with one more record on the walk. -/
theorem Fault.head {budget : Nat} {e : Error} (h : c.Refers i j) (hj : c.Fault budget j e) :
    c.Fault (budget + 1) i e := by
  cases hj with
  | unresolved hreach hnot => exact .unresolved (.head h hreach) hnot
  | cyclic hreach hcycle => exact .cyclic (.head h hreach) hcycle
  | tooDeep hreach hwalk hlast hlength =>
    refine .tooDeep (.head h hreach) (.cons h hwalk) ?_ (Nat.succ_lt_succ hlength)
    rw [List.getLast?_cons_cons]
    exact hlast

/-- What has a fault is not bounded. -/
theorem Fault.not_bounded {budget : Nat} {e : Error} (h : c.Fault budget i e) :
    ¬ c.Bounded budget i := by
  intro hbounded
  -- Around a cycle the walks outgrow any budget.
  cases h with
  | unresolved hreach hnot => exact hnot (hbounded.resolves _ hreach)
  | cyclic hreach hcycle =>
    obtain ⟨path, hwalk, hlength⟩ := exists_walk_of_cycle hcycle hreach budget
    have hle := hbounded.length_le path hwalk
    rw [List.length_cons, hlength] at hle
    exact Nat.not_succ_le_self budget hle
  | tooDeep _ hwalk _ hlength => exact Nat.not_lt_of_le (hbounded.length_le _ hwalk) hlength

/-- An index that is not rendered has the fault that the error names. -/
theorem fault_of_renderWithin_error (hc : c.placeholders = false) {budget : Nat}
    {inProgress : List TypeIndex} {e : Error} (hbefore : ∀ k ∈ inProgress, c.Leads k i)
    (h : c.renderWithin budget inProgress i = .error e) : c.Fault budget i e := by
  induction budget using Nat.strongRecOn generalizing inProgress i with
  | ind budget ih =>
    obtain ⟨hr, heq⟩ | ⟨r, hr, hi, heq⟩ | ⟨r, hr, _, rfl, heq⟩ | ⟨r, rest, hr, _, rfl, heq⟩ :=
      renderWithin_cases hc budget inProgress i
    -- Nothing is stored at the index, and it is no primitive.
    · rw [heq] at h
      split at h
      · exact nomatch h
      · rename_i hi
        rw [← Except.error.inj h]
        exact .unresolved .here fun hres => hres.elim (not_contains_of_find? hr) hi
    -- The index is one of those being rendered, which all lead to it.
    · rw [heq] at h
      rw [← Except.error.inj h]
      exact .cyclic .here (hbefore i hi)
    -- No budget is left, so even the walk that ends here is too long.
    · rw [heq] at h
      rw [← Except.error.inj h]
      exact .tooDeep .here (.single (contains_of_find? hr)) rfl Nat.zero_lt_one
    · rw [heq] at h
      obtain ⟨j, hj, herror⟩ := Record.exists_error_of_render_error h
      have href : c.Refers i j := ⟨r, hr, hj⟩
      -- The record itself now stands around `j`, and whatever stood around it still does.
      have hbefore' : ∀ k ∈ i :: inProgress, c.Leads k j := by
        intro k hk
        rcases List.mem_cons.1 hk with rfl | hk
        · exact ⟨j, href, .here⟩
        · obtain ⟨m, hm, hreach⟩ := hbefore k hk
          exact ⟨m, hm, .step hreach href⟩
      exact .head href (ih rest (Nat.lt_succ_self rest) hbefore' herror)

/-! ### Rendering -/

/-- Without placeholders an index is rendered exactly when every index that it reaches is stored or
    a primitive type and every walk from it visits as many records as may be rendered inside each
    other.  Otherwise the error names an index that it reaches: one that does not resolve, one on a
    cycle, or the one at the end of a walk that is too long. -/
theorem render_ok_iff (hc : c.placeholders = false) (i : TypeIndex) :
    ((∃ text, c.render i = .ok text) ↔ (∀ j, c.Reaches i j → c.Resolves j) ∧
      ∀ path, c.Walk (i :: path) → (i :: path).length ≤ maxDepth) ∧
    ∀ e, c.render i = .error e → ∃ j, c.Reaches i j ∧
      (e = .unresolved j ∧ ¬ c.Resolves j ∨ e = .cyclic j ∧ c.Leads j j ∨
        e = .tooDeep j maxDepth ∧ ∃ path, c.Walk (i :: path) ∧ (i :: path).getLast? = some j ∧
          maxDepth < (i :: path).length) := by
  have hfault : ∀ e, c.render i = .error e → c.Fault maxDepth i e := fun e he =>
    fault_of_renderWithin_error hc (by nofun) he
  refine ⟨⟨?_, ?_⟩, ?_⟩
  · rintro ⟨text, hok⟩
    have hbounded := bounded_of_renderWithin_ok hc hok
    exact ⟨hbounded.resolves, hbounded.length_le⟩
  · rintro ⟨hresolves, hlength⟩
    -- If it failed, its fault would lie within the bounds.
    cases hrender : c.render i with
    | ok text => exact ⟨text, rfl⟩
    | error e => exact absurd ⟨hresolves, hlength⟩ (hfault e hrender).not_bounded
  · intro e he
    cases hfault e he with
    | unresolved hreach hnot => exact ⟨_, hreach, .inl ⟨rfl, hnot⟩⟩
    | cyclic hreach hcycle => exact ⟨_, hreach, .inr (.inl ⟨rfl, hcycle⟩)⟩
    | tooDeep hreach hwalk hlast hlength =>
      exact ⟨_, hreach, .inr (.inr ⟨rfl, _, hwalk, hlast, hlength⟩)⟩

/-- The first of two tables belongs to a primitive type; the second one belongs to the first and
    extends itself. -/
theorem render_ok_iff_two_tables :
    let table (owner base : TypeIndex) : Record := .virtualTable ⟨owner, base, 0, ⟨none, []⟩⟩
    let c := ((Catalog.empty false).insert ⟨0x1000⟩ (table ⟨0x74⟩ .none)).insert ⟨0x1001⟩
      (table ⟨0x1000⟩ ⟨0x1001⟩)
    c.placeholders = false ∧
      (∀ path, c.Walk (⟨0x1000⟩ :: path) →
        (⟨0x1000⟩ :: path : List TypeIndex).length ≤ maxDepth) ∧
      c.Leads ⟨0x1001⟩ ⟨0x1001⟩ := by
  intro table c
  obtain ⟨hfirst, _⟩ := render_ok_iff (c := c) rfl ⟨0x1000⟩
  obtain ⟨_, hsecond⟩ := render_ok_iff (c := c) rfl ⟨0x1001⟩
  refine ⟨rfl, (hfirst.1 ⟨_, rfl⟩).2, ?_⟩
  obtain ⟨j, _, ⟨he, _⟩ | ⟨he, hcycle⟩ | ⟨he, _⟩⟩ := hsecond (.cyclic ⟨0x1001⟩) rfl
  · exact nomatch he
  · rw [Error.cyclic.inj he]
    exact hcycle
  · exact nomatch he

end Catalog

end TypeStream
