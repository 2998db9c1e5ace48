import Mathlib.Data.List.Chain
import Mathlib.Data.List.Nodup
import TypeStream.Proofs.RenderingContexts

/-!
# Where rendering fails

Rendering goes from a table to its owner, and to its base once the owner has been rendered.  The
records in progress are the walk that it has taken, so where it fails they tell how it got there:
every record on the walk stands there once, and where the walk turns to a base the owner beside it
is rendered without an error, also on its own.  The walk ends at the index in the error, and the
kind of error tells how that index relates to the walk.

## Key results

- `Catalog.diagnosis_of_renderWithin_error`: an error is about the end of the walk taken so far
- `Catalog.render_error_walk`: the same for rendering as it is called
-/

namespace TypeStream.Catalog

variable {c : Catalog} {i j k : TypeIndex} {path : List TypeIndex}

/-! ### Walks in the order of rendering -/

/-- Rendering goes on from `i` to `j`, which is the owner of the table at `i`, or its base where the
    owner is rendered on its own. -/
inductive Follows (c : Catalog) (i : TypeIndex) : TypeIndex → Prop
  | owner {table : VirtualTable} : c.find? i = some (.virtualTable table) → Follows c i table.owner
  | base {table : VirtualTable} : c.find? i = some (.virtualTable table) → table.hasBase = true →
      (∃ text, c.render table.owner = .ok text) → Follows c i table.base

theorem Follows.refers (h : c.Follows i j) : c.Refers i j := by
  cases h with
  | owner hfind => exact ⟨_, hfind, VirtualTable.owner_mem_targets _⟩
  | base hfind hhas _ => exact ⟨_, hfind, VirtualTable.base_mem_targets _ hhas⟩

/-- Rendering gets from `i` to `j` through the records of the path, which are all different. -/
structure Descent (c : Catalog) (i : TypeIndex) (path : List TypeIndex) (j : TypeIndex) : Prop where
  starts : (path ++ [j]).head? = some i
  follows : (path ++ [j]).IsChain c.Follows
  distinct : path.Nodup

/-- Rendering starts at the index that it was asked for, inside of no record. -/
theorem Descent.start (c : Catalog) (i : TypeIndex) : c.Descent i [] i :=
  ⟨rfl, .singleton i, List.nodup_nil⟩

/-- The walk goes on from a record that is not on it yet. -/
theorem Descent.next (h : c.Descent i path j) (hj : j ∉ path) (hjk : c.Follows j k) :
    c.Descent i (path ++ [j]) k where
  starts := by
    rw [List.head?_append, h.starts]
    rfl
  follows := by
    apply h.follows.append (.singleton k)
    simpa using hjk
  distinct := by
    rw [List.nodup_append]
    refine ⟨h.distinct, List.nodup_singleton j, ?_⟩
    intro k hk l hl heq
    rw [heq, List.mem_singleton.1 hl] at hk
    exact hj hk

/-- Whatever record the walk goes through, there is a way from it to the end. -/
theorem Descent.leads (h : c.Descent i path j) : ∀ k ∈ path, c.Leads k j := by
  have hfollows := h.follows
  clear h
  induction path with
  | nil => exact nofun
  | cons k rest ih =>
    -- The record leads to the one behind it on the path, and from there to the end.
    obtain ⟨hfirst, hrest⟩ := List.isChain_cons.1 hfollows
    have hleads := ih hrest
    refine List.forall_mem_cons.2 ⟨?_, hleads⟩
    cases rest with
    | nil => exact ⟨j, (hfirst j rfl).refers, .here⟩
    | cons m rest =>
      obtain ⟨l, href, hreach⟩ := hleads m List.mem_cons_self
      exact ⟨m, (hfirst m rfl).refers, .head href hreach⟩

/-- The index that rendering has come to is reached from the one that it was asked for. -/
theorem Descent.reaches (h : c.Descent i path j) : c.Reaches i j := by
  have hstart := h.starts
  cases path with
  | nil =>
    rw [← Option.some.inj hstart]
    exact .here
  | cons k rest =>
    obtain ⟨m, href, hreach⟩ := h.leads k List.mem_cons_self
    rw [← Option.some.inj hstart]
    exact .head href hreach

/-- All records on the way are stored. -/
theorem Descent.stored (h : c.Descent i path j) : ∀ k ∈ path, c.contains k = true := by
  intro k hk
  obtain ⟨m, href, _⟩ := h.leads k hk
  exact href.contains

/-! ### Errors -/

/-- What an error says about the walk that rendering has taken, and the index at its end. -/
inductive Diagnosis (c : Catalog) (path : List TypeIndex) (j : TypeIndex) : Error → Prop
  | unresolved : ¬ c.Resolves j → Diagnosis c path j (.unresolved j)
  | cyclic : j ∈ path → Diagnosis c path j (.cyclic j)
  | tooDeep : path.length = maxDepth → c.contains j = true → j ∉ path →
      Diagnosis c path j (.tooDeep j maxDepth)

/-- An error is about the end of a walk, which goes on from the records in progress. -/
theorem diagnosis_of_renderWithin_error (hc : c.placeholders = false) {budget : Nat}
    {inProgress : List TypeIndex} {e : Error} (hwalk : c.Descent i inProgress.reverse k)
    (hbudget : inProgress.length + budget = maxDepth)
    (h : c.renderWithin budget inProgress k = .error e) :
    ∃ path j, c.Descent i path j ∧ path.length ≤ maxDepth ∧ c.Diagnosis path j e := by
  induction budget using Nat.strongRecOn generalizing inProgress k with
  | ind budget ih =>
    have hlength : inProgress.reverse.length ≤ maxDepth := by
      rw [List.length_reverse]
      omega
    obtain ⟨hr, heq⟩ | ⟨r, hr, hk, heq⟩ | ⟨r, hr, hk, rfl, heq⟩ | ⟨r, rest, hr, hk, rfl, heq⟩ :=
      renderWithin_cases hc budget inProgress k
    · rw [heq] at h
      split at h
      · exact nomatch h
      · rename_i hprimitive
        rw [← Except.error.inj h]
        -- Neither stored nor primitive: the walk ends at the missing record.
        refine ⟨_, k, hwalk, hlength, .unresolved ?_⟩
        exact fun hres => hres.elim (not_contains_of_find? hr) hprimitive
    -- The record is on the walk already.
    · rw [heq] at h
      rw [← Except.error.inj h]
      exact ⟨_, k, hwalk, hlength, .cyclic (List.mem_reverse.2 hk)⟩
    · rw [heq] at h
      rw [← Except.error.inj h]
      -- The budget is used up, so the walk is as long as it may be.
      refine ⟨_, k, hwalk, hlength, .tooDeep ?_ (contains_of_find? hr) ?_⟩
      · rw [List.length_reverse]
        exact hbudget
      · rwa [List.mem_reverse]
    · rw [heq] at h
      -- The walk goes on from the record, which is not on it yet, to the owner or to the base.
      have hnext : ∀ {j}, c.Follows k j → c.Descent i (k :: inProgress).reverse j := by
        intro j hj
        rw [List.reverse_cons]
        exact hwalk.next (by rwa [List.mem_reverse]) hj
      have hbudget' : (k :: inProgress).length + rest = maxDepth := by
        rw [List.length_cons]
        omega
      obtain ⟨table, rfl, howner | ⟨hhas, ⟨text, howner⟩, hbase⟩⟩ :=
        Record.exists_table_of_render_error h
      -- The owner fails, or it renders and the base fails.
      · exact ih rest (Nat.lt_succ_self rest) (hnext (.owner hr)) hbudget' howner
      · have hrenders := render_of_renderWithin_ok hc (by omega) howner
        have hwalk := hnext (.base hr hhas ⟨text, hrenders⟩)
        exact ih rest (Nat.lt_succ_self rest) hwalk hbudget' hbase

/-- Without placeholders an error tells the truth about the walk that rendering has taken, from the
    owner of each table to its base.  The walk goes through at most as many records as may be
    rendered inside each other, all stored and different, and ends at the index in the error.  That
    index does not resolve; or it is one of the records on the walk, which is a way back to it; or
    it is stored, but not on the walk, which has the greatest length there is. -/
theorem render_error_walk (hc : c.placeholders = false) {e : Error} (h : c.render i = .error e) :
    ∃ path j, c.Descent i path j ∧ path.length ≤ maxDepth ∧
      (∀ k ∈ path, c.contains k = true) ∧ c.Reaches i j ∧
      (e = .unresolved j ∧ c.contains j = false ∧ j.isPrimitive = false ∨
        e = .cyclic j ∧ j ∈ path ∧ c.Leads j j ∨
        e = .tooDeep j maxDepth ∧ path.length = maxDepth ∧ c.contains j = true ∧ j ∉ path) := by
  obtain ⟨path, j, hdescent, hlength, hdiagnosis⟩ :=
    diagnosis_of_renderWithin_error hc (.start c i) (Nat.zero_add maxDepth) h
  refine ⟨path, j, hdescent, hlength, hdescent.stored, hdescent.reaches, ?_⟩
  cases hdiagnosis with
  | unresolved hnot =>
    obtain ⟨hstored, hprimitive⟩ := not_or.1 hnot
    exact .inl ⟨rfl, Bool.eq_false_iff.2 hstored, Bool.eq_false_iff.2 hprimitive⟩
  | cyclic hj => exact .inr (.inl ⟨rfl, hj, hdescent.leads j hj⟩)
  | tooDeep hfull hstored hj => exact .inr (.inr ⟨rfl, hfull, hstored, hj⟩)

/-- The owner of the second table is the first one, which is rendered; its base is a third table,
    which belongs to a primitive type and extends the second one again. -/
theorem render_error_walk_back :
    let table (owner base : TypeIndex) : Record := .virtualTable ⟨owner, base, 0, ⟨none, []⟩⟩
    let c := (((Catalog.empty false).insert ⟨0x1000⟩ (table ⟨0x74⟩ .none)).insert ⟨0x1001⟩
      (table ⟨0x1000⟩ ⟨0x1002⟩)).insert ⟨0x1002⟩ (table ⟨0x74⟩ ⟨0x1001⟩)
    c.placeholders = false ∧ c.render ⟨0x1001⟩ = .error (.cyclic ⟨0x1001⟩) ∧
      ∃ path, c.Descent ⟨0x1001⟩ path ⟨0x1001⟩ ∧ path.length ≤ maxDepth ∧
        ⟨0x1001⟩ ∈ path ∧ c.Leads ⟨0x1001⟩ ⟨0x1001⟩ := by
  intro table c
  have herror : c.render ⟨0x1001⟩ = .error (.cyclic ⟨0x1001⟩) := rfl
  obtain ⟨path, j, hdescent, hlength, _, _, ⟨he, _⟩ | ⟨he, hj, hleads⟩ | ⟨he, _⟩⟩ :=
    render_error_walk (c := c) rfl herror
  · exact nomatch he
  · obtain rfl := Error.cyclic.inj he
    exact ⟨rfl, herror, path, hdescent, hlength, hj, hleads⟩
  · exact nomatch he

end TypeStream.Catalog
