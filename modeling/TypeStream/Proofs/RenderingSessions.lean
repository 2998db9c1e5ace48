import Mathlib.Computability.StateTransition
import TypeStream.Catalog.Session
import TypeStream.Proofs.Placeholders
import TypeStream.Proofs.Rendering

/-!
# Sessions remember no renders

A render leaves the cell of a session as it found it, whether it gives a text or an error, and
wherever in its depths that error comes from: every way out of a record leads over the step that
takes its index off again.  So a session that has answered any requests stands where one does that
has never rendered, and answers as that one does.

The invariant of a step ties the cell to the renders that are going on: each of them that is inside
its record has one index in the cell, and only the innermost one can hold the cell.

## Key results

- `Catalog.Renderer.Sound.step`: what holds between any two steps
- `Catalog.Renderer.getsTo_answered`: a render that is asked for an index answers
- `Session.serve_render`: what a session that renders nothing answers
- `Session.unwound_afterAll`: a session after any requests
-/

namespace TypeStream

namespace Catalog

/-- Whether the innermost render holds the cell. -/
def Stage.holds : Stage → Bool
  | found _ _ => true
  | leaving _ => true
  | _ => false

/-- How many indices the innermost render has in the cell, if it does not wait for another one. -/
def Stage.entries : Stage → Nat
  | entered _ => 1
  | done _ => 1
  | leaving _ => 1
  | _ => 0

namespace Renderer

variable {c : Catalog} {m m' : Renderer}

/-! ### Steps -/

/-- What holds between any two steps: the cell is in the hands of the innermost render or free, and
    has one index for each render that is inside its record, all of them different. -/
structure Sound (m : Renderer) : Prop where
  stage_ne : m.stage ≠ .fault
  held_eq : m.cell.held = m.stage.holds
  length_eq : m.cell.indices.length = m.waiting.length + m.stage.entries
  nodup : m.cell.indices.Nodup
  length_le : m.cell.indices.length ≤ maxDepth

/-- A render that has just been asked for is sound, with a free cell. -/
theorem Sound.start (i : TypeIndex) : (start i .idle).Sound where
  stage_ne := by simp [Renderer.start]
  held_eq := rfl
  length_eq := rfl
  nodup := List.nodup_nil
  length_le := Nat.zero_le _

/-- A cell that is free can be held. -/
theorem holding_of_free (h : m.cell.held = false) (stage : Stage) :
    m.holding stage = { m with stage, cell := m.cell.hold } := by
  rw [holding, h]
  rfl

/-- The render gets from one state to another in some steps. -/
def GetsTo (c : Catalog) (m m' : Renderer) : Prop := StateTransition.Reaches (step c) m m'

/-- A step of a render leaves it sound. -/
theorem Sound.step (hm : m.Sound) (h : m.step c = some m') : m'.Sound := by
  obtain ⟨stage, waiting, cell⟩ := m
  obtain ⟨hstage, hheld, hlength, hnodup, hle⟩ := hm
  cases stage with
  | asked i =>
    simp only [Renderer.step] at h
    split at h
    · cases h
      exact ⟨by simp, hheld, hlength, hnodup, hle⟩
    -- The cell is free, so the borrow for a stored record is granted.
    · rw [holding_of_free hheld] at h
      cases h
      exact ⟨by simp, rfl, hlength, hnodup, hle⟩
  | found i record =>
    simp only [Renderer.step] at h
    split at h
    · cases h
      exact ⟨by simp, rfl, hlength, hnodup, hle⟩
    · rename_i hi
      split at h
      · cases h
        exact ⟨by simp, rfl, hlength, hnodup, hle⟩
      · rename_i hdeep
        cases h
        exact ⟨by simp, rfl, congrArg (· + 1) hlength, List.nodup_cons.2 ⟨hi, hnodup⟩,
          Nat.lt_of_not_le hdeep⟩
  | entered record =>
    -- A table waits from here on, and its index stays in the cell.
    cases record <;> cases h <;> exact ⟨by simp, hheld, hlength, hnodup, hle⟩
  | done result =>
    -- The index is taken off again when the record is done.
    simp only [Renderer.step] at h
    rw [holding_of_free hheld] at h
    cases h
    exact ⟨by simp, rfl, hlength, hnodup, hle⟩
  | leaving result =>
    cases h
    refine ⟨by simp, rfl, ?_, hnodup.tail, ?_⟩
    · show cell.indices.tail.length = waiting.length
      rw [List.length_tail, hlength]
      rfl
    · show cell.indices.tail.length ≤ maxDepth
      rw [List.length_tail]
      exact Nat.le_trans (Nat.sub_le _ _) hle
  | answered result =>
    -- The table that has waited for the answer goes on, or waits again.
    simp only [Renderer.step] at h
    split at h
    · cases h
    · cases h
      exact ⟨by simp, hheld, hlength, hnodup, hle⟩
    · split at h
      · cases h
        exact ⟨by simp, hheld, hlength, hnodup, hle⟩
      · cases h
        exact ⟨by simp, hheld, hlength, hnodup, hle⟩
    · cases h
      exact ⟨by simp, hheld, hlength, hnodup, hle⟩
  | fault => exact absurd rfl hstage

/-- A run keeps what each of its steps keeps. -/
theorem Sound.getsTo (hm : m.Sound) (h : GetsTo c m m') : m'.Sound := by
  induction h with
  | refl => exact hm
  | tail _ hstep ih => exact ih.step hstep

/-! ### Runs -/

theorem GetsTo.next {m₁ m₂ m₃ : Renderer} (h : m₁.step c = some m₂) (hrest : GetsTo c m₂ m₃) :
    GetsTo c m₁ m₃ :=
  Relation.ReflTransGen.head h hrest

theorem GetsTo.trans {m₁ m₂ m₃ : Renderer} (h : GetsTo c m₁ m₂) (hrest : GetsTo c m₂ m₃) :
    GetsTo c m₁ m₃ :=
  Relation.ReflTransGen.trans h hrest

/-- A render that has gone into a record is done with it once the indices that it asks for have been
    answered. -/
theorem getsTo_done {lookUp : TypeIndex → Except Error String} (cell : Cell)
    (h : ∀ j waiting, GetsTo c ⟨.asked j, waiting, cell⟩ ⟨.answered (lookUp j), waiting, cell⟩)
    (record : Record) (waiting : List Waiting) :
    GetsTo c ⟨.entered record, waiting, cell⟩ ⟨.done (record.render lookUp), waiting, cell⟩ := by
  cases record with
  | virtualTable table =>
    show GetsTo c _ ⟨.done (table.render lookUp), waiting, cell⟩
    -- The owner is asked for in any case, the base only behind an owner that has a text.
    have howner := h table.owner (.owner table :: waiting)
    refine .next rfl (howner.trans ?_)
    have hanswer : ∀ owner, table.hasBase = true →
        step c ⟨.answered (.ok owner), .owner table :: waiting, cell⟩ =
          some ⟨.asked table.base, .base table owner :: waiting, cell⟩ := by
      intro owner hhas
      exact if_pos hhas
    obtain ⟨e, he, heq⟩ | ⟨owner, hok, hhas, heq⟩ | ⟨owner, e, hok, hhas, he, heq⟩ |
      ⟨owner, base, hok, hhas, hbase, heq⟩ := table.render_cases lookUp
    -- In each case the machine makes the moves that the rendering is made of.
    · rw [he, heq]
      exact .next rfl .refl
    · rw [hok, heq]
      exact .next (if_neg (Bool.eq_false_iff.1 hhas)) .refl
    · have hbase := h table.base (.base table owner :: waiting)
      rw [he] at hbase
      rw [hok, heq]
      exact .next (hanswer owner hhas) (hbase.trans (.next rfl .refl))
    · have hanswered := h table.base (.base table owner :: waiting)
      rw [hbase] at hanswered
      rw [hok, heq]
      exact .next (hanswer owner hhas) (hanswered.trans (.next rfl .refl))
  | tableShape shape => exact .next rfl .refl
  | unknown kind bytes => exact .next rfl .refl

/-- A render that is asked for an index answers what rendering it inside the records in progress
    gives, and leaves the cell as it was. -/
theorem getsTo_answered (c : Catalog) (indices : List TypeIndex) {budget : Nat}
    (h : indices.length + budget = maxDepth) (i : TypeIndex) (waiting : List Waiting) :
    GetsTo c ⟨.asked i, waiting, ⟨indices, false⟩⟩
      ⟨.answered (c.renderWithin budget indices i), waiting, ⟨indices, false⟩⟩ := by
  induction budget using Nat.strongRecOn generalizing indices i waiting with
  | ind budget ih =>
    cases hr : c.find? i with
    | none =>
      rw [renderWithin_of_none hr]
      exact .next (by simp [step, hr]) .refl
    | some record =>
      have hfound : step c ⟨.asked i, waiting, ⟨indices, false⟩⟩ =
          some ⟨.found i record, waiting, ⟨indices, true⟩⟩ := by
        simp only [step, hr]
        rfl
      refine .next hfound ?_
      by_cases hi : i ∈ indices
      · rw [renderWithin_of_mem hr hi]
        exact .next (if_pos hi) .refl
      · cases budget with
        | zero =>
          rw [renderWithin_zero hr hi]
          exact .next ((if_neg hi).trans (if_pos (Nat.le_of_eq h.symm))) .refl
        | succ budget =>
          have hroom : ¬ maxDepth ≤ indices.length := by omega
          have hentered : step c ⟨.found i record, waiting, ⟨indices, true⟩⟩ =
              some ⟨.entered record, waiting, ⟨i :: indices, false⟩⟩ :=
            (if_neg hi).trans (if_neg hroom)
          -- Inside the record the list is one longer, and one render less fits into it.
          have hinside := ih budget (Nat.lt_succ_self budget) (i :: indices)
            (by rw [List.length_cons]; omega)
          have hdone := getsTo_done ⟨i :: indices, false⟩ hinside record waiting
          rw [renderWithin_succ hr hi]
          exact .next hentered (hdone.trans (.next rfl (.next rfl .refl)))

/-- A run ends where no step is left. -/
theorem run_of_getsTo (h : GetsTo c m m') (hend : m'.step c = none) : m.run c = m' := by
  induction h using Relation.ReflTransGen.head_induction_on with
  -- A machine that has come to rest is what the run returns.
  | refl =>
    rw [run]
    split
    · rfl
    · rename_i hsome
      cases hend.symm.trans hsome
  | head hstep _ ih =>
    rw [run]
    split
    · rename_i hnone
      cases hnone.symm.trans (Option.mem_def.1 hstep)
    · rename_i hsome
      rwa [Option.some.inj (hsome.symm.trans hstep)]

end Renderer

end Catalog

/-! ### Sessions -/

/-- Whether a request is to change the catalog, and not to render. -/
def Request.changes : Request → Bool
  | render _ => false
  | _ => true

namespace Catalog

/-- The catalog after a request. -/
def after (c : Catalog) : Request → Catalog
  | .store i record => c.insert i record
  | .setPlaceholders placeholders => c.withPlaceholders placeholders
  | .render _ => c

/-- The catalog after requests, in order. -/
def afterAll (c : Catalog) (requests : List Request) : Catalog := requests.foldl after c

/-- Requests to render leave the catalog as it was. -/
theorem afterAll_filter_changes (c : Catalog) (requests : List Request) :
    c.afterAll (requests.filter Request.changes) = c.afterAll requests := by
  unfold afterAll
  rw [List.foldl_filter]
  congr
  funext c request
  cases request <;> rfl

end Catalog

namespace Session

/-- The session after a request. -/
def after (s : Session) (request : Request) : Session := (s.serve request).2

/-- The session after requests, in order. -/
def afterAll (s : Session) (requests : List Request) : Session := requests.foldl after s

/-- A session that renders nothing answers what rendering gives, and renders nothing again. -/
theorem serve_render (c : Catalog) (i : TypeIndex) :
    (fresh c).serve (.render i) = (.rendered (c.render i), fresh c) := by
  have hanswered := Catalog.Renderer.getsTo_answered c [] (Nat.zero_add Catalog.maxDepth) i []
  have hrun : (Catalog.Renderer.start i .idle).run c = ⟨.answered (c.render i), [], .idle⟩ :=
    Catalog.Renderer.run_of_getsTo hanswered rfl
  simp only [serve, fresh, hrun]
  rfl

/-- A session that has never rendered is not changed by a request but for its catalog. -/
theorem after_fresh (c : Catalog) (request : Request) :
    (fresh c).after request = fresh (c.after request) := by
  cases request with
  | store i record => rfl
  | setPlaceholders placeholders => rfl
  | render i => rw [after, serve_render]; rfl

theorem afterAll_fresh (c : Catalog) (requests : List Request) :
    (fresh c).afterAll requests = fresh (c.afterAll requests) := by
  induction requests generalizing c with
  | nil => rfl
  | cons request requests ih =>
    show ((fresh c).after request).afterAll requests = _
    rw [after_fresh]
    exact ih (c.after request)

/-- A session that has answered any requests renders nothing, and stands where one does that was put
    the same requests without those to render.  While it renders an index, the list of the records
    in progress never has an index twice or more indices than records may be rendered inside each
    other, the cell is free whenever an index is asked for, and nobody asks for the cell while it is
    held.  Its answer is that of a session with the same catalog that has never rendered, and the
    session is left as it was. -/
theorem unwound_afterAll (requests : List Request) :
    let s := new.afterAll requests
    s.cell = .idle ∧ s.catalog = (Catalog.empty false).afterAll requests ∧
      new.afterAll (requests.filter Request.changes) = s ∧
      ∀ i,
        (∀ m, Catalog.Renderer.GetsTo s.catalog (.start i s.cell) m →
          m.cell.indices.Nodup ∧ m.cell.indices.length ≤ Catalog.maxDepth ∧ m.stage ≠ .fault ∧
          ∀ j, m.stage = .asked j → m.cell.held = false) ∧
        s.serve (.render i) = (fresh s.catalog).serve (.render i) ∧
        s.serve (.render i) = (.rendered (s.catalog.render i), s) := by
  intro s
  have hs : s = fresh ((Catalog.empty false).afterAll requests) := afterAll_fresh _ requests
  -- Requests that change nothing can be left out.
  have hchanges : new.afterAll (requests.filter Request.changes) = s := by
    rw [new, afterAll_fresh, Catalog.afterAll_filter_changes, hs]
  rw [hs] at hchanges ⊢
  refine ⟨rfl, rfl, hchanges, fun i => ⟨fun m hm => ?_, rfl, serve_render _ i⟩⟩
  have hsound := (Catalog.Renderer.Sound.start i).getsTo hm
  refine ⟨hsound.nodup, hsound.length_le, hsound.stage_ne, fun j hj => ?_⟩
  rw [hsound.held_eq, hj]
  rfl

end Session

end TypeStream
