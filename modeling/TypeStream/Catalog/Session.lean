import TypeStream.Catalog

/-! # Catalogs in use

A catalog in use is asked to store records and to render them.  All its renders share one list of
the records in progress: a render puts its index in front of the list, renders the record, which
renders other indices in the same way, and takes its index off again.

The list lies in a cell that one user at a time can hold.  Asking for it while it is held is a fault
that ends the program, so a render must let go of it before it turns to the record.
`Renderer.step` makes every such move a step of its own, and `Session.serve` lets a session answer
one request after the other, each with the list as the last one has left it. -/

namespace TypeStream

namespace Catalog

/-- The cell with the indices of the records in progress. -/
structure Cell where
  /-- The indices, the innermost first. -/
  indices : List TypeIndex
  /-- Whether a user holds the cell. -/
  held : Bool
deriving DecidableEq, Repr

namespace Cell

/-- The cell of a catalog that renders nothing. -/
def idle : Cell := ⟨[], false⟩

/-- The cell in the hands of a user. -/
def hold (cell : Cell) : Cell := { cell with held := true }

/-- The cell when its user has let go of it. -/
def release (cell : Cell) : Cell := { cell with held := false }

/-- The cell with one more index. -/
def push (cell : Cell) (i : TypeIndex) : Cell := { cell with indices := i :: cell.indices }

/-- The cell without the innermost index. -/
def pop (cell : Cell) : Cell := { cell with indices := cell.indices.tail }

end Cell

/-- A table that is being rendered and needs the text of another index. -/
inductive Waiting
  /-- It needs that of its owner. -/
  | owner (table : VirtualTable)
  /-- It needs that of its base, and has that of its owner. -/
  | base (table : VirtualTable) (owner : String)
deriving DecidableEq, Repr

/-- How far the innermost render has got. -/
inductive Stage
  /-- It has been asked for an index. -/
  | asked (i : TypeIndex)
  /-- It has found the record and holds the cell. -/
  | found (i : TypeIndex) (record : Record)
  /-- It has put the index into the cell, let go of it, and turns to the record. -/
  | entered (record : Record)
  /-- It is done with the record. -/
  | done (result : Except Error String)
  /-- It holds the cell again. -/
  | leaving (result : Except Error String)
  /-- It gives its result to whoever has asked for it. -/
  | answered (result : Except Error String)
  /-- It has asked for the cell while that was held. -/
  | fault

/-- All renders that are going on, each in the middle of another. -/
structure Renderer where
  /-- How far the innermost one has got. -/
  stage : Stage
  /-- The tables that wait, the innermost first. -/
  waiting : List Waiting
  /-- The cell that they share. -/
  cell : Cell

namespace Renderer

/-- A render that starts with a cell as it is. -/
def start (i : TypeIndex) (cell : Cell) : Renderer := ⟨.asked i, [], cell⟩

/-- Asks for the cell, to go on to a stage with it. -/
def holding (m : Renderer) (stage : Stage) : Renderer :=
  if m.cell.held then { m with stage := .fault } else { m with stage, cell := m.cell.hold }

/-- What the innermost render does next; nothing if it is the only one and has answered, or after a
    fault. -/
def step (c : Catalog) (m : Renderer) : Option Renderer :=
  match m.stage with
  | .asked i =>
    match c.find? i with
    | none => some { m with stage := .answered (c.renderUnstored i) }
    | some record => some (m.holding (.found i record))
  | .found i record =>
    if i ∈ m.cell.indices then
      some { m with stage := .answered (c.stop .cycle i), cell := m.cell.release }
    else if maxDepth ≤ m.cell.indices.length then
      some { m with stage := .answered (c.stop .tooDeep i), cell := m.cell.release }
    else some { m with stage := .entered record, cell := (m.cell.push i).release }
  | .entered (.virtualTable table) =>
    some { m with stage := .asked table.owner, waiting := .owner table :: m.waiting }
  | .entered (.tableShape shape) => some { m with stage := .done (.ok shape.text) }
  | .entered (.unknown kind _) =>
    some { m with stage := .done (.ok ("UnknownType(0x" ++ Text.hexadecimal 4 kind.toNat ++ ")")) }
  | .done result => some (m.holding (.leaving result))
  | .leaving result => some { m with stage := .answered result, cell := m.cell.pop.release }
  | .answered result =>
    match m.waiting, result with
    | [], _ => none
    | _ :: waiting, .error e => some { m with stage := .done (.error e), waiting }
    | .owner table :: waiting, .ok owner =>
      if table.hasBase then
        some { m with stage := .asked table.base, waiting := .base table owner :: waiting }
      else some { m with stage := .done (.ok (table.text owner none)), waiting }
    | .base table owner :: waiting, .ok base =>
      some { m with stage := .done (.ok (table.text owner (some base))), waiting }
  | .fault => none

/-! ### The steps that are left -/

/-- A bound for the steps of a render that has been asked for an index, by the records that it has
    room for inside it.  A table takes two such renders. -/
def roomCost : Nat → Nat
  | 0 => 2
  | room + 1 => 2 * roomCost room + 7

/-- A bound for the steps of the tables that wait, by the indices in the cell.  Each of them takes
    its index out of it. -/
def waitingCost : Nat → List Waiting → Nat
  | _, [] => 0
  | depth, .owner _ :: waiting => roomCost (maxDepth - depth) + 4 + waitingCost (depth - 1) waiting
  | depth, .base _ _ :: waiting => 3 + waitingCost (depth - 1) waiting

/-- A bound for the steps that are left. -/
def stepsLeft (m : Renderer) : Nat :=
  let depth := m.cell.indices.length
  match m.stage with
  | .asked _ => roomCost (maxDepth - depth) + waitingCost depth m.waiting
  | .found _ _ => roomCost (maxDepth - depth) - 1 + waitingCost depth m.waiting
  | .entered _ => 2 * roomCost (maxDepth - depth) + 5 + waitingCost (depth - 1) m.waiting
  | .done _ => 2 + waitingCost (depth - 1) m.waiting
  | .leaving _ => 1 + waitingCost (depth - 1) m.waiting
  | .answered _ => waitingCost depth m.waiting
  | .fault => 0

theorem two_le_roomCost (room : Nat) : 2 ≤ roomCost room := by
  cases room <;> unfold roomCost <;> omega

theorem stepsLeft_holding_lt {m : Renderer} {stage : Stage} (hpos : 0 < m.stepsLeft)
    (h : stepsLeft { m with stage, cell := m.cell.hold } < m.stepsLeft) :
    (m.holding stage).stepsLeft < m.stepsLeft := by
  unfold holding
  split
  · exact hpos
  · exact h

theorem stepsLeft_lt_of_step {c : Catalog} {m m' : Renderer} (h : m.step c = some m') :
    m'.stepsLeft < m.stepsLeft := by
  obtain ⟨stage, waiting, cell⟩ := m
  have hcost := two_le_roomCost (maxDepth - cell.indices.length)
  cases stage with
  | asked i =>
    simp only [step] at h
    split at h <;> cases h
    · simp only [stepsLeft]
      omega
    · apply stepsLeft_holding_lt <;> simp only [stepsLeft, Cell.hold] <;> omega
  | found i record =>
    simp only [step] at h
    split at h
    · cases h
      simp only [stepsLeft, Cell.release]
      omega
    · split at h
      · cases h
        simp only [stepsLeft, Cell.release]
        omega
      · rename_i hroom
        cases h
        -- There is room for the record, so inside it there is room for one less.
        have hless : maxDepth - cell.indices.length =
            maxDepth - (cell.indices.length + 1) + 1 := by omega
        simp only [stepsLeft, Cell.release, Cell.push, List.length_cons, hless, roomCost,
          Nat.add_sub_cancel]
        omega
  | entered record =>
    cases record <;> cases h <;> simp only [stepsLeft, waitingCost] <;> omega
  | done result =>
    cases h
    apply stepsLeft_holding_lt <;> simp only [stepsLeft, Cell.hold] <;> omega
  | leaving result =>
    cases h
    simp only [stepsLeft, Cell.release, Cell.pop, List.length_tail]
    omega
  | answered result =>
    simp only [step] at h
    split at h
    · exact nomatch h
    · rename_i first rest e
      cases h
      cases first <;> simp only [stepsLeft, waitingCost] <;> omega
    · split at h <;> cases h <;> simp only [stepsLeft, waitingCost] <;> omega
    · cases h
      simp only [stepsLeft, waitingCost]
      omega
  | fault => exact nomatch h

/-- Takes steps as long as there are any. -/
def run (c : Catalog) (m : Renderer) : Renderer :=
  match _h : m.step c with
  | none => m
  | some next => run c next
termination_by m.stepsLeft
decreasing_by exact stepsLeft_lt_of_step _h

end Renderer

end Catalog

/-- A catalog in use. -/
structure Session where
  catalog : Catalog
  /-- The cell that the renders of the catalog share. -/
  cell : Catalog.Cell

/-- What a session can be asked for. -/
inductive Request
  | store (i : TypeIndex) (record : Record)
  | setPlaceholders (placeholders : Bool)
  | render (i : TypeIndex)

/-- What a session answers. -/
inductive Answer
  /-- A record has been stored, instead of the one given if there was one. -/
  | stored (replaced : Option Record)
  /-- The setting has been changed. -/
  | changed
  /-- An index has been rendered or not. -/
  | rendered (result : Except Error String)
  /-- The program has ended. -/
  | fault

/-- What a render that has no step left comes to. -/
def Catalog.Renderer.answer (m : Renderer) : Answer :=
  match m.stage with
  | .answered result => .rendered result
  | _ => .fault

namespace Session

/-- A session that has not rendered anything yet. -/
def fresh (c : Catalog) : Session := ⟨c, .idle⟩

/-- A session with a catalog without records. -/
def new : Session := fresh (.empty false)

/-- Answers a request. -/
def serve (s : Session) : Request → Answer × Session
  | .store i record =>
    (.stored (s.catalog.find? i), { s with catalog := s.catalog.insert i record })
  | .setPlaceholders placeholders =>
    (.changed, { s with catalog := { s.catalog with placeholders } })
  | .render i =>
    let m := (Catalog.Renderer.start i s.cell).run s.catalog
    (m.answer, { s with cell := m.cell })

end Session

end TypeStream
