import TypeStream.Reference

/-! # Collectors of references

A collector takes note of references one after the other.  There are three: a trail, which also
keeps the references that are being followed, an array, which keeps them all, and the unit type,
which forgets them.

The log of a trail holds every reference that was ever pushed or noted, in order; noting a
reference leaves the references being followed as they were (`Trail.followed_note`). -/

namespace TypeStream

/-- A type whose values take note of references. -/
class Collector (σ : Type) where
  /-- The collector after one more reference. -/
  note : σ → Reference → σ

namespace Collector

/-- The collector after a list of references, in order. -/
def noteAll {σ : Type} [Collector σ] (collector : σ) (references : List Reference) : σ :=
  references.foldl note collector

end Collector

/-- An array keeps the references. -/
instance : Collector (Array Reference) := ⟨Array.push⟩

/-- The unit type forgets them. -/
instance : Collector Unit := ⟨fun _ _ => ()⟩

/-- The references that are being followed, and a log of all that there were. -/
structure Trail where
  /-- The references being followed, the latest first. -/
  followed : List Reference
  /-- Every reference pushed so far, in order. -/
  log : Array Reference
deriving DecidableEq, Repr

namespace Trail

/-- A trail that has seen nothing. -/
def empty : Trail := ⟨[], #[]⟩

/-- Starts to follow a reference. -/
def push (t : Trail) (r : Reference) : Trail := ⟨r :: t.followed, t.log.push r⟩

/-- Ends following the latest reference and gives it back, if there is one. -/
def pop (t : Trail) : Option Reference × Trail :=
  (t.followed.head?, { t with followed := t.followed.tail })

/-- Takes note of a reference without following it. -/
def note (t : Trail) (r : Reference) : Trail := (t.push r).pop.2

instance : Collector Trail := ⟨note⟩

/-- How many references are being followed. -/
def depth (t : Trail) : Nat := t.followed.length

/-- Every reference, in order. -/
def references (t : Trail) : List Reference := t.log.toList

/-- The references that a record holds. -/
def outgoing (t : Trail) (source : TypeIndex) : List Reference :=
  t.references.filter (·.source = source)

/-- The references to a later record. -/
def forward (t : Trail) : List Reference :=
  t.references.filter fun r => !r.isNone && r.isForward

/-- The references of a record to itself. -/
def selfLoops (t : Trail) : List Reference := t.references.filter Reference.isSelf

@[simp] theorem followed_note (t : Trail) (r : Reference) : (t.note r).followed = t.followed := rfl

@[simp] theorem references_note (t : Trail) (r : Reference) :
    (t.note r).references = t.references ++ [r] := by
  simp [note, push, pop, references]

end Trail

end TypeStream
