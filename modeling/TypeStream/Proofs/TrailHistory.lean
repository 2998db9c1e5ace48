import Mathlib.Data.List.Basic
import TypeStream.Proofs.StreamOutcome

/-!
# The history of a trail

A trail is used in four ways: a reference is pushed, popped or noted, and a whole stream is decoded
into it.  Pushes and pops nest like brackets, and what is noted or decoded in between leaves them
alone, even where decoding fails.  So after any calls the latest reference being followed is the
latest one that was pushed and has not been popped since, and the log holds all that was pushed,
noted or reported, in order.

Decoding asks a collector for nothing.  Its result is the same with every collector, and what it
adds to the log of a trail is what an array collects.

## Key results

- `DecoderTable.exists_reported`: a stream decodes to the same and reports the same to any collector
- `Trail.followed_afterAll_of_balanced`: calls that pop what they push, and nothing else
- `Trail.exists_push_of_followed`: what is being followed was pushed, and not popped since
- `Trail.reverse_followed_sublist`: what is being followed stands in the log, in the same order
- `Trail.followed_and_logged`: a trail after any calls
-/

namespace TypeStream

/-! ### Collectors -/

/-- An array keeps the references behind those that it has. -/
theorem Collector.noteAll_array (array : Array Reference) (references : List Reference) :
    noteAll array references = array ++ references.toArray :=
  List.foldl_push_eq_append'

/-- Noting references does not touch those that are followed. -/
theorem Trail.followed_noteAll (trail : Trail) (references : List Reference) :
    (Collector.noteAll trail references).followed = trail.followed := by
  induction references generalizing trail with
  | nil => rfl
  | cons r rest ih => exact ih (trail.note r)

namespace DecoderTable

variable (t : DecoderTable) (o : Options) (stream : List UInt8)

/-- What a stream decodes to, and which references it reports, does not depend on what collects
    them. -/
theorem exists_reported : ∃ result reported, ∀ (σ : Type) [Collector σ] (collector : σ),
    t.readStream o stream collector = (result, Collector.noteAll collector reported) := by
  cases hvalid : o.validate with
  | error e =>
    -- Options that do not hold are refused before anything is reported.
    refine ⟨.error e, [], fun σ _ collector => ?_⟩
    simp only [readStream, hvalid]
    rfl
  | ok => exact ⟨_, _, fun σ _ collector =>
      readStream_eq collector hvalid (Frame.splits_split stream)⟩

/-- The references that decoding a stream reports, as an array collects them. -/
def reported : List Reference := (t.readStream o stream (#[] : Array Reference)).2.toList

/-- A run notes what it reports, in any collector. -/
theorem readStream_eq_noteAll {σ : Type} [Collector σ] (collector : σ) :
    (t.readStream o stream collector).2 = Collector.noteAll collector (t.reported o stream) := by
  obtain ⟨result, reported, hread⟩ := t.exists_reported o stream
  have hreported : t.reported o stream = reported := by
    unfold DecoderTable.reported
    rw [hread, Collector.noteAll_array]
    simp
  rw [hread, hreported]

end DecoderTable

/-! ### Calls -/

namespace Trail

/-- What is done with a trail. -/
inductive Call
  | push (r : Reference)
  | note (r : Reference)
  | pop
  /-- Decodes a stream and lets the trail take note of the references. -/
  | decode (t : DecoderTable) (o : Options) (stream : List UInt8)

/-- The references that a call adds to the log. -/
def Call.references : Call → List Reference
  | push r => [r]
  | note r => [r]
  | pop => []
  | decode t o stream => t.reported o stream

/-- The trail after a call. -/
def after (trail : Trail) : Call → Trail
  | .push r => trail.push r
  | .note r => trail.note r
  | .pop => trail.pop.2
  | .decode t o stream => (t.readStream o stream trail).2

/-- The trail after calls, in order. -/
def afterAll (trail : Trail) (calls : List Call) : Trail := calls.foldl after trail

/-- The calls pop every reference that they push, each after those pushed behind it, and no
    other. -/
inductive Balanced : List Call → Prop
  | nil : Balanced []
  | note {r calls} : Balanced calls → Balanced (.note r :: calls)
  | decode {t o stream calls} : Balanced calls → Balanced (.decode t o stream :: calls)
  | nested {r inner calls} : Balanced inner → Balanced calls →
      Balanced (.push r :: (inner ++ .pop :: calls))

/-- Calls that are balanced one after the other are balanced together. -/
theorem Balanced.append {calls more : List Call} (h : Balanced calls) (hmore : Balanced more) :
    Balanced (calls ++ more) := by
  induction h with
  | nil => exact hmore
  | note _ ih => exact .note ih
  | decode _ ih => exact .decode ih
  | nested hinner _ _ ih =>
    rw [List.cons_append, List.append_assoc, List.cons_append]
    exact .nested hinner ih

@[simp] theorem afterAll_cons (trail : Trail) (call : Call) (calls : List Call) :
    trail.afterAll (call :: calls) = (trail.after call).afterAll calls := rfl

/-- Calls may be gone through in two goes. -/
theorem afterAll_append (trail : Trail) (calls more : List Call) :
    trail.afterAll (calls ++ more) = (trail.afterAll calls).afterAll more :=
  List.foldl_append

/-- Decoding a stream does not touch the references that are followed. -/
theorem followed_after_decode (trail : Trail) (t : DecoderTable) (o : Options)
    (stream : List UInt8) : (trail.after (.decode t o stream)).followed = trail.followed := by
  show (t.readStream o stream trail).2.followed = _
  rw [t.readStream_eq_noteAll, followed_noteAll]

/-! ### What is being followed -/

/-- Calls that pop what they push, and nothing else, leave what is being followed as it was. -/
theorem followed_afterAll_of_balanced {calls : List Call} (h : Balanced calls) (trail : Trail) :
    (trail.afterAll calls).followed = trail.followed := by
  induction h generalizing trail with
  | nil => rfl
  | note _ ih =>
    rw [afterAll_cons, ih]
    rfl
  | decode _ ih => rw [afterAll_cons, ih, followed_after_decode]
  | @nested r inner calls _ _ ihinner ih =>
    -- The reference lies on top again when it is popped.
    have hinner : ((trail.push r).afterAll inner).followed = r :: trail.followed :=
      ihinner (trail.push r)
    rw [afterAll_cons, afterAll_append, afterAll_cons, ih]
    show ((trail.push r).afterAll inner).followed.tail = _
    rw [hinner, List.tail_cons]

/-- What is being followed was pushed and not popped since, and below it lies what was being
    followed before. -/
theorem exists_push_of_followed {calls : List Call} {r : Reference} {rest : List Reference}
    (h : (empty.afterAll calls).followed = r :: rest) :
    ∃ before behind, calls = before ++ .push r :: behind ∧ Balanced behind ∧
      (empty.afterAll before).followed = rest := by
  -- A pop sends the search back to where the reference it took was pushed, not just one call.
  generalize hn : calls.length = n
  induction n using Nat.strongRecOn generalizing calls r rest with
  | ind n ih =>
    rcases List.eq_nil_or_concat' calls with rfl | ⟨calls, call, rfl⟩
    · exact nomatch h
    have hlast : ((empty.afterAll calls).after call).followed = r :: rest := by
      rw [← h, afterAll_append]
      rfl
    rw [List.length_append, List.length_singleton] at hn
    cases call with
    -- The push that is asked for is the last call.
    | push r' =>
      obtain ⟨rfl, rfl⟩ := List.cons.inj hlast
      exact ⟨calls, [], rfl, .nil, rfl⟩
    | note r' =>
      obtain ⟨before, behind, rfl, hbehind, hbefore⟩ := ih calls.length (by omega) hlast rfl
      exact ⟨before, behind ++ [.note r'], by simp, hbehind.append (.note .nil), hbefore⟩
    | decode t o stream =>
      rw [followed_after_decode] at hlast
      obtain ⟨before, behind, rfl, hbehind, hbefore⟩ := ih calls.length (by omega) hlast rfl
      exact ⟨before, behind ++ [.decode t o stream], by simp, hbehind.append (.decode .nil),
        hbefore⟩
    | pop =>
      change (empty.afterAll calls).followed.tail = r :: rest at hlast
      cases htop : (empty.afterAll calls).followed with
      | nil => simp [htop] at hlast
      | cons top below =>
        rw [htop, List.tail_cons] at hlast
        rw [hlast] at htop
        -- The calls up to the push of `top` are shorter, and behind it they are balanced.
        obtain ⟨middle, inner, rfl, hinner, hmiddle⟩ := ih calls.length (by omega) htop rfl
        simp only [List.length_append, List.length_cons] at hn
        obtain ⟨before, behind, rfl, hbehind, hbefore⟩ := ih middle.length (by omega) hmiddle rfl
        exact ⟨before, behind ++ .push top :: (inner ++ [.pop]), by simp,
          hbehind.append (.nested hinner .nil), hbefore⟩

/-- A pop gives the latest reference that was pushed and has not been popped since. -/
theorem pop_eq_some_iff {calls : List Call} {r : Reference} :
    (empty.afterAll calls).pop.1 = some r ↔
      ∃ before behind, calls = before ++ .push r :: behind ∧ Balanced behind := by
  show (empty.afterAll calls).followed.head? = some r ↔ _
  constructor
  -- The reference on top was pushed, and what was pushed behind it was popped again.
  · intro h
    obtain ⟨rest, hfollowed⟩ := List.head?_eq_some_iff.1 h
    obtain ⟨before, behind, hcalls, hbehind, _⟩ := exists_push_of_followed hfollowed
    exact ⟨before, behind, hcalls, hbehind⟩
  · rintro ⟨before, behind, rfl, hbehind⟩
    rw [afterAll_append, afterAll_cons, followed_afterAll_of_balanced hbehind]
    rfl

/-! ### The log -/

/-- A call adds what it logs, and takes nothing away. -/
theorem references_after (trail : Trail) (call : Call) :
    (trail.after call).references = trail.references ++ call.references := by
  cases call with
  | push r => exact Array.toList_push
  | note r => exact references_note trail r
  | pop => exact (List.append_nil _).symm
  | decode t o stream =>
    show (t.readStream o stream trail).2.references = _
    rw [t.readStream_eq_noteAll, references_noteAll]
    rfl

theorem references_afterAll (trail : Trail) (calls : List Call) :
    (trail.afterAll calls).references = trail.references ++ calls.flatMap Call.references := by
  induction calls generalizing trail with
  | nil => exact (List.append_nil _).symm
  | cons call calls ih =>
    rw [afterAll_cons, ih, references_after, List.flatMap_cons, List.append_assoc]

/-- A call keeps the references being followed in the log, in order. -/
theorem reverse_followed_sublist_after {trail : Trail}
    (h : trail.followed.reverse.Sublist trail.references) (call : Call) :
    (trail.after call).followed.reverse.Sublist (trail.after call).references := by
  rw [references_after]
  cases call with
  | push r =>
    show (r :: trail.followed).reverse.Sublist (trail.references ++ [r])
    rw [List.reverse_cons]
    exact h.append (List.Sublist.refl [r])
  | note r => exact h.trans (List.sublist_append_left _ _)
  -- A pop takes the last reference off, so what is left is still in the log.
  | pop =>
    show trail.followed.tail.reverse.Sublist (trail.references ++ [])
    rw [List.append_nil]
    exact (List.tail_sublist _).reverse.trans h
  | decode t o stream =>
    rw [followed_after_decode]
    exact h.trans (List.sublist_append_left _ _)

/-- The references being followed stand in the log, in the same order. -/
theorem reverse_followed_sublist (calls : List Call) :
    (empty.afterAll calls).followed.reverse.Sublist (empty.afterAll calls).references := by
  have hrun : ∀ trail : Trail, trail.followed.reverse.Sublist trail.references →
      (trail.afterAll calls).followed.reverse.Sublist (trail.afterAll calls).references := by
    induction calls with
    | nil => exact fun trail h => h
    | cons call calls ih =>
      intro trail h
      exact ih (trail.after call) (reverse_followed_sublist_after h call)
  exact hrun empty (List.nil_sublist _)

/-- Decoding gives the same with any collector, also where it fails: a trail, an array and the unit
    type differ only in what they keep of the references, which a trail logs as an array collects
    them.  Through any calls, single notes and decoded streams leave what a trail follows as it was;
    a pop gives the latest reference that was pushed and has not been popped since, if there is any;
    the log holds what was pushed and noted, in order, and only grows; and what is being followed
    stands in it in the same order. -/
theorem followed_and_logged :
    (∀ (t : DecoderTable) (o : Options) (stream : List UInt8), ∃ result reported,
      (∀ trail : Trail, ∃ trail' : Trail, t.readStream o stream trail = (result, trail') ∧
        trail'.followed = trail.followed ∧ trail'.references = trail.references ++ reported) ∧
      (∀ array : Array Reference,
        t.readStream o stream array = (result, array ++ reported.toArray)) ∧
      t.readStream o stream () = (result, ())) ∧
    ∀ calls : List Call,
      let trail := empty.afterAll calls
      (∀ r, (trail.after (.note r)).followed = trail.followed) ∧
      (∀ t o stream, (trail.after (.decode t o stream)).followed = trail.followed) ∧
      (∀ r, trail.pop.1 = some r ↔
        ∃ before behind, calls = before ++ .push r :: behind ∧ Balanced behind) ∧
      (trail.pop.1 = none ↔
        ∀ before r behind, calls = before ++ .push r :: behind → ¬ Balanced behind) ∧
      trail.references = calls.flatMap Call.references ∧
      (∀ more, trail.references <+: (empty.afterAll (calls ++ more)).references) ∧
      trail.followed.reverse.Sublist trail.references := by
  constructor
  · intro t o stream
    obtain ⟨result, reported, hread⟩ := t.exists_reported o stream
    refine ⟨result, reported, ?_, ?_, hread Unit ()⟩
    · intro trail
      exact ⟨_, hread Trail trail, followed_noteAll trail reported,
        references_noteAll trail reported⟩
    · intro array
      rw [hread, Collector.noteAll_array]
  · intro calls trail
    have hlog := references_afterAll empty calls
    refine ⟨fun r => rfl, followed_after_decode trail, fun r => pop_eq_some_iff, ?_, hlog, ?_,
      reverse_followed_sublist calls⟩
    -- where there is nothing to pop
    · rw [Option.eq_none_iff_forall_ne_some]
      constructor
      · intro h before r behind hcalls hbehind
        exact h r (pop_eq_some_iff.2 ⟨before, behind, hcalls, hbehind⟩)
      · intro h r hpop
        obtain ⟨before, behind, hcalls, hbehind⟩ := pop_eq_some_iff.1 hpop
        exact h before r behind hcalls hbehind
    -- the log only grows
    · intro more
      rw [afterAll_append, references_afterAll (empty.afterAll calls)]
      exact List.prefix_append _ _

/-- The note and the reference that was popped again do not come between. -/
example (a b c : Reference) :
    (empty.afterAll [.push a, .note b, .push c, .pop, .note b]).pop.1 = some a := rfl

end Trail

end TypeStream
