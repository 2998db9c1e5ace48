import Mathlib.Data.List.Basic
import TypeStream.Proofs.StreamOutcome

/-!
# Two runs compared

Two runs over the same frames are compared frame by frame.  They fail together if the same frame or
the same tail ends them, and otherwise what they have gathered is to be compared.  Where the frames
have distinct indices, that is a matter of single frames: the catalog holds under an index what the
frame with that index decodes to.

## Key results

- `DecoderTable.readStream_sameFate`: two runs that are ended by the same error, if by any
- `DecoderTable.readStream_sameFate_of_failure?`: two runs in which the same frames fail
- `DecoderTable.find?_gather_iff`, `DecoderTable.mem_failures_iff`: records and failures of frames
-/

namespace TypeStream

/-- Two results of one kind: values related by `R`, or the same error. -/
inductive SameFate {α β : Type} (R : α → β → Prop) : Except Error α → Except Error β → Prop
  | ok {a b} : R a b → SameFate R (.ok a) (.ok b)
  | error (e) : SameFate R (.error e) (.error e)

namespace SameFate

/-- What can be compared with itself has the same fate as itself. -/
theorem refl {α : Type} {R : α → α → Prop} (h : ∀ a, R a a) (x : Except Error α) :
    SameFate R x x := by
  cases x with
  | ok a => exact .ok (h a)
  | error e => exact .error e

/-- Results with the same fate are equal, if those values are that are compared. -/
theorem eq {α : Type} {x y : Except Error α} (h : SameFate Eq x y) : x = y := by
  cases h with
  | ok hab => rw [hab]
  | error e => rfl

/-- Results with the same fate go on with results that have the same fate. -/
theorem bind {α β γ δ : Type} {R : α → β → Prop} {S : γ → δ → Prop} {x : Except Error α}
    {y : Except Error β} {f : α → Except Error γ} {g : β → Except Error δ} (h : SameFate R x y)
    (hnext : ∀ a b, R a b → SameFate S (f a) (g b)) : SameFate S (x >>= f) (y >>= g) := by
  cases h with
  | ok hab => exact hnext _ _ hab
  | error e => exact .error e

end SameFate

/-- An error that ends two runs ends both in the same way. -/
theorem Decoded.sameFate_unless {R : Decoded → Decoded → Prop} {d d' : Decoded} (h : R d d')
    (e? : Option Error) : SameFate R (d.unless e?) (d'.unless e?) := by
  cases e? with
  | none => exact .ok h
  | some e => exact .error e

/-- A catalog of records with ascending indices holds each of them, and no others. -/
theorem Catalog.find?_insertAll_iff {entries : List (TypeIndex × Record)}
    (h : entries.Pairwise fun a b => a.1 < b.1) {placeholders : Bool} {i : TypeIndex}
    {record : Record} :
    ((empty placeholders).insertAll entries).find? i = some record ↔ (i, record) ∈ entries := by
  refine ⟨mem_of_find?_insertAll, fun hmem => ?_⟩
  have hnone : (empty placeholders).find? i = none := rfl
  rw [find?_insertAll, hnone, Option.or_none, List.lookup_eq_some_iff]
  obtain ⟨before, after, rfl⟩ := List.append_of_mem hmem
  refine ⟨after.reverse, before.reverse, by simp, ?_⟩
  -- What was stored behind the record has a greater index.
  intro e he
  obtain ⟨hafter, _⟩ := List.pairwise_cons.1 (List.pairwise_append.1 h).2.1
  have hlt : i.toNat < e.1.toNat := hafter e (List.mem_reverse.1 he)
  rw [bne_iff_ne]
  rintro rfl
  exact Nat.lt_irrefl _ hlt

namespace DecoderTable

variable {t : DecoderTable} {o o' : Options} {frames : List Frame.Placed}

/-- What frames with distinct indices leave in a catalog under an index is what the frame with that
    index decodes to. -/
theorem find?_gather_iff (h : frames.Pairwise fun f g => f.index < g.index) {i : TypeIndex}
    {record : Record} :
    (t.gather o frames).catalog.find? i = some record ↔
      ∃ f ∈ frames, f.index = i ∧ (t.outcome o f).result = .ok record :=
  (Catalog.find?_insertAll_iff (t.pairwise_records o h)).trans mem_records_iff

/-- A failure among those of frames is that of a frame whose result is an error. -/
theorem mem_failures_iff {g : Failure} :
    g ∈ t.failures o frames ↔ ∃ f ∈ frames, ∃ e, (t.outcome o f).result = .error e ∧
      g = ⟨f.index, (t.outcome o f).kind, f.offset, e⟩ := by
  unfold failures
  rw [List.mem_filterMap]
  refine exists_congr fun f => and_congr_right fun _ => ?_
  unfold failure?
  cases (t.outcome o f).result <;> simp [eq_comm]

/-- There is a failure with an index exactly if a frame with this index has an error. -/
theorem exists_failure_iff {i : TypeIndex} :
    (∃ g ∈ t.failures o frames, g.index = i) ↔
      ∃ f ∈ frames, f.index = i ∧ ∃ e, (t.outcome o f).result = .error e := by
  constructor
  · rintro ⟨g, hg, rfl⟩
    obtain ⟨f, hf, e, he, rfl⟩ := mem_failures_iff.1 hg
    exact ⟨f, hf, rfl, e, he⟩
  · rintro ⟨f, hf, rfl, e, he⟩
    exact ⟨_, mem_failures_iff.2 ⟨f, hf, e, he, rfl⟩, rfl⟩

/-- Frames that decode to the same leave the same. -/
theorem gather_congr_of_mem (h : ∀ f ∈ frames, t.outcome o f = t.outcome o' f)
    (hplaceholders : o.placeholders = o'.placeholders) :
    t.gather o frames = t.gather o' frames := by
  -- Both parts of what is gathered are filtered from the outcomes.
  have hrecords : t.records o frames = t.records o' frames := by
    refine List.filterMap_congr fun f hf => ?_
    unfold record?
    rw [h f hf]
  have hfailures : t.failures o frames = t.failures o' frames := by
    refine List.filterMap_congr fun f hf => ?_
    unfold failure?
    rw [h f hf]
  unfold gather
  rw [hrecords, hfailures, hplaceholders]

/-- The frames that a run decodes are among those of the stream. -/
theorem mem_of_mem_reached {f : Frame.Placed} (h : f ∈ t.reached o frames) : f ∈ frames := by
  have hprefix : t.untilFailure o frames <+: frames := untilFailure_prefix frames
  unfold reached at h
  split at h
  · exact hprefix.subset h
  · exact h

/-- Two runs over the same frames share their fate and report the same, if the same error ends
    both and the frames that they decode report the same. -/
theorem readStream_sameFate {σ : Type} [Collector σ] (collector : σ) {stream tail : List UInt8}
    {payloads : List (List UInt8)} (hvalid : o.validate = .ok ()) (hvalid' : o'.validate = .ok ())
    (hsplits : Frame.Splits stream payloads tail)
    (hframes : Frame.place o.firstIndex 0 payloads = frames)
    (hframes' : Frame.place o'.firstIndex 0 payloads = frames)
    (hrefusal : t.refusal? o frames = t.refusal? o' frames)
    (hreferences : t.references o (t.reached o frames) = t.references o' (t.reached o' frames))
    {R : Decoded → Decoded → Prop} (h : R (t.gather o frames) (t.gather o' frames)) :
    SameFate R (t.readStream o stream collector).1 (t.readStream o' stream collector).1 ∧
      (t.readStream o stream collector).2 = (t.readStream o' stream collector).2 := by
  rw [readStream_eq collector hvalid hsplits, readStream_eq collector hvalid' hsplits, hframes,
    hframes', hrefusal, hreferences]
  exact ⟨Decoded.sameFate_unless h _, rfl⟩

section FailingAlike

variable (h : ∀ f ∈ frames, t.failure? o f = t.failure? o' f)
include h

/-- Options that make no difference to the frames make none to their failures. -/
theorem failures_congr_of_mem : t.failures o frames = t.failures o' frames :=
  List.filterMap_congr h

theorem untilFailure_congr_of_mem : t.untilFailure o frames = t.untilFailure o' frames := by
  induction frames with
  | nil => rfl
  | cons f rest ih =>
    obtain ⟨hf, hrest⟩ := List.forall_mem_cons.1 h
    simp only [untilFailure, hf, ih hrest]

/-- Two runs get equally far if the same frames fail for the same reasons. -/
theorem readStream_sameFate_of_failure? {σ : Type} [Collector σ] (collector : σ)
    {stream tail : List UInt8} {payloads : List (List UInt8)} (hvalid : o.validate = .ok ())
    (hvalid' : o'.validate = .ok ()) (hstrict : o.strict = o'.strict)
    (hsplits : Frame.Splits stream payloads tail)
    (hframes : Frame.place o.firstIndex 0 payloads = frames)
    (hframes' : Frame.place o'.firstIndex 0 payloads = frames)
    (hreferences : ∀ f ∈ frames, (t.outcome o f).references = (t.outcome o' f).references)
    {R : Decoded → Decoded → Prop} (hgather : R (t.gather o frames) (t.gather o' frames)) :
    SameFate R (t.readStream o stream collector).1 (t.readStream o' stream collector).1 ∧
      (t.readStream o stream collector).2 = (t.readStream o' stream collector).2 := by
  have hreached : t.reached o frames = t.reached o' frames := by
    unfold reached
    rw [hstrict, untilFailure_congr_of_mem h]
  refine readStream_sameFate collector hvalid hvalid' hsplits hframes hframes' ?_ ?_ hgather
  · unfold refusal?
    rw [hstrict, failures_congr_of_mem h]
  · rw [hreached]
    exact List.flatMap_congr fun f hf => hreferences f (mem_of_mem_reached hf)

end FailingAlike

/-- A lenient run is only ended by the tail, and decodes all frames. -/
theorem readStream_sameFate_of_lenient {σ : Type} [Collector σ] (collector : σ)
    {stream tail : List UInt8} {payloads : List (List UInt8)} (hvalid : o.validate = .ok ())
    (hvalid' : o'.validate = .ok ()) (hstrict : o.strict = false) (hstrict' : o'.strict = false)
    (hsplits : Frame.Splits stream payloads tail)
    (hframes : Frame.place o.firstIndex 0 payloads = frames)
    (hframes' : Frame.place o'.firstIndex 0 payloads = frames)
    (hreferences : ∀ f ∈ frames, (t.outcome o f).references = (t.outcome o' f).references)
    {R : Decoded → Decoded → Prop} (h : R (t.gather o frames) (t.gather o' frames)) :
    SameFate R (t.readStream o stream collector).1 (t.readStream o' stream collector).1 ∧
      (t.readStream o stream collector).2 = (t.readStream o' stream collector).2 := by
  refine readStream_sameFate collector hvalid hvalid' hsplits hframes hframes' ?_ ?_ h
  · simp only [refusal?, hstrict, hstrict', Bool.false_eq_true, ↓reduceIte]
  · simp only [reached, hstrict, hstrict', Bool.false_eq_true, ↓reduceIte]
    exact List.flatMap_congr hreferences

end DecoderTable

end TypeStream
