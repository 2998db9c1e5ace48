import TypeStream.Proofs.Runs

/-!
# The outcome of a stream

What decoding a stream gives, strict or not, as one equation over its frames and its tail.  A
lenient run decodes every frame and only the tail can make it fail.  A strict run decodes the
frames up to and including the first one that fails; if there is such a frame, its error wins over
that of the tail.

## Key results

- `untilFailure_append`, `refusal?_append`: frames that do not end a run
- `run_of_failures`: a strict run ends there
- `readStream_eq`: the outcome of a stream
- `gather_of_readStream_ok`: what is decoded of a stream that is a sequence of frames
-/

namespace TypeStream

/-- What was decoded, unless an error has ended the run. -/
def Decoded.unless (d : Decoded) : Option Error → Except Error Decoded
  | none => .ok d
  | some e => .error e

/-- A run has a result exactly if no error has ended it. -/
theorem Decoded.unless_eq_ok_iff {d d' : Decoded} {e? : Option Error} :
    d.unless e? = .ok d' ↔ e? = none ∧ d = d' := by
  cases e? <;> simp [Decoded.unless]

theorem Decoded.unless_eq_error_iff {d : Decoded} {e? : Option Error} {e : Error} :
    d.unless e? = .error e ↔ e? = some e := by
  cases e? <;> simp [Decoded.unless]

namespace DecoderTable

variable (t : DecoderTable) (o : Options)

/-- What frames decode to, put together. -/
def gather (frames : List Frame.Placed) : Decoded where
  catalog := (Catalog.empty o.placeholders).insertAll (t.records o frames)
  report :=
    { decoded := (t.records o frames).countP fun e => !e.2.isUnknown
      unknown := (t.records o frames).countP fun e => e.2.isUnknown
      failures := t.failures o frames }

/-- The frames in front of the first one that fails, and that one. -/
def untilFailure : List Frame.Placed → List Frame.Placed
  | [] => []
  | f :: rest =>
    match t.failure? o f with
    | none => f :: untilFailure rest
    | some _ => [f]

/-- The frames that a run decodes. -/
def reached (frames : List Frame.Placed) : List Frame.Placed :=
  if o.strict then t.untilFailure o frames else frames

/-- The error of the frame that ends a run, if there is one. -/
def refusal? (frames : List Frame.Placed) : Option Error :=
  if o.strict then (t.failures o frames).head?.map Failure.error else none

/-! ### The first frame that fails -/

section UntilFailure

variable {t o} {before after frames : List Frame.Placed}

/-- The failures of frames are listed in the order of the frames. -/
theorem failures_append :
    t.failures o (before ++ after) = t.failures o before ++ t.failures o after :=
  List.filterMap_append

theorem references_append :
    t.references o (before ++ after) = t.references o before ++ t.references o after :=
  List.flatMap_append

theorem records_append :
    t.records o (before ++ after) = t.records o before ++ t.records o after :=
  List.filterMap_append

/-- Frames that all decode to records have no failures. -/
theorem failures_eq_nil_of_forall_ok
    (h : ∀ f ∈ frames, ∀ e, (t.outcome o f).result ≠ .error e) : t.failures o frames = [] := by
  apply List.filterMap_eq_nil_iff.2
  intro f hf
  unfold failure?
  split
  · rfl
  · rename_i e he
    exact absurd he (h f hf e)

/-- Behind frames that do not fail the first one that fails is looked for. -/
theorem untilFailure_append (h : t.failures o before = []) :
    t.untilFailure o (before ++ after) = before ++ t.untilFailure o after := by
  have hnone := List.filterMap_eq_nil_iff.1 h
  clear h
  induction before with
  | nil => rfl
  | cons f rest ih =>
    have hrest := ih fun g hg => hnone g (List.mem_cons_of_mem f hg)
    simp only [List.cons_append, untilFailure, hnone f List.mem_cons_self, hrest]

/-- Where no frame fails all of them are gone through. -/
theorem untilFailure_of_failures_eq_nil (h : t.failures o frames = []) :
    t.untilFailure o frames = frames := by
  have happend : t.untilFailure o (frames ++ []) = frames ++ [] := untilFailure_append h
  rwa [List.append_nil] at happend

/-- The frames up to a failure are the first ones. -/
theorem untilFailure_prefix (frames : List Frame.Placed) : t.untilFailure o frames <+: frames := by
  induction frames with
  | nil => exact List.nil_prefix
  | cons f rest ih =>
    unfold untilFailure
    split
    · exact (List.prefix_cons_inj f).2 ih
    · exact ⟨rest, rfl⟩

/-- Frames end a run only if it is strict and one of them fails. -/
theorem refusal?_eq_none_iff : t.refusal? o frames = none ↔
    (o.strict = true → t.failures o frames = []) := by
  unfold refusal?
  by_cases hstrict : o.strict = true
  · simp only [hstrict, ↓reduceIte, Option.map_eq_none_iff, List.head?_eq_none_iff, true_imp_iff]
  · simp only [hstrict, Bool.false_eq_true, ↓reduceIte, false_imp_iff]

/-- The error that ends a run is that of a frame. -/
theorem exists_failure_of_refusal? {e : Error} (h : t.refusal? o frames = some e) :
    o.strict = true ∧ ∃ g ∈ t.failures o frames, g.error = e := by
  unfold refusal? at h
  split at h
  · rename_i hstrict
    obtain ⟨g, hg, he⟩ := Option.map_eq_some_iff.1 h
    exact ⟨hstrict, g, List.mem_of_mem_head? hg, he⟩
  · exact nomatch h

/-- Frames that do not end a run leave it to those behind them. -/
theorem refusal?_append (h : t.refusal? o before = none) :
    t.refusal? o (before ++ after) = t.refusal? o after := by
  by_cases hstrict : o.strict = true
  · have hnil := refusal?_eq_none_iff.1 h hstrict
    unfold refusal?
    rw [failures_append, hnil, List.nil_append]
  · unfold refusal?
    simp only [hstrict, Bool.false_eq_true, ↓reduceIte]

/-- Where frames do not end a run it goes on to those behind them. -/
theorem reached_append (h : t.refusal? o before = none) :
    t.reached o (before ++ after) = t.reached o before ++ t.reached o after := by
  unfold reached
  by_cases hstrict : o.strict = true
  · have hnil := refusal?_eq_none_iff.1 h hstrict
    simp only [hstrict, ↓reduceIte]
    rw [untilFailure_append hnil, untilFailure_of_failures_eq_nil hnil]
  · simp only [hstrict, Bool.false_eq_true, ↓reduceIte]

end UntilFailure

/-! ### Options that make no difference -/

section Congr

variable {t o} {o' : Options} (h : t.outcome o = t.outcome o')
include h

/-- Options that make no difference to frames make none to their references. -/
theorem references_congr : t.references o = t.references o' := by
  funext frames
  unfold references
  rw [h]

theorem records_congr : t.records o = t.records o' := by
  funext frames
  unfold records record?
  rw [h]

theorem failures_congr : t.failures o = t.failures o' := by
  funext frames
  unfold failures failure?
  rw [h]

/-- So the first frame that fails is the same. -/
theorem untilFailure_congr : t.untilFailure o = t.untilFailure o' := by
  funext frames
  induction frames with
  | nil => rfl
  | cons f rest ih =>
    unfold untilFailure failure?
    rw [ih, h]

/-- A run decodes the same frames, if it is as strict. -/
theorem reached_congr (hstrict : o.strict = o'.strict) : t.reached o = t.reached o' := by
  funext frames
  unfold reached
  rw [untilFailure_congr h, hstrict]

theorem refusal?_congr (hstrict : o.strict = o'.strict) : t.refusal? o = t.refusal? o' := by
  funext frames
  unfold refusal?
  rw [failures_congr h, hstrict]

/-- And what the frames decode to is the same, put together. -/
theorem gather_congr (hplaceholders : o.placeholders = o'.placeholders) :
    t.gather o = t.gather o' := by
  funext frames
  unfold gather
  rw [records_congr h, failures_congr h, hplaceholders]

end Congr

/-! ### The outcome -/

variable {t o} {σ : Type} [Collector σ] (p : Progress) (collector : σ) {c : Cursor}
  {stream rest tail : List UInt8} {payloads : List (List UInt8)}

/-- A strict run ends with the first frame that fails. -/
theorem run_of_failures {g : Failure} {gs : List Failure} (hstrict : o.strict = true)
    (hc : c.unread = payloads.flatMap Frame.encode ++ rest)
    (hlength : ∀ payload ∈ payloads, payload.length ≤ Frame.maxLength)
    (halign : c.alignment = max o.alignment 1)
    (h : t.failures o (Frame.place p.index c.offset payloads) = g :: gs) :
    t.run o p collector c = (.error g.error, Collector.noteAll collector
      (t.references o (t.untilFailure o (Frame.place p.index c.offset payloads)))) := by
  induction payloads generalizing p collector c with
  | nil => exact nomatch h
  | cons payload payloads ih =>
    obtain ⟨hc', hrest⟩ := unread_of_cons hc
    have hlength' := hlength payload List.mem_cons_self
    simp only [Frame.place, failures, failure?, List.filterMap_cons] at h
    simp only [Frame.place, untilFailure, failure?]
    cases hresult : (t.outcome o ⟨p.index, c.offset, payload⟩).result with
    | error e =>
      -- The first frame fails, so the run gets no further.
      simp only [hresult, List.cons.injEq] at h
      rw [run_failing_frame t p collector hc' hlength' halign hstrict hresult, ← h.1]
      simp only [references, List.flatMap_cons, List.flatMap_nil, List.append_nil]
    -- The first frame decodes, so the run goes on behind it.
    | ok record =>
      simp only [hresult] at h
      rw [run_frame t p collector hc' hlength' halign (by simp [hresult])]
      rw [ih _ _ hrest (fun q hq => hlength q (List.mem_cons_of_mem _ hq)) halign
        (by rwa [Progress.index_add, Cursor.offset_advance])]
      simp only [references, List.flatMap_cons, Collector.noteAll_append, Progress.index_add,
        Cursor.offset_advance]

/-- A run from the start on ends with what its frames decode to. -/
theorem decoded_addAll_start (payloads : List (List UInt8)) :
    ((Progress.start o).addAll t o (Frame.place o.firstIndex 0 payloads)).decoded =
      t.gather o (Frame.place o.firstIndex 0 payloads) := by
  unfold gather
  rw [← Progress.catalog_addAll_start, ← Progress.report_addAll_start]

/-- A run that no frame ends decodes them all, and fails only with the tail. -/
theorem readStream_of_go (hvalid : o.validate = .ok ())
    (hsplits : Frame.Splits stream payloads tail)
    (hgo : o.strict = true → t.failures o (Frame.place o.firstIndex 0 payloads) = []) :
    t.readStream o stream collector =
      ((t.gather o (Frame.place o.firstIndex 0 payloads)).unless
        (Frame.tailError? (payloads.flatMap Frame.encode).length tail),
      Collector.noteAll collector (t.references o (Frame.place o.firstIndex 0 payloads))) := by
  rw [readStream_of_splits t collector hvalid hsplits fun hs =>
    forall_ok_of_failures_eq_nil t o (hgo hs), decoded_addAll_start]
  cases Frame.tailError? (payloads.flatMap Frame.encode).length tail <;> rfl

/-- What decoding a stream gives, once its options hold: what its frames decode to, unless one of
    the two errors ends the run, and the references of the frames decoded. -/
theorem readStream_eq (hvalid : o.validate = .ok ()) (hsplits : Frame.Splits stream payloads tail) :
    t.readStream o stream collector =
      ((t.gather o (Frame.place o.firstIndex 0 payloads)).unless
        ((t.refusal? o (Frame.place o.firstIndex 0 payloads)).or
          (Frame.tailError? (payloads.flatMap Frame.encode).length tail)),
      Collector.noteAll collector
        (t.references o (t.reached o (Frame.place o.firstIndex 0 payloads)))) := by
  unfold refusal? reached
  cases hfailures : t.failures o (Frame.place o.firstIndex 0 payloads) with
  | nil =>
    -- Every frame decodes, so it makes no difference whether the run is strict.
    rw [readStream_of_go collector hvalid hsplits fun _ => hfailures,
      untilFailure_of_failures_eq_nil hfailures]
    simp only [List.head?_nil, Option.map_none, ite_self, Option.none_or]
  | cons g gs =>
    -- With `strict` the run ends at the first failure, without it all frames are read.
    by_cases hstrict : o.strict = true
    · have hrun := run_of_failures (.start o) collector (c := .ofBytes stream 0 o.alignment)
        hstrict hsplits.bytes_eq hsplits.length_le rfl hfailures
      simp only [readStream, hvalid, hstrict]
      exact hrun
    · rw [readStream_of_go collector hvalid hsplits fun h => absurd h hstrict]
      simp only [hstrict, Bool.false_eq_true, ↓reduceIte, Option.none_or]

/-- A stream that is decoded consists of complete frames, and none of them has ended the run. -/
theorem exists_of_readStream_ok {d : Decoded} (h : (t.readStream o stream collector).1 = .ok d) :
    o.validate = .ok () ∧ ∃ payloads, Frame.Splits stream payloads [] ∧
      t.refusal? o (Frame.place o.firstIndex 0 payloads) = none ∧
      d = t.gather o (Frame.place o.firstIndex 0 payloads) := by
  have hvalid := validate_of_readStream_ok t collector h
  have hsplits := Frame.splits_split stream
  -- A run that succeeds has neither met a failure with `strict` nor a broken tail.
  rw [readStream_eq collector hvalid hsplits, Decoded.unless_eq_ok_iff] at h
  obtain ⟨hnone, hd⟩ := h
  obtain ⟨hrefusal, htail⟩ := Option.or_eq_none_iff.1 hnone
  rw [Frame.tailError?_eq_none_iff.1 htail] at hsplits
  exact ⟨hvalid, _, hsplits, hrefusal, hd.symm⟩

/-- What is decoded of a stream is what its frames decode to, and there is nothing behind them. -/
theorem gather_of_readStream_ok {d : Decoded} (hsplits : Frame.Splits stream payloads tail)
    (h : (t.readStream o stream collector).1 = .ok d) :
    tail = [] ∧ d = t.gather o (Frame.place o.firstIndex 0 payloads) := by
  obtain ⟨_, payloads', hsplits', _, hd⟩ := exists_of_readStream_ok collector h
  obtain ⟨rfl, rfl⟩ := Prod.mk.inj (hsplits.eq_split.symm.trans hsplits'.eq_split)
  exact ⟨rfl, hd⟩

end DecoderTable

end TypeStream
