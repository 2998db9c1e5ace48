import TypeStream.Proofs.RegisteredDecoders
import TypeStream.Proofs.StreamOutcome

/-!
# Strict decoding

A strict run is a lenient one that ends at the first record that cannot be decoded.  A stream can
also end in a tail that is no frame; which of the two errors comes first is told by the stream, and
a record that fails always stands in front of the tail.

## Key results

- `Registered.readStream_strict_eq`: the strict run in terms of the lenient one
- `Registered.readStream_strict_of_lenient`: the same, told by the report of the lenient run
- `DecoderTable.readStream_strict`: the two runs compared, with their references
-/

namespace TypeStream

/-- The options, strict or not, and the same in all else. -/
def Options.withStrict (o : Options) (strict : Bool) : Options := { o with strict }

namespace DecoderTable

variable {σ : Type} [Collector σ] {t : DecoderTable} {o : Options} (collector : σ)
  {stream tail : List UInt8} {payloads : List (List UInt8)}

/-- Being strict makes no difference to a single frame. -/
theorem Registered.outcome_withStrict (ht : t.Registered) (strict : Bool) :
    t.outcome (o.withStrict strict) = t.outcome o :=
  ht.outcome_eq ⟨rfl, rfl, rfl⟩

/-- A lenient run decodes all frames, and fails only with the tail. -/
theorem Registered.readStream_lenient_eq (ht : t.Registered) (hvalid : o.validate = .ok ())
    (hsplits : Frame.Splits stream payloads tail) :
    t.readStream (o.withStrict false) stream collector =
      ((t.gather o (Frame.place o.firstIndex 0 payloads)).unless
        (Frame.tailError? (payloads.flatMap Frame.encode).length tail),
      Collector.noteAll collector (t.references o (Frame.place o.firstIndex 0 payloads))) := by
  have houtcome := ht.outcome_withStrict (o := o) false
  rw [readStream_of_go collector (o := o.withStrict false) hvalid hsplits nofun,
    references_congr houtcome, gather_congr houtcome rfl]
  rfl

/-- A strict run is the lenient one if no frame fails, and otherwise it ends with the first error,
    having reported the references of the frames up to there. -/
theorem Registered.readStream_strict_eq (ht : t.Registered) (hvalid : o.validate = .ok ())
    (hsplits : Frame.Splits stream payloads tail) :
    t.readStream (o.withStrict true) stream collector =
      match t.failures o (Frame.place o.firstIndex 0 payloads) with
      | [] => t.readStream (o.withStrict false) stream collector
      | g :: _ => (.error g.error, Collector.noteAll collector
          (t.references o (t.untilFailure o (Frame.place o.firstIndex 0 payloads)))) := by
  have houtcome := ht.outcome_withStrict (o := o) true
  rw [readStream_eq collector (o := o.withStrict true) hvalid hsplits,
    ht.readStream_lenient_eq collector hvalid hsplits, references_congr houtcome,
    gather_congr houtcome rfl]
  unfold refusal? reached
  rw [failures_congr houtcome, untilFailure_congr houtcome]
  simp only [Options.withStrict, ↓reduceIte]
  cases hfailures : t.failures o (Frame.place o.firstIndex 0 payloads) with
  | nil =>
    rw [untilFailure_of_failures_eq_nil hfailures]
    rfl
  | cons g gs => rfl

/-- A lenient run fails with its options or at the tail of the stream. -/
theorem exists_error_of_lenient_iff :
    (∃ e, (t.readStream (o.withStrict false) stream collector).1 = .error e) ↔
      (∃ e, o.validate = .error e) ∨ (Frame.split stream).2 ≠ [] := by
  cases hvalid : o.validate with
  -- Options that do not hold are refused by both runs.
  | error e =>
    have hvalid' : (o.withStrict false).validate = .error e := hvalid
    simp only [readStream, hvalid', Except.error.injEq, exists_eq', true_or]
  | ok u =>
    have hread := readStream_of_go (t := t) collector (o := o.withStrict false) hvalid
      (Frame.splits_split stream) Bool.noConfusion
    constructor
    · rintro ⟨e, he⟩
      rw [hread] at he
      have htail := Decoded.unless_eq_error_iff.1 he
      refine .inr fun hnil => ?_
      rw [Frame.tailError?_eq_none_iff.2 hnil] at htail
      cases htail
    -- Any bytes left behind the frames make the lenient run fail.
    · rintro (⟨e, he⟩ | htail)
      · cases he
      · obtain ⟨e, he⟩ := Option.ne_none_iff_exists'.1 (mt Frame.tailError?_eq_none_iff.1 htail)
        exact ⟨e, by rw [hread]; exact Decoded.unless_eq_error_iff.2 he⟩

/-- A strict run fails where the lenient one does. -/
theorem Registered.exists_error_of_lenient {e : Error} (ht : t.Registered)
    (h : (t.readStream (o.withStrict false) stream collector).1 = .error e) :
    ∃ e', (t.readStream (o.withStrict true) stream collector).1 = .error e' := by
  cases hvalid : o.validate with
  | error e' =>
    have hvalid' : (o.withStrict true).validate = .error e' := hvalid
    exact ⟨e', by simp only [readStream, hvalid']⟩
  | ok u =>
    rw [ht.readStream_strict_eq collector hvalid (Frame.splits_split stream)]
    split
    · exact ⟨e, h⟩
    · exact ⟨_, rfl⟩

/-- A strict run of a stream that is decoded gives the same, unless there are failures, of which
    the first one ends it. -/
theorem Registered.readStream_strict_of_lenient {d : Decoded} (ht : t.Registered)
    (h : (t.readStream (o.withStrict false) stream collector).1 = .ok d) :
    (t.readStream (o.withStrict true) stream collector).1 =
      d.unless (d.report.failures.head?.map Failure.error) := by
  obtain ⟨hvalid, payloads, hsplits, _, _⟩ := exists_of_readStream_ok collector h
  change o.validate = .ok () at hvalid
  -- The report lists what fails under either options.
  have hfailures : d.report.failures = t.failures o (Frame.place o.firstIndex 0 payloads) := by
    have hlenient := h
    rw [ht.readStream_lenient_eq collector hvalid hsplits, Decoded.unless_eq_ok_iff] at hlenient
    rw [← hlenient.2]
    rfl
  rw [ht.readStream_strict_eq collector hvalid hsplits, ← hfailures]
  cases d.report.failures with
  | nil => exact h
  | cons g gs => rfl

/-- Strict decoding is lenient decoding cut behind the first frame that fails.  The error of that
    frame wins over the one that the tail may be; without such a frame the two runs are the same,
    be it that they succeed or that they fail. -/
theorem readStream_strict (ht : t.Registered) (hvalid : o.validate = .ok ())
    (stream : List UInt8) (collector : σ) :
    ∃ payloads tail, Frame.Splits stream payloads tail ∧
      let frames := Frame.place o.firstIndex 0 payloads
      let lenient := t.readStream (o.withStrict false) stream collector
      let strict := t.readStream (o.withStrict true) stream collector
      lenient.2 = Collector.noteAll collector (t.references o frames) ∧
      (∃ reported, reported <+: t.references o frames ∧
        strict.2 = Collector.noteAll collector reported) ∧
      ((∀ f ∈ frames, ∀ e, (t.outcome o f).result ≠ .error e) → strict = lenient) ∧
      (∀ before f after e, frames = before ++ f :: after →
        (∀ b ∈ before, ∀ e', (t.outcome o b).result ≠ .error e') →
        (t.outcome o f).result = .error e →
        strict = (.error e, Collector.noteAll collector (t.references o (before ++ [f])))) ∧
      (∀ d, lenient.1 = .ok d → d.report.failures = [] → strict = lenient) ∧
      (∀ d g rest, lenient.1 = .ok d → d.report.failures = g :: rest →
        strict.1 = .error g.error) ∧
      (∀ d, strict.1 = .ok d → lenient.1 = .ok d ∧ d.report.failures = []) := by
  refine ⟨_, _, Frame.splits_split stream, ?_⟩
  intro frames lenient strict
  have hlenient := ht.readStream_lenient_eq collector hvalid (Frame.splits_split stream)
  have hstrict := ht.readStream_strict_eq collector hvalid (Frame.splits_split stream)
  change lenient = _ at hlenient
  change strict = (match t.failures o frames with
    | [] => lenient
    | g :: _ => _) at hstrict
  -- A lenient run that succeeds lists the failures of all frames.
  have hfailures : ∀ d, lenient.1 = .ok d → d.report.failures = t.failures o frames := by
    intro d hd
    rw [hlenient] at hd
    rw [← (Decoded.unless_eq_ok_iff.1 hd).2]
    rfl
  have hclean : t.failures o frames = [] → strict = lenient := by
    intro h
    rw [hstrict, h]
  refine ⟨by rw [hlenient], ?_, ?_, ?_, ?_, ?_, ?_⟩
  -- what is reported
  · cases hcase : t.failures o frames with
    | nil => exact ⟨_, List.prefix_rfl, by rw [hclean hcase, hlenient]⟩
    | cons g gs =>
      obtain ⟨behind, hbehind⟩ := untilFailure_prefix (t := t) (o := o) frames
      refine ⟨t.references o (t.untilFailure o frames), ⟨t.references o behind, ?_⟩, ?_⟩
      · rw [← references_append, hbehind]
      · rw [hstrict, hcase]
  -- frames that all decode, and a first one that does not
  · intro hok
    apply hclean
    apply failures_eq_nil_of_forall_ok
    exact hok
  · intro before f after e hframes hbefore he
    have hnil := failures_eq_nil_of_forall_ok hbefore
    have hfailure : t.failure? o f = some ⟨f.index, (t.outcome o f).kind, f.offset, e⟩ := by
      simp only [failure?, he]
    have hfirst : t.failures o frames =
        ⟨f.index, (t.outcome o f).kind, f.offset, e⟩ :: t.failures o after := by
      rw [hframes, failures_append, hnil, List.nil_append]
      exact List.filterMap_cons_some hfailure
    have huntil : t.untilFailure o frames = before ++ [f] := by
      rw [hframes, untilFailure_append hnil, untilFailure, hfailure]
    rw [hstrict, hfirst, huntil]
  -- what the report of the lenient run tells
  · intro d hd hnil
    exact hclean (by rw [← hfailures d hd, hnil])
  · intro d g rest hd hcons
    rw [hfailures d hd] at hcons
    rw [hstrict, hcons]
  · intro d hd
    cases hcase : t.failures o frames with
    | nil =>
      rw [hclean hcase] at hd
      exact ⟨hd, by rw [hfailures d hd, hcase]⟩
    | cons g gs =>
      rw [hstrict, hcase] at hd
      cases hd

/-- A shape, a table that is cut short behind its owner, and a single byte.  The lenient run fails
    at that byte and the strict one at the table, whose owner it has reported. -/
theorem readStream_strict_two_errors :
    let stream : List UInt8 := [6, 0, 0x0a, 0, 1, 0, 5, 0xf1, 6, 0, 0x1d, 0x15, 0x74, 0, 0, 0, 7]
    let o : Options := {}
    let reported : Array Reference := #[⟨⟨0x1001⟩, ⟨0x74⟩⟩]
    standard.Registered ∧ o.validate = .ok () ∧
      standard.readStream (o.withStrict false) stream #[] =
        (.error (.truncated "u16" 16 2 1), reported) ∧
      standard.readStream (o.withStrict true) stream #[] =
        (.error (.truncated "u32" 16 4 0), reported) := by
  intro stream o reported
  have hvalid : o.validate = .ok () := Options.validate_eq_ok_iff.2 (by decide)
  have hsplits : Frame.Splits stream [(stream.take 8).drop 2, (stream.take 16).drop 10] [7] :=
    ⟨by decide, by decide, trivial⟩
  obtain ⟨payloads, tail, hcut, _, _, _, hfailing, _⟩ :=
    readStream_strict .standard hvalid stream (#[] : Array Reference)
  obtain ⟨rfl, rfl⟩ := Prod.mk.inj (hcut.eq_split.symm.trans hsplits.eq_split)
  -- The shape decodes, and the table behind it fails.
  have hshape : standard.failures o [⟨o.firstIndex, 0, (stream.take 8).drop 2⟩] = [] := by
    decide +kernel
  have htable : (standard.outcome o ⟨⟨0x1001⟩, 8, (stream.take 16).drop 10⟩).result =
      .error (.truncated "u32" 16 4 0) := rfl
  have hreferences : Collector.noteAll #[] (standard.references o (Frame.place o.firstIndex 0
      [(stream.take 8).drop 2, (stream.take 16).drop 10])) = reported := by decide +kernel
  refine ⟨.standard, hvalid, ?_, ?_⟩
  · rw [Registered.readStream_lenient_eq _ .standard hvalid hsplits, hreferences]
    rfl
  · rw [← hreferences]
    exact hfailing _ _ [] _ rfl (forall_ok_of_failures_eq_nil _ _ hshape) htable

end DecoderTable

end TypeStream
