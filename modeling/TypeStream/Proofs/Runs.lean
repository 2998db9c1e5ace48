import TypeStream.Proofs.Framing

/-!
# What a run does with the frames of a stream

`Frame.place` gives each complete frame of a stream its index and its offset.  What the frames
decode to, one by one, is `DecoderTable.outcome`; what a run makes of them is said on the whole
list: the references they report, the records they decode to, and the failures among them.

## Key results

- `DecoderTable.run_frames`: a run goes through complete frames and on behind them
- `DecoderTable.run_tail`: a run ends at a tail in front of which there is no complete frame
- `Progress.catalog_addAll` / `Progress.report_addAll`: what frames leave in a catalog and a report
- `Catalog.find?_insertAll`: of several records with one index the last one stays
-/

namespace TypeStream

/-! ### Numbering -/

/-- The index `n` records behind an index; at the end of the index space it is the last index. -/
def TypeIndex.nth (first : TypeIndex) (n : Nat) : TypeIndex :=
  ⟨UInt32.ofNat (min (first.toNat + n) (UInt32.size - 1))⟩

namespace TypeIndex

/-- Numbering goes on by one each time, up to the last index. -/
theorem toNat_nth (first : TypeIndex) (n : Nat) :
    (first.nth n).toNat = min (first.toNat + n) (UInt32.size - 1) := by
  have hlt : min (first.toNat + n) (UInt32.size - 1) < UInt32.size :=
    Nat.lt_of_le_of_lt (Nat.min_le_right _ _) (by decide)
  simp only [nth, toNat, UInt32.toNat_ofNat']
  exact Nat.mod_eq_of_lt hlt

@[simp] theorem nth_zero (first : TypeIndex) : first.nth 0 = first := by
  have hfirst := first.toNat_lt
  rw [← toNat_inj, toNat_nth]
  omega

/-- Numbering may begin one record later. -/
theorem nth_next (first : TypeIndex) (n : Nat) : first.next.nth n = first.nth (n + 1) := by
  rw [← toNat_inj, toNat_nth, toNat_nth, toNat_next]
  omega

end TypeIndex

/-! ### Frames of a stream -/

/-- A complete frame of a stream. -/
structure Frame.Placed where
  /-- The index of its record. -/
  index : TypeIndex
  /-- The offset at which it starts. -/
  offset : Nat
  /-- What it holds behind its length. -/
  payload : List UInt8
deriving DecidableEq, Repr

/-- Frames one behind the other, from an index and an offset on. -/
def Frame.place (index : TypeIndex) (offset : Nat) : List (List UInt8) → List Placed
  | [] => []
  | payload :: rest =>
    ⟨index, offset, payload⟩ :: place index.next (offset + (encode payload).length) rest

/-- The frame at place `k` has the index `k` behind the first one, and stands behind the first `k`
    frames. -/
theorem Frame.getElem?_place (index : TypeIndex) (offset : Nat) (payloads : List (List UInt8))
    (k : Nat) :
    (place index offset payloads)[k]? = payloads[k]?.map fun payload =>
      ⟨index.nth k, offset + ((payloads.take k).flatMap encode).length, payload⟩ := by
  induction payloads generalizing index offset k with
  | nil => rfl
  | cons payload rest ih =>
    cases k with
    | zero => simp [place]
    | succ k => simp [place, ih, TypeIndex.nth_next, Nat.add_assoc]

/-- Frames behind others are placed from where these end. -/
theorem Frame.place_append (index : TypeIndex) (offset : Nat) (before after : List (List UInt8)) :
    place index offset (before ++ after) = place index offset before ++
      place (index.nth before.length) (offset + (before.flatMap encode).length) after := by
  induction before generalizing index offset with
  | nil => simp [place]
  | cons payload rest ih => simp [place, ih, TypeIndex.nth_next, Nat.add_assoc]

/-- A frame has its index and its offset from the frames in front of it. -/
theorem Frame.exists_around_of_mem_place {index : TypeIndex} {offset : Nat}
    {payloads : List (List UInt8)} {f : Placed} (h : f ∈ place index offset payloads) :
    ∃ before after, payloads = before ++ f.payload :: after ∧
      f = ⟨index.nth before.length, offset + (before.flatMap encode).length, f.payload⟩ := by
  obtain ⟨k, hk⟩ := List.getElem?_of_mem h
  rw [getElem?_place, Option.map_eq_some_iff] at hk
  obtain ⟨payload, hpayload, rfl⟩ := hk
  obtain ⟨hlt, rfl⟩ := List.getElem?_eq_some_iff.1 hpayload
  refine ⟨payloads.take k, payloads.drop (k + 1), ?_, ?_⟩
  · rw [← List.drop_eq_getElem_cons hlt, List.take_append_drop]
  · rw [List.length_take_of_le (Nat.le_of_lt hlt)]

/-- The index of a frame is one of the numbering. -/
theorem Frame.exists_nth_of_mem_place {index : TypeIndex} {offset : Nat}
    {payloads : List (List UInt8)} {f : Placed} (h : f ∈ place index offset payloads) :
    ∃ k < payloads.length, f.index = index.nth k := by
  obtain ⟨before, after, hpayloads, hplace⟩ := exists_around_of_mem_place h
  refine ⟨before.length, ?_, congrArg Placed.index hplace⟩
  rw [hpayloads, List.length_append, List.length_cons]
  omega

/-- A frame that is placed has one of the payloads. -/
theorem Frame.payload_mem_of_mem_place {index : TypeIndex} {offset : Nat}
    {payloads : List (List UInt8)} {f : Placed} (h : f ∈ place index offset payloads) :
    f.payload ∈ payloads := by
  obtain ⟨before, after, hpayloads, _⟩ := exists_around_of_mem_place h
  rw [hpayloads]
  exact List.mem_append_right _ List.mem_cons_self

/-- As long as the indices last the frames are numbered in ascending order. -/
theorem Frame.pairwise_place {index : TypeIndex} {payloads : List (List UInt8)}
    (h : index.toNat + payloads.length ≤ UInt32.size) (offset : Nat) :
    (place index offset payloads).Pairwise fun f g => f.index < g.index := by
  induction payloads generalizing index offset with
  | nil => exact List.Pairwise.nil
  | cons payload rest ih =>
    simp only [List.length_cons] at h
    -- The bound keeps `next` away from the end of the index space, where it stands still.
    have hnext : index.next.toNat + rest.length ≤ UInt32.size := by
      have := index.toNat_next
      omega
    refine List.pairwise_cons.2 ⟨?_, ih hnext _⟩
    intro f hf
    obtain ⟨k, hk, hindex⟩ := exists_nth_of_mem_place hf
    show index.toNat < f.index.toNat
    rw [hindex, TypeIndex.nth_next, TypeIndex.toNat_nth]
    omega

namespace DecoderTable

variable (t : DecoderTable) (o : Options)

/-- What decoding a frame of a stream gives: it is read on its own bytes, at the offset of its
    payload. -/
def outcome (f : Frame.Placed) : FrameOutcome :=
  t.readFrame ⟨f.index, o⟩ (.ofBytes f.payload (f.offset + 2) o.alignment)

/-- The references that frames report, in order. -/
def references (frames : List Frame.Placed) : List Reference :=
  frames.flatMap fun f => (t.outcome o f).references

/-- The record that a frame decodes to, with its index. -/
def record? (f : Frame.Placed) : Option (TypeIndex × Record) :=
  match (t.outcome o f).result with
  | .ok record => some (f.index, record)
  | .error _ => none

/-- Why a frame does not decode to a record. -/
def failure? (f : Frame.Placed) : Option Failure :=
  match (t.outcome o f).result with
  | .ok _ => none
  | .error e => some ⟨f.index, (t.outcome o f).kind, f.offset, e⟩

/-- The records that frames decode to, in order. -/
def records (frames : List Frame.Placed) : List (TypeIndex × Record) :=
  frames.filterMap (t.record? o)

/-- The failures of the frames that do not decode to a record, in order. -/
def failures (frames : List Frame.Placed) : List Failure := frames.filterMap (t.failure? o)

/-- Without a failure every frame decodes to a record. -/
theorem forall_ok_of_failures_eq_nil {frames : List Frame.Placed} (h : t.failures o frames = []) :
    ∀ f ∈ frames, ∀ e, (t.outcome o f).result ≠ .error e := by
  intro f hf e he
  have hfailure : t.failure? o f = none := List.filterMap_eq_nil_iff.1 h f hf
  simp [failure?, he] at hfailure

variable {t o} in
/-- A record is stored under an index exactly if a frame with this index decodes to it. -/
theorem mem_records_iff {frames : List Frame.Placed} {i : TypeIndex} {record : Record} :
    (i, record) ∈ t.records o frames ↔
      ∃ f ∈ frames, f.index = i ∧ (t.outcome o f).result = .ok record := by
  unfold records
  rw [List.mem_filterMap]
  refine exists_congr fun f => and_congr_right fun _ => ?_
  unfold record?
  cases (t.outcome o f).result <;> simp

/-- Frames that are numbered in ascending order decode to records in ascending order. -/
theorem pairwise_records {frames : List Frame.Placed}
    (h : frames.Pairwise fun f g => f.index < g.index) :
    (t.records o frames).Pairwise fun a b => a.1 < b.1 := by
  have hindex : ∀ f e, t.record? o f = some e → e.1 = f.index := by
    intro f e he
    unfold record? at he
    split at he
    · rw [← Option.some.inj he]
    · exact nomatch he
  -- A record keeps the index of its frame, so leaving frames out leaves the order as it was.
  refine h.filterMap _ fun f g hlt a ha b hb => ?_
  rw [hindex f a ha, hindex g b hb]
  exact hlt

end DecoderTable

@[simp] theorem Progress.index_add (p : Progress) (offset : Nat) (outcome : FrameOutcome) :
    (p.add offset outcome).index = p.index.next := rfl

/-- The run after the frames given. -/
def Progress.addAll (t : DecoderTable) (o : Options) (p : Progress)
    (frames : List Frame.Placed) : Progress :=
  frames.foldl (fun p f => p.add f.offset (t.outcome o f)) p

/-- References are noted one after the other, so also in two goes. -/
theorem Collector.noteAll_append {σ : Type} [Collector σ] (collector : σ)
    (before after : List Reference) :
    noteAll collector (before ++ after) = noteAll (noteAll collector before) after :=
  List.foldl_append

/-- A trail keeps what it is told behind what it has been told before. -/
theorem Trail.references_noteAll (trail : Trail) (references : List Reference) :
    (Collector.noteAll trail references).references = trail.references ++ references := by
  induction references generalizing trail with
  | nil => exact (List.append_nil _).symm
  | cons r rest ih =>
    have hnote : (Collector.noteAll trail (r :: rest)).references =
        (trail.note r).references ++ rest := ih (trail.note r)
    rw [hnote, references_note, List.append_assoc, List.singleton_append]

/-! ### A run over frames -/

namespace DecoderTable

variable {σ : Type} [Collector σ] (t : DecoderTable) {o : Options} (p : Progress) (collector : σ)
  {c : Cursor} {payload rest : List UInt8} {payloads : List (List UInt8)}

/-- What a run reads of a frame is what the frame decodes to on its own. -/
theorem readFrame_eq_outcome (payload : List UInt8) (halign : c.alignment = max o.alignment 1) :
    t.readFrame ⟨p.index, o⟩ (.ofBytes payload (c.offset + 2) c.alignment) =
      t.outcome o ⟨p.index, c.offset, payload⟩ := by
  have hcursor : Cursor.ofBytes payload (c.offset + 2) c.alignment =
      .ofBytes payload (c.offset + 2) o.alignment := by
    simp only [Cursor.ofBytes, halign, Cursor.mk.injEq, true_and]
    omega
  rw [hcursor]
  rfl

/-- In front of a frame a run is not at the end. -/
theorem not_atEnd_of_encode (hc : c.unread = Frame.encode payload ++ rest) :
    ¬ c.atEnd = true := by
  simp [Cursor.atEnd, hc, Frame.encode, LittleEndian.encode]

/-- In front of several frames stands the first one, and behind it the others. -/
theorem unread_of_cons (hc : c.unread = (payload :: payloads).flatMap Frame.encode ++ rest) :
    c.unread = Frame.encode payload ++ (payloads.flatMap Frame.encode ++ rest) ∧
      (c.advance (Frame.encode payload).length).unread =
        payloads.flatMap Frame.encode ++ rest := by
  rw [List.flatMap_cons, List.append_assoc] at hc
  exact ⟨hc, by rw [Cursor.unread_advance, hc, List.drop_left]⟩

/-- A run goes through a complete frame, unless it is strict and the frame fails. -/
theorem run_frame (hc : c.unread = Frame.encode payload ++ rest)
    (hlength : payload.length ≤ Frame.maxLength) (halign : c.alignment = max o.alignment 1)
    (hgo : o.strict = true → ∀ e, (t.outcome o ⟨p.index, c.offset, payload⟩).result ≠ .error e) :
    t.run o p collector c =
      t.run o (p.add c.offset (t.outcome o ⟨p.index, c.offset, payload⟩))
        (Collector.noteAll collector (t.outcome o ⟨p.index, c.offset, payload⟩).references)
        (c.advance (Frame.encode payload).length) := by
  have hframe := Cursor.frame_of_encode hc hlength
  have houtcome := readFrame_eq_outcome t p payload halign
  rw [run_of_frame_ok t p collector (not_atEnd_of_encode hc) hframe (by rwa [houtcome]), houtcome]

/-- A strict run ends in a frame that fails, with its error and behind its references. -/
theorem run_failing_frame {e : Error} (hc : c.unread = Frame.encode payload ++ rest)
    (hlength : payload.length ≤ Frame.maxLength) (halign : c.alignment = max o.alignment 1)
    (hstrict : o.strict = true)
    (he : (t.outcome o ⟨p.index, c.offset, payload⟩).result = .error e) :
    t.run o p collector c = (.error e,
      Collector.noteAll collector (t.outcome o ⟨p.index, c.offset, payload⟩).references) := by
  have hframe := Cursor.frame_of_encode hc hlength
  have houtcome := readFrame_eq_outcome t p payload halign
  rw [run_of_strict_error t p collector (not_atEnd_of_encode hc) hframe hstrict (by rwa [houtcome]),
    houtcome]

/-- A run goes through complete frames and on behind them, unless it is strict and one of them
    cannot be decoded. -/
theorem run_frames (hc : c.unread = payloads.flatMap Frame.encode ++ rest)
    (hlength : ∀ payload ∈ payloads, payload.length ≤ Frame.maxLength)
    (halign : c.alignment = max o.alignment 1)
    (hgo : o.strict = true → ∀ f ∈ Frame.place p.index c.offset payloads,
      ∀ e, (t.outcome o f).result ≠ .error e) :
    t.run o p collector c =
      t.run o (p.addAll t o (Frame.place p.index c.offset payloads))
        (Collector.noteAll collector (t.references o (Frame.place p.index c.offset payloads)))
        (c.advance (payloads.flatMap Frame.encode).length) := by
  -- The induction is on the frames; the run, the collector and the cursor all move on.
  induction payloads generalizing p collector c with
  | nil => rfl
  | cons payload payloads ih =>
    obtain ⟨hc', hrest⟩ := unread_of_cons hc
    have hlength' := fun q hq => hlength q (List.mem_cons_of_mem _ hq)
    have hfirst := fun hs => hgo hs _ List.mem_cons_self
    have hothers := fun hs f hf => hgo hs f (List.mem_cons_of_mem _ hf)
    rw [run_frame t p collector hc' (hlength _ List.mem_cons_self) halign hfirst]
    rw [ih _ _ hrest hlength' halign
      (by simpa only [Progress.index_add, Cursor.offset_advance] using hothers)]
    simp only [Frame.place, Progress.addAll, references, List.foldl_cons, List.flatMap_cons,
      Collector.noteAll_append, Cursor.offset_advance, Cursor.advance_advance, List.length_append]
    rfl

/-- A run ends at a tail in front of which there is no complete frame. -/
theorem run_tail (hc : Frame.Incomplete c.unread) :
    t.run o p collector c =
      (match Frame.tailError? c.offset c.unread with
        | none => .ok p.decoded
        | some e => .error e, collector) := by
  cases he : Frame.tailError? c.offset c.unread with
  | none =>
    -- nothing is left
    have hend : c.atEnd = true := by
      simp [Cursor.atEnd, Frame.tailError?_eq_none_iff.1 he]
    exact run_of_atEnd t p collector hend
  | some e =>
    have hend : ¬ c.atEnd = true := by
      intro hend
      have htail : c.unread = [] := by simpa [Cursor.atEnd] using hend
      simp [htail, Frame.tailError?] at he
    obtain ⟨stop, hframe⟩ := Cursor.frame_of_incomplete hc he
    exact run_of_frame_error t p collector hend hframe

/-- A strict run that succeeds has decoded every frame. -/
theorem forall_ok_of_run_ok {d : Decoded} (hc : c.unread = payloads.flatMap Frame.encode ++ rest)
    (hlength : ∀ payload ∈ payloads, payload.length ≤ Frame.maxLength)
    (halign : c.alignment = max o.alignment 1) (hstrict : o.strict = true)
    (h : (t.run o p collector c).1 = .ok d) :
    ∀ f ∈ Frame.place p.index c.offset payloads, ∀ e, (t.outcome o f).result ≠ .error e := by
  induction payloads generalizing p collector c with
  | nil => simp [Frame.place]
  | cons payload payloads ih =>
    obtain ⟨hc', hrest⟩ := unread_of_cons hc
    -- Had the first frame failed, the run would have ended with its error.
    have hfirst : ∀ e, (t.outcome o ⟨p.index, c.offset, payload⟩).result ≠ .error e := by
      intro e he
      rw [run_failing_frame t p collector hc' (hlength _ List.mem_cons_self) halign hstrict he] at h
      exact nomatch h
    rw [run_frame t p collector hc' (hlength _ List.mem_cons_self) halign fun _ => hfirst] at h
    have hothers := ih _ _ hrest (fun q hq => hlength q (List.mem_cons_of_mem _ hq)) halign h
    intro f hf
    rcases List.mem_cons.1 hf with rfl | hf
    · exact hfirst
    · exact hothers f (by simpa only [Progress.index_add, Cursor.offset_advance] using hf)

/-- Decoding a stream, unless it is strict and a frame cannot be decoded: the frames make up what
    is decoded, the tail decides whether the call fails, and the references are those of the frames
    in either case. -/
theorem readStream_of_splits {stream tail : List UInt8} (hvalid : o.validate = .ok ())
    (hsplits : Frame.Splits stream payloads tail)
    (hgo : o.strict = true → ∀ f ∈ Frame.place o.firstIndex 0 payloads,
      ∀ e, (t.outcome o f).result ≠ .error e) :
    t.readStream o stream collector =
      (match Frame.tailError? (payloads.flatMap Frame.encode).length tail with
        | none => .ok ((Progress.start o).addAll t o (Frame.place o.firstIndex 0 payloads)).decoded
        | some e => .error e,
      Collector.noteAll collector (t.references o (Frame.place o.firstIndex 0 payloads))) := by
  have hrun := run_frames t (.start o) collector (c := .ofBytes stream 0 o.alignment)
    hsplits.bytes_eq hsplits.length_le rfl hgo
  -- Behind the frames the cursor stands at the tail.
  have htail : ((Cursor.ofBytes stream 0 o.alignment).advance
      (payloads.flatMap Frame.encode).length).unread = tail := by
    rw [Cursor.unread_advance]
    show stream.drop _ = tail
    rw [hsplits.bytes_eq, List.drop_left]
  have hoffset : ((Cursor.ofBytes stream 0 o.alignment).advance
      (payloads.flatMap Frame.encode).length).offset = (payloads.flatMap Frame.encode).length := by
    rw [Cursor.offset_advance]
    exact Nat.zero_add _
  simp only [readStream, hvalid]
  rw [hrun, run_tail t _ _ (by rw [htail]; exact hsplits.incomplete), htail, hoffset]
  rfl

/-- A stream is only decoded with options that hold. -/
theorem validate_of_readStream_ok {stream : List UInt8} {d : Decoded}
    (h : (t.readStream o stream collector).1 = .ok d) : o.validate = .ok () := by
  cases hvalid : o.validate with
  | ok => rfl
  | error e =>
    simp only [readStream, hvalid] at h
    exact nomatch h

/-- A stream that is decoded consists of complete frames, and a strict one of frames that can all
    be decoded. -/
theorem readStream_ok {stream : List UInt8} {d : Decoded} {after : σ}
    (h : t.readStream o stream collector = (.ok d, after)) :
    ∃ payloads, Frame.Splits stream payloads [] ∧
      d = ((Progress.start o).addAll t o (Frame.place o.firstIndex 0 payloads)).decoded ∧
      after = Collector.noteAll collector
        (t.references o (Frame.place o.firstIndex 0 payloads)) := by
  have hvalid := validate_of_readStream_ok t collector (congrArg Prod.fst h)
  have hsplits := Frame.splits_split stream
  have hgo : o.strict = true → ∀ f ∈ Frame.place o.firstIndex 0 (Frame.split stream).1,
      ∀ e, (t.outcome o f).result ≠ .error e := by
    intro hstrict
    simp only [readStream, hvalid] at h
    exact forall_ok_of_run_ok t (.start o) collector (c := .ofBytes stream 0 o.alignment)
      hsplits.bytes_eq hsplits.length_le rfl hstrict (congrArg Prod.fst h)
  rw [readStream_of_splits t collector hvalid hsplits hgo, Prod.mk.injEq] at h
  obtain ⟨hresult, hafter⟩ := h
  -- A tail that holds any byte makes the call fail.
  cases htail : Frame.tailError? ((Frame.split stream).1.flatMap Frame.encode).length
      (Frame.split stream).2 with
  | none =>
    rw [htail] at hresult
    rw [Frame.tailError?_eq_none_iff.1 htail] at hsplits
    exact ⟨_, hsplits, (Except.ok.inj hresult).symm, hafter.symm⟩
  | some e =>
    rw [htail] at hresult
    cases hresult

end DecoderTable

/-! ### What frames leave behind -/

/-- The catalog after storing the records given, in order. -/
def Catalog.insertAll (c : Catalog) (entries : List (TypeIndex × Record)) : Catalog :=
  entries.foldl (fun c e => c.insert e.1 e.2) c

namespace Catalog

@[simp] theorem placeholders_insertAll (c : Catalog) (entries : List (TypeIndex × Record)) :
    (c.insertAll entries).placeholders = c.placeholders := by
  induction entries generalizing c with
  | nil => rfl
  | cons e rest ih => exact ih (c.insert e.1 e.2)

/-- Of several records with one index the last one stays. -/
theorem find?_insertAll (c : Catalog) (entries : List (TypeIndex × Record)) (i : TypeIndex) :
    (c.insertAll entries).find? i = (entries.reverse.lookup i).or (c.find? i) := by
  induction entries generalizing c with
  | nil => rfl
  | cons e rest ih =>
    obtain ⟨j, r⟩ := e
    -- The first of the records is asked last, behind all that came after it.
    have hstep : (c.insertAll ((j, r) :: rest)).find? i =
        (rest.reverse.lookup i).or ((c.insert j r).find? i) := ih (c.insert j r)
    rw [hstep, find?_insert, List.reverse_cons, List.lookup_append, Option.or_assoc]
    congr 1
    by_cases h : i = j
    · simp [h]
    · have hne : (i == j) = false := beq_false_of_ne h
      simp [List.lookup_cons, h, hne]

/-- What a look-up finds is one of the records, whatever came under its index before. -/
theorem mem_of_find?_insertAll {placeholders : Bool} {entries : List (TypeIndex × Record)}
    {i : TypeIndex} {record : Record}
    (h : ((empty placeholders).insertAll entries).find? i = some record) :
    (i, record) ∈ entries := by
  have hnone : (empty placeholders).find? i = none := rfl
  rw [find?_insertAll, hnone, Option.or_none] at h
  obtain ⟨before, after, heq, _⟩ := List.lookup_eq_some_iff.1 h
  rw [← List.mem_reverse, heq]
  exact List.mem_append_right _ List.mem_cons_self

/-- Records with ascending indices, all above those of the catalog, are appended. -/
theorem entries_insertAll (c : Catalog) {entries : List (TypeIndex × Record)}
    (hascending : entries.Pairwise fun a b => a.1 < b.1)
    (habove : ∀ a ∈ c.entries, ∀ b ∈ entries, a.1 < b.1) :
    (c.insertAll entries).entries = c.entries ++ entries := by
  induction entries generalizing c with
  | nil => simp [insertAll]
  | cons e rest ih =>
    obtain ⟨hhead, hrest⟩ := List.pairwise_cons.1 hascending
    -- A record above all others goes to the end, and those to come are above it, too.
    have hinsert : (c.insert e.1 e.2).entries = c.entries ++ [e] :=
      OrderedMap.entries_insert_of_forall_lt (fun a ha => habove a ha e List.mem_cons_self) e.2
    have habove' : ∀ a ∈ (c.insert e.1 e.2).entries, ∀ b ∈ rest, a.1 < b.1 := by
      intro a ha b hb
      rw [hinsert] at ha
      rcases List.mem_append.1 ha with ha | ha
      · exact habove a ha b (List.mem_cons_of_mem _ hb)
      · exact (List.mem_singleton.1 ha) ▸ hhead b hb
    have hstep : (c.insertAll (e :: rest)).entries = (c.insert e.1 e.2).entries ++ rest :=
      ih (c.insert e.1 e.2) hrest habove'
    rw [hstep, hinsert, List.append_assoc, List.singleton_append]

end Catalog

namespace Progress

variable (t : DecoderTable) (o : Options) (p : Progress) (offset : Nat)
  (payloads : List (List UInt8))

/-- Frames leave their records in the catalog. -/
theorem catalog_addAll :
    (p.addAll t o (Frame.place p.index offset payloads)).decoded.catalog =
      p.decoded.catalog.insertAll (t.records o (Frame.place p.index offset payloads)) := by
  induction payloads generalizing p offset with
  | nil => rfl
  | cons payload rest ih =>
    have hstep := ih (p.add offset (t.outcome o ⟨p.index, offset, payload⟩))
      (offset + (Frame.encode payload).length)
    simp only [index_add] at hstep
    simp only [addAll, Frame.place, List.foldl_cons] at hstep ⊢
    rw [hstep]
    -- The first outcome is stored or counted as a failure.
    cases hresult : (t.outcome o ⟨p.index, offset, payload⟩).result <;>
      simp [DecoderTable.records, DecoderTable.record?, hresult, Progress.add, Catalog.insertAll]

/-- The report counts the records that frames decode to, and lists the failures in stream order. -/
theorem report_addAll :
    (p.addAll t o (Frame.place p.index offset payloads)).decoded.report =
      { decoded := p.decoded.report.decoded +
          (t.records o (Frame.place p.index offset payloads)).countP fun e => !e.2.isUnknown
        unknown := p.decoded.report.unknown +
          (t.records o (Frame.place p.index offset payloads)).countP fun e => e.2.isUnknown
        failures := p.decoded.report.failures ++
          t.failures o (Frame.place p.index offset payloads) } := by
  induction payloads generalizing p offset with
  | nil => simp [addAll, Frame.place, DecoderTable.records, DecoderTable.failures]
  | cons payload rest ih =>
    have hstep := ih (p.add offset (t.outcome o ⟨p.index, offset, payload⟩))
      (offset + (Frame.encode payload).length)
    simp only [index_add] at hstep
    simp only [addAll, Frame.place, List.foldl_cons] at hstep ⊢
    rw [hstep]
    cases hresult : (t.outcome o ⟨p.index, offset, payload⟩).result with
    | error e =>
      -- only the list of failures grows
      simp [DecoderTable.records, DecoderTable.record?, DecoderTable.failures,
        DecoderTable.failure?, hresult, Progress.add]
    | ok record =>
      -- one of the two counts goes up
      cases hunknown : record.isUnknown <;>
        simp [DecoderTable.records, DecoderTable.record?, DecoderTable.failures,
          DecoderTable.failure?, hresult, Progress.add, Report.count, hunknown] <;> omega

theorem catalog_addAll_start :
    ((start o).addAll t o (Frame.place o.firstIndex 0 payloads)).decoded.catalog =
      (Catalog.empty o.placeholders).insertAll
        (t.records o (Frame.place o.firstIndex 0 payloads)) :=
  catalog_addAll t o (start o) 0 payloads

/-- The report counts the records of all frames, and lists their failures. -/
theorem report_addAll_start :
    ((start o).addAll t o (Frame.place o.firstIndex 0 payloads)).decoded.report =
      { decoded := (t.records o (Frame.place o.firstIndex 0 payloads)).countP
          fun e => !e.2.isUnknown
        unknown := (t.records o (Frame.place o.firstIndex 0 payloads)).countP
          fun e => e.2.isUnknown
        failures := t.failures o (Frame.place o.firstIndex 0 payloads) } := by
  have hreport := report_addAll t o (start o) 0 payloads
  simpa only [start, Nat.zero_add, List.nil_append] using hreport

end Progress

end TypeStream
