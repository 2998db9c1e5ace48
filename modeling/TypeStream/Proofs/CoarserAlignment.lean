import TypeStream.Proofs.ComparedRuns
import TypeStream.Proofs.CoupledReaders
import TypeStream.Proofs.RecordRoundTrip

/-!
# Coarser alignments

A boundary of a coarser alignment is one of a finer alignment, too, so padding reaches at least as
far.  How far it reaches only decides how many bytes of a frame are left over.  So with a coarser
alignment everything that was decoded still is, and of the failures only those can go away that
complained about bytes left over.

## Key results

- `Cursor.padding_le_padding`: padding reaches further with a coarser alignment
- `DecoderTable.Registered.results_coarser`: what a coarser alignment makes of a frame
- `DecoderTable.readStream_coarser`: what it makes of a stream
-/

namespace TypeStream

variable {o : Options}

/-- The options with another alignment. -/
def Options.withAlignment (o : Options) (alignment : Nat) : Options := { o with alignment }

/-! ### Cursors -/

namespace Cursor

/-- Padding reaches further with a coarser alignment. -/
theorem padding_le_padding {c c' : Cursor} (hoffset : c.offset = c'.offset)
    (hdvd : c.alignment ∣ c'.alignment) : c.padding ≤ c'.padding := by
  -- Where the padding of `c'` ends there is a boundary for `c` as well; that of `c` ends at the
  -- first one.
  have hboundary := c'.isLeast_offset_add_padding.1
  have hle := c.isLeast_offset_add_padding.2 ⟨Nat.dvd_trans hdvd hboundary.1, hoffset ▸ hboundary.2⟩
  omega

/-- Reading the same bytes in the same place with a coarser alignment.  Behind padding there are at
    most as many bytes left. -/
def Coupling.coarser (o : Options) (a b : Nat) :
    Coupling (o.withAlignment a).charset (o.withAlignment b).charset where
  Cursors c c' := c.unread = c'.unread ∧ c.offset = c'.offset ∧ c.alignment ∣ c'.alignment
  Padded c c' := c'.remaining ≤ c.remaining
  Errors := Eq
  Names := Eq
  unread_eq h := h.1
  advance := by
    intro c c' h n
    obtain ⟨hunread, hoffset, hdvd⟩ := h
    refine ⟨?_, ?_, hdvd⟩
    · rw [unread_advance, unread_advance, hunread]
    · rw [offset_advance, offset_advance, hoffset]
  window := by
    intro c c' h n
    obtain ⟨hunread, hoffset, hdvd⟩ := h
    refine ⟨?_, congrArg (· + 0) hoffset, hdvd⟩
    show c.unread.take n = c'.unread.take n
    rw [hunread]
  padded := by
    intro c c' h
    exact Nat.le_of_eq (congrArg List.length h.1.symm)
  padding := by
    intro c c' h
    obtain ⟨hunread, hoffset, hdvd⟩ := h
    have hle := padding_le_padding hoffset hdvd
    have hremaining : c.remaining = c'.remaining := congrArg List.length hunread
    rw [remaining_advance, remaining_advance]
    omega
  truncated := by
    intro c c' h field needed available
    rw [h.2.1]
  unterminated := by
    intro c c' h
    rw [h.2.1]
  errors_self _ := rfl
  names _ := rfl

end Cursor

/-! ### Frames -/

/-- What a frame decodes to with a finer and with a coarser alignment: the same, or with the finer
    one bytes are left over, of which the coarser one leaves none or at most as many. -/
inductive Record.Coarser (index : TypeIndex) : Except Error Record → Except Error Record → Prop
  | same (result) : Coarser index result result
  | decoded (count record) : Coarser index (.error (.leftover index count)) (.ok record)
  | fewer {count count'} : count' ≤ count →
      Coarser index (.error (.leftover index count)) (.error (.leftover index count'))

namespace Record.Coarser

variable {index : TypeIndex} {result result' : Except Error Record}

/-- What is decoded with the finer alignment is decoded to the same with the coarser one. -/
theorem eq_of_ok {record : Record} (h : Coarser index (.ok record) result') :
    result' = .ok record := by
  cases h
  rfl

/-- What fails with the coarser alignment has failed with the finer one: with the same error, or
    with at least as many bytes left over. -/
theorem exists_error {e' : Error} (h : Coarser index result (.error e')) :
    ∃ e, result = .error e ∧ (e = e' ∨ ∃ count count', count' ≤ count ∧
      e = .leftover index count ∧ e' = .leftover index count') := by
  cases h with
  | same => exact ⟨e', rfl, .inl rfl⟩
  | fewer hle => exact ⟨_, rfl, .inr ⟨_, _, hle, rfl, rfl⟩⟩

/-- An error stays as it was, unless it was that of bytes left over. -/
theorem eq_or_leftover {e : Error} (h : Coarser index (.error e) result') :
    result' = .error e ∨ ∃ count, e = .leftover index count := by
  cases h with
  | same => exact .inl rfl
  | decoded count => exact .inr ⟨count, rfl⟩
  | fewer => exact .inr ⟨_, rfl⟩

end Record.Coarser

/-- What a coarser alignment makes of what was decoded. -/
structure Decoded.Coarser (d d' : Decoded) : Prop where
  find?_eq_some : ∀ i record,
    d.catalog.find? i = some record → d'.catalog.find? i = some record
  /-- There are no new failures. -/
  exists_failure : ∀ g' ∈ d'.report.failures, ∃ g ∈ d.report.failures,
    g.index = g'.index ∧ g.kind = g'.kind ∧ g.offset = g'.offset ∧
      (g.error = g'.error ∨ ∃ count count', count' ≤ count ∧
        g.error = .leftover g.index count ∧ g'.error = .leftover g.index count')
  /-- The failures that go away are those of bytes left over. -/
  exists_leftover : ∀ g ∈ d.report.failures, g ∉ d'.report.failures →
    ∃ count, g.error = .leftover g.index count

namespace DecoderTable

variable {t : DecoderTable} {a b : Nat}

/-- Where fewer bytes are left behind a record, fewer are left over. -/
theorem coarser_finish (index : TypeIndex) (record : Record) {c c' : Cursor}
    (h : c'.remaining ≤ c.remaining) :
    Record.Coarser index (Cursor.Coupling.finish index record c)
      (Cursor.Coupling.finish index record c') := by
  unfold Cursor.Coupling.finish
  by_cases hend' : c'.atEnd = true
  -- Both are at the end, or only the one with the greater padding is.
  · by_cases hend : c.atEnd = true
    · rw [if_pos hend, if_pos hend']
      exact .same _
    · rw [if_neg hend, if_pos hend']
      exact .decoded _ _
  -- Where bytes are left behind the greater padding, more are left behind the smaller.
  · have hend : ¬ c.atEnd = true := by
      rw [Cursor.atEnd_iff] at hend' ⊢
      omega
    rw [if_neg hend, if_neg hend']
    exact .fewer h

/-- What a coarser alignment makes of a frame: its kind and its references stay, and its result is
    no worse. -/
theorem Registered.results_coarser (ht : t.Registered) (ha : 0 < a) (hb : 0 < b) (hdvd : a ∣ b)
    (f : Frame.Placed) :
    (t.outcome (o.withAlignment a) f).kind = (t.outcome (o.withAlignment b) f).kind ∧
      (t.outcome (o.withAlignment a) f).references =
        (t.outcome (o.withAlignment b) f).references ∧
      Record.Coarser f.index (t.outcome (o.withAlignment a) f).result
        (t.outcome (o.withAlignment b) f).result := by
  have hdvd' : max a 1 ∣ max b 1 := by
    rwa [Nat.max_eq_left ha, Nat.max_eq_left hb]
  obtain ⟨hkind, hreferences, hresults⟩ :=
    (Cursor.Coupling.coarser o a b).outcome ht rfl (f := f) ⟨rfl, rfl, hdvd'⟩
  refine ⟨hkind, hreferences, ?_⟩
  obtain ⟨e, _, rfl, he, he'⟩ | ⟨record, record', c, c', hrecord, hpadded, heq, heq'⟩ := hresults
  · rw [he, he']
    exact .same _
  · rw [heq, heq', ← hrecord.eq]
    exact coarser_finish f.index record hpadded

/-! ### Streams -/

/-- What frames decode to with a coarser alignment, put together. -/
theorem gather_coarser (ht : t.Registered) (ha : 0 < a) (hb : 0 < b) (hdvd : a ∣ b)
    {frames : List Frame.Placed} (hascending : frames.Pairwise fun f g => f.index < g.index) :
    (t.gather (o.withAlignment a) frames).Coarser (t.gather (o.withAlignment b) frames) := by
  have hframe := ht.results_coarser (o := o) ha hb hdvd
  constructor
  -- A record that is stored with the smaller alignment is stored with the greater one.
  · intro i record hrecord
    obtain ⟨f, hf, hindex, hok⟩ := (find?_gather_iff hascending).1 hrecord
    obtain ⟨_, _, hresults⟩ := hframe f
    rw [hok] at hresults
    exact (find?_gather_iff hascending).2 ⟨f, hf, hindex, hresults.eq_of_ok⟩
  -- Behind a failure of the greater alignment there is one of the smaller.
  · intro g' hg'
    obtain ⟨f, hf, e', he', rfl⟩ := mem_failures_iff.1 hg'
    obtain ⟨hkind, _, hresults⟩ := hframe f
    rw [he'] at hresults
    obtain ⟨e, he, herrors⟩ := hresults.exists_error
    exact ⟨_, mem_failures_iff.2 ⟨f, hf, e, he, rfl⟩, rfl, hkind, rfl, herrors⟩
  -- A failure that stayed as it is would not have gone away.
  · intro g hg hgone
    obtain ⟨f, hf, e, he, rfl⟩ := mem_failures_iff.1 hg
    obtain ⟨hkind, _, hresults⟩ := hframe f
    rw [he] at hresults
    rcases hresults.eq_or_leftover with hsame | hleftover
    · refine absurd (mem_failures_iff.2 ⟨f, hf, e, hsame, ?_⟩) hgone
      rw [hkind]
    · exact hleftover

/-- What a lenient run decodes with an alignment, it decodes with every coarser one, too.  Nothing
    fails that did not, and what does not fail any more had bytes left over. -/
theorem readStream_coarser (ht : t.Registered) (hle : a ≤ b)
    (hvalid : (o.withAlignment a).validate = .ok ())
    (hvalid' : (o.withAlignment b).validate = .ok ()) (hstrict : o.strict = false)
    {stream tail : List UInt8} {payloads : List (List UInt8)}
    (hsplits : Frame.Splits stream payloads tail)
    (hbound : o.firstIndex.toNat + payloads.length ≤ UInt32.size)
    {σ : Type} [Collector σ] (collector : σ) :
    SameFate Decoded.Coarser (t.readStream (o.withAlignment a) stream collector).1
        (t.readStream (o.withAlignment b) stream collector).1 ∧
      (t.readStream (o.withAlignment a) stream collector).2 =
        (t.readStream (o.withAlignment b) stream collector).2 := by
  -- Of two powers of two the smaller one divides the greater one.
  obtain ⟨m, rfl⟩ : ∃ m, a = 2 ^ m := (Options.validate_eq_ok_iff.1 hvalid).1
  obtain ⟨n, rfl⟩ : ∃ n, b = 2 ^ n := (Options.validate_eq_ok_iff.1 hvalid').1
  have hdvd : 2 ^ m ∣ 2 ^ n := Nat.pow_dvd_pow 2 ((Nat.pow_le_pow_iff_right (by decide)).1 hle)
  have hpos := fun k => Nat.two_pow_pos k
  have hframe := ht.results_coarser (o := o) (hpos m) (hpos n) hdvd
  exact readStream_sameFate_of_lenient collector hvalid hvalid' hstrict hstrict hsplits rfl rfl
    (fun f _ => (hframe f).2.1)
    (gather_coarser ht (hpos m) (hpos n) hdvd (Frame.pairwise_place hbound 0))

/-- Two shapes with five slots, in frames of 16 and 20 bytes.  At alignment 4 both have bytes left
    over, at alignment 8 only the second has. -/
theorem readStream_coarser_two_shapes :
    let o : Options := {}
    let stream : List UInt8 :=
      [14, 0, 0x0a, 0, 5, 0, 0x55, 0x55, 5, 0, 0, 0, 0, 0, 0, 0] ++
        [18, 0, 0x0a, 0, 5, 0, 0x55, 0x55, 5, 0, 0, 0, 0, 0, 0, 0, 0, 0, 0, 0]
    4 ≤ 8 ∧ standard.Registered ∧ o.strict = false ∧
      (o.withAlignment 4).validate = .ok () ∧ (o.withAlignment 8).validate = .ok () ∧
      ∃ d d', (standard.readStream (o.withAlignment 4) stream ()).1 = .ok d ∧
        (standard.readStream (o.withAlignment 8) stream ()).1 = .ok d' ∧ d.Coarser d' ∧
        d.report.failures = [⟨⟨0x1000⟩, some 0x0a, 0, .leftover ⟨0x1000⟩ 4⟩,
          ⟨⟨0x1001⟩, some 0x0a, 16, .leftover ⟨0x1001⟩ 8⟩] ∧
        d'.report.failures = [⟨⟨0x1001⟩, some 0x0a, 16, .leftover ⟨0x1001⟩ 4⟩] := by
  intro o stream
  have hvalid : (o.withAlignment 4).validate = .ok () := Options.validate_eq_ok_iff.2 (by decide)
  have hvalid' : (o.withAlignment 8).validate = .ok () := Options.validate_eq_ok_iff.2 (by decide)
  have hsplits : Frame.Splits stream [(stream.take 16).drop 2, stream.drop 18] [] :=
    ⟨by decide, by decide, trivial⟩
  have hfate := (readStream_coarser .standard (by decide) hvalid hvalid' rfl hsplits
    (by decide) ()).1
  rw [readStream_eq () hvalid hsplits, readStream_eq () hvalid' hsplits] at hfate ⊢
  cases hfate with
  | ok hcoarser =>
    exact ⟨by decide, .standard, rfl, hvalid, hvalid', _, _, rfl, rfl, hcoarser,
      by decide +kernel, by decide +kernel⟩

end DecoderTable

end TypeStream
