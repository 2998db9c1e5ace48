import Mathlib.Data.List.Forall2
import TypeStream.Proofs.RegisteredDecoders

/-!
# Two readers side by side

What a decoder gives is a matter of the bytes in front of it.  Where the cursor stands comes in
through padding and through the offsets that errors tell, and the charset through names.  So a
record that is read twice, from other positions or with another charset, is read in the same steps.

`Coupled` compares two computations: from related states both give related values or both fail with
related errors.  A `Cursor.Coupling` says how two cursors over the same bytes compare, and that is
enough to compare all decoders of this library.

## Key results

- `Coupled.bind`: coupled steps in sequence
- `Cursor.Coupling.nameBlock`, `Cursor.Coupling.virtualTable`: names and tables are read alike
- `Cursor.Coupling.decoder`: whichever decoder a table of decoders gives
- `Cursor.Coupling.readFrame`: frames that hold the same bytes
-/

namespace TypeStream

section Coupled

variable {σ τ α β γ δ : Type}

/-- Two results of one kind: values related by `V` in states related by `S`, or errors and states
    related by `X`. -/
inductive ResultsAgree (V : α → β → Prop) (S : σ → τ → Prop) (X : Error → σ → Error → τ → Prop) :
    EStateM.Result Error σ α → EStateM.Result Error τ β → Prop
  | ok {a b s t} : V a b → S s t → ResultsAgree V S X (.ok a s) (.ok b t)
  | error {e f s t} : X e s f t → ResultsAgree V S X (.error e s) (.error f t)

/-- From states related by `P`, the two computations come to results that agree. -/
def Coupled (P : σ → τ → Prop) (m : EStateM Error σ α) (n : EStateM Error τ β)
    (V : α → β → Prop) (S : σ → τ → Prop) (X : Error → σ → Error → τ → Prop) : Prop :=
  ∀ s t, P s t → ResultsAgree V S X (m s) (n t)

variable {P S T : σ → τ → Prop} {X : Error → σ → Error → τ → Prop} {V : α → β → Prop}
  {W : γ → δ → Prop} {m : EStateM Error σ α} {n : EStateM Error τ β}

/-- Results without an effect are coupled if the values are, and leave the states as they were. -/
theorem Coupled.pure {a : α} {b : β} (h : V a b) :
    Coupled P (Pure.pure a) (Pure.pure b) V P X :=
  fun _ _ hP => .ok h hP

/-- Two failures are coupled if their errors are, wherever the computations stand. -/
theorem Coupled.throw {e f : Error} (h : ∀ s t, P s t → X e s f t) :
    Coupled P (throw e : EStateM Error σ α) (throw f : EStateM Error τ β) V S X :=
  fun s t hP => .error (h s t hP)

/-- Coupled computations can be continued with coupled ones. -/
theorem Coupled.bind {f : α → EStateM Error σ γ} {g : β → EStateM Error τ δ}
    (hm : Coupled P m n V S X) (hnext : ∀ a b, V a b → Coupled S (f a) (g b) W T X) :
    Coupled P (m >>= f) (n >>= g) W T X := by
  intro s t hP
  show ResultsAgree W T X (EStateM.bind m f s) (EStateM.bind n g t)
  unfold EStateM.bind
  have hfirst := hm s t hP
  generalize m s = r, n t = r' at hfirst
  -- Either both go on, in states from which the next steps are coupled, or both have failed.
  cases hfirst with
  | ok hvalue hstate => exact hnext _ _ hvalue _ _ hstate
  | error h => exact .error h

/-- A coupled result stays so under functions that keep values coupled. -/
theorem Coupled.map {f : α → γ} {g : β → δ} (hm : Coupled P m n V S X)
    (h : ∀ a b, V a b → W (f a) (g b)) :
    Coupled P (do return f (← m)) (do return g (← n)) W S X :=
  hm.bind fun a b hab => Coupled.pure (h a b hab)

/-- The relation of the states behind two computations can be weakened. -/
theorem Coupled.imp (hm : Coupled P m n V S X) (h : ∀ s t, S s t → T s t) :
    Coupled P m n V T X := by
  intro s t hP
  have hresults := hm s t hP
  generalize m s = r, n t = r' at hresults
  cases hresults with
  | ok hvalue hstate => exact .ok hvalue (h _ _ hstate)
  | error h => exact .error h

end Coupled

/-! ### Values that agree up to names -/

/-- Blocks with as many names, each related by `N`. -/
structure NameBlock.Alike (N : String → String → Prop) (b b' : NameBlock) : Prop where
  tableName : Option.Rel N b.tableName b'.tableName
  methods : List.Forall₂ N b.methods b'.methods

/-- Tables that agree in all but their names. -/
structure VirtualTable.Alike (N : String → String → Prop) (t t' : VirtualTable) : Prop where
  owner_eq : t.owner = t'.owner
  base_eq : t.base = t'.base
  pointerOffset_eq : t.pointerOffset = t'.pointerOffset
  names : NameBlock.Alike N t.names t'.names

/-- Records that agree in all but the names of tables. -/
inductive Record.Alike (N : String → String → Prop) : Record → Record → Prop
  | virtualTable {t t'} : VirtualTable.Alike N t t' →
      Record.Alike N (.virtualTable t) (.virtualTable t')
  | tableShape (s) : Record.Alike N (.tableShape s) (.tableShape s)
  | unknown (kind bytes) : Record.Alike N (.unknown kind bytes) (.unknown kind bytes)

/-- Blocks whose names are equal are equal. -/
theorem NameBlock.Alike.eq {b b' : NameBlock} (h : NameBlock.Alike Eq b b') : b = b' := by
  obtain ⟨tableName, methods⟩ := b
  obtain ⟨tableName', methods'⟩ := b'
  obtain ⟨htable, hmethods⟩ := h
  have hmethods' : methods = methods' := List.forall₂_eq_eq_eq ▸ hmethods
  cases htable with
  | some h => rw [h, hmethods']
  | none => rw [hmethods']

/-- Records whose names are the same are the same. -/
theorem Record.Alike.eq {r r' : Record} (h : Record.Alike Eq r r') : r = r' := by
  cases h with
  -- Only the names of a table are compared by a relation; the other parts are equal.
  | virtualTable h =>
    rename_i t t'
    obtain ⟨owner, base, pointerOffset, names⟩ := t
    obtain ⟨howner, hbase, hpointer, hnames⟩ := h
    have heq : names = t'.names := hnames.eq
    subst howner hbase hpointer heq
    rfl
  | tableShape s => rfl
  | unknown kind bytes => rfl

/-! ### Cursors over the same bytes -/

/-- The offset that an error tells, if it tells one. -/
def Error.offset? : Error → Option Nat
  | truncated _ offset _ _ => some offset
  | unterminated offset => some offset
  | _ => none

/-- How reading the same bytes twice compares, once with each charset. -/
structure Cursor.Coupling (charset charset' : Charset) where
  /-- Cursors that are compared. -/
  Cursors : Cursor → Cursor → Prop
  /-- What becomes of them behind padding. -/
  Padded : Cursor → Cursor → Prop
  /-- Errors of reads that fail in the same place. -/
  Errors : Error → Error → Prop
  /-- Names that are read from the same bytes. -/
  Names : String → String → Prop
  unread_eq {c c'} : Cursors c c' → c.unread = c'.unread
  advance {c c'} : Cursors c c' → ∀ n, Cursors (c.advance n) (c'.advance n)
  window {c c'} : Cursors c c' → ∀ n, Cursors (c.window n) (c'.window n)
  padded {c c'} : Cursors c c' → Padded c c'
  padding {c c'} : Cursors c c' →
    Padded (c.advance (min c.padding c.remaining)) (c'.advance (min c'.padding c'.remaining))
  truncated {c c'} : Cursors c c' → ∀ field needed available,
    Errors (.truncated field c.offset needed available)
      (.truncated field c'.offset needed available)
  unterminated {c c'} : Cursors c c' → Errors (.unterminated c.offset) (.unterminated c'.offset)
  errors_self {e} : e.offset? = none → Errors e e
  names (bytes) : Names (charset.decode bytes) (charset'.decode bytes)

namespace Cursor.Coupling

variable {charset charset' : Charset} (K : Coupling charset charset')

/-- Reads that fail in the same place. -/
def Fails (e : Error) (_ : Cursor) (f : Error) (_ : Cursor) : Prop := K.Errors e f

variable {c c' : Cursor}

/-- Coupled cursors have as many bytes left. -/
theorem remaining_eq (h : K.Cursors c c') : c.remaining = c'.remaining := by
  unfold remaining
  rw [K.unread_eq h]

/-- Coupled cursors come to their ends together. -/
theorem atEnd_eq (h : K.Cursors c c') : c.atEnd = c'.atEnd := by
  unfold atEnd
  rw [K.unread_eq h]

/-- A field is read as the same bytes, or is cut off in both. -/
theorem bytes (field : String) (n : Nat) :
    Coupled K.Cursors (Cursor.bytes field n) (Cursor.bytes field n) Eq K.Cursors K.Fails := by
  intro c c' h
  have hremaining := K.remaining_eq h
  by_cases hle : n ≤ c.remaining
  · rw [bytes_of_le hle, bytes_of_le (hremaining ▸ hle), K.unread_eq h]
    exact .ok rfl (K.advance h n)
  · have hlt := Nat.lt_of_not_le hle
    rw [bytes_of_lt hlt, bytes_of_lt (hremaining ▸ hlt), hremaining]
    exact .error (K.truncated h _ _ _)

/-- Numbers of two bytes are read alike, as a field is. -/
theorem u16 : Coupled K.Cursors u16 u16 Eq K.Cursors K.Fails :=
  (K.bytes "u16" 2).map fun _ _ h => by rw [h]

theorem u32 : Coupled K.Cursors u32 u32 Eq K.Cursors K.Fails :=
  (K.bytes "u32" 4).map fun _ _ h => by rw [h]

theorem i32 : Coupled K.Cursors i32 i32 Eq K.Cursors K.Fails :=
  (K.bytes "i32" 4).map fun _ _ h => by rw [h]

/-- The windows of coupled cursors are coupled, too. -/
theorem block (n : Nat) :
    Coupled K.Cursors (block n) (block n) K.Cursors K.Cursors K.Fails := by
  intro c c' h
  have hremaining := K.remaining_eq h
  by_cases hle : n ≤ c.remaining
  · rw [block_of_le hle, block_of_le (hremaining ▸ hle)]
    exact .ok (K.window h n) (K.advance h n)
  · have hlt := Nat.lt_of_not_le hle
    rw [block_of_lt hlt, block_of_lt (hremaining ▸ hlt), hremaining]
    exact .error (K.errors_self rfl)

/-- Only the bytes behind padding may differ, as the coupling allows. -/
theorem align : Coupled K.Cursors align align (fun _ _ => True) K.Padded K.Fails :=
  fun _ _ h => .ok trivial (K.padding h)

/-! ### Names -/

/-- A string ends at the same zero byte, and its bytes are read as names that are related. -/
theorem terminatedString : Coupled K.Cursors (terminatedString charset)
    (terminatedString charset') K.Names K.Cursors K.Fails := by
  intro c c' h
  have hunread := K.unread_eq h
  -- The same bytes are left, so the zero byte is in the same place.
  have hhas : ∀ n, c.has n = c'.has n := by
    intro n
    unfold has
    rw [hunread]
  unfold Cursor.terminatedString
  simp only [hunread, hhas]
  split
  · exact .ok (K.names _) (K.advance h _)
  · exact .error (K.unterminated h)

/-- So are all strings of a window, one by one. -/
theorem terminatedStrings : Coupled K.Cursors (terminatedStrings charset)
    (terminatedStrings charset') (List.Forall₂ K.Names) K.Cursors K.Fails := by
  intro c
  -- Each string that is read leaves fewer bytes.
  induction hlength : c.remaining using Nat.strongRecOn generalizing c with
  | _ n ih =>
    subst hlength
    intro c' h
    -- At the end there is no string more, for both.
    by_cases hend : c.atEnd = true
    · rw [terminatedStrings_of_atEnd hend, terminatedStrings_of_atEnd (K.atEnd_eq h ▸ hend)]
      exact .ok .nil h
    have hend' : ¬ c'.atEnd = true := K.atEnd_eq h ▸ hend
    have hfirst := K.terminatedString c c' h
    generalize hname : Cursor.terminatedString charset c = r,
      hname' : Cursor.terminatedString charset' c' = r' at hfirst
    cases hfirst with
    | error herror =>
      rw [terminatedStrings_of_error hend hname, terminatedStrings_of_error hend' hname']
      exact .error herror
    | ok hnames hrest =>
      rw [terminatedStrings_of_ok hend hname, terminatedStrings_of_ok hend' hname']
      have hothers := ih _ (remaining_lt_of_terminatedString hname) _ rfl _ hrest
      generalize Cursor.terminatedStrings charset _ = r,
        Cursor.terminatedStrings charset' _ = r' at hothers
      cases hothers with
      | ok hothers hstop => exact .ok (.cons hnames hothers) hstop
      | error herror => exact .error herror

/-- Blocks are read alike, if both or neither must have a name. -/
theorem nameBlock {naming naming' : TableNaming} (hnaming : naming = naming') :
    Coupled K.Cursors (NameBlock.decode charset naming) (NameBlock.decode charset' naming')
      (NameBlock.Alike K.Names) K.Cursors K.Fails := by
  subst hnaming
  apply K.terminatedStrings.bind
  intro strings strings' h
  -- The first string is the name of the table, and without one the naming decides.
  cases h with
  | nil =>
    cases naming with
    | optional => exact Coupled.pure ⟨.none, .nil⟩
    | required => exact Coupled.throw fun _ _ _ => K.errors_self rfl
  | cons hname hmethods => exact Coupled.pure ⟨.some hname, hmethods⟩

/-! ### Readers -/

/-- Readers that have reported the same. -/
def States (s s' : Reader.State) : Prop :=
  K.Cursors s.cursor s'.cursor ∧ s.references = s'.references

/-- Readers behind padding that have reported the same. -/
def EndStates (s s' : Reader.State) : Prop :=
  K.Padded s.cursor s'.cursor ∧ s.references = s'.references

/-- Readers that fail in the same place, having reported the same. -/
def Failures (e : Error) (s : Reader.State) (e' : Error) (s' : Reader.State) : Prop :=
  K.Errors e e' ∧ s.references = s'.references

variable {α β : Type} {V : α → β → Prop}

/-- A read of the cursor keeps the references that were reported. -/
theorem ofRead {S : Cursor → Cursor → Prop} {read : Read α} {read' : Read β}
    (h : Coupled K.Cursors read read' V S K.Fails) :
    Coupled K.States (Reader.ofRead read) (Reader.ofRead read') V
      (fun s s' => S s.cursor s'.cursor ∧ s.references = s'.references) K.Failures := by
  intro s s' hstates
  obtain ⟨hcursor, hreferences⟩ := hstates
  have hread := h _ _ hcursor
  unfold Reader.ofRead
  generalize read s.cursor = r, read' s'.cursor = r' at hread
  cases hread with
  | ok hvalue hstop => exact .ok hvalue ⟨hstop, hreferences⟩
  | error he => exact .error ⟨he, hreferences⟩

/-- A window is read on its own, and both cursors stay where they are. -/
theorem within {window window' : Cursor} {read : Read α} {read' : Read β}
    (hwindow : K.Cursors window window') (h : Coupled K.Cursors read read' V K.Cursors K.Fails) :
    Coupled K.States (Reader.within window read) (Reader.within window' read') V K.States
      K.Failures := by
  intro s s' hstates
  obtain ⟨hcursor, hreferences⟩ := hstates
  have hread := h _ _ hwindow
  unfold Reader.within
  generalize read window = r, read' window' = r' at hread
  cases hread with
  | ok hvalue hstop => exact .ok hvalue ⟨hcursor, hreferences⟩
  | error he => exact .error ⟨he, hreferences⟩

/-- The same reference is reported. -/
theorem report (r : Reference) : Coupled K.States (Reader.report r) (Reader.report r)
    (fun _ _ => True) K.States K.Failures := by
  intro s s' hstates
  obtain ⟨hcursor, hreferences⟩ := hstates
  refine .ok trivial ⟨hcursor, ?_⟩
  show s.references ++ [r] = s'.references ++ [r]
  rw [hreferences]

section Decoders

variable {o o' : Options} (K : Coupling o.charset o'.charset) (index : TypeIndex)

/-- An index is read and reported as the same reference. -/
theorem reference : Coupled K.States (Reader.reference ⟨index, o⟩) (Reader.reference ⟨index, o'⟩)
    Eq K.States K.Failures := by
  apply (K.ofRead K.u32).bind
  intro target target' heq
  subst heq
  apply (K.report ⟨index, ⟨target⟩⟩).bind
  intro _ _ _
  exact Coupled.pure rfl

/-- Tables are decoded alike, but for the characters of their names. -/
theorem virtualTable (hnaming : o.naming = o'.naming) :
    Coupled K.States (VirtualTable.decode ⟨index, o⟩) (VirtualTable.decode ⟨index, o'⟩)
      (VirtualTable.Alike K.Names) K.EndStates K.Failures := by
  apply (K.reference index).bind
  intro owner owner' heq
  subst heq
  apply (K.reference index).bind
  intro base base' heq
  subst heq
  apply (K.ofRead K.i32).bind
  intro pointerOffset pointerOffset' heq
  subst heq
  apply (K.ofRead K.u32).bind
  intro length length' heq
  subst heq
  -- The length is the same number for both, so the two windows hold the same bytes.
  apply (K.ofRead (K.block length.toNat)).bind
  intro window window' hwindow
  apply (K.within hwindow (K.nameBlock hnaming)).bind
  intro names names' hnames
  apply (K.ofRead K.align).bind
  intro _ _ _
  exact Coupled.pure ⟨rfl, rfl, rfl, hnames⟩

/-- Shapes are decoded to the same. -/
theorem tableShape : Coupled K.States (TableShape.decode ⟨index, o⟩)
    (TableShape.decode ⟨index, o'⟩) Eq K.EndStates K.Failures := by
  apply (K.ofRead K.u16).bind
  intro count count' heq
  subst heq
  apply (K.ofRead (K.bytes _ _)).bind
  intro packed packed' heq
  subst heq
  apply (K.ofRead K.align).bind
  intro _ _ _
  exact Coupled.pure rfl

/-! ### Decoders -/

/-- The decoder reads alike whatever the two cursors and charsets are. -/
def Decodes (decoder : Decoder) : Prop :=
  Coupled K.States (decoder ⟨index, o⟩) (decoder ⟨index, o'⟩) (Record.Alike K.Names) K.EndStates
    K.Failures

/-- Where nothing was passed over the states end coupled. -/
theorem EndStates.of_states {s s' : Reader.State} (h : K.States s s') : K.EndStates s s' :=
  ⟨K.padded h.1, h.2⟩

theorem decodes_pair : K.Decodes index .pair := by
  refine Coupled.imp (S := K.States) ?_ fun _ _ => EndStates.of_states K
  apply (K.ofRead K.u16).bind
  intro kind kind' heq
  subst heq
  apply (K.report _).bind
  intro _ _ _
  apply (K.ofRead (K.bytes _ _)).bind
  intro bytes bytes' heq
  subst heq
  exact Coupled.pure (.unknown kind bytes)

theorem decodes_refuse : K.Decodes index .refuse := by
  apply (K.report _).bind
  intro _ _ _
  exact Coupled.throw fun _ _ h => ⟨K.errors_self rfl, h.2⟩

/-- What is kept is kept as the same bytes. -/
theorem decodes_keep (kind : UInt16) : K.Decodes index (.keep kind) := by
  refine Coupled.imp (S := K.States) ?_ fun _ _ => EndStates.of_states K
  intro s s' hstates
  -- How many bytes there are to keep is told by the cursor, and is the same for both.
  have hkeep : Coupled K.Cursors
      (do return Record.unknown kind (← Cursor.bytes "record body" s.cursor.remaining))
      (do return Record.unknown kind (← Cursor.bytes "record body" s.cursor.remaining))
      (Record.Alike K.Names) K.Cursors K.Fails := by
    apply (K.bytes _ _).map
    intro bytes bytes' heq
    subst heq
    exact .unknown kind bytes
  have hread := K.ofRead hkeep s s' hstates
  unfold Decoder.keep
  rw [← K.remaining_eq hstates.1]
  exact hread

/-- Whichever decoder a table gives, it reads alike. -/
theorem decoder {t : DecoderTable} (ht : t.Registered) (hnaming : o.naming = o'.naming)
    (kind : UInt16) : K.Decodes index (t.decoder kind) := by
  apply ht.decoder_induction
  · exact (K.virtualTable index hnaming).map fun _ _ h => .virtualTable h
  · exact (K.tableShape index).map fun shape _ h => h ▸ .tableShape shape
  · exact K.decodes_pair index
  · exact K.decodes_refuse index
  · exact K.decodes_keep index

/-! ### Frames -/

/-- What a record comes to, read up to the position of the cursor. -/
def finish (index : TypeIndex) (record : Record) (c : Cursor) : Except Error Record :=
  if c.atEnd then .ok record else .error (.leftover index c.remaining)

/-- Results of one frame each: both reads have failed, or both have come to a record, which must
    take up its frame. -/
def Results (result result' : Except Error Record) : Prop :=
  (∃ e e', K.Errors e e' ∧ result = .error e ∧ result' = .error e') ∨
    ∃ record record' c c', Record.Alike K.Names record record' ∧ K.Padded c c' ∧
      result = finish index record c ∧ result' = finish index record' c'

/-- Outcomes of one frame each: the same leaf kind, the same references, and related results. -/
structure Outcomes (outcome outcome' : FrameOutcome) : Prop where
  kind_eq : outcome.kind = outcome'.kind
  references_eq : outcome.references = outcome'.references
  results : K.Results index outcome.result outcome'.result

/-- Frames that hold the same bytes decode alike. -/
theorem readFrame {t : DecoderTable} (ht : t.Registered) (hnaming : o.naming = o'.naming)
    {frame frame' : Cursor} (h : K.Cursors frame frame') :
    K.Outcomes index (t.readFrame ⟨index, o⟩ frame) (t.readFrame ⟨index, o'⟩ frame') := by
  have hkind := K.u16 _ _ h
  unfold DecoderTable.readFrame
  generalize Cursor.u16 frame = r, Cursor.u16 frame' = r' at hkind
  cases hkind with
  | error he => exact ⟨rfl, rfl, .inl ⟨_, _, he, rfl, rfl⟩⟩
  | ok hkind hbody =>
    -- Both frames have the same leaf kind, so the same decoder reads on.
    subst hkind
    rename_i kind body body'
    have hrecord := K.decoder index ht hnaming kind (.ofCursor body) (.ofCursor body') ⟨hbody, rfl⟩
    dsimp only
    generalize t.decoder kind ⟨index, o⟩ _ = r, t.decoder kind ⟨index, o'⟩ _ = r' at hrecord
    cases hrecord with
    | error he => exact ⟨rfl, he.2, .inl ⟨_, _, he.1, rfl, rfl⟩⟩
    | ok hrecord hend => exact ⟨rfl, hend.2, .inr ⟨_, _, _, _, hrecord, hend.1, rfl, rfl⟩⟩

/-- A frame that is read twice decodes alike. -/
theorem outcome {t : DecoderTable} (ht : t.Registered) (hnaming : o.naming = o'.naming)
    {f : Frame.Placed} (h : K.Cursors (.ofBytes f.payload (f.offset + 2) o.alignment)
      (.ofBytes f.payload (f.offset + 2) o'.alignment)) :
    K.Outcomes f.index (t.outcome o f) (t.outcome o' f) :=
  K.readFrame f.index ht hnaming h

end Decoders

end Cursor.Coupling

end TypeStream
