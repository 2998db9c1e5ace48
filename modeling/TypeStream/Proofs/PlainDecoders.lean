import TypeStream.Proofs.RegisteredDecoders

/-!
# What every decoder keeps to

A decoder only reports references of its own record, whether it succeeds or fails.  The decoders
besides that of tables are plain: none of the options matters to them, they never give a table, and
they never complain that a table has no name.

## Key results

- `Reader.Meets.bind`: a contract that two steps in sequence meet
- `DecoderTable.Registered.decoder_cases`: a decoder is that of tables, or it is plain
- `DecoderTable.Registered.source_eq`: the references of a frame are those of its record
-/

namespace TypeStream

/-! ### Contracts -/

/-- Every read from any position comes to a value that `V` holds of or fails with an error that `X`
    holds of. -/
def Cursor.Yields {α : Type} (V : α → Prop) (X : Error → Prop) (read : Cursor.Read α) : Prop :=
  ∀ c, match read c with
    | .ok a _ => V a
    | .error e _ => X e

namespace Reader

variable {α β : Type} {P : List Reference → Prop} {V : α → Prop} {W : β → Prop}
  {X : Error → Prop}

/-- Where `P` holds of the references reported before, it holds of those reported in the end, and
    the computation comes to a value that `V` holds of or fails with an error that `X` holds of. -/
def Meets (P : List Reference → Prop) (V : α → Prop) (X : Error → Prop) (m : Reader α) : Prop :=
  ∀ s, P s.references → match m s with
    | .ok a s' => V a ∧ P s'.references
    | .error e s' => X e ∧ P s'.references

/-- A value that `V` holds of can be given back at any time. -/
theorem Meets.pure {a : α} (h : V a) : Meets P V X (Pure.pure a) :=
  fun _ hP => ⟨h, hP⟩

/-- An error that `X` holds of can be raised at any time. -/
theorem Meets.throw {e : Error} (h : X e) : Meets P V X (throw e) :=
  fun _ hP => ⟨h, hP⟩

/-- What is known of values and errors can be weakened. -/
theorem Meets.imp {V' : α → Prop} {X' : Error → Prop} {m : Reader α} (hm : Meets P V X m)
    (hV : ∀ a, V a → V' a) (hX : ∀ e, X e → X' e) : Meets P V' X' m := by
  intro s hP
  have hresult := hm s hP
  cases hcase : m s with
  | ok a s' =>
    rw [hcase] at hresult
    exact hresult.imp (hV a) id
  | error e s' =>
    rw [hcase] at hresult
    exact hresult.imp (hX e) id

/-- A contract is kept by what goes on from the values of a computation that keeps it. -/
theorem Meets.bind {m : Reader α} {next : α → Reader β} (hm : Meets P V X m)
    (hnext : ∀ a, V a → Meets P W X (next a)) : Meets P W X (m >>= next) := by
  intro s hP
  have hfirst := hm s hP
  show match EStateM.bind m next s with
    | .ok b s' => W b ∧ P s'.references
    | .error e s' => X e ∧ P s'.references
  unfold EStateM.bind
  cases hresult : m s with
  | ok a s' =>
    rw [hresult] at hfirst
    exact hnext a hfirst.1 s' hfirst.2
  | error e s' =>
    rw [hresult] at hfirst
    exact hfirst

/-- A read of the cursor reports nothing. -/
theorem Meets.ofRead {read : Cursor.Read α} (h : Cursor.Yields V X read) :
    Meets P V X (ofRead read) := by
  intro s hP
  have hread := h s.cursor
  unfold Reader.ofRead
  cases hresult : read s.cursor with
  | ok a c =>
    rw [hresult] at hread
    exact ⟨hread, hP⟩
  | error e c =>
    rw [hresult] at hread
    exact ⟨hread, hP⟩

theorem Meets.within {window : Cursor} {read : Cursor.Read α} (h : Cursor.Yields V X read) :
    Meets P V X (within window read) := by
  intro s hP
  have hread := h window
  unfold Reader.within
  cases hresult : read window with
  | ok a c =>
    rw [hresult] at hread
    exact ⟨hread, hP⟩
  | error e c =>
    rw [hresult] at hread
    exact ⟨hread, hP⟩

/-- A reference may be reported where `P` holds of the references with it. -/
theorem Meets.report {r : Reference} (h : ∀ references, P references → P (references ++ [r])) :
    Meets P (fun _ => True) X (report r) :=
  fun s hP => ⟨trivial, h s.references hP⟩

end Reader

/-! ### Reads -/

namespace Cursor

/-- Every read yields something. -/
theorem Yields.any {α : Type} (read : Read α) : Yields (fun _ => True) (fun _ => True) read := by
  intro c
  cases read c <;> trivial

/-- A field of bytes can only fail for being cut off. -/
theorem Yields.bytes {X : Error → Prop} {field : String} {n : Nat}
    (hX : ∀ offset available, X (.truncated field offset n available)) :
    Yields (fun _ => True) X (bytes field n) := by
  intro c
  by_cases hle : n ≤ c.remaining
  · rw [bytes_of_le hle]
    trivial
  · rw [bytes_of_lt (Nat.lt_of_not_le hle)]
    exact hX c.offset c.remaining

/-- What is made of a value is known from the value. -/
theorem Yields.map {α β : Type} {V : α → Prop} {W : β → Prop} {X : Error → Prop} {read : Read α}
    (h : Yields V X read) (f : α → β) (hf : ∀ a, V a → W (f a)) :
    Yields W X (do return f (← read)) := by
  intro c
  have hread := h c
  show match EStateM.bind read (fun a => Pure.pure (f a)) c with
    | .ok b _ => W b
    | .error e _ => X e
  unfold EStateM.bind
  cases hresult : read c with
  | ok a rest =>
    rw [hresult] at hread
    exact hf a hread
  | error e rest =>
    rw [hresult] at hread
    exact hread

theorem Yields.u16 {X : Error → Prop}
    (hX : ∀ offset available, X (.truncated "u16" offset 2 available)) :
    Yields (fun _ => True) X u16 :=
  (Yields.bytes hX).map _ fun _ _ => trivial

end Cursor

/-! ### Decoders -/

/-- The references are those of one record. -/
def Reference.AllFrom (source : TypeIndex) (references : List Reference) : Prop :=
  ∀ r ∈ references, r.source = source

theorem Reference.AllFrom.nil (source : TypeIndex) : AllFrom source [] :=
  fun _ hr => absurd hr List.not_mem_nil

/-- A reference of the record itself may come in addition. -/
theorem Reference.AllFrom.append_singleton {source : TypeIndex} {references : List Reference}
    (h : AllFrom source references) (target : TypeIndex) :
    AllFrom source (references ++ [⟨source, target⟩]) := by
  intro r hr
  rcases List.mem_append.1 hr with hr | hr
  · exact h r hr
  · rw [List.mem_singleton.1 hr]

/-- A reference that is read is reported as one of the record itself. -/
theorem Reader.meets_reference {X : Error → Prop} (ctx : Context)
    (hX : ∀ offset available, X (.truncated "u32" offset 4 available)) :
    Meets (Reference.AllFrom ctx.index) (fun _ => True) X (reference ctx) := by
  have hread : Cursor.Yields (fun _ => True) X Cursor.u32 :=
    (Cursor.Yields.bytes hX).map _ fun _ _ => trivial
  apply (Meets.ofRead hread).bind
  intro target _
  apply (Meets.report fun _ h => h.append_singleton ⟨target⟩).bind
  intro _ _
  exact Meets.pure trivial

namespace Decoder

/-- None of the options matters to the decoder, all that it reports are references of its own
    record, it never gives a table, and never fails because a table has no name. -/
structure Plain (decoder : Decoder) : Prop where
  options_eq : ∀ index o o', decoder ⟨index, o⟩ = decoder ⟨index, o'⟩
  meets : ∀ ctx, Reader.Meets (Reference.AllFrom ctx.index)
    (fun record => ∀ table, record ≠ .virtualTable table) (· ≠ .unnamedTable) (decoder ctx)

/-- The decoder of shapes is plain. -/
theorem plain_tableShape : tableShape.Plain := by
  refine ⟨fun _ _ _ => rfl, fun ctx => ?_⟩
  apply Reader.Meets.bind (V := fun _ => True)
  · apply (Reader.Meets.ofRead (Cursor.Yields.u16 fun _ _ => nofun)).bind
    intro count _
    apply (Reader.Meets.ofRead (Cursor.Yields.bytes fun _ _ => nofun)).bind
    intro packed _
    apply (Reader.Meets.ofRead (V := fun _ => True) fun _ => trivial).bind
    intro _ _
    exact Reader.Meets.pure trivial
  · intro shape _
    exact Reader.Meets.pure nofun

theorem plain_pair : pair.Plain := by
  refine ⟨fun _ _ _ => rfl, fun ctx => ?_⟩
  apply (Reader.Meets.ofRead (Cursor.Yields.u16 fun _ _ => nofun)).bind
  intro kind _
  apply (Reader.Meets.report fun _ h => h.append_singleton _).bind
  intro _ _
  apply (Reader.Meets.ofRead (Cursor.Yields.bytes fun _ _ => nofun)).bind
  intro bytes _
  exact Reader.Meets.pure nofun

/-- A decoder that refuses everything is plain, although it reports a reference. -/
theorem plain_refuse : refuse.Plain := by
  refine ⟨fun _ _ _ => rfl, fun ctx => ?_⟩
  apply (Reader.Meets.report fun _ h => h.append_singleton _).bind
  intro _ _
  exact Reader.Meets.throw nofun

theorem plain_keep (kind : UInt16) : (keep kind).Plain := by
  refine ⟨fun _ _ _ => rfl, fun ctx s hs => ?_⟩
  have hread : Cursor.Yields (fun record => ∀ table, record ≠ Record.virtualTable table)
      (· ≠ .unnamedTable)
      (do return Record.unknown kind (← Cursor.bytes "record body" s.cursor.remaining)) :=
    (Cursor.Yields.bytes fun _ _ => nofun).map _ fun _ _ => nofun
  exact Reader.Meets.ofRead hread s hs

/-- The decoder of tables reports references of its own record, too. -/
theorem meets_virtualTable (ctx : Context) :
    Reader.Meets (Reference.AllFrom ctx.index) (fun _ => True) (fun _ => True)
      (virtualTable ctx) := by
  apply Reader.Meets.bind (V := fun _ => True)
  · apply (Reader.meets_reference ctx fun _ _ => trivial).bind
    intro owner _
    apply (Reader.meets_reference ctx fun _ _ => trivial).bind
    intro base _
    apply (Reader.Meets.ofRead (Cursor.Yields.any _)).bind
    intro pointerOffset _
    apply (Reader.Meets.ofRead (Cursor.Yields.any _)).bind
    intro length _
    apply (Reader.Meets.ofRead (Cursor.Yields.any _)).bind
    intro block _
    apply (Reader.Meets.within (Cursor.Yields.any _)).bind
    intro names _
    apply (Reader.Meets.ofRead (Cursor.Yields.any _)).bind
    intro _ _
    exact Reader.Meets.pure trivial
  · intro table _
    exact Reader.Meets.pure trivial

end Decoder

/-! ### Tables of decoders -/

namespace DecoderTable.Registered

variable {t : DecoderTable} (ht : t.Registered)
include ht

/-- Every decoder of a table of decoders is that of tables or a plain one. -/
theorem decoder_cases (kind : UInt16) :
    t.decoder kind = .virtualTable ∨ (t.decoder kind).Plain := by
  apply ht.decoder_induction (P := fun decoder => decoder = .virtualTable ∨ decoder.Plain)
  · exact .inl rfl
  · exact .inr Decoder.plain_tableShape
  · exact .inr Decoder.plain_pair
  · exact .inr Decoder.plain_refuse
  · exact fun kind => .inr (Decoder.plain_keep kind)

/-- Every reference that a frame reports is one of its own record. -/
theorem source_eq {o : Options} {f : Frame.Placed} {r : Reference}
    (hr : r ∈ (t.outcome o f).references) : r.source = f.index := by
  revert r
  show Reference.AllFrom f.index (t.outcome o f).references
  unfold outcome readFrame
  split
  · exact nofun
  · rename_i kind body _
    have hmeets : Reader.Meets (Reference.AllFrom f.index) (fun _ => True) (fun _ => True)
        (t.decoder kind ⟨f.index, o⟩) := by
      -- The decoder is the one of tables, or one that reports nothing.
      rcases ht.decoder_cases kind with htable | hplain
      · rw [htable]
        exact Decoder.meets_virtualTable ⟨f.index, o⟩
      · exact (hplain.meets ⟨f.index, o⟩).imp (fun _ _ => trivial) fun _ _ => trivial
    have hend := hmeets (.ofCursor body) (.nil f.index)
    split
    · rename_i hdecoder
      rw [hdecoder] at hend
      exact hend.2
    · rename_i hdecoder
      rw [hdecoder] at hend
      exact hend.2

end DecoderTable.Registered

end TypeStream
