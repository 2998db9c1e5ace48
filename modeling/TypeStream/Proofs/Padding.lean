import Mathlib.Order.Bounds.Basic
import TypeStream.Proofs.Reads

/-!
# Padding

Padding ends at the first boundary from the position on, so it is shorter than the boundaries are
apart.  It is passed over as far as the window goes, and then there is none left: the position is at
a boundary, or at the end of the window.

## Key results

- `Cursor.padding_eq`: padding is told by its length and its end
- `Cursor.isLeast_offset_add_padding`: where padding ends
- `Cursor.align_advance_align`: padding is passed over once
-/

namespace TypeStream.Cursor

theorem padding_lt (c : Cursor) : c.padding < c.alignment := Nat.mod_lt _ c.alignment_pos

/-- Padding reaches the next boundary. -/
theorem padding_eq {c : Cursor} {n : Nat} (hn : n < c.alignment)
    (hboundary : c.alignment ∣ c.offset + n) : c.padding = n := by
  have hpos := c.alignment_pos
  have hr : c.offset % c.alignment < c.alignment := Nat.mod_lt _ hpos
  have hsum : (c.offset % c.alignment + n) % c.alignment = 0 := by
    rw [Nat.mod_add_mod]
    exact Nat.mod_eq_zero_of_dvd hboundary
  unfold padding
  -- The remainder and `n` stay below twice the alignment: their sum is zero or the alignment.
  by_cases hlt : c.offset % c.alignment + n < c.alignment
  · rw [Nat.mod_eq_of_lt hlt] at hsum
    have h0 : c.offset % c.alignment = 0 := by omega
    rw [h0, Nat.sub_zero, Nat.mod_self]
    omega
  · rw [Nat.mod_eq_sub_mod (by omega), Nat.mod_eq_of_lt (by omega)] at hsum
    have hrest : c.alignment - c.offset % c.alignment = n := by omega
    rw [hrest, Nat.mod_eq_of_lt hn]

/-- Padding depends on the offset and the alignment alone. -/
theorem padding_congr {c c' : Cursor} (halignment : c.alignment = c'.alignment)
    (hoffset : c.offset = c'.offset) : c.padding = c'.padding := by
  unfold padding
  rw [halignment, hoffset]

/-- Padding ends at a boundary. -/
theorem dvd_offset_add_padding (c : Cursor) : c.alignment ∣ c.offset + c.padding := by
  have hlt : c.offset % c.alignment < c.alignment := Nat.mod_lt _ c.alignment_pos
  apply Nat.dvd_of_mod_eq_zero
  unfold padding
  rw [Nat.add_mod_mod, ← Nat.mod_add_mod, Nat.add_sub_cancel' (Nat.le_of_lt hlt), Nat.mod_self]

/-- Padding ends at the first boundary from the position on. -/
theorem isLeast_offset_add_padding (c : Cursor) :
    IsLeast {m | c.alignment ∣ m ∧ c.offset ≤ m} (c.offset + c.padding) := by
  refine ⟨⟨c.dvd_offset_add_padding, Nat.le_add_right _ _⟩, ?_⟩
  rintro m ⟨hdvd, hle⟩
  obtain ⟨n, rfl⟩ := Nat.exists_eq_add_of_le hle
  -- What is left of the distance over whole multiples of the alignment leads to a boundary, too.
  have hfirst : c.alignment ∣ c.offset + n % c.alignment := by
    apply Nat.dvd_of_mod_eq_zero
    rw [Nat.add_mod_mod]
    exact Nat.mod_eq_zero_of_dvd hdvd
  rw [padding_eq (Nat.mod_lt _ c.alignment_pos) hfirst]
  exact Nat.add_le_add_left (Nat.mod_le _ _) _

/-- Padding that has been passed over is not passed over again. -/
theorem align_advance_align (c : Cursor) :
    let stop := c.advance (min c.padding c.remaining)
    align stop = .ok 0 stop := by
  intro stop
  have hnone : min stop.padding stop.remaining = 0 := by
    by_cases hfits : c.padding ≤ c.remaining
    · have hstop : stop = c.advance c.padding := by rw [← Nat.min_eq_left hfits]
      have hboundary : stop.alignment ∣ stop.offset + 0 := by
        rw [hstop, offset_advance]
        exact c.dvd_offset_add_padding
      rw [padding_eq stop.alignment_pos hboundary, Nat.zero_min]
    · -- The window ends in front of the boundary.
      have hstop : stop.remaining = 0 := by
        rw [remaining_advance]
        omega
      rw [hstop, Nat.min_zero]
  simp only [align, hnone, advance_zero]

end TypeStream.Cursor
