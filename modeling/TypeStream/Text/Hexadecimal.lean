/-! # Hexadecimal text

Numbers in base sixteen with lower-case digits and a least number of places, the form in which
indices, leaf kinds and offsets are shown. -/

namespace TypeStream.Text

/-- The base sixteen digits of `n`, with zeros in front of them up to `width` places.  A number
    that needs more places keeps all of them. -/
def hexadecimal (width n : Nat) : String :=
  let digits := Nat.toDigits 16 n
  String.ofList (List.replicate (width - digits.length) '0' ++ digits)

theorem toList_hexadecimal (width n : Nat) :
    (hexadecimal width n).toList =
      List.replicate (width - (Nat.toDigits 16 n).length) '0' ++ Nat.toDigits 16 n := by
  simp [hexadecimal]

theorem isAlphanum_of_mem_toDigits {n : Nat} {c : Char} (h : c ∈ Nat.toDigits 16 n) :
    c.isAlphanum = true := by
  have hdigit : ∀ d < 16, (Nat.digitChar d).isAlphanum = true := by decide
  induction n using Nat.strongRecOn with
  | ind n ih =>
    by_cases hn : n < 16
    · rw [Nat.toDigits_of_lt_base hn, List.mem_singleton] at h
      rw [h]
      exact hdigit n hn
    · rw [Nat.toDigits_of_base_le (by decide) (Nat.le_of_not_lt hn), List.mem_append,
        List.mem_singleton] at h
      rcases h with h | rfl
      · exact ih (n / 16) (by omega) h
      · exact hdigit (n % 16) (Nat.mod_lt n (by decide))

/-- There is nothing but letters and digits in such a text. -/
theorem isAlphanum_of_mem_hexadecimal {width n : Nat} {c : Char}
    (h : c ∈ (hexadecimal width n).toList) : c.isAlphanum = true := by
  rw [toList_hexadecimal, List.mem_append] at h
  rcases h with h | h
  · rw [List.eq_of_mem_replicate h]
    decide
  · exact isAlphanum_of_mem_toDigits h

end TypeStream.Text
