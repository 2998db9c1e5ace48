import Mathlib.Data.List.Forall2
import Mathlib.Data.List.Nodup
import Mathlib.Data.Nat.Digits.Defs
import TypeStream.TypeIndex

/-!
# Numerals and the indices they name

Which texts are numerals, and of which value, is told without reading them from the left: the
characters are digits of the radix, and the value is that of the digits in this radix.  Reading
stops at the first character that is no digit, or where the value of the digits so far has reached
the limit; a value never falls when digits are added, so zeros in front never matter.  The text that
an index is shown as is a numeral of its value, and so is its decimal form.

## Key results

- `Text.Numeral.digit?_eq_some_iff`: digits by their alphabet
- `Text.Numeral.accumulate_eq_iff`: reading digits, by the three ways in which it ends
- `Text.Numeral.parse_eq_ok_iff`, `Text.Numeral.parse_eq_error_iff`: reading a numeral
- `Text.Numeral.exists_spells_toDigits`: the digits of a number
- `TypeIndex.ofText_grammar`: the texts that name an index
-/

namespace TypeStream

namespace Text.Numeral

/-! ### Digits -/

/-- The digits in order of their values. -/
def alphabet : List Char := "0123456789abcdefghijklmnopqrstuvwxyz".toList

/-- The character is the digit of the value `d`, in either case. -/
def IsDigit (radix : Nat) (c : Char) (d : Nat) : Prop := d < radix ∧ alphabet[d]? = some c.toLower

/-- A digit is a character of the alphabet in front of the radix. -/
theorem digit?_eq_filter (radix : Nat) (c : Char) :
    digit? radix c = (alphabet.idxOf? c.toLower).filter (· < radix) := by
  -- The ASCII characters are few enough to look at them all.
  have hascii : ∀ n < 0x80, (let c := Char.ofNat n
      if '0' ≤ c ∧ c ≤ '9' then some (c.toNat - '0'.toNat)
      else if 'a' ≤ c ∧ c ≤ 'z' then some (c.toNat - 'a'.toNat + 10)
      else if 'A' ≤ c ∧ c ≤ 'Z' then some (c.toNat - 'A'.toNat + 10)
      else none) = alphabet.idxOf? (Char.ofNat n).toLower := by
    decide +kernel
  unfold digit?
  dsimp only
  congr 1
  by_cases hc : c.toNat < 0x80
  · have h := hascii c.toNat hc
    rw [Char.ofNat_toNat] at h
    exact h
  · -- Any other character is in none of the ranges, and no small letter of one that is.
    have hbound : ∀ bound : Char, bound.toNat < 0x80 → ¬ c ≤ bound := by
      intro bound hlt hle
      have : c.toNat ≤ bound.toNat := Char.le_def.1 hle
      omega
    have hlower : c.toLower = c := by
      unfold Char.toLower
      rw [dif_neg]
      exact fun h => hbound 'Z' (by decide) h.2
    have hnone : alphabet.idxOf? c = none := by
      have hall : alphabet.all (·.toNat < 0x80) = true := by decide
      exact List.idxOf?_eq_none_iff.2 fun hmem =>
        hc (of_decide_eq_true (List.all_eq_true.1 hall c hmem))
    rw [hlower, hnone, if_neg fun h => hbound '9' (by decide) h.2,
      if_neg fun h => hbound 'z' (by decide) h.2, if_neg fun h => hbound 'Z' (by decide) h.2]

/-- The digits of a radix are the first ones of the alphabet, in either case. -/
theorem digit?_eq_some_iff {radix d : Nat} {c : Char} :
    digit? radix c = some d ↔ IsDigit radix c d := by
  have hnodup : alphabet.Nodup := by decide
  rw [digit?_eq_filter, Option.filter_eq_some_iff, List.idxOf?_eq_some_iff, decide_eq_true_eq,
    and_comm, IsDigit, List.getElem?_eq_some_iff]
  refine and_congr_right fun _ => exists_congr fun h => ?_
  rw [and_iff_left_iff_imp]
  -- No character stands in the alphabet twice, so the first place is the only one.
  intro hd j hj hother
  have heq := hnodup.getElem_inj_iff.1 (hother.trans hd.symm)
  omega

/-- The characters are digits of these values. -/
def Spells (radix : Nat) (cs : List Char) (ds : List Nat) : Prop :=
  List.Forall₂ (IsDigit radix) cs ds

/-- Every text starts with digits, up to its end or to a character that is none. -/
theorem exists_spells (radix : Nat) (cs : List Char) :
    ∃ front ds rest, cs = front ++ rest ∧ Spells radix front ds ∧
      (rest = [] ∨ ∃ c more, rest = c :: more ∧ ∀ d, ¬ IsDigit radix c d) := by
  induction cs with
  | nil => exact ⟨[], [], [], rfl, .nil, .inl rfl⟩
  | cons c cs ih =>
    by_cases hc : ∃ d, IsDigit radix c d
    · obtain ⟨d, hd⟩ := hc
      obtain ⟨front, ds, rest, rfl, hfront, hrest⟩ := ih
      exact ⟨c :: front, d :: ds, rest, rfl, .cons hd hfront, hrest⟩
    · exact ⟨[], [], c :: cs, rfl, .nil, .inr ⟨c, cs, rfl, not_exists.1 hc⟩⟩

/-! ### Values -/

/-- The value of digits. -/
def valueOf (radix : Nat) (ds : List Nat) : Nat := Nat.ofDigits radix ds.reverse

/-- The value of digits behind those that have the value `acc`. -/
def valueFrom (radix acc : Nat) (ds : List Nat) : Nat := ds.foldl (fun n d => n * radix + d) acc

/-- The value of digits is what they come to from zero on. -/
theorem valueFrom_zero (radix : Nat) (ds : List Nat) : valueFrom radix 0 ds = valueOf radix ds := by
  rw [valueOf, Nat.ofDigits_eq_foldr, List.foldr_reverse, valueFrom]
  congr 1
  funext n d
  rw [Nat.mul_comm, Nat.add_comm]
  rfl

variable {radix limit acc : Nat} {cs : List Char} {ds : List Nat}

/-- More digits never make a value less. -/
theorem le_valueFrom (hradix : 0 < radix) (acc : Nat) (ds : List Nat) :
    acc ≤ valueFrom radix acc ds := by
  induction ds generalizing acc with
  | nil => exact Nat.le_refl acc
  | cons d ds ih =>
    have hstep : acc ≤ acc * radix + d :=
      Nat.le_trans (Nat.le_mul_of_pos_right acc hradix) (Nat.le_add_right _ d)
    exact Nat.le_trans hstep (ih _)

/-! ### Reading digits -/

/-- A digit is taken in, unless that reaches the limit. -/
theorem accumulate_cons {c : Char} {d : Nat} (hd : IsDigit radix c d) (cs : List Char) :
    accumulate radix limit acc (c :: cs) =
      if acc * radix + d < limit then accumulate radix limit (acc * radix + d) cs
      else .error .tooLarge := by
  rw [accumulate, digit?_eq_some_iff.2 hd]

/-- Digits whose value stays below the limit are passed over. -/
theorem accumulate_of_lt (hradix : 0 < radix) (h : Spells radix cs ds)
    (hlt : valueFrom radix acc ds < limit) (rest : List Char) :
    accumulate radix limit acc (cs ++ rest) =
      accumulate radix limit (valueFrom radix acc ds) rest := by
  induction h generalizing acc with
  | nil => rfl
  | @cons c d cs ds hd _ ih =>
    have hvalue : valueFrom radix acc (d :: ds) = valueFrom radix (acc * radix + d) ds := rfl
    rw [hvalue] at hlt ⊢
    have hle := le_valueFrom hradix (acc * radix + d) ds
    rw [List.cons_append, accumulate_cons hd, if_pos (by omega), ih hlt]

/-- Digits whose value reaches the limit are refused, whatever stands behind them. -/
theorem accumulate_of_le (h : Spells radix cs ds) (hacc : acc < limit)
    (hle : limit ≤ valueFrom radix acc ds) (rest : List Char) :
    accumulate radix limit acc (cs ++ rest) = .error .tooLarge := by
  induction h generalizing acc with
  | nil => exact absurd hacc (Nat.not_lt_of_le hle)
  | @cons c d cs ds hd _ ih =>
    rw [List.cons_append, accumulate_cons hd]
    split
    · rename_i hnext
      exact ih hnext hle
    · rfl

/-- How reading digits ends. -/
inductive Verdict (radix limit : Nat) (cs : List Char) : Except NumeralError Nat → Prop
  /-- All characters are digits, and their value stays below the limit. -/
  | number {ds : List Nat} : Spells radix cs ds → valueOf radix ds < limit →
      Verdict radix limit cs (.ok (valueOf radix ds))
  /-- Behind digits whose value stays below the limit there is another character. -/
  | invalidDigit {front rest : List Char} {c : Char} {ds : List Nat} :
      cs = front ++ c :: rest → Spells radix front ds →
      valueOf radix ds < limit → (∀ d, ¬ IsDigit radix c d) →
      Verdict radix limit cs (.error .invalidDigit)
  /-- The value of the digits in front has reached the limit. -/
  | tooLarge {front rest : List Char} {ds : List Nat} :
      cs = front ++ rest → Spells radix front ds →
      limit ≤ valueOf radix ds → Verdict radix limit cs (.error .tooLarge)

/-- The verdict on characters is what reading them one after the other comes to. -/
theorem Verdict.accumulate_eq (hradix : 0 < radix) (hlimit : 0 < limit)
    {r : Except NumeralError Nat} (h : Verdict radix limit cs r) :
    accumulate radix limit 0 cs = r := by
  cases h with
  | number hspells hlt =>
    -- All digits are read and the value stays below the limit.
    rw [← valueFrom_zero] at hlt ⊢
    have h := accumulate_of_lt hradix hspells hlt []
    rwa [List.append_nil] at h
  | @invalidDigit front rest c ds heq hspells hlt hc =>
    subst heq
    rw [← valueFrom_zero] at hlt
    -- The character behind the front is no digit, so reading stops there.
    have hnone : digit? radix c = none :=
      Option.eq_none_iff_forall_ne_some.2 fun d hd => hc d (digit?_eq_some_iff.1 hd)
    rw [accumulate_of_lt hradix hspells hlt, accumulate, hnone]
  | tooLarge heq hspells hle =>
    subst heq
    rw [← valueFrom_zero] at hle
    exact accumulate_of_le hspells hlimit hle _

/-- There is a verdict on any characters. -/
theorem exists_verdict (radix limit : Nat) (cs : List Char) : ∃ r, Verdict radix limit cs r := by
  obtain ⟨front, ds, rest, heq, hspells, hrest⟩ := exists_spells radix cs
  by_cases hle : limit ≤ valueOf radix ds
  · exact ⟨_, .tooLarge heq hspells hle⟩
  have hlt := Nat.lt_of_not_le hle
  rcases hrest with rfl | ⟨c, more, rfl, hc⟩
  · rw [List.append_nil] at heq
    exact ⟨_, .number (heq ▸ hspells) hlt⟩
  · exact ⟨_, .invalidDigit heq hspells hlt hc⟩

/-- Reading digits ends in one of three ways. -/
theorem accumulate_eq_iff (hradix : 0 < radix) (hlimit : 0 < limit)
    {r : Except NumeralError Nat} :
    accumulate radix limit 0 cs = r ↔ Verdict radix limit cs r := by
  refine ⟨fun h => ?_, fun h => h.accumulate_eq hradix hlimit⟩
  obtain ⟨r', hverdict⟩ := exists_verdict radix limit cs
  rwa [← h, hverdict.accumulate_eq hradix hlimit]

section Verdicts

variable {n : Nat}

/-- Characters have a value exactly if they are digits whose value is below the limit. -/
theorem verdict_ok_iff : Verdict radix limit cs (.ok n) ↔
    ∃ ds, Spells radix cs ds ∧ valueOf radix ds < limit ∧ n = valueOf radix ds := by
  constructor
  · rintro ⟨hspells, hlt⟩
    exact ⟨_, hspells, hlt, rfl⟩
  · rintro ⟨ds, hspells, hlt, rfl⟩
    exact .number hspells hlt

/-- They are refused for the first character that is no digit, if the value in front of it is below
    the limit. -/
theorem verdict_invalidDigit_iff : Verdict radix limit cs (.error .invalidDigit) ↔
    ∃ front c rest ds, cs = front ++ c :: rest ∧ Spells radix front ds ∧ valueOf radix ds < limit ∧
      ∀ d, ¬ IsDigit radix c d := by
  constructor
  · rintro (_ | ⟨heq, hspells, hlt, hc⟩)
    exact ⟨_, _, _, _, heq, hspells, hlt, hc⟩
  · rintro ⟨front, c, rest, ds, heq, hspells, hlt, hc⟩
    exact .invalidDigit heq hspells hlt hc

/-- They are refused as too large exactly if digits in front reach the limit. -/
theorem verdict_tooLarge_iff : Verdict radix limit cs (.error .tooLarge) ↔
    ∃ front rest ds, cs = front ++ rest ∧ Spells radix front ds ∧ limit ≤ valueOf radix ds := by
  constructor
  · rintro (_ | _ | ⟨heq, hspells, hle⟩)
    exact ⟨_, _, _, heq, hspells, hle⟩
  · rintro ⟨front, rest, ds, heq, hspells, hle⟩
    exact .tooLarge heq hspells hle

end Verdicts

/-! ### Signs -/

/-- A numeral without its sign. -/
def unsigned : List Char → List Char
  | '+' :: digits => digits
  | digits => digits

/-- Nothing is left behind the sign if the sign stands alone, or if there was nothing. -/
theorem unsigned_eq_nil_iff : unsigned cs = [] ↔ cs = [] ∨ cs = ['+'] := by
  unfold unsigned
  split <;> simp_all

/-- At most a sign is taken off. -/
theorem unsigned_cases (cs : List Char) : cs = unsigned cs ∨ cs = '+' :: unsigned cs := by
  unfold unsigned
  split
  · exact .inr rfl
  · exact .inl rfl

/-- A sign is no digit in any radix. -/
theorem not_isDigit_sign {c : Char} (h : c = '+' ∨ c = '-') (radix d : Nat) :
    ¬ IsDigit radix c d := by
  rw [← digit?_eq_some_iff]
  rcases h with rfl | rfl <;> exact nofun

/-- Digits have no sign. -/
theorem unsigned_of_spells (h : Spells radix cs ds) : unsigned cs = cs := by
  unfold unsigned
  split
  · cases h with
    | cons hd => exact absurd hd (not_isDigit_sign (.inl rfl) _ _)
  · rfl

/-- What stands behind the sign is read digit by digit. -/
theorem parse_of_unsigned (h : unsigned cs ≠ []) :
    parse radix limit cs = accumulate radix limit 0 (unsigned cs) := by
  unfold parse
  split
  · exact absurd rfl h
  · exact absurd rfl h
  · rfl
  · rename_i hsign
    rw [unsigned]
    exact hsign

/-- Reading a numeral, by the characters behind its sign. -/
theorem parse_eq_iff (hradix : 0 < radix) (hlimit : 0 < limit) {r : Except NumeralError Nat} :
    parse radix limit cs = r ↔
      cs = [] ∧ r = .error .empty ∨ cs = ['+'] ∧ r = .error .invalidDigit ∨
        unsigned cs ≠ [] ∧ Verdict radix limit (unsigned cs) r := by
  by_cases hnil : unsigned cs = []
  · rcases unsigned_eq_nil_iff.1 hnil with rfl | rfl
    · simp [parse, hnil, eq_comm]
    · simp [parse, hnil, eq_comm]
  · obtain ⟨hempty, hsign⟩ := not_or.1 fun h => hnil (unsigned_eq_nil_iff.2 h)
    simp only [parse_of_unsigned hnil, accumulate_eq_iff hradix hlimit, hempty, hsign, hnil,
      false_and, false_or, ne_eq, not_false_eq_true, true_and]

/-- The texts of numbers below a limit, in any radix. -/
theorem parse_eq_ok_iff (hradix : 0 < radix) (hlimit : 0 < limit) {n : Nat} :
    parse radix limit cs = .ok n ↔ ∃ digits ds, (cs = digits ∨ cs = '+' :: digits) ∧ digits ≠ [] ∧
      Spells radix digits ds ∧ valueOf radix ds < limit ∧ n = valueOf radix ds := by
  rw [parse_eq_iff hradix hlimit]
  constructor
  -- The empty text and a lone sign are refused, so the verdict on the digits remains.
  · rintro (⟨-, ⟨⟩⟩ | ⟨-, ⟨⟩⟩ | ⟨hne, hverdict⟩)
    obtain ⟨ds, hspells, hlt, heq⟩ := verdict_ok_iff.1 hverdict
    exact ⟨unsigned cs, ds, unsigned_cases cs, hne, hspells, hlt, heq⟩
  · rintro ⟨digits, ds, hsign, hne, hspells, hlt, rfl⟩
    have hunsigned : unsigned cs = digits := by
      rcases hsign with rfl | rfl
      · exact unsigned_of_spells hspells
      · rfl
    rw [hunsigned]
    exact .inr (.inr ⟨hne, .number hspells hlt⟩)

/-- Any other text is refused for one of three reasons. -/
theorem parse_eq_error_iff (hradix : 0 < radix) (hlimit : 0 < limit) {reason : NumeralError} :
    parse radix limit cs = .error reason ↔
      reason = .empty ∧ cs = [] ∨
        reason = .invalidDigit ∧ (cs = ['+'] ∨ cs = ['-'] ∨
          ∃ front c rest ds, unsigned cs = front ++ c :: rest ∧ Spells radix front ds ∧
            valueOf radix ds < limit ∧ ∀ d, ¬ IsDigit radix c d) ∨
        reason = .tooLarge ∧ ∃ front rest ds, unsigned cs = front ++ rest ∧
          Spells radix front ds ∧ limit ≤ valueOf radix ds := by
  rw [parse_eq_iff hradix hlimit]
  cases reason with
  | empty =>
    have hverdict : ¬ Verdict radix limit (unsigned cs) (.error .empty) := nofun
    simp [hverdict]
  | invalidDigit =>
    rw [← verdict_invalidDigit_iff]
    simp only [reduceCtorEq, Except.error.injEq, false_and, and_false, or_false, false_or, true_and,
      and_true]
    refine or_congr_right ⟨fun h => .inr h.2, ?_⟩
    -- A lone sign is a character that is no digit.
    rintro (rfl | hverdict)
    · have hsplit : unsigned ['-'] = [] ++ ['-'] := rfl
      exact ⟨nofun, .invalidDigit hsplit .nil hlimit (not_isDigit_sign (.inr rfl) _)⟩
    · obtain ⟨front, c, rest, _, heq, _⟩ := verdict_invalidDigit_iff.1 hverdict
      exact ⟨by simp [heq], hverdict⟩
  | tooLarge =>
    rw [← verdict_tooLarge_iff]
    simp only [reduceCtorEq, Except.error.injEq, false_and, and_false, false_or, true_and]
    refine ⟨And.right, fun hverdict => ⟨fun hnil => ?_, hverdict⟩⟩
    -- Without any digit the value is zero.
    rw [hnil] at hverdict
    obtain ⟨front, rest, ds, heq, hspells, hle⟩ := verdict_tooLarge_iff.1 hverdict
    obtain ⟨rfl, -⟩ := List.append_eq_nil_iff.1 heq.symm
    cases hspells
    exact absurd hle (Nat.not_le_of_lt hlimit)

/-! ### Digits of numbers -/

/-- The character that shows a digit is that digit. -/
theorem isDigit_digitChar {d : Nat} (hd : d < radix) (hradix : radix ≤ 16) :
    IsDigit radix (Nat.digitChar d) d := by
  have hsmall : ∀ d < 16, alphabet[d]? = some (Nat.digitChar d).toLower := by decide
  exact ⟨hd, hsmall d (by omega)⟩

/-- The digits of a number have its value. -/
theorem exists_spells_toDigits (hbase : 1 < radix) (hradix : radix ≤ 16) (n : Nat) :
    ∃ ds, Spells radix (Nat.toDigits radix n) ds ∧ valueOf radix ds = n := by
  induction n using Nat.strongRecOn with
  | ind n ih =>
    rw [Nat.toDigits_eq_if hbase]
    split
    -- A number below the radix is one digit.
    · rename_i hlt
      exact ⟨[n], .cons (isDigit_digitChar hlt hradix) .nil, Nat.ofDigits_singleton⟩
    · rename_i hle
      -- The last digit is the remainder, and those in front of it belong to the quotient.
      obtain ⟨ds, hspells, hvalue⟩ := ih (n / radix) (Nat.div_lt_self (by omega) hbase)
      have hlast := isDigit_digitChar (Nat.mod_lt n (by omega)) hradix
      refine ⟨ds ++ [n % radix], List.rel_append hspells (.cons hlast .nil), ?_⟩
      unfold valueOf at hvalue ⊢
      rw [List.reverse_append, List.reverse_singleton, List.singleton_append, Nat.ofDigits_cons,
        hvalue]
      exact Nat.mod_add_div n radix

end Text.Numeral

namespace TypeIndex

open Text.Numeral

variable {text : String}

/-- A text is its prefix and its numeral, or a numeral in radix ten. -/
theorem numeralOf_cases (cs : List Char) :
    let radix := (numeralOf cs).1
    let numeral := (numeralOf cs).2
    radix = 16 ∧ (cs = '0' :: 'x' :: numeral ∨ cs = '0' :: 'X' :: numeral) ∨
      radix = 10 ∧ cs = numeral ∧
        ∀ rest, numeral ≠ '0' :: 'x' :: rest ∧ numeral ≠ '0' :: 'X' :: rest := by
  unfold numeralOf
  split
  · exact .inl ⟨rfl, .inl rfl⟩
  · exact .inl ⟨rfl, .inr rfl⟩
  · rename_i hx hX
    exact .inr ⟨rfl, rfl, fun rest => ⟨hx rest, hX rest⟩⟩

/-- A text names an index exactly if its numeral has the value of the index. -/
theorem ofText_eq_ok_iff {i : TypeIndex} : ofText text = .ok i ↔
    parse (numeralOf text.toList).1 UInt32.size (numeralOf text.toList).2 = .ok i.toNat := by
  unfold ofText
  dsimp only
  generalize hparse : parse (numeralOf text.toList).1 UInt32.size (numeralOf text.toList).2 = r
  cases r with
  | error reason => simp
  | ok n =>
    have hradix : 0 < (numeralOf text.toList).1 := by
      rcases numeralOf_cases text.toList with ⟨h, -⟩ | ⟨h, -⟩ <;> omega
    -- The value is below the number of words, so storing it cuts nothing off.
    obtain ⟨_, _, _, _, _, hlt, rfl⟩ := (parse_eq_ok_iff hradix (by decide)).1 hparse
    rw [Except.ok.injEq, Except.ok.injEq, ← toNat_inj, toNat, UInt32.toNat_ofNat',
      Nat.mod_eq_of_lt hlt]

/-- A text that names no index is refused with itself and the reason for its numeral. -/
theorem ofText_eq_error_iff {e : TextError} : ofText text = .error e ↔
    e.text = text ∧
      parse (numeralOf text.toList).1 UInt32.size (numeralOf text.toList).2 = .error e.reason := by
  unfold ofText
  dsimp only
  cases parse (numeralOf text.toList).1 UInt32.size (numeralOf text.toList).2 with
  | error reason =>
    obtain ⟨text', reason'⟩ := e
    simp [eq_comm]
  | ok n => simp

/-- A text that is made of a prefix and digits with the value of an index names that index. -/
theorem ofText_of_spells {i : TypeIndex} {radix : Nat} {digits : List Char} {ds : List Nat}
    (hnumeral : numeralOf text.toList = (radix, digits)) (hradix : 0 < radix) (hne : digits ≠ [])
    (hspells : Spells radix digits ds) (hvalue : valueOf radix ds = i.toNat) :
    ofText text = .ok i := by
  rw [ofText_eq_ok_iff, hnumeral]
  exact (parse_eq_ok_iff hradix (by decide)).2
    ⟨digits, ds, .inl rfl, hne, hspells, hvalue ▸ i.toNat_lt, hvalue.symm⟩

/-- The text of an index names it. -/
theorem ofText_text (i : TypeIndex) : ofText i.text = .ok i := by
  -- The zeros that fill up to four digits do not change the value.
  have hzeros : ∀ k, Spells 16 (List.replicate k '0') (List.replicate k 0) := by
    intro k
    induction k with
    | zero => exact .nil
    | succ k ih => exact .cons (isDigit_digitChar (d := 0) (by decide) (by decide)) ih
  have hnumeral : numeralOf i.text.toList = (16, List.replicate
      (4 - (Nat.toDigits 16 i.toNat).length) '0' ++ Nat.toDigits 16 i.toNat) := by
    rw [text, String.toList_append, Text.toList_hexadecimal]
    rfl
  obtain ⟨ds, hspells, hvalue⟩ :=
    exists_spells_toDigits (show 1 < 16 by decide) (by decide) i.toNat
  refine ofText_of_spells hnumeral (by decide) (by simp [Nat.toDigits_ne_nil])
    (List.rel_append (hzeros _) hspells) ?_
  unfold valueOf at hvalue ⊢
  rw [List.reverse_append, List.reverse_replicate, Nat.ofDigits_append_replicate_zero, hvalue]

/-- The decimal form of an index names it. -/
theorem ofText_decimal (i : TypeIndex) : ofText (toString i.toNat) = .ok i := by
  have hnumeral : numeralOf (toString i.toNat).toList = (10, Nat.toDigits 10 i.toNat) := by
    rw [Nat.toString_eq_ofList_toDigits, String.toList_ofList]
    have hdigit : ∀ c ∈ Nat.toDigits 10 i.toNat, c.isDigit = true := fun c hc =>
      Nat.isDigit_of_mem_toDigits (by decide) (by decide) hc
    rcases numeralOf_cases (Nat.toDigits 10 i.toNat) with
      ⟨-, heq | heq⟩ | ⟨hradix, heq, -⟩
    -- Decimal digits have no `x` in them, so none of the prefixes is there.
    · rw [heq] at hdigit
      exact absurd (hdigit 'x' (by simp)) (by decide)
    · rw [heq] at hdigit
      exact absurd (hdigit 'X' (by simp)) (by decide)
    · exact Prod.ext hradix heq.symm
  obtain ⟨ds, hspells, hvalue⟩ :=
    exists_spells_toDigits (show 1 < 10 by decide) (by decide) i.toNat
  exact ofText_of_spells hnumeral (by decide) Nat.toDigits_ne_nil hspells hvalue

/-- The texts that name an index.  Behind `0x` or `0X`, in radix sixteen, or as a whole, in radix
    ten, such a text is one or more digits of the radix with or without `+` in front of them, and
    their value is that of the index.  Any other text is refused with itself and the reason: there
    is no character behind the prefix; or a sign stands alone, or a character is no digit while the
    value of those in front of it is below the limit; or the value of the digits in front has
    reached the limit.  The text that an index is shown as and its decimal form both name that
    index. -/
theorem ofText_grammar (text : String) :
    let radix := (numeralOf text.toList).1
    let numeral := (numeralOf text.toList).2
    (radix = 16 ∧ (text.toList = '0' :: 'x' :: numeral ∨ text.toList = '0' :: 'X' :: numeral) ∨
      radix = 10 ∧ text.toList = numeral ∧
        ∀ rest, numeral ≠ '0' :: 'x' :: rest ∧ numeral ≠ '0' :: 'X' :: rest) ∧
    (∀ i, ofText text = .ok i ↔
      ∃ digits ds, (numeral = digits ∨ numeral = '+' :: digits) ∧ digits ≠ [] ∧
        Spells radix digits ds ∧ valueOf radix ds < 2 ^ 32 ∧ i.toNat = valueOf radix ds) ∧
    (∀ e, ofText text = .error e ↔ e.text = text ∧
      (e.reason = .empty ∧ numeral = [] ∨
        e.reason = .invalidDigit ∧ (numeral = ['+'] ∨ numeral = ['-'] ∨
          ∃ front c rest ds, unsigned numeral = front ++ c :: rest ∧ Spells radix front ds ∧
            valueOf radix ds < 2 ^ 32 ∧ ∀ d, ¬ IsDigit radix c d) ∨
        e.reason = .tooLarge ∧ ∃ front rest ds, unsigned numeral = front ++ rest ∧
          Spells radix front ds ∧ 2 ^ 32 ≤ valueOf radix ds)) ∧
    ∀ i : TypeIndex, ofText i.text = .ok i ∧ ofText (toString i.toNat) = .ok i := by
  intro radix numeral
  have hcases := numeralOf_cases text.toList
  have hradix : 0 < radix := by
    rcases hcases with ⟨h, -⟩ | ⟨h, -⟩ <;> omega
  refine ⟨hcases, fun i => ?_, fun e => ?_, fun i => ⟨ofText_text i, ofText_decimal i⟩⟩
  · rw [ofText_eq_ok_iff]
    exact parse_eq_ok_iff hradix (by decide)
  · rw [ofText_eq_error_iff]
    exact and_congr_right fun _ => parse_eq_error_iff hradix (by decide)

example : ofText "0x+001000" = .ok .firstRecord := by cbv

/-- The value has reached the limit before the letter is met. -/
example : ofText "4294967296z" = .error ⟨"4294967296z", .tooLarge⟩ := by cbv

end TypeIndex

end TypeStream
