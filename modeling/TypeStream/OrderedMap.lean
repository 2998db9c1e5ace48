/-! # Maps in ascending order of key

A finite map kept as the list of its entries in ascending order of key, so that going through it
needs no sorting and two maps with the same look-ups are equal (`ext_find?`).  Keys are ordered by
a natural number, their rank.

* `find?_insert`  what a look-up gives after an insertion
* `entries_insert_of_forall_lt`  a key above all others is appended -/

namespace TypeStream

/-- Keys that are told apart, and ordered, by a number. -/
class Ranked (κ : Type) where
  rank : κ → Nat
  rank_injective : ∀ {a b : κ}, rank a = rank b → a = b

export Ranked (rank)

instance : Ranked UInt16 where
  rank := UInt16.toNat
  rank_injective := UInt16.toNat_inj.1

/-- A finite map, as the list of its entries in ascending order of key. -/
structure OrderedMap (κ ν : Type) [Ranked κ] where
  entries : List (κ × ν)
  ascending : entries.Pairwise fun a b => rank a.1 < rank b.1

namespace OrderedMap

variable {κ ν : Type} [Ranked κ]

/-! ### Entry lists -/

/-- The value of a key in a list of entries. -/
def findEntry (k : κ) : List (κ × ν) → Option ν
  | [] => none
  | (a, v) :: rest => if rank k = rank a then some v else findEntry k rest

/-- Puts an entry at its place, instead of one with the same key if there is one. -/
def insertEntry (k : κ) (v : ν) : List (κ × ν) → List (κ × ν)
  | [] => [(k, v)]
  | (a, w) :: rest =>
    if rank k < rank a then (k, v) :: (a, w) :: rest
    else if rank k = rank a then (k, v) :: rest
    else (a, w) :: insertEntry k v rest

theorem mem_insertEntry {k : κ} {v : ν} {e : κ × ν} {es : List (κ × ν)}
    (h : e ∈ insertEntry k v es) : e = (k, v) ∨ e ∈ es := by
  induction es with
  | nil => simpa [insertEntry] using h
  | cons head rest ih =>
    obtain ⟨a, w⟩ := head
    simp only [insertEntry] at h
    split at h
    · simpa using h
    · split at h
      · simp only [List.mem_cons] at h ⊢
        rcases h with h | h
        · exact .inl h
        · exact .inr (.inr h)
      · simp only [List.mem_cons] at h ⊢
        rcases h with h | h
        · exact .inr (.inl h)
        · exact (ih h).imp id .inr

theorem pairwise_insertEntry (k : κ) (v : ν) {es : List (κ × ν)}
    (h : es.Pairwise fun a b => rank a.1 < rank b.1) :
    (insertEntry k v es).Pairwise fun a b => rank a.1 < rank b.1 := by
  induction es with
  | nil => simp [insertEntry]
  | cons head rest ih =>
    obtain ⟨a, w⟩ := head
    obtain ⟨hhead, hrest⟩ := List.pairwise_cons.1 h
    simp only [insertEntry]
    split
    · rename_i hlt
      refine List.pairwise_cons.2 ⟨fun e he => ?_, h⟩
      rcases List.mem_cons.1 he with rfl | he
      · exact hlt
      · exact Nat.lt_trans hlt (hhead e he)
    · split
      · rename_i heq
        exact List.pairwise_cons.2 ⟨fun e he => heq ▸ hhead e he, hrest⟩
      · refine List.pairwise_cons.2 ⟨fun e he => ?_, ih hrest⟩
        rcases mem_insertEntry he with rfl | he
        · simp only; omega
        · exact hhead e he

theorem findEntry_insertEntry (k j : κ) (v : ν) (es : List (κ × ν)) :
    findEntry j (insertEntry k v es) = if rank j = rank k then some v else findEntry j es := by
  induction es with
  | nil => rfl
  | cons head rest ih =>
    obtain ⟨a, w⟩ := head
    simp only [insertEntry]
    split
    · rfl
    · split
      · rename_i _ heq
        by_cases h : rank j = rank k
        · simp [findEntry, h]
        · simp [findEntry, heq ▸ h, h]
      · by_cases h : rank j = rank a
        · have : ¬ rank j = rank k := by omega
          simp [findEntry, h, h ▸ this]
        · simp [findEntry, h, ih]

theorem findEntry_eq_none_of_forall_lt {k : κ} {es : List (κ × ν)}
    (h : ∀ e ∈ es, rank k < rank e.1) : findEntry k es = none := by
  induction es with
  | nil => rfl
  | cons head rest ih =>
    obtain ⟨a, w⟩ := head
    have hlt := h (a, w) (by simp)
    have : ¬ rank k = rank a := by simp only at hlt; omega
    simp only [findEntry, this, ↓reduceIte]
    exact ih fun e he => h e (by simp [he])

theorem eq_of_findEntry_eq {es fs : List (κ × ν)}
    (hes : es.Pairwise fun a b => rank a.1 < rank b.1)
    (hfs : fs.Pairwise fun a b => rank a.1 < rank b.1)
    (h : ∀ k, findEntry k es = findEntry k fs) : es = fs := by
  induction es generalizing fs with
  | nil =>
    cases fs with
    | nil => rfl
    | cons f fs => simpa [findEntry] using h f.1
  | cons e es ih =>
    cases fs with
    | nil => simpa [findEntry] using h e.1
    | cons f fs =>
      obtain ⟨a, v⟩ := e
      obtain ⟨b, w⟩ := f
      obtain ⟨hhead, hrest⟩ := List.pairwise_cons.1 hes
      obtain ⟨fhead, frest⟩ := List.pairwise_cons.1 hfs
      -- The least keys agree: a lesser one on either side would be missing on the other.
      have hab : rank a = rank b := by
        rcases Nat.lt_trichotomy (rank a) (rank b) with hlt | heq | hlt
        · have hne : ¬ rank a = rank b := by omega
          have hmiss : findEntry a fs = none := findEntry_eq_none_of_forall_lt fun e he =>
            Nat.lt_trans hlt (fhead e he)
          simpa [findEntry, hne, hmiss] using h a
        · exact heq
        · have hne : ¬ rank b = rank a := by omega
          have hmiss : findEntry b es = none := findEntry_eq_none_of_forall_lt fun e he =>
            Nat.lt_trans hlt (hhead e he)
          simpa [findEntry, hne, hmiss] using h b
      obtain rfl := Ranked.rank_injective hab
      have hv : v = w := by simpa [findEntry] using h a
      subst hv
      congr 1
      refine ih hrest frest fun k => ?_
      by_cases hk : rank k = rank a
      · rw [findEntry_eq_none_of_forall_lt fun e he => hk ▸ hhead e he,
          findEntry_eq_none_of_forall_lt fun e he => hk ▸ fhead e he]
      · simpa [findEntry, hk] using h k

/-! ### Maps -/

/-- The map without entries. -/
def empty : OrderedMap κ ν := ⟨[], List.Pairwise.nil⟩

/-- The value of a key, if it has one. -/
def find? (m : OrderedMap κ ν) (k : κ) : Option ν := findEntry k m.entries

/-- Whether a key has a value. -/
def contains (m : OrderedMap κ ν) (k : κ) : Bool := (m.find? k).isSome

/-- Gives a key a value, whatever it had before. -/
def insert (m : OrderedMap κ ν) (k : κ) (v : ν) : OrderedMap κ ν :=
  ⟨insertEntry k v m.entries, pairwise_insertEntry k v m.ascending⟩

/-- How many keys have a value. -/
def size (m : OrderedMap κ ν) : Nat := m.entries.length

/-- The keys in ascending order. -/
def keys (m : OrderedMap κ ν) : List κ := m.entries.map Prod.fst

@[simp] theorem find?_empty (k : κ) : (empty : OrderedMap κ ν).find? k = none := rfl

theorem find?_insert (m : OrderedMap κ ν) (k j : κ) (v : ν) :
    (m.insert k v).find? j = if rank j = rank k then some v else m.find? j :=
  findEntry_insertEntry k j v m.entries

@[simp] theorem find?_insert_self (m : OrderedMap κ ν) (k : κ) (v : ν) :
    (m.insert k v).find? k = some v := by
  simp [find?_insert]

/-- Maps with the same look-ups are equal. -/
theorem ext_find? {m n : OrderedMap κ ν} (h : ∀ k, m.find? k = n.find? k) : m = n := by
  obtain ⟨es, hes⟩ := m
  obtain ⟨fs, hfs⟩ := n
  have := eq_of_findEntry_eq hes hfs h
  subst this
  rfl

/-- A key above all others is appended. -/
theorem entries_insert_of_forall_lt {m : OrderedMap κ ν} {k : κ}
    (h : ∀ e ∈ m.entries, rank e.1 < rank k) (v : ν) :
    (m.insert k v).entries = m.entries ++ [(k, v)] := by
  obtain ⟨es, hes⟩ := m
  simp only [insert] at *
  clear hes
  induction es with
  | nil => rfl
  | cons head rest ih =>
    obtain ⟨a, w⟩ := head
    have hlt := h (a, w) (by simp)
    have h₁ : ¬ rank k < rank a := by simp only at hlt; omega
    have h₂ : ¬ rank k = rank a := by simp only at hlt; omega
    simp only [insertEntry, h₁, h₂, ↓reduceIte, List.cons_append]
    rw [ih fun e he => h e (by simp [he])]

end OrderedMap

end TypeStream
