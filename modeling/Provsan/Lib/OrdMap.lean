/-
**Ordered maps with iterators.**

A map kept as the list of its entries in strictly increasing key order, with the operations of an
ordered associative container: insertion that keeps an entry already present, erasure, lookup, and
the iterator to the first entry whose key is not below a given one.  The order of the entries is a
field of the structure, so an unsorted map cannot be built.

Main definitions:

* `OrdMap` — the map, `OrdMap.find` — lookup;
* `OrdMap.emplace`, `OrdMap.erase` — insertion without replacement, and erasure;
* `OrdMap.lowerBound`, `OrdMap.deref` — iterators, as positions in the list of entries.

Main results:

* `OrdMap.find_emplace`, `OrdMap.find_erase` — the operations seen through lookup;
* `OrdMap.deref_lowerBound_of_find` — on a key of the map the iterator stands on its entry;
* `OrdMap.prev_lowerBound` — the entry before the iterator is the last one below the key;
* `OrdMap.ext_find` — a map is determined by its lookups.
-/

import Mathlib.Order.Basic
import Mathlib.Data.List.Sort
import Mathlib.Data.List.TakeWhile

set_option relaxedAutoImplicit false
set_option autoImplicit false

/-- A finite map from `κ` to `α`: its entries in strictly increasing order of the keys. -/
structure OrdMap (κ α : Type) [LinearOrder κ] where
  entries : List (κ × α)
  sorted : entries.Pairwise fun a b => a.1 < b.1

namespace OrdMap

variable {κ α : Type} [LinearOrder κ]

instance [DecidableEq α] : DecidableEq (OrdMap κ α) := fun m m' =>
  decidable_of_iff (m.entries = m'.entries) (by cases m; cases m'; simp)

/-- The map without entries. -/
def empty : OrdMap κ α := ⟨[], List.Pairwise.nil⟩

/-- Whether the map has no entry. -/
def isEmpty (m : OrdMap κ α) : Bool := m.entries.isEmpty

/-- The value stored under a key. -/
def find (m : OrdMap κ α) (k : κ) : Option α :=
  (m.entries.find? fun e => e.1 = k).map Prod.snd

@[simp] theorem find_empty (k : κ) : (empty : OrdMap κ α).find k = none := rfl

/-! ### Lookup and membership -/

/-- Two entries under one key are the same entry. -/
theorem entry_unique (m : OrdMap κ α) {k : κ} {v w : α} (hv : (k, v) ∈ m.entries)
    (hw : (k, w) ∈ m.entries) : v = w := by
  obtain ⟨i, hi, hiv⟩ := List.getElem_of_mem hv
  obtain ⟨j, hj, hjw⟩ := List.getElem_of_mem hw
  have hs := List.pairwise_iff_getElem.1 m.sorted
  rcases Nat.lt_trichotomy i j with hlt | rfl | hlt
  · have := hs i j hi hj hlt
    rw [hiv, hjw] at this
    exact absurd this (lt_irrefl k)
  · rw [hiv] at hjw
    exact (Prod.mk.injEq .. ▸ hjw).2
  · have := hs j i hj hi hlt
    rw [hiv, hjw] at this
    exact absurd this (lt_irrefl k)

/-- Lookup finds exactly the entries of the map. -/
theorem find_eq_some {m : OrdMap κ α} {k : κ} {v : α} :
    m.find k = some v ↔ (k, v) ∈ m.entries := by
  constructor
  · intro h
    obtain ⟨⟨k', v'⟩, he, rfl⟩ := Option.map_eq_some_iff.1 h
    have hk : k' = k := by simpa using List.find?_some he
    subst hk
    exact List.mem_of_find?_eq_some he
  · intro h
    cases he : m.entries.find? fun e => e.1 = k with
    | none => exact absurd (List.find?_eq_none.1 he _ h) (by simp)
    | some e =>
        have hk : e.1 = k := by simpa using List.find?_some he
        have hmem : (k, e.2) ∈ m.entries := hk ▸ List.mem_of_find?_eq_some he
        rw [find, he, Option.map_some, m.entry_unique hmem h]

theorem find_eq_none {m : OrdMap κ α} {k : κ} :
    m.find k = none ↔ ∀ v, (k, v) ∉ m.entries := by
  rw [Option.eq_none_iff_forall_not_mem]
  exact forall_congr' fun v => not_congr find_eq_some

/-- A map is determined by its lookups. -/
theorem ext_find {m m' : OrdMap κ α} (h : ∀ k, m.find k = m'.find k) : m = m' := by
  have hnd : ∀ n : OrdMap κ α, n.entries.Nodup := fun n =>
    n.sorted.imp fun hab heq => absurd (heq ▸ hab) (lt_irrefl _)
  have hperm : m.entries.Perm m'.entries := by
    refine (List.perm_ext_iff_of_nodup (hnd m) (hnd m')).2 ?_
    rintro ⟨k, v⟩
    rw [← find_eq_some, ← find_eq_some, h k]
  have hentries : m.entries = m'.entries :=
    hperm.eq_of_pairwise (fun a b _ _ hab hba => absurd (hab.trans hba) (lt_irrefl _))
      m.sorted m'.sorted
  cases m
  cases m'
  congr

/-! ### The entries on either side of a key -/

/-- The entries whose key is below `k`. -/
def below (m : OrdMap κ α) (k : κ) : List (κ × α) := m.entries.takeWhile fun e => e.1 < k

/-- The entries whose key is not below `k`. -/
def above (m : OrdMap κ α) (k : κ) : List (κ × α) := m.entries.dropWhile fun e => e.1 < k

theorem below_append_above (m : OrdMap κ α) (k : κ) : m.below k ++ m.above k = m.entries :=
  List.takeWhile_append_dropWhile

theorem lt_of_mem_below {m : OrdMap κ α} {k : κ} {e : κ × α} (h : e ∈ m.below k) : e.1 < k := by
  simpa using List.mem_takeWhile_imp h

/-- Past the first entry that is not below `k`, the keys only grow. -/
theorem le_of_mem_above {m : OrdMap κ α} {k : κ} {e : κ × α} (h : e ∈ m.above k) : k ≤ e.1 := by
  have hsorted : (m.above k).Pairwise fun a b => a.1 < b.1 :=
    m.sorted.sublist (List.dropWhile_sublist _)
  cases hab : m.above k with
  | nil => rw [hab] at h; simp at h
  | cons x l =>
      have hx : k ≤ x.1 := by
        have := List.head?_dropWhile_not (fun e : κ × α => decide (e.1 < k)) m.entries
        rw [above] at hab
        simpa [hab] using this
      rw [hab] at h hsorted
      rcases List.mem_cons.1 h with rfl | hmem
      · exact hx
      · exact hx.trans ((List.pairwise_cons.1 hsorted).1 e hmem).le

theorem mem_below {m : OrdMap κ α} {k : κ} {e : κ × α} :
    e ∈ m.below k ↔ e ∈ m.entries ∧ e.1 < k := by
  constructor
  · intro h
    exact ⟨(List.takeWhile_sublist _).subset h, lt_of_mem_below h⟩
  · rintro ⟨hmem, hlt⟩
    rw [← m.below_append_above k] at hmem
    rcases List.mem_append.1 hmem with h | h
    · exact h
    · exact absurd hlt (not_lt.2 (le_of_mem_above h))

theorem mem_above {m : OrdMap κ α} {k : κ} {e : κ × α} :
    e ∈ m.above k ↔ e ∈ m.entries ∧ k ≤ e.1 := by
  constructor
  · intro h
    exact ⟨(List.dropWhile_sublist _).subset h, le_of_mem_above h⟩
  · rintro ⟨hmem, hle⟩
    rw [← m.below_append_above k] at hmem
    rcases List.mem_append.1 hmem with h | h
    · exact absurd (lt_of_mem_below h) (not_lt.2 hle)
    · exact h

/-! ### Insertion and erasure -/

/-- With no entry under `k`, a new one fits between the entries below it and the others. -/
theorem sorted_insert {m : OrdMap κ α} {k : κ} (h : m.find k = none) (v : α) :
    (m.below k ++ (k, v) :: m.above k).Pairwise fun a b => a.1 < b.1 := by
  have hs := m.sorted
  rw [← m.below_append_above k] at hs
  obtain ⟨hbelow, habove, hcross⟩ := List.pairwise_append.1 hs
  have hgt : ∀ e ∈ m.above k, k < e.1 := by
    intro e he
    refine lt_of_le_of_ne (le_of_mem_above he) ?_
    rintro rfl
    exact find_eq_none.1 h e.2 (mem_above.1 he).1
  refine List.pairwise_append.2 ⟨hbelow, List.pairwise_cons.2 ⟨hgt, habove⟩, ?_⟩
  intro a ha b hb
  rcases List.mem_cons.1 hb with rfl | hb
  · exact lt_of_mem_below ha
  · exact hcross a ha b hb

/-- Insertion that keeps an entry already stored under the key. -/
def emplace (m : OrdMap κ α) (k : κ) (v : α) : OrdMap κ α :=
  if h : m.find k = none then ⟨m.below k ++ (k, v) :: m.above k, sorted_insert h v⟩ else m

/-- Removal of the entry under a key, if there is one. -/
def erase (m : OrdMap κ α) (k : κ) : OrdMap κ α :=
  ⟨m.entries.filter fun e => e.1 ≠ k, m.sorted.filter _⟩

theorem mem_emplace {m : OrdMap κ α} {k : κ} {v : α} {e : κ × α} :
    e ∈ (m.emplace k v).entries ↔ e ∈ m.entries ∨ (m.find k = none ∧ e = (k, v)) := by
  by_cases h : m.find k = none
  · rw [emplace, dif_pos h, ← m.below_append_above k]
    simp only [List.mem_append, List.mem_cons, h, true_and]
    tauto
  · simp [emplace, h]

theorem mem_erase {m : OrdMap κ α} {k : κ} {e : κ × α} :
    e ∈ (m.erase k).entries ↔ e ∈ m.entries ∧ e.1 ≠ k := by
  simp [erase]

/-- Insertion changes the lookup of its own key only, and only when nothing was stored there. -/
theorem find_emplace (m : OrdMap κ α) (k k' : κ) (v : α) :
    (m.emplace k v).find k' = if k' = k then some ((m.find k).getD v) else m.find k' := by
  ext w
  rw [find_eq_some, mem_emplace]
  split_ifs with hk
  · subst hk
    cases h : m.find k' with
    | none => simp [find_eq_none.1 h, eq_comm]
    | some u =>
        simp only [reduceCtorEq, false_and, or_false, Option.getD_some, Option.some.injEq]
        rw [← find_eq_some, h, Option.some.injEq]
  · rw [← find_eq_some]
    simp [hk]

theorem find_emplace_of_none {m : OrdMap κ α} {k : κ} (h : m.find k = none) (k' : κ) (v : α) :
    (m.emplace k v).find k' = if k' = k then some v else m.find k' := by
  rw [find_emplace, h, Option.getD_none]

theorem emplace_of_some {m : OrdMap κ α} {k : κ} {w : α} (h : m.find k = some w) (v : α) :
    m.emplace k v = m := by
  simp [emplace, h]

/-- Erasure changes the lookup of its own key only. -/
theorem find_erase (m : OrdMap κ α) (k k' : κ) :
    (m.erase k).find k' = if k' = k then none else m.find k' := by
  ext w
  rw [find_eq_some, mem_erase]
  split_ifs with hk
  · simp [hk]
  · rw [← find_eq_some]
    simp [hk]

/-- Erasing a key that is not stored does nothing. -/
theorem erase_of_none {m : OrdMap κ α} {k : κ} (h : m.find k = none) : m.erase k = m := by
  refine ext_find fun k' => ?_
  rw [find_erase]
  split_ifs with hk
  · rw [hk, h]
  · rfl

/-! ### Iterators -/

/-- The iterator to the first entry whose key is not below `k`: its position, which is the number
of entries when there is no such entry. -/
def lowerBound (m : OrdMap κ α) (k : κ) : ℕ := (m.below k).length

/-- The entry an iterator stands on; the iterator past the last entry stands on none. -/
def deref (m : OrdMap κ α) (it : ℕ) : Option (κ × α) := m.entries[it]?

theorem deref_lowerBound (m : OrdMap κ α) (k : κ) :
    m.deref (m.lowerBound k) = (m.above k).head? := by
  rw [deref, ← m.below_append_above k, lowerBound, List.getElem?_append_right (le_refl _),
    Nat.sub_self, List.head?_eq_getElem?]

theorem mem_of_deref {m : OrdMap κ α} {it : ℕ} {e : κ × α} (h : m.deref it = some e) :
    e ∈ m.entries :=
  List.mem_of_getElem? h

/-- On a key of the map the iterator stands on its entry. -/
theorem deref_lowerBound_of_find {m : OrdMap κ α} {k : κ} {v : α} (h : m.find k = some v) :
    m.deref (m.lowerBound k) = some (k, v) := by
  have hmem : (k, v) ∈ m.above k := mem_above.2 ⟨find_eq_some.1 h, le_refl k⟩
  have hsorted : (m.above k).Pairwise fun a b => a.1 < b.1 :=
    m.sorted.sublist (List.dropWhile_sublist _)
  rw [deref_lowerBound]
  cases hab : m.above k with
  | nil => rw [hab] at hmem; simp at hmem
  | cons x l =>
      rw [hab] at hmem hsorted
      rcases List.mem_cons.1 hmem with heq | htl
      · rw [heq, List.head?_cons]
      · -- an entry in front of it would have a smaller key, yet not below `k`
        have hlt : x.1 < k := (List.pairwise_cons.1 hsorted).1 _ htl
        have hle : k ≤ x.1 := le_of_mem_above (m := m) (hab ▸ List.mem_cons_self ..)
        exact absurd hlt (not_lt.2 hle)

/-- The iterator to a key is the first one exactly when no entry lies below the key. -/
theorem lowerBound_eq_zero {m : OrdMap κ α} {k : κ} :
    m.lowerBound k = 0 ↔ ∀ e ∈ m.entries, k ≤ e.1 := by
  rw [lowerBound, List.length_eq_zero_iff, List.eq_nil_iff_forall_not_mem]
  refine forall_congr' fun e => ?_
  rw [mem_below, not_and, not_lt]

/-- Stepping back from the iterator to a key gives the last entry below the key. -/
theorem prev_lowerBound {m : OrdMap κ α} {k : κ} (h : m.lowerBound k ≠ 0) :
    ∃ e, m.deref (m.lowerBound k - 1) = some e ∧ e.1 < k ∧
      ∀ e' ∈ m.entries, e'.1 < k → e'.1 ≤ e.1 := by
  have hne : m.below k ≠ [] := fun hnil => h (by rw [lowerBound, hnil, List.length_nil])
  obtain ⟨l, e, hle⟩ : ∃ l e, m.below k = l ++ [e] :=
    ⟨_, _, (List.dropLast_append_getLast hne).symm⟩
  have hsorted : (l ++ [e]).Pairwise fun a b => a.1 < b.1 :=
    hle ▸ m.sorted.sublist (List.takeWhile_sublist _)
  have hpos : m.lowerBound k - 1 = l.length := by simp [lowerBound, hle]
  refine ⟨e, ?_, lt_of_mem_below (m := m) (by simp [hle]), ?_⟩
  · rw [deref, ← m.below_append_above k, hle, hpos]
    simp
  · intro e' hmem hlt
    have : e' ∈ l ++ [e] := hle ▸ mem_below.2 ⟨hmem, hlt⟩
    rcases List.mem_append.1 this with hl | hl
    · exact ((List.pairwise_append.1 hsorted).2.2 e' hl e (by simp)).le
    · rw [List.mem_singleton.1 hl]

end OrdMap
