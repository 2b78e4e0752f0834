/-
**Unordered containers under a chosen equality.**

Hash containers compare their keys with an equality the program supplies, which may identify
values that differ in some fields.  This module models a set and a map of that kind: the elements
stand in a list, no two of them equal under `==`, and an insertion that meets an equal element
leaves the container as it is.  The order of the list stands for the order of iteration, on which
nothing here depends.

Main definitions:

* `UnorderedSet`, `UnorderedSet.insert`, `UnorderedSet.contains`;
* `UnorderedMap`, `UnorderedMap.find`, `UnorderedMap.emplace`, `UnorderedMap.erase`.

Main results:

* `UnorderedSet.contains_insert` — membership, up to `==`, after an insertion;
* `UnorderedSet.eq_of_mem` — no two elements of a set are equal under `==`;
* `UnorderedMap.find_emplace`, `UnorderedMap.find_erase` — the operations seen through lookup.
-/

import Mathlib.Data.List.Basic
import Mathlib.Data.List.Pairwise
import Mathlib.Logic.Basic

set_option relaxedAutoImplicit false
set_option autoImplicit false

/-! ### Sets -/

/-- A set whose elements are compared with `==`. -/
structure UnorderedSet (α : Type) [BEq α] where
  elems : List α
  distinct : elems.Pairwise fun a b => (a == b) = false

namespace UnorderedSet

variable {α : Type} [BEq α]

instance [DecidableEq α] : DecidableEq (UnorderedSet α) := fun s s' =>
  decidable_of_iff (s.elems = s'.elems) (by cases s; cases s'; simp)

def empty : UnorderedSet α := ⟨[], List.Pairwise.nil⟩

/-- Whether an element equal to `a` is in the set. -/
def contains (s : UnorderedSet α) (a : α) : Bool := s.elems.any fun b => b == a

theorem contains_iff {s : UnorderedSet α} {a : α} :
    s.contains a = true ↔ ∃ b ∈ s.elems, (b == a) = true := by
  simp [contains]

@[simp] theorem contains_empty (a : α) : (empty : UnorderedSet α).contains a = false := rfl

/-- Insertion: an element equal to one already present is dropped. -/
def insert (s : UnorderedSet α) (a : α) : UnorderedSet α :=
  if h : s.contains a = true then s
  else ⟨s.elems ++ [a], List.pairwise_append.2 ⟨s.distinct, List.pairwise_singleton _ _, by
    intro b hb c hc
    rw [List.mem_singleton.1 hc]
    by_contra hba
    exact h (contains_iff.2 ⟨b, hb, by simpa using hba⟩)⟩⟩

/-- An element is added only when nothing equal to it was there. -/
theorem mem_insert {s : UnorderedSet α} {a b : α} :
    b ∈ (s.insert a).elems ↔ b ∈ s.elems ∨ (s.contains a = false ∧ b = a) := by
  by_cases h : s.contains a = true
  · simp [insert, h]
  · rw [insert, dif_neg h]
    simp [Bool.eq_false_iff.2 h]

/-- Inserting a list of elements adds nothing but these. -/
theorem mem_foldl_insert {f : α → α} {l : List α} {s : UnorderedSet α} {b : α}
    (hb : b ∈ (l.foldl (fun t a => t.insert (f a)) s).elems) : b ∈ s.elems ∨ ∃ a ∈ l, b = f a := by
  induction l generalizing s with
  | nil => exact Or.inl hb
  | cons a l ih =>
      rcases ih hb with hold | ⟨c, hc, rfl⟩
      · rcases mem_insert.1 hold with hold | ⟨-, rfl⟩
        · exact Or.inl hold
        · exact Or.inr ⟨a, List.mem_cons_self .., rfl⟩
      · exact Or.inr ⟨c, List.mem_cons_of_mem _ hc, rfl⟩

/-- Inserting a list of elements removes none. -/
theorem mem_foldl_insert_of_mem {f : α → α} {l : List α} {s : UnorderedSet α} {b : α}
    (hb : b ∈ s.elems) : b ∈ (l.foldl (fun t a => t.insert (f a)) s).elems := by
  induction l generalizing s with
  | nil => exact hb
  | cons a l ih => exact ih (mem_insert.2 (Or.inl hb))

/-- What was in the set stays in it. -/
theorem contains_insert_of_contains {s : UnorderedSet α} {a b : α} (h : s.contains b = true) :
    (s.insert a).contains b = true := by
  obtain ⟨c, hc, hcb⟩ := contains_iff.1 h
  exact contains_iff.2 ⟨c, mem_insert.2 (Or.inl hc), hcb⟩

section Equivalence

variable [EquivBEq α]

/-- Membership does not tell equal elements apart. -/
theorem contains_congr {s : UnorderedSet α} {a b : α} (h : (a == b) = true) :
    s.contains a = s.contains b := by
  rw [Bool.eq_iff_iff, contains_iff, contains_iff]
  refine exists_congr fun c => and_congr_right fun _ => ?_
  exact ⟨fun hc => BEq.trans hc h, fun hc => BEq.trans hc (BEq.symm h)⟩

theorem contains_of_mem {s : UnorderedSet α} {a : α} (h : a ∈ s.elems) : s.contains a = true :=
  contains_iff.2 ⟨a, h, BEq.rfl⟩

/-- Two equal elements of the set are the same one. -/
theorem eq_of_mem {s : UnorderedSet α} {a b : α} (ha : a ∈ s.elems) (hb : b ∈ s.elems)
    (hab : (a == b) = true) : a = b := by
  by_contra hne
  have hsymm : Std.Symm fun a b : α => (a == b) = false :=
    ⟨fun c d hcd => by rw [BEq.comm, hcd]⟩
  have hfalse := s.distinct.forall ha hb hne
  rw [hab] at hfalse
  exact absurd hfalse (by simp)

/-- After an insertion the set holds, up to `==`, what it held and the new element. -/
theorem contains_insert (s : UnorderedSet α) (a b : α) :
    (s.insert a).contains b = (s.contains b || a == b) := by
  rw [Bool.eq_iff_iff, Bool.or_eq_true]
  constructor
  · intro h
    obtain ⟨c, hc, hcb⟩ := contains_iff.1 h
    rcases mem_insert.1 hc with hc | ⟨_, rfl⟩
    · exact Or.inl (contains_iff.2 ⟨c, hc, hcb⟩)
    · exact Or.inr hcb
  · rintro (h | h)
    · exact contains_insert_of_contains h
    · by_cases ha : s.contains a = true
      · exact contains_insert_of_contains (contains_congr h ▸ ha)
      · exact contains_iff.2 ⟨a, mem_insert.2 (Or.inr ⟨by simpa using ha, rfl⟩), h⟩

/-- Inserting a list of elements, one after the other. -/
theorem contains_foldl_insert (f : α → α) (l : List α) (s : UnorderedSet α) (b : α) :
    (l.foldl (fun t a => t.insert (f a)) s).contains b = true ↔
      s.contains b = true ∨ ∃ a ∈ l, (f a == b) = true := by
  induction l generalizing s with
  | nil => simp
  | cons a l ih =>
      rw [List.foldl_cons, ih, contains_insert, Bool.or_eq_true]
      simp only [List.mem_cons, exists_eq_or_imp]
      exact or_assoc

end Equivalence

end UnorderedSet

/-! ### Maps -/

/-- A map whose keys are compared with `==`. -/
structure UnorderedMap (κ α : Type) [BEq κ] where
  entries : List (κ × α)
  distinct : entries.Pairwise fun a b => (a.1 == b.1) = false

namespace UnorderedMap

variable {κ α : Type} [BEq κ]

instance [DecidableEq κ] [DecidableEq α] : DecidableEq (UnorderedMap κ α) := fun m m' =>
  decidable_of_iff (m.entries = m'.entries) (by cases m; cases m'; simp)

def empty : UnorderedMap κ α := ⟨[], List.Pairwise.nil⟩

/-- The value stored under a key equal to `k`. -/
def find (m : UnorderedMap κ α) (k : κ) : Option α :=
  (m.entries.find? fun e => e.1 == k).map Prod.snd

@[simp] theorem find_empty (k : κ) : (empty : UnorderedMap κ α).find k = none := rfl

theorem find_eq_none {m : UnorderedMap κ α} {k : κ} :
    m.find k = none ↔ ∀ e ∈ m.entries, (e.1 == k) = false := by
  simp [find]

/-- Insertion that keeps an entry already stored under an equal key. -/
def emplace (m : UnorderedMap κ α) (k : κ) (v : α) : UnorderedMap κ α :=
  if h : m.find k = none then
    ⟨m.entries ++ [(k, v)], List.pairwise_append.2 ⟨m.distinct, List.pairwise_singleton _ _, by
      intro b hb c hc
      rw [List.mem_singleton.1 hc]
      exact find_eq_none.1 h b hb⟩⟩
  else m

/-- Removal of the entry under a key equal to `k`. -/
def erase (m : UnorderedMap κ α) (k : κ) : UnorderedMap κ α :=
  ⟨m.entries.filter fun e => !(e.1 == k), m.distinct.filter _⟩

theorem emplace_of_some {m : UnorderedMap κ α} {k : κ} {w : α} (h : m.find k = some w) (v : α) :
    m.emplace k v = m := by
  simp [emplace, h]

section Equivalence

variable [EquivBEq κ]

/-- Lookup does not tell equal keys apart. -/
theorem find_congr {m : UnorderedMap κ α} {k k' : κ} (h : (k == k') = true) :
    m.find k = m.find k' := by
  have hpred : (fun e : κ × α => e.1 == k) = fun e => e.1 == k' := by
    funext e
    rw [Bool.eq_iff_iff]
    exact ⟨fun he => BEq.trans he h, fun he => BEq.trans he (BEq.symm h)⟩
  rw [find, find, hpred]

/-- Insertion changes the lookup of its own key only, and only when nothing was stored there. -/
theorem find_emplace (m : UnorderedMap κ α) (k k' : κ) (v : α) :
    (m.emplace k v).find k' =
      if (k == k') = true then some ((m.find k).getD v) else m.find k' := by
  cases hk : m.find k with
  | some w =>
      rw [emplace_of_some hk]
      split_ifs with h
      · rw [← find_congr h, hk, Option.getD_some]
      · rfl
  | none =>
      rw [emplace, dif_pos hk, find, List.find?_append]
      split_ifs with h
      · have hnone : m.entries.find? (fun e => e.1 == k') = none := by
          rw [find_congr h] at hk
          simpa [find] using hk
        simp [hnone, h]
      · simp [find, h]

/-- Erasure changes the lookup of its own key only. -/
theorem find_erase (m : UnorderedMap κ α) (k k' : κ) :
    (m.erase k).find k' = if (k == k') = true then none else m.find k' := by
  rw [find, erase, List.find?_filter, find]
  split_ifs with h
  · rw [Option.map_eq_none_iff, List.find?_eq_none]
    intro e _ he
    rw [decide_eq_true_eq] at he
    rw [BEq.trans he.2 (BEq.symm h)] at he
    simp at he
  · have hpred : (fun e : κ × α => decide ((!(e.1 == k)) = true ∧ (e.1 == k') = true)) =
        fun e => e.1 == k' := by
      funext e
      rw [Bool.eq_iff_iff, decide_eq_true_eq]
      refine ⟨And.right, fun he => ⟨?_, he⟩⟩
      by_contra hek
      exact h (BEq.trans (BEq.symm (by simpa using hek)) he)
    rw [hpred]

/-- Erasing a new entry leaves the map as it was. -/
theorem erase_emplace {m : UnorderedMap κ α} {k : κ} (h : m.find k = none) (v : α) :
    (m.emplace k v).erase k = m := by
  rw [emplace, dif_pos h]
  have hother : m.entries.filter (fun e => !(e.1 == k)) = m.entries :=
    List.filter_eq_self.2 fun e he => by rw [find_eq_none.1 h e he, Bool.not_false]
  cases m with
  | mk entries distinct =>
      rw [erase]
      congr 1
      rw [List.filter_append, hother]
      simp

end Equivalence

end UnorderedMap
