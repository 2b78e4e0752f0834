/-
**Reverse post-order.**

Depth-first search of a directed graph given by successor lists.  A vertex is marked when the
search enters it and put in front of the output when the search leaves it, so that the output is
the reverse of the post-order.  The search is structural in a bound on its depth; with more fuel
than there are vertices the bound is never met.

Main definitions:

* `Traversal.dfs` — the search from one vertex;
* `Traversal.reversePostOrder` — the vertices in reverse post-order;
* `Traversal.Reaches` — reachability;
* `Traversal.Visits` — what a search adds to the marks and to the output.

Main results:

* `Traversal.visits_dfs` — **the search visits what it marks, each vertex once, and is closed under
  successors**;
* `Traversal.mem_reversePostOrder`, `Traversal.nodup_reversePostOrder` — the traversal lists exactly
  the reachable vertices, each once.
-/

import Mathlib.Data.List.Nodup
import Mathlib.Logic.Relation

set_option relaxedAutoImplicit false
set_option autoImplicit false

namespace Traversal

variable {α : Type} [DecidableEq α] (succ : α → List α)

/-- The search from `v`, with the marked vertices and the output so far. -/
def dfs : ℕ → List α × List α → α → List α × List α
  | 0, s, _ => s
  | fuel + 1, s, v =>
      if v ∈ s.1 then s
      else
        let s' := (succ v).foldl (dfs fuel) (v :: s.1, s.2)
        (s'.1, v :: s'.2)

/-- The vertices the search finds from `root`, in reverse post-order. -/
def reversePostOrder (fuel : ℕ) (root : α) : List α := (dfs succ fuel ([], []) root).2

/-- `w` can be reached from `v`. -/
def Reaches (v w : α) : Prop := Relation.ReflTransGen (fun x y => y ∈ succ x) v w

/-- The vertices of `V` that are not marked. -/
def unmarked (V seen : List α) : ℕ := (V.filter (· ∉ seen)).length

omit [DecidableEq α] in
theorem Reaches.step {v w x : α} (h : w ∈ succ v) (hx : Reaches succ w x) : Reaches succ v x :=
  Relation.ReflTransGen.head h hx

/-! ### Fuel -/

theorem unmarked_le {V seen seen' : List α} (h : seen ⊆ seen') :
    unmarked V seen' ≤ unmarked V seen := by
  refine (List.monotone_filter_right V fun x hx => ?_).length_le
  rw [decide_eq_true_eq] at hx ⊢
  exact fun hmem => hx (h hmem)

/-- Marking a vertex leaves fewer to mark. -/
theorem unmarked_cons_lt {V seen : List α} {v : α} (hv : v ∈ V) (hseen : v ∉ seen) :
    unmarked V (v :: seen) < unmarked V seen := by
  have hfilter : V.filter (· ∉ v :: seen) = (V.filter (· ∉ seen)).filter (· ≠ v) := by
    rw [List.filter_filter]
    refine List.filter_congr fun x _ => ?_
    by_cases hxv : x = v <;> simp [hxv]
  rw [unmarked, unmarked, hfilter]
  refine List.length_filter_lt_length_iff_exists.2 ⟨v, ?_, by simp⟩
  rw [List.mem_filter]
  exact ⟨hv, by simpa using hseen⟩

/-! ### What a search does -/

/-- **What a search from the vertices `vs` does** to the marks and the output: the marks grow by
vertices that can be reached from `vs`, those among them; the successors of every new mark are
marked; and the output grows by the new marks, each once. -/
structure Visits (vs : List α) (s s' : List α × List α) : Prop where
  mono : s.1 ⊆ s'.1
  marks : vs ⊆ s'.1
  sound : ∀ x ∈ s'.1, x ∉ s.1 → ∃ v ∈ vs, Reaches succ v x
  closed : ∀ x ∈ s'.1, x ∉ s.1 → succ x ⊆ s'.1
  output : ∃ new, s'.2 = new ++ s.2 ∧ new.Nodup ∧ ∀ x, x ∈ new ↔ x ∈ s'.1 ∧ x ∉ s.1

namespace Visits

variable {succ} {s s' s'' : List α × List α}

omit [DecidableEq α] in
theorem refl {vs : List α} (h : vs ⊆ s.1) : Visits succ vs s s where
  mono := List.Subset.refl _
  marks := h
  sound _ hx hnx := absurd hx hnx
  closed _ hx hnx := absurd hx hnx
  output := ⟨[], rfl, List.nodup_nil, fun x => by simp⟩

omit [DecidableEq α] in
/-- Two searches, one after the other. -/
theorem append {vs ws : List α} (h : Visits succ vs s s') (h' : Visits succ ws s' s'') :
    Visits succ (vs ++ ws) s s'' := by
  refine ⟨fun x hx => h'.mono (h.mono hx), ?_, ?_, ?_, ?_⟩
  · intro x hx
    rcases List.mem_append.1 hx with hx | hx
    · exact h'.mono (h.marks hx)
    · exact h'.marks hx
  · intro x hx hnx
    by_cases hx' : x ∈ s'.1
    · obtain ⟨v, hv, hr⟩ := h.sound x hx' hnx
      exact ⟨v, List.mem_append_left _ hv, hr⟩
    · obtain ⟨w, hw, hr⟩ := h'.sound x hx hx'
      exact ⟨w, List.mem_append_right _ hw, hr⟩
  · intro x hx hnx
    by_cases hx' : x ∈ s'.1
    · exact fun y hy => h'.mono (h.closed x hx' hnx hy)
    · exact h'.closed x hx hx'
  · obtain ⟨new, hnew, hnd, hmem⟩ := h.output
    obtain ⟨new', hnew', hnd', hmem'⟩ := h'.output
    refine ⟨new' ++ new, by rw [hnew', hnew, List.append_assoc], ?_, fun x => ?_⟩
    · refine List.nodup_append.2 ⟨hnd', hnd, fun x hx y hy hxy => ?_⟩
      exact ((hmem' x).1 hx).2 (hxy ▸ ((hmem y).1 hy).1)
    · rw [List.mem_append, hmem, hmem']
      constructor
      · rintro (⟨hx, hnx⟩ | ⟨hx, hnx⟩)
        · exact ⟨hx, fun hs => hnx (h.mono hs)⟩
        · exact ⟨h'.mono hx, hnx⟩
      · rintro ⟨hx, hnx⟩
        by_cases hx' : x ∈ s'.1
        · exact Or.inr ⟨hx', hnx⟩
        · exact Or.inl ⟨hx, hx'⟩

omit [DecidableEq α] in
/-- Entering a vertex, searching its successors and leaving it. -/
theorem enter {v : α} (hv : v ∉ s.1) (h : Visits succ (succ v) (v :: s.1, s.2) s') :
    Visits succ [v] s (s'.1, v :: s'.2) := by
  have hvs' : v ∈ s'.1 := h.mono (List.mem_cons_self ..)
  refine ⟨fun x hx => h.mono (List.mem_cons_of_mem _ hx), by simpa using hvs', ?_, ?_, ?_⟩
  · intro x hx hnx
    refine ⟨v, List.mem_singleton_self v, ?_⟩
    by_cases hxv : x = v
    · rw [hxv]
      exact Relation.ReflTransGen.refl
    · obtain ⟨w, hw, hr⟩ := h.sound x hx (by simp [hxv, hnx])
      exact hr.step succ hw
  · intro x hx hnx
    by_cases hxv : x = v
    · rw [hxv]
      exact h.marks
    · exact h.closed x hx (by simp [hxv, hnx])
  · obtain ⟨new, hnew, hnd, hmem⟩ := h.output
    refine ⟨v :: new, by simp [hnew], List.nodup_cons.2 ⟨fun hvn => ?_, hnd⟩, fun x => ?_⟩
    · exact ((hmem v).1 hvn).2 (List.mem_cons_self ..)
    · rw [List.mem_cons, hmem, List.mem_cons, not_or]
      constructor
      · rintro (rfl | ⟨hx, -, hnx⟩)
        · exact ⟨hvs', hv⟩
        · exact ⟨hx, hnx⟩
      · rintro ⟨hx, hnx⟩
        by_cases hxv : x = v
        · exact Or.inl hxv
        · exact Or.inr ⟨hx, hxv, hnx⟩

end Visits

/-- **A search with enough fuel visits its vertex**, in a graph whose vertices are among `V`. -/
theorem visits_dfs {V : List α} (hV : ∀ v ∈ V, succ v ⊆ V) (fuel : ℕ) (s : List α × List α) (v : α)
    (hv : v ∈ V) (hfuel : unmarked V s.1 ≤ fuel) : Visits succ [v] s (dfs succ fuel s v) := by
  induction fuel generalizing s v with
  | zero =>
      -- without fuel every vertex is marked
      have hseen : v ∈ s.1 := by
        by_contra hnot
        have := unmarked_cons_lt hv hnot
        omega
      exact Visits.refl (by simpa using hseen)
  | succ fuel ih =>
      rw [dfs]
      split_ifs with hseen
      · exact Visits.refl (by simpa using hseen)
      · refine Visits.enter hseen ?_
        have hlt := unmarked_cons_lt hv hseen
        -- the successors one after the other, each with what the earlier ones have marked
        have hfold : ∀ (ws : List α) (t : List α × List α), ws ⊆ V → unmarked V t.1 ≤ fuel →
            Visits succ ws t (ws.foldl (dfs succ fuel) t) := by
          intro ws
          induction ws with
          | nil => exact fun t _ _ => Visits.refl (List.nil_subset _)
          | cons w ws ihws =>
              intro t hws ht
              have hw := ih t w (hws (List.mem_cons_self ..)) ht
              have hrest := ihws (dfs succ fuel t w) (fun x hx => hws (List.mem_cons_of_mem _ hx))
                (Nat.le_trans (unmarked_le hw.mono) ht)
              exact hw.append hrest
        exact hfold (succ v) (v :: s.1, s.2) (hV v hv)
          (Nat.le_of_lt_succ (Nat.lt_of_lt_of_le hlt hfuel))

/-! ### The traversal -/

variable {succ}

/-- The traversal in a finite graph, with enough fuel. -/
theorem visits_reversePostOrder {V : List α} (hV : ∀ v ∈ V, succ v ⊆ V) {root : α}
    (hroot : root ∈ V) {fuel : ℕ} (hfuel : V.length ≤ fuel) :
    Visits succ [root] ([], []) (dfs succ fuel ([], []) root) := by
  refine visits_dfs succ hV fuel ([], []) root hroot ?_
  exact Nat.le_trans (List.length_filter_le _ V) hfuel

/-- **The traversal lists exactly the reachable vertices.** -/
theorem mem_reversePostOrder {V : List α} (hV : ∀ v ∈ V, succ v ⊆ V) {root : α} (hroot : root ∈ V)
    {fuel : ℕ} (hfuel : V.length ≤ fuel) {x : α} :
    x ∈ reversePostOrder succ fuel root ↔ Reaches succ root x := by
  have hvisits := visits_reversePostOrder hV hroot hfuel
  obtain ⟨new, hnew, -, hmem⟩ := hvisits.output
  rw [reversePostOrder, hnew, List.append_nil, hmem]
  constructor
  · rintro ⟨hx, hnx⟩
    obtain ⟨v, hv, hr⟩ := hvisits.sound x hx hnx
    rwa [List.mem_singleton.1 hv] at hr
  · intro hr
    refine ⟨?_, by simp⟩
    induction hr with
    | refl => exact hvisits.marks (List.mem_singleton_self root)
    | tail _ hstep ih => exact hvisits.closed _ ih (by simp) hstep

/-- **The traversal lists no vertex twice.** -/
theorem nodup_reversePostOrder {V : List α} (hV : ∀ v ∈ V, succ v ⊆ V) {root : α} (hroot : root ∈ V)
    {fuel : ℕ} (hfuel : V.length ≤ fuel) : (reversePostOrder succ fuel root).Nodup := by
  obtain ⟨new, hnew, hnd, -⟩ := (visits_reversePostOrder hV hroot hfuel).output
  rw [reversePostOrder, hnew, List.append_nil]
  exact hnd

end Traversal
