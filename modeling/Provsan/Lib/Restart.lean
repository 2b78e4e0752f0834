/-
**Restarted instructions.**

An instruction makes several accesses, and the first one that is refused stops it.  A handler
serves the fault and the instruction starts again from its first access, until nothing is refused
any more.  When serving a fault opens a whole class of accesses and touches no other, the faults of
an instruction are the refused accesses that are the first ones of their classes, in order, and
there is no need to follow the restarts.

Main definitions:

* `firsts` — the elements of a list that are the first ones of their classes;
* `Restart`, `Restart.complete` — a handler, and an instruction that is run to its completion;
* `Restart.Opens` — serving a fault opens the class of the access;
* `runTrace` — instructions one after the other, with all their events.

Main results:

* `mem_firsts`, `firsts_sublist`, `firsts_append` — what the first ones are;
* `firsts_filter_of_find?` — the first one of all, and those that are left;
* `Restart.complete_eq` — **the faults of an instruction**, and the state it leaves;
* `runTrace_append` — programs cut in two.
-/

import Mathlib.Data.List.Basic

set_option relaxedAutoImplicit false
set_option autoImplicit false

/-! ### First ones -/

section

variable {α κ : Type} [DecidableEq κ]

/-- The elements that are the first ones of their classes. -/
def firsts (cls : α → κ) : List α → List α
  | [] => []
  | a :: l => a :: (firsts cls l).filter fun b => cls b ≠ cls a

variable {cls : α → κ}

@[simp] theorem firsts_nil : firsts cls [] = [] := rfl

theorem firsts_cons (a : α) (l : List α) :
    firsts cls (a :: l) = a :: (firsts cls l).filter fun b => cls b ≠ cls a := rfl

theorem firsts_sublist (l : List α) : (firsts cls l).Sublist l := by
  induction l with
  | nil => exact List.Sublist.refl _
  | cons a l ih => exact (List.filter_sublist.trans ih).cons_cons a

/-- The first ones are of different classes. -/
theorem nodup_map_firsts (l : List α) : ((firsts cls l).map cls).Nodup := by
  induction l with
  | nil => exact List.nodup_nil
  | cons a l ih =>
      rw [firsts_cons, List.map_cons, List.nodup_cons]
      constructor
      · intro hmem
        obtain ⟨b, hb, hcls⟩ := List.mem_map.1 hmem
        have hne := (List.mem_filter.1 hb).2
        rw [decide_eq_true_eq] at hne
        exact hne hcls
      · exact ih.sublist (List.filter_sublist.map cls)

/-- Every class of the list has its first one. -/
theorem exists_mem_firsts {l : List α} {a : α} (ha : a ∈ l) :
    ∃ b ∈ firsts cls l, cls b = cls a := by
  induction l with
  | nil => exact absurd ha (by simp)
  | cons c l ih =>
      by_cases hc : cls a = cls c
      · exact ⟨c, List.mem_cons_self .., hc.symm⟩
      · rcases List.mem_cons.1 ha with rfl | ha
        · exact absurd rfl hc
        · obtain ⟨b, hb, hba⟩ := ih ha
          refine ⟨b, List.mem_cons_of_mem _ (List.mem_filter.2 ⟨hb, ?_⟩), hba⟩
          rw [decide_eq_true_eq, hba]
          exact hc

/-- Dropping whole classes drops their first ones. -/
theorem firsts_filter {p : α → Bool} (hp : ∀ a b, cls a = cls b → p a = p b) (l : List α) :
    firsts cls (l.filter p) = (firsts cls l).filter p := by
  induction l with
  | nil => rfl
  | cons a l ih =>
      rw [firsts_cons, List.filter_cons]
      by_cases ha : p a = true
      · rw [List.filter_cons_of_pos ha, if_pos ha, firsts_cons, ih, List.filter_filter,
          List.filter_filter]
        refine congrArg (a :: ·) (List.filter_congr fun b _ => ?_)
        exact Bool.and_comm ..
      · -- the class of `a` is dropped anyway
        rw [List.filter_cons_of_neg ha, if_neg ha, ih, List.filter_filter]
        refine List.filter_congr fun b _ => ?_
        by_cases hb : cls b = cls a
        · rw [hp b a hb, Bool.eq_false_iff.2 ha]
          rfl
        · simp [hb]

/-- The first ones of two lists: those of the first, and those of the second whose classes are
new. -/
theorem firsts_append (l l' : List α) : firsts cls (l ++ l') =
    firsts cls l ++ (firsts cls l').filter fun b => ∀ a ∈ l, cls b ≠ cls a := by
  induction l with
  | nil => simp
  | cons a l ih =>
      rw [List.cons_append, firsts_cons, ih, List.filter_append, firsts_cons, List.cons_append,
        List.filter_filter]
      refine congrArg (fun r => a :: (_ ++ r)) (List.filter_congr fun b _ => ?_)
      simp [Bool.decide_and]

/-- **The first one of all, and those that are left** when its class is dropped. -/
theorem firsts_filter_of_find? {p : α → Bool} {l : List α} {a : α} (ha : l.find? p = some a) :
    firsts cls (l.filter p) = a :: firsts cls (l.filter fun b => p b && cls b ≠ cls a) := by
  have hsplit : l.filter (fun b => p b && decide (cls b ≠ cls a)) =
      (l.filter p).filter fun b => decide (cls b ≠ cls a) := by
    rw [List.filter_filter]
    exact List.filter_congr fun b _ => Bool.and_comm ..
  obtain ⟨l', hl'⟩ : ∃ l', l.filter p = a :: l' := by
    induction l with
    | nil => exact absurd ha (by simp)
    | cons b l ih =>
        by_cases hb : p b = true
        · rw [List.find?_cons_of_pos hb] at ha
          obtain rfl := Option.some_inj.1 ha
          exact ⟨_, List.filter_cons_of_pos hb⟩
        · rw [List.find?_cons_of_neg hb] at ha
          rw [List.filter_cons_of_neg hb]
          refine ih ha ?_
          rw [List.filter_filter]
          exact List.filter_congr fun b _ => Bool.and_comm ..
  have hcls : ∀ b c : α, cls b = cls c → decide (cls b ≠ cls a) = decide (cls c ≠ cls a) :=
    fun b c hbc => by rw [hbc]
  rw [hsplit, hl', List.filter_cons_of_neg (by simp), firsts_filter hcls, firsts_cons]

end

/-! ### Restarts -/

/-- A handler of refused accesses: which accesses a state refuses, and how a fault is served. -/
structure Restart (σ α : Type) where
  blocked : σ → α → Bool
  serve : σ → α → Option σ

namespace Restart

variable {σ α : Type} (R : Restart σ α)

/-- An instruction with the accesses `accs`, started again after every fault that is served, at most
`fuel` times: its faults, and the state in which it completes. -/
def complete : ℕ → σ → List α → Option (List α × σ)
  | 0, s, accs => if (accs.find? (R.blocked s)).isNone then some ([], s) else none
  | fuel + 1, s, accs =>
      match accs.find? (R.blocked s) with
      | none => some ([], s)
      | some a => do
          let s ← R.serve s a
          let (faults, s) ← complete fuel s accs
          some (a :: faults, s)

variable {κ : Type} [DecidableEq κ]

/-- **Serving a fault opens the class of the access** and touches no other one, in the states that
meet `I`. -/
def Opens (cls : α → κ) (I : σ → Prop) : Prop :=
  ∀ s a s', I s → R.blocked s a = true → R.serve s a = some s' →
    I s' ∧ ∀ b, R.blocked s' b = (R.blocked s b && cls b ≠ cls a)

variable {R} {cls : α → κ} {I : σ → Prop}

/-- Nothing is refused when no refused access is found. -/
theorem filter_blocked_of_find?_eq_none {s : σ} {accs : List α}
    (h : accs.find? (R.blocked s) = none) : accs.filter (R.blocked s) = [] := by
  rw [List.filter_eq_nil_iff]
  exact List.find?_eq_none.1 h

/-- **The faults of an instruction** are the refused accesses that are the first ones of their
classes, in order, and it completes when these have been served.  As many restarts as there are
classes are enough. -/
theorem complete_eq (hR : R.Opens cls I) (fuel : ℕ) {s : σ} (hs : I s) {accs : List α}
    (hfuel : (firsts cls (accs.filter (R.blocked s))).length ≤ fuel) :
    R.complete fuel s accs = ((firsts cls (accs.filter (R.blocked s))).foldlM R.serve s).map
      fun s' => (firsts cls (accs.filter (R.blocked s)), s') := by
  induction fuel generalizing s with
  | zero =>
      have hnil := List.length_eq_zero_iff.1 (Nat.le_zero.1 hfuel)
      have hfind : accs.find? (R.blocked s) = none := by
        cases hf : accs.find? (R.blocked s) with
        | none => rfl
        | some a =>
            rw [firsts_filter_of_find? hf] at hnil
            exact absurd hnil (by simp)
      rw [complete, hfind, hnil]
      rfl
  | succ fuel ih =>
      rw [complete]
      cases hf : accs.find? (R.blocked s) with
      | none =>
          rw [filter_blocked_of_find?_eq_none hf]
          rfl
      | some a =>
          have ha : R.blocked s a = true := by simpa using List.find?_some hf
          rw [firsts_filter_of_find? hf] at hfuel ⊢
          rw [List.foldlM_cons]
          simp only [Option.bind_eq_bind]
          cases hserve : R.serve s a with
          | none => rfl
          | some s' =>
              obtain ⟨hs', hopen⟩ := hR s a s' hs ha hserve
              have hleft : accs.filter (fun b => R.blocked s b && decide (cls b ≠ cls a)) =
                  accs.filter (R.blocked s') :=
                List.filter_congr fun b _ => (hopen b).symm
              rw [hleft, List.length_cons] at hfuel
              have hrest := ih hs' (Nat.le_of_succ_le_succ hfuel)
              rw [hleft]
              rw [Option.bind_some, Option.bind_some, hrest]
              cases (firsts cls (accs.filter (R.blocked s'))).foldlM R.serve s' <;> rfl

end Restart

/-! ### Programs -/

section

variable {σ ι ε : Type}

/-- The instructions of a program one after the other, with the events of all of them. -/
def runTrace (step : σ → ι → Option (List ε × σ)) (s : σ) : List ι → Option (List ε × σ)
  | [] => some ([], s)
  | i :: is => do
      let (es, s) ← step s i
      let (es', s) ← runTrace step s is
      some (es ++ es', s)

variable {step : σ → ι → Option (List ε × σ)}

@[simp] theorem runTrace_nil (s : σ) : runTrace step s [] = some ([], s) := rfl

theorem runTrace_cons (s : σ) (i : ι) (is : List ι) :
    runTrace step s (i :: is) = (step s i).bind fun r =>
      (runTrace step r.2 is).map fun r' => (r.1 ++ r'.1, r'.2) := by
  rw [runTrace]
  cases step s i with
  | none => rfl
  | some r => exact (Option.map_eq_bind ..).symm

theorem runTrace_append (s : σ) (is is' : List ι) :
    runTrace step s (is ++ is') = (runTrace step s is).bind fun r =>
      (runTrace step r.2 is').map fun r' => (r.1 ++ r'.1, r'.2) := by
  induction is generalizing s with
  | nil =>
      rw [List.nil_append, runTrace_nil, Option.bind_some]
      cases runTrace step s is' <;> rfl
  | cons i is ih =>
      rw [List.cons_append, runTrace_cons, runTrace_cons]
      cases step s i with
      | none => rfl
      | some r =>
          rw [Option.bind_some, Option.bind_some, ih]
          cases runTrace step r.2 is with
          | none => rfl
          | some r₁ =>
              rw [Option.bind_some, Option.map_some, Option.bind_some]
              cases runTrace step r₁.2 is' with
              | none => rfl
              | some r₂ => simp

/-- A program that runs has a prefix that runs. -/
theorem exists_runTrace_of_append {s : σ} {is is' : List ι}
    (h : (runTrace step s (is ++ is')).isSome) : ∃ r, runTrace step s is = some r := by
  rw [runTrace_append] at h
  cases hr : runTrace step s is with
  | none => rw [hr] at h; exact absurd h (by simp)
  | some r => exact ⟨r, rfl⟩

end
