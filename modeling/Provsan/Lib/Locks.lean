/-
**Threads that take locks in order.**

Threads run programs that take and release mutexes around steps on shared data.  A mutex is not
recursive: a thread that asks for one waits until nobody holds it.  When every program takes its
mutexes in increasing order and releases them last in, first out, the threads cannot wait for each
other in a circle: in every state that an interleaving can reach, some thread that has not finished
can go on, and no thread asks for a mutex it holds.

Main definitions:

* `LockProg` — programs, `LockProg.eval` — what a program does on its own;
* `LockProg.WellLocked` — the discipline, for a program that holds some mutexes already;
* `LockState`, `LockStep` — the threads and who holds what, and the steps of one thread.

Main results:

* `LockState.Disciplined.step` — every step keeps the discipline of all threads;
* `LockState.Disciplined.exists_step`, `LockState.Disciplined.not_holds` — **no deadlock**;
* `LockStep.wellFounded` — finitely many threads cannot go on for ever;
* `LockState.Disciplined.eq_start_of_final` — **how a run ends**: in a failed assertion, or with
  every thread done and every mutex free.
-/

import Provsan.Lib.Run
import Mathlib.Logic.Function.Basic
import Mathlib.Order.WellFounded
import Mathlib.Order.RelClasses
import Mathlib.Data.DFinsupp.WellFounded

set_option relaxedAutoImplicit false
set_option autoImplicit false

/-! ### Programs -/

/-- A program over data `δ` and mutexes `μ`.  `act` is a step on the data, and what comes after it
may depend on what the data was; `abort` ends the whole process. -/
inductive LockProg (δ μ : Type)
  | done
  | abort
  | lock (m : μ) (rest : LockProg δ μ)
  | unlock (m : μ) (rest : LockProg δ μ)
  | act (f : δ → δ) (rest : δ → LockProg δ μ)

namespace LockProg

variable {δ μ : Type}

/-- A step that may fail an assertion. -/
def attempt (f : δ → Option δ) (rest : LockProg δ μ) : LockProg δ μ :=
  .act (fun d => (f d).getD d) fun d => if (f d).isSome then rest else .abort

/-- What a program makes of the data when nobody else runs; `none` when it aborts. -/
def eval : LockProg δ μ → δ → Option δ
  | done, d => some d
  | abort, _ => none
  | lock _ rest, d => rest.eval d
  | unlock _ rest, d => rest.eval d
  | act f rest, d => (rest d).eval (f d)

@[simp] theorem eval_done (d : δ) : (done : LockProg δ μ).eval d = some d := rfl

@[simp] theorem eval_lock (m : μ) (rest : LockProg δ μ) (d : δ) :
    (lock m rest).eval d = rest.eval d := rfl

@[simp] theorem eval_unlock (m : μ) (rest : LockProg δ μ) (d : δ) :
    (unlock m rest).eval d = rest.eval d := rfl

@[simp] theorem eval_act (f : δ → δ) (rest : δ → LockProg δ μ) (d : δ) :
    (act f rest).eval d = (rest d).eval (f d) := rfl

@[simp] theorem eval_attempt (f : δ → Option δ) (rest : LockProg δ μ) (d : δ) :
    (attempt f rest).eval d = (f d).bind rest.eval := by
  rw [attempt, eval_act]
  cases f d <;> rfl

variable [LinearOrder μ]

/-- **The discipline** of a program that holds the mutexes `held`, the latest first: it asks only
for mutexes above those it holds, releases the latest one, and holds none when it is done. -/
def WellLocked : List μ → LockProg δ μ → Prop
  | held, done => held = []
  | _, abort => True
  | held, lock m rest => (∀ l ∈ held, l < m) ∧ WellLocked (m :: held) rest
  | held, unlock m rest => ∃ held', held = m :: held' ∧ WellLocked held' rest
  | held, act _ rest => ∀ d, WellLocked held (rest d)

theorem WellLocked.attempt {held : List μ} {f : δ → Option δ} {rest : LockProg δ μ}
    (h : WellLocked held rest) : WellLocked held (attempt f rest) := by
  intro d
  dsimp only
  split_ifs
  · exact h
  · trivial

end LockProg

/-! ### Threads -/

/-- The data, who holds each mutex, what every thread has left to do, and whether the process has
ended in a failed assertion. -/
structure LockState (δ μ ι : Type) where
  data : δ
  holder : μ → Option ι
  prog : ι → LockProg δ μ
  ended : Bool

/-- The steps of the threads. -/
inductive LockStep {δ μ ι : Type} [DecidableEq μ] [DecidableEq ι] :
    LockState δ μ ι → ι → LockState δ μ ι → Prop
  | lock {S : LockState δ μ ι} {i : ι} {m : μ} {rest : LockProg δ μ} (hrun : S.ended = false)
      (hprog : S.prog i = .lock m rest) (hfree : S.holder m = none) :
      LockStep S i { S with
        holder := Function.update S.holder m (some i)
        prog := Function.update S.prog i rest }
  | unlock {S : LockState δ μ ι} {i : ι} {m : μ} {rest : LockProg δ μ} (hrun : S.ended = false)
      (hprog : S.prog i = .unlock m rest) :
      LockStep S i { S with
        holder := Function.update S.holder m none
        prog := Function.update S.prog i rest }
  | act {S : LockState δ μ ι} {i : ι} {f : δ → δ} {rest : δ → LockProg δ μ}
      (hrun : S.ended = false) (hprog : S.prog i = .act f rest) :
      LockStep S i { S with
        data := f S.data
        prog := Function.update S.prog i (rest S.data) }
  | abort {S : LockState δ μ ι} {i : ι} (hrun : S.ended = false) (hprog : S.prog i = .abort) :
      LockStep S i { S with ended := true }

/-- Only a running process makes steps. -/
theorem LockStep.running {δ μ ι : Type} [DecidableEq μ] [DecidableEq ι] {S S' : LockState δ μ ι}
    {i : ι} (h : LockStep S i S') : S.ended = false := by
  cases h <;> assumption

namespace LockState

variable {δ μ ι : Type}

/-- All mutexes are free. -/
def start (d : δ) (prog : ι → LockProg δ μ) : LockState δ μ ι := ⟨d, fun _ => none, prog, false⟩

/-- A thread of a running process that is not done. -/
def Unfinished (S : LockState δ μ ι) (i : ι) : Prop := S.ended = false ∧ S.prog i ≠ .done

/-- The next step of the thread is to take the mutex. -/
def Requests (S : LockState δ μ ι) (i : ι) (m : μ) : Prop := ∃ rest, S.prog i = .lock m rest

variable [LinearOrder μ]

/-- **The invariant**: every thread keeps the discipline with the mutexes it holds. -/
def Disciplined (S : LockState δ μ ι) : Prop :=
  ∀ i, ∃ held : List μ, (S.prog i).WellLocked held ∧ held.Pairwise (· > ·) ∧
    ∀ m, S.holder m = some i ↔ m ∈ held

theorem disciplined_start {d : δ} {prog : ι → LockProg δ μ}
    (h : ∀ i, (prog i).WellLocked []) : (start d prog).Disciplined :=
  fun i => ⟨[], h i, List.Pairwise.nil, fun m => by simp [start]⟩

namespace Disciplined

variable {S S' : LockState δ μ ι}

/-- **No thread asks for a mutex it holds.** -/
theorem not_holds (hS : S.Disciplined) {i : ι} {m : μ} (hreq : S.Requests i m) :
    S.holder m ≠ some i := by
  obtain ⟨rest, hprog⟩ := hreq
  obtain ⟨held, hwell, -, hheld⟩ := hS i
  rw [hprog] at hwell
  exact fun hown => lt_irrefl m (hwell.1 m ((hheld m).1 hown))

variable [DecidableEq ι]

/-- **Every step keeps the discipline of all threads.** -/
theorem step {i : ι} (hS : S.Disciplined) (hstep : LockStep S i S') : S'.Disciplined := by
  obtain ⟨held, hwell, hsorted, hheld⟩ := hS i
  -- the other threads have the programs and the mutexes they had
  have hothers : ∀ {holder : μ → Option ι} {p : LockProg δ μ} {d : δ}, (∀ j ≠ i, ∀ m,
      holder m = some j ↔ S.holder m = some j) → (∃ held', p.WellLocked held' ∧
        held'.Pairwise (· > ·) ∧ ∀ m, holder m = some i ↔ m ∈ held') →
      Disciplined ⟨d, holder, Function.update S.prog i p, S.ended⟩ := by
    intro holder p d hsame hnew j
    by_cases hj : j = i
    · subst hj
      obtain ⟨held', hw', hs', hh'⟩ := hnew
      exact ⟨held', by simpa using hw', hs', hh'⟩
    · obtain ⟨heldj, hwj, hsj, hhj⟩ := hS j
      refine ⟨heldj, by simpa [hj] using hwj, hsj, fun m => ?_⟩
      rw [← hhj m]
      exact hsame j hj m
  cases hstep with
  | @lock m rest hrun hprog hfree =>
      rw [hprog] at hwell
      refine hothers (fun j hj l => ?_) ⟨m :: held, hwell.2, ?_, fun l => ?_⟩
      · by_cases hl : l = m
        · subst hl
          simp [hfree, Ne.symm hj]
        · rw [Function.update_of_ne hl]
      · exact List.pairwise_cons.2 ⟨hwell.1, hsorted⟩
      · by_cases hl : l = m
        · simp [hl]
        · rw [Function.update_of_ne hl, hheld, List.mem_cons]
          simp [hl]
  | @unlock m rest hrun hprog =>
      rw [hprog] at hwell
      obtain ⟨held', rfl, hwell'⟩ := hwell
      obtain ⟨habove, hsorted'⟩ := List.pairwise_cons.1 hsorted
      have hown : S.holder m = some i := (hheld m).2 (List.mem_cons_self ..)
      refine hothers (fun j hj l => ?_) ⟨held', hwell', hsorted', fun l => ?_⟩
      · by_cases hl : l = m
        · subst hl
          simp [hown, Ne.symm hj]
        · rw [Function.update_of_ne hl]
      · by_cases hl : l = m
        · subst hl
          have hnot : l ∉ held' := fun hmem => lt_irrefl l (habove l hmem)
          simp [hnot]
        · rw [Function.update_of_ne hl, hheld, List.mem_cons]
          simp [hl]
  | @act f rest hrun hprog =>
      rw [hprog] at hwell
      exact hothers (fun _ _ _ => Iff.rfl) ⟨held, hwell S.data, hsorted, hheld⟩
  | abort hrun hprog => exact hS

/-- A thread that is not done can go on, or waits for a mutex that another one holds. -/
theorem exists_step_or_waits {i : ι} (hun : S.Unfinished i) :
    (∃ S', LockStep S i S') ∨ ∃ m j, S.Requests i m ∧ S.holder m = some j := by
  obtain ⟨hrun, hne⟩ := hun
  cases hprog : S.prog i with
  | done => exact absurd hprog hne
  | abort => exact Or.inl ⟨_, LockStep.abort hrun hprog⟩
  | lock m rest =>
      cases hfree : S.holder m with
      | none => exact Or.inl ⟨_, LockStep.lock hrun hprog hfree⟩
      | some j => exact Or.inr ⟨m, j, ⟨rest, hprog⟩, hfree⟩
  | unlock m rest => exact Or.inl ⟨_, LockStep.unlock hrun hprog⟩
  | act f rest => exact Or.inl ⟨_, LockStep.act hrun hprog⟩

/-- Who holds a mutex is not done, and waits for higher ones only. -/
theorem exists_step_of_holder [WellFoundedGT μ] (hS : S.Disciplined) (hrun : S.ended = false)
    (m : μ) : ∀ i, S.holder m = some i → ∃ j S', LockStep S j S' := by
  induction m using WellFoundedGT.induction with
  | _ m ih =>
      intro i hown
      obtain ⟨held, hwell, -, hheld⟩ := hS i
      have hmem : m ∈ held := (hheld m).1 hown
      have hun : S.Unfinished i := by
        refine ⟨hrun, fun hdone => ?_⟩
        rw [hdone] at hwell
        obtain rfl : held = [] := hwell
        exact absurd hmem (by simp)
      rcases exists_step_or_waits hun with ⟨S', hstep⟩ | ⟨l, j, ⟨rest, hprog⟩, hl⟩
      · exact ⟨i, S', hstep⟩
      · rw [hprog] at hwell
        exact ih l (hwell.1 m hmem) j hl

/-- **As long as a thread has not finished, some thread can go on.** -/
theorem exists_step [WellFoundedGT μ] (hS : S.Disciplined) {i : ι} (hun : S.Unfinished i) :
    ∃ j S', LockStep S j S' := by
  rcases exists_step_or_waits hun with ⟨S', hstep⟩ | ⟨m, j, -, hown⟩
  · exact ⟨i, S', hstep⟩
  · exact hS.exists_step_of_holder hun.1 m j hown

/-- The discipline holds in every state that an interleaving can reach. -/
theorem run {d : δ} {prog : ι → LockProg δ μ} (h : ∀ i, (prog i).WellLocked []) {is : List ι}
    (hrun : Run LockStep (start d prog) is S) : S.Disciplined :=
  hrun.invariant (disciplined_start h) fun _ _ _ hS hstep => hS.step hstep

/-- **How a run ends**, when no thread can go on: the process has ended, or every thread is done and
every mutex is free. -/
theorem eq_start_of_final [WellFoundedGT μ] (hS : S.Disciplined)
    (hfinal : ∀ i S', ¬ LockStep S i S') : S.ended = true ∨ S = start S.data fun _ => .done := by
  cases hrun : S.ended with
  | true => exact Or.inl rfl
  | false =>
      have hdone : ∀ i, S.prog i = .done := by
        intro i
        by_contra hne
        obtain ⟨j, S', hstep⟩ := hS.exists_step ⟨hrun, hne⟩
        exact hfinal j S' hstep
      have hfree : ∀ m, S.holder m = none := by
        intro m
        cases hown : S.holder m with
        | none => rfl
        | some i =>
            obtain ⟨held, hwell, -, hheld⟩ := hS i
            rw [hdone i] at hwell
            obtain rfl : held = [] := hwell
            exact absurd ((hheld m).1 hown) (by simp)
      obtain ⟨d, holder, prog, ended⟩ := S
      obtain rfl : prog = fun _ => .done := funext hdone
      obtain rfl : holder = fun _ => none := funext hfree
      obtain rfl : ended = false := hrun
      exact Or.inr rfl

end Disciplined

end LockState

/-! ### Every run ends -/

/-- What can come next in a program. -/
inductive LockProg.Next {δ μ : Type} : LockProg δ μ → LockProg δ μ → Prop
  | lock (m : μ) (rest : LockProg δ μ) : Next rest (.lock m rest)
  | unlock (m : μ) (rest : LockProg δ μ) : Next rest (.unlock m rest)
  | act (f : δ → δ) (rest : δ → LockProg δ μ) (d : δ) : Next (rest d) (.act f rest)

theorem LockProg.Next.wellFounded {δ μ : Type} :
    WellFounded (LockProg.Next : LockProg δ μ → LockProg δ μ → Prop) := by
  refine ⟨fun p => ?_⟩
  induction p with
  | done | abort => exact ⟨_, fun q hq => nomatch hq⟩
  | lock m rest ih | unlock m rest ih =>
      refine ⟨_, fun q hq => ?_⟩
      cases hq
      exact ih
  | act f rest ih =>
      refine ⟨_, fun q hq => ?_⟩
      cases hq
      exact ih _

section

variable {δ μ ι : Type} [DecidableEq μ] [DecidableEq ι]

/-- **Finitely many threads cannot go on for ever**: every step brings one thread on in its program,
but for a failed assertion, which is the last one. -/
theorem LockStep.wellFounded [Finite ι] :
    WellFounded fun S' S : LockState δ μ ι => ∃ i, LockStep S i S' := by
  have hwf := @Pi.Lex.wellFounded ι (fun _ => LockProg δ μ) WellOrderingRel
    (fun {_} => LockProg.Next) _ _ fun _ => LockProg.Next.wellFounded
  have hacc : ∀ prog (S : LockState δ μ ι), S.prog = prog →
      Acc (fun S' S : LockState δ μ ι => ∃ i, LockStep S i S') S := by
    intro prog
    induction prog using hwf.induction with
    | _ prog ih =>
        rintro S rfl
        have hnext : ∀ {S' : LockState δ μ ι} (i : ι) {q : LockProg δ μ}, q.Next (S.prog i) →
            S'.prog = Function.update S.prog i q →
              Acc (fun S' S : LockState δ μ ι => ∃ i, LockStep S i S') S' := by
          intro S' i q hq hS'
          refine ih _ ⟨i, fun j hj => Function.update_of_ne ?_ .., ?_⟩ S' hS'
          · rintro rfl
            exact irrefl_of WellOrderingRel j hj
          · rwa [Function.update_self]
        refine ⟨_, ?_⟩
        rintro S' ⟨i, hstep⟩
        cases hstep with
        | lock hrun hprog hfree => exact hnext i (hprog ▸ .lock _ _) rfl
        | unlock hrun hprog => exact hnext i (hprog ▸ .unlock _ _) rfl
        | @act f rest hrun hprog => exact hnext i (hprog ▸ .act _ _ S.data) rfl
        | abort hrun hprog =>
            refine ⟨_, ?_⟩
            rintro S'' ⟨j, hstep⟩
            exact absurd hstep.running (by simp)
  exact ⟨fun S => hacc S.prog S rfl⟩

end
