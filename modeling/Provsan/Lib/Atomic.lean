/-
**Critical sections are atomic.**

Every mutex guards a part of the data, and a program touches a part only while it holds the mutex of
it.  When a program, once it has released a mutex, takes no other before it has released all, the
threads cannot tell whether others act in the middle of what they do under their mutexes: whatever
an interleaving of single steps leaves when no mutex is held, an interleaving of whole critical
sections leaves as well, and the other way round.

The machine without interruptions follows the one with mutexes.  A thread that still takes mutexes
has not begun there, and it begins and ends at once with the first release.  Until then what the
thread has made of its parts is what it would make of them on its own.

Main definitions:

* `Parts`, `Parts.Local` — the parts of the data, and steps that touch some parts only;
* `LockProg.TwoPhase` — the discipline of a program;
* `Section`, `AtomicState`, `AtomicStep` — critical sections, and the machine without interruptions;
* `Stands`, `Tracked` — the relation between the two machines.

Main results:

* `Tracked.step` — the machine without interruptions follows;
* `Section.exists_run` — it can be followed;
* `exists_run_iff` — **both machines leave the same** when no mutex is held.
-/

import Provsan.Lib.Locks

set_option relaxedAutoImplicit false
set_option autoImplicit false

/-! ### Parts of the data -/

/-- The data in parts: one for each mutex, and one that nobody changes. -/
structure Parts (δ μ : Type) where
  γ : Option μ → Type
  part : ∀ o, δ → γ o
  ext : ∀ d d', (∀ o, part o d = part o d') → d = d'

namespace Parts

variable {δ μ : Type} (P : Parts δ μ)

/-- The data agree on the parts of some mutexes, and on what nobody changes. -/
def AgreeOn (H : List μ) (d d' : δ) : Prop :=
  P.part none d = P.part none d' ∧ ∀ m ∈ H, P.part (some m) d = P.part (some m) d'

/-- The data agree on the other parts. -/
def AgreeOff (H : List μ) (d d' : δ) : Prop :=
  P.part none d = P.part none d' ∧ ∀ m ∉ H, P.part (some m) d = P.part (some m) d'

/-- A step that touches the parts of some mutexes only, as does the choice of what comes after. -/
structure Local (H : List μ) (f : δ → δ) (rest : δ → LockProg δ μ) : Prop where
  inside : ∀ d d', P.AgreeOn H d d' → P.AgreeOn H (f d) (f d') ∧ rest d = rest d'
  outside : ∀ d, P.AgreeOff H (f d) d

variable {P} {H H' : List μ} {d d' d'' : δ}

namespace AgreeOn

theorem refl (H : List μ) (d : δ) : P.AgreeOn H d d := ⟨rfl, fun _ _ => rfl⟩

theorem symm (h : P.AgreeOn H d d') : P.AgreeOn H d' d := ⟨h.1.symm, fun m hm => (h.2 m hm).symm⟩

theorem trans (h : P.AgreeOn H d d') (h' : P.AgreeOn H d' d'') : P.AgreeOn H d d'' :=
  ⟨h.1.trans h'.1, fun m hm => (h.2 m hm).trans (h'.2 m hm)⟩

theorem mono (h : P.AgreeOn H d d') (hsub : H' ⊆ H) : P.AgreeOn H' d d' :=
  ⟨h.1, fun m hm => h.2 m (hsub hm)⟩

end AgreeOn

namespace AgreeOff

theorem refl (H : List μ) (d : δ) : P.AgreeOff H d d := ⟨rfl, fun _ _ => rfl⟩

theorem symm (h : P.AgreeOff H d d') : P.AgreeOff H d' d :=
  ⟨h.1.symm, fun m hm => (h.2 m hm).symm⟩

theorem trans (h : P.AgreeOff H d d') (h' : P.AgreeOff H d' d'') : P.AgreeOff H d d'' :=
  ⟨h.1.trans h'.1, fun m hm => (h.2 m hm).trans (h'.2 m hm)⟩

/-- What agrees off some mutexes agrees on the parts of the others. -/
theorem agreeOn (h : P.AgreeOff H d d') (hdisj : ∀ m ∈ H', m ∉ H) : P.AgreeOn H' d d' :=
  ⟨h.1, fun m hm => h.2 m (hdisj m hm)⟩

end AgreeOff

end Parts

/-! ### Programs in two phases -/

namespace LockProg

variable {δ μ : Type}

/-- **The discipline** of a program that holds the mutexes `held`, the latest first: while it holds
some, it touches their parts only; once it has released one, it does nothing but release the others,
last in, first out. -/
def TwoPhase (P : Parts δ μ) : Bool → List μ → LockProg δ μ → Prop
  | _, held, done => held = []
  | growing, held, abort => held = [] ∨ growing = true
  | growing, held, lock m rest =>
      (held = [] ∨ growing = true) ∧ m ∉ held ∧ TwoPhase P true (m :: held) rest
  | _, held, unlock m rest => ∃ held', held = m :: held' ∧ TwoPhase P false held' rest
  | growing, held, act f rest => (held = [] ∨ growing = true) ∧ P.Local held f rest ∧
      ∀ d, TwoPhase P growing held (rest d)

/-- What comes after the mutexes have been released. -/
def released : List μ → LockProg δ μ → LockProg δ μ
  | [], p => p
  | _ :: held, unlock _ rest => released held rest
  | _ :: _, p => p

variable {P : Parts δ μ}

/-- A step that may fail an assertion about what nobody changes. -/
theorem TwoPhase.attempt {growing : Bool} {held : List μ} {f : δ → Option δ} {g : δ → δ}
    {rest : LockProg δ μ} {c : P.γ none → Bool} (h : TwoPhase P growing held rest)
    (hphase : held = [] ∨ growing = true) (hg : P.Local held g fun _ => rest)
    (hf : ∀ d, f d = if c (P.part none d) then some (g d) else none) :
    TwoPhase P growing held (attempt f rest) := by
  refine ⟨hphase, ⟨fun d d' hd => ?_, fun d => ?_⟩, fun d => ?_⟩
  · rw [hf, hf, hd.1]
    cases c (P.part none d') with
    | false => exact ⟨hd, rfl⟩
    | true => exact ⟨(hg.inside d d' hd).1, rfl⟩
  · rw [hf]
    cases c (P.part none d) with
    | false => exact .refl held d
    | true => exact hg.outside d
  · dsimp only
    split_ifs
    · exact h
    · exact hphase

/-- In the second phase there is nothing but releases. -/
theorem TwoPhase.exists_unlock {m : μ} {held : List μ} {p : LockProg δ μ}
    (h : TwoPhase P false (m :: held) p) : ∃ rest, p = unlock m rest ∧
      TwoPhase P false held rest := by
  cases p with
  | done => exact absurd h (by simp [TwoPhase])
  | abort => exact absurd h (by simp [TwoPhase])
  | lock m' rest => exact absurd h.1 (by simp)
  | act f rest => exact absurd h.1 (by simp)
  | unlock m' rest =>
      obtain ⟨held', heq, hrest⟩ := h
      obtain ⟨rfl, rfl⟩ := List.cons.inj heq
      exact ⟨rest, rfl, hrest⟩

/-- Outside the critical sections the phase does not matter. -/
theorem TwoPhase.of_nil {growing : Bool} {p : LockProg δ μ} (h : TwoPhase P growing [] p)
    (growing' : Bool) : TwoPhase P growing' [] p := by
  induction p generalizing growing growing' with
  | done => rfl
  | abort => exact Or.inl rfl
  | lock m rest _ => exact ⟨Or.inl rfl, h.2⟩
  | unlock m rest _ =>
      obtain ⟨held', heq, -⟩ := h
      exact absurd heq (by simp)
  | act f rest ih => exact ⟨Or.inl rfl, h.2.1, fun d => ih d (h.2.2 d) growing'⟩

end LockProg

/-! ### Critical sections -/

/-- What a thread does from where it takes its first mutex, as long as it holds one, with nobody in
between: `Section p d q held x` says that it leads from the program `p` and the data `d` to `q` and
`x`, where it holds the mutexes `held`. -/
inductive Section {δ μ : Type} : LockProg δ μ → δ → LockProg δ μ → List μ → δ → Prop
  | enter {m : μ} {rest : LockProg δ μ} {d : δ} : Section (.lock m rest) d rest [m] d
  | lock {p rest : LockProg δ μ} {d x : δ} {m : μ} {held : List μ} :
      Section p d (.lock m rest) held x → held ≠ [] → Section p d rest (m :: held) x
  | unlock {p rest : LockProg δ μ} {d x : δ} {m : μ} {held : List μ} :
      Section p d (.unlock m rest) (m :: held) x → Section p d rest held x
  | act {p : LockProg δ μ} {d x : δ} {f : δ → δ} {rest : δ → LockProg δ μ} {held : List μ} :
      Section p d (.act f rest) held x → held ≠ [] → Section p d (rest x) held (f x)

/-- The data, and what every thread has left to do. -/
structure AtomicState (δ μ ι : Type) where
  data : δ
  prog : ι → LockProg δ μ

/-- **The machine without interruptions**: a thread runs a whole critical section, or a step outside
of them. -/
inductive AtomicStep {δ μ ι : Type} [DecidableEq ι] :
    AtomicState δ μ ι → ι → AtomicState δ μ ι → Prop
  | critical {A : AtomicState δ μ ι} {i : ι} {p : LockProg δ μ} {x : δ} :
      Section (A.prog i) A.data p [] x → AtomicStep A i ⟨x, Function.update A.prog i p⟩
  | act {A : AtomicState δ μ ι} {i : ι} {f : δ → δ} {rest : δ → LockProg δ μ} :
      A.prog i = .act f rest →
        AtomicStep A i ⟨f A.data, Function.update A.prog i (rest A.data)⟩

section

variable {δ μ : Type} {P : Parts δ μ}

/-- A critical section before its first release. -/
inductive Grown (P : Parts δ μ) (p : LockProg δ μ) (d : δ) : LockProg δ μ → List μ → δ → Prop
  | enter {m : μ} {rest : LockProg δ μ} : p = .lock m rest → Grown P p d rest [m] d
  | lock {m : μ} {rest : LockProg δ μ} {held : List μ} {x : δ} :
      Grown P p d (.lock m rest) held x → m ∉ held → Grown P p d rest (m :: held) x
  | act {f : δ → δ} {rest : δ → LockProg δ μ} {held : List μ} {x : δ} :
      Grown P p d (.act f rest) held x → P.Local held f rest → Grown P p d (rest x) held (f x)

namespace Grown

variable {p q : LockProg δ μ} {d d' x : δ} {held : List μ}

theorem ne_nil (h : Grown P p d q held x) : held ≠ [] := by
  induction h with
  | enter | lock => simp
  | act _ _ ih => exact ih

/-- It is a critical section. -/
theorem to_section (h : Grown P p d q held x) : Section p d q held x := by
  induction h with
  | enter hp => exact hp ▸ .enter
  | lock hgrown _ ih => exact ih.lock hgrown.ne_nil
  | act hgrown _ ih => exact ih.act hgrown.ne_nil

/-- The parts of the other mutexes are as they were. -/
theorem agreeOff (h : Grown P p d q held x) : P.AgreeOff held x d := by
  induction h with
  | enter => exact .refl _ _
  | lock _ _ ih => exact ⟨ih.1, fun l hl => ih.2 l fun hmem => hl (List.mem_cons_of_mem _ hmem)⟩
  | act _ hlocal ih => exact (hlocal.outside _).trans ih

/-- **Other data make no difference**, as long as they agree on the parts of the mutexes. -/
theorem congr (h : Grown P p d q held x) (hd : P.AgreeOn held d d') :
    ∃ x', Grown P p d' q held x' ∧ P.AgreeOn held x x' := by
  induction h with
  | enter hp => exact ⟨d', .enter hp, hd⟩
  | @lock m rest held x hgrown hm ih =>
      obtain ⟨x', hgrown', hx⟩ := ih (hd.mono (List.subset_cons_self m held))
      refine ⟨x', hgrown'.lock hm, hx.1, fun l hl => ?_⟩
      rcases List.mem_cons.1 hl with rfl | hl
      · rw [hgrown.agreeOff.2 l hm, hgrown'.agreeOff.2 l hm]
        exact hd.2 l (List.mem_cons_self ..)
      · exact hx.2 l hl
  | act hgrown hlocal ih =>
      obtain ⟨x', hgrown', hx⟩ := ih hd
      obtain ⟨hf, hrest⟩ := hlocal.inside _ _ hx
      rw [hrest]
      exact ⟨_, hgrown'.act hlocal, hf⟩

end Grown

/-- A critical section begins with a mutex taken. -/
theorem Section.exists_lock {p q : LockProg δ μ} {d x : δ} {held : List μ}
    (h : Section p d q held x) : ∃ m rest, p = .lock m rest := by
  induction h with
  | enter => exact ⟨_, _, rfl⟩
  | lock _ _ ih | unlock _ ih | act _ _ ih => exact ih

/-- The releases at the end of a critical section. -/
theorem Section.released {p q : LockProg δ μ} {d x : δ} {held : List μ}
    (h : Section p d q held x) (hq : q.TwoPhase P false held) :
    Section p d (q.released held) [] x := by
  induction held generalizing q with
  | nil => exact h
  | cons m held ih =>
      obtain ⟨rest, rfl, hrest⟩ := hq.exists_unlock
      exact ih h.unlock hrest

/-! ### The machine without interruptions follows -/

/-- **Where a thread stands**, for the data `d` of the machine with mutexes and the data `a` of the
machine without interruptions: outside, where both have the same program; in the first phase of a
critical section, which the latter has not begun; or in its second phase, which is over there. -/
inductive Stands (P : Parts δ μ) (d a : δ) : LockProg δ μ → List μ → LockProg δ μ → Prop
  | outside {p : LockProg δ μ} : p.TwoPhase P false [] → Stands P d a p [] p
  | growing {p q : LockProg δ μ} {held : List μ} {x : δ} : Grown P q a p held x →
      p.TwoPhase P true held → P.AgreeOn held x d → Stands P d a p held q
  | shrinking {p : LockProg δ μ} {held : List μ} : held ≠ [] → p.TwoPhase P false held →
      P.AgreeOn held d a → Stands P d a p held (p.released held)

/-- Where a thread stands does not depend on the parts of other mutexes. -/
theorem Stands.frame {d d' a a' : δ} {p q : LockProg δ μ} {held : List μ}
    (h : Stands P d a p held q) (hd : P.AgreeOn held d d') (ha : P.AgreeOn held a a') :
    Stands P d' a' p held q := by
  cases h with
  | outside hp => exact .outside hp
  | growing hgrown hp hx =>
      obtain ⟨x', hgrown', hx'⟩ := hgrown.congr ha
      exact .growing hgrown' hp ((hx'.symm.trans hx).trans hd)
  | shrinking hne hp hda => exact .shrinking hne hp ((hd.symm.trans hda).trans ha)

/-- After a release the thread is in the second phase, or outside. -/
theorem Stands.of_released {d a : δ} {p : LockProg δ μ} {held : List μ}
    (hp : p.TwoPhase P false held) (hda : P.AgreeOn held d a) :
    Stands P d a p held (p.released held) := by
  cases held with
  | nil => exact .outside hp
  | cons m held => exact .shrinking (by simp) hp hda

/-- Without a mutex the thread is outside. -/
theorem Stands.eq_of_nil {d a : δ} {p q : LockProg δ μ} (h : Stands P d a p [] q) : q = p := by
  cases h with
  | outside => rfl
  | growing hgrown => exact absurd rfl hgrown.ne_nil
  | shrinking hne => exact absurd rfl hne

/-- With a mutex taken the thread is in the first phase. -/
theorem Stands.lock {d a : δ} {m : μ} {rest q : LockProg δ μ} {held : List μ}
    (h : Stands P d a (.lock m rest) held q) (hnone : P.part none a = P.part none d)
    (hm : P.part (some m) a = P.part (some m) d) : Stands P d a rest (m :: held) q := by
  cases h with
  | outside hp =>
      exact .growing (.enter rfl) hp.2.2 ⟨hnone, fun l hl => List.mem_singleton.1 hl ▸ hm⟩
  | growing hgrown hp hx =>
      refine .growing (hgrown.lock hp.2.1) hp.2.2 ⟨hx.1, fun l hl => ?_⟩
      rcases List.mem_cons.1 hl with rfl | hl
      · exact (hgrown.agreeOff.2 l hp.2.1).trans hm
      · exact hx.2 l hl
  | shrinking hne hp _ => exact absurd (hp.1.resolve_left hne) (by simp)

/-- **With a release the critical section is over**: it was already, or it is run now. -/
theorem Stands.unlock {d a : δ} {m : μ} {rest q : LockProg δ μ} {held : List μ}
    (h : Stands P d a (.unlock m rest) held q) : ∃ held' a' q', held = m :: held' ∧
      (a' = a ∧ q' = q ∨ Section q a q' [] a') ∧ P.AgreeOff held a a' ∧ P.AgreeOn held d a' ∧
        Stands P d a' rest held' q' := by
  cases h with
  | outside hp =>
      obtain ⟨held', heq, -⟩ := hp
      exact absurd heq (by simp)
  | @growing _ _ x hgrown hp hx =>
      obtain ⟨held', rfl, hrest⟩ := hp
      exact ⟨held', x, rest.released held', rfl, Or.inr (hgrown.to_section.unlock.released hrest),
        hgrown.agreeOff.symm, hx.symm,
        .of_released hrest (hx.symm.mono (List.subset_cons_self m held'))⟩
  | shrinking hne hp hda =>
      obtain ⟨held', rfl, hrest⟩ := hp
      exact ⟨held', a, rest.released held', rfl, Or.inl ⟨rfl, rfl⟩, .refl _ a, hda,
        .of_released hrest (hda.mono (List.subset_cons_self m held'))⟩

/-- **A step on the data** is one of the machine without interruptions, outside of critical
sections, and waits for the release in their first phase. -/
theorem Stands.act {d a : δ} {f : δ → δ} {rest : δ → LockProg δ μ} {q : LockProg δ μ}
    {held : List μ} (h : Stands P d a (.act f rest) held q)
    (hnone : P.part none a = P.part none d) : ∃ a' q',
      (a' = a ∧ q' = q ∨ q = .act f rest ∧ a' = f a ∧ q' = rest a) ∧ P.AgreeOff held d (f d) ∧
        P.AgreeOff held a a' ∧ Stands P (f d) a' (rest d) held q' := by
  cases h with
  | outside hp =>
      obtain ⟨-, hlocal, hrest⟩ := hp
      have hsame : rest a = rest d :=
        (hlocal.inside a d ⟨hnone, fun m hm => absurd hm (by simp)⟩).2
      refine ⟨f a, rest a, Or.inr ⟨rfl, rfl, rfl⟩, (hlocal.outside d).symm,
        (hlocal.outside a).symm, ?_⟩
      rw [hsame]
      exact .outside (hrest d)
  | growing hgrown hp hx =>
      obtain ⟨-, hlocal, hrest⟩ := hp
      obtain ⟨hf, hsame⟩ := hlocal.inside _ _ hx
      exact ⟨a, q, Or.inl ⟨rfl, rfl⟩, (hlocal.outside d).symm, .refl _ a,
        .growing (hsame ▸ hgrown.act hlocal) (hrest d) hf⟩
  | shrinking hne hp _ => exact absurd (hp.1.resolve_left hne) (by simp)

variable {ι : Type}

/-- **The relation between the two machines.** -/
structure Tracked (P : Parts δ μ) (S : LockState δ μ ι) (A : AtomicState δ μ ι) : Prop where
  fixed : P.part none S.data = P.part none A.data
  free : ∀ m, S.holder m = none → P.part (some m) S.data = P.part (some m) A.data
  stands : ∀ i, ∃ held : List μ, Stands P S.data A.data (S.prog i) held (A.prog i) ∧ held.Nodup ∧
    ∀ m, S.holder m = some i ↔ m ∈ held

namespace Tracked

variable {S S' : LockState δ μ ι} {A : AtomicState δ μ ι}

theorem start {d : δ} {prog : ι → LockProg δ μ} (h : ∀ i, (prog i).TwoPhase P false []) :
    Tracked P (.start d prog) ⟨d, prog⟩ where
  fixed := rfl
  free _ _ := rfl
  stands i := ⟨[], .outside (h i), List.nodup_nil, fun m => by simp [LockState.start]⟩

/-- When no mutex is held, both machines are in the same state. -/
theorem eq_of_start {d : δ} {prog : ι → LockProg δ μ} (hT : Tracked P (.start d prog) A) :
    A = ⟨d, prog⟩ := by
  obtain ⟨a, q⟩ := A
  have hdata : a = d := P.ext a d fun o => by
    cases o with
    | none => exact hT.fixed.symm
    | some m => exact (hT.free m rfl).symm
  have hprog : q = prog := funext fun i => by
    obtain ⟨held, hstands, -, hheld⟩ := hT.stands i
    have hnil : held = [] :=
      List.eq_nil_iff_forall_not_mem.2 fun m hm => by simpa [LockState.start] using (hheld m).2 hm
    exact Stands.eq_of_nil (hnil ▸ hstands)
  rw [hdata, hprog]

variable [DecidableEq ι]

/-- One thread moves, and touches the parts of its mutexes only. -/
theorem move (hT : Tracked P S A) {i : ι} {held held' : List μ} {d' a' : δ}
    {holder' : μ → Option ι} {p' q' : LockProg δ μ}
    (hheld : ∀ m, S.holder m = some i ↔ m ∈ held) (hd : P.AgreeOff held S.data d')
    (ha : P.AgreeOff held A.data a') (hsame : ∀ j ≠ i, ∀ m, holder' m = some j ↔
      S.holder m = some j) (hfree : ∀ m, holder' m = none → P.part (some m) d' = P.part (some m) a')
    (hstands : Stands P d' a' p' held' q') (hnodup : held'.Nodup)
    (hheld' : ∀ m, holder' m = some i ↔ m ∈ held') :
    Tracked P ⟨d', holder', Function.update S.prog i p', S.ended⟩
      ⟨a', Function.update A.prog i q'⟩ where
  fixed := (hd.1.symm.trans hT.fixed).trans ha.1
  free := hfree
  stands := by
    intro j
    by_cases hj : j = i
    · subst hj
      exact ⟨held', by simpa using hstands, hnodup, hheld'⟩
    · obtain ⟨heldj, hstandsj, hnodupj, hheldj⟩ := hT.stands j
      -- the mutexes of the others are not the thread's
      have hdisj : ∀ m ∈ heldj, m ∉ held := by
        intro m hm hmi
        have hown := (hheldj m).2 hm
        rw [(hheld m).2 hmi] at hown
        exact hj (Option.some_inj.1 hown).symm
      refine ⟨heldj, ?_, hnodupj, fun m => (hsame j hj m).trans (hheldj m)⟩
      simpa [hj] using hstandsj.frame (hd.agreeOn hdisj) (ha.agreeOn hdisj)

/-- **The machine without interruptions follows**: it stays where it is, runs a critical section, or
makes the same step outside of them. -/
theorem step [DecidableEq μ] (hT : Tracked P S A) {i : ι} (hstep : LockStep S i S')
    (hend : S'.ended = false) : ∃ A', (A' = A ∨ AtomicStep A i A') ∧ Tracked P S' A' := by
  obtain ⟨held, hstands, hnodup, hheld⟩ := hT.stands i
  cases hstep with
  | @lock m rest hrun hprog hfree =>
      rw [hprog] at hstands
      have hnext := hstands.lock hT.fixed.symm (hT.free m hfree).symm
      have hnew : m ∉ held := fun hmem => by simp [(hheld m).2 hmem] at hfree
      have hsame : (⟨A.data, Function.update A.prog i (A.prog i)⟩ : AtomicState δ μ ι) = A := by
        rw [Function.update_eq_self]
      refine ⟨_, Or.inl hsame, hT.move hheld (.refl _ _) (.refl _ _) (fun j hj l => ?_)
        (fun l hl => ?_) hnext (List.nodup_cons.2 ⟨hnew, hnodup⟩) fun l => ?_⟩
      · by_cases hl : l = m
        · subst hl
          simp [hfree, Ne.symm hj]
        · rw [Function.update_of_ne hl]
      · by_cases hlm : l = m
        · simp [hlm] at hl
        · exact hT.free l (by rwa [Function.update_of_ne hlm] at hl)
      · by_cases hl : l = m
        · simp [hl]
        · rw [Function.update_of_ne hl, hheld, List.mem_cons]
          simp [hl]
  | @unlock m rest hrun hprog =>
      rw [hprog] at hstands
      obtain ⟨held', a', q', rfl, hA, haa', hda', hnext⟩ := hstands.unlock
      have hown : S.holder m = some i := (hheld m).2 (List.mem_cons_self ..)
      obtain ⟨hnot, hnodup'⟩ := List.nodup_cons.1 hnodup
      refine ⟨⟨a', Function.update A.prog i q'⟩, ?_, hT.move hheld (.refl _ _) haa'
        (fun j hj l => ?_) (fun l hl => ?_) hnext hnodup' fun l => ?_⟩
      · rcases hA with ⟨rfl, rfl⟩ | hsection
        · left
          rw [Function.update_eq_self]
        · exact Or.inr (.critical hsection)
      · by_cases hl : l = m
        · subst hl
          simp [hown, Ne.symm hj]
        · rw [Function.update_of_ne hl]
      · by_cases hlm : l = m
        · exact hlm ▸ hda'.2 m (List.mem_cons_self ..)
        · rw [Function.update_of_ne hlm] at hl
          have hl' : l ∉ m :: held' := fun hmem => by simp [(hheld l).2 hmem] at hl
          exact (hT.free l hl).trans (haa'.2 l hl')
      · by_cases hl : l = m
        · simp [hl, hnot]
        · rw [Function.update_of_ne hl, hheld, List.mem_cons]
          simp [hl]
  | @act f rest hrun hprog =>
      rw [hprog] at hstands
      obtain ⟨a', q', hA, hdd', haa', hnext⟩ := hstands.act hT.fixed.symm
      refine ⟨⟨a', Function.update A.prog i q'⟩, ?_, hT.move hheld hdd' haa' (fun _ _ _ => Iff.rfl)
        (fun l hl => ?_) hnext hnodup hheld⟩
      · rcases hA with ⟨rfl, rfl⟩ | ⟨hq, rfl, rfl⟩
        · left
          rw [Function.update_eq_self]
        · exact Or.inr (.act hq)
      · have hnot : l ∉ held := fun hmem => by simp [(hheld l).2 hmem] at hl
        rw [← hdd'.2 l hnot, hT.free l hl]
        exact haa'.2 l hnot
  | abort hrun hprog => exact absurd hend (by simp)

end Tracked

/-! ### It can be followed -/

variable [DecidableEq μ] [DecidableEq ι]

/-- The machine with mutexes while one thread holds some and the others none. -/
def LockState.alone (d : δ) (prog : ι → LockProg δ μ) (i : ι) (q : LockProg δ μ)
    (held : List μ) : LockState δ μ ι :=
  ⟨d, fun m => if m ∈ held then some i else none, Function.update prog i q, false⟩

namespace LockState

variable {d : δ} {prog : ι → LockProg δ μ} {i : ι} {m : μ} {rest : LockProg δ μ} {held : List μ}

theorem alone_nil (d : δ) (prog : ι → LockProg δ μ) (i : ι) :
    alone d prog i (prog i) [] = start d prog := by
  simp [alone, start]

theorem lock_alone (hm : m ∉ held) :
    LockStep (alone d prog i (.lock m rest) held) i (alone d prog i rest (m :: held)) := by
  have hstep := @LockStep.lock _ _ _ _ _ (alone d prog i (.lock m rest) held) i m rest rfl
    (by simp [alone]) (if_neg hm)
  convert hstep using 1
  simp only [alone, Function.update_idem, mk.injEq, true_and, and_true]
  funext l
  by_cases hl : l = m <;> simp [hl]

theorem unlock_alone (hm : m ∉ held) :
    LockStep (alone d prog i (.unlock m rest) (m :: held)) i (alone d prog i rest held) := by
  have hstep := @LockStep.unlock _ _ _ _ _ (alone d prog i (.unlock m rest) (m :: held)) i m rest
    rfl (by simp [alone])
  convert hstep using 1
  simp only [alone, Function.update_idem, mk.injEq, true_and, and_true]
  funext l
  by_cases hl : l = m
  · simp [hl, hm]
  · simp [hl]

theorem act_alone {f : δ → δ} {rest : δ → LockProg δ μ} :
    LockStep (alone d prog i (.act f rest) held) i (alone (f d) prog i (rest d) held) := by
  have hstep := @LockStep.act _ _ _ _ _ (alone d prog i (.act f rest) held) i f rest rfl
    (by simp [alone])
  convert hstep using 1
  simp [alone]

end LockState

/-- **A critical section is a run of the machine with mutexes**, when no mutex is held. -/
theorem Section.exists_run {p q : LockProg δ μ} {held : List μ} {d x : δ}
    (h : Section p d q held x) (hp : p.TwoPhase P false []) (prog : ι → LockProg δ μ) (i : ι) :
    (∃ is, Run LockStep (.alone d prog i p []) is (.alone x prog i q held)) ∧
      (∃ growing, q.TwoPhase P growing held) ∧ held.Nodup := by
  induction h with
  | @enter m rest d =>
      exact ⟨⟨_, Run.nil.snoc (LockState.lock_alone (by simp))⟩, ⟨true, hp.2.2⟩, by simp⟩
  | lock _ _ ih =>
      obtain ⟨⟨is, hrun⟩, ⟨growing, -, hm, hrest⟩, hnodup⟩ := ih hp
      exact ⟨⟨_, hrun.snoc (LockState.lock_alone hm)⟩, ⟨true, hrest⟩,
        List.nodup_cons.2 ⟨hm, hnodup⟩⟩
  | unlock _ ih =>
      obtain ⟨⟨is, hrun⟩, ⟨growing, held', heq, hrest⟩, hnodup⟩ := ih hp
      obtain ⟨-, rfl⟩ := List.cons.inj heq
      obtain ⟨hm, hnodup'⟩ := List.nodup_cons.1 hnodup
      exact ⟨⟨_, hrun.snoc (LockState.unlock_alone hm)⟩, ⟨false, hrest⟩, hnodup'⟩
  | act _ _ ih =>
      obtain ⟨⟨is, hrun⟩, ⟨growing, -, -, hrest⟩, hnodup⟩ := ih hp
      exact ⟨⟨_, hrun.snoc LockState.act_alone⟩, ⟨growing, hrest _⟩, hnodup⟩

/-- One step of the machine without interruptions is a run of the machine with mutexes. -/
theorem AtomicStep.exists_run {A A' : AtomicState δ μ ι} {i : ι} (hstep : AtomicStep A i A')
    (hA : ∀ i, (A.prog i).TwoPhase P false []) :
    (∃ is, Run LockStep (.start A.data A.prog) is (.start A'.data A'.prog)) ∧
      ∀ i, (A'.prog i).TwoPhase P false [] := by
  have hothers : ∀ {p : LockProg δ μ}, p.TwoPhase P false [] →
      ∀ j, (Function.update A.prog i p j).TwoPhase P false [] := by
    intro p hp j
    by_cases hj : j = i
    · subst hj
      simpa using hp
    · simpa [hj] using hA j
  cases hstep with
  | @critical p x hsection =>
      obtain ⟨⟨is, hrun⟩, ⟨growing, hp⟩, -⟩ := hsection.exists_run (hA i) A.prog i
      rw [LockState.alone_nil] at hrun
      refine ⟨⟨is, ?_⟩, hothers (hp.of_nil false)⟩
      convert hrun using 1
      simp [LockState.start, LockState.alone]
  | @act f rest hprog =>
      have hp := hA i
      rw [hprog] at hp
      exact ⟨⟨[i], Run.nil.snoc (LockStep.act rfl hprog)⟩, hothers (hp.2.2 _)⟩

omit [DecidableEq μ] in
/-- A thread at a failed assertion stays there. -/
theorem AtomicStep.prog_of_abort {A A' : AtomicState δ μ ι} {i j : ι} (hstep : AtomicStep A i A')
    (hj : A.prog j = .abort) : A'.prog j = .abort := by
  cases hstep with
  | critical hsection =>
      obtain ⟨m, rest, hlock⟩ := hsection.exists_lock
      have hne : j ≠ i := by
        rintro rfl
        simp [hj] at hlock
      simpa [hne] using hj
  | act hprog =>
      have hne : j ≠ i := by
        rintro rfl
        simp [hj] at hprog
      simpa [hne] using hj

/-- **Critical sections are atomic**: both machines leave the same when no mutex is held. -/
theorem exists_run_iff {d d' : δ} {prog prog' : ι → LockProg δ μ}
    (h : ∀ i, (prog i).TwoPhase P false []) :
    (∃ is, Run LockStep (.start d prog) is (.start d' prog')) ↔
      ∃ is, Run AtomicStep ⟨d, prog⟩ is ⟨d', prog'⟩ := by
  constructor
  · rintro ⟨is, hrun⟩
    have hfollow : ∀ {is : List ι} {S : LockState δ μ ι}, Run LockStep (.start d prog) is S →
        S.ended = false → ∃ A, (∃ is', Run AtomicStep ⟨d, prog⟩ is' A) ∧ Tracked P S A := by
      intro is S hrun
      induction hrun with
      | nil => exact fun _ => ⟨_, ⟨[], Run.nil⟩, Tracked.start h⟩
      | @snoc is S S' i _ hstep ih =>
          intro hend
          obtain ⟨A, ⟨is', hA⟩, hT⟩ := ih hstep.running
          obtain ⟨A', hA', hT'⟩ := hT.step hstep hend
          refine ⟨A', ?_, hT'⟩
          rcases hA' with rfl | hA'
          · exact ⟨is', hA⟩
          · exact ⟨is' ++ [i], hA.snoc hA'⟩
    obtain ⟨A, hA, hT⟩ := hfollow hrun rfl
    exact hT.eq_of_start ▸ hA
  · rintro ⟨is, hrun⟩
    have hfollow : (∃ is, Run LockStep (.start d prog) is (.start d' prog')) ∧
        ∀ i, (prog' i).TwoPhase P false [] := by
      refine @Run.invariant _ _ _ _ (fun A => (∃ is, Run LockStep (.start d prog) is
        (.start A.data A.prog)) ∧ ∀ i, (A.prog i).TwoPhase P false []) ⟨⟨[], Run.nil⟩, h⟩ ?_ is
          _ hrun
      rintro A i A' ⟨⟨is, hA⟩, htwo⟩ hstep
      obtain ⟨⟨is', hA'⟩, htwo'⟩ := hstep.exists_run htwo
      exact ⟨⟨is ++ is', hA.append hA'⟩, htwo'⟩
    exact hfollow.1

end
