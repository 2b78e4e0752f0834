/-
**Simulations up to what can be observed.**

Of the events of a run some can be observed, perhaps under another name.  One system simulates
another when each step of the latter is answered by steps of the former that show the same; then
whatever can be observed of the latter can be observed of the former.  Simulations compose, and they
stay simulations when less is observed.

Main definitions:

* `Observes step observe s os s'` — a run from `s` to `s'` of which `os` can be observed;
* `Simulates` — the steps of one system are answered by those of another;
* `Bisimulates` — both answer each other.

Main results:

* `Observes.append`, `Observes.snoc` — observations one after the other;
* `Simulates.observes` — **what can be observed of a system can be observed of one that simulates
  it**;
* `Simulates.comp`, `Simulates.bind` — composition, and observing less;
* `Bisimulates.symm`, `Bisimulates.trans` — the same for both directions.
-/

import Provsan.Lib.Run

set_option relaxedAutoImplicit false
set_option autoImplicit false

/-- The observations `os` lead from `s` to `s'`. -/
def Observes {σ ε ο : Type} (step : σ → ε → σ → Prop) (observe : ε → Option ο) (s : σ)
    (os : List ο) (s' : σ) : Prop :=
  ∃ es, Run step s es s' ∧ es.filterMap observe = os

/-- Every step of the first system is answered by the second one. -/
def Simulates {σ τ ε δ ο : Type} (step : σ → ε → σ → Prop) (observe : ε → Option ο)
    (step' : τ → δ → τ → Prop) (observe' : δ → Option ο) (R : σ → τ → Prop) : Prop :=
  ∀ s t e s', R s t → step s e s' →
    ∃ t', Observes step' observe' t (observe e).toList t' ∧ R s' t'

/-- The systems answer each other. -/
structure Bisimulates {σ τ ε δ ο : Type} (step : σ → ε → σ → Prop) (observe : ε → Option ο)
    (step' : τ → δ → τ → Prop) (observe' : δ → Option ο) (R : σ → τ → Prop) : Prop where
  forth : Simulates step observe step' observe' R
  back : Simulates step' observe' step observe fun t s => R s t

/-! ### Observations -/

/-- What is observed of a run with one more event. -/
theorem filterMap_concat {ε ο : Type} (observe : ε → Option ο) (es : List ε) (e : ε) :
    (es ++ [e]).filterMap observe = es.filterMap observe ++ (observe e).toList := by
  rw [List.filterMap_append]
  cases ho : observe e with
  | none => simp [ho]
  | some o => simp [ho]

theorem filterMap_toList {ο ο' : Type} (k : ο → Option ο') (o : Option ο) :
    o.toList.filterMap k = (o.bind k).toList := by
  cases o with
  | none => rfl
  | some o => cases ho : k o <;> simp [ho]

namespace Observes

variable {σ ε ο : Type} {step : σ → ε → σ → Prop} {observe : ε → Option ο} {s s' s'' : σ}

theorem nil (s : σ) : Observes step observe s [] s := ⟨[], .nil, rfl⟩

theorem snoc {os : List ο} {e : ε} (h : Observes step observe s os s') (he : step s' e s'') :
    Observes step observe s (os ++ (observe e).toList) s'' := by
  obtain ⟨es, hrun, rfl⟩ := h
  exact ⟨es ++ [e], hrun.snoc he, filterMap_concat observe es e⟩

theorem single {e : ε} (h : step s e s') : Observes step observe s (observe e).toList s' :=
  (nil s).snoc h

/-- A step that shows something. -/
theorem of_some {e : ε} {o : ο} (ho : observe e = some o) (h : step s e s') :
    Observes step observe s [o] s' := by
  have hsingle := @single _ _ _ _ observe _ _ _ h
  rwa [ho] at hsingle

/-- A step that shows nothing. -/
theorem of_none {e : ε} (ho : observe e = none) (h : step s e s') :
    Observes step observe s [] s' := by
  have hsingle := @single _ _ _ _ observe _ _ _ h
  rwa [ho] at hsingle

theorem append {os os' : List ο} (h : Observes step observe s os s')
    (h' : Observes step observe s' os' s'') : Observes step observe s (os ++ os') s'' := by
  obtain ⟨es, hrun, rfl⟩ := h'
  induction hrun with
  | nil => simpa using h
  | snoc _ he ih =>
      rw [filterMap_concat, ← List.append_assoc]
      exact ih.snoc he

/-- When everything is observed, the observations are the events. -/
theorem of_run {es : List ε} (h : Run step s es s') : Observes step some s es s' :=
  ⟨es, h, List.filterMap_some⟩

theorem run {es : List ε} (h : Observes step some s es s') : Run step s es s' := by
  obtain ⟨es', hrun, rfl⟩ := h
  rwa [List.filterMap_some]

/-- What is observed of what has been observed. -/
theorem bind {ο' : Type} (k : ο → Option ο') {os : List ο} (h : Observes step observe s os s') :
    Observes step (fun e => (observe e).bind k) s (os.filterMap k) s' := by
  obtain ⟨es, hrun, rfl⟩ := h
  exact ⟨es, hrun, List.filterMap_filterMap.symm⟩

end Observes

/-! ### Simulations -/

section

variable {σ τ υ ε δ γ ο : Type} {step : σ → ε → σ → Prop} {observe : ε → Option ο}
  {step' : τ → δ → τ → Prop} {observe' : δ → Option ο} {step'' : υ → γ → υ → Prop}
  {observe'' : γ → Option ο} {R : σ → τ → Prop} {R' : τ → υ → Prop}

namespace Simulates

/-- **A run is answered by a run** of which the same can be observed. -/
theorem observes (h : Simulates step observe step' observe' R) {s s' : σ} {t : τ} {os : List ο}
    (hR : R s t) (hs : Observes step observe s os s') :
    ∃ t', Observes step' observe' t os t' ∧ R s' t' := by
  obtain ⟨es, hrun, rfl⟩ := hs
  induction hrun with
  | nil => exact ⟨t, .nil t, hR⟩
  | snoc _ he ih =>
      obtain ⟨t₁, ht₁, hR₁⟩ := ih
      obtain ⟨t₂, ht₂, hR₂⟩ := h _ _ _ _ hR₁ he
      rw [filterMap_concat]
      exact ⟨t₂, ht₁.append ht₂, hR₂⟩

/-- Simulations, one after the other. -/
theorem comp (h : Simulates step observe step' observe' R)
    (h' : Simulates step' observe' step'' observe'' R') :
    Simulates step observe step'' observe'' fun s u => ∃ t, R s t ∧ R' t u := by
  rintro s u e s' ⟨t, hR, hR'⟩ he
  obtain ⟨t', ht, hR₁⟩ := h s t e s' hR he
  obtain ⟨u', hu, hR'₁⟩ := h'.observes hR' ht
  exact ⟨u', hu, t', hR₁, hR'₁⟩

/-- A simulation is one when less is observed. -/
theorem bind {ο' : Type} (k : ο → Option ο') (h : Simulates step observe step' observe' R) :
    Simulates step (fun e => (observe e).bind k) step' (fun e => (observe' e).bind k) R := by
  intro s t e s' hR he
  obtain ⟨t', ht, hR'⟩ := h s t e s' hR he
  have hk := ht.bind k
  rw [filterMap_toList] at hk
  exact ⟨t', hk, hR'⟩

end Simulates

namespace Bisimulates

theorem symm (h : Bisimulates step observe step' observe' R) :
    Bisimulates step' observe' step observe fun t s => R s t :=
  ⟨h.back, h.forth⟩

theorem trans (h : Bisimulates step observe step' observe' R)
    (h' : Bisimulates step' observe' step'' observe'' R') :
    Bisimulates step observe step'' observe'' fun s u => ∃ t, R s t ∧ R' t u := by
  refine ⟨h.forth.comp h'.forth, ?_⟩
  intro u s e u' hR hu
  obtain ⟨s', hs, t, hR'⟩ := (h'.back.comp h.back) u s e u' (by
    obtain ⟨t, ht, ht'⟩ := hR
    exact ⟨t, ht', ht⟩) hu
  exact ⟨s', hs, t, hR'.2, hR'.1⟩

theorem bind {ο' : Type} (k : ο → Option ο') (h : Bisimulates step observe step' observe' R) :
    Bisimulates step (fun e => (observe e).bind k) step' (fun e => (observe' e).bind k) R :=
  ⟨h.forth.bind k, h.back.bind k⟩

end Bisimulates

end
