/-
**Runs of a transition system.**

A labelled transition system is a relation `step s e s'` between a state, an event and the next
state.  A run is a finite sequence of events that the relation allows, one after the other; an
invariant that every step keeps holds in every state a run reaches.

Main definitions:

* `Run step s₀ es s` — the events `es` lead from `s₀` to `s`;
* `Guarded C step` — the steps of `step` that meet the condition `C` on the state before them.

Main results:

* `Run.invariant` — an invariant of the steps is an invariant of the runs;
* `Run.guarded`, `Run.exists_step`, `Run.of_cons` — conditions on events, and the step that an
  event made;
* `Run.append`, `Run.of_append`, `Run.unique` — runs put together and cut in two, and runs of
  deterministic systems;
* `Run.exists_foldlM` — a run of one system drives a partial function along it, as long as a
  relation between the two states is kept;
* `Run.of_foldlM` — what a partial function computes along a list of events is a run;
* `Run.simulates` — simulation of one system by another that does not see all its events, beside
  such a function.
-/

import Mathlib.Data.List.Induction

set_option relaxedAutoImplicit false
set_option autoImplicit false

/-- The runs of a transition system from `s₀`, with the events of the run. -/
inductive Run {σ ε : Type} (step : σ → ε → σ → Prop) (s₀ : σ) : List ε → σ → Prop
  | nil : Run step s₀ [] s₀
  | snoc {es : List ε} {s s' : σ} {e : ε} : Run step s₀ es s → step s e s' →
      Run step s₀ (es ++ [e]) s'

def Guarded {σ ε : Type} (C : σ → ε → Prop) (step : σ → ε → σ → Prop) (s : σ) (e : ε) (s' : σ) :
    Prop :=
  C s e ∧ step s e s'

namespace Run

variable {σ ε : Type} {step : σ → ε → σ → Prop} {s₀ : σ}

/-- **What every step keeps, every run keeps.** -/
theorem invariant {I : σ → Prop} (hinit : I s₀)
    (hstep : ∀ s e s', I s → step s e s' → I s') {es : List ε} {s : σ} (h : Run step s₀ es s) :
    I s := by
  induction h with
  | nil => exact hinit
  | snoc _ hs ih => exact hstep _ _ _ ih hs

theorem mono {step' : σ → ε → σ → Prop} (hsub : ∀ s e s', step s e s' → step' s e s')
    {es : List ε} {s : σ} (h : Run step s₀ es s) : Run step' s₀ es s := by
  induction h with
  | nil => exact nil
  | snoc _ hs ih => exact ih.snoc (hsub _ _ _ hs)

/-- A run whose events all meet a condition is a run of the steps under that condition. -/
theorem guarded {C : ε → Prop} {es : List ε} {s : σ} (h : Run step s₀ es s)
    (hC : ∀ e ∈ es, C e) : Run (Guarded (fun _ e => C e) step) s₀ es s := by
  induction h with
  | nil => exact nil
  | @snoc es s s' e _ hs ih =>
      have hinit : ∀ e' ∈ es, C e' := fun e' he' => hC e' (List.mem_append_left _ he')
      exact (ih hinit).snoc ⟨hC e (by simp), hs⟩

theorem append {es₁ es₂ : List ε} {s s' : σ} (h : Run step s₀ es₁ s) (h' : Run step s es₂ s') :
    Run step s₀ (es₁ ++ es₂) s' := by
  induction h' with
  | nil => simpa using h
  | snoc _ hs ih =>
      rw [← List.append_assoc]
      exact ih.snoc hs

theorem eq_of_nil {s : σ} (h : Run step s₀ [] s) : s = s₀ := by
  generalize hes : ([] : List ε) = es at h
  cases h with
  | nil => rfl
  | snoc _ _ => exact absurd hes (by simp)

theorem of_concat {es : List ε} {e : ε} {s : σ} (h : Run step s₀ (es ++ [e]) s) :
    ∃ s', Run step s₀ es s' ∧ step s' e s := by
  generalize hes : es ++ [e] = es' at h
  cases h with
  | nil => exact absurd hes (by simp)
  | snoc hrun hs =>
      obtain ⟨rfl, he⟩ := List.append_inj' hes rfl
      obtain rfl := List.head_eq_of_cons_eq he
      exact ⟨_, hrun, hs⟩

/-- A run of two lists of events is a run of the first, and one of the second from where that
ends. -/
theorem of_append {es₁ es₂ : List ε} {s : σ} (h : Run step s₀ (es₁ ++ es₂) s) :
    ∃ s₁, Run step s₀ es₁ s₁ ∧ Run step s₁ es₂ s := by
  induction es₂ using List.reverseRecOn generalizing s with
  | nil => exact ⟨s, by simpa using h, nil⟩
  | append_singleton es₂ e ih =>
      rw [← List.append_assoc] at h
      obtain ⟨s', hrun, hs⟩ := h.of_concat
      obtain ⟨s₁, hfirst, hrest⟩ := ih hrun
      exact ⟨s₁, hfirst, hrest.snoc hs⟩

theorem of_cons {e : ε} {es : List ε} {s : σ} (h : Run step s₀ (e :: es) s) :
    ∃ s₁, step s₀ e s₁ ∧ Run step s₁ es s := by
  have hcut : Run step s₀ ([e] ++ es) s := h
  obtain ⟨s₁, hfirst, hrest⟩ := hcut.of_append
  have hlast : Run step s₀ ([] ++ [e]) s₁ := hfirst
  obtain ⟨s', hnil, hs⟩ := hlast.of_concat
  obtain rfl := hnil.eq_of_nil
  exact ⟨s₁, hs, hrest⟩

/-- Every event of a run happens in it: the run reaches a state that makes that step. -/
theorem exists_step {es₁ es₂ : List ε} {e : ε} {s : σ} (h : Run step s₀ (es₁ ++ e :: es₂) s) :
    ∃ s₁ s₂, Run step s₀ es₁ s₁ ∧ step s₁ e s₂ := by
  obtain ⟨s₁, hfirst, hrest⟩ := h.of_append
  obtain ⟨s₂, hs, -⟩ := hrest.of_cons
  exact ⟨s₁, s₂, hfirst, hs⟩

theorem unique (hdet : ∀ s e s₁ s₂, step s e s₁ → step s e s₂ → s₁ = s₂) {es : List ε} {s s' : σ}
    (h : Run step s₀ es s) (h' : Run step s₀ es s') : s = s' := by
  induction h generalizing s' with
  | nil => exact h'.eq_of_nil.symm
  | snoc _ hs ih =>
      obtain ⟨t, hrun, hs'⟩ := h'.of_concat
      obtain rfl := ih hrun
      exact hdet _ _ _ _ hs hs'

/-- A partial function driven by the events of a run stays defined, and related to the run, when
each step of the run keeps the relation. -/
theorem exists_foldlM {τ : Type} {f : τ → ε → Option τ} {R : τ → σ → Prop} {t₀ : τ}
    (hinit : R t₀ s₀)
    (hstep : ∀ t s e s', R t s → step s e s' → ∃ t', f t e = some t' ∧ R t' s')
    {es : List ε} {s : σ} (h : Run step s₀ es s) : ∃ t, es.foldlM f t₀ = some t ∧ R t s := by
  induction h with
  | nil => exact ⟨t₀, rfl, hinit⟩
  | snoc _ hs ih =>
      obtain ⟨t, ht, hR⟩ := ih
      obtain ⟨t', ht', hR'⟩ := hstep _ _ _ _ hR hs
      exact ⟨t', by simp [List.foldlM_append, ht, ht'], hR'⟩

/-- What a partial function computes along a list of events is a run, when its steps are. -/
theorem of_foldlM {f : σ → ε → Option σ} (hf : ∀ s e s', f s e = some s' → step s e s')
    {es : List ε} {s : σ} (h : es.foldlM f s₀ = some s) : Run step s₀ es s := by
  induction es using List.reverseRecOn generalizing s with
  | nil => exact Option.some_inj.1 h ▸ nil
  | append_singleton es e ih =>
      rw [List.foldlM_append] at h
      obtain ⟨s', hs', hlast⟩ := Option.bind_eq_some_iff.1 h
      obtain ⟨s'', hs'', hlast⟩ := Option.bind_eq_some_iff.1 hlast
      obtain rfl := Option.some_inj.1 hlast
      exact (ih hs').snoc (hf _ _ _ hs'')

/-- **Simulation, up to the events that are not kept**, while a partial function watches all of
them. -/
theorem simulates {τ μ : Type} {step' : τ → ε → τ → Prop} {keep : ε → Bool}
    {f : μ → ε → Option μ} {R : σ → τ → μ → Prop} {t₀ : τ} {m₀ : μ} (hinit : R s₀ t₀ m₀)
    (hstep : ∀ s t m e s', R s t m → step s e s' → ∃ t' m', f m e = some m' ∧ R s' t' m' ∧
      if keep e then step' t e t' else t' = t)
    {es : List ε} {s : σ} (h : Run step s₀ es s) :
    ∃ t m, Run step' t₀ (es.filter keep) t ∧ es.foldlM f m₀ = some m ∧ R s t m := by
  induction h with
  | nil => exact ⟨t₀, m₀, nil, rfl, hinit⟩
  | @snoc es s s' e _ hs ih =>
      obtain ⟨t, m, hrun, hm, hR⟩ := ih
      obtain ⟨t', m', hm', hR', ht'⟩ := hstep _ _ _ _ _ hR hs
      refine ⟨t', m', ?_, by simp [List.foldlM_append, hm, hm'], hR'⟩
      rw [List.filter_append]
      split_ifs at ht' with hkeep
      · rw [List.filter_cons_of_pos hkeep]
        exact hrun.snoc ht'
      · rw [List.filter_cons_of_neg hkeep, ht', List.filter_nil, List.append_nil]
        exact hrun

end Run
