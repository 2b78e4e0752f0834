/-
**Who handles a segmentation fault.**

The runtime installs its own handler for `SIGSEGV` and keeps the action it found, to hand faults
over to that are none of its own (`Runtime/provsan_init.cpp`, and the first branch of
`pku_segv_handler` in `Runtime/provsan_fault_handler.cpp`).  The action that is kept is whatever was
installed before, and when that is the runtime's handler already, the handler hands over to itself.

Main definitions:

* `Provsan.SignalState` — the installed action, and the pointers to actions;
* `Provsan.provsan_untrusted_constructor`, `Provsan.provsan_SEGV_fault_handler` — installing the
  handler, for the first time and again;
* `Provsan.handOver` — what the handler does with a fault of another kind;
* `Provsan.DelegatesAway`, `Provsan.FindsOther` — the property, and what a step must meet for it.

Main results:

* `Provsan.delegatesAway_step_iff` — one step keeps the property exactly under the condition;
* `Provsan.delegatesAway_iff` — **the handler never delegates to itself exactly in the runs whose
  steps all meet the condition**.
-/

import Provsan.Lib.Run
import Provsan.Runtime.FaultHandler

set_option relaxedAutoImplicit false
set_option autoImplicit false

namespace Provsan

/-! ### Installing the handler -/

/-- The action installed for `SIGSEGV`, and what the pointers `prevAction` and `SEGVAction` point
to, unless they are null. -/
structure SignalState where
  installed : SigAction
  prevAction : Option SigAction
  SEGVAction : Option SigAction
  deriving DecidableEq

namespace SignalState

/-- Before the runtime has done anything. -/
def start (installed : SigAction) : SignalState := ⟨installed, none, none⟩

end SignalState

/-- The action of the runtime. -/
def pkuAction : SigAction := ⟨true, .pku_segv_handler⟩

/-- `provsan_untrusted_constructor`: install the handler, and keep what was installed. -/
def provsan_untrusted_constructor (S : SignalState) : SignalState where
  installed := pkuAction
  prevAction := some S.installed
  SEGVAction := some (S.SEGVAction.getD pkuAction)

/-- `provsan_SEGV_fault_handler`: copy the action that is kept to `oldact`, install the handler
again, and keep what was installed, if there is room for it. -/
def provsan_SEGV_fault_handler (oldact : Option SigAction) (S : SignalState) :
    SignalState × Option SigAction :=
  let SEGVAction := S.SEGVAction.getD pkuAction
  let oldact := match oldact, S.prevAction with
    | some _, some prevAction => some prevAction
    | oldact, _ => oldact
  ({ installed := SEGVAction
     prevAction := S.prevAction.map fun _ => S.installed
     SEGVAction := some SEGVAction }, oldact)

/-! ### Faults of another kind -/

/-- The fault handed on until somebody else has it, in at most `fuel` turns of the handler. -/
def handOver (S : SignalState) (tid : ThreadId) (si : SigInfo) (h : AllocSiteHandler)
    (ctx : ThreadContext) : ℕ → Option SegvOutcome
  | 0 => none
  | fuel + 1 =>
      match pku_segv_handler S.prevAction tid si h ctx with
      | some (.delegated .pku_segv_handler) => handOver S tid si h ctx fuel
      | outcome => outcome

/-- **The handler does not delegate to itself**: the action kept is not its own, and a fault of
another kind is handed over to somebody else. -/
structure DelegatesAway (S : SignalState) : Prop where
  prev_ne : ∀ prevAction, S.prevAction = some prevAction →
    prevAction.handler ≠ .pku_segv_handler
  handsOver : ∀ tid si h ctx, si.si_code ≠ SEGV_PKUERR → ∃ fuel outcome,
    handOver S tid si h ctx fuel = some outcome ∧ outcome ≠ .delegated .pku_segv_handler

/-- The second part of the property follows from the first. -/
theorem delegatesAway_of_prev_ne {S : SignalState}
    (hprev : ∀ prevAction, S.prevAction = some prevAction →
      prevAction.handler ≠ .pku_segv_handler) : DelegatesAway S := by
  refine ⟨hprev, fun tid si h ctx hcode => ?_⟩
  have houtcome : ∃ outcome, pku_segv_handler S.prevAction tid si h ctx = some outcome ∧
      outcome ≠ .delegated .pku_segv_handler := by
    unfold pku_segv_handler
    rw [if_pos hcode]
    cases hp : S.prevAction with
    | none => exact ⟨_, rfl, by simp⟩
    | some prevAction =>
        have hother := hprev prevAction hp
        dsimp only
        split_ifs <;> exact ⟨_, rfl, by simp [hother]⟩
  obtain ⟨outcome, hrun, hne⟩ := houtcome
  refine ⟨1, outcome, ?_, hne⟩
  rw [handOver, hrun]
  split
  · rename_i heq
    exact absurd (Option.some_inj.1 heq) hne
  · rfl

/-- Once the action kept is its own, the handler calls itself without end. -/
theorem handOver_eq_none {S : SignalState} {prevAction : SigAction}
    (hp : S.prevAction = some prevAction) (hself : prevAction.handler = .pku_segv_handler)
    (tid : ThreadId) {si : SigInfo} (hcode : si.si_code ≠ SEGV_PKUERR) (h : AllocSiteHandler)
    (ctx : ThreadContext) (fuel : ℕ) : handOver S tid si h ctx fuel = none := by
  have hcall : pku_segv_handler S.prevAction tid si h ctx =
      some (.delegated .pku_segv_handler) := by
    unfold pku_segv_handler
    rw [if_pos hcode, hp]
    dsimp only
    rw [hself]
    split_ifs with hs hd
    · rfl
    · exact absurd hd (by simp)
    · rfl
  induction fuel with
  | zero => rfl
  | succ fuel ih =>
      rw [handOver, hcall]
      exact ih

/-! ### Runs -/

/-- What changes the handling of the signal. -/
inductive SignalEvent
  | construct
  | reinstall (oldact : Option SigAction)
  | register (action : SigAction)
  deriving DecidableEq

/-- The steps: the two functions of the runtime, and registrations by the host program of actions
that are not the runtime's. -/
inductive SignalStep : SignalState → SignalEvent → SignalState → Prop
  | construct (S : SignalState) : SignalStep S .construct (provsan_untrusted_constructor S)
  | reinstall (S : SignalState) (oldact : Option SigAction) :
      SignalStep S (.reinstall oldact) (provsan_SEGV_fault_handler oldact S).1
  | register (S : SignalState) {action : SigAction} (hhost : action.handler ≠ .pku_segv_handler) :
      SignalStep S (.register action) { S with installed := action }

/-- **What a step must meet**: when the runtime keeps the action it finds, that is not its own. -/
def FindsOther (S : SignalState) : SignalEvent → Prop
  | .construct => S.installed.handler ≠ .pku_segv_handler
  | .reinstall _ => S.prevAction.isSome → S.installed.handler ≠ .pku_segv_handler
  | .register _ => True

theorem SignalStep.unique {S S₁ S₂ : SignalState} {e : SignalEvent} (h₁ : SignalStep S e S₁)
    (h₂ : SignalStep S e S₂) : S₁ = S₂ := by
  cases h₁ <;> cases h₂ <;> rfl

/-- **One step keeps the property exactly under the condition.** -/
theorem delegatesAway_step_iff {S S' : SignalState} {e : SignalEvent} (hS : DelegatesAway S)
    (hstep : SignalStep S e S') : DelegatesAway S' ↔ FindsOther S e := by
  have hprev : DelegatesAway S' ↔
      ∀ prevAction, S'.prevAction = some prevAction → prevAction.handler ≠ .pku_segv_handler :=
    ⟨DelegatesAway.prev_ne, delegatesAway_of_prev_ne⟩
  rw [hprev]
  cases hstep with
  | construct => simp [provsan_untrusted_constructor, FindsOther]
  | reinstall oldact =>
      simp only [provsan_SEGV_fault_handler, FindsOther, Option.map_eq_some_iff]
      constructor
      · intro hall hsome
        obtain ⟨prevAction, hp⟩ := Option.isSome_iff_exists.1 hsome
        exact hall S.installed ⟨prevAction, hp, rfl⟩
      · rintro hfinds _ ⟨prevAction, hp, rfl⟩
        exact hfinds (by simp [hp])
  | register hhost => exact ⟨fun _ => trivial, fun _ => hS.prev_ne⟩

theorem delegatesAway_start (installed : SigAction) : DelegatesAway (.start installed) :=
  delegatesAway_of_prev_ne fun _ hp => absurd hp (by simp [SignalState.start])

/-- **The handler never delegates to itself in exactly the runs** in which the runtime never finds
its own handler where it keeps what it finds. -/
theorem delegatesAway_iff (installed : SigAction) (es : List SignalEvent) (S : SignalState)
    (hrun : Run SignalStep (.start installed) es S) :
    (∀ es₁ es₂ S₁, es = es₁ ++ es₂ → Run SignalStep (.start installed) es₁ S₁ →
      DelegatesAway S₁) ↔ Run (Guarded FindsOther SignalStep) (.start installed) es S := by
  constructor
  · intro hall
    induction hrun with
    | nil => exact Run.nil
    | @snoc es S S' e hrun hstep ih =>
        have hbefore : DelegatesAway S := hall es [e] S rfl hrun
        have hafter : DelegatesAway S' := hall (es ++ [e]) [] S' (by simp) (hrun.snoc hstep)
        refine (ih ?_).snoc ⟨(delegatesAway_step_iff hbefore hstep).1 hafter, hstep⟩
        rintro es₁ es₂ S₁ rfl h₁
        exact hall es₁ (es₂ ++ [e]) S₁ (by simp) h₁
  · rintro hguarded es₁ es₂ S₁ rfl h₁
    obtain ⟨S₂, h₂, -⟩ := hguarded.of_append
    have hplain : Run SignalStep (.start installed) es₁ S₂ := h₂.mono fun _ _ _ hstep => hstep.2
    obtain rfl := hplain.unique (fun _ _ _ _ hs hs' => hs.unique hs') h₁
    exact h₂.invariant (delegatesAway_start installed)
      fun _ _ _ hS hstep => (delegatesAway_step_iff hS hstep.2).2 hstep.1

theorem delegatesAway_iff_construct :
    (∀ es₁ es₂ S₁, [SignalEvent.construct] = es₁ ++ es₂ →
      Run SignalStep (.start ⟨false, .SIG_DFL⟩) es₁ S₁ → DelegatesAway S₁) ↔
    Run (Guarded FindsOther SignalStep) (.start ⟨false, .SIG_DFL⟩) [.construct]
      (provsan_untrusted_constructor (.start ⟨false, .SIG_DFL⟩)) :=
  delegatesAway_iff ⟨false, .SIG_DFL⟩ [.construct] _ (Run.nil.snoc (SignalStep.construct _))

/-- **The handler can delegate to itself**: it does so once it has been installed twice. -/
theorem not_delegatesAway : ¬ ∀ (installed : SigAction) (es : List SignalEvent) (S : SignalState),
    installed.handler ≠ .pku_segv_handler → Run SignalStep (.start installed) es S →
      DelegatesAway S := by
  intro hall
  have hrun := (Run.nil.snoc (SignalStep.construct (.start ⟨false, .SIG_DFL⟩))).snoc
    (SignalStep.reinstall _ none)
  exact (hall _ _ _ (by decide) hrun).prev_ne _ rfl rfl

end Provsan
