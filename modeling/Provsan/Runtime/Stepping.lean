/-
**Single stepping on many threads.**

The threads of a process, each of which takes PKU faults and steps over the faulting instruction,
in any interleaving.  What the trap after an instruction is meant to do is stated on its own
(`Provsan.TrapRestores`): put the thread's rights back and forget about the step, without touching
the other threads.  The fault handler files the rights under the thread's id, and the trap handler
looks them up under the process id, so that this is done on the main thread and nowhere else.

Main definitions:

* `Provsan.Process`, `Provsan.ProcessStep` — the threads, and what they may do;
* `Provsan.TrapRestores` — what a trap is meant to do;
* `Provsan.MainStepping` — the invariant of the main thread's steps.

Main results:

* `Provsan.TrapRestores.of_mainStepping` — a trap on the main thread restores it;
* `Provsan.trapRestores_iff_main` — **in a run every trap restores its thread exactly when every
  trap is one of the main thread**.
-/

import Provsan.Lib.Run
import Provsan.Runtime.FaultHandler

set_option relaxedAutoImplicit false
set_option autoImplicit false

namespace Provsan

/-- A step under way on a thread: the key of the fault, and the PKRU word just before it. -/
structure StepUnderWay where
  pkey : BitVec 32
  pkru : BitVec 32

/-- The state of a process.  `underWay` is not part of the program: it remembers the step each
thread is in, for the purpose of stating what the trap has to restore. -/
structure Process where
  handler : AllocSiteHandler
  context : ThreadId → ThreadContext
  underWay : ThreadId → Option StepUnderWay

/-- What happens in a process. -/
inductive ProcessEvent
  | fault (tid : ThreadId) (si : SigInfo)
  | trap (tid : ThreadId)
  /-- The thread's own code changes its registers. -/
  | resume (tid : ThreadId) (ctx : ThreadContext)
  /-- Some thread calls a hook. -/
  | hook (c : HookCall)

namespace Process

def start (h : AllocSiteHandler) (context : ThreadId → ThreadContext) : Process where
  handler := { h with pkeyByTidMap := UnorderedMap.empty }
  context := context
  underWay _ := none

def afterFault (P : Process) (tid : ThreadId) (si : SigInfo) (h : AllocSiteHandler)
    (ctx : ThreadContext) : Process where
  handler := h
  context := Function.update P.context tid ctx
  underWay := Function.update P.underWay tid (some ⟨si.si_pkey, (P.context tid).pkru⟩)

/-- The state after the handler of a trap in the process `pid`. -/
def afterTrap (P : Process) (pid tid : ThreadId) : Process where
  handler := (pku_trap_handler pid P.handler (P.context tid)).1
  context := Function.update P.context tid (pku_trap_handler pid P.handler (P.context tid)).2
  underWay := Function.update P.underWay tid none

theorem underWay_afterFault (P : Process) (tid : ThreadId) (si : SigInfo) (h : AllocSiteHandler)
    (ctx : ThreadContext) (u : ThreadId) : (P.afterFault tid si h ctx).underWay u =
      if u = tid then some ⟨si.si_pkey, (P.context tid).pkru⟩ else P.underWay u :=
  Function.update_apply ..

theorem underWay_afterTrap (P : Process) (pid tid u : ThreadId) :
    (P.afterTrap pid tid).underWay u = if u = tid then none else P.underWay u :=
  Function.update_apply ..

theorem context_afterTrap (P : Process) (pid tid u : ThreadId) :
    (P.afterTrap pid tid).context u =
      if u = tid then (pku_trap_handler pid P.handler (P.context tid)).2 else P.context u :=
  Function.update_apply ..

/-- A trap removes the entry of the process, and no other. -/
theorem find_afterTrap (P : Process) (pid tid u : ThreadId) :
    (P.afterTrap pid tid).handler.pkeyByTidMap.find u =
      if u = pid then none else P.handler.pkeyByTidMap.find u :=
  find_pku_trap_handler pid P.handler (P.context tid) u

end Process

/-- The steps of the process `pid`.  On each thread a PKU fault on one of the processor's keys is
followed by the trap of the same instruction. -/
inductive ProcessStep (pid : ThreadId) : Process → ProcessEvent → Process → Prop
  | fault {P : Process} {tid : ThreadId} {si : SigInfo} {prevAction : Option SigAction}
      {h : AllocSiteHandler} {ctx : ThreadContext} (hidle : P.underWay tid = none)
      (hcode : si.si_code = SEGV_PKUERR) (hkey : si.si_pkey.toNat < 16)
      (hcall : pku_segv_handler prevAction tid si P.handler (P.context tid) =
        some (.stepping h ctx)) :
      ProcessStep pid P (.fault tid si) (P.afterFault tid si h ctx)
  | trap {P : Process} {tid : ThreadId} {st : StepUnderWay} (hst : P.underWay tid = some st) :
      ProcessStep pid P (.trap tid) (P.afterTrap pid tid)
  | resume {P : Process} {tid : ThreadId} {ctx : ThreadContext} (hidle : P.underWay tid = none) :
      ProcessStep pid P (.resume tid ctx) { P with context := Function.update P.context tid ctx }
  | hook {P : Process} {c : HookCall} {h : AllocSiteHandler} (hcall : c.run P.handler = some h) :
      ProcessStep pid P (.hook c) { P with handler := h }

/-- **What a trap is meant to do** on the thread `tid`: the faulted key has the rights from before
the fault again, the other bits of the thread's word stay, the thread's entry is gone, and the
other threads keep their entries and their words. -/
structure TrapRestores (P : Process) (tid : ThreadId) (P' : Process) : Prop where
  rights : ∀ st, P.underWay tid = some st →
    pkeyGet (P'.context tid).pkru (Int32.ofBitVec st.pkey) =
      pkeyGet st.pkru (Int32.ofBitVec st.pkey)
  otherBits : ∀ st, P.underWay tid = some st → ∀ i, i / 2 ≠ st.pkey.toNat →
    (P'.context tid).pkru.getLsbD i = (P.context tid).pkru.getLsbD i
  removed : P'.handler.pkeyByTidMap.find tid = none
  entries : ∀ u, u ≠ tid → P'.handler.pkeyByTidMap.find u = P.handler.pkeyByTidMap.find u
  words : ∀ u, u ≠ tid → (P'.context u).pkru = (P.context u).pkru

/-! ### Hooks and pending entries -/

theorem pkeyByTidMap_run {c : HookCall} {h h' : AllocSiteHandler} (he : c.run h = some h') :
    h'.pkeyByTidMap = h.pkeyByTidMap := by
  cases c with
  | alloc ptr size localID bbName funcName =>
      obtain ⟨s, -, hs⟩ := Option.bind_eq_some_iff.1 he
      rw [← Option.some_inj.1 hs]
      rfl
  | dealloc ptr size localID =>
      rw [← Option.some_inj.1 he]
      rfl
  | realloc newPtr newSize oldPtr oldSize localID bbName funcName =>
      unfold HookCall.run reallocHook at he
      dsimp only at he
      split_ifs at he with hv
      · obtain ⟨s, -, hs⟩ := Option.bind_eq_some_iff.1 he
        rw [← Option.some_inj.1 hs]
        rfl
      · obtain ⟨s, -, hs⟩ := Option.bind_eq_some_iff.1 he
        rw [← Option.some_inj.1 hs]
        change (h.updateReallocChain _ _).pkeyByTidMap = _
        unfold AllocSiteHandler.updateReallocChain
        split <;> rfl

/-! ### Threads other than the main one -/

/-- A thread that is in a step has an entry, unless it is the main thread. -/
def EntryPending (pid : ThreadId) (P : Process) : Prop :=
  ∀ tid st, tid ≠ pid → P.underWay tid = some st → P.handler.pkeyByTidMap.find tid ≠ none

namespace EntryPending

variable {pid : ThreadId}

/-- **No step takes an entry from a thread other than the main one.** -/
theorem step {P P' : Process} {e : ProcessEvent} (hinv : EntryPending pid P)
    (hstep : ProcessStep pid P e P') : EntryPending pid P' := by
  intro tid st hne hst
  cases hstep with
  | @fault u si prevAction h ctx hidle hcode hkey hcall =>
      change h.pkeyByTidMap.find tid ≠ none
      rw [(pku_segv_handler_eq_some hkey hcode hcall).1, UnorderedMap.find_emplace]
      split_ifs with hu
      · exact Option.some_ne_none _
      · have htu : tid ≠ u := fun h => hu (by simp [h])
        rw [Process.underWay_afterFault, if_neg htu] at hst
        exact hinv tid st hne hst
  | @trap u st' hst' =>
      rw [Process.find_afterTrap, if_neg hne]
      rw [Process.underWay_afterTrap] at hst
      split_ifs at hst with htu
      exact hinv tid st hne hst
  | resume hidle => exact hinv tid st hne hst
  | @hook c h hcall =>
      change h.pkeyByTidMap.find tid ≠ none
      rw [pkeyByTidMap_run hcall]
      exact hinv tid st hne hst

theorem run {h : AllocSiteHandler} {context : ThreadId → ThreadContext} {es : List ProcessEvent}
    {P : Process} (hrun : Run (ProcessStep pid) (Process.start h context) es P) :
    EntryPending pid P :=
  hrun.invariant (fun _ _ _ hst => absurd hst (by simp [Process.start]))
    fun _ _ _ hinv hstep => hinv.step hstep

/-- A trap on such a thread leaves its entry in place. -/
theorem entry_of_trap {P P' : Process} (hinv : EntryPending pid P) {tid : ThreadId}
    (hne : tid ≠ pid) (hstep : ProcessStep pid P (.trap tid) P') : ¬ TrapRestores P tid P' := by
  intro hrestores
  cases hstep with
  | trap hst =>
      have hremoved := hrestores.removed
      rw [Process.find_afterTrap, if_neg hne] at hremoved
      exact hinv tid _ hne hst hremoved

end EntryPending

/-! ### The main thread -/

/-- The main thread has an entry exactly while it is in a step, and the entry holds the rights from
before the fault. -/
def MainStepping (pid : ThreadId) (P : Process) : Prop :=
  (∀ st, P.underWay pid = some st → st.pkey.toNat < 16) ∧
    P.handler.pkeyByTidMap.find pid =
      (P.underWay pid).map fun st => ⟨st.pkey, savedRights st.pkru st.pkey⟩

/-- The event is no trap, or a trap of the main thread. -/
def TrapsOnMain (pid : ThreadId) : ProcessEvent → Prop
  | .trap tid => tid = pid
  | _ => True

namespace MainStepping

variable {pid : ThreadId}

/-- **One step keeps the entry of the main thread right**, when no other thread takes a trap. -/
theorem step {P P' : Process} {e : ProcessEvent} (hinv : MainStepping pid P)
    (hmain : TrapsOnMain pid e) (hstep : ProcessStep pid P e P') : MainStepping pid P' := by
  obtain ⟨hrange, hfind⟩ := hinv
  cases hstep with
  | @fault u si prevAction h ctx hidle hcode hkey hcall =>
      have hmap := (pku_segv_handler_eq_some hkey hcode hcall).1
      by_cases hu : u = pid
      · subst hu
        rw [MainStepping, Process.underWay_afterFault, if_pos rfl]
        refine ⟨fun st hst => ?_, ?_⟩
        · rw [← Option.some_inj.1 hst]
          exact hkey
        · -- the thread was idle, so that `emplace` finds its slot empty
          rw [hidle] at hfind
          change h.pkeyByTidMap.find u = _
          rw [hmap, UnorderedMap.find_emplace, if_pos (by simp), hfind]
          rfl
      · rw [MainStepping, Process.underWay_afterFault, if_neg (Ne.symm hu)]
        refine ⟨hrange, ?_⟩
        change h.pkeyByTidMap.find pid = _
        rw [hmap, UnorderedMap.find_emplace, if_neg (by simpa using hu), hfind]
  | @trap u st hst =>
      obtain rfl : u = pid := hmain
      rw [MainStepping, Process.underWay_afterTrap, if_pos rfl, Process.find_afterTrap, if_pos rfl]
      exact ⟨fun st hst => absurd hst (by simp), rfl⟩
  | resume hidle => exact ⟨hrange, hfind⟩
  | @hook c h hcall =>
      refine ⟨hrange, ?_⟩
      change h.pkeyByTidMap.find pid = _
      rw [pkeyByTidMap_run hcall]
      exact hfind

theorem run {h : AllocSiteHandler} {context : ThreadId → ThreadContext} {es : List ProcessEvent}
    {P : Process} (hrun : Run (ProcessStep pid) (Process.start h context) es P)
    (hmain : ∀ e ∈ es, TrapsOnMain pid e) : MainStepping pid P := by
  refine (hrun.guarded hmain).invariant (I := MainStepping pid) ?_ ?_
  · exact ⟨fun st hst => absurd hst (by simp [Process.start]), by simp [Process.start]⟩
  · rintro P e P' hinv ⟨hmain, hstep⟩
    exact hinv.step hmain hstep

end MainStepping

/-- **A trap on the main thread restores it.** -/
theorem TrapRestores.of_mainStepping {pid : ThreadId} {P P' : Process}
    (hinv : MainStepping pid P) (hstep : ProcessStep pid P (.trap pid) P') :
    TrapRestores P pid P' := by
  cases hstep with
  | @trap _ st₀ hst₀ =>
      obtain ⟨hrange, hfind⟩ := hinv
      have hkey := hrange st₀ hst₀
      rw [hst₀] at hfind
      have hword : ((P.afterTrap pid pid).context pid).pkru =
          BitField.write 2 (P.context pid).pkru st₀.pkey.toNat (savedRights st₀.pkru st₀.pkey) := by
        rw [Process.context_afterTrap, if_pos rfl]
        exact (pku_trap_handler_of_find (P.context pid) hfind hkey (not_lt_read _ _)).2
      constructor
      · intro st hst
        obtain rfl := Option.some_inj.1 (hst₀.symm.trans hst)
        have hread := BitField.read_write_self (w := 2) (k := st₀.pkey.toNat) (by omega)
          (BitField.fits_read 2 st₀.pkru st₀.pkey.toNat) (P.context pid).pkru
        rw [hword, pkeyGet_of_lt hkey, pkeyGet_of_lt hkey, savedRights, hread]
      · intro st hst i hi
        obtain rfl := Option.some_inj.1 (hst₀.symm.trans hst)
        rw [hword, savedRights, BitField.getLsbD_write (BitField.fits_read _ _ _),
          if_neg (by omega)]
      · rw [Process.find_afterTrap, if_pos rfl]
      · intro u hu
        rw [Process.find_afterTrap, if_neg hu]
      · intro u hu
        rw [Process.context_afterTrap, if_neg hu]

/-! ### Runs -/

/-- **Every trap of a run restores its thread exactly when every trap is one of the main
thread.** -/
theorem trapRestores_iff_main (pid : ThreadId) (h : AllocSiteHandler)
    (context : ThreadId → ThreadContext) (es : List ProcessEvent) (P : Process)
    (hrun : Run (ProcessStep pid) (Process.start h context) es P) :
    (∀ es₁ tid es₂ P₁ P₂, es = es₁ ++ .trap tid :: es₂ →
        Run (ProcessStep pid) (Process.start h context) es₁ P₁ →
        ProcessStep pid P₁ (.trap tid) P₂ → TrapRestores P₁ tid P₂) ↔
      ∀ tid, .trap tid ∈ es → tid = pid := by
  constructor
  · intro hall tid htid
    by_contra hne
    obtain ⟨es₁, es₂, rfl⟩ := List.append_of_mem htid
    obtain ⟨P₁, P₂, hrun₁, hstep⟩ := hrun.exists_step
    exact (EntryPending.run hrun₁).entry_of_trap hne hstep (hall es₁ tid es₂ P₁ P₂ rfl hrun₁ hstep)
  · rintro hmain es₁ tid es₂ P₁ P₂ rfl hrun₁ hstep
    obtain rfl := hmain tid (by simp)
    refine TrapRestores.of_mainStepping (MainStepping.run hrun₁ fun e he => ?_) hstep
    cases e with
    | trap u => exact hmain u (List.mem_append_left _ he)
    | fault | resume | hook => trivial

/-- A denied access to key 1. -/
def deniedAccess : SigInfo := ⟨SEGV_PKUERR, 0x1000#64, 1#32⟩

def closedContext : ThreadContext := ⟨0x55555554#32, 0x202#64⟩

theorem run_deniedAccess (pid tid : ThreadId) : ∃ P st, P.underWay tid = some st ∧
    Run (ProcessStep pid) (Process.start (AllocSiteHandler.init 0) fun _ => closedContext)
      [.fault tid deniedAccess] P := by
  obtain ⟨h, ctx, hcall⟩ := exists_pku_segv_handler none tid deniedAccess closedContext rfl
    (rfl : (AllocSiteHandler.init 0).allocSiteCount = 0)
  exact ⟨_, _, Function.update_self ..,
    Run.nil.snoc (ProcessStep.fault rfl rfl (by decide) hcall)⟩

theorem trapRestores_iff_main_step : ∃ P, Run (ProcessStep 1)
    (Process.start (AllocSiteHandler.init 0) fun _ => closedContext) [.fault 1 deniedAccess] P ∧
      ∃ P', ProcessStep 1 P (.trap 1) P' ∧ TrapRestores P 1 P' := by
  obtain ⟨P, st, hst, hrun⟩ := run_deniedAccess 1 1
  have htrap : ProcessStep 1 P (.trap 1) _ := ProcessStep.trap hst
  refine ⟨P, hrun, _, htrap, ?_⟩
  refine (trapRestores_iff_main 1 _ _ _ _ (hrun.snoc htrap)).2 ?_ [.fault 1 deniedAccess] 1 [] P _
    rfl hrun htrap
  intro tid htid
  simpa using htid

/-- **A trap does not restore every thread**: on a thread other than the main one the entry stays,
and with it the key stays open. -/
theorem not_trapRestores : ¬ ∀ (pid tid : ThreadId) (h : AllocSiteHandler)
    (context : ThreadId → ThreadContext) (es : List ProcessEvent) (P P' : Process),
    Run (ProcessStep pid) (Process.start h context) es P → ProcessStep pid P (.trap tid) P' →
      TrapRestores P tid P' := by
  intro hall
  obtain ⟨P, st, hst, hrun⟩ := run_deniedAccess 1 2
  have htrap : ProcessStep 1 P (.trap 2) _ := ProcessStep.trap hst
  exact (EntryPending.run hrun).entry_of_trap (by decide) htrap
    (hall 1 2 _ _ _ P _ hrun htrap)

end Provsan
