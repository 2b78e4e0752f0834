/-
**From violations to the report.**

The executions of a module are about hooks and faults; a program on a processor makes accesses and
changes its rights.  Here the two meet: when a program runs on the machine that single-steps, the
first access of an instruction that violates the program's own rights is a fault of the execution,
in the block that is live at its address.  So what is shown about the blocks that fault holds of
these violations.

Main results:

* `Provsan.Execution.events_run` — an execution is determined by its events;
* `Provsan.violations_fault` — **the first violations of the instructions are faults in the blocks
  they touch**.
-/

import Provsan.EndToEnd.Provenance
import Provsan.Runtime.Machine

set_option relaxedAutoImplicit false
set_option autoImplicit false

namespace Provsan

theorem ownTrace_append (pkru : BitVec 32) (keys : PageKeys) (is is' : List Instr) :
    ownTrace pkru keys (is ++ is') = ownTrace pkru keys is ++
      ownTrace (is.foldl Instr.pkru pkru) (is.foldl Instr.keys keys) is' := by
  induction is generalizing pkru keys with
  | nil => rfl
  | cons i is ih =>
      cases i with
      | access accs =>
          rw [List.cons_append, ownTrace, ownTrace, ih, List.append_assoc]
          rfl
      | hook c =>
          rw [List.cons_append, ownTrace, ownTrace, ih]
          rfl
      | wrpkru pkru' => exact ih ..
      | pkey_mprotect page key => exact ih ..

/-- **An execution is determined by its events**, as far as the runtime goes. -/
theorem Execution.events_run {M : Module} {total : ℕ} {es : List ProgramEvent} {E : Execution}
    (h : Run (ExecutionStep M) (Execution.start total) es E) :
    (es.map ProgramEvent.event).foldlM Event.run (AllocSiteHandler.init total) =
      some E.handler := by
  induction h with
  | nil => rfl
  | snoc _ hstep ih =>
      rw [List.map_append, List.foldlM_append, ih]
      have hlast := hstep.sessionStep.eventStep
      simp only [List.map_cons, List.map_nil, List.foldlM_cons, List.foldlM_nil,
        Option.bind_eq_bind, Option.bind_some]
      rw [hlast]
      rfl

/-- **The first violations of the instructions are faults in the blocks they touch.**  A program
whose instructions violate one key each has run on the machine, and `es` are its events in an
execution of the module.  Then the execution ends with what the machine has recorded, and the first
violation of each instruction is a fault in each block that was live at its address when the
instruction began. -/
theorem violations_fault (M' : Module) (total : ℕ) (prevAction : Option SigAction) (pid : ThreadId)
    (fuel : ℕ) (hfuel : 16 ≤ fuel) (m : Machine) (hidle : m.Idle pid)
    (hstart : m.handler = AllocSiteHandler.init total) (is : List Instr)
    (hsingle : SingleKeys m.ctx.pkru m.keys is) (r : List Event × Machine)
    (hrun : runTrace (Machine.step prevAction pid fuel) m is = some r) (es : List ProgramEvent)
    (E : Execution) (hexec : Run (ExecutionStep M') (Execution.start total) es E)
    (hevents : es.map ProgramEvent.event = r.1) :
    E.handler = r.2.handler ∧
      ∀ is₁ accs is₂, is = is₁ ++ .access accs :: is₂ →
        ∀ a ∈ ownViolations (is₁.foldl Instr.pkru m.ctx.pkru) (is₁.foldl Instr.keys m.keys) accs,
          ∃ es₁ E₁, es₁ <+: es ∧
            es₁.map ProgramEvent.event = ownTrace m.ctx.pkru m.keys is₁ ∧
            Run (ExecutionStep M') (Execution.start total) es₁ E₁ ∧
            ∀ b ∈ E₁.live, a.ptr ∈ b.addrs → FaultIn M' total es E E₁ b := by
  obtain ⟨h, hh, rfl⟩ := Machine.exists_of_runTrace hfuel hidle hrun
  have htrace : (m.monitor.run is).1 = ownTrace m.ctx.pkru m.keys is :=
    (Monitor.run_of_singleKeys (show m.monitor.leaked = [] from rfl) hsingle).2
  constructor
  · have hE := Execution.events_run hexec
    rw [hevents, ← hstart] at hE
    exact Option.some_inj.1 (hE.symm.trans hh)
  · intro is₁ accs is₂ his a ha
    change es.map ProgramEvent.event = (m.monitor.run is).1 at hevents
    have hone := hsingle is₁ accs is₂ his
    obtain ⟨l, l', hl⟩ := List.append_of_mem ha
    -- it is the only violation of the instruction
    have honly : ownViolations (is₁.foldl Instr.pkru m.ctx.pkru) (is₁.foldl Instr.keys m.keys)
        accs = [a] := by
      rw [hl, List.length_append, List.length_cons] at hone
      rw [hl, List.length_eq_zero_iff.1 (show l.length = 0 by omega),
        List.length_eq_zero_iff.1 (show l'.length = 0 by omega)]
      rfl
    have hcut : es.map ProgramEvent.event = ownTrace m.ctx.pkru m.keys is₁ ++
        (is₁.foldl Instr.keys m.keys).fault a :: ownTrace (is₁.foldl Instr.pkru m.ctx.pkru)
          (is₁.foldl Instr.keys m.keys) is₂ := by
      rw [hevents, htrace, his, ownTrace_append, ownTrace]
      rw [honly]
      rfl
    obtain ⟨es₁, es', rfl, hes₁, hes'⟩ := List.map_eq_append_iff.1 hcut
    obtain ⟨e, es₂, rfl, he, -⟩ := List.map_eq_cons_iff.1 hes'
    obtain ⟨E₁, hbefore, hrest⟩ := hexec.of_append
    obtain ⟨E₂, hstep, hafter⟩ := hrest.of_cons
    refine ⟨es₁, E₁, List.prefix_append .., hes₁, hbefore, fun b hb hptr => ?_⟩
    cases e with
    | hook CS c => exact absurd he (by simp [ProgramEvent.event, PageKeys.fault])
    | fault ptr pkey =>
        obtain ⟨rfl, -⟩ := Event.fault.inj he
        exact .mk rfl hbefore hstep hafter hb hptr

/-- The second allocation of `Provsan.staticModule`, and a read from its block. -/
def staticProgram : List Instr := [.hook staticBlock.allocCall, .access [⟨0x1004#64, false⟩]]

theorem singleKeys_staticProgram :
    SingleKeys closedMachine.ctx.pkru closedMachine.keys staticProgram := by
  refine singleKeys_of_length fun accs haccs => ?_
  rcases List.mem_cons.1 haccs with h | h
  · exact absurd h (by simp)
  · obtain rfl := Instr.access.inj (List.mem_singleton.1 h)
    exact le_rfl

theorem violations_fault_static : ∃ E : Execution,
    Run (ExecutionStep staticModule') (Execution.start 0) staticEvents E ∧
      ∃ es₁ E₁, es₁ <+: staticEvents ∧
        es₁.map ProgramEvent.event = [.hook staticBlock.allocCall] ∧
          ∀ b ∈ E₁.live, 0x1004#64 ∈ b.addrs → FaultIn staticModule' 0 staticEvents E E₁ b := by
  obtain ⟨E, -, hexec, -⟩ := faultIn_staticEvents
  obtain ⟨r, hr⟩ := Option.isSome_iff_exists.1
    (show (runTrace (Machine.step none 1 16) closedMachine staticProgram).isSome from rfl)
  have hevents : staticEvents.map ProgramEvent.event = r.1 := by
    have htrace : (runTrace (Machine.step none 1 16) closedMachine staticProgram).map Prod.fst =
        some (staticEvents.map ProgramEvent.event) := rfl
    rw [hr] at htrace
    exact (Option.some_inj.1 htrace).symm
  obtain ⟨-, hfaults⟩ := violations_fault staticModule' 0 none 1 16 le_rfl closedMachine
    idle_closedMachine rfl staticProgram singleKeys_staticProgram r hr staticEvents E hexec hevents
  obtain ⟨es₁, E₁, hprefix, hes₁, -, hfault⟩ := hfaults [.hook staticBlock.allocCall] _ [] rfl
    ⟨0x1004#64, false⟩ (by decide)
  exact ⟨E, hexec, es₁, E₁, hprefix, hes₁, hfault⟩

end Provsan
