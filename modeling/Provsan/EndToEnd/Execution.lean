/-
**Executions of an instrumented program.**

The calls that the hooks of a module make are the calls that the runtime is given, each with the
site that the passes have laid down in the arguments of the hook.  Here the sequential runs of the
runtime are those of a module: every call is made by a hook of it, while pointers, sizes and the
order of the calls are left to the program.  Beside the runtime a run keeps the hook that has
created the block at an address.

Main definitions:

* `Provsan.CallSite.Makes` — the calls of the runtime that a hook makes;
* `Provsan.Execution`, `Provsan.ExecutionStep` — a program with its runtime, and its runs;
* `Provsan.Module.Tells` — the sites that the hooks of a module tell the runtime.

Main results:

* `Provsan.Execution.creatorsTold` — **every live block has the site of the hook that created it**;
* `Provsan.Execution.sitesIn` — **all sites that the runtime keeps are told by hooks**;
* `Provsan.ExecutionStep.contains_of_fault`, `Provsan.Execution.contains_of_run` — a fault in a
  block puts its site on record, where it stays.
-/

import Provsan.Passes.Linking
import Provsan.Runtime.FaultOrigin

set_option relaxedAutoImplicit false
set_option autoImplicit false

namespace Provsan

/-! ### Hooks and their calls -/

def SiteId.hookSite (site : SiteId) : HookSite :=
  ⟨.str site.funcName, .str site.bbName, .int64 site.localID.toInt⟩

/-- **The calls of the runtime that a hook makes.**  Ids and names are constants among its
arguments; pointers and sizes can be any. -/
def CallSite.Makes (CS : CallSite) : HookCall → Prop
  | .alloc _ _ localID bbName funcName =>
      CS.calledFunction = some "allocHook" ∧
        CS.hookSite? = some (SiteId.hookSite ⟨localID, bbName, funcName⟩)
  | .realloc _ _ _ _ localID bbName funcName =>
      CS.calledFunction = some "reallocHook" ∧
        CS.hookSite? = some (SiteId.hookSite ⟨localID, bbName, funcName⟩)
  | .dealloc _ _ localID =>
      CS.calledFunction = some "deallocHook" ∧ CS.args[2]? = some (.int64 localID.toInt)

/-- A hook that announces a block has an id, and tells the site of the block. -/
theorem CallSite.Makes.of_newBlock {CS : CallSite} {c : HookCall} (h : CS.Makes c) {base : RustPtr}
    {size : Int64} {site : SiteId} (hnew : c.newBlock = some (base, size, site)) :
    CS.isNumbered = true ∧ CS.hookSite? = some site.hookSite := by
  cases c with
  | alloc ptr size localID bbName funcName =>
      obtain ⟨-, -, rfl⟩ := (Option.some_inj.1 hnew : _ = (base, _, site))
      exact ⟨isNumbered_iff.2 ⟨2, hookIndex?_eq_some.2 (Or.inl ⟨h.1, rfl⟩), by omega⟩, h.2⟩
  | realloc newPtr newSize oldPtr oldSize localID bbName funcName =>
      obtain ⟨-, -, rfl⟩ := (Option.some_inj.1 hnew : _ = (base, _, site))
      exact ⟨isNumbered_iff.2 ⟨4, hookIndex?_eq_some.2 (Or.inr (Or.inl ⟨h.1, rfl⟩)), by omega⟩, h.2⟩
  | dealloc ptr size localID => exact absurd hnew (by simp [HookCall.newBlock])

/-! ### Runs of a program -/

/-- A program with its runtime.  For an address, `creator` is the hook that was the last one to
announce a block there. -/
structure Execution extends Session where
  creator : RustPtr → Option CallSite

/-- What happens in a run of a program: a hook makes a call, or an access faults. -/
inductive ProgramEvent
  | hook (CS : CallSite) (c : HookCall)
  | fault (ptr : RustPtr) (pkey : BitVec 32)
  deriving DecidableEq

def ProgramEvent.event : ProgramEvent → Event
  | hook _ c => .hook c
  | fault ptr pkey => .fault ptr pkey

/-- The creators of blocks after one more call. -/
def recordCreator (creator : RustPtr → Option CallSite) (CS : CallSite) (c : HookCall)
    (ptr : RustPtr) : Option CallSite :=
  match c.newBlock with
  | none => creator ptr
  | some (base, _, _) => if ptr = base then some CS else creator ptr

/-- **The sequential runs of a module** under a well-formed allocator. -/
inductive ExecutionStep (M : Module) : Execution → ProgramEvent → Execution → Prop
  | hook {S S' : Session} {creator : RustPtr → Option CallSite} {CS : CallSite} {c : HookCall}
      (hCS : CS ∈ M.calls) (hmakes : CS.Makes c) (hstep : SessionStep S (.hook c) S') :
      ExecutionStep M ⟨S, creator⟩ (.hook CS c) ⟨S', recordCreator creator CS c⟩
  | fault {S S' : Session} {creator : RustPtr → Option CallSite} {ptr : RustPtr}
      {pkey : BitVec 32} (hstep : SessionStep S (.fault ptr pkey) S') :
      ExecutionStep M ⟨S, creator⟩ (.fault ptr pkey) ⟨S', creator⟩

theorem SessionStep.eventStep {S S' : Session} {e : Event} (h : SessionStep S e S') :
    EventStep S.handler e S'.handler := by
  cases h with
  | hook _ hcall => exact hcall
  | fault hcall => exact hcall

namespace ExecutionStep

variable {M : Module} {E E' : Execution} {e : ProgramEvent}

theorem sessionStep (h : ExecutionStep M E e E') :
    SessionStep E.toSession e.event E'.toSession := by
  cases h with
  | hook _ _ hstep => exact hstep
  | fault hstep => exact hstep

theorem contains (h : ExecutionStep M E e E') {s : AllocSite}
    (hs : E.handler.faultSet.contains s = true) : E'.handler.faultSet.contains s = true :=
  contains_of_step h.sessionStep.eventStep hs

/-- **A fault in a block puts its site on record.** -/
theorem contains_of_fault {ptr : RustPtr} {pkey : BitVec 32}
    (ht : Tracks E.handler.allocationMap E.live) (h : ExecutionStep M E (.fault ptr pkey) E')
    {b : Block} (hb : b ∈ E.live) (hptr : ptr ∈ b.addrs) :
    ∃ s, s.siteId = b.site ∧ E'.handler.faultSet.contains s = true := by
  have hd := ht.getAllocSite_of_mem hb hptr
  exact ⟨_, hd.siteId, (AllocSiteHandler.contains_addFaultAlloc h.sessionStep.eventStep hd.isValid
    _).2 (Or.inr (Or.inl BEq.rfl))⟩

end ExecutionStep

/-- The sites that the hooks of a module tell the runtime. -/
structure Module.Tells (M : Module) (site : SiteId) : Prop where
  id_nonneg : 0 ≤ site.localID
  told : ∃ CS ∈ M.calls, CS.isNumbered = true ∧ CS.hookSite? = some site.hookSite

namespace Execution

def start (allocSiteTotal : ℕ) : Execution := ⟨Session.start allocSiteTotal, fun _ => none⟩

/-- **Every live block has the site of the hook that created it.** -/
def CreatorsTold (M : Module) (E : Execution) : Prop :=
  ∀ b ∈ E.live, ∃ CS ∈ M.calls, E.creator b.base = some CS ∧ CS.isNumbered = true ∧
    CS.hookSite? = some b.site.hookSite

section

variable {M : Module} {allocSiteTotal : ℕ} {es : List ProgramEvent} {E E' : Execution}

/-- One step keeps that: a block that was live before has another base than the new one. -/
theorem CreatorsTold.step (hcreators : CreatorsTold M E) {e : ProgramEvent}
    (hstep : ExecutionStep M E e E') : CreatorsTold M E' := by
  cases hstep with
  | fault hstep =>
      cases hstep with
      | fault hcall => exact hcreators
  | @hook S S' creator CS c hCS hmakes hstep =>
      cases hstep with
      | @hook h h' L L' c halloc hcall =>
          intro b hb
          rcases halloc.mem_cases hb with hnew | ⟨hold, hother⟩
          · obtain ⟨hnum, hsite⟩ := hmakes.of_newBlock hnew
            exact ⟨CS, hCS, by simp [recordCreator, hnew], hnum, hsite⟩
          · obtain ⟨CS', hCS', hcreator, hrest⟩ := hcreators b hold
            refine ⟨CS', hCS', ?_, hrest⟩
            cases hnew : c.newBlock with
            | none => simpa [recordCreator, hnew] using hcreator
            | some block =>
                obtain ⟨base, size, site⟩ := block
                simpa [recordCreator, hnew, hother base size site hnew] using hcreator

theorem creatorsTold (hrun : Run (ExecutionStep M) (start allocSiteTotal) es E) :
    CreatorsTold M E :=
  hrun.invariant (I := CreatorsTold M) (fun b hb => absurd hb (Set.notMem_empty b))
    fun _ _ _ hcreators hstep => hcreators.step hstep

theorem tracks (hrun : Run (ExecutionStep M) (start allocSiteTotal) es E) :
    Tracks E.handler.allocationMap E.live :=
  hrun.invariant (I := fun E => Tracks E.handler.allocationMap E.live) Tracks.empty
    fun _ _ _ ht hstep => Session.tracks_step ht hstep.sessionStep

/-- **All sites that the runtime keeps are told by hooks.** -/
theorem sitesIn (hrun : Run (ExecutionStep M) (start allocSiteTotal) es E) :
    SitesIn M.Tells E.handler := by
  refine hrun.invariant (I := fun E => SitesIn M.Tells E.handler) (SitesIn.init _) ?_
  intro E e E' hsites hstep
  refine hsites.step hstep.sessionStep.eventStep fun c base size site hc hblock hid => ⟨hid, ?_⟩
  cases hstep with
  | fault hstep => exact absurd hc (by simp [ProgramEvent.event])
  | @hook S S' creator CS c' hCS hmakes hstep =>
      obtain rfl := Event.hook.inj hc
      exact ⟨CS, hCS, hmakes.of_newBlock hblock⟩

theorem contains_of_run (hrun : Run (ExecutionStep M) E es E') {s : AllocSite}
    (hs : E.handler.faultSet.contains s = true) : E'.handler.faultSet.contains s = true :=
  hrun.invariant (I := fun E => E.handler.faultSet.contains s = true) hs
    fun _ _ _ hs hstep => hstep.contains hs

end

end Execution

end Provsan
