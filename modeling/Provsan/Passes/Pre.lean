/-
**The instrumenting pass.**

`Passes/DynUntrustedAllocPre/DynUntrustedAllocPre.cpp`: after every direct call of a configured
allocation, reallocation or deallocation function the pass inserts a call of the runtime's hook.
After a plain call that is the next position in the block.  After an invoke it is the head of the
normal destination, when no other edge leads there; otherwise the edge is split, and the hook goes
into the block in between.

Main definitions:

* `Provsan.PreOptions`, `Provsan.Targets` — the configured names, and those of the module's
  functions;
* `Provsan.getHookInst` — the hook of a call;
* `Provsan.Function.splitEdge` — LLVM's `SplitEdge`, for the normal edge of an invoke;
* `Provsan.hookBlock`, `Provsan.hookFunction`, `Provsan.hookFunctions`,
  `Provsan.DynUntrustedAllocPre.run` — the pass.

Main results:

* `Provsan.getHookInst_of_hook` — hooks get no hooks;
* `Provsan.hookBody_eq_some` — what the pass makes of the body of a block.
-/

import Provsan.Passes.IR

set_option relaxedAutoImplicit false
set_option autoImplicit false

namespace Provsan

/-! ### The pass -/

/-- The lists of names behind the options `provsan-alloc`, `provsan-realloc` and `provsan-free`. -/
structure PreOptions where
  ProvSanAlloc : List String
  ProvSanRealloc : List String
  ProvSanFree : List String

/-- The sets of target functions, by their names. -/
structure Targets where
  AllocFunctions : List String
  ReallocFunctions : List String
  DeallocFunctions : List String

/-- `GetTargetFunctionSet`: the names that are functions of the module. -/
def getTargetFunctionSet (M : Module) (targets : List String) : List String :=
  targets.filter fun name => (M.getFunction name).isSome

def getDummyID : Value := .int64 (-1)

def GlobalNullStr : Value := .null

/-- `getHookInst`: the hook of a call, if it is to have one; `none` when `getArgOperand` is out of
range. -/
def getHookInst (T : Targets) (CS : CallSite) : Option (Option CallSite) :=
  match CS.calledFunction with
  | none => some none
  | some F =>
      if F ∈ T.AllocFunctions then do
        let size ← CS.args[0]?
        some (some ⟨.hookOf CS.id, some "allocHook",
          [.call CS.id, size, getDummyID, GlobalNullStr, GlobalNullStr], none⟩)
      else if F ∈ T.ReallocFunctions then do
        let newSize ← CS.args[3]?
        let oldPtr ← CS.args[0]?
        let oldSize ← CS.args[1]?
        some (some ⟨.hookOf CS.id, some "reallocHook",
          [.call CS.id, newSize, oldPtr, oldSize, getDummyID, GlobalNullStr, GlobalNullStr], none⟩)
      else if F ∈ T.DeallocFunctions then do
        let ptr ← CS.args[0]?
        let size ← CS.args[1]?
        some (some ⟨.hookOf CS.id, some "deallocHook", [ptr, size, getDummyID], none⟩)
      else some none

/-- The plain calls of a block get their hooks right after them.  The loop then comes to the hook
itself, which is no target. -/
def hookBody (T : Targets) : List Instruction → Option (List Instruction)
  | [] => some []
  | .other n :: rest => (hookBody T rest).map fun rest => .other n :: rest
  | .call CS :: rest => do
      let newHook ← getHookInst T CS
      let rest ← hookBody T rest
      some (.call CS :: ((newHook.map Instruction.call).toList ++ rest))

namespace Function

def modify (F : Function) (b : BlockId) (f : BasicBlock → BasicBlock) : Function :=
  { F with blocks := F.blocks.map fun BB => if BB.id = b then f BB else BB }

/-- Insertion before the first instruction of the block that is no phi node. -/
def insertFront (F : Function) (b : BlockId) (CS : CallSite) : Function :=
  F.modify b fun BB => { BB with body := .call CS :: BB.body }

end Function

/-- `setIncomingBlock` of the first entry for `old`. -/
def revector (old new : BlockId) : List (BlockId × Value) → List (BlockId × Value)
  | [] => []
  | (p, v) :: rest => if p = old then (new, v) :: rest else (p, v) :: revector old new rest

/-- `setSuccessor(0, new)` of an invoke. -/
def Terminator.setNormal (new : BlockId) : Terminator → Terminator
  | .invoke cs _ unwind => .invoke cs new unwind
  | term => term

/-- What `SplitEdge` makes of a block, for the normal edge of the invoke `i` from `src` to `dest`:
the invoke is redirected to the new block, which comes after its own, and the phi nodes of the
destination are told. -/
def BasicBlock.splitEdge (i : InstId) (src dest : BlockId) (name : String) (BB : BasicBlock) :
    List BasicBlock :=
  let BB' : BasicBlock :=
    { BB with
      term := if BB.id = src then BB.term.setNormal (.splitOf i) else BB.term
      phis := if BB.id = dest then
          BB.phis.map fun phi => { phi with incoming := revector src (.splitOf i) phi.incoming }
        else BB.phis }
  if BB.id = src then [BB', ⟨.splitOf i, name, [], [], .br [dest]⟩] else [BB']

/-- `SplitEdge` of the normal edge of an invoke.  An invoke has two successors and the destination
another predecessor, so that the edge is critical, and a block that branches to the destination is
put into it.  `name` is what LLVM calls that block. -/
def Function.splitEdge (F : Function) (i : InstId) (src dest : BlockId) (name : String) :
    Function :=
  { F with blocks := F.blocks.flatMap (BasicBlock.splitEdge i src dest name) }

/-- The turn of the loop of `hookFunctions` for the block `b`.  `names` are those LLVM gives to the
blocks of split edges. -/
def hookBlock (T : Targets) (names : InstId → String) (F : Function) (b : BlockId) :
    Option Function := do
  let BB ← F.block? b
  let body ← hookBody T BB.body
  let F := F.modify b fun BB => { BB with body := body }
  match BB.term with
  | .br _ => some F
  | .invoke CS normal _ =>
      let newHook ← getHookInst T CS
      match newHook with
      | none => some F
      | some hook =>
          if (F.getSinglePredecessor normal).isNone then
            some ((F.splitEdge CS.id b normal (names CS.id)).insertFront (.splitOf CS.id) hook)
          else some (F.insertFront normal hook)
  | .callbr CS _ => do
      -- a hook is made, but there is no place to put it
      let _ ← getHookInst T CS
      some F

/-- `hookFunctions` on one function: its blocks in reverse post-order, as they were before. -/
def hookFunction (T : Targets) (names : InstId → String) (F : Function) : Option Function :=
  if F.isDeclaration then some F else F.RPOT.foldlM (hookBlock T names) F

def hookFunctions (T : Targets) (names : InstId → String) (M : Module) : Option Module := do
  let functions ← M.functions.mapM (hookFunction T names)
  some { M with functions := functions }

def hookNames : List String := ["allocHook", "reallocHook", "deallocHook"]

/-- Declaring the hooks, with external linkage. -/
def declareHooks (M : Module) : Module :=
  hookNames.foldl (fun M name => (M.getOrInsertFunction name).setLinkage name .external) M

def PreOptions.targets (O : PreOptions) (M : Module) : Targets where
  AllocFunctions := getTargetFunctionSet M O.ProvSanAlloc
  ReallocFunctions := getTargetFunctionSet M O.ProvSanRealloc
  DeallocFunctions := getTargetFunctionSet M O.ProvSanFree

def DynUntrustedAllocPre.run (O : PreOptions) (names : InstId → String) (M : Module) :
    Option Module :=
  hookFunctions (O.targets M) names (declareHooks M)

/-! ### Hooks of calls -/

/-- The hook of a call, when the call has the operands for it. -/
def hookFor (T : Targets) (CS : CallSite) : Option CallSite := (getHookInst T CS).join

/-- The hooks themselves are no targets. -/
def Targets.NoHooks (T : Targets) : Prop :=
  ∀ name ∈ hookNames, name ∉ T.AllocFunctions ∧ name ∉ T.ReallocFunctions ∧
    name ∉ T.DeallocFunctions

def CallSite.isHook (CS : CallSite) : Bool :=
  match CS.calledFunction with
  | none => false
  | some F => F ∈ hookNames

theorem getHookInst_of_hookFor {T : Targets} {CS hook : CallSite} (h : hookFor T CS = some hook) :
    getHookInst T CS = some (some hook) := by
  unfold hookFor at h
  rcases hg : getHookInst T CS with _ | _ | hook'
  · rw [hg] at h
    exact absurd h (by simp)
  · rw [hg] at h
    exact absurd h (by simp)
  · rw [hg] at h
    rw [← h]
    rfl

/-- **What a hook is**: a call of one of the hook functions, named after the call it belongs to. -/
theorem hookFor_eq_some {T : Targets} {CS hook : CallSite} (h : hookFor T CS = some hook) :
    hook.id = .hookOf CS.id ∧ hook.isHook = true := by
  have hg := getHookInst_of_hookFor h
  unfold getHookInst at hg
  cases hf : CS.calledFunction with
  | none =>
      rw [hf] at hg
      exact absurd hg (by simp)
  | some F =>
      rw [hf] at hg
      dsimp only at hg
      split_ifs at hg with h₁ h₂ h₃
      · obtain ⟨size, -, hg⟩ := Option.bind_eq_some_iff.1 hg
        rw [← Option.some_inj.1 (Option.some_inj.1 hg)]
        exact ⟨rfl, rfl⟩
      · obtain ⟨newSize, -, hg⟩ := Option.bind_eq_some_iff.1 hg
        obtain ⟨oldPtr, -, hg⟩ := Option.bind_eq_some_iff.1 hg
        obtain ⟨oldSize, -, hg⟩ := Option.bind_eq_some_iff.1 hg
        rw [← Option.some_inj.1 (Option.some_inj.1 hg)]
        exact ⟨rfl, rfl⟩
      · obtain ⟨ptr, -, hg⟩ := Option.bind_eq_some_iff.1 hg
        obtain ⟨size, -, hg⟩ := Option.bind_eq_some_iff.1 hg
        rw [← Option.some_inj.1 (Option.some_inj.1 hg)]
        exact ⟨rfl, rfl⟩
      · exact absurd hg (by simp)

/-- **Hooks get no hooks.** -/
theorem getHookInst_of_hook {T : Targets} (hT : T.NoHooks) {CS : CallSite}
    (h : CS.isHook = true) : getHookInst T CS = some none := by
  unfold CallSite.isHook at h
  unfold getHookInst
  cases hf : CS.calledFunction with
  | none => rfl
  | some F =>
      rw [hf] at h
      obtain ⟨h₁, h₂, h₃⟩ := hT F (by simpa using h)
      simp only [h₁, h₂, h₃, if_false]

/-! ### Bodies -/

/-- An instruction, followed by its hook. -/
def hooked (T : Targets) : Instruction → List Instruction
  | .other n => [.other n]
  | .call CS => .call CS :: ((hookFor T CS).map Instruction.call).toList

/-- **What the pass makes of a body**: every call has its hook after it. -/
theorem hookBody_eq_some {T : Targets} {body body' : List Instruction} :
    hookBody T body = some body' ↔
      (∀ CS ∈ body.filterMap Instruction.call?, (getHookInst T CS).isSome) ∧
        body' = body.flatMap (hooked T) := by
  induction body generalizing body' with
  | nil =>
      constructor
      · exact fun h => ⟨fun CS hCS => absurd hCS (by simp), (Option.some_inj.1 h).symm⟩
      · rintro ⟨-, rfl⟩
        rfl
  | cons I rest ih =>
      cases I with
      | other n =>
          rw [hookBody, Option.map_eq_some_iff]
          simp only [ih, List.filterMap_cons, Instruction.call?, List.flatMap_cons, hooked]
          constructor
          · rintro ⟨rest', ⟨hargs, rfl⟩, rfl⟩
            exact ⟨hargs, rfl⟩
          · rintro ⟨hargs, rfl⟩
            exact ⟨_, ⟨hargs, rfl⟩, rfl⟩
      | call CS =>
          rw [hookBody]
          simp only [Option.bind_eq_bind, Option.bind_eq_some_iff, ih, List.filterMap_cons,
            Instruction.call?, List.forall_mem_cons, List.flatMap_cons, hooked, hookFor]
          constructor
          · rintro ⟨newHook, hnew, rest', ⟨hargs, rfl⟩, hbody⟩
            rw [hnew]
            exact ⟨⟨rfl, hargs⟩, (Option.some_inj.1 hbody).symm⟩
          · rintro ⟨⟨hCS, hargs⟩, rfl⟩
            obtain ⟨newHook, hnew⟩ := Option.isSome_iff_exists.1 hCS
            rw [hnew]
            exact ⟨newHook, rfl, _, ⟨hargs, rfl⟩, rfl⟩

/-- Hooks at the head of a body stay as they are. -/
theorem hookBody_append {T : Targets} (hT : T.NoHooks) {hooks : List Instruction}
    (hhooks : ∀ I ∈ hooks, ∃ CS, I = .call CS ∧ CS.isHook = true) (body : List Instruction) :
    hookBody T (hooks ++ body) = (hookBody T body).map (hooks ++ ·) := by
  induction hooks with
  | nil => simp
  | cons I hooks ih =>
      obtain ⟨CS, rfl, hCS⟩ := hhooks I (List.mem_cons_self ..)
      rw [List.cons_append, hookBody, getHookInst_of_hook hT hCS,
        ih fun J hJ => hhooks J (List.mem_cons_of_mem _ hJ)]
      cases hookBody T body <;> rfl

end Provsan
