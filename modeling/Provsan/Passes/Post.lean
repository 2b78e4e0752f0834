/-
**The numbering pass.**

`Passes/DynUntrustedAllocPost/DynUntrustedAllocPost.cpp`: after inlining, the post pass visits every
function and gives the hooks of allocations and reallocations in it the ids 0, 1, 2 and so on, in
the order in which it comes to them.  It tells them the names of their block and function, unless
the hooks are removed afterwards.  With a profile, the calls whose hooks have been seen to fault
are put on a list and reported, and their callees are replaced in the end.

The lists of the pass live as long as the process, which may run it on one module after the other.
They hold pointers to instructions, so that what they lead to may be in a module that has had its
turn before.

Main definitions:

* `Provsan.getDiagMessage`, `Provsan.PrintFaultingLocation` — the report of a call;
* `Provsan.ProvsanPost`, `Provsan.PassState` — the configuration of the pass, and its state while it
  visits a module;
* `Provsan.visitHook`, `Provsan.visitCall`, `Provsan.visitBlock`, `Provsan.visitFunction`,
  `Provsan.assignLocalIDs` — the visit of a module;
* `Provsan.Memory`, `Provsan.patchInstruction`, `Provsan.removeHooks` — what is done with the lists;
* `Provsan.Compiler`, `Provsan.ProvsanPost.run` — the pass.
-/

import Provsan.Passes.Pre
import Provsan.Passes.Profile
import Mathlib.Data.List.Sort

set_option relaxedAutoImplicit false
set_option autoImplicit false

namespace Provsan

/-! ### Reports -/

def position (filename : String) (line col : ℕ) : String :=
  filename ++ ":" ++ toString line ++ if col ≠ 0 then ":" ++ toString col else ""

/-- `getDiagMessage`, without the colours. -/
def getDiagMessage : DebugLoc → Bool → String
  | .loc filename line col, _ => position filename line col
  | .inlinedAt filename line col outer, first =>
      position filename line col ++ (if first then "" else " ]") ++ "\n\tInlined @[ " ++
        getDiagMessage outer false ++ if first then " ]" else ""

/-- `PrintFaultingLocation`: what is printed for a call, which must have a debug location. -/
def PrintFaultingLocation (inst : CallSite) : Option String :=
  inst.debugLoc.map fun DI =>
    "Error: Compartment Violation from memory originally allocated at " ++
      getDiagMessage DI true ++ "\n"

/-- What is printed when a site of the profile is in another block. -/
def blockMismatch (FS : FaultingSite) (bbName : String) : String :=
  "ERROR : Faulting allocation site found in non-matching BasicBlock:\n" ++
    "AllocSite(" ++ toString FS.localID ++ ", " ++ FS.funcName ++ ")\n" ++
    "TraceBlock(" ++ FS.bbName ++ ") -> " ++ "InstrBlock(" ++ bbName ++ ")\n"

/-! ### The visit of a module -/

structure ProvsanPost where
  MPKProfilePath : String
  RemoveHooks : Bool

/-- The state of the pass: its lists, the generator of the ids in the function that is being
visited, the hooks that have been given ids with these, and what has been printed. -/
structure PassState where
  hookList : List InstId
  patchList : List InstId
  LocalIDG : ℕ
  assigned : List (InstId × ℕ)
  errs : List String

def allocHookIndex : ℤ := 2

def reallocHookIndex : ℤ := 4

def deallocHookIndex : ℤ := -1

/-- The hooks, and the position of the id among their arguments. -/
def patchArgIndexMap : List (String × ℤ) :=
  [("allocHook", allocHookIndex), ("reallocHook", reallocHookIndex),
    ("deallocHook", deallocHookIndex)]

/-- The position of the id in a direct call of a hook. -/
def hookIndex? (CS : CallSite) : Option ℤ :=
  CS.calledFunction.bind fun hook => patchArgIndexMap.lookup hook

/-- `setArgOperand` of an argument that there is. -/
def CallSite.setArgOperand (CS : CallSite) (i : ℕ) (v : Value) : Option CallSite :=
  if i < CS.args.length then some { CS with args := CS.args.set i v } else none

def Value.call? : Value → Option InstId
  | .call id => some id
  | _ => none

/-- The site of the profile for the id of a hook in the function, and the call the hook refers
to. -/
def faulting? (fault_map : FaultMap) (funcName : String) (id : ℕ) (CS : CallSite) :
    Option (FaultingSite × InstId) := do
  let func_fault_map ← fault_map.find funcName
  let allocFunc ← CS.args[0]?
  let allocInst ← allocFunc.call?
  let FS ← func_fault_map.find id
  some (FS, allocInst)

section

variable (P : ProvsanPost) (fault_map : FaultMap) (F : Function)

/-- The arguments of a hook with an id in the block `bbName` of `F`. -/
def setHookArgs (bbName : String) (id index : ℕ) (CS : CallSite) : Option CallSite := do
  let CS ← CS.setArgOperand index (.int64 id)
  if P.RemoveHooks then some CS
  else do
    let CS ← CS.setArgOperand (index + 1) (.str bbName)
    CS.setArgOperand (index + 2) (.str F.name)

/-- What is done with the hook of an allocation or reallocation in the block `bbName` of `F`: it
takes the next id, and the call it refers to goes to `patchList` when the profile has a site for
that id. -/
def visitHook (bbName : String) (index : ℕ) (CS : CallSite) (st : PassState) :
    Option (CallSite × PassState) := do
  let id := st.LocalIDG
  let CS ← setHookArgs P F bbName id index CS
  let st := { st with LocalIDG := id + 1, assigned := st.assigned ++ [(CS.id, id)] }
  if P.MPKProfilePath = "" then
    some (CS, { st with errs := st.errs ++ ["MPKProfilePath was empty\n"] })
  else match faulting? fault_map F.name id CS with
  | none => some (CS, st)
  | some (FS, allocInst) => do
      let inst ← F.calls.find? (·.id = allocInst)
      let location ← PrintFaultingLocation inst
      some (CS, { st with
        patchList := st.patchList ++ [allocInst]
        errs := st.errs ++ (if bbName ≠ FS.bbName then [blockMismatch FS bbName] else []) ++
          [location] })

/-- The turn of the loop of `assignLocalIDs` for a call. -/
def visitCall (bbName : String) (CS : CallSite) (st : PassState) :
    Option (CallSite × PassState) :=
  match hookIndex? CS with
  | none => some (CS, st)
  | some index =>
      let st := if P.RemoveHooks then { st with hookList := st.hookList ++ [CS.id] } else st
      if index = deallocHookIndex then some (CS, st)
      else visitHook P fault_map F bbName index.toNat CS st

end

/-- The body of a block: its calls are visited one after the other. -/
def visitBody (visit : CallSite → PassState → Option (CallSite × PassState)) :
    List Instruction → PassState → Option (List Instruction × PassState)
  | [], st => some ([], st)
  | .other n :: rest, st => do
      let (rest, st) ← visitBody visit rest st
      some (.other n :: rest, st)
  | .call CS :: rest, st => do
      let (CS, st) ← visit CS st
      let (rest, st) ← visitBody visit rest st
      some (.call CS :: rest, st)

def visitTerm (visit : CallSite → PassState → Option (CallSite × PassState)) :
    Terminator → PassState → Option (Terminator × PassState)
  | .br dests, st => some (.br dests, st)
  | .invoke CS normal unwind, st => do
      let (CS, st) ← visit CS st
      some (.invoke CS normal unwind, st)
  | .callbr CS dests, st => do
      let (CS, st) ← visit CS st
      some (.callbr CS dests, st)

section

variable (P : ProvsanPost) (fault_map : FaultMap) (F : Function)
  (localSlot : Function → BlockId → ℤ)

/-- The name of a block, or one made from its number in the function, which is `localSlot`. -/
def blockName (BB : BasicBlock) : String :=
  if BB.name = "" then "block" ++ toString (localSlot F BB.id) else BB.name

def visitBlock (r : Function × PassState) (b : BlockId) : Option (Function × PassState) := do
  let BB ← r.1.block? b
  let visit := visitCall P fault_map F (blockName F localSlot BB)
  let (body, st) ← visitBody visit BB.body r.2
  let (term, st) ← visitTerm visit BB.term st
  some (r.1.modify b fun BB => { BB with body := body, term := term }, st)

def visitFunction (st : PassState) : Option (Function × PassState) :=
  F.RPOT.foldlM (visitBlock P fault_map F localSlot) (F, { st with LocalIDG := 0 })

end

/-- `funcSort`: the names in falling order. -/
def funcSort (F₁ F₂ : Function × ℕ) : Prop := F₂.1.name ≤ F₁.1.name

instance : DecidableRel funcSort := fun F₁ F₂ =>
  inferInstanceAs (Decidable (F₂.1.name ≤ F₁.1.name))

/-- The functions with bodies, by their names, and where they are in the module. -/
def workList (M : Module) : List (Function × ℕ) :=
  (M.functions.zipIdx.filter fun F => !F.1.isDeclaration).insertionSort funcSort

def assignLocalIDs (P : ProvsanPost) (env : Environment) (localSlot : Function → BlockId → ℤ)
    (M : Module) (st : PassState) : Option (Module × PassState) := do
  let fault_map ← getFaultingAllocMap env P.MPKProfilePath
  (workList M).foldlM (fun r F => do
    let (F', st) ← visitFunction P fault_map F.1 localSlot r.2
    some ({ functions := r.1.functions.set F.2 F' }, st)) (M, st)

/-! ### Instructions in memory -/

/-- A module the pass has been run on, and what it has put into the global `AllocSiteTotal`. -/
structure Processed where
  M : Module
  AllocSiteTotal : ℕ
  deriving DecidableEq

/-- The modules of the process: those the pass has been run on, and the one it is run on. -/
structure Memory where
  earlier : List Processed
  current : Module

def Module.calls (M : Module) : List CallSite := M.functions.flatMap Function.calls

/-- The calls that do not end their blocks. -/
def Module.plainCalls (M : Module) : List CallSite :=
  M.functions.flatMap fun F => F.blocks.flatMap fun BB => BB.body.filterMap Instruction.call?

def Module.map (M : Module) (f : Function → Function) : Module :=
  { M with functions := M.functions.map f }

namespace Memory

def calls (mem : Memory) : List CallSite :=
  (mem.earlier.flatMap fun m => m.M.calls) ++ mem.current.calls

def plainCalls (mem : Memory) : List CallSite :=
  (mem.earlier.flatMap fun m => m.M.plainCalls) ++ mem.current.plainCalls

def map (mem : Memory) (f : Function → Function) : Memory where
  earlier := mem.earlier.map fun m => { m with M := m.M.map f }
  current := mem.current.map f

end Memory

def Instruction.mapCall (f : CallSite → CallSite) : Instruction → Instruction
  | call CS => call (f CS)
  | other n => other n

def Terminator.mapCall (f : CallSite → CallSite) : Terminator → Terminator
  | br dests => br dests
  | invoke CS normal unwind => invoke (f CS) normal unwind
  | callbr CS dests => callbr (f CS) dests

def BasicBlock.mapCalls (f : CallSite → CallSite) (BB : BasicBlock) : BasicBlock :=
  { BB with body := BB.body.map (Instruction.mapCall f), term := BB.term.mapCall f }

def Function.mapCalls (f : CallSite → CallSite) (F : Function) : Function :=
  { F with blocks := F.blocks.map (BasicBlock.mapCalls f) }

def Function.dropCalls (p : CallSite → Bool) (F : Function) : Function :=
  { F with blocks := F.blocks.map fun BB =>
      { BB with body := BB.body.filter fun I => !I.call?.any p } }

/-! ### The pass -/

def AllocReplacementMap : List (String × String) :=
  [("__rust_alloc", "__rust_untrusted_alloc"), ("trusted_malloc", "untrusted_malloc"),
    ("__rust_alloc_zeroed", "__rust_untrusted_alloc_zeroed")]

/-- The function that a module has to replace another one. -/
def replacement? (M : Module) (calledFuncName : String) : Option String :=
  (AllocReplacementMap.lookup calledFuncName).filter fun name => (M.getFunction name).isSome

/-- `setCalledFunction` of the call `inst`. -/
def setCalledFunction (inst : InstId) (repl_func : String) (CS : CallSite) : CallSite :=
  if CS.id = inst then { CS with calledFunction := some repl_func } else CS

/-- `patchInstruction`; the call must still be there, and be a direct one. -/
def patchInstruction (mem : Memory) (inst : InstId) : Option Memory := do
  let CS ← mem.calls.find? (·.id = inst)
  let calledFuncName ← CS.calledFunction
  match replacement? mem.current calledFuncName with
  | none => some mem
  | some repl_func => some (mem.map (Function.mapCalls (setCalledFunction inst repl_func)))

/-- `eraseFromParent`.  It is undefined for an instruction that has been erased, and one that ends
its block would leave it open. -/
def eraseFromParent (mem : Memory) (inst : InstId) : Option Memory :=
  if inst ∈ mem.plainCalls.map CallSite.id then
    some (mem.map (Function.dropCalls (·.id = inst)))
  else none

/-- `removeFunctionUsers`: what still calls the function is erased, and then the function. -/
def removeFunctionUsers (M : Module) (F : String) : Option Module :=
  let M := M.map (Function.dropCalls (·.calledFunction = some F))
  if some F ∈ M.calls.map CallSite.calledFunction then none
  else some { functions := M.functions.filter (·.name ≠ F) }

/-- The turn of `removeHooks` for one of the hooks. -/
def removeHook (M : Module) (name : String) : Option Module :=
  if (M.getFunction name).isSome then removeFunctionUsers M name else some M

def removeHooks (hookList : List InstId) (mem : Memory) : Option Memory := do
  let mem ← hookList.foldlM eraseFromParent mem
  let M ← hookNames.foldlM removeHook mem.current
  some { mem with current := M }

/-- What lives as long as the process: the modules that have had their turn, the lists, the
generator of ids outside the functions, and what has been printed. -/
structure Compiler where
  processed : List Processed
  hookList : List InstId
  patchList : List InstId
  IDG : ℕ
  errs : List String
  deriving DecidableEq

def Compiler.fresh : Compiler := ⟨[], [], [], 0, []⟩

def ProvsanPost.run (P : ProvsanPost) (env : Environment) (localSlot : Function → BlockId → ℤ)
    (p : Compiler) (M : Module) : Option Compiler := do
  let (M, st) ← assignLocalIDs P env localSlot M ⟨p.hookList, p.patchList, 0, [], p.errs⟩
  let mem : Memory := ⟨p.processed, M⟩
  let mem ← (if P.MPKProfilePath = "" then some mem
    else st.patchList.foldlM patchInstruction mem)
  let mem ← (if P.RemoveHooks then removeHooks st.hookList mem else some mem)
  some { p with
    processed := mem.earlier ++ [⟨mem.current, p.IDG⟩]
    hookList := st.hookList
    patchList := st.patchList
    errs := st.errs }

end Provsan
