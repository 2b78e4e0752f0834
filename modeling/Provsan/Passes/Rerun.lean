/-
**The numbering pass over its own output.**

A build may come to the post pass again: the module of a profiling build, numbered already, is read
once more for the report build, or a report is made of a module that an older profile has patched.
The pass finds the same hooks then, gives them the ids they have, and the calls it has patched have
callees that nothing replaces.  So nothing of the first run is left when the second one lists at
least the calls of the first.

Main definitions:

* `Provsan.Function.recast` — a function with other calls in place of its own;
* `Provsan.CallSite.Like` — calls that the visit takes for the same;
* `Provsan.SlotsKept` — that the numbers of blocks do not depend on calls.

Main results:

* `Provsan.visitFunction_recast`, `Provsan.visit_recast` — the visit of a function, or a module,
  whose calls are others the visit takes for the same;
* `Provsan.foldlM_patch_again` — the patches of calls, some of which are patched already;
* `Provsan.run_rerun` — **a second run makes what it makes of the module before the first one**.
-/

import Provsan.Passes.Linking
import Provsan.Passes.Preservation

set_option relaxedAutoImplicit false
set_option autoImplicit false

namespace Provsan

open scoped List

/-! ### Functions with other calls -/

/-- A function with other calls in place of its own, which depend on the block. -/
def Function.recast (g : BasicBlock → CallSite → CallSite) (F : Function) : Function :=
  { F with blocks := F.blocks.map fun BB => BB.mapCalls (g BB) }

/-- **Calls that the visit takes for the same**: hooks of one kind, or no hooks, that refer to the
same call and have room for the same arguments. -/
structure CallSite.Like (CS CS' : CallSite) : Prop where
  id : CS'.id = CS.id
  hookIndex : hookIndex? CS' = hookIndex? CS
  refers : CS'.args[0]? = CS.args[0]?
  length : CS'.args.length = CS.args.length
  debugLoc : CS'.debugLoc = CS.debugLoc

/-- The calls of a function are recast as others the visit takes for the same. -/
def Function.Recasts (F : Function) (g : BasicBlock → CallSite → CallSite) : Prop :=
  ∀ BB ∈ F.blocks, ∀ CS ∈ BB.calls, CS.Like (g BB CS)

/-- The numbers LLVM has for the blocks of a function do not depend on what its calls call, and
with which arguments. -/
def SlotsKept (localSlot : Function → BlockId → ℤ) : Prop :=
  ∀ (F : Function) (g : BasicBlock → CallSite → CallSite), (∀ BB CS, (g BB CS).id = CS.id) →
    localSlot (F.recast g) = localSlot F

namespace CallSite.Like

variable {CS CS' : CallSite}

theorem isNumbered (h : CS.Like CS') : CS'.isNumbered = CS.isNumbered := by
  rw [CallSite.isNumbered, CallSite.isNumbered, h.hookIndex]

theorem isHook (h : CS.Like CS') : CS'.isHook = CS.isHook := by
  rw [← isSome_hookIndex?, ← isSome_hookIndex?, h.hookIndex]

theorem refl (CS : CallSite) : CS.Like CS := ⟨rfl, rfl, rfl, rfl, rfl⟩

theorem trans {CS'' : CallSite} (h : CS.Like CS') (h' : CS'.Like CS'') : CS.Like CS'' where
  id := h'.id.trans h.id
  hookIndex := h'.hookIndex.trans h.hookIndex
  refers := h'.refers.trans h.refers
  length := h'.length.trans h.length
  debugLoc := h'.debugLoc.trans h.debugLoc

/-- The hooks that take ids, in a list of calls. -/
theorem map_id_numbered {l l' : List CallSite} (h : List.Forall₂ Like l l') :
    (l'.filter CallSite.isNumbered).map CallSite.id =
      (l.filter CallSite.isNumbered).map CallSite.id := by
  induction h with
  | nil => rfl
  | @cons CS CS' l l' hcs _ ih =>
      have hnum := hcs.isNumbered
      cases hCS : CS.isNumbered <;> simp [hnum, hCS, hcs.id, ih]

/-- What is printed for a call of a list. -/
theorem find?_location {l l' : List CallSite} (h : List.Forall₂ Like l l') (i : InstId) :
    (l'.find? (·.id = i)).bind PrintFaultingLocation =
      (l.find? (·.id = i)).bind PrintFaultingLocation := by
  induction h with
  | nil => rfl
  | @cons CS CS' l l' hcs _ ih =>
      have hsame : PrintFaultingLocation CS' = PrintFaultingLocation CS := by
        rw [PrintFaultingLocation, PrintFaultingLocation, hcs.debugLoc]
      have hfirst := hcs.id
      by_cases hid : CS.id = i <;> simp [hfirst, hid, hsame, ih]

end CallSite.Like

section

variable {g : BasicBlock → CallSite → CallSite} {F : Function}

theorem recast_recast (g' : BasicBlock → CallSite → CallSite) : (F.recast g).recast g' =
    F.recast fun BB CS => g' (BB.mapCalls (g BB)) (g BB CS) := by
  simp only [Function.recast, List.map_map]
  congr 1
  exact List.map_congr_left fun BB _ => BB.mapCalls_mapCalls (g BB) (g' (BB.mapCalls (g BB)))

theorem mapCalls_recast (f : CallSite → CallSite) :
    (F.recast g).mapCalls f = F.recast fun BB CS => f (g BB CS) :=
  recast_recast fun _ => f

theorem recast_congr {g' : BasicBlock → CallSite → CallSite}
    (h : ∀ BB ∈ F.blocks, ∀ CS ∈ BB.calls, g BB CS = g' BB CS) : F.recast g = F.recast g' := by
  rw [Function.recast, Function.recast,
    List.map_congr_left fun BB hBB => BasicBlock.mapCalls_congr (h BB hBB)]

theorem mem_calls_recast {CS : CallSite} :
    CS ∈ (F.recast g).calls ↔ ∃ BB ∈ F.blocks, ∃ CS₀ ∈ BB.calls, g BB CS₀ = CS := by
  simp only [Function.calls, Function.recast, List.flatMap_map, List.mem_flatMap,
    BasicBlock.calls_mapCalls, List.mem_map]

@[simp] theorem name_recast : (F.recast g).name = F.name := rfl

@[simp] theorem ids_recast : (F.recast g).ids = F.ids := by
  rw [Function.recast, Function.ids, Function.ids, List.map_map]
  rfl

@[simp] theorem isDeclaration_recast : (F.recast g).isDeclaration = F.isDeclaration := by
  simp [Function.recast, Function.isDeclaration]

theorem block?_recast (b : BlockId) :
    (F.recast g).block? b = (F.block? b).map fun BB => BB.mapCalls (g BB) := by
  rw [Function.block?, Function.block?, Function.recast, List.find?_map]
  rfl

theorem succs_recast : (F.recast g).succs = F.succs := by
  funext b
  rw [Function.succs, Function.succs, block?_recast]
  cases F.block? b with
  | none => rfl
  | some BB => exact Terminator.succs_mapCall (g BB) BB.term

@[simp] theorem RPOT_recast : (F.recast g).RPOT = F.RPOT := by
  unfold Function.RPOT
  rw [succs_recast]
  cases hblocks : F.blocks with
  | nil => simp [Function.recast, hblocks]
  | cons entry rest => simp [Function.recast, hblocks, BasicBlock.mapCalls]

theorem visitedBlocks_recast :
    (F.recast g).visitedBlocks = F.visitedBlocks.map fun BB => BB.mapCalls (g BB) := by
  rw [Function.visitedBlocks, Function.visitedBlocks, RPOT_recast, List.map_filterMap]
  exact List.filterMap_congr fun b _ => block?_recast b

theorem Function.Recasts.forall₂_block (h : F.Recasts g) {BB : BasicBlock} (hBB : BB ∈ F.blocks) :
    List.Forall₂ CallSite.Like BB.calls (BB.mapCalls (g BB)).calls := by
  rw [BasicBlock.calls_mapCalls, List.forall₂_map_right_iff, List.forall₂_same]
  exact h BB hBB

theorem Function.Recasts.forall₂_visited (h : F.Recasts g) :
    List.Forall₂ CallSite.Like F.visited (F.recast g).visited := by
  rw [Function.visited, Function.visited, visitedBlocks_recast, List.flatMap_map]
  exact forall₂_flatMap fun BB hBB => h.forall₂_block (Function.mem_of_mem_visitedBlocks hBB)

theorem Function.Recasts.forall₂_calls (h : F.Recasts g) :
    List.Forall₂ CallSite.Like F.calls (F.recast g).calls := by
  rw [Function.calls, Function.calls, Function.recast, List.flatMap_map]
  exact forall₂_flatMap fun BB hBB => h.forall₂_block hBB

theorem map_id_calls_recast (h : F.Recasts g) :
    (F.recast g).calls.map CallSite.id = F.calls.map CallSite.id := by
  have hids : List.Forall₂ (fun i i' => i' = i) (F.calls.map CallSite.id)
      ((F.recast g).calls.map CallSite.id) := by
    rw [List.forall₂_map_left_iff, List.forall₂_map_right_iff]
    exact h.forall₂_calls.imp fun _ _ hcs => hcs.id
  exact (List.forall₂_eq_eq_eq ▸ hids.flip : _ = _)

theorem Function.WellFormed.recast (hF : F.WellFormed) (h : F.Recasts g) :
    (F.recast g).WellFormed where
  nodup := by
    rw [ids_recast]
    exact hF.nodup
  succs_mem BB hBB := by
    obtain ⟨BB₀, hBB₀, rfl⟩ := List.mem_map.1 hBB
    have hsuccs : (BB₀.mapCalls (g BB₀)).term.succs = BB₀.term.succs :=
      Terminator.succs_mapCall (g BB₀) BB₀.term
    rw [ids_recast, hsuccs]
    exact hF.succs_mem BB₀ hBB₀
  calls_nodup := by
    rw [map_id_calls_recast h]
    exact hF.calls_nodup

theorem Function.Recasts.localID (h : F.Recasts g) (i : InstId) :
    (F.recast g).localID i = F.localID i := by
  rw [Function.localID, Function.localID, Function.numbered, Function.numbered,
    CallSite.Like.map_id_numbered h.forall₂_visited]

end

/-! ### Visits -/

section

variable {P : ProvsanPost} {fault_map : FaultMap} {localSlot : Function → BlockId → ℤ}
  {g : BasicBlock → CallSite → CallSite} {F : Function}

/-- The arguments of a hook are set when there is room for them. -/
theorem isSome_setHookArgs_like {CS CS' : CallSite} (hcs : CS.Like CS') (bbName : String)
    (id index : ℕ) : (setHookArgs P F bbName id index CS').isSome =
      (setHookArgs P F bbName id index CS).isSome := by
  have hlen := hcs.length
  unfold setHookArgs CallSite.setArgOperand
  by_cases h₀ : index < CS.args.length <;> by_cases h₁ : index + 1 < CS.args.length <;>
    by_cases h₂ : index + 2 < CS.args.length <;> cases P.RemoveHooks <;> simp [hlen, h₀, h₁, h₂]

theorem setHookArgs_recast (bbName : String) (id index : ℕ) (CS : CallSite) :
    setHookArgs P (F.recast g) bbName id index CS = setHookArgs P F bbName id index CS := rfl

theorem Function.Recasts.patched? (h : F.Recasts g) {CS CS' : CallSite} (hcs : CS.Like CS') :
    patched? P fault_map (F.recast g) CS' = Provsan.patched? P fault_map F CS := by
  have hfaulting : faulting? fault_map F.name (F.localID CS.id) CS' =
      faulting? fault_map F.name (F.localID CS.id) CS := by
    rw [faulting?, faulting?, hcs.refers]
  rw [Provsan.patched?, Provsan.patched?, h.localID, hcs.id, hcs.isNumbered, name_recast, hfaulting]

theorem Function.Recasts.location? (h : F.Recasts g) (i : InstId) :
    location? (F.recast g) i = Provsan.location? F i :=
  CallSite.Like.find?_location h.forall₂_calls i

/-- **The visit of a call** does the same for one that it takes for it. -/
theorem Function.Recasts.visit (h : F.Recasts g) {CS CS' : CallSite} (hcs : CS.Like CS')
    (bbName : String) (st : PassState) :
    st.visit P fault_map (F.recast g) bbName CS' = st.visit P fault_map F bbName CS := by
  have hprinted : printed P fault_map (F.recast g) bbName CS' =
      printed P fault_map F bbName CS := by
    rw [printed, printed, h.patched? hcs, hcs.isNumbered]
    split_ifs
    · rfl
    · cases Provsan.patched? P fault_map F CS with
      | none => rfl
      | some e => simp only [h.location?]
  simp only [PassState.visit, hprinted, h.patched? hcs, hcs.isHook, hcs.isNumbered, hcs.id,
    h.localID]

theorem Function.Recasts.canVisit_call (h : F.Recasts g) {CS CS' : CallSite} (hcs : CS.Like CS')
    {bbName : String} (hvisit : Provsan.CanVisit P fault_map F bbName CS) :
    Provsan.CanVisit P fault_map (F.recast g) bbName CS' where
  args hnum := by
    rw [hcs.isNumbered] at hnum
    rw [setHookArgs_recast, h.localID, hcs.id, hcs.hookIndex, isSome_setHookArgs_like hcs]
    exact hvisit.args hnum
  location e he := by
    rw [h.patched? hcs] at he
    rw [h.location?]
    exact hvisit.location e he

theorem blockName_recast (hslot : localSlot (F.recast g) = localSlot F) (BB : BasicBlock) :
    blockName (F.recast g) localSlot (BB.mapCalls (g BB)) = blockName F localSlot BB := by
  rw [blockName, blockName, hslot]
  rfl

/-- **The visit of a function** does the same for one whose calls it takes for the same. -/
theorem visitFunction_recast (h : F.Recasts g) (hslot : localSlot (F.recast g) = localSlot F)
    (st : PassState) : st.visitFunction P fault_map localSlot (F.recast g) =
      st.visitFunction P fault_map localSlot F := by
  have hblock : ∀ BB ∈ F.visitedBlocks, ∀ st : PassState,
      st.visitBlock P fault_map localSlot (F.recast g) (BB.mapCalls (g BB)) =
        st.visitBlock P fault_map localSlot F BB := by
    intro BB hBB st
    have hmem := Function.mem_of_mem_visitedBlocks hBB
    rw [PassState.visitBlock, PassState.visitBlock, BasicBlock.calls_mapCalls, List.foldl_map,
      blockName_recast hslot]
    exact List.foldl_ext _ _ _ fun st CS hCS => h.visit (h BB hmem CS hCS) _ st
  rw [PassState.visitFunction, PassState.visitFunction, visitedBlocks_recast, List.foldl_map]
  exact List.foldl_ext _ _ _ fun st BB hBB => hblock BB hBB st

theorem Function.Recasts.canVisit (h : F.Recasts g) (hslot : localSlot (F.recast g) = localSlot F)
    (hvisit : F.CanVisit P fault_map localSlot) :
    (F.recast g).CanVisit P fault_map localSlot := by
  intro BB hBB CS hCS
  rw [visitedBlocks_recast] at hBB
  obtain ⟨BB₀, hBB₀, rfl⟩ := List.mem_map.1 hBB
  rw [BasicBlock.calls_mapCalls] at hCS
  obtain ⟨CS₀, hCS₀, rfl⟩ := List.mem_map.1 hCS
  rw [blockName_recast hslot]
  exact h.canVisit_call (h BB₀ (Function.mem_of_mem_visitedBlocks hBB₀) CS₀ hCS₀)
    (hvisit BB₀ hBB₀ CS₀ hCS₀)

/-- The visit recasts the calls of a function. -/
theorem numberFunction_eq_recast (F : Function) :
    numberFunction P localSlot F F.RPOT = F.recast (keptCall P localSlot id F) := by
  rw [numberFunction, Function.recast]
  congr 1
  refine List.map_congr_left fun BB _ => ?_
  split_ifs with hR
  · exact congrArg (BasicBlock.mapCalls · BB) (funext fun CS => by rw [keptCall, if_pos hR, id])
  · refine (BasicBlock.mapCalls_eq_self fun CS _ => ?_).symm
    rw [keptCall, if_neg hR, id]

/-- What the visit makes of a function whose calls are recast. -/
theorem numberFunction_recast (h : F.Recasts g) (hslot : localSlot (F.recast g) = localSlot F) :
    numberFunction P localSlot (F.recast g) (F.recast g).RPOT =
      F.recast fun BB CS => keptCall P localSlot id F BB (g BB CS) := by
  have hcall : ∀ bbName, numberCall P (F.recast g) bbName = numberCall P F bbName := by
    intro bbName
    funext CS
    rw [numberCall, numberCall, setHookArgs_recast, h.localID]
  rw [numberFunction_eq_recast, recast_recast]
  refine recast_congr fun BB _ CS _ => ?_
  rw [keptCall, keptCall, RPOT_recast, blockName_recast hslot, hcall]
  rfl

end

/-! ### The visit of a module -/

section

variable {P : ProvsanPost} {fault_map : FaultMap} {localSlot : Function → BlockId → ℤ} {M : Module}

/-- Changes of the functions that keep what the work list is made from. -/
theorem worked_map {f : Function → Function} (hname : ∀ F, (f F).name = F.name)
    (hdecl : ∀ F, (f F).isDeclaration = F.isDeclaration) :
    (M.map f).worked = M.worked.map f := by
  have hlist : workList (M.map f) = (workList M).map (Prod.map f id) := by
    rw [workList, workList, List.map_insertionSort (r := funcSort) (s := funcSort)]
    · rw [Module.map, List.zipIdx_map, List.filter_map]
      congr 2
      exact List.filter_congr fun x _ => by simp [hdecl]
    · exact fun x _ y _ => by rw [funcSort, funcSort, Prod.map_fst, Prod.map_fst, hname, hname]
  rw [Module.worked, Module.worked, hlist, List.map_map, List.map_map]
  rfl

variable {g : Function → BasicBlock → CallSite → CallSite}

variable (P fault_map) in
/-- **The visit of a module** does the same for one whose calls it takes for the same. -/
theorem visit_recast (h : ∀ F ∈ M.functions, F.Recasts (g F))
    (hslot : ∀ F, localSlot (F.recast (g F)) = localSlot F) (st : PassState) :
    (M.map fun F => F.recast (g F)).worked.foldl
      (fun st F => st.visitFunction P fault_map localSlot F) st =
        M.worked.foldl (fun st F => st.visitFunction P fault_map localSlot F) st := by
  rw [worked_map (fun F => name_recast) (fun F => isDeclaration_recast), List.foldl_map]
  exact List.foldl_ext _ _ _ fun st F hF =>
    visitFunction_recast (h F (Module.mem_worked.1 hF).1) (hslot F) st

variable (P fault_map) in
/-- So the same calls are listed. -/
theorem lists_recast (h : ∀ F ∈ M.functions, F.Recasts (g F))
    (hslot : ∀ F, localSlot (F.recast (g F)) = localSlot F) :
    (M.map fun F => F.recast (g F)).hookCalls P = M.hookCalls P ∧
      (M.map fun F => F.recast (g F)).patchCalls P fault_map = M.patchCalls P fault_map := by
  have hvisit := visit_recast P fault_map h hslot ⟨[], [], 0, [], []⟩
  have hhooks := congrArg PassState.hookList hvisit
  have hpatches := congrArg PassState.patchList hvisit
  rw [hookList_visit, hookList_visit, List.nil_append, List.nil_append] at hhooks
  rw [patchList_visit, patchList_visit, List.nil_append, List.nil_append] at hpatches
  exact ⟨hhooks, hpatches⟩

theorem number_recast (h : ∀ F ∈ M.functions, F.Recasts (g F))
    (hslot : ∀ F, localSlot (F.recast (g F)) = localSlot F) :
    (M.map fun F => F.recast (g F)).number P localSlot =
      M.map fun F => F.recast fun BB CS => keptCall P localSlot id F BB (g F BB CS) := by
  rw [Module.number, Module.map_map, Module.map, Module.map]
  exact congrArg Module.mk (List.map_congr_left fun F hF =>
    numberFunction_recast (h F hF) (hslot F))

end

/-! ### Patching again -/

section

variable {M : Module} {L L' : List InstId}

/-- What replaces a function is not replaced itself. -/
theorem replacement?_getD (f : String) : replacement? M ((replacement? M f).getD f) = none := by
  cases hr : replacement? M f with
  | none => rw [Option.getD_none, hr]
  | some repl_func =>
      have hvalues : ∀ e ∈ AllocReplacementMap, AllocReplacementMap.lookup e.2 = none := by decide
      obtain ⟨hlookup, -⟩ := Option.filter_eq_some_iff.1 hr
      obtain ⟨l₁, l₂, heq, -⟩ := List.lookup_eq_some_iff.1 hlookup
      have hmem : (f, repl_func) ∈ AllocReplacementMap := by
        rw [heq]
        simp
      rw [Option.getD_some, replacement?, hvalues _ hmem]
      rfl

/-- **Calls that are patched already stay as they are.** -/
theorem patchCall_patchCall (hsub : L ⊆ L') (CS : CallSite) :
    patchCall M L' (patchCall M L CS) = patchCall M L' CS := by
  by_cases hL : CS.id ∈ L
  · have hL' := hsub hL
    have hagain : ∀ f, (replacement? M ((replacement? M f).getD f)).getD
        ((replacement? M f).getD f) = (replacement? M f).getD f := by
      intro f
      rw [replacement?_getD, Option.getD_none]
    simp [patchCall, hL, hL', Function.comp_def, hagain]
  · have hsame : patchCall M L CS = CS := if_neg hL
    rw [hsame]

theorem patchCall_congr (h : ∀ i, i ∈ L ↔ i ∈ L') : patchCall M L = patchCall M L' := by
  funext CS
  simp only [patchCall, h]

/-- The patch of a call that is patched already. -/
theorem patch_again (hnd : (M.calls.map CallSite.id).Nodup) {CS : CallSite} (hCS : CS ∈ M.calls)
    (hf : CS.calledFunction.isSome) (hL : CS.id ∈ L) :
    (M.map (Function.mapCalls (patchCall M L))).patch CS.id =
      some (M.map (Function.mapCalls (patchCall M L))) := by
  obtain ⟨f, hf⟩ := Option.isSome_iff_exists.1 hf
  have hnd' : ((M.calls.map (patchCall M L)).map CallSite.id).Nodup := by
    simpa [List.map_map, Function.comp_def] using hnd
  have hfind := find?_call hnd' (List.mem_map_of_mem hCS)
  rw [id_patchCall] at hfind
  have hcallee : (patchCall M L CS).calledFunction = some ((replacement? M f).getD f) := by
    rw [patchCall, if_pos hL, hf, Option.map_some]
  unfold Module.patch
  rw [Module.calls_mapCalls, hfind]
  simp only [Option.bind_eq_bind, Option.bind_some, hcallee,
    replacement?_map (M := M) (g := Function.mapCalls (patchCall M L)) (fun F => rfl),
    replacement?_getD]

/-- **The patches of direct calls**, some of which may be patched already. -/
theorem foldlM_patch_again (hnd : (M.calls.map CallSite.id).Nodup) (L : List InstId) :
    ∀ D : List InstId, (∀ i ∈ L, ∃ CS ∈ M.calls, CS.id = i ∧ CS.calledFunction.isSome) →
      L.foldlM Module.patch (M.map (Function.mapCalls (patchCall M D))) =
        some (M.map (Function.mapCalls (patchCall M (D ++ L)))) := by
  induction L with
  | nil => intro D _; simp
  | cons i L ih =>
      intro D hL
      obtain ⟨CS, hCS, rfl, hf⟩ := hL i (List.mem_cons_self ..)
      have hrest := fun j hj => hL j (List.mem_cons_of_mem _ hj)
      rw [List.foldlM_cons]
      -- a call that comes a second time has the callee it should have
      by_cases hD : CS.id ∈ D
      · rw [patch_again hnd hCS hf hD]
        refine (ih D hrest).trans ?_
        have hsame : ∀ j, j ∈ D ++ L ↔ j ∈ D ++ CS.id :: L := by
          intro j
          simp only [List.mem_append, List.mem_cons]
          constructor
          · rintro (hj | hj)
            · exact Or.inl hj
            · exact Or.inr (Or.inr hj)
          · rintro (hj | rfl | hj)
            · exact Or.inl hj
            · exact Or.inl hD
            · exact Or.inr hj
        rw [patchCall_congr hsame]
      · have hassoc : D ++ CS.id :: L = D ++ [CS.id] ++ L := by simp
        rw [patch_patchCall hnd hCS hD hf, hassoc]
        exact ih _ hrest

/-- Patches that succeed are of direct calls. -/
theorem exists_of_foldlM_patch {M' : Module} (hnd : (M.calls.map CallSite.id).Nodup)
    (h : L.foldlM Module.patch M = some M') :
    ∀ i ∈ L, ∃ CS ∈ M.calls, CS.id = i ∧ CS.calledFunction.isSome := by
  induction L generalizing M with
  | nil => exact fun i hi => absurd hi (by simp)
  | cons i L ih =>
      rw [List.foldlM_cons] at h
      obtain ⟨M₁, h₁, h⟩ := Option.bind_eq_some_iff.1 h
      unfold Module.patch at h₁
      obtain ⟨CS, hfind, h₁⟩ := Option.bind_eq_some_iff.1 h₁
      obtain ⟨f, hf, h₁⟩ := Option.bind_eq_some_iff.1 h₁
      have hCS := List.mem_of_find?_eq_some hfind
      have hid : CS.id = i := by simpa using List.find?_some hfind
      refine List.forall_mem_cons.2 ⟨⟨CS, hCS, hid, by simp [hf]⟩, ?_⟩
      cases hr : replacement? M f with
      | none =>
          rw [hr] at h₁
          obtain rfl := Option.some_inj.1 h₁
          exact ih hnd h
      | some repl_func =>
          rw [hr] at h₁
          obtain rfl := Option.some_inj.1 h₁
          have hset : ∀ CS', (setCalledFunction i repl_func CS').id = CS'.id := by
            intro CS'
            unfold setCalledFunction
            split_ifs <;> rfl
          have hnd' : ((M.map (Function.mapCalls (setCalledFunction i repl_func))).calls.map
              CallSite.id).Nodup := by
            simpa [Module.calls_mapCalls, List.map_map, Function.comp_def, hset] using hnd
          intro j hj
          obtain ⟨CS', hCS', rfl, hf'⟩ := ih hnd' h j hj
          rw [Module.calls_mapCalls] at hCS'
          obtain ⟨CS₀, hCS₀, rfl⟩ := List.mem_map.1 hCS'
          refine ⟨CS₀, hCS₀, (hset CS₀).symm, ?_⟩
          by_cases heq : CS₀.id = i
          · -- it is the call that has just been found
            have hfind₀ := find?_call hnd hCS₀
            rw [heq, hfind] at hfind₀
            rw [← Option.some_inj.1 hfind₀, hf]
            rfl
          · rwa [setCalledFunction, if_neg heq] at hf'

end

/-! ### Erasing what differs -/

section

variable {M : Module} {F : Function} {a b : BasicBlock → CallSite → CallSite}

/-- Erasures that succeed are of different calls in the bodies of the blocks. -/
theorem subset_of_foldlM_erase {L : List InstId} {M' : Module}
    (h : L.foldlM Module.erase M = some M') :
    L.Nodup ∧ L ⊆ M.plainCalls.map CallSite.id := by
  induction L generalizing M with
  | nil => exact ⟨.nil, List.nil_subset _⟩
  | cons i L ih =>
      rw [List.foldlM_cons, Module.erase] at h
      obtain ⟨M₁, h₁, h⟩ := Option.bind_eq_some_iff.1 h
      split_ifs at h₁ with hi
      obtain rfl := Option.some_inj.1 h₁
      obtain ⟨hnd, hsub⟩ := ih h
      rw [Module.plainCalls_dropCalls] at hsub
      refine ⟨List.nodup_cons.2 ⟨fun hmem => ?_, hnd⟩, List.cons_subset.2 ⟨hi, fun j hj => ?_⟩⟩
      · -- what has been erased is not there to be erased once more
        obtain ⟨CS, hCS, heq⟩ := List.mem_map.1 (hsub hmem)
        exact absurd (List.mem_filter.1 hCS).2 (by simp [heq])
      · obtain ⟨CS, hCS, rfl⟩ := List.mem_map.1 (hsub hj)
        exact List.mem_map_of_mem (List.mem_of_mem_filter hCS)

/-- The call that ends a block is in no body. -/
theorem notMem_plainCalls_of_term (hnd : (M.calls.map CallSite.id).Nodup) (hF : F ∈ M.functions)
    {BB : BasicBlock} (hBB : BB ∈ F.blocks) {CS : CallSite} (hCS : CS ∈ BB.term.call?) :
    CS.id ∉ M.plainCalls.map CallSite.id := by
  have hfunction : ∀ F : Function, (F.blocks.flatMap fun BB =>
      BB.body.filterMap Instruction.call?) ++ (F.blocks.flatMap fun BB => BB.term.call?.toList) ~
        F.calls := fun F => List.flatMap_append_perm ..
  have hperm : M.plainCalls ++ (M.functions.flatMap fun F => F.blocks.flatMap fun BB =>
      BB.term.call?.toList) ~ M.calls :=
    (List.flatMap_append_perm ..).trans (List.Perm.flatMap_left _ fun F _ => hfunction F)
  have hend : CS.id ∈ (M.functions.flatMap fun F => F.blocks.flatMap fun BB =>
      BB.term.call?.toList).map CallSite.id :=
    List.mem_map_of_mem (List.mem_flatMap_of_mem hF (List.mem_flatMap_of_mem hBB
      (Option.mem_toList.2 hCS)))
  rw [← (hperm.map _).nodup_iff, List.map_append, List.nodup_append] at hnd
  exact fun hplain => hnd.2.2 _ hplain _ hend rfl

/-- **Erasing calls leaves no trace of how they were recast.** -/
theorem dropCalls_recast_congr {p : CallSite → Bool}
    (hbody : ∀ BB ∈ F.blocks, ∀ CS ∈ BB.calls,
      a BB CS = b BB CS ∨ p (a BB CS) = true ∧ p (b BB CS) = true)
    (hterm : ∀ BB ∈ F.blocks, ∀ CS ∈ BB.term.call?, a BB CS = b BB CS) :
    (F.recast a).dropCalls p = (F.recast b).dropCalls p := by
  simp only [Function.dropCalls, Function.recast, List.map_map]
  congr 1
  refine List.map_congr_left fun BB hBB => ?_
  have hend : BB.term.mapCall (a BB) = BB.term.mapCall (b BB) := by
    have hcalls := hterm BB hBB
    cases hBB' : BB.term with
    | br dests => rfl
    | invoke CS normal unwind =>
        rw [Terminator.mapCall, Terminator.mapCall, hcalls CS (by simp [hBB', Terminator.call?])]
    | callbr CS dests =>
        rw [Terminator.mapCall, Terminator.mapCall, hcalls CS (by simp [hBB', Terminator.call?])]
  have hkept : ∀ body : List Instruction, (∀ CS, .call CS ∈ body →
      a BB CS = b BB CS ∨ p (a BB CS) = true ∧ p (b BB CS) = true) →
        (body.map (Instruction.mapCall (a BB))).filter (fun I => !I.call?.any p) =
          (body.map (Instruction.mapCall (b BB))).filter fun I => !I.call?.any p := by
    intro body
    induction body with
    | nil => exact fun _ => rfl
    | cons I body ih =>
        intro hcalls
        have hrest := ih fun CS hCS => hcalls CS (List.mem_cons_of_mem _ hCS)
        cases I with
        | other n => simpa [Instruction.mapCall] using hrest
        | call CS =>
            rcases hcalls CS (List.mem_cons_self ..) with heq | ⟨ha, hb⟩
            · simp only [List.map_cons, Instruction.mapCall, heq, List.filter_cons, hrest]
            · simpa [Instruction.mapCall, List.filter_cons, ha, hb] using hrest
  have hcalls : ∀ CS, .call CS ∈ BB.body →
      a BB CS = b BB CS ∨ p (a BB CS) = true ∧ p (b BB CS) = true := fun CS hCS =>
    hbody BB hBB CS (List.mem_append_left _ (List.mem_filterMap.2 ⟨_, hCS, rfl⟩))
  simp only [Function.comp_apply, BasicBlock.mapCalls, hend, hkept BB.body hcalls]

end

/-! ### A call that is visited twice -/

section

variable {P P' : ProvsanPost} {localSlot : Function → BlockId → ℤ} {F : Function} {bbName : String}

/-- Setting the arguments of a hook adds none. -/
theorem length_setHookArgs {id index : ℕ} {CS CS' : CallSite}
    (h : setHookArgs P F bbName id index CS = some CS') : CS'.args.length = CS.args.length := by
  unfold setHookArgs at h
  obtain ⟨CS₁, h₁, h⟩ := Option.bind_eq_some_iff.1 h
  obtain ⟨-, rfl⟩ := setArgOperand_eq_some.1 h₁
  split_ifs at h
  · obtain rfl := Option.some_inj.1 h
    simp
  · obtain ⟨CS₂, h₂, h₃⟩ := Option.bind_eq_some_iff.1 h
    obtain ⟨-, rfl⟩ := setArgOperand_eq_some.1 h₂
    obtain ⟨-, rfl⟩ := setArgOperand_eq_some.1 h₃
    simp

/-- **The visit of a call makes one that it takes for the same.** -/
theorem like_numberCall (CS : CallSite) : CS.Like (numberCall P F bbName CS) := by
  refine ⟨id_numberCall CS, hookIndex?_congr (calledFunction_numberCall CS),
    args_numberCall bbName CS, ?_, ?_⟩
  all_goals
    unfold numberCall
    split_ifs with hnum
    · cases hset : setHookArgs P F bbName (F.localID CS.id) ((hookIndex? CS).getD 0).toNat CS with
      | none => rfl
      | some CS' => first | exact length_setHookArgs hset | exact (setHookArgs_eq_some hset).2.2.1
    · rfl

/-- **So does a patch.** -/
theorem like_patchCall (M : Module) (L : List InstId) (CS : CallSite) :
    CS.Like (patchCall M L CS) := by
  have hindex : hookIndex? (patchCall M L CS) = hookIndex? CS := by
    cases hCS : CS.isHook with
    | true => rw [patchCall_of_isHook hCS]
    | false =>
        have hpatched := isHook_patchCall (M := M) (L := L) hCS
        rw [← isSome_hookIndex?, Option.isSome_eq_false_iff, Option.isNone_iff_eq_none]
          at hCS hpatched
        rw [hCS, hpatched]
  refine ⟨id_patchCall M L CS, hindex, ?_, ?_, ?_⟩
  all_goals
    unfold patchCall
    split_ifs <;> rfl

/-- So does a build that keeps the hooks. -/
theorem recasts_keptCall (M : Module) (L : List InstId) :
    F.Recasts (keptCall P localSlot (patchCall M L) F) := by
  intro BB _ CS _
  unfold keptCall
  split_ifs
  · exact (like_numberCall CS).trans (like_patchCall M L _)
  · exact like_patchCall M L CS

theorem setArgOperand_self {CS : CallSite} {i : ℕ} {v : Value} (h : CS.args[i]? = some v) :
    CS.setArgOperand i v = some CS := by
  obtain ⟨hlt, hget⟩ := List.getElem?_eq_some_iff.1 h
  rw [setArgOperand_eq_some]
  refine ⟨hlt, ?_⟩
  rw [← hget, List.set_getElem_self]

/-- **A hook that is kept has its arguments already**, when it is visited again. -/
theorem numberCall_numberCall (hkeep : P.RemoveHooks = false) (CS : CallSite) :
    numberCall P F bbName (numberCall P F bbName CS) = numberCall P F bbName CS := by
  cases hnum : CS.isNumbered with
  | false =>
      have hsame : numberCall P F bbName CS = CS := if_neg (by simp [hnum])
      rw [hsame, hsame]
  | true =>
      have hlike : CS.Like (numberCall P F bbName CS) := like_numberCall CS
      obtain ⟨index, hindex, -⟩ := isNumbered_iff.1 hnum
      cases hset : setHookArgs P F bbName (F.localID CS.id) index CS with
      | none =>
          have hsame : numberCall P F bbName CS = CS := by
            rw [numberCall, if_pos hnum, hindex, Option.getD_some, Int.toNat_natCast, hset,
              Option.getD_none]
          rw [hsame, hsame]
      | some CS' =>
          have hCS' : numberCall P F bbName CS = CS' := by
            rw [numberCall, if_pos hnum, hindex, Option.getD_some, Int.toNat_natCast, hset,
              Option.getD_some]
          rw [hCS'] at hlike ⊢
          obtain ⟨h₀, h₁, h₂⟩ := setHookArgs_names hkeep hset
          have hagain : setHookArgs P F bbName (F.localID CS.id) index CS' = some CS' := by
            unfold setHookArgs
            rw [setArgOperand_self h₀]
            simp only [Option.bind_eq_bind, Option.bind_some, hkeep, setArgOperand_self h₁,
              setArgOperand_self h₂, Bool.false_eq_true, if_false]
          rw [numberCall, if_pos (hlike.isNumbered.trans hnum), hlike.id, hlike.hookIndex, hindex,
            Option.getD_some, Int.toNat_natCast, hagain, Option.getD_some]

/-- The visit depends on whether the hooks are kept, and on nothing else of the configuration. -/
theorem numberCall_congr (h : P'.RemoveHooks = P.RemoveHooks) :
    numberCall P' F bbName = numberCall P F bbName := by
  funext CS
  rw [numberCall, numberCall, setHookArgs, setHookArgs, h]

end

/-! ### A module that is visited twice -/

/-- A call of a module that is visited, once it has been visited and patched. -/
def twiceCall (P P' : ProvsanPost) (localSlot : Function → BlockId → ℤ)
    (patch : CallSite → CallSite) (F : Function) (BB : BasicBlock) (CS : CallSite) : CallSite :=
  keptCall P' localSlot id F BB (keptCall P localSlot patch F BB CS)

section

variable {P P' : ProvsanPost} {fault_map : FaultMap} {localSlot : Function → BlockId → ℤ}
  {M : Module} {F : Function} {BB : BasicBlock} {L L' : List InstId}

/-- The visit keeps the identity of a call, and whether it is a direct one. -/
theorem id_keptCall {patch : CallSite → CallSite} (hpatch : ∀ CS, (patch CS).id = CS.id)
    (CS : CallSite) : (keptCall P localSlot patch F BB CS).id = CS.id := by
  unfold keptCall
  split_ifs <;> simp [hpatch]

theorem isSome_calledFunction_keptCall {patch : CallSite → CallSite}
    (hpatch : ∀ CS, (patch CS).calledFunction.isSome = CS.calledFunction.isSome) (CS : CallSite) :
    (keptCall P localSlot patch F BB CS).calledFunction.isSome = CS.calledFunction.isSome := by
  unfold keptCall
  split_ifs <;> simp [hpatch]

theorem isSome_calledFunction_patchCall (CS : CallSite) :
    (patchCall M L CS).calledFunction.isSome = CS.calledFunction.isSome := by
  unfold patchCall
  split_ifs <;> simp

/-- **What is left of the first run**: of a call that is no hook nothing, once it is patched, and of
a hook that is kept its arguments. -/
theorem patchCall_twiceCall (hkeep : P.RemoveHooks = false) (hsub : L ⊆ L') (CS : CallSite)
    (h : BB.id ∈ F.RPOT → CS.isNumbered = true → P'.RemoveHooks = false) :
    patchCall M L' (twiceCall P P' localSlot (patchCall M L) F BB CS) =
      patchCall M L' (keptCall P' localSlot id F BB CS) := by
  unfold twiceCall keptCall
  split_ifs with hR
  · cases hnum : CS.isNumbered with
    | false =>
        -- a patch makes no hook of it, so that the second visit passes over it as well
        have hno : ∀ P : ProvsanPost, ∀ CS : CallSite, CS.isNumbered = false →
            numberCall P F (blockName F localSlot BB) CS = CS :=
          fun P CS hCS => if_neg (by simp [hCS])
        have hpatched := (like_patchCall M L CS).isNumbered.trans hnum
        rw [hno P CS hnum, hno P' _ hpatched, hno P' CS hnum, id, id, patchCall_patchCall hsub]
    | true =>
        have hkeep' := (h hR hnum).trans hkeep.symm
        have hhook : (numberCall P F (blockName F localSlot BB) CS).isHook = true :=
          (like_numberCall CS).isHook.trans (isHook_of_isNumbered hnum)
        rw [patchCall_of_isHook hhook, numberCall_congr hkeep', numberCall_numberCall hkeep]
  · rw [id, id, patchCall_patchCall hsub]

/-- The hooks that are visited are listed to be erased. -/
theorem mem_hookCalls (hM : M.WellFormed) (hF : F ∈ M.functions) (hBB : BB ∈ F.blocks)
    (hR : BB.id ∈ F.RPOT) {CS : CallSite} (hCS : CS ∈ BB.calls) (hnum : CS.isNumbered = true)
    (hremove : P.RemoveHooks = true) : CS.id ∈ M.hookCalls P := by
  have hvisited : CS ∈ F.visited := List.mem_flatMap_of_mem
    ((hM.functions F hF).mem_visitedBlocks.2 ⟨hBB, hR⟩) hCS
  refine List.mem_flatMap_of_mem
    (Module.mem_worked.2 ⟨hF, Function.isDeclaration_of_mem_visited hvisited⟩) ?_
  rw [Function.hookCalls, if_pos hremove]
  exact List.mem_map_of_mem (List.mem_filter.2 ⟨hvisited, isHook_of_isNumbered hnum⟩)

/-- Without a profile nothing is listed to be patched. -/
theorem patchCalls_eq_nil (hpath : P.MPKProfilePath = "") : M.patchCalls P fault_map = [] := by
  rw [Module.patchCalls, List.flatMap_eq_nil_iff]
  intro F _
  rw [Function.patchCalls, List.filterMap_eq_nil_iff]
  intro CS _
  rw [patched?, if_neg fun h => h.2 hpath]
  rfl

theorem map_id_plainCalls_recast {g : Function → BasicBlock → CallSite → CallSite}
    (hg : ∀ F BB CS, (g F BB CS).id = CS.id) :
    (M.map fun F => F.recast (g F)).plainCalls.map CallSite.id = M.plainCalls.map CallSite.id := by
  simp only [Module.map, Module.plainCalls, Function.recast, BasicBlock.mapCalls,
    List.flatMap_map, List.map_flatMap, List.filterMap_map, List.map_filterMap]
  refine List.flatMap_congr fun F _ => List.flatMap_congr fun BB _ =>
    List.filterMap_congr fun I _ => ?_
  cases I <;> simp [hg]

theorem map_id_calls_map_recast {g : Function → BasicBlock → CallSite → CallSite}
    (hg : ∀ F BB CS, (g F BB CS).id = CS.id) :
    (M.map fun F => F.recast (g F)).calls.map CallSite.id = M.calls.map CallSite.id := by
  simp only [Module.map, Module.calls, Function.calls, Function.recast, List.flatMap_map,
    List.map_flatMap, BasicBlock.calls_mapCalls, List.map_map]
  exact List.flatMap_congr fun F _ => List.flatMap_congr fun BB _ =>
    List.map_congr_left fun CS _ => hg F BB CS

/-- The patches of a module whose calls are recast, when those it lists are direct. -/
theorem foldlM_patch_recast (hM : M.WellFormed) {g : Function → BasicBlock → CallSite → CallSite}
    (hid : ∀ F BB CS, (g F BB CS).id = CS.id)
    (hdirect : ∀ F BB CS, (g F BB CS).calledFunction.isSome = CS.calledFunction.isSome)
    (hL : ∀ i ∈ L, ∃ CS ∈ M.calls, CS.id = i ∧ CS.calledFunction.isSome) :
    L.foldlM Module.patch (M.map fun F => F.recast (g F)) =
      some (M.map fun F => F.recast fun BB CS => patchCall M L (g F BB CS)) := by
  have hnd : ((M.map fun F => F.recast (g F)).calls.map CallSite.id).Nodup := by
    rw [map_id_calls_map_recast hid]
    exact hM.calls_nodup
  have hlisted : ∀ i ∈ L, ∃ CS ∈ (M.map fun F => F.recast (g F)).calls,
      CS.id = i ∧ CS.calledFunction.isSome := by
    intro i hi
    obtain ⟨CS, hCS, rfl, hf⟩ := hL i hi
    obtain ⟨F, hF, hCS⟩ := List.mem_flatMap.1 hCS
    obtain ⟨BB, hBB, hCS⟩ := List.mem_flatMap.1 hCS
    refine ⟨g F BB CS, ?_, hid F BB CS, (hdirect F BB CS).trans hf⟩
    exact List.mem_flatMap_of_mem (List.mem_map_of_mem hF)
      (mem_calls_recast.2 ⟨BB, hBB, CS, hCS, rfl⟩)
  have hpatch : patchCall (M.map fun F => F.recast (g F)) L = patchCall M L := by
    funext CS
    simp only [patchCall, replacement?_map (M := M) (g := fun F => F.recast (g F)) fun F => rfl]
  have hfold := foldlM_patch_again hnd L [] hlisted
  rw [Module.map_patchCall_nil, List.nil_append, hpatch, Module.map_map] at hfold
  simpa only [mapCalls_recast] using hfold

/-- The patches at the end of a run; without a profile there are none. -/
theorem patches_recast (hM : M.WellFormed) {g : Function → BasicBlock → CallSite → CallSite}
    (hid : ∀ F BB CS, (g F BB CS).id = CS.id)
    (hdirect : ∀ F BB CS, (g F BB CS).calledFunction.isSome = CS.calledFunction.isSome)
    (hnil : P.MPKProfilePath = "" → L = [])
    (hL : P.MPKProfilePath ≠ "" → ∀ i ∈ L, ∃ CS ∈ M.calls, CS.id = i ∧ CS.calledFunction.isSome) :
    (if P.MPKProfilePath = "" then some (M.map fun F => F.recast (g F))
      else L.foldlM Module.patch (M.map fun F => F.recast (g F))) =
        some (M.map fun F => F.recast fun BB CS => patchCall M L (g F BB CS)) := by
  split_ifs with hpath
  · have hsame : ∀ CS, patchCall M [] CS = CS := fun CS => if_neg (by simp)
    simp only [hnil hpath, hsame]
  · exact foldlM_patch_recast hM hid hdirect (hL hpath)

/-- What is listed to be patched is called directly, when the run succeeds. -/
theorem direct_of_post {M' : Module} (hM : M.WellFormed)
    (h : M.post P localSlot fault_map = some M') (hpath : P.MPKProfilePath ≠ "") :
    ∀ i ∈ M.patchCalls P fault_map, ∃ CS ∈ M.calls, CS.id = i ∧ CS.calledFunction.isSome := by
  unfold Module.post Module.finish at h
  rw [if_neg hpath] at h
  obtain ⟨M₁, hpatch, -⟩ := Option.bind_eq_some_iff.1 h
  have hnd : ((M.number P localSlot).calls.map CallSite.id).Nodup := by
    rw [map_id_calls_number]
    exact hM.calls_nodup
  intro i hi
  obtain ⟨CS, hCS, rfl, hf⟩ := exists_of_foldlM_patch hnd hpatch i hi
  have hmem : (CS.id, CS.calledFunction) ∈ M.calls.map fun CS => (CS.id, CS.calledFunction) := by
    rw [← map_calledFunction_calls_number P localSlot M]
    exact List.mem_map_of_mem hCS
  obtain ⟨CS₀, hCS₀, heq⟩ := List.mem_map.1 hmem
  obtain ⟨hid, hcallee⟩ := Prod.mk.inj heq
  exact ⟨CS₀, hCS₀, hid, hcallee ▸ hf⟩

/-- The patches of the numbered module, in a run that succeeds. -/
theorem patched_of_post {M' : Module} (hM : M.WellFormed)
    (h : M.post P localSlot fault_map = some M') :
    (if P.MPKProfilePath = "" then some (M.number P localSlot)
      else (M.patchCalls P fault_map).foldlM Module.patch (M.number P localSlot)) =
        some (M.map fun F => F.recast fun BB CS =>
          patchCall M (M.patchCalls P fault_map) (keptCall P localSlot id F BB CS)) := by
  have hnumber : M.number P localSlot = M.map fun F => F.recast (keptCall P localSlot id F) := by
    rw [Module.number]
    exact congrArg M.map (funext fun F => numberFunction_eq_recast F)
  rw [hnumber]
  exact patches_recast hM (fun F BB => id_keptCall fun CS => rfl)
    (fun F BB => isSome_calledFunction_keptCall fun CS => rfl) patchCalls_eq_nil
    (direct_of_post hM h)

/-- **Erasing the hooks leaves nothing of the first run.** -/
theorem erase_twiceCall (hM : M.WellFormed) (hkeep : P.RemoveHooks = false)
    (hremove : P'.RemoveHooks = true) (hsub : L ⊆ L') {M₁ : Module}
    (h : (M.hookCalls P').foldlM Module.erase (M.map fun F => F.recast fun BB CS =>
      patchCall M L' (keptCall P' localSlot id F BB CS)) = some M₁) :
    (M.hookCalls P').foldlM Module.erase (M.map fun F => F.recast fun BB CS =>
      patchCall M L' (twiceCall P P' localSlot (patchCall M L) F BB CS)) = some M₁ := by
  have hid : ∀ (F : Function) BB CS,
      (patchCall M L' (keptCall P' localSlot id F BB CS)).id = CS.id := fun F BB CS =>
    (id_patchCall M _ _).trans (id_keptCall (fun CS => rfl) CS)
  have hid' : ∀ (F : Function) BB CS,
      (patchCall M L' (twiceCall P P' localSlot (patchCall M L) F BB CS)).id = CS.id :=
    fun F BB CS => (hid F BB _).trans (id_keptCall (id_patchCall M L) CS)
  obtain ⟨hnd, hplain⟩ := subset_of_foldlM_erase h
  rw [foldlM_erase _ _ hnd hplain] at h
  rw [map_id_plainCalls_recast hid] at hplain
  rw [foldlM_erase _ _ hnd (by rwa [map_id_plainCalls_recast hid']), ← h]
  refine congrArg some ?_
  rw [Module.map_map, Module.map_map]
  refine congrArg Module.mk (List.map_congr_left fun F hF => ?_)
  refine dropCalls_recast_congr (fun BB hBB CS hCS => ?_) fun BB hBB CS hCS => ?_
  · -- the two differ in hooks that have been visited, and these are erased
    by_cases hvisited : BB.id ∈ F.RPOT ∧ CS.isNumbered = true
    · have hlisted := mem_hookCalls hM hF hBB hvisited.1 hCS hvisited.2 hremove
      rw [hid', hid, decide_eq_true_eq]
      exact Or.inr ⟨hlisted, hlisted⟩
    · exact Or.inl (patchCall_twiceCall hkeep hsub CS fun hR hnum => absurd ⟨hR, hnum⟩ hvisited)
  · refine patchCall_twiceCall hkeep hsub CS fun hR hnum => ?_
    -- a hook at the end of a block could not have been erased
    have hlisted := mem_hookCalls hM hF hBB hR
      (List.mem_append_right _ (Option.mem_toList.2 hCS)) hnum hremove
    exact absurd (hplain hlisted) (notMem_plainCalls_of_term hM.calls_nodup hF hBB hCS)

/-- **The second run finishes the module as it would have finished it before the first one.** -/
theorem post_rerun (hM : M.WellFormed) (hslot : SlotsKept localSlot)
    (hkeep : P.RemoveHooks = false) (hsub : L ⊆ M.patchCalls P' fault_map) {M' : Module}
    (h : M.post P' localSlot fault_map = some M') :
    (M.map fun F => F.recast (keptCall P localSlot (patchCall M L) F)).post P' localSlot
      fault_map = some M' := by
  have hid : ∀ (F : Function) BB CS, (keptCall P localSlot (patchCall M L) F BB CS).id = CS.id :=
    fun F BB => id_keptCall (id_patchCall M L)
  have hid' : ∀ (F : Function) BB CS, (keptCall P' localSlot id F BB CS).id = CS.id :=
    fun F BB => id_keptCall fun CS => rfl
  have hslots : ∀ F, localSlot (F.recast (keptCall P localSlot (patchCall M L) F)) = localSlot F :=
    fun F => hslot F _ (hid F)
  have hrecasts : ∀ F ∈ M.functions, F.Recasts (keptCall P localSlot (patchCall M L) F) :=
    fun F _ => recasts_keptCall M L
  obtain ⟨hhooks, hpatches⟩ := lists_recast P' fault_map hrecasts hslots
  have hpatched := patched_of_post hM h
  -- the calls that the second run patches are those of the first one, visited once more
  have hpatched' := patches_recast hM
    (g := fun F => twiceCall P P' localSlot (patchCall M L) F)
    (fun F BB CS => (hid' F BB _).trans (hid F BB CS))
    (fun F BB CS => (isSome_calledFunction_keptCall (fun CS => rfl) _).trans
      (isSome_calledFunction_keptCall isSome_calledFunction_patchCall CS)) patchCalls_eq_nil
    (direct_of_post hM h)
  unfold Module.post Module.finish at h ⊢
  rw [number_recast hrecasts hslots, hhooks, hpatches]
  refine Eq.trans (congrArg (Option.bind · _) hpatched') ?_
  rw [hpatched, Option.bind_eq_bind, Option.bind_some] at h
  rw [Option.bind_some]
  split_ifs at h ⊢ with hremove
  · obtain ⟨M₁, herase, h⟩ := Option.bind_eq_some_iff.1 h
    rw [erase_twiceCall hM hkeep hremove hsub herase]
    exact h
  · rw [← h]
    refine congrArg some (congrArg Module.mk (List.map_congr_left fun F _ => ?_))
    exact recast_congr fun BB _ CS _ =>
      patchCall_twiceCall hkeep hsub CS fun _ _ => by simpa using hremove

end

/-! ### Runs in a fresh process -/

/-- What the visit of a module prints. -/
def Module.printed (P : ProvsanPost) (fault_map : FaultMap) (localSlot : Function → BlockId → ℤ)
    (M : Module) : List String :=
  (M.worked.foldl (fun st F => st.visitFunction P fault_map localSlot F)
    (⟨[], [], 0, [], []⟩ : PassState)).errs

section

variable {P P' : ProvsanPost} {env : Environment} {localSlot : Function → BlockId → ℤ}
  {M : Module} {fault_map : FaultMap}

theorem errs_of_run (hM : M.WellFormed) {c : Compiler}
    (h : ProvsanPost.run P env localSlot Compiler.fresh M = some c)
    (hread : getFaultingAllocMap env P.MPKProfilePath = some fault_map) :
    c.errs = M.printed P fault_map localSlot := by
  obtain ⟨r, hr, h⟩ := Option.bind_eq_some_iff.1 h
  obtain ⟨mem, -, h⟩ := Option.bind_eq_some_iff.1 h
  obtain ⟨mem', -, h⟩ := Option.bind_eq_some_iff.1 h
  obtain ⟨fault_map', hread', -, rfl⟩ := (assignLocalIDs_eq_some hM.functions).1 hr
  obtain rfl := Option.some_inj.1 (hread.symm.trans hread')
  rw [← Option.some_inj.1 h]
  rfl

/-- **A run in a fresh process**, with all it leaves behind. -/
theorem run_fresh_eq_some (hM : M.WellFormed) {c : Compiler} :
    ProvsanPost.run P env localSlot Compiler.fresh M = some c ↔
      ∃ fault_map, getFaultingAllocMap env P.MPKProfilePath = some fault_map ∧
        M.CanVisit P fault_map localSlot ∧ ∃ M', M.post P localSlot fault_map = some M' ∧
          c = ⟨[⟨M', 0⟩], M.hookCalls P, M.patchCalls P fault_map, 0,
            M.printed P fault_map localSlot⟩ := by
  have hleft : ∀ {c : Compiler} {fault_map : FaultMap} {M' : Module},
      ProvsanPost.run P env localSlot Compiler.fresh M = some c →
        getFaultingAllocMap env P.MPKProfilePath = some fault_map → c.processed = [⟨M', 0⟩] →
          c = ⟨[⟨M', 0⟩], M.hookCalls P, M.patchCalls P fault_map, 0,
            M.printed P fault_map localSlot⟩ := by
    rintro ⟨processed, hookList, patchList, IDG, errs⟩ fault_map M' hrun hread hprocessed
    obtain ⟨fault_map', hread', hhooks, hpatches⟩ := lists_of_run hM hrun
    obtain rfl := Option.some_inj.1 (hread.symm.trans hread')
    have herrs := errs_of_run hM hrun hread
    have hIDG := run_IDG hrun
    simp only [Compiler.fresh, List.nil_append] at hhooks hpatches herrs hIDG
    simp only at hprocessed
    rw [hprocessed, hhooks, hpatches, hIDG, herrs]
  constructor
  · intro hrun
    obtain ⟨fault_map, hread, hvisit, M', hpost, hprocessed⟩ :=
      (run_eq_some hM loads_fresh carriesNothing_fresh).1
        (congrArg (Option.map Compiler.processed) hrun)
    exact ⟨fault_map, hread, hvisit, M', hpost, hleft hrun hread hprocessed⟩
  · rintro ⟨fault_map, hread, hvisit, M', hpost, rfl⟩
    obtain ⟨c, hrun, hprocessed⟩ := Option.map_eq_some_iff.1
      ((run_eq_some hM loads_fresh carriesNothing_fresh).2
        ⟨fault_map, hread, hvisit, M', hpost, rfl⟩)
    rw [hrun, hleft hrun hread hprocessed]

/-- What a run that keeps the hooks makes of a module. -/
theorem eq_of_post (hM : M.WellFormed) (hkeep : P.RemoveHooks = false) {M' : Module}
    (h : M.post P localSlot fault_map = some M') : M' = M.map fun F =>
      F.recast (keptCall P localSlot (patchCall M (M.patchCalls P fault_map)) F) := by
  have hpatched := patched_of_post hM h
  unfold Module.post Module.finish at h
  rw [hpatched, Option.bind_eq_bind, Option.bind_some, if_neg (by simp [hkeep])] at h
  exact (Option.some_inj.1 h).symm

end

/-- **A second run makes what it makes of the module before the first one.**  The first one keeps
the hooks, and what it lists to be patched the second one lists too: a report build of a numbered
module is that of the module, and a build with a profile that has grown is the same whether it
starts from the module or from what the older profile has made of it. -/
theorem run_rerun (P P' : ProvsanPost) (env env' : Environment)
    (localSlot : Function → BlockId → ℤ) (M : Module) (c c' : Compiler) (m : Processed)
    (hM : M.WellFormed) (hslot : SlotsKept localSlot) (hkeep : P.RemoveHooks = false)
    (hrun : ProvsanPost.run P env localSlot Compiler.fresh M = some c) (hm : c.processed = [m])
    (hrun' : ProvsanPost.run P' env' localSlot Compiler.fresh M = some c')
    (hsub : c.patchList ⊆ c'.patchList) :
    ProvsanPost.run P' env' localSlot Compiler.fresh m.M = some c' := by
  obtain ⟨fault_map, -, -, M₁, hpost, rfl⟩ := (run_fresh_eq_some hM).1 hrun
  obtain ⟨fault_map', hread', hvisit', M', hpost', rfl⟩ := (run_fresh_eq_some hM).1 hrun'
  obtain rfl := List.singleton_inj.1 hm
  obtain rfl := eq_of_post hM hkeep hpost
  dsimp only at hsub ⊢
  have hid : ∀ (F : Function) BB CS, (keptCall P localSlot
      (patchCall M (M.patchCalls P fault_map)) F BB CS).id = CS.id :=
    fun F BB => id_keptCall (id_patchCall M _)
  have hslots : ∀ F, localSlot (F.recast (keptCall P localSlot
      (patchCall M (M.patchCalls P fault_map)) F)) = localSlot F := fun F => hslot F _ (hid F)
  have hrecasts : ∀ F ∈ M.functions, F.Recasts (keptCall P localSlot
      (patchCall M (M.patchCalls P fault_map)) F) := fun F _ => recasts_keptCall M _
  have hM₁ : (M.map fun F => F.recast (keptCall P localSlot
      (patchCall M (M.patchCalls P fault_map)) F)).WellFormed := by
    refine ⟨fun F hF => ?_, ?_⟩
    · obtain ⟨F₀, hF₀, rfl⟩ := List.mem_map.1 hF
      exact (hM.functions F₀ hF₀).recast (hrecasts F₀ hF₀)
    · rw [map_id_calls_map_recast hid]
      exact hM.calls_nodup
  obtain ⟨hhooks, hpatches⟩ := lists_recast P' fault_map' hrecasts hslots
  refine (run_fresh_eq_some hM₁).2 ⟨fault_map', hread', fun F hF => ?_, M',
    post_rerun hM hslot hkeep hsub hpost', ?_⟩
  · obtain ⟨F₀, hF₀, rfl⟩ := List.mem_map.1 hF
    exact (hrecasts F₀ hF₀).canVisit (hslots F₀) (hvisit' F₀ hF₀)
  · rw [hhooks, hpatches, Module.printed, Module.printed,
      visit_recast P' fault_map' hrecasts hslots]

/-- A module with an allocation and its hook, and the function that replaces the allocator. -/
def patchableModule : Module :=
  ⟨[hookedFunction "f" 0, ⟨"__rust_untrusted_alloc", .external, []⟩]⟩

theorem patchableModule_wellFormed : patchableModule.WellFormed := by
  have hf := hookedFunction_wellFormed "f" 0
  refine ⟨fun F hF => ?_, ?_⟩
  · rcases List.mem_cons.1 hF with rfl | hF
    · exact hf.functions _ (List.mem_singleton_self _)
    · rw [List.mem_singleton.1 hF]
      exact ⟨.nil, fun BB hBB => absurd hBB (by simp), .nil⟩
  · exact hf.calls_nodup

/-- The hooks of a module that has been patched are removed. -/
theorem run_rerun_patched : ∃ (c c' : Compiler) (m : Processed),
    ProvsanPost.run ⟨"p.json", false⟩ (profileOf siteText) (fun _ _ => 0) Compiler.fresh
      patchableModule = some c ∧ c.processed = [m] ∧ m.M ≠ patchableModule ∧
    ProvsanPost.run ⟨"p.json", true⟩ (profileOf siteText) (fun _ _ => 0) Compiler.fresh m.M =
      some c' ∧ c'.patchList ≠ [] := by
  obtain ⟨c, hc⟩ : ∃ c, ProvsanPost.run ⟨"p.json", false⟩ (profileOf siteText) (fun _ _ => 0)
    Compiler.fresh patchableModule = some c := Option.isSome_iff_exists.1 (by decide)
  obtain ⟨c', hc'⟩ : ∃ c', ProvsanPost.run ⟨"p.json", true⟩ (profileOf siteText) (fun _ _ => 0)
    Compiler.fresh patchableModule = some c' := Option.isSome_iff_exists.1 (by decide)
  have hboth : ∀ c ∈ ProvsanPost.run ⟨"p.json", false⟩ (profileOf siteText) (fun _ _ => 0)
      Compiler.fresh patchableModule, ∀ c' ∈ ProvsanPost.run ⟨"p.json", true⟩ (profileOf siteText)
        (fun _ _ => 0) Compiler.fresh patchableModule,
          c.processed.length = 1 ∧ (∀ m ∈ c.processed, m.M ≠ patchableModule) ∧
            c.patchList ⊆ c'.patchList ∧ c'.patchList ≠ [] := by decide
  obtain ⟨hlen, hne, hsub, hlist⟩ := hboth c hc c' hc'
  obtain ⟨m, hm⟩ := List.length_eq_one_iff.1 hlen
  exact ⟨c, c', m, hc, hm, hne m (by simp [hm]), run_rerun ⟨"p.json", false⟩ ⟨"p.json", true⟩
    (profileOf siteText) (profileOf siteText) (fun _ _ => 0) patchableModule c c' m
    patchableModule_wellFormed (fun _ _ _ => rfl) rfl hc hm hc' hsub, hlist⟩

end Provsan
