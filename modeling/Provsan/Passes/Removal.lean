/-
**Removing hooks undoes inserting them.**

A build that removes the hooks runs both passes: the first one inserts the hooks, and the second one
counts them, erases them and their declarations, and patches the calls on its list.  What is left is
the module as it was, but for blocks on the normal edges of some invokes that only branch on, and
for the callees of the calls that were patched.

Main definitions:

* `Provsan.patchCall` — a call after all patches;
* `Provsan.stripFunction` — an instrumented function without its hooks;
* `Provsan.Undone`, `Provsan.Removed` — what may differ between a function, or a module, and what
  the two passes make of it.

Main results:

* `Provsan.foldlM_patch`, `Provsan.foldlM_erase`, `Provsan.foldlM_removeHook` — what the loops over
  the lists make of a module;
* `Provsan.post_hookModule` — the second pass after the first one;
* `Provsan.undone_stripFunction` — **a function without its hooks is the source**;
* `Provsan.removed_iff` — **the two passes undo each other** when the profile can be read.
-/

import Provsan.Passes.Hooked
import Provsan.Passes.Process

set_option relaxedAutoImplicit false
set_option autoImplicit false

namespace Provsan

open scoped List

/-! ### Calls of changed modules -/

theorem Function.calls_mapCalls (f : CallSite → CallSite) (F : Function) :
    (F.mapCalls f).calls = F.calls.map f := by
  simp only [Function.calls, Function.mapCalls, List.flatMap_map, List.map_flatMap,
    BasicBlock.calls_mapCalls]

theorem Module.calls_mapCalls (f : CallSite → CallSite) (M : Module) :
    (M.map (Function.mapCalls f)).calls = M.calls.map f := by
  simp only [Module.calls, Module.map, List.flatMap_map, List.map_flatMap, Function.calls_mapCalls]

theorem Module.map_map (M : Module) (f g : Function → Function) :
    (M.map f).map g = M.map fun F => g (f F) := by
  simp [Module.map]

theorem BasicBlock.mapCalls_mapCalls (f g : CallSite → CallSite) (BB : BasicBlock) :
    (BB.mapCalls f).mapCalls g = BB.mapCalls fun CS => g (f CS) := by
  have hinst : ∀ I : Instruction, (I.mapCall f).mapCall g = I.mapCall fun CS => g (f CS) := by
    intro I
    cases I <;> rfl
  have hterm : ∀ term : Terminator,
      (term.mapCall f).mapCall g = term.mapCall fun CS => g (f CS) := by
    intro term
    cases term <;> rfl
  simp only [BasicBlock.mapCalls, List.map_map, hterm]
  congr 1
  exact List.map_congr_left fun I _ => hinst I

theorem Function.mapCalls_mapCalls (f g : CallSite → CallSite) (F : Function) :
    (F.mapCalls f).mapCalls g = F.mapCalls fun CS => g (f CS) := by
  simp only [Function.mapCalls, List.map_map]
  congr 1
  exact List.map_congr_left fun BB _ => BB.mapCalls_mapCalls f g

/-- Changes that agree on the calls of a block agree on the block. -/
theorem BasicBlock.mapCalls_congr {BB : BasicBlock} {f g : CallSite → CallSite}
    (h : ∀ CS ∈ BB.calls, f CS = g CS) : BB.mapCalls f = BB.mapCalls g := by
  have hbody : BB.body.map (Instruction.mapCall f) = BB.body.map (Instruction.mapCall g) := by
    refine List.map_congr_left fun I hI => ?_
    cases I with
    | other n => rfl
    | call CS =>
        rw [Instruction.mapCall, Instruction.mapCall,
          h CS (List.mem_append_left _ (List.mem_filterMap.2 ⟨_, hI, rfl⟩))]
  have hterm : BB.term.mapCall f = BB.term.mapCall g := by
    cases hterm : BB.term with
    | br dests => rfl
    | invoke CS normal unwind =>
        rw [Terminator.mapCall, Terminator.mapCall,
          h CS (List.mem_append_right _ (by simp [hterm, Terminator.call?]))]
    | callbr CS dests =>
        rw [Terminator.mapCall, Terminator.mapCall,
          h CS (List.mem_append_right _ (by simp [hterm, Terminator.call?]))]
  rw [BasicBlock.mapCalls, BasicBlock.mapCalls, hbody, hterm]

/-- Changes that agree on the calls of a module agree on the module. -/
theorem Module.mapCalls_congr {M : Module} {f g : CallSite → CallSite}
    (h : ∀ CS ∈ M.calls, f CS = g CS) :
    M.map (Function.mapCalls f) = M.map (Function.mapCalls g) := by
  have hfunction : ∀ F ∈ M.functions, F.mapCalls f = F.mapCalls g := by
    intro F hF
    have hblocks : F.blocks.map (BasicBlock.mapCalls f) = F.blocks.map (BasicBlock.mapCalls g) :=
      List.map_congr_left fun BB hBB => BasicBlock.mapCalls_congr fun CS hCS =>
        h CS (List.mem_flatMap_of_mem hF (List.mem_flatMap_of_mem hBB hCS))
    rw [Function.mapCalls, Function.mapCalls, hblocks]
  rw [Module.map, Module.map, List.map_congr_left hfunction]

/-! ### Patching -/

/-- A call after the patches of the calls `L`. -/
def patchCall (M : Module) (L : List InstId) (CS : CallSite) : CallSite :=
  if CS.id ∈ L then
    { CS with calledFunction := CS.calledFunction.map fun f => (replacement? M f).getD f }
  else CS

@[simp] theorem id_patchCall (M : Module) (L : List InstId) (CS : CallSite) :
    (patchCall M L CS).id = CS.id := by
  unfold patchCall
  split_ifs <;> rfl

/-- Hooks are not patched. -/
theorem patchCall_of_isHook {M : Module} {L : List InstId} {CS : CallSite} (h : CS.isHook = true) :
    patchCall M L CS = CS := by
  have hnone : ∀ f ∈ hookNames, replacement? M f = none := by
    intro f hf
    have hlookup : ∀ f ∈ hookNames, AllocReplacementMap.lookup f = none := by decide
    rw [replacement?, hlookup f hf]
    rfl
  unfold patchCall
  split_ifs
  · unfold CallSite.isHook at h
    cases hf : CS.calledFunction with
    | none =>
        rw [hf] at h
        exact absurd h (by simp)
    | some f =>
        rw [hf] at h
        rw [Option.map_some, hnone f (by simpa using h), Option.getD_none, ← hf]
  · rfl

/-- No patches. -/
theorem Module.map_patchCall_nil (M N : Module) :
    M.map (Function.mapCalls (patchCall N [])) = M := by
  have hsame : ∀ F ∈ M.functions, F.mapCalls (patchCall N []) = F := by
    intro F _
    have hblocks : F.blocks.map (BasicBlock.mapCalls (patchCall N [])) = F.blocks := by
      conv_rhs => rw [← List.map_id F.blocks]
      exact List.map_congr_left fun BB _ =>
        BasicBlock.mapCalls_eq_self fun CS _ => by simp [patchCall]
    rw [Function.mapCalls, hblocks]
  rw [Module.map, List.map_congr_left hsame, List.map_id']

/-- One more patch. -/
theorem patch_patchCall {M : Module} (hnd : (M.calls.map CallSite.id).Nodup) {L : List InstId}
    {CS : CallSite} (hCS : CS ∈ M.calls) (hL : CS.id ∉ L) (hf : CS.calledFunction.isSome) :
    (M.map (Function.mapCalls (patchCall M L))).patch CS.id =
      some (M.map (Function.mapCalls (patchCall M (L ++ [CS.id])))) := by
  obtain ⟨f, hf⟩ := Option.isSome_iff_exists.1 hf
  have hnd' : (((M.calls.map (patchCall M L))).map CallSite.id).Nodup := by
    simpa [List.map_map, Function.comp_def] using hnd
  have hsame : patchCall M L CS = CS := if_neg hL
  have hfind : (M.calls.map (patchCall M L)).find? (·.id = CS.id) = some CS := by
    refine find?_call hnd' (List.mem_map.2 ⟨CS, hCS, hsame⟩)
  unfold Module.patch
  rw [Module.calls_mapCalls, hfind]
  simp only [Option.bind_eq_bind, Option.bind_some, hf,
    replacement?_map (M := M) (g := Function.mapCalls (patchCall M L)) (fun F => rfl)]
  -- the call is the only one with its identity
  have honly : ∀ CS' ∈ M.calls, CS'.id = CS.id → CS' = CS := fun CS' hCS' heq =>
    Option.some_inj.1 ((find?_call hnd hCS').symm.trans (heq ▸ find?_call hnd hCS))
  have hnew : patchCall M (L ++ [CS.id]) CS =
      { CS with calledFunction := some ((replacement? M f).getD f) } := by
    rw [patchCall, if_pos (by simp), hf, Option.map_some]
  have hold : ∀ CS', CS'.id ≠ CS.id → patchCall M (L ++ [CS.id]) CS' = patchCall M L CS' := by
    intro CS' hne
    simp [patchCall, hne]
  cases hr : replacement? M f with
  | none =>
      refine congrArg some (Module.mapCalls_congr fun CS' hCS' => ?_)
      by_cases heq : CS'.id = CS.id
      · obtain rfl := honly CS' hCS' heq
        rw [hnew, hsame, hr, Option.getD_none, ← hf]
      · rw [hold CS' heq]
  | some repl_func =>
      dsimp only
      rw [Module.map_map]
      simp only [Function.mapCalls_mapCalls]
      refine congrArg some (Module.mapCalls_congr fun CS' hCS' => ?_)
      by_cases heq : CS'.id = CS.id
      · obtain rfl := honly CS' hCS' heq
        rw [hnew, hsame, hr, Option.getD_some, setCalledFunction, if_pos rfl]
      · rw [hold CS' heq, setCalledFunction, if_neg (by rwa [id_patchCall])]

/-- **The patches**, of different calls that are direct ones. -/
theorem foldlM_patch {M : Module} (hnd : (M.calls.map CallSite.id).Nodup) (L : List InstId) :
    ∀ D : List InstId, (D ++ L).Nodup →
      (∀ i ∈ L, ∃ CS ∈ M.calls, CS.id = i ∧ CS.calledFunction.isSome) →
        L.foldlM Module.patch (M.map (Function.mapCalls (patchCall M D))) =
          some (M.map (Function.mapCalls (patchCall M (D ++ L)))) := by
  induction L with
  | nil => intro D _ _; simp
  | cons i L ih =>
      intro D hD hL
      obtain ⟨CS, hCS, rfl, hf⟩ := hL i (List.mem_cons_self ..)
      have hassoc : D ++ CS.id :: L = D ++ [CS.id] ++ L := by simp
      have hnot : CS.id ∉ D := fun h =>
        (List.nodup_append.1 hD).2.2 _ h _ (List.mem_cons_self ..) rfl
      rw [List.foldlM_cons, patch_patchCall hnd hCS hnot hf, hassoc]
      exact ih _ (hassoc ▸ hD) fun j hj => hL j (List.mem_cons_of_mem _ hj)

/-! ### Erasing -/

theorem Function.dropCalls_dropCalls (p q : CallSite → Bool) (F : Function) :
    (F.dropCalls p).dropCalls q = F.dropCalls fun CS => p CS || q CS := by
  simp only [Function.dropCalls, List.map_map]
  congr 1
  refine List.map_congr_left fun BB _ => ?_
  simp only [Function.comp_apply, List.filter_filter]
  congr 1
  refine List.filter_congr fun I _ => ?_
  cases I with
  | other n => rfl
  | call CS => simp [Bool.and_comm]

theorem Module.plainCalls_dropCalls (p : CallSite → Bool) (M : Module) :
    (M.map (Function.dropCalls p)).plainCalls = M.plainCalls.filter fun CS => !p CS := by
  have hbody : ∀ body : List Instruction,
      (body.filter fun I => !I.call?.any p).filterMap Instruction.call? =
        (body.filterMap Instruction.call?).filter fun CS => !p CS := by
    intro body
    induction body with
    | nil => rfl
    | cons I body ih =>
        cases I with
        | other n => simpa [List.filterMap_cons] using ih
        | call CS => cases hp : p CS <;> simp [hp, ih]
  simp only [Module.plainCalls, Module.map, Function.dropCalls, List.flatMap_map,
    List.filter_flatMap, hbody]

/-- **The erasures**, of different calls that are there. -/
theorem foldlM_erase (L : List InstId) : ∀ M : Module, L.Nodup →
    L ⊆ M.plainCalls.map CallSite.id →
      L.foldlM Module.erase M = some (M.map (Function.dropCalls fun CS => CS.id ∈ L)) := by
  induction L with
  | nil =>
      intro M _ _
      have hsame : ∀ F ∈ M.functions,
          F.dropCalls (fun CS => decide (CS.id ∈ ([] : List InstId))) = F :=
        fun F _ => dropCalls_eq_self fun _ _ _ _ => by simp
      rw [Module.map, List.map_congr_left hsame, List.map_id']
      rfl
  | cons i L ih =>
      intro M hnd hmem
      rw [List.nodup_cons] at hnd
      have hrest : L ⊆ (M.map (Function.dropCalls (·.id = i))).plainCalls.map CallSite.id := by
        intro j hj
        obtain ⟨CS, hCS, rfl⟩ := List.mem_map.1 (hmem (List.mem_cons_of_mem _ hj))
        have hne : CS.id ≠ i := fun heq => hnd.1 (heq ▸ hj)
        rw [Module.plainCalls_dropCalls]
        exact List.mem_map_of_mem (List.mem_filter.2 ⟨hCS, by simpa using hne⟩)
      rw [List.foldlM_cons, Module.erase, if_pos (hmem (List.mem_cons_self ..))]
      refine (ih _ hnd.2 hrest).trans ?_
      rw [Module.map_map]
      simp only [Function.dropCalls_dropCalls]
      refine congrArg some
        (congrArg M.map (funext fun F => congrArg F.dropCalls (funext fun CS => ?_)))
      simp [List.mem_cons]

/-- **The functions of the hooks** are erased when nothing calls them. -/
theorem foldlM_removeHook (l : List String) (hne : "" ∉ l) : ∀ M : Module,
    (∀ CS ∈ M.calls, ∀ name ∈ l, CS.calledFunction ≠ some name) →
      l.foldlM removeHook M = some ⟨M.functions.filter fun F => F.name ∉ l⟩ := by
  induction l with
  | nil => intro M _; simp
  | cons name l ih =>
      intro M hM
      rw [List.mem_cons, not_or] at hne
      have hturn : removeHook M name = some ⟨M.functions.filter fun F => F.name ≠ name⟩ := by
        unfold removeHook
        split_ifs with hsome
        · have hdrop : M.map (Function.dropCalls (·.calledFunction = some name)) = M := by
            have hsame : ∀ F ∈ M.functions,
                F.dropCalls (fun CS => CS.calledFunction = some name) = F := fun F hF =>
              dropCalls_eq_self fun BB hBB CS hCS => by
                simpa using hM CS (List.mem_flatMap_of_mem hF
                  (Function.mem_calls_of_mem_body hBB hCS)) name (List.mem_cons_self ..)
            rw [Module.map, List.map_congr_left hsame, List.map_id']
          unfold removeFunctionUsers
          rw [hdrop, if_neg]
          intro hmem
          obtain ⟨CS, hCS, heq⟩ := List.mem_map.1 hmem
          exact hM CS hCS name (List.mem_cons_self ..) heq
        · have hall : M.functions.filter (fun F => F.name ≠ name) = M.functions := by
            refine List.filter_eq_self.2 fun F hF => ?_
            unfold Module.getFunction at hsome
            rw [if_neg (Ne.symm hne.1), Option.not_isSome_iff_eq_none, List.find?_eq_none] at hsome
            simpa using hsome F hF
          rw [hall]
      rw [List.foldlM_cons, hturn]
      refine (ih hne.2 _ fun CS hCS name' hname' => ?_).trans ?_
      · obtain ⟨F, hF, hCS⟩ := List.mem_flatMap.1 hCS
        exact hM CS (List.mem_flatMap_of_mem (List.mem_of_mem_filter hF) hCS) name'
          (List.mem_cons_of_mem _ hname')
      · rw [List.filter_filter]
        refine congrArg some (congrArg Module.mk (List.filter_congr fun F _ => ?_))
        simp [Bool.and_comm]

/-! ### Without hooks -/

/-- A block without its hooks, after changes of its calls. -/
def stripBlock (patch : CallSite → CallSite) (C : BasicBlock) : BasicBlock :=
  { C with
    body := (C.body.filter fun I => !I.call?.any CallSite.isHook).map (Instruction.mapCall patch)
    term := C.term.mapCall patch }

/-- A function without its hooks, after changes of its calls. -/
def stripFunction (patch : CallSite → CallSite) (G : Function) : Function :=
  { G with blocks := G.blocks.map (stripBlock patch) }

theorem isNumbered_of_not_isHook {CS : CallSite} (h : CS.isHook = false) :
    CS.isNumbered = false := by
  rw [← isSome_hookIndex?, Option.isSome_eq_false_iff, Option.isNone_iff_eq_none] at h
  rw [CallSite.isNumbered, h]
  rfl

/-- Calls that are no hooks are not changed by their visit. -/
theorem numberCall_of_not_isHook {P : ProvsanPost} {G : Function} {bbName : String} {CS : CallSite}
    (h : CS.isHook = false) : numberCall P G bbName CS = CS := by
  rw [numberCall, if_neg (by simp [isNumbered_of_not_isHook h])]

/-- A body whose hooks are erased after its calls have been changed. -/
theorem filter_mapCall {number patch : CallSite → CallSite} {L : List InstId}
    (hnumber : ∀ CS, (number CS).id = CS.id) (hpatch : ∀ CS, (patch CS).id = CS.id)
    (hkeep : ∀ CS : CallSite, CS.isHook = false → number CS = CS) (body : List Instruction)
    (hL : ∀ CS, .call CS ∈ body → (CS.id ∈ L ↔ CS.isHook = true)) :
    ((body.map (Instruction.mapCall number)).map (Instruction.mapCall patch)).filter
        (fun I => !I.call?.any fun CS => CS.id ∈ L) =
      (body.filter fun I => !I.call?.any CallSite.isHook).map (Instruction.mapCall patch) := by
  induction body with
  | nil => rfl
  | cons I body ih =>
      have hrest := ih fun CS hCS => hL CS (List.mem_cons_of_mem _ hCS)
      cases I with
      | other n =>
          rw [List.map_cons, List.map_cons, List.filter_cons_of_pos rfl,
            List.filter_cons_of_pos rfl, hrest]
          rfl
      | call CS =>
          have hmem := hL CS (List.mem_cons_self ..)
          rw [List.map_cons, List.map_cons]
          cases hhook : CS.isHook with
          | true =>
              rw [List.filter_cons_of_neg
                  (by simp [Instruction.mapCall, hnumber, hpatch, hmem, hhook]),
                List.filter_cons_of_neg (by simp [hhook]), hrest]
          | false =>
              rw [List.filter_cons_of_pos
                  (by simp [Instruction.mapCall, hnumber, hpatch, hmem, hhook]),
                List.filter_cons_of_pos (by simp [hhook]), hrest, List.map_cons]
              simp [Instruction.mapCall, hkeep CS hhook]

/-- **A function after the visit, the patches and the erasures.** -/
theorem dropCalls_numberFunction {P : ProvsanPost} {localSlot : Function → BlockId → ℤ}
    {G : Function} {Q : List BlockId} {L : List InstId} {patch : CallSite → CallSite}
    (hpatch : ∀ CS, (patch CS).id = CS.id)
    (hterm : ∀ C ∈ G.blocks, ∀ CS ∈ C.term.call?, CS.isHook = false)
    (hL : ∀ CS ∈ G.calls, CS.id ∈ L ↔ CS.isHook = true) :
    ((numberFunction P localSlot G Q).mapCalls patch).dropCalls (fun CS => CS.id ∈ L) =
      stripFunction patch G := by
  simp only [numberFunction, Function.mapCalls, Function.dropCalls, stripFunction, List.map_map]
  congr 1
  refine List.map_congr_left fun C hC => ?_
  have hcalls : ∀ CS, .call CS ∈ C.body → (CS.id ∈ L ↔ CS.isHook = true) := fun CS hCS =>
    hL CS (Function.mem_calls_of_mem_body hC hCS)
  simp only [Function.comp_apply]
  split_ifs with hQ
  · have hbody : ((C.body.map (Instruction.mapCall (numberCall P G (blockName G localSlot C)))).map
        (Instruction.mapCall patch)).filter (fun I => !I.call?.any fun CS => CS.id ∈ L) =
          (C.body.filter fun I => !I.call?.any CallSite.isHook).map (Instruction.mapCall patch) :=
      filter_mapCall (fun CS => id_numberCall CS) hpatch (fun CS h => numberCall_of_not_isHook h)
        C.body hcalls
    have hkeep : ∀ CS ∈ C.term.call?, numberCall P G (blockName G localSlot C) CS = CS :=
      fun CS hCS => numberCall_of_not_isHook (hterm C hC CS hCS)
    have hsame : (C.term.mapCall (numberCall P G (blockName G localSlot C))).mapCall patch =
        C.term.mapCall patch := by
      cases ht : C.term with
      | br dests => rfl
      | invoke CS normal unwind =>
          have hCS := hkeep CS (by simp [ht, Terminator.call?])
          simp [Terminator.mapCall, hCS]
      | callbr CS dests =>
          have hCS := hkeep CS (by simp [ht, Terminator.call?])
          simp [Terminator.mapCall, hCS]
    simp only [numberBlock, BasicBlock.mapCalls, stripBlock, hbody, hsame]
  · have hbody : ((C.body.map (Instruction.mapCall fun CS => CS)).map
        (Instruction.mapCall patch)).filter (fun I => !I.call?.any fun CS => CS.id ∈ L) =
          (C.body.filter fun I => !I.call?.any CallSite.isHook).map (Instruction.mapCall patch) :=
      filter_mapCall (fun _ => rfl) hpatch (fun _ _ => rfl) C.body hcalls
    have hid : C.body.map (Instruction.mapCall fun CS => CS) = C.body := by
      conv_rhs => rw [← List.map_id C.body]
      refine List.map_congr_left fun I _ => ?_
      cases I <;> rfl
    rw [hid] at hbody
    simp only [BasicBlock.mapCalls, stripBlock, hbody]

/-! ### What the second pass finds -/

section

variable (P : ProvsanPost) (localSlot : Function → BlockId → ℤ) (M : Module)

/-- The visit keeps the identities and the callees of the calls. -/
theorem map_calledFunction_calls_number :
    (M.number P localSlot).calls.map (fun CS => (CS.id, CS.calledFunction)) =
      M.calls.map fun CS => (CS.id, CS.calledFunction) := by
  simp only [Module.number, Module.map, Module.calls, List.flatMap_map, List.map_flatMap,
    numberFunction, Function.calls]
  refine List.flatMap_congr fun F _ => List.flatMap_congr fun BB _ => ?_
  split_ifs
  · rw [numberBlock, BasicBlock.calls_mapCalls, List.map_map]
    refine List.map_congr_left fun CS _ => ?_
    simp
  · rfl

theorem map_id_calls_number : (M.number P localSlot).calls.map CallSite.id =
    M.calls.map CallSite.id := by
  have hboth := congrArg (List.map Prod.fst) (map_calledFunction_calls_number P localSlot M)
  simpa [List.map_map, Function.comp_def] using hboth

/-- The visit keeps the calls in the bodies of the blocks where they are. -/
theorem map_id_plainCalls_number : (M.number P localSlot).plainCalls.map CallSite.id =
    M.plainCalls.map CallSite.id := by
  simp only [Module.number, Module.map, Module.plainCalls, List.flatMap_map, List.map_flatMap,
    numberFunction]
  refine List.flatMap_congr fun F _ => List.flatMap_congr fun BB _ => ?_
  split_ifs
  · rw [numberBlock, BasicBlock.mapCalls, List.filterMap_map, List.map_filterMap,
      List.map_filterMap]
    refine List.filterMap_congr fun I _ => ?_
    cases I <;> simp
  · rfl

/-- So does a change of the calls that keeps their identities. -/
theorem map_id_plainCalls_mapCalls {f : CallSite → CallSite} (hf : ∀ CS, (f CS).id = CS.id) :
    (M.map (Function.mapCalls f)).plainCalls.map CallSite.id = M.plainCalls.map CallSite.id := by
  simp only [Module.map, Module.plainCalls, Function.mapCalls, BasicBlock.mapCalls,
    List.flatMap_map, List.map_flatMap, List.filterMap_map, List.map_filterMap]
  refine List.flatMap_congr fun F _ => List.flatMap_congr fun BB _ =>
    List.filterMap_congr fun I _ => ?_
  cases I <;> simp [hf]

end

section

variable {T : Targets} {names : InstId → String} {M : Module} {P : ProvsanPost}

/-- **The calls that are listed to be erased are the hooks.** -/
theorem mem_hookCalls_hookModule (hM : M.Source) (hfree : M.NoHookCalls)
    (hremove : P.RemoveHooks = true) {CS : CallSite} (hCS : CS ∈ (hookModule T names M).calls) :
    CS.id ∈ (hookModule T names M).hookCalls P ↔ CS.isHook = true := by
  have hwf : (hookModule T names M).WellFormed := wellFormed_hookModule hM
  have hlist : ∀ F : Function, F.hookCalls P = (F.visited.filter CallSite.isHook).map CallSite.id :=
    fun F => if_pos hremove
  constructor
  · intro h
    obtain ⟨F, hF, h⟩ := List.mem_flatMap.1 h
    rw [hlist] at h
    obtain ⟨CS', hCS', hid⟩ := List.mem_map.1 h
    obtain ⟨hvisited, hhook⟩ := List.mem_filter.1 hCS'
    -- the listed call is the call itself
    have hmem : CS' ∈ (hookModule T names M).calls :=
      List.mem_flatMap_of_mem (Module.mem_worked.1 hF).1
        (Function.mem_calls_of_mem_visited hvisited)
    have hfind := find?_call hwf.calls_nodup hmem
    rw [hid, find?_call hwf.calls_nodup hCS] at hfind
    rw [Option.some_inj.1 hfind, hhook]
  · intro h
    rw [calls_hookModule] at hCS
    obtain ⟨F, hF, hCS⟩ := List.mem_flatMap.1 hCS
    have hvisited := mem_visited_of_isHook (hM.functions F hF)
      (fun CS hCS => hfree CS (List.mem_flatMap_of_mem hF hCS)) hCS h
    have hdecl := Function.isDeclaration_of_mem_visited hvisited
    have hmem : rewriteFunction T names F F.RPOT ∈ (hookModule T names M).functions :=
      List.mem_map_of_mem hF
    refine List.mem_flatMap_of_mem (Module.mem_worked.2 ⟨hmem, hdecl⟩) ?_
    rw [hlist]
    exact List.mem_map_of_mem (List.mem_filter.2 ⟨hvisited, h⟩)

theorem nodup_hookCalls_hookModule (hM : M.Source) :
    ((hookModule T names M).hookCalls P).Nodup := by
  have hwf : (hookModule T names M).WellFormed := wellFormed_hookModule hM
  refine hwf.nodup_flatMap_worked fun F hF => ?_
  unfold Function.hookCalls
  split_ifs
  · refine ⟨((List.filter_sublist).map _).nodup (hwf.functions F hF).nodup_visited, ?_⟩
    exact List.map_subset _ fun CS hCS =>
      Function.mem_calls_of_mem_visited (List.mem_of_mem_filter hCS)
  · exact ⟨.nil, List.nil_subset _⟩

/-- The pass puts no hook at the end of a block. -/
theorem isHook_term_rewriteFunction {F : Function} (hfree : ∀ CS ∈ F.calls, CS.isHook = false)
    {C : BasicBlock} (hC : C ∈ (rewriteFunction T names F F.RPOT).blocks) :
    ∀ CS ∈ C.term.call?, CS.isHook = false := by
  obtain ⟨BB, hBB, rfl | ⟨-, e, -, rfl⟩⟩ := mem_rewriteFunction.1 hC
  · have hcall : (rewriteBlock T F F.RPOT BB).term.call? = BB.term.call? := by
      unfold rewriteBlock rewriteTerm
      dsimp only
      split_ifs
      · cases splitInvoke? T F BB <;> cases BB.term <;> rfl
      · rfl
    intro CS hCS
    rw [hcall] at hCS
    exact hfree CS (List.mem_flatMap_of_mem hBB (List.mem_append_right _ (Option.mem_toList.2 hCS)))
  · exact fun CS hCS => absurd hCS (by simp [splitBlock, Terminator.call?])

/-- The terminators of an instrumented module are no hooks. -/
theorem isHook_term_hookModule (hfree : M.NoHookCalls) {G : Function}
    (hG : G ∈ (hookModule T names M).functions) {C : BasicBlock} (hC : C ∈ G.blocks) :
    ∀ CS ∈ C.term.call?, CS.isHook = false := by
  obtain ⟨F, hF, rfl⟩ := List.mem_map.1 hG
  exact isHook_term_rewriteFunction
    (fun CS hCS => hfree CS (List.mem_flatMap_of_mem hF hCS)) hC

/-- **The hooks can be erased**: they are in the bodies of the blocks. -/
theorem hookCalls_subset_plainCalls (hM : M.Source) (hfree : M.NoHookCalls)
    (hremove : P.RemoveHooks = true) :
    (hookModule T names M).hookCalls P ⊆ (hookModule T names M).plainCalls.map CallSite.id := by
  intro i hi
  obtain ⟨CS, hCS, rfl⟩ := List.mem_map.1 (hookCalls_subset hi)
  have hhook := (mem_hookCalls_hookModule hM hfree hremove hCS).1 hi
  obtain ⟨G, hG, hCS⟩ := List.mem_flatMap.1 hCS
  obtain ⟨C, hC, hCS⟩ := List.mem_flatMap.1 hCS
  have hbody : CS ∈ C.body.filterMap Instruction.call? := by
    refine (List.mem_append.1 hCS).resolve_right fun hterm => ?_
    have hno := isHook_term_hookModule hfree hG hC CS (Option.mem_toList.1 hterm)
    rw [hhook] at hno
    exact absurd hno (by simp)
  exact List.mem_map_of_mem (List.mem_flatMap_of_mem hG (List.mem_flatMap_of_mem hC hbody))

variable (T names P) in
/-- **The calls that are listed to be patched** are different, and calls of configured functions. -/
theorem patchCalls_hookModule (hM : M.Source) (hfree : M.NoHookCalls) (fault_map : FaultMap) :
    ((hookModule T names M).patchCalls P fault_map).Nodup ∧
      ∀ i ∈ (hookModule T names M).patchCalls P fault_map,
        ∃ CS ∈ M.calls, CS.id = i ∧ (T.kind? CS).isSome := by
  have hwf : (hookModule T names M).WellFormed := wellFormed_hookModule hM
  -- the listed calls of one function
  have hfun : ∀ G ∈ (hookModule T names M).functions, (G.patchCalls P fault_map).Nodup ∧
      ∀ i ∈ G.patchCalls P fault_map, ∃ CS ∈ G.calls, CS ∈ M.calls ∧ CS.id = i ∧
        (T.kind? CS).isSome := by
    intro G hG
    obtain ⟨F, hF, rfl⟩ := List.mem_map.1 hG
    have hfreeF : ∀ CS ∈ F.calls, CS.isHook = false := fun CS hCS =>
      hfree CS (List.mem_flatMap_of_mem hF hCS)
    refine ⟨nodup_patchCalls (hM.functions F hF) hfreeF P fault_map, fun i hi => ?_⟩
    obtain ⟨hook, hhook, hpatched⟩ := List.mem_filterMap.1 hi
    obtain ⟨e, he, rfl⟩ := Option.map_eq_some_iff.1 hpatched
    obtain ⟨CS, hCS, -, hid, hkind⟩ := exists_of_patched? (hM.functions F hF) hfreeF
      (Function.mem_calls_of_mem_visited hhook) he
    exact ⟨CS, (mem_calls_rewriteFunction (hM.functions F hF)).2 (Or.inl hCS),
      List.mem_flatMap_of_mem hF hCS, hid.symm, hkind⟩
  constructor
  · refine hwf.nodup_flatMap_worked fun G hG => ⟨(hfun G hG).1, fun i hi => ?_⟩
    obtain ⟨CS, hCS, -, rfl, -⟩ := (hfun G hG).2 i hi
    exact List.mem_map_of_mem hCS
  · intro i hi
    obtain ⟨G, hG, hi⟩ := List.mem_flatMap.1 hi
    obtain ⟨CS, -, hCS, hid, hkind⟩ := (hfun G (Module.mem_worked.1 hG).1).2 i hi
    exact ⟨CS, hCS, hid, hkind⟩

/-! ### The second pass after the first one -/

theorem isHook_eq_false {CS : CallSite} :
    CS.isHook = false ↔ ∀ name ∈ hookNames, CS.calledFunction ≠ some name := by
  unfold CallSite.isHook
  cases CS.calledFunction with
  | none => simp
  | some f => simpa using ⟨fun h name hname heq => h (heq ▸ hname), fun h hf => h f hf rfl⟩

/-- The functions that replace others are no hooks. -/
theorem replacement?_notMem_hookNames {f repl_func : String}
    (h : replacement? M f = some repl_func) : repl_func ∉ hookNames := by
  have hmem : repl_func ∈ AllocReplacementMap.map Prod.snd := by
    have hlookup : AllocReplacementMap.lookup f = some repl_func :=
      (Option.filter_eq_some_iff.1 h).1
    obtain ⟨l₁, l₂, heq, -⟩ := List.lookup_eq_some_iff.1 hlookup
    rw [heq]
    simp
  have hall : ∀ name ∈ AllocReplacementMap.map Prod.snd, name ∉ hookNames := by decide
  exact hall repl_func hmem

/-- Patches make no hooks. -/
theorem isHook_patchCall {L : List InstId} {CS : CallSite} (h : CS.isHook = false) :
    (patchCall M L CS).isHook = false := by
  unfold patchCall
  split_ifs
  · rw [isHook_eq_false] at h ⊢
    intro name hname heq
    obtain ⟨f, hf, hname'⟩ := Option.map_eq_some_iff.1 heq
    cases hr : replacement? M f with
    | none =>
        rw [hr, Option.getD_none] at hname'
        exact h name hname (hf.trans (congrArg some hname'))
    | some repl_func =>
        rw [hr, Option.getD_some] at hname'
        exact replacement?_notMem_hookNames hr (hname' ▸ hname)
  · exact h

/-- The pass declares no function that replaces another one. -/
theorem replacement?_declareHooks (M : Module) (f : String) :
    replacement? (declareHooks M) f = replacement? M f := by
  unfold replacement?
  cases hlookup : AllocReplacementMap.lookup f with
  | none => rfl
  | some name =>
      obtain ⟨l₁, l₂, heq, -⟩ := List.lookup_eq_some_iff.1 hlookup
      have hmem : name ∈ AllocReplacementMap.map Prod.snd := by
        rw [heq]
        simp
      have hall : ∀ name ∈ AllocReplacementMap.map Prod.snd, name ∉ hookNames := by decide
      simp only [Option.filter, isSome_getFunction_declareHooks M (hall name hmem)]

theorem patchCall_declareHooks (M : Module) (L : List InstId) :
    patchCall (declareHooks M) L = patchCall M L := by
  funext CS
  simp only [patchCall, replacement?_declareHooks]

/-- What is left of the calls of a function without its hooks. -/
theorem isHook_of_mem_calls_stripFunction {patch : CallSite → CallSite}
    (hpatch : ∀ CS : CallSite, CS.isHook = false → (patch CS).isHook = false) {G : Function}
    (hterm : ∀ C ∈ G.blocks, ∀ CS ∈ C.term.call?, CS.isHook = false) :
    ∀ CS ∈ (stripFunction patch G).calls, CS.isHook = false := by
  intro CS hCS
  obtain ⟨C', hC', hCS⟩ := List.mem_flatMap.1 hCS
  obtain ⟨C, hC, rfl⟩ := List.mem_map.1 hC'
  rcases List.mem_append.1 hCS with hbody | hend
  · obtain ⟨I', hI', hcall⟩ := List.mem_filterMap.1 hbody
    obtain ⟨I, hI, rfl⟩ := List.mem_map.1 hI'
    rw [Instruction.call?_mapCall] at hcall
    obtain ⟨CS₀, hCS₀, rfl⟩ := Option.map_eq_some_iff.1 hcall
    have hkeep := (List.mem_filter.1 hI).2
    exact hpatch CS₀ (by simpa [hCS₀] using hkeep)
  · have hcall : (C.term.call?).map patch = some CS := by
      rw [← Terminator.call?_mapCall]
      exact Option.mem_toList.1 hend
    obtain ⟨CS₀, hCS₀, rfl⟩ := Option.map_eq_some_iff.1 hcall
    exact hpatch CS₀ (hterm C hC CS₀ hCS₀)

/-- Configured functions are called directly. -/
theorem isSome_calledFunction_of_kind? {CS : CallSite} (h : (T.kind? CS).isSome) :
    CS.calledFunction.isSome := by
  cases hf : CS.calledFunction with
  | none =>
      rw [Targets.kind?, hf] at h
      exact absurd h (by simp)
  | some f => rfl

/-- The patches, as the second pass makes them. -/
theorem patch_hookModule (hM : M.Source) (hfree : M.NoHookCalls)
    (localSlot : Function → BlockId → ℤ) (fault_map : FaultMap) {L : List InstId}
    (hL : L = (hookModule T names M).patchCalls P fault_map) :
    (if P.MPKProfilePath = "" then some ((hookModule T names M).number P localSlot)
      else L.foldlM Module.patch ((hookModule T names M).number P localSlot)) =
        some (((hookModule T names M).number P localSlot).map
          (Function.mapCalls (patchCall M L))) := by
  obtain ⟨hnd, hcalls⟩ := patchCalls_hookModule T names P hM hfree fault_map
  have hids : ((((hookModule T names M).number P localSlot).calls).map CallSite.id).Nodup := by
    rw [map_id_calls_number]
    exact (wellFormed_hookModule hM).calls_nodup
  have hdirect : ∀ i ∈ L, ∃ CS ∈ ((hookModule T names M).number P localSlot).calls,
      CS.id = i ∧ CS.calledFunction.isSome := by
    intro i hi
    obtain ⟨CS, hCS, rfl, hkind⟩ := hcalls i (hL ▸ hi)
    have hmem : CS ∈ (hookModule T names M).calls := by
      obtain ⟨F, hF, hCS⟩ := List.mem_flatMap.1 hCS
      rw [calls_hookModule]
      exact List.mem_flatMap_of_mem hF
        ((mem_calls_rewriteFunction (hM.functions F hF)).2 (Or.inl hCS))
    have hpair := List.mem_map_of_mem (f := fun CS => (CS.id, CS.calledFunction)) hmem
    rw [← map_calledFunction_calls_number P localSlot] at hpair
    obtain ⟨CS', hCS', heq⟩ := List.mem_map.1 hpair
    obtain ⟨hid, hcallee⟩ := Prod.mk.inj heq
    refine ⟨CS', hCS', hid, ?_⟩
    rw [hcallee]
    exact isSome_calledFunction_of_kind? hkind
  have hfold := foldlM_patch hids L [] (by simpa [hL] using hnd) hdirect
  have hsame : patchCall ((hookModule T names M).number P localSlot) L = patchCall M L := by
    funext CS
    simp only [patchCall, Module.number, hookModule, Module.map_map,
      replacement?_map (M := M) (g := fun F => numberFunction P localSlot
        (rewriteFunction T names F F.RPOT) (rewriteFunction T names F F.RPOT).RPOT) (fun F => rfl)]
  rw [Module.map_patchCall_nil, List.nil_append, hsame] at hfold
  split_ifs with hpath
  · have hnil : L = [] := by
      have hno : ∀ G : Function, G.patchCalls P fault_map = [] := fun G => by
        simp [Function.patchCalls, patched?, hpath]
      rw [hL, Module.patchCalls]
      exact List.flatMap_eq_nil_iff.2 fun G _ => hno G
    rw [hnil] at hfold ⊢
    exact hfold
  · exact hfold

/-- The hooks of an instrumented module after the erasures, as the second pass makes them. -/
theorem erase_hookModule (hM : M.Source) (hfree : M.NoHookCalls) (hremove : P.RemoveHooks = true)
    (localSlot : Function → BlockId → ℤ) {patch : CallSite → CallSite}
    (hpatch : ∀ CS, (patch CS).id = CS.id) :
    ((hookModule T names M).hookCalls P).foldlM Module.erase
        (((hookModule T names M).number P localSlot).map (Function.mapCalls patch)) =
      some ((hookModule T names M).map (stripFunction patch)) := by
  have hsub : (hookModule T names M).hookCalls P ⊆
      (((hookModule T names M).number P localSlot).map
        (Function.mapCalls patch)).plainCalls.map CallSite.id := by
    rw [map_id_plainCalls_mapCalls _ hpatch, map_id_plainCalls_number]
    exact hookCalls_subset_plainCalls hM hfree hremove
  rw [foldlM_erase _ _ (nodup_hookCalls_hookModule hM) hsub, Module.map_map, Module.number,
    Module.map_map]
  refine congrArg some (congrArg Module.mk (List.map_congr_left fun G hG => ?_))
  exact dropCalls_numberFunction hpatch (fun C hC => isHook_term_hookModule hfree hG hC)
    fun CS hCS => mem_hookCalls_hookModule hM hfree hremove (List.mem_flatMap_of_mem hG hCS)

variable (names) in
/-- **The second pass after the first one**, when it removes the hooks. -/
theorem post_hookModule (hM : M.Source) (hfree : M.NoHookCalls) (hremove : P.RemoveHooks = true)
    (localSlot : Function → BlockId → ℤ) (fault_map : FaultMap) {L : List InstId}
    (hL : L = (hookModule T names M).patchCalls P fault_map) :
    (hookModule T names M).post P localSlot fault_map =
      some ⟨((hookModule T names M).map (stripFunction (patchCall M L))).functions.filter
        fun F => F.name ∉ hookNames⟩ := by
  -- nothing calls the hooks any more
  have hcalls : ∀ CS ∈ ((hookModule T names M).map (stripFunction (patchCall M L))).calls,
      ∀ name ∈ hookNames, CS.calledFunction ≠ some name := by
    intro CS hCS
    obtain ⟨G', hG', hCS⟩ := List.mem_flatMap.1 hCS
    obtain ⟨G, hG, rfl⟩ := List.mem_map.1 hG'
    exact isHook_eq_false.1 (isHook_of_mem_calls_stripFunction (fun CS h => isHook_patchCall h)
      (fun C hC => isHook_term_hookModule hfree hG hC) CS hCS)
  unfold Module.post Module.finish
  rw [← hL, patch_hookModule hM hfree localSlot fault_map hL]
  simp only [Option.bind_eq_bind, Option.bind_some, hremove, if_true]
  rw [erase_hookModule hM hfree hremove localSlot (id_patchCall M L), Option.bind_some,
    foldlM_removeHook hookNames (by decide) _ hcalls]

variable (names) in
/-- The second pass after the first one, when it keeps the hooks. -/
theorem post_hookModule_of_keep (hM : M.Source) (hfree : M.NoHookCalls)
    (hkeep : P.RemoveHooks = false) (localSlot : Function → BlockId → ℤ) (fault_map : FaultMap) :
    (hookModule T names M).post P localSlot fault_map =
      some (((hookModule T names M).number P localSlot).map (Function.mapCalls
        (patchCall M ((hookModule T names M).patchCalls P fault_map)))) := by
  unfold Module.post Module.finish
  rw [patch_hookModule hM hfree localSlot fault_map rfl]
  simp [hkeep]

variable (T names) in
/-- **The second pass succeeds after the first one**, when the profile can be read, and lists calls
to be patched. -/
theorem exists_run_hookModule (hM : M.Source) (hfree : M.NoHookCalls)
    (hloc : ∀ CS ∈ M.calls, (T.kind? CS).isSome → CS.debugLoc.isSome) {env : Environment}
    {fault_map : FaultMap} (hread : getFaultingAllocMap env P.MPKProfilePath = some fault_map)
    (localSlot : Function → BlockId → ℤ) :
    ∃ p M', ProvsanPost.run P env localSlot Compiler.fresh (hookModule T names M) = some p ∧
      p.patchList = (hookModule T names M).patchCalls P fault_map ∧
        (hookModule T names M).post P localSlot fault_map = some M' ∧
          p.processed = [⟨M', 0⟩] := by
  have hwf : (hookModule T names M).WellFormed := wellFormed_hookModule hM
  obtain ⟨M', hpost⟩ : ∃ M', (hookModule T names M).post P localSlot fault_map = some M' := by
    cases hremove : P.RemoveHooks with
    | true => exact ⟨_, post_hookModule names hM hfree hremove localSlot fault_map rfl⟩
    | false => exact ⟨_, post_hookModule_of_keep names hM hfree hremove localSlot fault_map⟩
  obtain ⟨p, hp, hprocessed⟩ := Option.map_eq_some_iff.1
    ((run_eq_some hwf loads_fresh carriesNothing_fresh).2 ⟨fault_map, hread,
      canVisit_hookModule hM hfree hloc P fault_map localSlot, M', hpost, rfl⟩)
  obtain ⟨fault_map', hread', -, hlist⟩ := lists_of_run hwf hp
  obtain rfl := Option.some_inj.1 (hread.symm.trans hread')
  exact ⟨p, M', hp, hlist, hpost, hprocessed⟩

end

/-! ### The source again -/

/-- The block through which the edge from `p` enters `d`, when there may be blocks on edges. -/
def through (added : BlockId → Option BasicBlock) (d p : BlockId) : BlockId :=
  match added p with
  | some A => if A.term = .br [d] then A.id else p
  | none => p

/-- A block of the source, after changes of its calls.  `added` are the blocks on normal edges of
invokes, by the blocks these edges come from. -/
def restoredBlock (patch : CallSite → CallSite) (added : BlockId → Option BasicBlock)
    (BB : BasicBlock) : BasicBlock where
  id := BB.id
  name := BB.name
  phis := BB.phis.map fun phi =>
    { phi with incoming := phi.incoming.map fun e => (through added BB.id e.1, e.2) }
  body := BB.body.map (Instruction.mapCall patch)
  term := (match added BB.id with
    | some A => BB.term.setNormal A.id
    | none => BB.term).mapCall patch

/-- **A block on an edge**: it only branches on, to where the invoke of a configured function at the
end of `BB` returned to. -/
structure OnEdge (T : Targets) (F : Function) (BB A : BasicBlock) : Prop where
  invoke : ∃ CS normal unwind, BB.term = .invoke CS normal unwind ∧ (T.kind? CS).isSome ∧
    A.term = .br [normal]
  phis : A.phis = []
  body : A.body = []
  id : A.id ∉ F.ids

/-- **What may differ between a function and what two passes make of it**: the calls that are
changed, and the blocks on edges. -/
structure Undone (T : Targets) (patch : CallSite → CallSite) (F H : Function) : Prop where
  name : H.name = F.name
  linkage : H.linkage = F.linkage
  nodup : H.ids.Nodup
  blocks : ∃ added : BlockId → Option BasicBlock,
    H.blocks = F.blocks.flatMap (fun BB => restoredBlock patch added BB :: (added BB.id).toList) ∧
      ∀ BB ∈ F.blocks, ∀ A ∈ added BB.id, OnEdge T F BB A

section

variable {T : Targets} {names : InstId → String} {F : Function} {patch : CallSite → CallSite}

/-- The block on the split edge of the invoke of a block, without its hook. -/
def emptiedBlock (T : Targets) (names : InstId → String) (F : Function) (b : BlockId) :
    Option BasicBlock :=
  if b ∈ F.RPOT then
    ((F.block? b).bind (splitInvoke? T F)).map fun e =>
      ⟨.splitOf e.cs.id, names e.cs.id, [], [], .br [e.normal]⟩
  else none

/-- Edges enter a block as they did with the hooks. -/
theorem through_emptiedBlock (d p : BlockId) :
    through (emptiedBlock T names F) d p = via T F F.RPOT d p := by
  unfold through emptiedBlock via
  split_ifs with hR
  · cases (F.block? p).bind (splitInvoke? T F) with
    | none => rfl
    | some e => simp
  · rfl

/-- The hooks of a body are all that is not of the source. -/
theorem filter_hooked {body : List Instruction}
    (hbody : ∀ CS, .call CS ∈ body → CS.isHook = false) :
    (body.flatMap (hooked T)).filter (fun I => !I.call?.any CallSite.isHook) = body := by
  induction body with
  | nil => rfl
  | cons I body ih =>
      have hrest := ih fun CS hCS => hbody CS (List.mem_cons_of_mem _ hCS)
      rw [List.flatMap_cons, List.filter_append, hrest]
      cases I with
      | other n => rfl
      | call CS =>
          have hno := hbody CS (List.mem_cons_self ..)
          cases hfor : hookFor T CS with
          | none => simp [hooked, hfor, hno]
          | some hook => simp [hooked, hfor, hno, (hookFor_eq_some hfor).2]

variable (names) in
/-- A block that has been given hooks, without them. -/
theorem stripBlock_rewriteBlock (hF : F.Source) (hfree : ∀ CS ∈ F.calls, CS.isHook = false)
    {BB : BasicBlock} (hBB : BB ∈ F.blocks) :
    stripBlock patch (rewriteBlock T F F.RPOT BB) =
      restoredBlock patch (emptiedBlock T names F) BB := by
  have hplain : ∀ CS, .call CS ∈ BB.body → CS.isHook = false := fun CS hCS =>
    hfree CS (Function.mem_calls_of_mem_body hBB hCS)
  have hhead :
      (headHooks T F F.RPOT BB.id).filter (fun I => !I.call?.any CallSite.isHook) = [] := by
    rw [List.filter_eq_nil_iff]
    intro I hI
    obtain ⟨CS, rfl, hCS⟩ := isHook_of_mem_headHooks hI
    simp [hCS]
  have hbody : (rewriteBlock T F F.RPOT BB).body.filter (fun I => !I.call?.any CallSite.isHook) =
      BB.body := by
    unfold rewriteBlock
    dsimp only
    rw [List.filter_append, hhead, List.nil_append]
    split_ifs
    · exact filter_hooked hplain
    · refine List.filter_eq_self.2 fun I hI => ?_
      cases I with
      | other n => rfl
      | call CS => simp [hplain CS hI]
  have hterm : (rewriteBlock T F F.RPOT BB).term =
      match emptiedBlock T names F BB.id with
      | some A => BB.term.setNormal A.id
      | none => BB.term := by
    unfold rewriteBlock emptiedBlock rewriteTerm
    dsimp only
    rw [Function.block?_of_mem hF.nodup hBB, Option.bind_some]
    split_ifs
    · cases splitInvoke? T F BB <;> rfl
    · rfl
  rw [stripBlock, hbody, hterm, restoredBlock]
  simp only [through_emptiedBlock]
  rfl

/-- **A function without its hooks is the source**, but for the blocks on edges. -/
theorem undone_stripFunction (hF : F.Source) (hfree : ∀ CS ∈ F.calls, CS.isHook = false) :
    Undone T patch F (stripFunction patch (rewriteFunction T names F F.RPOT)) where
  name := rfl
  linkage := rfl
  nodup := by
    have hids : (stripFunction patch (rewriteFunction T names F F.RPOT)).ids =
        (rewriteFunction T names F F.RPOT).ids := by
      rw [Function.ids, stripFunction, List.map_map]
      rfl
    rw [hids]
    exact nodup_rewriteFunction hF _
  blocks := by
    refine ⟨emptiedBlock T names F, ?_, ?_⟩
    · rw [stripFunction, rewriteFunction, List.map_flatMap]
      refine List.flatMap_congr fun BB hBB => ?_
      have hempty : ((if BB.id ∈ F.RPOT then
          ((splitInvoke? T F BB).map (splitBlock names)).toList else []).map (stripBlock patch)) =
            (emptiedBlock T names F BB.id).toList := by
        unfold emptiedBlock
        rw [Function.block?_of_mem hF.nodup hBB, Option.bind_some]
        split_ifs
        · cases he : splitInvoke? T F BB with
          | none => rfl
          | some e =>
              obtain ⟨unwind, -, hfor⟩ := hookedInvoke?_eq_some.1 (splitInvoke?_eq_some.1 he).1
              simp [stripBlock, splitBlock, (hookFor_eq_some hfor).2, Terminator.mapCall]
        · rfl
      rw [expandBlock, List.map_cons, stripBlock_rewriteBlock names hF hfree hBB, hempty]
    · intro BB hBB A hA
      unfold emptiedBlock at hA
      rw [Function.block?_of_mem hF.nodup hBB, Option.bind_some] at hA
      split_ifs at hA
      · obtain ⟨e, he, rfl⟩ := Option.map_eq_some_iff.1 hA
        obtain ⟨unwind, hterm, hfor⟩ := hookedInvoke?_eq_some.1 (splitInvoke?_eq_some.1 he).1
        refine ⟨⟨e.cs, e.normal, unwind, hterm, ?_, rfl⟩, rfl, rfl, ?_⟩
        · rcases hookFor_cases hfor with ⟨kind, hkind, -⟩ | ⟨hkind, -⟩ <;> simp [hkind]
        · intro hmem
          obtain ⟨C, hC, hid⟩ := List.mem_map.1 hmem
          exact hF.ne_splitOf hC e.cs.id hid
      · exact absurd hA (by simp)

end

/-! ### Both passes -/

/-- **What a build without hooks is to make of a module**: one that has nothing of the hooks, and
whose functions are those of the source, with the calls of `patchList` patched. -/
structure Removed (T : Targets) (patchList : List InstId) (M M₂ : Module) : Prop where
  names : ∀ F ∈ M₂.functions, F.name ∉ hookNames
  calls : ∀ CS ∈ M₂.calls, CS.isHook = false
  functions : List.Forall₂ (Undone T (patchCall M patchList)) M.functions M₂.functions

/-- Both passes run on a module, one after the other, and removing the hooks undoes inserting
them. -/
def RemovalUndoes (O : PreOptions) (names : InstId → String) (P : ProvsanPost) (env : Environment)
    (localSlot : Function → BlockId → ℤ) (M : Module) : Prop :=
  ∃ M₁ p M₂ total, DynUntrustedAllocPre.run O names M = some M₁ ∧
    ProvsanPost.run P env localSlot Compiler.fresh M₁ = some p ∧
      p.processed = [⟨M₂, total⟩] ∧ Removed (O.targets M) p.patchList M M₂

/-- The declarations of the hooks are all that goes. -/
theorem filter_map_declareHooks {M : Module} (hfree : M.HookFree) {g : Function → Function}
    (hg : ∀ F, (g F).name = F.name) :
    ((declareHooks M).map g).functions.filter (fun F => F.name ∉ hookNames) =
      M.functions.map g := by
  have hkeep : (M.functions.map g).filter (fun F => F.name ∉ hookNames) = M.functions.map g := by
    refine List.filter_eq_self.2 fun G hG => ?_
    obtain ⟨F, hF, rfl⟩ := List.mem_map.1 hG
    rw [hg]
    exact decide_eq_true (hfree.names F hF)
  have hdrop : (hookDeclarations.map g).filter (fun F => F.name ∉ hookNames) = [] := by
    rw [List.filter_eq_nil_iff]
    intro G hG
    obtain ⟨F, hF, rfl⟩ := List.mem_map.1 hG
    obtain ⟨name, hname, rfl⟩ := List.mem_map.1 hF
    rw [hg]
    simpa using hname
  rw [declareHooks_eq hfree, Module.map, List.map_append, List.filter_append, hkeep, hdrop,
    List.append_nil]

/-- What the second pass makes of an instrumented module is what it is to make. -/
theorem removed_stripFunction {T : Targets} (names : InstId → String) {M : Module}
    (hM : M.Source) (hfree : M.HookFree) (L : List InstId) :
    Removed T L M ⟨((hookModule T names (declareHooks M)).map
      (stripFunction (patchCall (declareHooks M) L))).functions.filter
        fun F => F.name ∉ hookNames⟩ := by
  have hfunctions : ((hookModule T names (declareHooks M)).map
      (stripFunction (patchCall (declareHooks M) L))).functions.filter
        (fun F => F.name ∉ hookNames) =
      M.functions.map fun F =>
        stripFunction (patchCall M L) (rewriteFunction T names F F.RPOT) := by
    rw [patchCall_declareHooks, hookModule, Module.map_map]
    exact filter_map_declareHooks hfree fun F => rfl
  rw [hfunctions]
  constructor
  · intro G hG
    obtain ⟨F, hF, rfl⟩ := List.mem_map.1 hG
    exact hfree.names F hF
  · intro CS hCS
    obtain ⟨G, hG, hCS⟩ := List.mem_flatMap.1 hCS
    obtain ⟨F, hF, rfl⟩ := List.mem_map.1 hG
    refine isHook_of_mem_calls_stripFunction (fun CS h => isHook_patchCall h)
      (fun C hC => isHook_term_rewriteFunction (fun CS hCS => ?_) hC) CS hCS
    exact hfree.calls CS (List.mem_flatMap_of_mem hF hCS)
  · rw [List.forall₂_map_right_iff, List.forall₂_same]
    exact fun F hF => undone_stripFunction (hM.functions F hF)
      fun CS hCS => hfree.calls CS (List.mem_flatMap_of_mem hF hCS)

/-- **Removing hooks undoes inserting them**, when every element of the profile is an object. -/
theorem removed_iff (O : PreOptions) (names : InstId → String) (P : ProvsanPost)
    (env : Environment) (localSlot : Function → BlockId → ℤ) (M : Module) (hM : M.Source)
    (hfree : M.HookFree) (hargs : ∀ CS ∈ M.calls, (O.targets M).EnoughArgs CS)
    (hloc : ∀ CS ∈ M.calls, ((O.targets M).kind? CS).isSome → CS.debugLoc.isSome)
    (hremove : P.RemoveHooks = true) : RemovalUndoes O names P env localSlot M ↔
      P.MPKProfilePath = "" ∨ ProfileObjects env P.MPKProfilePath := by
  rw [← isSome_getFaultingAllocMap, Option.isSome_iff_exists]
  have hrun : ∀ M₁, DynUntrustedAllocPre.run O names M = some M₁ ↔ _ := fun _ =>
    run_pre hM (noHooks_targets O hfree)
  have hcalls : (declareHooks M).NoHookCalls := Module.NoHookCalls.declareHooks hfree.calls
  constructor
  · rintro ⟨M₁, p, M₂, total, hpre, hp, -, -⟩
    obtain ⟨-, rfl⟩ := (hrun M₁).1 hpre
    obtain ⟨fault_map, hread, -⟩ := lists_of_run (wellFormed_hookModule hM.declareHooks) hp
    exact ⟨fault_map, hread⟩
  · rintro ⟨fault_map, hread⟩
    have hpre := (hrun _).2 ⟨fun F hF B hB _ CS hCS => isSome_getHookInst
      (hargs CS (List.mem_flatMap_of_mem hF (List.mem_flatMap_of_mem hB hCS))), rfl⟩
    obtain ⟨p, M₂, hp, hlist, hpost, hprocessed⟩ := exists_run_hookModule (O.targets M) names
      hM.declareHooks hcalls (by rwa [calls_declareHooks]) hread localSlot
    refine ⟨_, p, M₂, _, hpre, hp, hprocessed, ?_⟩
    rw [post_hookModule names hM.declareHooks hcalls hremove localSlot fault_map rfl,
      ← hlist] at hpost
    exact Option.some_inj.1 hpost ▸ removed_stripFunction names hM hfree p.patchList

/-- With a profile that lists the first allocation. -/
theorem removed_iff_sample :
    RemovalUndoes sampleOptions (fun _ => "") ⟨"p.json", true⟩ (profileOf siteText) (fun _ _ => 0)
      sampleModule :=
  (removed_iff sampleOptions (fun _ => "") ⟨"p.json", true⟩ (profileOf siteText) (fun _ _ => 0)
    sampleModule sampleModule_source sampleModule_hookFree (by decide) (by decide) rfl).2
    (Or.inr (by decide))

/-- An element of the profile that is no object stops the second pass. -/
theorem not_removalUndoes : sampleModule.Source ∧ sampleModule.HookFree ∧
    (∀ CS ∈ sampleModule.calls, (sampleOptions.targets sampleModule).EnoughArgs CS) ∧
      (∀ CS ∈ sampleModule.calls, ((sampleOptions.targets sampleModule).kind? CS).isSome →
        CS.debugLoc.isSome) ∧
        ¬ RemovalUndoes sampleOptions (fun _ => "") ⟨"p.json", true⟩ (profileOf "[1]")
          (fun _ _ => 0) sampleModule := by
  refine ⟨sampleModule_source, sampleModule_hookFree, by decide, by decide, ?_⟩
  have hfails : ∀ M₁ ∈ DynUntrustedAllocPre.run sampleOptions (fun _ => "") sampleModule,
      ProvsanPost.run ⟨"p.json", true⟩ (profileOf "[1]") (fun _ _ => 0) Compiler.fresh M₁ =
        none := by
    decide
  rintro ⟨M₁, p, M₂, total, hpre, hp, -, -⟩
  rw [hfails M₁ hpre] at hp
  exact absurd hp (by simp)

end Provsan
