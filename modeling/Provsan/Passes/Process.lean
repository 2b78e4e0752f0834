/-
**The numbering pass in a process.**

The lists of the pass and its generator are never reset.  What a run of the pass does to its module
is described here for the module alone; in a process the run does the same, as long as the lists
lead to nothing of an earlier module that is changed.  With hooks removed that means that no module
before had a hook; with a profile, that no listed call of an earlier module can be patched now that
could not be patched then.

The generator that counts for the whole module is never used, because every function has its own.
So the total that the runtime takes the number of its counters from is always zero.

Main definitions:

* `Provsan.Module.patch`, `Provsan.Module.erase`, `Provsan.Module.finish` — what is done with the
  lists, for one module alone;
* `Provsan.PostStep`, `Provsan.AsFresh` — runs of the pass in a process, and what they are to do;
* `Provsan.CarriesNothing` — when the state that is left does no harm to the next run;
* `Provsan.Counted` — what the total is for.

Main results:

* `Provsan.run_eq_some` — **a run of the pass**, in a process that carries nothing over;
* `Provsan.carriesNothing_run` — **the pass carries nothing from one module to the next**, when no
  step finds a list that leads back;
* `Provsan.counted_iff` — **the total counts the ids only when there are none**.
-/

import Provsan.Lib.Run
import Provsan.Passes.Numbering
import Provsan.Runtime.Handler
import Mathlib.Data.List.Forall2

set_option relaxedAutoImplicit false
set_option autoImplicit false

namespace Provsan

/-! ### Related lists -/

/-- What is related to an entry of a list. -/
theorem exists_of_mem_right {α β : Type} {R : α → β → Prop} {l : List α} {l' : List β}
    (h : List.Forall₂ R l l') {b : β} (hb : b ∈ l') : ∃ a ∈ l, R a b := by
  induction h with
  | nil => exact absurd hb (by simp)
  | @cons a b' l l' hab _ ih =>
      rcases List.mem_cons.1 hb with rfl | hb
      · exact ⟨a, List.mem_cons_self .., hab⟩
      · obtain ⟨a', ha', hab'⟩ := ih hb
        exact ⟨a', List.mem_cons_of_mem _ ha', hab'⟩

theorem exists_of_mem_left {α β : Type} {R : α → β → Prop} {l : List α} {l' : List β}
    (h : List.Forall₂ R l l') {a : α} (ha : a ∈ l) : ∃ b ∈ l', R a b :=
  exists_of_mem_right (R := flip R) h.flip ha

/-! ### One module alone -/

namespace Module

/-- `patchInstruction` for a call of the module. -/
def patch (M : Module) (inst : InstId) : Option Module := do
  let CS ← M.calls.find? (·.id = inst)
  let calledFuncName ← CS.calledFunction
  match replacement? M calledFuncName with
  | none => some M
  | some repl_func => some (M.map (Function.mapCalls (setCalledFunction inst repl_func)))

/-- `eraseFromParent` for a call of the module. -/
def erase (M : Module) (inst : InstId) : Option Module :=
  if inst ∈ M.plainCalls.map CallSite.id then
    some (M.map (Function.dropCalls (·.id = inst)))
  else none

/-- What a run does with the lists. -/
def finish (P : ProvsanPost) (hookList patchList : List InstId) (M : Module) : Option Module := do
  let M ← (if P.MPKProfilePath = "" then some M else patchList.foldlM patch M)
  if P.RemoveHooks then do
    let M ← hookList.foldlM erase M
    hookNames.foldlM removeHook M
  else some M

end Module

/-! ### Other modules are left alone -/

/-- A function without a call is left alone by a change of that call. -/
theorem mapCalls_setCalledFunction {F : Function} {inst : InstId}
    (h : inst ∉ F.calls.map CallSite.id) (repl_func : String) :
    F.mapCalls (setCalledFunction inst repl_func) = F := by
  obtain ⟨name, linkage, blocks⟩ := F
  have hblocks : blocks.map (BasicBlock.mapCalls (setCalledFunction inst repl_func)) = blocks := by
    conv_rhs => rw [← List.map_id blocks]
    refine List.map_congr_left fun BB hBB => BasicBlock.mapCalls_eq_self fun CS hCS => if_neg ?_
    rintro rfl
    exact h (List.mem_map_of_mem (List.mem_flatMap_of_mem hBB hCS))
  simp [Function.mapCalls, hblocks]

/-- The plain calls of a function are among its calls. -/
theorem Function.mem_calls_of_mem_body {F : Function} {BB : BasicBlock} (hBB : BB ∈ F.blocks)
    {CS : CallSite} (hCS : .call CS ∈ BB.body) : CS ∈ F.calls :=
  List.mem_flatMap_of_mem hBB (List.mem_append_left _ (List.mem_filterMap.2 ⟨_, hCS, rfl⟩))

/-- A function without calls of a kind is left alone when these are erased. -/
theorem dropCalls_eq_self {F : Function} {p : CallSite → Bool}
    (h : ∀ BB ∈ F.blocks, ∀ CS, .call CS ∈ BB.body → p CS = false) : F.dropCalls p = F := by
  obtain ⟨name, linkage, blocks⟩ := F
  have hblocks : (blocks.map fun BB : BasicBlock =>
      { BB with body := BB.body.filter fun I => !I.call?.any p }) = blocks := by
    conv_rhs => rw [← List.map_id blocks]
    refine List.map_congr_left fun BB hBB => ?_
    have hbody : (BB.body.filter fun I => !I.call?.any p) = BB.body := by
      refine List.filter_eq_self.2 fun I hI => ?_
      cases I with
      | other n => rfl
      | call CS => simpa [Instruction.call?] using h BB hBB CS hI
    rw [hbody]
    rfl
  simp [Function.dropCalls, hblocks]

/-- The calls of modules that have had their turn. -/
def earlierCalls (earlier : List Processed) : List CallSite := earlier.flatMap fun m => m.M.calls

section

variable {earlier : List Processed} {inst : InstId}

/-- Modules that a change leaves alone stay. -/
theorem map_earlier {g : Function → Function}
    (h : ∀ m ∈ earlier, ∀ F ∈ m.M.functions, g F = F) (M : Module) :
    (Memory.mk earlier M).map g = ⟨earlier, M.map g⟩ := by
  have hearlier : (earlier.map fun m => { m with M := m.M.map g }) = earlier := by
    conv_rhs => rw [← List.map_id earlier]
    refine List.map_congr_left fun m hm => ?_
    obtain ⟨⟨functions⟩, total⟩ := m
    have hfunctions : functions.map g = functions := by
      conv_rhs => rw [← List.map_id functions]
      exact List.map_congr_left (h _ hm)
    simp [Module.map, hfunctions]
  simp [Memory.map, hearlier]

/-- A call that is in no earlier module is patched in the module itself. -/
theorem patchInstruction_eq (h : inst ∉ (earlierCalls earlier).map CallSite.id) (M : Module) :
    patchInstruction ⟨earlier, M⟩ inst = (M.patch inst).map (Memory.mk earlier) := by
  have hmap : ∀ repl_func, (Memory.mk earlier M).map
      (Function.mapCalls (setCalledFunction inst repl_func)) =
        ⟨earlier, M.map (Function.mapCalls (setCalledFunction inst repl_func))⟩ := fun repl_func =>
    map_earlier (fun m hm F hF => mapCalls_setCalledFunction (fun hi => h (List.map_subset _
      (fun _ hCS => List.mem_flatMap_of_mem hm (List.mem_flatMap_of_mem hF hCS)) hi)) _) M
  have hfind : (earlierCalls earlier).find? (·.id = inst) = none :=
    List.find?_eq_none.2 fun CS hCS => by
      simpa using fun heq : CS.id = inst => h (heq ▸ List.mem_map_of_mem hCS)
  unfold patchInstruction Module.patch
  rw [Memory.calls, List.find?_append, ← earlierCalls, hfind, Option.none_or]
  cases M.calls.find? (·.id = inst) with
  | none => rfl
  | some CS =>
      cases hf : CS.calledFunction with
      | none => simp [hf]
      | some f =>
          simp only [Option.bind_eq_bind, Option.bind_some, hf]
          cases replacement? M f with
          | none => rfl
          | some repl_func => simp [hmap]

/-- A call that is in no earlier module is erased from the module itself. -/
theorem eraseFromParent_eq (h : inst ∉ (earlierCalls earlier).map CallSite.id) (M : Module) :
    eraseFromParent ⟨earlier, M⟩ inst = (M.erase inst).map (Memory.mk earlier) := by
  have hplain : ∀ m ∈ earlier, ∀ F ∈ m.M.functions, ∀ BB ∈ F.blocks, ∀ CS, .call CS ∈ BB.body →
      CS.id ≠ inst := by
    rintro m hm F hF BB hBB CS hCS rfl
    exact h (List.mem_map_of_mem (List.mem_flatMap_of_mem hm
      (List.mem_flatMap_of_mem hF (Function.mem_calls_of_mem_body hBB hCS))))
  have hmem : inst ∈ (Memory.mk earlier M).plainCalls.map CallSite.id ↔
      inst ∈ M.plainCalls.map CallSite.id := by
    rw [Memory.plainCalls, List.map_append, List.mem_append, or_iff_right]
    intro hi
    obtain ⟨CS, hCS, rfl⟩ := List.mem_map.1 hi
    obtain ⟨m, hm, hCS⟩ := List.mem_flatMap.1 hCS
    obtain ⟨F, hF, hCS⟩ := List.mem_flatMap.1 hCS
    obtain ⟨BB, hBB, hCS⟩ := List.mem_flatMap.1 hCS
    obtain ⟨I, hI, hcall⟩ := List.mem_filterMap.1 hCS
    cases I with
    | other n => exact absurd hcall (by simp [Instruction.call?])
    | call CS' =>
        obtain rfl := Option.some_inj.1 hcall
        exact hplain m hm F hF BB hBB _ hI rfl
  have hmap : (Memory.mk earlier M).map (Function.dropCalls (·.id = inst)) =
      ⟨earlier, M.map (Function.dropCalls (·.id = inst))⟩ :=
    map_earlier (fun m hm F hF => dropCalls_eq_self fun BB hBB CS hCS => by
      simpa using hplain m hm F hF BB hBB CS hCS) M
  unfold eraseFromParent Module.erase
  by_cases hi : inst ∈ M.plainCalls.map CallSite.id
  · rw [if_pos hi, if_pos (hmem.2 hi), hmap]
    rfl
  · rw [if_neg hi, if_neg (mt hmem.1 hi)]
    rfl

/-- A loop over instructions of the module stays in the module. -/
theorem foldlM_memory {turn : Memory → InstId → Option Memory}
    {alone : Module → InstId → Option Module} {L : List InstId}
    (h : ∀ i ∈ L, ∀ M, turn ⟨earlier, M⟩ i = (alone M i).map (Memory.mk earlier))
    (M : Module) : L.foldlM turn ⟨earlier, M⟩ = (L.foldlM alone M).map (Memory.mk earlier) := by
  induction L generalizing M with
  | nil => rfl
  | cons i L ih =>
      rw [List.foldlM_cons, List.foldlM_cons, h i (List.mem_cons_self ..)]
      cases alone M i with
      | none => rfl
      | some M' => exact ih (fun j hj => h j (List.mem_cons_of_mem _ hj)) M'

end

/-! ### What the visit leaves alone -/

/-- A change that keeps the names of the functions keeps which of them there are. -/
theorem isSome_getFunction_map {M : Module} {g : Function → Function}
    (hg : ∀ F, (g F).name = F.name) (name : String) :
    ((M.map g).getFunction name).isSome = (M.getFunction name).isSome := by
  unfold Module.getFunction
  split_ifs
  · rfl
  · rw [Module.map, List.find?_map, Option.isSome_map]
    congr 2
    funext F
    rw [Function.comp_apply, hg]

theorem replacement?_map {M : Module} {g : Function → Function} (hg : ∀ F, (g F).name = F.name)
    (calledFuncName : String) :
    replacement? (M.map g) calledFuncName = replacement? M calledFuncName := by
  simp only [replacement?, isSome_getFunction_map hg]

section

variable {P : ProvsanPost} {fault_map : FaultMap} {localSlot : Function → BlockId → ℤ} {M : Module}

/-- The new entries of `hookList` are calls of the module. -/
theorem hookCalls_subset : (M.hookCalls P) ⊆ M.calls.map CallSite.id := by
  intro i hi
  obtain ⟨F, hF, hi⟩ := List.mem_flatMap.1 hi
  unfold Function.hookCalls at hi
  split_ifs at hi
  · obtain ⟨CS, hCS, rfl⟩ := List.mem_map.1 hi
    exact List.mem_map_of_mem (List.mem_flatMap_of_mem (Module.mem_worked.1 hF).1
      (Function.mem_calls_of_mem_visited (List.mem_of_mem_filter hCS)))
  · exact absurd hi (by simp)

/-- The new entries of `patchList` are calls of the module. -/
theorem patchCalls_subset (hvisit : M.CanVisit P fault_map localSlot) :
    (M.patchCalls P fault_map) ⊆ M.calls.map CallSite.id := by
  intro i hi
  obtain ⟨F, hF, hi⟩ := List.mem_flatMap.1 hi
  obtain ⟨CS, hCS, hpatched⟩ := List.mem_filterMap.1 hi
  obtain ⟨e, he, rfl⟩ := Option.map_eq_some_iff.1 hpatched
  obtain ⟨BB, hBB, hCS⟩ := List.mem_flatMap.1 hCS
  have hF := (Module.mem_worked.1 hF).1
  have hlocation := (hvisit F hF BB hBB CS hCS).location e he
  unfold location? at hlocation
  cases hinst : F.calls.find? (·.id = e.2) with
  | none => simp [hinst] at hlocation
  | some inst =>
      have hid : inst.id = e.2 := by simpa using List.find?_some hinst
      exact hid ▸ List.mem_map_of_mem (List.mem_flatMap_of_mem hF (List.mem_of_find?_eq_some hinst))

end

/-! ### Runs of the pass -/

/-- The instructions of a module that a process comes to are other objects than those it knows. -/
def Compiler.Loads (p : Compiler) (M : Module) : Prop :=
  ∀ CS ∈ M.calls, CS.id ∉ (earlierCalls p.processed).map CallSite.id

instance (p : Compiler) (M : Module) : Decidable (p.Loads M) :=
  inferInstanceAs (Decidable (∀ CS ∈ M.calls, _))

/-- A run of the pass in a process. -/
def PostStep (P : ProvsanPost) (env : Environment) (localSlot : Function → BlockId → ℤ)
    (p : Compiler) (M : Module) (p' : Compiler) : Prop :=
  M.WellFormed ∧ p.Loads M ∧ ProvsanPost.run P env localSlot p M = some p'

/-- A call of an earlier module whose callee the module has nothing to replace with. -/
def Compiler.CannotPatch (p : Compiler) (M : Module) (i : InstId) : Prop :=
  ∃ CS ∈ (earlierCalls p.processed).find? (·.id = i), ∃ f ∈ CS.calledFunction,
    replacement? M f = none

instance (p : Compiler) (M : Module) (i : InstId) : Decidable (p.CannotPatch M i) :=
  inferInstanceAs (Decidable (∃ CS ∈ (earlierCalls p.processed).find? (·.id = i),
    ∃ f ∈ CS.calledFunction, replacement? M f = none))

/-- **When the state of the process does no harm**: with hooks removed, there has been none yet;
with a profile, the listed calls are such that the module has nothing to replace their callees. -/
def CarriesNothing (P : ProvsanPost) (p : Compiler) (M : Module) : Prop :=
  (P.RemoveHooks = true → p.hookList = []) ∧
    (P.MPKProfilePath ≠ "" → ∀ i ∈ p.patchList, p.CannotPatch M i)

instance (P : ProvsanPost) (p : Compiler) (M : Module) : Decidable (CarriesNothing P p M) :=
  inferInstanceAs (Decidable ((P.RemoveHooks = true → p.hookList = []) ∧
    (P.MPKProfilePath ≠ "" → ∀ i ∈ p.patchList, p.CannotPatch M i)))

/-- What a run leaves behind is what was there before, and what a fresh process makes of the
module; and it fails as it does there. -/
def AsFresh (P : ProvsanPost) (env : Environment) (localSlot : Function → BlockId → ℤ)
    (p : Compiler) (M : Module) : Prop :=
  (ProvsanPost.run P env localSlot p M).map Compiler.processed =
    (ProvsanPost.run P env localSlot Compiler.fresh M).map fun q => p.processed ++ q.processed

instance (P : ProvsanPost) (env : Environment) (localSlot : Function → BlockId → ℤ) (p : Compiler)
    (M : Module) : Decidable (AsFresh P env localSlot p M) :=
  inferInstanceAs (Decidable (_ = _))

/-- Every run of the pass in a process does what it does in a fresh one. -/
def StepsAgree (P : ProvsanPost) (env : Environment) (localSlot : Function → BlockId → ℤ) : Prop :=
  ∀ (Ms : List Module) (p : Compiler), Run (PostStep P env localSlot) Compiler.fresh Ms p →
    ∀ M : Module, M.WellFormed → p.Loads M → AsFresh P env localSlot p M

/-- What the visit of a module and the end of the run make of it. -/
def Module.post (P : ProvsanPost) (localSlot : Function → BlockId → ℤ) (fault_map : FaultMap)
    (M : Module) : Option Module :=
  (M.number P localSlot).finish P (M.hookCalls P)
    (M.patchCalls P fault_map)

section

variable {P : ProvsanPost} {env : Environment} {localSlot : Function → BlockId → ℤ} {p : Compiler}
  {M : Module}

/-- Listed calls of earlier modules that cannot be patched are passed over. -/
theorem foldlM_patchInstruction_earlier {L : List InstId} {M' : Module}
    (hM' : ∀ f, replacement? M' f = replacement? M f)
    (hL : ∀ i ∈ L, p.CannotPatch M i) :
    L.foldlM patchInstruction ⟨p.processed, M'⟩ = some ⟨p.processed, M'⟩ := by
  induction L with
  | nil => rfl
  | cons i L ih =>
      obtain ⟨CS, hfind, f, hf, hnone⟩ := hL i (List.mem_cons_self ..)
      have hturn : patchInstruction ⟨p.processed, M'⟩ i = some ⟨p.processed, M'⟩ := by
        unfold patchInstruction
        rw [Memory.calls, List.find?_append, ← earlierCalls, Option.mem_def.1 hfind, Option.some_or]
        simp only [Option.bind_eq_bind, Option.bind_some, Option.mem_def.1 hf, hM', hnone]
      rw [List.foldlM_cons, hturn]
      exact ih fun j hj => hL j (List.mem_cons_of_mem _ hj)

/-- What a run does with the lists, in a process that carries nothing over. -/
theorem finish_memory (hcarry : CarriesNothing P p M) {hooks patches : List InstId} {M' : Module}
    (hM' : ∀ f, replacement? M' f = replacement? M f)
    (hhooks : ∀ i ∈ hooks, i ∉ (earlierCalls p.processed).map CallSite.id)
    (hpatches : ∀ i ∈ patches, i ∉ (earlierCalls p.processed).map CallSite.id) :
    ((if P.MPKProfilePath = "" then some (Memory.mk p.processed M')
      else (p.patchList ++ patches).foldlM patchInstruction ⟨p.processed, M'⟩).bind fun mem =>
        if P.RemoveHooks then removeHooks (p.hookList ++ hooks) mem else some mem) =
      (M'.finish P hooks patches).map (Memory.mk p.processed) := by
  have hremove : ∀ M', (if P.RemoveHooks then removeHooks (p.hookList ++ hooks) ⟨p.processed, M'⟩
      else some ⟨p.processed, M'⟩) =
        (if P.RemoveHooks then do
            let M ← hooks.foldlM Module.erase M'
            hookNames.foldlM removeHook M
          else some M').map (Memory.mk p.processed) := by
    intro M'
    split_ifs with hr
    · have herase := foldlM_memory (fun i hi => eraseFromParent_eq (hhooks i hi)) M'
      rw [hcarry.1 hr, List.nil_append, removeHooks, herase]
      cases hooks.foldlM Module.erase M' with
      | none => rfl
      | some M'' =>
          simp only [Option.bind_eq_bind, Option.map_some, Option.bind_some]
          cases hookNames.foldlM removeHook M'' <;> rfl
    · rfl
  have hpatch : (if P.MPKProfilePath = "" then some (Memory.mk p.processed M')
      else (p.patchList ++ patches).foldlM patchInstruction ⟨p.processed, M'⟩) =
        (if P.MPKProfilePath = "" then some M'
          else patches.foldlM Module.patch M').map (Memory.mk p.processed) := by
    split_ifs with hpath
    · rfl
    · rw [List.foldlM_append, foldlM_patchInstruction_earlier hM' (hcarry.2 hpath)]
      exact foldlM_memory (fun i hi => patchInstruction_eq (hpatches i hi)) _
  rw [hpatch, Module.finish]
  cases (if P.MPKProfilePath = "" then some M' else patches.foldlM Module.patch M') with
  | none => rfl
  | some M'' => exact hremove M''

/-- **A run of the pass**, in a process that carries nothing over. -/
theorem run_eq_some (hM : M.WellFormed) (hload : p.Loads M) (hcarry : CarriesNothing P p M)
    {processed : List Processed} :
    (ProvsanPost.run P env localSlot p M).map Compiler.processed = some processed ↔
      ∃ fault_map, getFaultingAllocMap env P.MPKProfilePath = some fault_map ∧
        M.CanVisit P fault_map localSlot ∧ ∃ M', M.post P localSlot fault_map = some M' ∧
          processed = p.processed ++ [⟨M', p.IDG⟩] := by
  have hnew : ∀ i ∈ M.calls.map CallSite.id, i ∉ (earlierCalls p.processed).map CallSite.id := by
    intro i hi
    obtain ⟨CS, hCS, rfl⟩ := List.mem_map.1 hi
    exact hload CS hCS
  have hfinish : ∀ {fault_map}, M.CanVisit P fault_map localSlot →
      ((if P.MPKProfilePath = "" then some (Memory.mk p.processed (M.number P localSlot))
        else (p.patchList ++ M.patchCalls P fault_map).foldlM
          patchInstruction ⟨p.processed, M.number P localSlot⟩).bind fun mem =>
            if P.RemoveHooks then
              removeHooks (p.hookList ++ M.hookCalls P) mem
            else some mem) =
        (M.post P localSlot fault_map).map (Memory.mk p.processed) := fun hvisit =>
    finish_memory hcarry
      (fun f => replacement?_map (g := fun F => numberFunction P localSlot F F.RPOT)
        (fun F => rfl) f) (fun i hi => hnew i (hookCalls_subset hi))
      (fun i hi => hnew i (patchCalls_subset hvisit hi))
  rw [Option.map_eq_some_iff]
  unfold ProvsanPost.run
  simp only [Option.bind_eq_bind, Option.bind_eq_some_iff, assignLocalIDs_eq_some hM.functions]
  constructor
  · rintro ⟨p', ⟨r, ⟨fault_map, hread, hvisit, hr⟩, mem, hmem, mem', hmem', hp'⟩, hprocessed⟩
    subst hr
    dsimp only at hmem hmem' hp'
    rw [patchList_visit] at hmem
    rw [hookList_visit] at hmem'
    have hboth := hfinish hvisit
    rw [hmem, Option.bind_some, hmem'] at hboth
    obtain ⟨M', hM', rfl⟩ := Option.map_eq_some_iff.1 hboth.symm
    refine ⟨fault_map, hread, hvisit, M', hM', ?_⟩
    rw [← hprocessed, ← Option.some_inj.1 hp']
  · rintro ⟨fault_map, hread, hvisit, M', hM', rfl⟩
    have hboth := hfinish hvisit
    rw [hM', Option.map_some] at hboth
    obtain ⟨mem, hmem, hmem'⟩ := Option.bind_eq_some_iff.1 hboth
    rw [← patchList_visit P fault_map localSlot M ⟨p.hookList, p.patchList, 0, [], p.errs⟩] at hmem
    rw [← hookList_visit P fault_map localSlot M ⟨p.hookList, p.patchList, 0, [], p.errs⟩] at hmem'
    exact ⟨_, ⟨_, ⟨fault_map, hread, hvisit, rfl⟩, mem, hmem, _, hmem', rfl⟩, rfl⟩

/-! ### One module after the other -/

/-- A run leaves the generator for the whole module alone. -/
theorem run_IDG {p' : Compiler} (h : ProvsanPost.run P env localSlot p M = some p') :
    p'.IDG = p.IDG := by
  obtain ⟨r, -, h⟩ := Option.bind_eq_some_iff.1 h
  obtain ⟨mem, -, h⟩ := Option.bind_eq_some_iff.1 h
  obtain ⟨mem', -, h⟩ := Option.bind_eq_some_iff.1 h
  rw [← Option.some_inj.1 h]

theorem carriesNothing_fresh : CarriesNothing P Compiler.fresh M :=
  ⟨fun _ => rfl, fun _ i hi => absurd hi (by simp [Compiler.fresh])⟩

theorem loads_fresh : Compiler.fresh.Loads M := fun CS _ h => absurd h (by
  simp [Compiler.fresh, earlierCalls])

/-- What a run has put on its lists. -/
theorem lists_of_run (hM : M.WellFormed) {p' : Compiler}
    (h : ProvsanPost.run P env localSlot p M = some p') :
    ∃ fault_map, getFaultingAllocMap env P.MPKProfilePath = some fault_map ∧
      p'.hookList = p.hookList ++ M.hookCalls P ∧
        p'.patchList = p.patchList ++ M.patchCalls P fault_map := by
  obtain ⟨r, hr, h⟩ := Option.bind_eq_some_iff.1 h
  obtain ⟨mem, -, h⟩ := Option.bind_eq_some_iff.1 h
  obtain ⟨mem', -, h⟩ := Option.bind_eq_some_iff.1 h
  obtain ⟨fault_map, hread, -, rfl⟩ := (assignLocalIDs_eq_some hM.functions).1 hr
  rw [← Option.some_inj.1 h]
  exact ⟨fault_map, hread, hookList_visit .., patchList_visit ..⟩

/-- **A step does what it does in a fresh process**, beside the modules that are there. -/
theorem asFresh_run (hIDG : p.IDG = 0) (hM : M.WellFormed) (hload : p.Loads M)
    (hcarry : CarriesNothing P p M) : AsFresh P env localSlot p M := by
  unfold AsFresh
  refine Option.ext fun processed => ?_
  have hfresh : ((ProvsanPost.run P env localSlot Compiler.fresh M).map fun q =>
      p.processed ++ q.processed) = some processed ↔ ∃ new,
        (ProvsanPost.run P env localSlot Compiler.fresh M).map Compiler.processed = some new ∧
          p.processed ++ new = processed := by
    cases ProvsanPost.run P env localSlot Compiler.fresh M <;> simp
  rw [run_eq_some hM hload hcarry, hfresh, hIDG]
  simp only [run_eq_some hM loads_fresh carriesNothing_fresh]
  constructor
  · rintro ⟨fault_map, hread, hvisit, M', hM', rfl⟩
    exact ⟨_, ⟨fault_map, hread, hvisit, M', hM', rfl⟩, rfl⟩
  · rintro ⟨_, ⟨fault_map, hread, hvisit, M', hM', rfl⟩, rfl⟩
    exact ⟨fault_map, hread, hvisit, M', hM', rfl⟩

end

section

variable {P : ProvsanPost} {env : Environment} {localSlot : Function → BlockId → ℤ}

theorem IDG_of_run {Ms : List Module} {p : Compiler}
    (hrun : Run (PostStep P env localSlot) Compiler.fresh Ms p) : p.IDG = 0 :=
  Run.invariant (I := fun p => p.IDG = 0) rfl
    (fun _ _ _ hIDG hstep => (run_IDG hstep.2.2).trans hIDG) hrun

/-- **The pass carries nothing from one module to the next**, in a process none of whose steps
finds a list that leads back: the modules are in the end what a fresh process makes of them, and
the next one becomes that too, or fails as it does there, while the others stay as they are. -/
theorem carriesNothing_run (P : ProvsanPost) (env : Environment)
    (localSlot : Function → BlockId → ℤ) (Ms : List Module) (p : Compiler)
    (hrun : Run (Guarded (CarriesNothing P) (PostStep P env localSlot)) Compiler.fresh Ms p) :
    List.Forall₂ (fun M m => (ProvsanPost.run P env localSlot Compiler.fresh M).map
        Compiler.processed = some [m]) Ms p.processed ∧
      ∀ M : Module, M.WellFormed → p.Loads M → CarriesNothing P p M →
        AsFresh P env localSlot p M := by
  have hIDG := IDG_of_run (hrun.mono fun _ _ _ h => h.2)
  refine ⟨?_, fun M hM hload hcarry => asFresh_run hIDG hM hload hcarry⟩
  clear hIDG
  induction hrun with
  | nil => exact .nil
  | @snoc Ms p p' M hrun hstep ih =>
      obtain ⟨hcarry, hM, hload, hp'⟩ := hstep
      have hIDG := IDG_of_run (hrun.mono fun _ _ _ h => h.2)
      have hsame : AsFresh P env localSlot p M := asFresh_run hIDG hM hload hcarry
      rw [AsFresh, hp', Option.map_some] at hsame
      obtain ⟨q, hq, heq⟩ := Option.map_eq_some_iff.1 hsame.symm
      obtain ⟨fault_map, -, -, M', -, hnew⟩ :=
        (run_eq_some hM loads_fresh carriesNothing_fresh).1
          (congrArg (Option.map Compiler.processed) hq)
      rw [← heq, hnew]
      refine List.rel_append ih (.cons ?_ .nil)
      rw [hq, Option.map_some, hnew]
      rfl

end

/-- A function with an allocation and its hook. -/
def hookedFunction (name : String) (n : ℕ) : Function :=
  ⟨name, .external, [⟨.src 0, "entry", [],
    [.call ⟨.src n, some "__rust_alloc", [.int64 8, .int64 8], some (.loc "lib.rs" 3 5)⟩,
      .call ⟨.hookOf (.src n), some "allocHook",
        [.call (.src n), .int64 8, getDummyID, GlobalNullStr, GlobalNullStr], none⟩],
    .br []⟩]⟩

theorem hookedFunction_wellFormed (name : String) (n : ℕ) :
    Module.WellFormed ⟨[hookedFunction name n]⟩ := by
  have hcalls : ((hookedFunction name n).calls.map CallSite.id).Nodup := by
    simp [hookedFunction, Function.calls, BasicBlock.calls, Instruction.call?, Terminator.call?]
  refine ⟨fun F hF => ?_, by simpa [Module.calls] using hcalls⟩
  rw [List.mem_singleton.1 hF]
  refine ⟨by simp [hookedFunction, Function.ids], fun BB hBB => ?_, hcalls⟩
  rw [List.mem_singleton.1 hBB]
  exact List.nil_subset _

/-- What there is to read when every file holds a text. -/
def profileOf (text : String) : Environment :=
  ⟨⟨fun _ => false, fun _ => [], fun _ => some text.toList⟩, fun _ => none, fun _ => 0⟩

/-- A profile with the first site of `f`. -/
def siteText : String :=
  "[\x7b\"id\":0,\"pkey\":1,\"bbName\":\"entry\",\"funcName\":\"f\"\x7d]"

/-- Two modules with hooks, the second of which cannot replace the listed call of the first. -/
theorem carriesNothing_run_hooked : ∃ p : Compiler,
    List.Forall₂ (fun M m => (ProvsanPost.run ⟨"p.json", false⟩ (profileOf siteText) (fun _ _ => 0)
      Compiler.fresh M).map Compiler.processed = some [m])
        [⟨[hookedFunction "f" 0]⟩, ⟨[hookedFunction "g" 1]⟩] p.processed := by
  have hrun : ∀ p ∈ ProvsanPost.run ⟨"p.json", false⟩ (profileOf siteText) (fun _ _ => 0)
      Compiler.fresh ⟨[hookedFunction "f" 0]⟩, p.Loads ⟨[hookedFunction "g" 1]⟩ ∧
        CarriesNothing ⟨"p.json", false⟩ p ⟨[hookedFunction "g" 1]⟩ ∧
          (ProvsanPost.run ⟨"p.json", false⟩ (profileOf siteText) (fun _ _ => 0) p
            ⟨[hookedFunction "g" 1]⟩).isSome := by decide
  obtain ⟨p, hp⟩ : ∃ p, ProvsanPost.run ⟨"p.json", false⟩ (profileOf siteText) (fun _ _ => 0)
      Compiler.fresh ⟨[hookedFunction "f" 0]⟩ = some p := Option.isSome_iff_exists.1 (by decide)
  obtain ⟨hload, hcarry, hsome⟩ := hrun p hp
  obtain ⟨p', hp'⟩ := Option.isSome_iff_exists.1 hsome
  have hf := hookedFunction_wellFormed "f" 0
  have hg := hookedFunction_wellFormed "g" 1
  exact ⟨p', (carriesNothing_run ⟨"p.json", false⟩ (profileOf siteText) (fun _ _ => 0) _ p'
    ((Run.nil.snoc ⟨carriesNothing_fresh, hf, loads_fresh, hp⟩).snoc
      ⟨hcarry, hg, hload, hp'⟩)).1⟩

/-- A module that declares the replacement of the allocation function. -/
def declaringModule : Module := ⟨[⟨"__rust_untrusted_alloc", .external, []⟩]⟩

/-- With hooks removed, the second module with a hook is not what a fresh process makes of it: the
hook of the first one is erased again.  With a profile, the listed call of the first module is
patched by a second one that has the replacement, which the first one had not. -/
theorem not_stepsAgree :
    ¬ StepsAgree ⟨"", true⟩ (profileOf "[]") (fun _ _ => 0) ∧
      ¬ StepsAgree ⟨"p.json", false⟩ (profileOf siteText) fun _ _ => 0 := by
  constructor
  · intro h
    have hfails : ∀ p ∈ ProvsanPost.run ⟨"", true⟩ (profileOf "[]") (fun _ _ => 0) Compiler.fresh
        ⟨[hookedFunction "f" 0]⟩, p.Loads ⟨[hookedFunction "g" 1]⟩ ∧
          ¬ AsFresh ⟨"", true⟩ (profileOf "[]") (fun _ _ => 0) p ⟨[hookedFunction "g" 1]⟩ := by
      decide
    obtain ⟨p, hp⟩ : ∃ p, ProvsanPost.run ⟨"", true⟩ (profileOf "[]") (fun _ _ => 0) Compiler.fresh
        ⟨[hookedFunction "f" 0]⟩ = some p := Option.isSome_iff_exists.1 (by decide)
    obtain ⟨hload, hno⟩ := hfails p hp
    exact hno (h _ p (Run.nil.snoc ⟨hookedFunction_wellFormed "f" 0, loads_fresh, hp⟩) _
      (hookedFunction_wellFormed "g" 1) hload)
  · intro h
    have hfails : ∀ p ∈ ProvsanPost.run ⟨"p.json", false⟩ (profileOf siteText) (fun _ _ => 0)
        Compiler.fresh ⟨[hookedFunction "f" 0]⟩, p.Loads declaringModule ∧
          ¬ AsFresh ⟨"p.json", false⟩ (profileOf siteText) (fun _ _ => 0) p declaringModule := by
      decide
    obtain ⟨p, hp⟩ : ∃ p, ProvsanPost.run ⟨"p.json", false⟩ (profileOf siteText) (fun _ _ => 0)
        Compiler.fresh ⟨[hookedFunction "f" 0]⟩ = some p := Option.isSome_iff_exists.1 (by decide)
    obtain ⟨hload, hno⟩ := hfails p hp
    have hwf : declaringModule.WellFormed := by
      refine ⟨fun F hF => ?_, by decide⟩
      rw [List.mem_singleton.1 hF]
      exact ⟨by decide, by decide, by decide⟩
    exact hno (h _ p (Run.nil.snoc ⟨hookedFunction_wellFormed "f" 0, loads_fresh, hp⟩) _ hwf hload)

/-! ### The total for the runtime -/

/-- **What the total is for**: it is the number of the hooks that were given ids, so that the
runtime has a counter for every id. -/
def Counted (total : ℕ) (assigned : List (InstId × ℕ)) : Prop :=
  total = assigned.length ∧
    ∀ e ∈ assigned, e.2 < (AllocSiteHandler.init total).allocSiteCount

instance (total : ℕ) (assigned : List (InstId × ℕ)) : Decidable (Counted total assigned) :=
  inferInstanceAs (Decidable (_ ∧ ∀ e ∈ assigned, _))

/-- A total of zero counts no ids. -/
theorem counted_zero {assigned : List (InstId × ℕ)} : Counted 0 assigned ↔ assigned = [] := by
  constructor
  · exact fun h => List.length_eq_zero_iff.1 h.1.symm
  · rintro rfl
    exact ⟨rfl, fun e he => absurd he (by simp)⟩

/-- The module has no hook that takes an id. -/
def Module.NoNumbered (M : Module) : Prop :=
  ∀ F ∈ M.functions, ∀ CS ∈ F.visited, CS.isNumbered = false

/-- Ids are given to the hooks of the module that take one. -/
theorem assignedIDs_eq_nil {M : Module} :
    M.assignedIDs = [] ↔ M.NoNumbered := by
  have hfun : ∀ F : Function, F.assignedIDs = [] ↔ ∀ CS ∈ F.visited, CS.isNumbered = false := by
    intro F
    simp [Function.assignedIDs, Function.numbered, List.filter_eq_nil_iff]
  rw [Module.assignedIDs, List.flatMap_eq_nil_iff]
  constructor
  · intro h F hF
    cases hdecl : F.isDeclaration with
    | true =>
        intro CS hCS
        rw [Function.visited, Function.visitedBlocks, RPOT_of_isDeclaration hdecl] at hCS
        exact absurd hCS (by simp)
    | false => exact (hfun F).1 (h F (Module.mem_worked.2 ⟨hF, hdecl⟩))
  · exact fun h F hF => (hfun F).2 (h F (Module.mem_worked.1 hF).1)

/-- **The total counts the ids only when there are none**: its generator is never used, whatever
runs there have been before. -/
theorem counted_iff (P : ProvsanPost) (env : Environment) (localSlot : Function → BlockId → ℤ)
    (Ms : List Module) (p : Compiler) (M : Module) (p' : Compiler)
    (hrun : Run (PostStep P env localSlot) Compiler.fresh Ms p)
    (hstep : PostStep P env localSlot p M p') :
    ∃ M' st m, assignLocalIDs P env localSlot M ⟨p.hookList, p.patchList, 0, [], p.errs⟩ =
        some (M', st) ∧ p'.processed.getLast? = some m ∧
      (Counted m.AllocSiteTotal st.assigned ↔ M.NoNumbered) := by
  obtain ⟨hM, -, hp'⟩ := hstep
  obtain ⟨⟨M', st⟩, hassign, h⟩ := Option.bind_eq_some_iff.1 hp'
  obtain ⟨mem, -, h⟩ := Option.bind_eq_some_iff.1 h
  obtain ⟨mem', -, h⟩ := Option.bind_eq_some_iff.1 h
  obtain ⟨fault_map, -, -, hr⟩ := (assignLocalIDs_eq_some hM.functions).1 hassign
  have hst : st.assigned = M.assignedIDs := by
    rw [(Prod.mk.inj hr).2, assigned_visit, List.nil_append]
  refine ⟨M', st, ⟨mem'.current, 0⟩, hassign, ?_, ?_⟩
  · rw [← Option.some_inj.1 h, IDG_of_run hrun]
    exact List.getLast?_concat
  · rw [counted_zero, hst, assignedIDs_eq_nil]

/-- The total of a module with a hook is zero. -/
theorem not_counted : ∃ (M' : Module) (st : PassState) (p' : Compiler) (m : Processed),
    assignLocalIDs ⟨"", false⟩ (profileOf "[]") (fun _ _ => 0) ⟨[hookedFunction "f" 0]⟩
      ⟨[], [], 0, [], []⟩ = some (M', st) ∧
    ProvsanPost.run ⟨"", false⟩ (profileOf "[]") (fun _ _ => 0) Compiler.fresh
      ⟨[hookedFunction "f" 0]⟩ = some p' ∧
        p'.processed.getLast? = some m ∧ ¬ Counted m.AllocSiteTotal st.assigned := by
  have hassign : ∀ r ∈ assignLocalIDs ⟨"", false⟩ (profileOf "[]") (fun _ _ => 0)
      ⟨[hookedFunction "f" 0]⟩ ⟨[], [], 0, [], []⟩, r.2.assigned = [(.hookOf (.src 0), 0)] := by
    decide
  have hrun : ∀ p' ∈ ProvsanPost.run ⟨"", false⟩ (profileOf "[]") (fun _ _ => 0) Compiler.fresh
      ⟨[hookedFunction "f" 0]⟩, ∃ m ∈ p'.processed.getLast?, m.AllocSiteTotal = 0 := by decide
  obtain ⟨⟨M', st⟩, hr⟩ : ∃ r, assignLocalIDs ⟨"", false⟩ (profileOf "[]") (fun _ _ => 0)
      ⟨[hookedFunction "f" 0]⟩ ⟨[], [], 0, [], []⟩ = some r :=
    Option.isSome_iff_exists.1 (by decide)
  obtain ⟨p', hp'⟩ : ∃ p', ProvsanPost.run ⟨"", false⟩ (profileOf "[]") (fun _ _ => 0)
      Compiler.fresh ⟨[hookedFunction "f" 0]⟩ = some p' := Option.isSome_iff_exists.1 (by decide)
  obtain ⟨m, hm, htotal⟩ := hrun p' hp'
  refine ⟨M', st, p', m, hr, hp', hm, ?_⟩
  rw [htotal, hassign _ hr]
  decide

theorem counted_iff_hooked : ∃ (p' : Compiler) (M' : Module) (st : PassState) (m : Processed),
    assignLocalIDs ⟨"", false⟩ (profileOf "[]") (fun _ _ => 0) ⟨[hookedFunction "f" 0]⟩
      ⟨[], [], 0, [], []⟩ = some (M', st) ∧ p'.processed.getLast? = some m ∧
        (Counted m.AllocSiteTotal st.assigned ↔ Module.NoNumbered ⟨[hookedFunction "f" 0]⟩) := by
  obtain ⟨p', hp'⟩ : ∃ p', ProvsanPost.run ⟨"", false⟩ (profileOf "[]") (fun _ _ => 0)
      Compiler.fresh ⟨[hookedFunction "f" 0]⟩ = some p' := Option.isSome_iff_exists.1 (by decide)
  exact ⟨p', counted_iff ⟨"", false⟩ (profileOf "[]") (fun _ _ => 0) [] Compiler.fresh _ p' .nil
    ⟨hookedFunction_wellFormed "f" 0, loads_fresh, hp'⟩⟩

end Provsan
