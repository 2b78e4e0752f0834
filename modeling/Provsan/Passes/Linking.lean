/-
**Sites of a program.**

The runtime tells sites apart by the name of the function, the name of the block and the id, and the
reports by the first and the last of these.  The ids are those of a function, and the names are the
bare ones of the module it is compiled in.  So in a program that is linked from several modules two
hooks are confused when their functions have the same name, which functions with internal linkage
may have; and only then.

Main definitions:

* `Provsan.HookSite`, `Provsan.CallSite.hookSite?` — what a hook tells the runtime of its place;
* `Provsan.Built`, `Provsan.Linked` — modules after both passes, and programs of them;
* `Provsan.HookAt`, `Provsan.SitesDistinct` — the hooks of a program, and that no two of them are
  confused.

Main results:

* `Provsan.sited_of_processed` — the hooks of a module after both passes, and their sites;
* `Provsan.exists_hookSite_of_built` — **the sites of a function**;
* `Provsan.internal_of_hookSite` — **every hook has a site, and hooks are only confused across
  functions of one name**.
-/

import Provsan.Passes.LocalIDs
import Provsan.Passes.Removal

set_option relaxedAutoImplicit false
set_option autoImplicit false

namespace Provsan

/-! ### Sites -/

/-- What a hook tells the runtime of its place. -/
structure HookSite where
  funcName : Value
  bbName : Value
  localID : Value
  deriving DecidableEq

/-- The site of a hook: its id, and the two arguments after it. -/
def CallSite.hookSite? (CS : CallSite) : Option HookSite := do
  let index ← hookIndex? CS
  let localID ← CS.args[index.toNat]?
  let bbName ← CS.args[index.toNat + 1]?
  let funcName ← CS.args[index.toNat + 2]?
  some ⟨funcName, bbName, localID⟩

section

variable {P : ProvsanPost} {fault_map : FaultMap} {localSlot : Function → BlockId → ℤ}
  {G : Function}

/-- The arguments of a hook that is kept. -/
theorem setHookArgs_names (hkeep : P.RemoveHooks = false) {bbName : String} {id index : ℕ}
    {CS CS' : CallSite} (h : setHookArgs P G bbName id index CS = some CS') :
    CS'.args[index]? = some (.int64 id) ∧ CS'.args[index + 1]? = some (.str bbName) ∧
      CS'.args[index + 2]? = some (.str G.name) := by
  unfold setHookArgs at h
  obtain ⟨CS₁, h₁, h⟩ := Option.bind_eq_some_iff.1 h
  obtain ⟨hlen, rfl⟩ := setArgOperand_eq_some.1 h₁
  rw [if_neg (by simp [hkeep])] at h
  obtain ⟨CS₂, h₂, h₃⟩ := Option.bind_eq_some_iff.1 h
  obtain ⟨hlen₂, rfl⟩ := setArgOperand_eq_some.1 h₂
  obtain ⟨hlen₃, rfl⟩ := setArgOperand_eq_some.1 h₃
  simp only [List.length_set] at hlen₂ hlen₃
  exact ⟨by simp [hlen], by simp [hlen₂], by simp [hlen₃]⟩

/-- **The site of a hook that has been visited.** -/
theorem hookSite?_numberCall (hkeep : P.RemoveHooks = false) {bbName : String} {CS : CallSite}
    (hvisit : CanVisit P fault_map G bbName CS) (hnum : CS.isNumbered = true) :
    (numberCall P G bbName CS).hookSite? =
      some ⟨.str G.name, .str bbName, .int64 (G.localID CS.id)⟩ := by
  obtain ⟨CS', hset⟩ := Option.isSome_iff_exists.1 (hvisit.args hnum)
  obtain ⟨index, hindex, -⟩ := isNumbered_iff.1 hnum
  obtain ⟨-, hcallee, -⟩ := setHookArgs_eq_some hset
  have hargs := setHookArgs_names hkeep hset
  rw [hindex, Option.getD_some, Int.toNat_natCast] at hargs
  rw [numberCall, if_pos hnum, hset, Option.getD_some, CallSite.hookSite?,
    hookIndex?_congr hcallee, hindex]
  simp [hargs.1, hargs.2.1, hargs.2.2]

/-- A call of a function, and what becomes of it: a hook still is one and refers to the same call,
and has a site. -/
structure Sited (localSlot : Function → BlockId → ℤ) (G : Function) (CS CS' : CallSite) : Prop where
  id : CS'.id = CS.id
  isNumbered_eq : CS'.isNumbered = CS.isNumbered
  refers : CS'.args[0]? = CS.args[0]?
  site : CS.isNumbered = true → ∃ BB ∈ G.blocks, CS'.hookSite? =
    some ⟨.str G.name, .str (blockName G localSlot BB), .int64 (G.localID CS.id)⟩

/-- The visit leaves the first argument of a call alone. -/
theorem args_numberCall (bbName : String) (CS : CallSite) :
    (numberCall P G bbName CS).args[0]? = CS.args[0]? := by
  unfold numberCall
  split_ifs with hnum
  · obtain ⟨index, hindex, hpos⟩ := isNumbered_iff.1 hnum
    rw [hindex, Option.getD_some, Int.toNat_natCast]
    cases hset : setHookArgs P G bbName (G.localID CS.id) index CS with
    | none => rfl
    | some CS' => exact (setHookArgs_eq_some hset).2.2.2.2 0 hpos
  · rfl

/-- **The sites of a function after the visit.** -/
theorem sited_numberFunction (hG : G.WellFormed) (hall : G.AllVisited)
    (hkeep : P.RemoveHooks = false) (hvisit : G.CanVisit P fault_map localSlot) :
    List.Forall₂ (Sited localSlot G) G.calls (numberFunction P localSlot G G.RPOT).calls := by
  refine forall₂_numberFunction hG hall (fun BB hBB CS hCS => ?_) fun CS hno => ?_
  · exact ⟨id_numberCall CS, isNumbered_congr (calledFunction_numberCall CS), args_numberCall _ CS,
      fun hnum => ⟨BB, Function.mem_of_mem_visitedBlocks hBB,
        hookSite?_numberCall hkeep (hvisit BB hBB CS hCS) hnum⟩⟩
  · exact ⟨rfl, rfl, rfl, fun hnum => absurd hnum (by simp [hno])⟩

/-- Hooks with the same id are the same. -/
theorem eq_of_localID_eq (hall : G.AllVisited) {CS CS' : CallSite} (hCS : CS ∈ G.calls)
    (hnum : CS.isNumbered = true) (h : G.localID CS.id = G.localID CS'.id) : CS.id = CS'.id := by
  have hmem : CS.id ∈ G.numbered :=
    List.mem_map_of_mem (List.mem_filter.2 ⟨hall CS hCS hnum, hnum⟩)
  exact (List.idxOf_inj hmem).1 h

end

/-! ### Both passes -/

/-- A hook that takes an id is a hook. -/
theorem isHook_of_isNumbered {CS : CallSite} (h : CS.isNumbered = true) : CS.isHook = true := by
  obtain ⟨index, hindex, -⟩ := isNumbered_iff.1 h
  rw [← isSome_hookIndex?, hindex]
  rfl

/-- Patches neither make nor lose hooks. -/
theorem eq_of_isNumbered_patchCall {M : Module} {L : List InstId} {CS : CallSite}
    (h : (patchCall M L CS).isNumbered = true) : patchCall M L CS = CS := by
  refine patchCall_of_isHook (Bool.of_not_eq_false fun hno => ?_)
  have hhook := isHook_of_isNumbered h
  rw [isHook_patchCall hno] at hhook
  exact absurd hhook (by simp)

/-- A patch leaves a hook as it is, and makes none of another call. -/
theorem Sited.patchCall {localSlot : Function → BlockId → ℤ} {G : Function} {CS CS' : CallSite}
    (h : Sited localSlot G CS CS') (M : Module) (L : List InstId) :
    Sited localSlot G CS (patchCall M L CS') := by
  have hnum : (Provsan.patchCall M L CS').isNumbered = CS'.isNumbered := by
    rw [Bool.eq_iff_iff]
    constructor
    · intro hpatched
      rwa [eq_of_isNumbered_patchCall hpatched] at hpatched
    · intro hnum
      rwa [patchCall_of_isHook (isHook_of_isNumbered hnum)]
  refine ⟨(id_patchCall ..).trans h.id, hnum.trans h.isNumbered_eq, ?_, fun hCS => ?_⟩
  · rw [← h.refers]
    unfold Provsan.patchCall
    split_ifs <;> rfl
  · rw [patchCall_of_isHook (isHook_of_isNumbered (h.isNumbered_eq.trans hCS))]
    exact h.site hCS

/-- **A module after both passes**, each run in a process of its own. -/
def Built (M' : Module) : Prop :=
  ∃ (O : PreOptions) (names : InstId → String) (P : ProvsanPost) (env : Environment)
    (localSlot : Function → BlockId → ℤ) (M M₁ : Module) (p : Compiler) (total : ℕ),
      M.Source ∧ M.NoHookCalls ∧ (O.targets M).NoHooks ∧
        DynUntrustedAllocPre.run O names M = some M₁ ∧
        ProvsanPost.run P env localSlot Compiler.fresh M₁ = some p ∧ p.processed = [⟨M', total⟩]

/-- **What both passes make of a module**: without hooks, or the numbered one with its patches. -/
theorem post_hookModule_cases {T : Targets} {names : InstId → String} {M M' : Module}
    {P : ProvsanPost} {localSlot : Function → BlockId → ℤ} {fault_map : FaultMap} (hM : M.Source)
    (hfree : M.NoHookCalls)
    (h : (hookModule T names M).post P localSlot fault_map = some M') :
    (∀ CS ∈ M'.calls, CS.isHook = false) ∨
      (P.RemoveHooks = false ∧
        M' = ((hookModule T names M).number P localSlot).map (Function.mapCalls
          (patchCall M ((hookModule T names M).patchCalls P fault_map)))) := by
  cases hremove : P.RemoveHooks with
  | true =>
      rw [post_hookModule names hM hfree hremove localSlot fault_map rfl] at h
      rw [← Option.some_inj.1 h]
      refine Or.inl fun CS hCS => ?_
      obtain ⟨G', hG', hCS⟩ := List.mem_flatMap.1 hCS
      obtain ⟨G, hG, rfl⟩ := List.mem_map.1 (List.mem_of_mem_filter hG')
      exact isHook_of_mem_calls_stripFunction (fun CS h => isHook_patchCall h)
        (fun C hC => isHook_term_hookModule hfree hG hC) CS hCS
  | false =>
      rw [post_hookModule_of_keep names hM hfree hremove localSlot fault_map] at h
      exact Or.inr ⟨rfl, (Option.some_inj.1 h).symm⟩

/-- **The hooks of a module after both passes** are gone, or those of the module after the first
one, each with its site. -/
theorem sited_of_processed {T : Targets} {names : InstId → String} {M M' : Module} {P : ProvsanPost}
    {env : Environment} {localSlot : Function → BlockId → ℤ} {p : Compiler} {total : ℕ}
    (hM : M.Source) (hfree : M.NoHookCalls)
    (hp : ProvsanPost.run P env localSlot Compiler.fresh (hookModule T names M) = some p)
    (hprocessed : p.processed = [⟨M', total⟩]) : total = 0 ∧
      ((∀ CS ∈ M'.calls, CS.isNumbered = false) ∨
        List.Forall₂ (fun G F => F.name = G.name ∧ List.Forall₂ (Sited localSlot G) G.calls F.calls)
          (hookModule T names M).functions M'.functions) := by
  have hwf : (hookModule T names M).WellFormed := wellFormed_hookModule hM
  obtain ⟨fault_map, -, hvisit, M₂, hpost, heq⟩ := (run_eq_some hwf loads_fresh
    carriesNothing_fresh).1 (Option.map_eq_some_iff.2 ⟨p, hp, hprocessed⟩)
  obtain ⟨rfl, htotal⟩ := Processed.mk.inj (List.singleton_inj.1 heq)
  refine ⟨htotal, ?_⟩
  rcases post_hookModule_cases hM hfree hpost with hno | ⟨hkeep, rfl⟩
  · exact Or.inl fun CS hCS => isNumbered_of_not_isHook (hno CS hCS)
  · rw [Module.number, Module.map_map, Module.map, List.forall₂_map_right_iff, List.forall₂_same]
    refine Or.inr fun G hG => ⟨rfl, ?_⟩
    rw [Function.calls_mapCalls, List.forall₂_map_right_iff]
    exact (sited_numberFunction (hwf.functions G hG) (allVisited_hookModule hM hfree G hG) hkeep
      (hvisit G hG)).imp fun CS CS' hsited => hsited.patchCall M _

/-- **The sites of a function** of a module after both passes: its hooks tell its name, and
different ones tell different ids. -/
theorem exists_hookSite_of_built {M' : Module} (hM' : Built M') {F : Function}
    (hF : F ∈ M'.functions) : ∃ localID : InstId → ℕ,
      (∀ CS ∈ F.calls, CS.isNumbered = true → ∃ bbName,
        CS.hookSite? = some ⟨.str F.name, .str bbName, .int64 (localID CS.id)⟩) ∧
      ∀ CS ∈ F.calls, CS.isNumbered = true → ∀ CS' ∈ F.calls,
        localID CS.id = localID CS'.id → CS.id = CS'.id := by
  obtain ⟨O, names, P, env, localSlot, M, M₁, p, total, hM, hfree, hT, hpre, hp, hprocessed⟩ := hM'
  obtain ⟨-, rfl⟩ := (run_pre hM hT).1 hpre
  have hno : (declareHooks M).NoHookCalls := hfree.declareHooks
  obtain ⟨-, hnone | hfunctions⟩ := sited_of_processed hM.declareHooks hno hp hprocessed
  · have hnum : ∀ CS ∈ F.calls, CS.isNumbered = false := fun CS hCS =>
      hnone CS (List.mem_flatMap_of_mem hF hCS)
    exact ⟨fun _ => 0, fun CS hCS h => absurd h (by simp [hnum CS hCS]),
      fun CS hCS h => absurd h (by simp [hnum CS hCS])⟩
  · obtain ⟨G, hG, hname, hcalls⟩ := exists_of_mem_right hfunctions hF
    refine ⟨G.localID, fun CS hCS hnum => ?_, fun CS hCS hnum CS' hCS' heq => ?_⟩
    · obtain ⟨CS₀, -, hsited⟩ := exists_of_mem_right hcalls hCS
      obtain ⟨BB, -, hBB⟩ := hsited.site (hsited.isNumbered_eq ▸ hnum)
      rw [hsited.id, hname]
      exact ⟨_, hBB⟩
    · obtain ⟨CS₀, hCS₀, hsited⟩ := exists_of_mem_right hcalls hCS
      have hall := allVisited_hookModule hM.declareHooks hno G hG
      rw [hsited.id] at heq ⊢
      exact eq_of_localID_eq hall hCS₀ (hsited.isNumbered_eq ▸ hnum) heq

/-! ### Programs -/

/-- **A program**: modules after both passes, in which names tell functions apart as the linker
wants it.  Functions of a module that have a name have different ones, and so have all functions
with external linkage that the program defines. -/
structure Linked (program : List Module) : Prop where
  built : ∀ M ∈ program, Built M
  symbols : ∀ M ∈ program, ∀ (a b : ℕ) (F G : Function), M.functions[a]? = some F →
    M.functions[b]? = some G → F.name = G.name → F.name ≠ "" → a = b
  external : ∀ (i j a b : ℕ) (M N : Module) (F G : Function), program[i]? = some M →
    program[j]? = some N → M.functions[a]? = some F → N.functions[b]? = some G →
      F.isDeclaration = false → G.isDeclaration = false → F.linkage = .external →
        G.linkage = .external → F.name = G.name → (i, a) = (j, b)

/-- A hook of an allocation or reallocation in the function `F`, which is the function `a` of the
module `i`. -/
def HookAt (program : List Module) (i a : ℕ) (F : Function) (CS : CallSite) : Prop :=
  ∃ M, program[i]? = some M ∧ M.functions[a]? = some F ∧ CS ∈ F.calls ∧ CS.isNumbered = true

/-- No two hooks of a program have the same site. -/
def SitesDistinct (program : List Module) : Prop :=
  ∀ (i j a b : ℕ) (F G : Function) (CS CS' : CallSite), HookAt program i a F CS →
    HookAt program j b G CS' → (i, a, CS.id) ≠ (j, b, CS'.id) → CS.hookSite? ≠ CS'.hookSite?

/-- **Every hook has a site, and hooks are only confused across functions of one name**, of which
one has internal linkage; these are in different modules, unless they have no name. -/
theorem internal_of_hookSite (program : List Module) (hprogram : Linked program) (i a : ℕ)
    (F : Function) (CS : CallSite) (hCS : HookAt program i a F CS) :
    ∃ s : HookSite, CS.hookSite? = some s ∧ ∀ (j b : ℕ) (G : Function) (CS' : CallSite),
      HookAt program j b G CS' → (i, a, CS.id) ≠ (j, b, CS'.id) →
        ∃ s' : HookSite, CS'.hookSite? = some s' ∧
          (s.funcName = s'.funcName → s.localID = s'.localID →
            (i, a) ≠ (j, b) ∧ F.name = G.name ∧ (F.linkage = .internal ∨ G.linkage = .internal) ∧
              (i ≠ j ∨ F.name = "")) := by
  obtain ⟨M, hM, hF, hcall, hnum⟩ := hCS
  obtain ⟨localID, hsite, hinj⟩ := exists_hookSite_of_built
    (hprogram.built M (List.mem_of_getElem? hM)) (List.mem_of_getElem? hF)
  obtain ⟨bbName, hs⟩ := hsite CS hcall hnum
  refine ⟨_, hs, ?_⟩
  rintro j b G CS' ⟨N, hN, hG, hcall', hnum'⟩ hne
  obtain ⟨localID', hsite', -⟩ := exists_hookSite_of_built
    (hprogram.built N (List.mem_of_getElem? hN)) (List.mem_of_getElem? hG)
  obtain ⟨bbName', hs'⟩ := hsite' CS' hcall' hnum'
  refine ⟨_, hs', fun hfunc hid => ?_⟩
  have hname : F.name = G.name := Value.str.inj hfunc
  have hfun : (i, a) ≠ (j, b) := by
    intro heq
    obtain ⟨rfl, rfl⟩ := Prod.mk.inj heq
    obtain rfl := Option.some_inj.1 (hM.symm.trans hN)
    obtain rfl := Option.some_inj.1 (hF.symm.trans hG)
    -- both hooks are in one function, where the ids tell them apart
    obtain ⟨bbName'', hs''⟩ := hsite CS' hcall' hnum'
    have hlocal : localID CS.id = localID CS'.id := by
      have hsame := congrArg (Option.map HookSite.localID) (hs'.symm.trans hs'')
      simp only [Option.map_some, Option.some.injEq, Value.int64.injEq] at hsame hid
      omega
    exact hne (by rw [hinj CS hcall hnum CS' hcall' hlocal])
  refine ⟨hfun, hname, ?_, ?_⟩
  · have hdef : ∀ {F : Function} {CS : CallSite}, CS ∈ F.calls → F.isDeclaration = false := by
      intro F CS hCS
      cases hl : F.blocks with
      | nil =>
          rw [Function.calls, hl] at hCS
          exact absurd hCS (by simp)
      | cons BB l => simp [Function.isDeclaration, hl]
    cases hlF : F.linkage with
    | internal => exact Or.inl rfl
    | external =>
        cases hlG : G.linkage with
        | internal => exact Or.inr rfl
        | external => exact absurd (hprogram.external i j a b M N F G hM hN hF hG (hdef hcall)
            (hdef hcall') hlF hlG hname) hfun
  · by_contra hcon
    rw [not_or, not_not] at hcon
    obtain ⟨rfl, hnamed⟩ := hcon
    obtain rfl := Option.some_inj.1 (hM.symm.trans hN)
    exact hfun (by rw [hprogram.symbols M (List.mem_of_getElem? hM) a b F G hF hG hname hnamed])

/-- A module with a function that allocates, and can only be called inside the module. -/
def staticModule : Module :=
  ⟨[⟨"f", .internal, [⟨.src 0, "entry", [],
      [.call ⟨.src 0, some "__rust_alloc", [.int64 8, .int64 8], some (.loc "lib.rs" 3 5)⟩,
        .call ⟨.src 1, some "__rust_alloc", [.int64 8, .int64 8], some (.loc "lib.rs" 4 5)⟩],
      .br []⟩]⟩, ⟨"__rust_alloc", .external, []⟩]⟩

theorem staticModule_source : staticModule.Source := by
  refine ⟨fun F hF => ?_, by decide⟩
  fin_cases hF
  · refine ⟨⟨by decide, by decide, ?_, ?_, by decide⟩, ?_, ?_, by decide⟩
    · intro BB h
      obtain rfl := Option.some_inj.1 h
      decide
    · intro BB hBB cs normal unwind h
      fin_cases hBB
      exact absurd h (by simp)
    · intro BB hBB
      fin_cases hBB
      exact ⟨_, rfl⟩
    · intro cs hcs
      fin_cases hcs <;> exact ⟨_, rfl⟩
  · exact source_declaration _ _

theorem staticModule_hookFree : staticModule.HookFree := ⟨by decide, by decide⟩

/-- The module after both passes. -/
def staticModule' : Module :=
  ((DynUntrustedAllocPre.run sampleOptions (fun _ => "") staticModule).bind fun M₁ =>
    (ProvsanPost.run ⟨"", false⟩ (profileOf "[]") (fun _ _ => 0) Compiler.fresh M₁).bind fun p =>
      p.processed.head?.map Processed.M).getD ⟨[]⟩

/-- The hooks of the function in the module after both passes. -/
def staticHook (n : ℕ) : CallSite :=
  ⟨.hookOf (.src n), some "allocHook",
    [.call (.src n), .int64 8, .int64 n, .str "entry", .str "f"], none⟩

theorem built_staticModule' : Built staticModule' := by
  obtain ⟨M₁, hM₁⟩ := Option.isSome_iff_exists.1 (show (DynUntrustedAllocPre.run sampleOptions
    (fun _ => "") staticModule).isSome from by decide)
  have hrun : ∀ M₁ ∈ DynUntrustedAllocPre.run sampleOptions (fun _ => "") staticModule,
      ∃ p ∈ ProvsanPost.run ⟨"", false⟩ (profileOf "[]") (fun _ _ => 0) Compiler.fresh M₁,
        p.processed = [⟨staticModule', 0⟩] := by decide
  obtain ⟨p, hp, hprocessed⟩ := hrun M₁ hM₁
  exact ⟨sampleOptions, _, _, _, _, staticModule, M₁, p, 0, staticModule_source,
    staticModule_hookFree.calls, noHooks_targets _ staticModule_hookFree, hM₁, hp, hprocessed⟩

theorem linked_staticModules : Linked [staticModule', staticModule'] := by
  have hmem : ∀ {i : ℕ} {M : Module}, [staticModule', staticModule'][i]? = some M →
      M = staticModule' := fun h => by simpa using List.mem_of_getElem? h
  have hnames : (staticModule'.functions.map Function.name).Nodup := by decide
  have hinternal : ∀ F ∈ staticModule'.functions, F.isDeclaration = false →
      F.linkage = .internal := by decide
  constructor
  · intro M hM
    obtain rfl : M = staticModule' := by simpa using hM
    exact built_staticModule'
  · intro M hM a b F G hF hG hname _
    obtain rfl : M = staticModule' := by simpa using hM
    have hlt : a < (staticModule'.functions.map Function.name).length := by
      simpa using (List.getElem?_eq_some_iff.1 hF).1
    refine (List.getElem?_inj hlt hnames).1 ?_
    rw [List.getElem?_map, List.getElem?_map, hF, hG, Option.map_some, Option.map_some, hname]
  · intro i j a b M N F G hM hN hF hG hdef _ hlinkage
    obtain rfl := hmem hM
    rw [hinternal F (List.mem_of_getElem? hF) hdef] at hlinkage
    exact absurd hlinkage (by decide)

/-- Where the hooks are. -/
theorem exists_hookAt_static : ∃ F : Function, ∀ n < 2,
    HookAt [staticModule', staticModule'] 0 0 F (staticHook n) ∧
      HookAt [staticModule', staticModule'] 1 0 F (staticHook n) := by
  have hhooks : ∃ F ∈ staticModule'.functions[0]?, ∀ n < 2,
      staticHook n ∈ F.calls ∧ (staticHook n).isNumbered = true := by decide
  obtain ⟨F, hF, hhooks⟩ := hhooks
  exact ⟨F, fun n hn =>
    ⟨⟨staticModule', rfl, hF, hhooks n hn⟩, ⟨staticModule', rfl, hF, hhooks n hn⟩⟩⟩

/-- Two hooks of one function have different ids. -/
theorem internal_of_hookSite_static : ∃ s s' : HookSite,
    (staticHook 0).hookSite? = some s ∧ (staticHook 1).hookSite? = some s' ∧
      (s.funcName = s'.funcName → s.localID ≠ s'.localID) := by
  obtain ⟨F, hF⟩ := exists_hookAt_static
  obtain ⟨s, hs, hother⟩ := internal_of_hookSite [staticModule', staticModule']
    linked_staticModules 0 0 F _ (hF 0 (by decide)).1
  obtain ⟨s', hs', h⟩ := hother 0 0 F _ (hF 1 (by decide)).1 (by decide)
  exact ⟨s, s', hs, hs', fun hfunc hid => (h hfunc hid).1 rfl⟩

/-- Two modules with functions of one name: their hooks have the same sites. -/
theorem not_sitesDistinct : Linked [staticModule', staticModule'] ∧
    ¬ SitesDistinct [staticModule', staticModule'] := by
  refine ⟨linked_staticModules, fun h => ?_⟩
  obtain ⟨F, hF⟩ := exists_hookAt_static
  exact h 0 1 0 0 F F _ _ (hF 0 (by decide)).1 (hF 0 (by decide)).2 (by decide) rfl

end Provsan
