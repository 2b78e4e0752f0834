/-
**Provenance from end to end.**

A module is instrumented and numbered, run, and compiled again with the profile that the run has
left.  The site of a faulting block goes through many hands on the way: the passes lay it down in
the arguments of a hook, the runtime finds it again for an address and puts it into a set, the set
is written as JSON and read back, and the second build numbers the hooks once more.  Here it is
shown that all of them mean the same site, so that the report is about the call of the allocator
that the block came from.

Main definitions:

* `Provsan.Module.PlainNames` — names that are not empty and need no escapes;
* `Provsan.FaultIn` — a fault of a run in a live block;
* `Provsan.Reports` — a list of calls that says what has faulted in a run.

Main results:

* `Provsan.exists_of_told` — the hook behind a site that the runtime was told;
* `Provsan.mem_patchCalls`, `Provsan.count_of_told` — the hooks whose sites are in the profile put
  their calls on the list;
* `Provsan.provenance` — **the report build lists the calls that the faulting blocks came from**.
-/

import Provsan.EndToEnd.Execution
import Provsan.EndToEnd.RoundTrip
import Provsan.Passes.Matching

set_option relaxedAutoImplicit false
set_option autoImplicit false

namespace Provsan

open Json

/-! ### Names -/

/-- A name that is not empty and needs no escapes. -/
def PlainName (name : String) : Prop := name ≠ "" ∧ Plain name.toList

instance (name : String) : Decidable (PlainName name) :=
  inferInstanceAs (Decidable (_ ∧ Plain name.toList))

def Module.PlainNames (M : Module) : Prop :=
  ∀ F ∈ M.functions, PlainName F.name ∧ ∀ BB ∈ F.blocks, PlainName BB.name

instance (M : Module) : Decidable M.PlainNames :=
  inferInstanceAs (Decidable (∀ F ∈ M.functions, _ ∧ ∀ BB ∈ F.blocks, _))

/-! ### What is to be reported -/

/-- **A fault of a run in a live block**: the run `es` to `E` goes through `E₁`, where an address of
the block faults. -/
inductive FaultIn (M : Module) (allocSiteTotal : ℕ) (es : List ProgramEvent) (E E₁ : Execution)
    (b : Block) : Prop
  | mk {es₁ es₂ : List ProgramEvent} {ptr : RustPtr} {pkey : BitVec 32} {E₂ : Execution}
      (heq : es = es₁ ++ .fault ptr pkey :: es₂)
      (hbefore : Run (ExecutionStep M) (Execution.start allocSiteTotal) es₁ E₁)
      (hfault : ExecutionStep M E₁ (.fault ptr pkey) E₂)
      (hafter : Run (ExecutionStep M) E₂ es₂ E) (hb : b ∈ E₁.live) (hptr : ptr ∈ b.addrs) :
      FaultIn M allocSiteTotal es E E₁ b

/-- The hook belongs to a call of an allocation or reallocation. -/
structure HookOf (T : Targets) (hook CS : CallSite) : Prop where
  id : hook.id = .hookOf CS.id
  refers : hook.args[0]? = some (.call CS.id)
  kind : ∃ kind, T.kind? CS = some kind ∧ kind ≠ .dealloc

/-- **A list of calls of `M` that says what has faulted** in the run `es` of `M'`, which is `M`
after both passes. -/
structure Reports (T : Targets) (M M' : Module) (allocSiteTotal : ℕ) (es : List ProgramEvent)
    (E : Execution) (patchList : List InstId) : Prop where
  /-- The call whose hook has created a block that faulted is on the list, once. -/
  faults : ∀ E₁ b, FaultIn M' allocSiteTotal es E E₁ b → ∃ hook ∈ M'.calls, ∃ CS ∈ M.calls,
    E₁.creator b.base = some hook ∧ HookOf T hook CS ∧ patchList.count CS.id = 1
  /-- A call on the list has a hook with a function name and an id of the profile. -/
  listed : ∀ i ∈ patchList, ∃ F ∈ M'.functions, ∃ hook ∈ F.calls, hook.args[0]? = some (.call i) ∧
    ∃ s ∈ E.handler.faultSet.elems, s.funcName = F.name ∧
      hook.hookID? = some (.int64 s.localID.toInt)

/-! ### The first build -/

theorem hookID?_of_hookSite? {CS : CallSite} {s : HookSite} (h : CS.hookSite? = some s) :
    CS.hookID? = some s.localID := by
  unfold CallSite.hookSite? at h
  simp only [Option.bind_eq_bind, Option.bind_eq_some_iff] at h
  obtain ⟨index, hindex, localID, hid, bbName, -, funcName, -, hs⟩ := h
  rw [CallSite.hookID?, hindex, Option.bind_some, hid, ← Option.some_inj.1 hs]

/-- The site that a hook of an instrumented function tells the runtime. -/
structure ToldBy (localSlot : Function → BlockId → ℤ) (G : Function) (CS : CallSite)
    (site : SiteId) : Prop where
  funcName : site.funcName = G.name
  bbName : ∃ BB ∈ G.blocks, site.bbName = blockName G localSlot BB
  localID : site.localID.toInt = G.localID CS.id

section

variable {T : Targets} {names : InstId → String} {M M' : Module} {P : ProvsanPost}
  {env : Environment} {localSlot : Function → BlockId → ℤ} {p : Compiler} {total : ℕ}

/-- **The hook behind a site** that is told by a hook of the module after both passes. -/
theorem exists_of_told (hM : M.Source) (hfree : M.NoHookCalls)
    (hp : ProvsanPost.run P env localSlot Compiler.fresh (hookModule T names M) = some p)
    (hprocessed : p.processed = [⟨M', total⟩]) {hook : CallSite} (hhook : hook ∈ M'.calls)
    (hnum : hook.isNumbered = true) {site : SiteId} (hsite : hook.hookSite? = some site.hookSite) :
    ∃ G ∈ (hookModule T names M).functions, ∃ CS ∈ G.calls, hook.id = CS.id ∧
      hook.args[0]? = CS.args[0]? ∧ CS.isNumbered = true ∧ ToldBy localSlot G CS site := by
  obtain ⟨-, hnone | hfunctions⟩ := sited_of_processed hM hfree hp hprocessed
  · rw [hnone hook hhook] at hnum
    exact absurd hnum (by simp)
  · obtain ⟨F, hF, hhook⟩ := List.mem_flatMap.1 hhook
    obtain ⟨G, hG, -, hcalls⟩ := exists_of_mem_right hfunctions hF
    obtain ⟨CS, hCS, hsited⟩ := exists_of_mem_right hcalls hhook
    have hnumCS := hsited.isNumbered_eq ▸ hnum
    obtain ⟨BB, hBB, hlaid⟩ := hsited.site hnumCS
    rw [hsite] at hlaid
    obtain ⟨hfunc, hbb, hid⟩ := HookSite.mk.inj (Option.some_inj.1 hlaid)
    exact ⟨G, hG, CS, hCS, hsited.id, hsited.refers, hnumCS,
      ⟨Value.str.inj hfunc, ⟨BB, hBB, Value.str.inj hbb⟩, Value.int64.inj hid⟩⟩

theorem plain_of_tells (hM : M.Source) (hfree : M.NoHookCalls)
    (hp : ProvsanPost.run P env localSlot Compiler.fresh (hookModule T names M) = some p)
    (hprocessed : p.processed = [⟨M', total⟩]) (hnames : (hookModule T names M).PlainNames)
    {site : SiteId} (htold : M'.Tells site) : PlainName site.funcName ∧ PlainName site.bbName := by
  obtain ⟨-, hook, hhook, hnum, hsite⟩ := htold
  obtain ⟨G, hG, CS, -, -, -, -, htold⟩ := exists_of_told hM hfree hp hprocessed hhook hnum hsite
  obtain ⟨BB, hBB, hbb⟩ := htold.bbName
  have hname := (hnames G hG).2 BB hBB
  rw [blockName, if_neg hname.1] at hbb
  rw [htold.funcName, hbb]
  exact ⟨(hnames G hG).1, hname⟩

/-! ### The second build -/

/-- **A hook whose site is in the profile** puts its call on the list. -/
theorem mem_patchCalls (hM : M.Source) (hfree : M.NoHookCalls) (hpath : P.MPKProfilePath ≠ "")
    {fault_map : FaultMap} {G : Function} (hG : G ∈ (hookModule T names M).functions)
    {hook : CallSite} (hhook : hook ∈ G.calls) (hnum : hook.isNumbered = true)
    (hsite : (fault_map.site? G.name (G.localID hook.id)).isSome) :
    ∃ CS ∈ M.calls, HookOf T hook CS ∧ CS.id ∈ (hookModule T names M).patchCalls P fault_map := by
  obtain ⟨FS, hFS⟩ := Option.isSome_iff_exists.1 hsite
  have hvisited := allVisited_hookModule hM hfree G hG hook hhook hnum
  obtain ⟨F, hF, rfl⟩ := List.mem_map.1 hG
  obtain ⟨CS, hCS, hfor, hkind, hrefers, -⟩ := exists_of_isNumbered (hM.functions F hF)
    (fun CS hCS => hfree CS (List.mem_flatMap_of_mem hF hCS)) hhook hnum
  have hpatched : patched? P fault_map (rewriteFunction T names F F.RPOT) hook = some (FS, CS.id) :=
    patched?_eq_some.2 ⟨hnum, hpath, hrefers, hFS⟩
  refine ⟨CS, List.mem_flatMap_of_mem hF (Function.mem_calls_of_mem_visited hCS),
    ⟨(hookFor_eq_some hfor).1, hrefers, hkind⟩, ?_⟩
  refine List.mem_flatMap_of_mem
    (Module.mem_worked.2 ⟨hG, Function.isDeclaration_of_mem_visited hvisited⟩) ?_
  exact List.mem_filterMap.2 ⟨hook, hvisited, by rw [hpatched]; rfl⟩

/-- **A site that a hook of the first build tells, and that the profile has**, puts the call of the
hook on the list, once. -/
theorem count_of_told (hM : M.Source) (hfree : M.NoHookCalls)
    (hp : ProvsanPost.run P env localSlot Compiler.fresh (hookModule T names M) = some p)
    (hprocessed : p.processed = [⟨M', total⟩]) {hook : CallSite} (hhook : hook ∈ M'.calls)
    (hnum : hook.isNumbered = true) {site : SiteId} (hlaid : hook.hookSite? = some site.hookSite)
    {P' : ProvsanPost} (hpath : P'.MPKProfilePath ≠ "") {fault_map : FaultMap}
    (hfound : ∀ id : ℕ, site.localID.toInt = id → (fault_map.site? site.funcName id).isSome) :
    ∃ CS ∈ M.calls, HookOf T hook CS ∧
      ((hookModule T names M).patchCalls P' fault_map).count CS.id = 1 := by
  obtain ⟨G, hG, CS₁, hCS₁, hid, hrefers, hnum₁, htold⟩ :=
    exists_of_told hM hfree hp hprocessed hhook hnum hlaid
  obtain ⟨CS, hCS, hof, hmem⟩ := mem_patchCalls hM hfree hpath hG hCS₁ hnum₁
    (htold.funcName ▸ hfound _ htold.localID)
  exact ⟨CS, hCS, ⟨hid.trans hof.id, hrefers.trans hof.refers, hof.kind⟩,
    List.count_eq_one_of_mem (patchCalls_hookModule _ names P' hM hfree _).1 hmem⟩

end

/-- What the profile of a set has for a function name and an id. -/
theorem isSome_site?_profileSites {env : Environment} {MPKProfilePath : String}
    {S : UnorderedSet AllocSite}
    (hsites : profileSites env MPKProfilePath = S.elems.map AllocSite.faultingSite)
    (hid : ∀ s ∈ S.elems, 0 ≤ s.localID) (funcName : String) (id : ℕ) :
    (FaultMap.site? ((profileSites env MPKProfilePath).foldl addSite OrdMap.empty) funcName
      id).isSome ↔ ∃ s ∈ S.elems, s.funcName = funcName ∧ s.localID.toInt = id := by
  have hread : ∀ s ∈ S.elems, s.localID.toInt.toNat = id ↔ s.localID.toInt = id := fun s hs => by
    have hpos : 0 ≤ s.localID.toInt := by simpa using Int64.le_iff_toInt_le.1 (hid s hs)
    omega
  rw [site?_profileSites, List.find?_isSome, hsites]
  constructor
  · rintro ⟨FS, hFS, hmatch⟩
    obtain ⟨s, hs, rfl⟩ := List.mem_map.1 hFS
    obtain ⟨hfunc, hlocal⟩ := of_decide_eq_true hmatch
    exact ⟨s, hs, hfunc, (hread s hs).1 hlocal⟩
  · rintro ⟨s, hs, hfunc, hlocal⟩
    exact ⟨_, List.mem_map_of_mem hs, decide_eq_true ⟨hfunc, (hread s hs).2 hlocal⟩⟩

/-! ### The whole way -/

/-- The path leads to the file that the runtime writes for a set. -/
structure HoldsProfile (env : Environment) (MPKProfilePath : String) (S : UnorderedSet AllocSite) :
    Prop where
  path_ne : MPKProfilePath ≠ ""
  file : ∃ file, getFaultPaths env.fs MPKProfilePath = [file] ∧
    env.fs.content file = some (writeJSON S).toList

/-- **The report build lists the calls that the faulting blocks came from.**  `M₁` is the module
after the first pass, `M'` what the second one makes of it for the run, and the report build is the
second pass on `M₁` again, with the profile of the run. -/
theorem provenance (O : PreOptions) (names : InstId → String) (M M₁ : Module) (hM : M.Source)
    (hfree : M.NoHookCalls) (hT : (O.targets M).NoHooks)
    (hloc : ∀ CS ∈ M.calls, ((O.targets M).kind? CS).isSome → CS.debugLoc.isSome)
    (hpre : DynUntrustedAllocPre.run O names M = some M₁) (hnames : M₁.PlainNames)
    (P₀ : ProvsanPost) (env₀ : Environment) (localSlot₀ : Function → BlockId → ℤ) (p₀ : Compiler)
    (M' : Module) (total : ℕ) (hp₀ : ProvsanPost.run P₀ env₀ localSlot₀ Compiler.fresh M₁ = some p₀)
    (hprocessed : p₀.processed = [⟨M', total⟩]) (es : List ProgramEvent) (E : Execution)
    (hrun : Run (ExecutionStep M') (Execution.start total) es E) (P : ProvsanPost)
    (env : Environment) (localSlot : Function → BlockId → ℤ)
    (hprofile : HoldsProfile env P.MPKProfilePath E.handler.faultSet) :
    ∃ p, ProvsanPost.run P env localSlot Compiler.fresh M₁ = some p ∧
      Reports (O.targets M) M M' total es E p.patchList := by
  obtain ⟨-, rfl⟩ := (run_pre hM hT).1 hpre
  have hsource : (declareHooks M).Source := hM.declareHooks
  have hno : (declareHooks M).NoHookCalls := hfree.declareHooks
  -- the profile can be read, and has the sites of the run
  have htold : ∀ s ∈ E.handler.faultSet.elems, M'.Tells s.siteId := (Execution.sitesIn hrun).faults
  have hplain : ∀ s ∈ E.handler.faultSet.elems, PlainName s.funcName ∧ PlainName s.bbName :=
    fun s hs => plain_of_tells hsource hno hp₀ hprocessed hnames (htold s hs)
  obtain ⟨file, hfile, hcontent⟩ := hprofile.file
  obtain ⟨hobjects, hsites⟩ := profileSites_writeJSON hfile hcontent
    (fun s hs => ⟨(htold s hs).id_nonneg, (hplain s hs).2.1, (hplain s hs).1.1⟩)
    fun s hs => ⟨(hplain s hs).2.2, (hplain s hs).1.2⟩
  have hsite? := isSome_site?_profileSites hsites fun s hs => (htold s hs).id_nonneg
  obtain ⟨p, -, hp, hlist, -⟩ := exists_run_hookModule (O.targets M) names hsource hno
    (by rwa [calls_declareHooks]) ((getFaultingAllocMap_eq_some hprofile.path_ne).2 ⟨hobjects, rfl⟩)
    localSlot
  refine ⟨p, hp, ?_, ?_⟩
  · rintro E₁ b ⟨-, hbefore, hfault, hafter, hb, hptr⟩
    -- the site of the block is on record in the end
    obtain ⟨s, hs, hcontains⟩ := hfault.contains_of_fault (Execution.tracks hbefore) hb hptr
    obtain ⟨t, ht, hbeq⟩ := UnorderedSet.contains_iff.1 (Execution.contains_of_run hafter hcontains)
    have hsite : t.siteId = b.site := (AllocSite.beq_iff.1 hbeq).trans hs
    obtain ⟨hook, hhook, hcreator, hnum, hlaid⟩ := Execution.creatorsTold hbefore b hb
    rw [← hsite] at hlaid
    obtain ⟨CS, hCS, hof, hcount⟩ := count_of_told hsource hno hp₀ hprocessed hhook hnum hlaid
      hprofile.path_ne fun id hid => (hsite? _ id).2 ⟨t, ht, rfl, hid⟩
    rw [hlist]
    exact ⟨hook, hhook, CS, calls_declareHooks M ▸ hCS, hcreator, hof, hcount⟩
  · intro i hi
    rw [hlist] at hi
    obtain ⟨-, ⟨G, BB, hook⟩, hv, hrefers, hfound⟩ := mem_patchCalls_iff.1 hi
    obtain ⟨hG, hBB, hhook, hnum⟩ := mem_visitedHooks.1 hv
    have hhook := Function.mem_calls_of_mem_visited (List.mem_flatMap_of_mem hBB hhook)
    obtain ⟨s, hs, hfunc, hlocal⟩ := (hsite? G.name (G.localID hook.id)).1 hfound
    obtain ⟨-, hnone | hfunctions⟩ := sited_of_processed hsource hno hp₀ hprocessed
    · -- without hooks nothing would have been recorded
      obtain ⟨-, hook', hhook', hnum', -⟩ := htold s hs
      rw [hnone hook' hhook'] at hnum'
      exact absurd hnum' (by simp)
    · obtain ⟨F, hF, hname, hcalls⟩ := exists_of_mem_left hfunctions hG
      obtain ⟨hook', hhook', hsited⟩ := exists_of_mem_left hcalls hhook
      obtain ⟨BB, -, hlaid⟩ := hsited.site hnum
      refine ⟨F, hF, hook', hhook', hsited.refers.trans hrefers, s, hs, hfunc.trans hname.symm, ?_⟩
      rw [hookID?_of_hookSite? hlaid, hlocal]

/-- A block from the second allocation of `Provsan.staticModule`. -/
def staticBlock : Block where
  base := 0x1000#64
  size := 8
  site := ⟨1, "entry", "f"⟩
  earlier := []
  base_ne := smallBlock.base_ne
  size_pos := by decide
  id_nonneg := by decide
  noWrap := by decide

/-- The second allocation, and a fault in its block. -/
def staticEvents : List ProgramEvent :=
  [.hook (staticHook 1) staticBlock.allocCall, .fault 0x1004#64 1#32]

theorem faultIn_staticEvents : ∃ E E₁,
    Run (ExecutionStep staticModule') (Execution.start 0) staticEvents E ∧
      FaultIn staticModule' 0 staticEvents E E₁ staticBlock ∧
        E₁.creator staticBlock.base = some (staticHook 1) := by
  have hmake : SessionStep (Session.start 0) (.hook staticBlock.allocCall) ⟨_, _⟩ :=
    SessionStep.hook (AllocStep.alloc (fun c hc => absurd hc (Set.notMem_empty c)) rfl)
      (run_alloc (create_of_block staticBlock _ _))
  have hfirst : Run (ExecutionStep staticModule') (Execution.start 0)
      ([] ++ [.hook (staticHook 1) staticBlock.allocCall]) _ :=
    Run.nil.snoc (ExecutionStep.hook (by decide) ⟨rfl, rfl⟩ hmake)
  obtain ⟨h', hcall⟩ := AllocSiteHandler.exists_addFaultAlloc (h := (AllocSiteHandler.init
    0).insertAllocSite staticBlock.base (staticBlock.toSite 0#32 false)) rfl 0x1004#64 1#32
  have hfault : ExecutionStep staticModule' ⟨_, recordCreator (fun _ => none) (staticHook 1)
      staticBlock.allocCall⟩ (.fault 0x1004#64 1#32) _ :=
    ExecutionStep.fault (SessionStep.fault (L := insert staticBlock ∅) hcall)
  have hcut : staticEvents = ([] ++ [.hook (staticHook 1) staticBlock.allocCall]) ++
      [.fault 0x1004#64 1#32] := rfl
  exact ⟨_, _, hcut ▸ hfirst.snoc hfault, .mk hcut hfirst hfault .nil (Set.mem_insert ..)
    ⟨by decide, by decide⟩, rfl⟩

/-- The report build lists the second allocation, and nothing twice. -/
theorem provenance_static : ∃ (E : Execution) (M₁ : Module) (p : Compiler),
    DynUntrustedAllocPre.run sampleOptions (fun _ => "") staticModule = some M₁ ∧
      Run (ExecutionStep staticModule') (Execution.start 0) staticEvents E ∧
        ProvsanPost.run ⟨"p.json", true⟩ (profileOf (writeJSON E.handler.faultSet)) (fun _ _ => 0)
          Compiler.fresh M₁ = some p ∧ p.patchList.count (.src 1) = 1 := by
  obtain ⟨E, E₁, hrun, hfault, hcreator⟩ := faultIn_staticEvents
  have hplain : ∀ M₁ ∈ DynUntrustedAllocPre.run sampleOptions (fun _ => "") staticModule,
      M₁.PlainNames ∧ ∃ p₀ ∈ ProvsanPost.run ⟨"", false⟩ (profileOf "[]") (fun _ _ => 0)
        Compiler.fresh M₁, p₀.processed = [⟨staticModule', 0⟩] := by decide
  obtain ⟨M₁, hM₁⟩ := Option.isSome_iff_exists.1 (show (DynUntrustedAllocPre.run sampleOptions
    (fun _ => "") staticModule).isSome from by decide)
  obtain ⟨hnames, p₀, hp₀, hprocessed⟩ := hplain M₁ hM₁
  obtain ⟨p, hp, hreports⟩ := provenance sampleOptions (fun _ => "") staticModule M₁
    staticModule_source staticModule_hookFree.calls (noHooks_targets _ staticModule_hookFree)
    (by decide) hM₁ hnames ⟨"", false⟩ (profileOf "[]") (fun _ _ => 0) p₀ staticModule' 0 hp₀
    hprocessed staticEvents E hrun ⟨"p.json", true⟩ (profileOf (writeJSON E.handler.faultSet))
    (fun _ _ => 0) ⟨by decide, "p.json", rfl, rfl⟩
  obtain ⟨hook, -, CS, -, hhook, hof, hcount⟩ := hreports.faults E₁ staticBlock hfault
  -- the hook is the one of the second allocation
  obtain rfl := Option.some_inj.1 (hcreator.symm.trans hhook)
  have hrefers : some (Value.call (.src 1)) = some (.call CS.id) := hof.refers
  obtain heq := Value.call.inj (Option.some_inj.1 hrefers)
  exact ⟨E, M₁, p, hM₁, hrun, hp, heq ▸ hcount⟩

end Provsan
