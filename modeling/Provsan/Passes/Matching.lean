/-
**Records that match.**

A record of a profile names a function, an id and a block.  The merge of the files keeps the first
record for a function and an id.  The numbering pass looks its hooks up by these two, and when the
record that was kept names another block it prints an error and goes on: the call goes to
`patchList` and is reported like any other.

Main definitions:

* `Provsan.Module.visitedHooks` — the hooks that a visit comes to, in order;
* `Provsan.VisitedHook.record?` — the record that the merge keeps for a hook;
* `Provsan.VisitedHook.Matched` — this record names the block of the hook too;
* `Provsan.OnlyMatched`, `Provsan.Module.RecordsMatch` — the calls of these hooks alone are listed
  and reported, and the condition on the profile under which it is so.

Main results:

* `Provsan.mem_patchCalls_iff` — **which calls are listed**;
* `Provsan.patchCalls_eq`, `Provsan.reports_visit` — what a visit lists and what it reports, hook by
  hook;
* `Provsan.eq_listedHooks` — the listed hooks can be told from what is listed;
* `Provsan.onlyMatched_iff` — **only the calls of matched hooks are listed and reported, exactly
  when the records that are kept name the blocks of the hooks**.
-/

import Provsan.Passes.Reader
import Provsan.Passes.Process

set_option relaxedAutoImplicit false
set_option autoImplicit false

namespace Provsan

/-! ### Hooks and records -/

/-- **A hook that takes an id**, with its block and its function. -/
structure VisitedHook where
  F : Function
  BB : BasicBlock
  CS : CallSite

/-- The hooks that take an id, in the order in which the visit comes to them. -/
def Module.visitedHooks (M : Module) : List VisitedHook :=
  M.worked.flatMap fun F => F.visitedBlocks.flatMap fun BB =>
    (BB.calls.filter CallSite.isNumbered).map fun CS => ⟨F, BB, CS⟩

/-- The records of a profile, in the order of its files and of their elements; without a path there
are none. -/
def profileRecords (env : Environment) (MPKProfilePath : String) : List FaultingSite :=
  if MPKProfilePath = "" then [] else profileSites env MPKProfilePath

section

variable (P : ProvsanPost) (env : Environment) (localSlot : Function → BlockId → ℤ) (M : Module)

namespace VisitedHook

variable (v : VisitedHook)

/-- **The record that the merge keeps for a hook**: the first that names its function and its
id. -/
def record? : Option FaultingSite :=
  (profileRecords env P.MPKProfilePath).find? fun FS =>
    FS.funcName = v.F.name ∧ FS.localID = v.F.localID v.CS.id

def InBlock (FS : FaultingSite) : Prop := FS.bbName = blockName v.F localSlot v.BB

/-- **A hook that is matched in full**: a record is kept for it, and it names its block. -/
def Matched : Prop := ∃ FS, v.record? P env = some FS ∧ v.InBlock localSlot FS

def RefersTo (i : InstId) : Prop := v.CS.args[0]? = some (.call i)

/-- The text is the report of the call that the hook refers to. -/
def Reports (text : String) : Prop := ∃ i, v.RefersTo i ∧ location? v.F i = some text

end VisitedHook

/-- **The records name the blocks**: when a visited hook refers to a call, and a record is kept for
its function and its id, this record names its block. -/
def Module.RecordsMatch : Prop :=
  ∀ v ∈ M.visitedHooks, ∀ i FS, v.RefersTo i → v.record? P env = some FS → v.InBlock localSlot FS

/-- The report of a call, among what is printed. -/
def isReport (text : String) : Bool :=
  "Error: Compartment Violation from memory originally allocated at ".toList.isPrefixOf text.toList

/-- **Only matched hooks have their calls listed and reported**: what the visit adds to the list are
calls of visited hooks that are matched in full, one for each of these hooks and in their order, and
the reports that it prints are theirs, so that any other hook adds nothing to either. -/
def OnlyMatched (st st' : PassState) : Prop :=
  ∃ hooks calls reports, hooks.Sublist M.visitedHooks ∧ (∀ v ∈ hooks, v.Matched P env localSlot) ∧
    List.Forall₂ VisitedHook.RefersTo hooks calls ∧ List.Forall₂ VisitedHook.Reports hooks reports ∧
    st'.patchList = st.patchList ++ calls ∧
    st'.errs.filter isReport = st.errs.filter isReport ++ reports

end

/-! ### What is printed -/

theorem isReport_of_location? {F : Function} {i : InstId} {text : String}
    (h : location? F i = some text) : isReport text = true := by
  obtain ⟨inst, -, htext⟩ := Option.bind_eq_some_iff.1 h
  obtain ⟨DI, -, rfl⟩ := Option.map_eq_some_iff.1 htext
  rw [isReport, List.isPrefixOf_iff_prefix, String.toList_append, String.toList_append,
    List.append_assoc]
  exact List.prefix_append _ _

theorem second_of_isReport {text : String} (h : isReport text = true) :
    text.toList[1]? = some 'r' := by
  obtain ⟨rest, hrest⟩ := List.isPrefixOf_iff_prefix.1 h
  rw [← hrest, List.getElem?_append_left (by decide)]
  rfl

/-- What is printed when the block is another one begins with capitals, and is no report. -/
theorem isReport_blockMismatch (FS : FaultingSite) (bbName : String) :
    isReport (blockMismatch FS bbName) ≠ true := by
  intro h
  have hsecond := second_of_isReport h
  have hcapitals : ∃ rest, (blockMismatch FS bbName).toList =
      "ERROR : Faulting allocation site found in non-matching BasicBlock:\n".toList ++ rest := by
    unfold blockMismatch
    simp only [String.toList_append, List.append_assoc]
    exact ⟨_, rfl⟩
  obtain ⟨rest, hrest⟩ := hcapitals
  rw [hrest, List.getElem?_append_left (by simp)] at hsecond
  exact absurd hsecond (by simp)

theorem isReport_emptyPath : isReport "MPKProfilePath was empty\n" ≠ true := by
  intro h
  exact absurd (second_of_isReport h) (by simp)

section

variable {P : ProvsanPost} {fault_map : FaultMap} {localSlot : Function → BlockId → ℤ} {M : Module}

/-- The report that the visit of a call prints, if any. -/
def report? (P : ProvsanPost) (fault_map : FaultMap) (F : Function) (CS : CallSite) :
    Option String :=
  (patched? P fault_map F CS).bind fun e => location? F e.2

def Module.reports (P : ProvsanPost) (fault_map : FaultMap) (M : Module) : List String :=
  M.worked.flatMap fun F => F.visited.filterMap (report? P fault_map F)

/-- What the visit of a call prints holds one report at most, whatever the name of the block. -/
theorem filter_printed (F : Function) (bbName : String) (CS : CallSite) :
    (printed P fault_map F bbName CS).filter isReport = (report? P fault_map F CS).toList := by
  unfold printed report?
  split_ifs with hempty
  · have hnone : patched? P fault_map F CS = none := by simp [patched?, hempty.2]
    rw [List.filter_cons_of_neg isReport_emptyPath, hnone]
    rfl
  · cases hpatched : patched? P fault_map F CS with
    | none => rfl
    | some e =>
        obtain ⟨FS, i⟩ := e
        have hmismatch : (if bbName ≠ FS.bbName then [blockMismatch FS bbName] else []).filter
            isReport = [] := by
          split_ifs
          · rw [List.filter_cons_of_neg (isReport_blockMismatch FS bbName), List.filter_nil]
          · rfl
        dsimp only
        rw [List.filter_append, hmismatch, List.nil_append, Option.bind_some]
        cases hlocation : location? F i with
        | none => rfl
        | some text => exact List.filter_cons_of_pos (isReport_of_location? hlocation)

/-- **One report is printed for each call that is listed.** -/
theorem reports_visit (P : ProvsanPost) (fault_map : FaultMap)
    (localSlot : Function → BlockId → ℤ) (M : Module) (st : PassState) :
    (M.worked.foldl (fun st F => st.visitFunction P fault_map localSlot F) st).errs.filter
      isReport = st.errs.filter isReport ++ M.reports P fault_map := by
  have hfunction : ∀ (st : PassState) (F : Function),
      (st.visitFunction P fault_map localSlot F).errs.filter isReport =
        st.errs.filter isReport ++ F.visited.filterMap (report? P fault_map F) := by
    intro st F
    rw [List.filterMap_eq_flatMap_toList]
    refine @field_visitFunction P fault_map localSlot F st _ (fun st => st.errs.filter isReport) _
      (fun bbName st CS => ?_) rfl
    rw [← filter_printed (P := P) F bbName CS, ← List.filter_append]
    rfl
  exact @foldl_append_field _ _ _ (fun st : PassState => st.errs.filter isReport) _ _ hfunction _ _

/-! ### Hook by hook -/

theorem mem_visitedHooks {v : VisitedHook} : v ∈ M.visitedHooks ↔
    v.F ∈ M.functions ∧ v.BB ∈ v.F.visitedBlocks ∧ v.CS ∈ v.BB.calls ∧
      v.CS.isNumbered = true := by
  simp only [Module.visitedHooks, List.mem_flatMap, List.mem_map, List.mem_filter]
  constructor
  · rintro ⟨F, hF, BB, hBB, CS, ⟨hCS, hnum⟩, rfl⟩
    exact ⟨(Module.mem_worked.1 hF).1, hBB, hCS, hnum⟩
  · rintro ⟨hF, hBB, hCS, hnum⟩
    have hvisited : v.CS ∈ v.F.visited := List.mem_flatMap_of_mem hBB hCS
    exact ⟨v.F, Module.mem_worked.2 ⟨hF, Function.isDeclaration_of_mem_visited hvisited⟩, v.BB, hBB,
      v.CS, ⟨hCS, hnum⟩, rfl⟩

/-- What the visit makes of the calls is what it makes of the hooks, when it makes nothing of a call
that takes no id. -/
theorem filterMap_visitedHooks {β : Type} (g : Function → CallSite → Option β)
    (hg : ∀ F CS, CS.isNumbered = false → g F CS = none) :
    (M.worked.flatMap fun F => F.visited.filterMap (g F)) =
      M.visitedHooks.filterMap fun v => g v.F v.CS := by
  have hblock : ∀ (F : Function) (BB : BasicBlock), BB.calls.filterMap (g F) =
      ((BB.calls.filter CallSite.isNumbered).map (VisitedHook.mk F BB)).filterMap
        fun v => g v.F v.CS := by
    intro F BB
    rw [List.filterMap_map, List.filterMap_filter]
    refine List.filterMap_congr fun CS _ => ?_
    cases hnum : CS.isNumbered with
    | false => exact hg F CS hnum
    | true => rfl
  simp only [Module.visitedHooks, Function.visited, List.filterMap_flatMap, hblock]

/-- The hooks whose calls are listed. -/
def Module.listedHooks (P : ProvsanPost) (fault_map : FaultMap) (M : Module) : List VisitedHook :=
  M.visitedHooks.filter fun v => (patched? P fault_map v.F v.CS).isSome

/-- **What the visit lists, hook by hook.** -/
theorem patchCalls_eq : M.patchCalls P fault_map =
    M.visitedHooks.filterMap fun v => (patched? P fault_map v.F v.CS).map Prod.snd :=
  filterMap_visitedHooks (fun F CS => (patched? P fault_map F CS).map Prod.snd) fun F CS hnum => by
    simp [patched?, hnum]

theorem reports_eq : M.reports P fault_map =
    M.visitedHooks.filterMap fun v => report? P fault_map v.F v.CS :=
  filterMap_visitedHooks (report? P fault_map) fun F CS hnum => by simp [report?, patched?, hnum]

/-- The elements that pass a test stand beside what is made of them. -/
theorem forall₂_filterMap {α β : Type} {R : α → β → Prop} {p : α → Bool} {f : α → Option β}
    {l : List α} (hsome : ∀ a ∈ l, p a = true → ∃ b, f a = some b ∧ R a b)
    (hnone : ∀ a ∈ l, p a = false → f a = none) :
    List.Forall₂ R (l.filter p) (l.filterMap f) := by
  induction l with
  | nil => exact .nil
  | cons a l ih =>
      have hrest := ih (fun b hb => hsome b (List.mem_cons_of_mem _ hb))
        fun b hb => hnone b (List.mem_cons_of_mem _ hb)
      cases hp : p a with
      | false =>
          rw [List.filter_cons_of_neg (by simp [hp]),
            List.filterMap_cons_none (hnone a (List.mem_cons_self ..) hp)]
          exact hrest
      | true =>
          obtain ⟨b, hb, hR⟩ := hsome a (List.mem_cons_self ..) hp
          rw [List.filter_cons_of_pos hp, List.filterMap_cons_some hb]
          exact .cons hR hrest

/-! ### Which calls are listed -/

/-- **Which calls are listed**: those that a hook refers to whose function and id are in the map. -/
theorem mem_patchCalls_iff {i : InstId} : i ∈ M.patchCalls P fault_map ↔ P.MPKProfilePath ≠ "" ∧
    ∃ v ∈ M.visitedHooks, v.RefersTo i ∧
      (fault_map.site? v.F.name (v.F.localID v.CS.id)).isSome := by
  simp only [patchCalls_eq, List.mem_filterMap, map_snd_patched?_eq_some]
  constructor
  · rintro ⟨v, hv, -, hpath, hrefers, hsite⟩
    exact ⟨hpath, v, hv, hrefers, hsite⟩
  · rintro ⟨hpath, v, hv, hrefers, hsite⟩
    exact ⟨v, hv, (mem_visitedHooks.1 hv).2.2.2, hpath, hrefers, hsite⟩

/-- **The map has the record of a hook that the merge keeps**, and its call is listed for it. -/
theorem patched?_hook {env : Environment}
    (hread : getFaultingAllocMap env P.MPKProfilePath = some fault_map) {v : VisitedHook}
    (hv : v ∈ M.visitedHooks) {FS : FaultingSite} {i : InstId} :
    patched? P fault_map v.F v.CS = some (FS, i) ↔ v.record? P env = some FS ∧ v.RefersTo i := by
  rw [patched?_eq_some, VisitedHook.record?, profileRecords]
  by_cases hpath : P.MPKProfilePath = ""
  · simp [hpath]
  · obtain ⟨-, rfl⟩ := (getFaultingAllocMap_eq_some hpath).1 hread
    rw [site?_profileSites, if_neg hpath]
    constructor
    · rintro ⟨-, -, hrefers, hrecord⟩
      exact ⟨hrecord, hrefers⟩
    · rintro ⟨hrecord, hrefers⟩
      exact ⟨(mem_visitedHooks.1 hv).2.2.2, hpath, hrefers, hrecord⟩

theorem mem_listedHooks {env : Environment}
    (hread : getFaultingAllocMap env P.MPKProfilePath = some fault_map) {v : VisitedHook} :
    v ∈ M.listedHooks P fault_map ↔
      v ∈ M.visitedHooks ∧ ∃ FS i, v.record? P env = some FS ∧ v.RefersTo i := by
  rw [Module.listedHooks, List.mem_filter]
  refine and_congr_right fun hv => ?_
  rw [Option.isSome_iff_exists, Prod.exists]
  exact exists_congr fun FS => exists_congr fun i => patched?_hook hread hv

/-- The listed calls are those of the listed hooks, one by one. -/
theorem refersTo_listedHooks :
    List.Forall₂ VisitedHook.RefersTo (M.listedHooks P fault_map) (M.patchCalls P fault_map) := by
  rw [patchCalls_eq]
  refine forall₂_filterMap (fun v _ hlisted => ?_) fun v _ hlisted => ?_
  · obtain ⟨⟨FS, i⟩, he⟩ := Option.isSome_iff_exists.1 hlisted
    exact ⟨i, by rw [he, Option.map_some], (patched?_eq_some.1 he).2.2.1⟩
  · rw [Option.isNone_iff_eq_none.1 (Option.isSome_eq_false_iff.1 hlisted), Option.map_none]

/-- The reports are those of the listed hooks, one by one. -/
theorem reports_listedHooks (hvisit : M.CanVisit P fault_map localSlot) :
    List.Forall₂ VisitedHook.Reports (M.listedHooks P fault_map) (M.reports P fault_map) := by
  rw [reports_eq]
  refine forall₂_filterMap (fun v hv hlisted => ?_) fun v _ hlisted => ?_
  · obtain ⟨⟨FS, i⟩, he⟩ := Option.isSome_iff_exists.1 hlisted
    obtain ⟨hF, hBB, hCS, -⟩ := mem_visitedHooks.1 hv
    obtain ⟨text, htext⟩ := Option.isSome_iff_exists.1
      ((hvisit v.F hF v.BB hBB v.CS hCS).location _ he)
    exact ⟨text, by rw [report?, he, Option.bind_some, htext], i, (patched?_eq_some.1 he).2.2.1,
      htext⟩
  · rw [report?, Option.isNone_iff_eq_none.1 (Option.isSome_eq_false_iff.1 hlisted),
      Option.bind_none]

/-- **Visited hooks with records are the listed ones** when their calls are the listed calls: they
are among them, and as many. -/
theorem eq_listedHooks {env : Environment}
    (hread : getFaultingAllocMap env P.MPKProfilePath = some fault_map) {hooks : List VisitedHook}
    (hsub : hooks.Sublist M.visitedHooks) (hrecords : ∀ v ∈ hooks, ∃ FS, v.record? P env = some FS)
    (hcalls : List.Forall₂ VisitedHook.RefersTo hooks (M.patchCalls P fault_map)) :
    hooks = M.listedHooks P fault_map := by
  have hall : ∀ v ∈ hooks, (patched? P fault_map v.F v.CS).isSome = true := by
    intro v hv
    obtain ⟨FS, hFS⟩ := hrecords v hv
    obtain ⟨i, -, hrefers⟩ := exists_of_mem_left hcalls hv
    rw [(patched?_hook hread (hsub.subset hv)).2 ⟨hFS, hrefers⟩]
    rfl
  have hlisted : hooks.Sublist (M.listedHooks P fault_map) := by
    rw [← List.filter_eq_self.2 hall]
    exact hsub.filter _
  exact hlisted.eq_of_length (hcalls.length_eq.trans refersTo_listedHooks.length_eq.symm)

/-- **Only the calls of matched hooks are listed and reported, exactly when the records that are
kept name the blocks of the hooks.** -/
theorem onlyMatched_iff (P : ProvsanPost) (env : Environment)
    (localSlot : Function → BlockId → ℤ) (M : Module) (hM : ∀ F ∈ M.functions, F.WellFormed)
    (st : PassState) (r : Module × PassState)
    (hr : assignLocalIDs P env localSlot M st = some r) :
    OnlyMatched P env localSlot M st r.2 ↔ M.RecordsMatch P env localSlot := by
  obtain ⟨fault_map, hread, hvisit, rfl⟩ := (assignLocalIDs_eq_some hM).1 hr
  constructor
  · rintro ⟨hooks, calls, -, hsub, hmatched, hcalls, -, hlist, -⟩ v hv i FS hrefers hrecord
    dsimp only at hlist
    rw [patchList_visit] at hlist
    obtain rfl := List.append_cancel_left hlist
    have hrecords : ∀ w ∈ hooks, ∃ FS, w.record? P env = some FS := fun w hw =>
      (hmatched w hw).imp fun _ h => h.1
    have hmem : v ∈ hooks := by
      rw [eq_listedHooks hread hsub hrecords hcalls]
      exact (mem_listedHooks hread).2 ⟨hv, FS, i, hrecord, hrefers⟩
    obtain ⟨FS', hFS', hblock⟩ := hmatched v hmem
    rw [Option.some_inj.1 (hrecord.symm.trans hFS')]
    exact hblock
  · intro hcond
    refine ⟨M.listedHooks P fault_map, _, _, List.filter_sublist, fun v hv => ?_,
      refersTo_listedHooks, reports_listedHooks hvisit, patchList_visit .., reports_visit ..⟩
    obtain ⟨hv, FS, i, hrecord, hrefers⟩ := (mem_listedHooks hread).1 hv
    exact ⟨FS, hrecord, hcond v hv i FS hrefers hrecord⟩

end

/-! ### A function with one block -/

/-- The block of the hook of the function with an allocation. -/
theorem blockName_of_visited {v : VisitedHook}
    (hv : v ∈ (Module.mk [hookedFunction "f" 0]).visitedHooks) :
    blockName v.F (fun _ _ => 0) v.BB = "entry" := by
  have hall : ∀ v ∈ (Module.mk [hookedFunction "f" 0]).visitedHooks,
      blockName v.F (fun _ _ => 0) v.BB = "entry" := by decide
  exact hall v hv

theorem onlyMatched_iff_hooked : ∃ r, assignLocalIDs ⟨"p.json", false⟩ (profileOf siteText)
    (fun _ _ => 0) ⟨[hookedFunction "f" 0]⟩ ⟨[], [], 0, [], []⟩ = some r ∧
      r.2.patchList = [.src 0] ∧ OnlyMatched ⟨"p.json", false⟩ (profileOf siteText) (fun _ _ => 0)
        ⟨[hookedFunction "f" 0]⟩ ⟨[], [], 0, [], []⟩ r.2 := by
  have hlist : ∀ r ∈ assignLocalIDs ⟨"p.json", false⟩ (profileOf siteText) (fun _ _ => 0)
      ⟨[hookedFunction "f" 0]⟩ ⟨[], [], 0, [], []⟩, r.2.patchList = [.src 0] := by decide
  obtain ⟨r, hr⟩ : ∃ r, assignLocalIDs ⟨"p.json", false⟩ (profileOf siteText) (fun _ _ => 0)
      ⟨[hookedFunction "f" 0]⟩ ⟨[], [], 0, [], []⟩ = some r :=
    Option.isSome_iff_exists.1 (by decide)
  have hrecords : ∀ FS ∈ profileRecords (profileOf siteText) "p.json", FS.bbName = "entry" := by
    decide
  refine ⟨r, hr, hlist r hr, (onlyMatched_iff _ _ _ _ (hookedFunction_wellFormed "f" 0).functions _
    _ hr).2 fun v hv i FS _ hrecord => ?_⟩
  rw [VisitedHook.InBlock, blockName_of_visited hv]
  exact hrecords FS (List.mem_of_find?_eq_some hrecord)

def otherBlockText : String :=
  "[\x7b\"id\":0,\"pkey\":1,\"bbName\":\"bb1\",\"funcName\":\"f\"\x7d]"

/-- **A record that names another block lists the call** all the same. -/
theorem not_onlyMatched : ¬ ∀ (P : ProvsanPost) (env : Environment)
    (localSlot : Function → BlockId → ℤ) (M : Module) (st : PassState) (r : Module × PassState),
    M.WellFormed → assignLocalIDs P env localSlot M st = some r →
      OnlyMatched P env localSlot M st r.2 := by
  intro hall
  have hlist : ∀ r ∈ assignLocalIDs ⟨"p.json", false⟩ (profileOf otherBlockText) (fun _ _ => 0)
      ⟨[hookedFunction "f" 0]⟩ ⟨[], [], 0, [], []⟩, r.2.patchList = [.src 0] := by decide
  obtain ⟨r, hr⟩ : ∃ r, assignLocalIDs ⟨"p.json", false⟩ (profileOf otherBlockText) (fun _ _ => 0)
      ⟨[hookedFunction "f" 0]⟩ ⟨[], [], 0, [], []⟩ = some r :=
    Option.isSome_iff_exists.1 (by decide)
  have hrecords : ∀ FS ∈ profileRecords (profileOf otherBlockText) "p.json", FS.bbName = "bb1" := by
    decide
  obtain ⟨hooks, calls, -, hsub, hmatched, hcalls, -, hpatch, -⟩ :=
    hall _ _ _ _ _ r (hookedFunction_wellFormed "f" 0) hr
  rw [hlist r hr, List.nil_append] at hpatch
  obtain ⟨v, hv, -⟩ := exists_of_mem_right hcalls (b := .src 0) (by simp [← hpatch])
  obtain ⟨FS, hrecord, hblock⟩ := hmatched v hv
  rw [VisitedHook.InBlock, blockName_of_visited (hsub.subset hv),
    hrecords FS (List.mem_of_find?_eq_some hrecord)] at hblock
  exact absurd hblock (by decide)

/-- A later record that names the block makes no difference: the first one is kept. -/
example : ∀ v ∈ (Module.mk [hookedFunction "f" 0]).visitedHooks,
    (v.record? ⟨"p.json", false⟩ (profileOf ("[\x7b\"id\":0,\"pkey\":1,\"bbName\":\"bb1\"," ++
      "\"funcName\":\"f\"\x7d,\x7b\"id\":0,\"pkey\":1,\"bbName\":\"entry\"," ++
      "\"funcName\":\"f\"\x7d]"))).map FaultingSite.bbName = some "bb1" := by decide

end Provsan
