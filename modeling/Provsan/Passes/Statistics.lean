/-
**The statistics of the two passes.**

Both passes count what they do, and write the counts to files at the end of a run.  The first one
counts the hooks it makes, by their kinds, and those it inserts; the second one counts the hooks it
comes to, or erases with their functions, by their names, and the calls whose callee it replaces.
Its counter `total_hooks` is there to be compared with the `hook_count` of the first one.

Main definitions:

* `Provsan.PreStats`, `Provsan.DynUntrustedAllocPre.runStats` — the first pass with its counters;
* `Provsan.PostStats`, `Provsan.ProvsanPost.runStats` — the second pass with its counters;
* `Provsan.StatsAgree` — what the counters of the two are to each other, and to the module.

Main results:

* `Provsan.map_fst_runStats_pre`, `Provsan.map_fst_runStats` — the passes with counters are the
  passes;
* `Provsan.stats_pre` — what the first pass has counted;
* `Provsan.statistics_agree` — **the two passes count the same hooks**.
-/

import Provsan.Passes.Rerun

set_option relaxedAutoImplicit false
set_option autoImplicit false

namespace Provsan

open scoped List

/-! ### The first pass and its counters -/

/-- The counters of the first pass. -/
structure PreStats where
  hook_count : ℕ
  alloc_hook_counter : ℕ
  realloc_hook_counter : ℕ
  dealloc_hook_counter : ℕ
  deriving DecidableEq

namespace PreStats

def zero : PreStats := ⟨0, 0, 0, 0⟩

/-- The counter of a kind. -/
def counter (s : PreStats) : HookKind → ℕ
  | .alloc => s.alloc_hook_counter
  | .realloc => s.realloc_hook_counter
  | .dealloc => s.dealloc_hook_counter

/-- What `getHookInst` counts. -/
def made (T : Targets) (s : PreStats) (CS : CallSite) : PreStats :=
  match T.kind? CS with
  | none => s
  | some .alloc => { s with alloc_hook_counter := s.alloc_hook_counter + 1 }
  | some .realloc => { s with realloc_hook_counter := s.realloc_hook_counter + 1 }
  | some .dealloc => { s with dealloc_hook_counter := s.dealloc_hook_counter + 1 }

/-- What the loop counts for a plain call or an invoke: its hook is inserted. -/
def placed (T : Targets) (s : PreStats) (CS : CallSite) : PreStats :=
  let s := s.made T CS
  if (T.kind? CS).isSome then { s with hook_count := s.hook_count + 1 } else s

/-- What the loop counts in a block. -/
def block (T : Targets) (s : PreStats) (BB : BasicBlock) : PreStats :=
  let s := (BB.body.filterMap Instruction.call?).foldl (placed T) s
  match BB.term with
  | .br _ => s
  | .invoke CS _ _ => s.placed T CS
  -- the hook that is made is not inserted
  | .callbr CS _ => s.made T CS

end PreStats

/-- The turn of the loop of `hookFunctions` for the block `b`, with the counters. -/
def hookBlockStats (T : Targets) (names : InstId → String) (r : Function × PreStats) (b : BlockId) :
    Option (Function × PreStats) := do
  let BB ← r.1.block? b
  let F ← hookBlock T names r.1 b
  some (F, r.2.block T BB)

def hookFunctionStats (T : Targets) (names : InstId → String) (F : Function) (s : PreStats) :
    Option (Function × PreStats) :=
  if F.isDeclaration then some (F, s) else F.RPOT.foldlM (hookBlockStats T names) (F, s)

def hookFunctionsStats (T : Targets) (names : InstId → String) :
    List Function → PreStats → Option (List Function × PreStats)
  | [], s => some ([], s)
  | F :: rest, s => do
      let (F, s) ← hookFunctionStats T names F s
      let (rest, s) ← hookFunctionsStats T names rest s
      some (F :: rest, s)

/-- `DynUntrustedAllocPre::run`, with the counters. -/
def DynUntrustedAllocPre.runStats (O : PreOptions) (names : InstId → String) (M : Module)
    (s : PreStats) : Option (Module × PreStats) := do
  let (functions, s) ← hookFunctionsStats (O.targets M) names (declareHooks M).functions s
  some (⟨functions⟩, s)

/-! ### The second pass and its counters -/

/-- The counters of the second pass. -/
structure PostStats where
  total_hooks : ℕ
  modified_inst_count : ℕ
  hookCountMap : List (String × ℕ)
  deriving DecidableEq

namespace PostStats

def zero : PostStats := ⟨0, 0, [("allocHook", 0), ("reallocHook", 0), ("deallocHook", 0)]⟩

/-- One more hook. -/
def countHook (s : PostStats) (hook : String) : PostStats :=
  { s with
    total_hooks := s.total_hooks + 1
    hookCountMap := s.hookCountMap.map fun e => if e.1 = hook then (e.1, e.2 + 1) else e }

/-- What the loop of `assignLocalIDs` counts for a call. -/
def visitCall (s : PostStats) (CS : CallSite) : PostStats :=
  match CS.calledFunction with
  | none => s
  | some hook => if (patchArgIndexMap.lookup hook).isSome then s.countHook hook else s

/-- What `assignLocalIDs` counts. -/
def assignLocalIDs (s : PostStats) (M : Module) : PostStats :=
  M.worked.foldl (fun s F => F.visited.foldl visitCall s) s

end PostStats

/-- Whether `patchInstruction` finds something to replace the callee of the call with. -/
def patches (mem : Memory) (inst : InstId) : Bool :=
  (mem.calls.find? (·.id = inst)).any fun CS =>
    CS.calledFunction.any fun calledFuncName => (replacement? mem.current calledFuncName).isSome

/-- `patchInstruction`, with the counters. -/
def patchInstructionStats (r : Memory × PostStats) (inst : InstId) :
    Option (Memory × PostStats) := do
  let mem ← patchInstruction r.1 inst
  some (mem, if patches r.1 inst then
    { r.2 with modified_inst_count := r.2.modified_inst_count + 1 } else r.2)

/-- The turn of `removeHooks` for one of the hooks: every call of it that is left is counted and
erased. -/
def removeHookStats (r : Module × PostStats) (name : String) : Option (Module × PostStats) := do
  let M ← removeHook r.1 name
  let users := r.1.calls.filter fun CS => CS.calledFunction = some name
  some (M, if (r.1.getFunction name).isSome then
    users.foldl (fun s _ => s.countHook name) r.2
  else r.2)

/-- `removeHooks`, with the counters. -/
def removeHooksStats (hookList : List InstId) (r : Memory × PostStats) :
    Option (Memory × PostStats) := do
  let mem ← hookList.foldlM eraseFromParent r.1
  let (M, s) ← hookNames.foldlM removeHookStats (mem.current, r.2)
  some ({ mem with current := M }, s)

/-- `ProvsanPost::run`, with the counters. -/
def ProvsanPost.runStats (P : ProvsanPost) (env : Environment) (localSlot : Function → BlockId → ℤ)
    (p : Compiler) (M : Module) (s : PostStats) : Option (Compiler × PostStats) := do
  let (M', st) ← assignLocalIDs P env localSlot M ⟨p.hookList, p.patchList, 0, [], p.errs⟩
  let r : Memory × PostStats := (⟨p.processed, M'⟩, s.assignLocalIDs M)
  let r ← (if P.MPKProfilePath = "" then some r else st.patchList.foldlM patchInstructionStats r)
  let (mem, s) ← (if P.RemoveHooks then removeHooksStats st.hookList r else some r)
  some ({ p with
    processed := mem.earlier ++ [⟨mem.current, p.IDG⟩]
    hookList := st.hookList
    patchList := st.patchList
    errs := st.errs }, s)

/-! ### The passes with counters are the passes -/

/-- A loop with counters, without them. -/
theorem map_fst_foldlM {σ τ α : Type} {turn : σ → α → Option σ} {turn' : σ × τ → α → Option (σ × τ)}
    (h : ∀ r a, (turn' r a).map Prod.fst = turn r.1 a) (l : List α) (r : σ × τ) :
    (l.foldlM turn' r).map Prod.fst = l.foldlM turn r.1 := by
  induction l generalizing r with
  | nil => rfl
  | cons a l ih =>
      rw [List.foldlM_cons, List.foldlM_cons, ← h r a]
      cases turn' r a with
      | none => rfl
      | some r' => exact ih r'

theorem map_fst_hookFunctionStats (T : Targets) (names : InstId → String) (F : Function)
    (s : PreStats) : (hookFunctionStats T names F s).map Prod.fst = hookFunction T names F := by
  have hturn : ∀ (r : Function × PreStats) (b : BlockId),
      (hookBlockStats T names r b).map Prod.fst = hookBlock T names r.1 b := by
    intro r b
    unfold hookBlockStats
    cases hb : r.1.block? b with
    | none => rw [hookBlock, hb]; rfl
    | some BB => cases hookBlock T names r.1 b <;> rfl
  unfold hookFunctionStats hookFunction
  split_ifs
  · rfl
  · exact map_fst_foldlM hturn F.RPOT (F, s)

/-- **The first pass with counters is the first pass.** -/
theorem map_fst_runStats_pre (O : PreOptions) (names : InstId → String) (M : Module)
    (s : PreStats) : (DynUntrustedAllocPre.runStats O names M s).map Prod.fst =
      DynUntrustedAllocPre.run O names M := by
  have hfunctions : ∀ (Fs : List Function) (s : PreStats),
      (hookFunctionsStats (O.targets M) names Fs s).map Prod.fst =
        Fs.mapM (hookFunction (O.targets M) names) := by
    intro Fs
    induction Fs with
    | nil => exact fun s => rfl
    | cons F rest ih =>
        intro s
        rw [hookFunctionsStats, List.mapM_cons, ← map_fst_hookFunctionStats (O.targets M) names F s]
        cases hookFunctionStats (O.targets M) names F s with
        | none => rfl
        | some r =>
            simp only [Option.bind_eq_bind, Option.bind_some, Option.map_some, ← ih r.2]
            cases hookFunctionsStats (O.targets M) names rest r.2 <;> rfl
  unfold DynUntrustedAllocPre.runStats DynUntrustedAllocPre.run hookFunctions
  rw [← hfunctions _ s]
  cases hookFunctionsStats (O.targets M) names (declareHooks M).functions s <;> rfl

/-- **The second pass with counters is the second pass.** -/
theorem map_fst_runStats (P : ProvsanPost) (env : Environment) (localSlot : Function → BlockId → ℤ)
    (p : Compiler) (M : Module) (s : PostStats) :
    (ProvsanPost.runStats P env localSlot p M s).map Prod.fst =
      ProvsanPost.run P env localSlot p M := by
  have hpatch : ∀ (r : Memory × PostStats) (i : InstId),
      (patchInstructionStats r i).map Prod.fst = patchInstruction r.1 i := by
    intro r i
    unfold patchInstructionStats
    cases patchInstruction r.1 i <;> rfl
  have hremove : ∀ (r : Module × PostStats) (name : String),
      (removeHookStats r name).map Prod.fst = removeHook r.1 name := by
    intro r name
    unfold removeHookStats
    cases removeHook r.1 name <;> rfl
  have hremoves : ∀ (hookList : List InstId) (r : Memory × PostStats),
      (removeHooksStats hookList r).map Prod.fst = removeHooks hookList r.1 := by
    intro hookList r
    unfold removeHooksStats removeHooks
    cases hookList.foldlM eraseFromParent r.1 with
    | none => rfl
    | some mem =>
        simp only [Option.bind_eq_bind, Option.bind_some]
        rw [← map_fst_foldlM hremove hookNames (mem.current, r.2)]
        cases hookNames.foldlM removeHookStats (mem.current, r.2) <;> rfl
  unfold ProvsanPost.runStats ProvsanPost.run
  cases Provsan.assignLocalIDs P env localSlot M ⟨p.hookList, p.patchList, 0, [], p.errs⟩ with
  | none => rfl
  | some r =>
      obtain ⟨M', st⟩ := r
      have hpatches : ((if P.MPKProfilePath = "" then
          some ((⟨p.processed, M'⟩ : Memory), s.assignLocalIDs M)
        else st.patchList.foldlM patchInstructionStats (⟨p.processed, M'⟩, s.assignLocalIDs M)).map
          Prod.fst) = if P.MPKProfilePath = "" then some ⟨p.processed, M'⟩
            else st.patchList.foldlM patchInstruction ⟨p.processed, M'⟩ := by
        split_ifs
        · rfl
        · exact map_fst_foldlM hpatch st.patchList (⟨p.processed, M'⟩, s.assignLocalIDs M)
      simp only [Option.bind_eq_bind, Option.bind_some, ← hpatches]
      cases (if P.MPKProfilePath = "" then
          some ((⟨p.processed, M'⟩ : Memory), s.assignLocalIDs M)
        else st.patchList.foldlM patchInstructionStats (⟨p.processed, M'⟩, s.assignLocalIDs M)) with
      | none => rfl
      | some r =>
          simp only [Option.map_some, Option.bind_some]
          split_ifs
          · rw [← hremoves st.hookList r]
            cases removeHooksStats st.hookList r <;> rfl
          · rfl

/-! ### What the first pass counts -/

/-- The calls of a block whose hooks are inserted. -/
def BasicBlock.insertable (BB : BasicBlock) : List CallSite :=
  BB.body.filterMap Instruction.call? ++
    match BB.term with
    | .invoke CS _ _ => [CS]
    | _ => []

/-- The call of a block whose hook is made, but has no place. -/
def BasicBlock.jumps (BB : BasicBlock) : List CallSite :=
  match BB.term with
  | .callbr CS _ => [CS]
  | _ => []

/-- The blocks that can be reached. -/
def Module.visitedBlocks (M : Module) : List BasicBlock :=
  M.functions.flatMap Function.visitedBlocks

theorem BasicBlock.calls_eq (BB : BasicBlock) : BB.calls = BB.insertable ++ BB.jumps := by
  unfold BasicBlock.calls insertable jumps
  cases BB.term <;> simp [Terminator.call?]

/-- A count that every turn of a loop adds to. -/
theorem foldl_countP {σ α β : Type} (count : σ → ℕ) {turn : σ → α → σ} {f : α → List β}
    {p : β → Bool} (h : ∀ s a, count (turn s a) = count s + (f a).countP p) (l : List α) (s : σ) :
    count (l.foldl turn s) = count s + (l.flatMap f).countP p := by
  induction l generalizing s with
  | nil => simp
  | cons a l ih => rw [List.foldl_cons, ih, h, List.flatMap_cons, List.countP_append, Nat.add_assoc]

section

variable {T : Targets} {names : InstId → String} {F : Function}

namespace PreStats

theorem counter_made (s : PreStats) (CS : CallSite) (kind : HookKind) :
    (s.made T CS).counter kind = s.counter kind + [CS].countP (T.kind? · = some kind) := by
  unfold made
  cases hk : T.kind? CS with
  | none => simp [hk]
  | some kind' => cases kind' <;> cases kind <;> simp [hk, counter]

theorem hook_count_made (s : PreStats) (CS : CallSite) :
    (s.made T CS).hook_count = s.hook_count := by
  unfold made
  cases T.kind? CS with
  | none => rfl
  | some kind => cases kind <;> rfl

theorem counter_placed (s : PreStats) (CS : CallSite) (kind : HookKind) :
    (s.placed T CS).counter kind = s.counter kind + [CS].countP (T.kind? · = some kind) := by
  rw [← counter_made]
  unfold placed
  split_ifs <;> cases kind <;> rfl

theorem hook_count_placed (s : PreStats) (CS : CallSite) :
    (s.placed T CS).hook_count = s.hook_count + [CS].countP fun CS => (T.kind? CS).isSome := by
  unfold placed
  dsimp only
  split_ifs with hk <;> simp [hk, hook_count_made]

/-- **What is counted in a block**, by the kinds. -/
theorem counter_block (s : PreStats) (BB : BasicBlock) (kind : HookKind) :
    (s.block T BB).counter kind = s.counter kind + BB.calls.countP (T.kind? · = some kind) := by
  have hbody := foldl_countP (fun s : PreStats => s.counter kind)
    (fun s (CS : CallSite) => counter_placed (T := T) s CS kind)
    (BB.body.filterMap Instruction.call?) s
  rw [List.flatMap_singleton'] at hbody
  unfold block BasicBlock.calls
  rw [List.countP_append, ← Nat.add_assoc, ← hbody]
  cases BB.term with
  | br dests => rfl
  | invoke CS normal unwind => exact counter_placed _ CS kind
  -- the hook is made and counted here, although it is not inserted
  | callbr CS dests => exact counter_made _ CS kind

/-- What is counted in a block, by the hooks that are inserted. -/
theorem hook_count_block (s : PreStats) (BB : BasicBlock) : (s.block T BB).hook_count =
    s.hook_count + BB.insertable.countP fun CS => (T.kind? CS).isSome := by
  have hbody := foldl_countP PreStats.hook_count
    (hook_count_placed (T := T)) (BB.body.filterMap Instruction.call?) s
  rw [List.flatMap_singleton'] at hbody
  unfold block BasicBlock.insertable
  rw [List.countP_append, ← Nat.add_assoc, ← hbody]
  cases BB.term with
  | br dests => rfl
  | invoke CS normal unwind => exact hook_count_placed _ CS
  | callbr CS dests => exact hook_count_made _ CS

end PreStats

/-- Hooks are of no kind. -/
theorem kind?_of_isHook (hT : T.NoHooks) {CS : CallSite} (h : CS.isHook = true) :
    T.kind? CS = none := by
  unfold CallSite.isHook at h
  unfold Targets.kind?
  cases hf : CS.calledFunction with
  | none => rfl
  | some f =>
      rw [hf] at h
      obtain ⟨h₁, h₂, h₃⟩ := hT f (by simpa using h)
      simp only [Option.bind_some, h₁, h₂, h₃, if_false]

/-- Nothing is counted for the hooks that turns before have put into a block. -/
theorem block_rewriteBlock (hT : T.NoHooks) (s : PreStats) {P : List BlockId} {B : BasicBlock}
    (hP : B.id ∉ P) : s.block T (rewriteBlock T F P B) = s.block T B := by
  have hnone : ∀ l : List CallSite, (∀ CS ∈ l, T.kind? CS = none) →
      l.foldl (PreStats.placed T) s = s := by
    intro l
    induction l with
    | nil => exact fun _ => rfl
    | cons CS l ih =>
        intro h
        have hCS := h CS (List.mem_cons_self ..)
        have hsame : s.placed T CS = s := by simp [PreStats.placed, PreStats.made, hCS]
        rw [List.foldl_cons, hsame, ih fun CS' hCS' => h CS' (List.mem_cons_of_mem _ hCS')]
  have hhead : ((headHooks T F P B.id).filterMap Instruction.call?).foldl (PreStats.placed T) s =
      s := by
    refine hnone _ fun CS hCS => ?_
    obtain ⟨I, hI, hcall⟩ := List.mem_filterMap.1 hCS
    obtain ⟨CS', rfl, hhook⟩ := isHook_of_mem_headHooks hI
    obtain rfl := Option.some_inj.1 hcall
    exact kind?_of_isHook hT hhook
  unfold PreStats.block rewriteBlock
  simp only [hP, if_false, List.filterMap_append, List.foldl_append, hhead]

/-- **The loop with counters**, after some turns. -/
theorem foldlM_hookBlockStats (hT : T.NoHooks) (hF : F.Source) {Q : List BlockId} :
    ∀ {P : List BlockId} {s : PreStats} {r : Function × PreStats}, (P ++ Q).Nodup → Q ⊆ F.ids →
      Q.foldlM (hookBlockStats T names) (rewriteFunction T names F P, s) = some r →
        r.2 = (Q.filterMap F.block?).foldl (PreStats.block T) s := by
  induction Q with
  | nil =>
      intro P s r _ _ h
      rw [← Option.some_inj.1 h]
      rfl
  | cons b Q ih =>
      intro P s r hQ hmem h
      -- the block is there as the turns before have left it, and they have added hooks only
      obtain ⟨B, hB, rfl⟩ := List.mem_map.1 (hmem (List.mem_cons_self ..))
      have hassoc : P ++ B.id :: Q = P ++ [B.id] ++ Q := by simp
      have hP : B.id ∉ P := fun h =>
        (List.nodup_append.1 hQ).2.2 _ h _ (List.mem_cons_self ..) rfl
      rw [List.foldlM_cons, hookBlockStats, block?_rewriteFunction hF P hB] at h
      obtain ⟨r₁, h₁, h⟩ := Option.bind_eq_some_iff.1 h
      rw [Option.bind_eq_bind, Option.bind_some] at h₁
      obtain ⟨G, hG, h₁⟩ := Option.bind_eq_some_iff.1 h₁
      obtain ⟨-, rfl⟩ := (hookBlock_rewriteFunction hT hF hB hP).1 hG
      obtain rfl := Option.some_inj.1 h₁
      rw [ih (hassoc ▸ hQ) (fun x hx => hmem (List.mem_cons_of_mem _ hx)) h,
        List.filterMap_cons_some (Function.block?_of_mem hF.nodup hB), List.foldl_cons]
      exact congrArg (List.foldl (PreStats.block T) · _) (block_rewriteBlock hT s hP)

theorem hookFunctionStats_snd (hT : T.NoHooks) (hF : F.Source) {s : PreStats}
    {r : Function × PreStats} (h : hookFunctionStats T names F s = some r) :
    r.2 = F.visitedBlocks.foldl (PreStats.block T) s := by
  unfold hookFunctionStats at h
  split_ifs at h with hdecl
  · rw [← Option.some_inj.1 h, Function.visitedBlocks, RPOT_of_isDeclaration hdecl]
    rfl
  · refine foldlM_hookBlockStats hT hF (P := []) ?_ ?_ (by rwa [rewriteFunction_nil])
    · simpa using Function.nodup_RPOT hF.succs_mem
    · exact fun b hb => Function.mem_ids_of_mem_RPOT hF.succs_mem hb

theorem hookFunctionsStats_snd (hT : T.NoHooks) {Fs : List Function}
    (hFs : ∀ F ∈ Fs, F.Source) : ∀ {s : PreStats} {r : List Function × PreStats},
      hookFunctionsStats T names Fs s = some r →
        r.2 = (Fs.flatMap Function.visitedBlocks).foldl (PreStats.block T) s := by
  induction Fs with
  | nil =>
      intro s r h
      rw [← Option.some_inj.1 h]
      rfl
  | cons F Fs ih =>
      intro s r h
      rw [hookFunctionsStats] at h
      obtain ⟨r₁, h₁, h⟩ := Option.bind_eq_some_iff.1 h
      obtain ⟨r₂, h₂, h⟩ := Option.bind_eq_some_iff.1 h
      have hF := hookFunctionStats_snd hT (hFs F (List.mem_cons_self ..)) h₁
      have hrest := ih (fun F hF => hFs F (List.mem_cons_of_mem _ hF)) h₂
      rw [← Option.some_inj.1 h, List.flatMap_cons, List.foldl_append, ← hF]
      exact hrest

end

/-- The declarations have no blocks. -/
theorem visitedBlocks_declareHooks {M : Module} (hfree : M.HookFree) :
    (declareHooks M).visitedBlocks = M.visitedBlocks := by
  have hdecl : hookDeclarations.flatMap Function.visitedBlocks = [] := by decide
  unfold Module.visitedBlocks
  rw [declareHooks_eq hfree, List.flatMap_append, hdecl, List.append_nil]

/-- **What the first pass has counted**: the calls of each kind that it has come to, and those whose
hooks it could insert. -/
theorem stats_pre {O : PreOptions} {names : InstId → String} {M M₁ : Module} {s s' : PreStats}
    (hM : M.Source) (hfree : M.HookFree)
    (h : DynUntrustedAllocPre.runStats O names M s = some (M₁, s')) :
    (∀ kind, s'.counter kind = s.counter kind +
      (M.visitedBlocks.flatMap BasicBlock.calls).countP ((O.targets M).kind? · = some kind)) ∧
    s'.hook_count = s.hook_count + (M.visitedBlocks.flatMap BasicBlock.insertable).countP
      fun CS => ((O.targets M).kind? CS).isSome := by
  have hT := noHooks_targets O hfree
  unfold DynUntrustedAllocPre.runStats at h
  obtain ⟨r, hr, h⟩ := Option.bind_eq_some_iff.1 h
  obtain ⟨-, hs⟩ := Prod.mk.inj (Option.some_inj.1 h)
  have hsnd := hookFunctionsStats_snd hT hM.declareHooks.functions hr
  rw [← Module.visitedBlocks, visitedBlocks_declareHooks hfree] at hsnd
  rw [← hs, hsnd]
  exact ⟨fun kind => foldl_countP (fun s : PreStats => s.counter kind)
    (fun s BB => PreStats.counter_block s BB kind) _ s,
    foldl_countP PreStats.hook_count PreStats.hook_count_block _ s⟩

/-! ### The hooks in the first pass and in the second one -/

section

variable {T : Targets} {names : InstId → String} {F : Function} {M : Module}

/-- A call of a kind that has the operands for it gets a hook of that kind. -/
theorem exists_hookFor_of_kind? {CS : CallSite} (hargs : (getHookInst T CS).isSome)
    {kind : HookKind} (h : T.kind? CS = some kind) :
    ∃ hook, hookFor T CS = some hook ∧ hook.calledFunction = some kind.name := by
  obtain ⟨newHook, hg⟩ := Option.isSome_iff_exists.1 hargs
  have hfor : hookFor T CS = newHook := by
    rw [hookFor, hg]
    rfl
  rw [getHookInst_eq, h] at hg
  cases kind with
  | alloc =>
      obtain ⟨size, -, hg⟩ := Option.bind_eq_some_iff.1 hg
      exact ⟨_, hfor.trans (Option.some_inj.1 hg).symm, rfl⟩
  | realloc =>
      obtain ⟨newSize, -, hg⟩ := Option.bind_eq_some_iff.1 hg
      obtain ⟨oldPtr, -, hg⟩ := Option.bind_eq_some_iff.1 hg
      obtain ⟨oldSize, -, hg⟩ := Option.bind_eq_some_iff.1 hg
      exact ⟨_, hfor.trans (Option.some_inj.1 hg).symm, rfl⟩
  | dealloc =>
      obtain ⟨ptr, -, hg⟩ := Option.bind_eq_some_iff.1 hg
      obtain ⟨size, -, hg⟩ := Option.bind_eq_some_iff.1 hg
      exact ⟨_, hfor.trans (Option.some_inj.1 hg).symm, rfl⟩

theorem HookKind.name_injective : Function.Injective HookKind.name := by
  intro k k' h
  cases k <;> cases k' <;> first | rfl | exact absurd h (by decide)

theorem HookKind.name_mem_hookNames (kind : HookKind) : kind.name ∈ hookNames := by
  cases kind <;> decide

/-- The hooks of a block are those of the calls whose hooks are inserted. -/
theorem newHooks_eq (BB : BasicBlock) : BB.newHooks T = BB.insertable.filterMap (hookFor T) := by
  unfold BasicBlock.newHooks BasicBlock.insertable BasicBlock.hookedInvoke?
  rw [List.filterMap_append]
  congr 1
  cases BB.term with
  | br dests => rfl
  | callbr CS dests => rfl
  | invoke CS normal unwind => cases h : hookFor T CS <;> simp [h]

/-- **The new hooks, by their names**, are the calls, by their kinds. -/
theorem countP_newHooks {BB : BasicBlock} (hargs : ∀ CS ∈ BB.calls, (getHookInst T CS).isSome)
    (kind : HookKind) : (BB.newHooks T).countP (fun CS => CS.calledFunction = some kind.name) =
      BB.insertable.countP (T.kind? · = some kind) := by
  rw [newHooks_eq, List.countP_filterMap]
  refine List.countP_congr fun CS hCS => ?_
  have hCS' := hargs CS (BB.calls_eq ▸ List.mem_append_left _ hCS)
  cases hk : T.kind? CS with
  | none => simp [hookFor_of_kind?_eq_none hk]
  | some kind' =>
      obtain ⟨hook, hhook, hname⟩ := exists_hookFor_of_kind? hCS' hk
      simp [hhook, hname, HookKind.name_injective.eq_iff]

theorem length_newHooks {BB : BasicBlock} (hargs : ∀ CS ∈ BB.calls, (getHookInst T CS).isSome) :
    (BB.newHooks T).length = BB.insertable.countP fun CS => (T.kind? CS).isSome := by
  rw [newHooks_eq, List.length_filterMap_eq_countP]
  refine List.countP_congr fun CS hCS => ?_
  have hCS' := hargs CS (BB.calls_eq ▸ List.mem_append_left _ hCS)
  cases hk : T.kind? CS with
  | none => simp [hookFor_of_kind?_eq_none hk]
  | some kind' =>
      obtain ⟨hook, hhook, -⟩ := exists_hookFor_of_kind? hCS' hk
      simp [hhook]

/-- **The hooks the second pass comes to in a function** are those the first one has inserted. -/
theorem filter_visited_perm (hF : F.Source) (hfree : ∀ CS ∈ F.calls, CS.isHook = false) :
    (rewriteFunction T names F F.RPOT).visited.filter CallSite.isHook ~
      F.visitedBlocks.flatMap (BasicBlock.newHooks T) := by
  have hwf : (rewriteFunction T names F F.RPOT).WellFormed := wellFormed_rewriteFunction hF
  have hnew : ∀ CS ∈ F.visitedBlocks.flatMap (BasicBlock.newHooks T), CS.isHook = true := by
    intro CS hCS
    rw [← flatMap_newHooks_RPOT] at hCS
    obtain ⟨CS₀, -, hfor⟩ := exists_of_mem_newHooks hCS
    exact (hookFor_eq_some hfor).2
  have hcalls : (rewriteFunction T names F F.RPOT).calls.filter CallSite.isHook ~
      F.visitedBlocks.flatMap (BasicBlock.newHooks T) := by
    have hnone : F.calls.filter CallSite.isHook = [] :=
      List.filter_eq_nil_iff.2 fun CS hCS => by simp [hfree CS hCS]
    have hperm := (calls_hookFunction T names hF).filter CallSite.isHook
    rw [flatMap_newHooks_RPOT, List.filter_append, List.filter_eq_self.2 hnew, hnone,
      List.nil_append] at hperm
    exact hperm
  refine List.Perm.trans ?_ hcalls
  -- no hook is in a block that the second pass does not come to
  refine (List.perm_ext_iff_of_nodup (hwf.nodup_visited.of_map _ |>.filter _)
    (hwf.calls_nodup.of_map _ |>.filter _)).2 fun CS => ?_
  rw [List.mem_filter, List.mem_filter]
  refine and_congr_left fun hhook => ⟨Function.mem_calls_of_mem_visited, fun hCS => ?_⟩
  exact mem_visited_of_isHook hF hfree hCS hhook

/-- The hooks the second pass comes to in a module. -/
theorem filter_worked_perm (hM : M.Source) (hfree : M.NoHookCalls) :
    ((hookModule T names M).worked.flatMap Function.visited).filter CallSite.isHook ~
      M.visitedBlocks.flatMap (BasicBlock.newHooks T) := by
  have hbodies : ∀ Fs : List Function,
      (Fs.filter fun F => !F.isDeclaration).flatMap Function.visited =
        Fs.flatMap Function.visited := by
    intro Fs
    induction Fs with
    | nil => rfl
    | cons F Fs ih =>
        cases hdecl : F.isDeclaration with
        | false => rw [List.filter_cons_of_pos (by simp [hdecl]), List.flatMap_cons, ih,
            List.flatMap_cons]
        | true =>
            have hnil : F.visited = [] := by
              rw [Function.visited, Function.visitedBlocks, RPOT_of_isDeclaration hdecl]
              rfl
            rw [List.filter_cons_of_neg (by simp [hdecl]), ih, List.flatMap_cons, hnil,
              List.nil_append]
  have hworked := ((hookModule T names M).worked_perm.flatMap_right Function.visited).filter
    CallSite.isHook
  rw [hbodies] at hworked
  refine hworked.trans ?_
  rw [hookModule, Module.map, List.flatMap_map, List.filter_flatMap, Module.visitedBlocks,
    List.flatMap_assoc]
  exact List.Perm.flatMap_left _ fun F hF => filter_visited_perm (hM.functions F hF)
    fun CS hCS => hfree CS (List.mem_flatMap_of_mem hF hCS)

end

/-! ### What the second pass counts -/

namespace PostStats

/-- The count of a hook. -/
def count (s : PostStats) (hook : String) : ℕ := (s.hookCountMap.lookup hook).getD 0

/-- The counters are there for all hooks. -/
def Complete (s : PostStats) : Prop := s.hookCountMap.map Prod.fst = hookNames

theorem complete_zero : zero.Complete := rfl

theorem complete_countHook {s : PostStats} (h : s.Complete) (hook : String) :
    (s.countHook hook).Complete := by
  unfold Complete countHook
  rw [← h, List.map_map]
  refine List.map_congr_left fun e _ => ?_
  rw [Function.comp_apply]
  split_ifs <;> rfl

/-- One more of a hook, in the list of counters. -/
theorem lookup_countHook_self {hook : String} {l : List (String × ℕ)} (h : hook ∈ l.map Prod.fst) :
    ((l.map fun e => if e.1 = hook then (e.1, e.2 + 1) else e).lookup hook).getD 0 =
      (l.lookup hook).getD 0 + 1 := by
  induction l with
  | nil => exact absurd h (by simp)
  | cons e l ih =>
      obtain ⟨key, n⟩ := e
      by_cases hkey : key = hook
      · simp [hkey]
      · have hrest := ih ((List.mem_cons.1 h).resolve_left (Ne.symm hkey))
        have hbeq : (hook == key) = false := by simpa using Ne.symm hkey
        simpa [hkey, List.lookup_cons, hbeq] using hrest

theorem lookup_countHook_ne {hook name : String} (hne : hook ≠ name) (l : List (String × ℕ)) :
    (l.map fun e => if e.1 = hook then (e.1, e.2 + 1) else e).lookup name = l.lookup name := by
  induction l with
  | nil => rfl
  | cons e l ih =>
      obtain ⟨key, n⟩ := e
      by_cases hkey : key = hook
      · have hbeq : (name == hook) = false := by simpa using Ne.symm hne
        simp [hkey, List.lookup_cons, hbeq, ih]
      · simp [hkey, List.lookup_cons, ih]

theorem count_countHook {s : PostStats} (h : s.Complete) {hook : String} (hmem : hook ∈ hookNames)
    (name : String) : (s.countHook hook).count name =
      s.count name + [hook].countP (· = name) := by
  unfold count countHook
  by_cases hname : hook = name
  · subst hname
    rw [lookup_countHook_self (h ▸ hmem)]
    simp
  · rw [lookup_countHook_ne hname]
    simp [hname]

/-- What is counted for a call: a hook, whatever its name. -/
theorem visitCall_eq (s : PostStats) (CS : CallSite) :
    s.visitCall CS = if CS.isHook then s.countHook (CS.calledFunction.getD "") else s := by
  have hhook : CS.isHook = (hookIndex? CS).isSome := (isSome_hookIndex? CS).symm
  unfold visitCall
  rw [hhook, hookIndex?]
  cases CS.calledFunction with
  | none => rfl
  | some hook => rfl

theorem complete_visitCall {s : PostStats} (h : s.Complete) (CS : CallSite) :
    (s.visitCall CS).Complete := by
  rw [visitCall_eq]
  split_ifs
  · exact complete_countHook h _
  · exact h

/-- **What counting some hooks does to the counters.** -/
structure Counts (s : PostStats) (hooks : List CallSite) (s' : PostStats) : Prop where
  complete : s'.Complete
  total : s'.total_hooks = s.total_hooks + hooks.length
  modified : s'.modified_inst_count = s.modified_inst_count
  count : ∀ name ∈ hookNames,
    s'.count name = s.count name + hooks.countP fun CS => CS.calledFunction = some name

theorem Counts.perm {s s' : PostStats} {hooks hooks' : List CallSite} (h : Counts s hooks s')
    (hperm : hooks ~ hooks') : Counts s hooks' s' :=
  ⟨h.complete, hperm.length_eq ▸ h.total, h.modified,
    fun name hname => hperm.countP_eq _ ▸ h.count name hname⟩

/-- **The loop of `assignLocalIDs`** counts the hooks among the calls it comes to. -/
theorem counts_visitCall (l : List CallSite) : ∀ {s : PostStats}, s.Complete →
    Counts s (l.filter CallSite.isHook) (l.foldl visitCall s) := by
  induction l with
  | nil => exact fun h => ⟨h, rfl, rfl, fun name _ => rfl⟩
  | cons CS l ih =>
      intro s h
      have hrest := ih (complete_visitCall h CS)
      -- what the turn for the first call counts, and then what the others count
      have hvisit := visitCall_eq s CS
      rw [List.foldl_cons]
      cases hhook : CS.isHook with
      | false =>
          rw [hhook, if_neg (by simp)] at hvisit
          rw [List.filter_cons_of_neg (by simp [hhook]), hvisit]
          exact hvisit ▸ hrest
      | true =>
          obtain ⟨hook, hmem, hf⟩ : ∃ hook ∈ hookNames, CS.calledFunction = some hook := by
            unfold CallSite.isHook at hhook
            cases hf : CS.calledFunction with
            | none => simp [hf] at hhook
            | some hook => exact ⟨hook, by simpa [hf] using hhook, rfl⟩
          rw [hhook, if_pos rfl, hf, Option.getD_some] at hvisit
          rw [List.filter_cons_of_pos hhook]
          refine ⟨hrest.complete, ?_, ?_, fun name hname => ?_⟩
          · rw [hrest.total, hvisit, countHook, List.length_cons]
            dsimp only
            omega
          · rw [hrest.modified, hvisit, countHook]
          · rw [hrest.count name hname, hvisit, count_countHook h hmem]
            simp only [List.countP_cons, List.countP_nil, hf, Option.some_inj]
            omega

/-- What `assignLocalIDs` counts. -/
theorem counts_assignLocalIDs {s : PostStats} (h : s.Complete) (M : Module) :
    Counts s ((M.worked.flatMap Function.visited).filter CallSite.isHook) (s.assignLocalIDs M) := by
  rw [assignLocalIDs, ← List.foldl_flatMap]
  exact counts_visitCall _ h

end PostStats

section

variable {M : Module} {L : List InstId}

/-- A call of the module whose callee there is something to replace with. -/
def Module.changes (M : Module) (i : InstId) : Bool :=
  (M.calls.find? (·.id = i)).any fun CS =>
    CS.calledFunction.any fun f => (replacement? M f).isSome

/-- Whether a call can be patched is not changed by patches of others. -/
theorem patches_patched (hnd : (M.calls.map CallSite.id).Nodup) {D : List InstId} {CS : CallSite}
    (hCS : CS ∈ M.calls) (hD : CS.id ∉ D) :
    patches ⟨[], M.map (Function.mapCalls (patchCall M D))⟩ CS.id = M.changes CS.id := by
  have hsame : patchCall M D CS = CS := if_neg hD
  have hnd' : ((M.calls.map (patchCall M D)).map CallSite.id).Nodup := by
    simpa [List.map_map, Function.comp_def] using hnd
  have hfind := find?_call hnd' (List.mem_map.2 ⟨CS, hCS, hsame⟩)
  have hcalls : (Memory.mk [] (M.map (Function.mapCalls (patchCall M D)))).calls =
      M.calls.map (patchCall M D) := Module.calls_mapCalls _ M
  rw [patches, Module.changes, hcalls, hfind, find?_call hnd hCS]
  simp only [Option.any_some,
    replacement?_map (M := M) (g := Function.mapCalls (patchCall M D)) fun F => rfl]

/-- **The patches, and how many of them there are.** -/
theorem foldlM_patchInstructionStats (hnd : (M.calls.map CallSite.id).Nodup) (L : List InstId) :
    ∀ (D : List InstId) (s : PostStats), (D ++ L).Nodup →
      (∀ i ∈ L, ∃ CS ∈ M.calls, CS.id = i ∧ CS.calledFunction.isSome) →
        L.foldlM patchInstructionStats (⟨[], M.map (Function.mapCalls (patchCall M D))⟩, s) =
          some (⟨[], M.map (Function.mapCalls (patchCall M (D ++ L)))⟩,
            { s with modified_inst_count := s.modified_inst_count + L.countP M.changes }) := by
  induction L with
  | nil => intro D s _ _; simp
  | cons i L ih =>
      intro D s hD hL
      obtain ⟨CS, hCS, rfl, hf⟩ := hL i (List.mem_cons_self ..)
      have hassoc : D ++ CS.id :: L = D ++ [CS.id] ++ L := by simp
      have hnot : CS.id ∉ D := fun h =>
        (List.nodup_append.1 hD).2.2 _ h _ (List.mem_cons_self ..) rfl
      have hturn : patchInstruction ⟨[], M.map (Function.mapCalls (patchCall M D))⟩ CS.id =
          some ⟨[], M.map (Function.mapCalls (patchCall M (D ++ [CS.id])))⟩ := by
        rw [patchInstruction_eq (by simp [earlierCalls]), patch_patchCall hnd hCS hnot hf]
        rfl
      rw [List.foldlM_cons, patchInstructionStats, hturn, patches_patched hnd hCS hnot, hassoc]
      refine (ih _ _ (hassoc ▸ hD) fun j hj => hL j (List.mem_cons_of_mem _ hj)).trans ?_
      rw [List.countP_cons]
      split_ifs
      · simp only [Option.some_inj, Prod.mk.injEq, PostStats.mk.injEq, true_and, and_true]
        omega
      · rfl

/-- Erasing the functions of the hooks counts nothing when there are no calls of them. -/
theorem foldlM_removeHookStats (l : List String) (hne : "" ∉ l) (hl : l ⊆ hookNames) :
    ∀ (M : Module) (s : PostStats), M.NoHookCalls →
      l.foldlM removeHookStats (M, s) = (l.foldlM removeHook M).map fun M' => (M', s) := by
  induction l with
  | nil => intro M s _; rfl
  | cons name l ih =>
      intro M s hM
      rw [List.mem_cons, not_or] at hne
      have hname := hl (List.mem_cons_self ..)
      have hcalls : ∀ CS ∈ M.calls, CS.calledFunction ≠ some name := fun CS hCS =>
        isHook_eq_false.1 (hM CS hCS) name hname
      have hturn : removeHook M name = some ⟨M.functions.filter fun F => F.name ∉ [name]⟩ := by
        have hsingle := foldlM_removeHook [name] (by simpa using hne.1) M
          (fun CS hCS name' hname' => List.mem_singleton.1 hname' ▸ hcalls CS hCS)
        rw [List.foldlM_cons] at hsingle
        exact (Option.bind_fun_some (removeHook M name)).symm.trans hsingle
      have hnone : M.calls.filter (fun CS => CS.calledFunction = some name) = [] :=
        List.filter_eq_nil_iff.2 fun CS hCS => by simpa using hcalls CS hCS
      have hstats : removeHookStats (M, s) name =
          some (⟨M.functions.filter fun F => F.name ∉ [name]⟩, s) := by
        simp [removeHookStats, hturn, hnone]
      have hrest : (Module.mk (M.functions.filter fun F => F.name ∉ [name])).NoHookCalls := by
        intro CS hCS
        obtain ⟨F, hF, hCS⟩ := List.mem_flatMap.1 hCS
        exact hM CS (List.mem_flatMap_of_mem (List.mem_of_mem_filter hF) hCS)
      rw [List.foldlM_cons, List.foldlM_cons, hstats, hturn]
      exact ih hne.2 (fun n hn => hl (List.mem_cons_of_mem _ hn)) _ s hrest

/-- Two counts of the same elements, by their identities and by themselves. -/
theorem countP_id {l : List CallSite} (hl : (l.map CallSite.id).Nodup) {p : InstId → Bool}
    {q : CallSite → Bool} (hL : L.Nodup) (hmem : ∀ i ∈ L, ∃ CS ∈ l, CS.id = i)
    (hq : ∀ CS ∈ l, q CS = true ↔ CS.id ∈ L ∧ p CS.id = true) : L.countP p = l.countP q := by
  have hperm : L.filter p ~ (l.filter q).map CallSite.id := by
    refine (List.perm_ext_iff_of_nodup (hL.filter p)
      ((List.filter_sublist.map CallSite.id).nodup hl)).2 fun i => ?_
    rw [List.mem_filter, List.mem_map]
    constructor
    · rintro ⟨hi, hp⟩
      obtain ⟨CS, hCS, rfl⟩ := hmem i hi
      exact ⟨CS, List.mem_filter.2 ⟨hCS, (hq CS hCS).2 ⟨hi, hp⟩⟩, rfl⟩
    · rintro ⟨CS, hCS, rfl⟩
      obtain ⟨hCS, hqCS⟩ := List.mem_filter.1 hCS
      exact (hq CS hCS).1 hqCS
  rw [List.countP_eq_length_filter, List.countP_eq_length_filter, hperm.length_eq, List.length_map]

/-- A patch changes a call when there is something to replace the callee with. -/
theorem patchCall_ne_iff (CS : CallSite) : patchCall M L CS ≠ CS ↔
    CS.id ∈ L ∧ CS.calledFunction.any fun f => (replacement? M f).isSome := by
  by_cases hL : CS.id ∈ L
  · have hpatched : patchCall M L CS = { CS with
        calledFunction := CS.calledFunction.map fun f => (replacement? M f).getD f } := if_pos hL
    rw [hpatched, and_iff_right hL]
    cases hf : CS.calledFunction with
    | none =>
        have hsame : { CS with calledFunction := none } = CS := by rw [← hf]
        simp [hsame]
    | some f =>
        have hsame : { CS with calledFunction := some f } = CS := by rw [← hf]
        cases hr : replacement? M f with
        | none => simp [hr, hsame]
        | some repl_func =>
            -- what replaces a function is another function
            have hne : repl_func ≠ f := by
              rintro rfl
              have hnone := replacement?_getD (M := M) repl_func
              rw [hr, Option.getD_some, hr] at hnone
              exact absurd hnone (by simp)
            have hchanged : ({ CS with calledFunction := some repl_func } : CallSite) ≠ CS := by
              intro heq
              have hcallee := congrArg CallSite.calledFunction heq
              rw [hf] at hcallee
              exact hne (Option.some_inj.1 hcallee)
            simpa [hr] using hchanged
  · have hsame : patchCall M L CS = CS := if_neg hL
    simp [hsame, hL]

/-- The visit changes nothing of what can be patched. -/
theorem changes_number {P : ProvsanPost} {localSlot : Function → BlockId → ℤ}
    (hnd : (M.calls.map CallSite.id).Nodup) {CS : CallSite} (hCS : CS ∈ M.calls) :
    (M.number P localSlot).changes CS.id =
      CS.calledFunction.any fun f => (replacement? M f).isSome := by
  have hpair := List.mem_map_of_mem (f := fun CS => (CS.id, CS.calledFunction)) hCS
  rw [← map_calledFunction_calls_number P localSlot M] at hpair
  obtain ⟨CS', hCS', heq⟩ := List.mem_map.1 hpair
  obtain ⟨hid, hcallee⟩ := Prod.mk.inj heq
  rw [← map_id_calls_number P localSlot M] at hnd
  rw [Module.changes, ← hid, find?_call hnd hCS', Option.any_some, hcallee]
  simp only [Module.number, replacement?_map (M := M)
    (g := fun F => numberFunction P localSlot F F.RPOT) fun F => rfl]

end

/-! ### The counters of the two passes -/

section

variable {T : Targets} {names : InstId → String} {M : Module} {P : ProvsanPost} {env : Environment}
  {localSlot : Function → BlockId → ℤ} {c : Compiler} {s : PostStats}

/-- The patches of a numbered module with its hooks; without a profile there are none. -/
theorem patchesStats_hookModule (hM : M.Source) (hfree : M.NoHookCalls) (fault_map : FaultMap)
    (s : PostStats) {L : List InstId} (hL : L = (hookModule T names M).patchCalls P fault_map) :
    (if P.MPKProfilePath = "" then
        some ((⟨[], (hookModule T names M).number P localSlot⟩ : Memory), s)
      else L.foldlM patchInstructionStats (⟨[], (hookModule T names M).number P localSlot⟩, s)) =
        some (⟨[], ((hookModule T names M).number P localSlot).map (Function.mapCalls
            (patchCall ((hookModule T names M).number P localSlot) L))⟩,
          { s with modified_inst_count := s.modified_inst_count +
              L.countP ((hookModule T names M).number P localSlot).changes }) := by
  obtain ⟨hnd, -⟩ := patchCalls_hookModule T names P hM hfree fault_map
  have hids : (((hookModule T names M).number P localSlot).calls.map CallSite.id).Nodup := by
    rw [map_id_calls_number]
    exact (wellFormed_hookModule hM).calls_nodup
  have hpatch := patch_hookModule hM hfree localSlot fault_map hL
  split_ifs with hpath
  · rw [hL, patchCalls_eq_nil hpath, Module.map_patchCall_nil]
    rfl
  · rw [if_neg hpath] at hpatch
    have hfold := foldlM_patchInstructionStats hids L [] s (by simpa [hL] using hnd)
      (exists_of_foldlM_patch hids hpatch)
    rwa [Module.map_patchCall_nil, List.nil_append] at hfold

/-- Removing the hooks of an instrumented module counts nothing: all of them have been visited. -/
theorem removeHooksStats_hookModule (hM : M.Source) (hfree : M.NoHookCalls)
    (hremove : P.RemoveHooks = true) {L : List InstId} {r : Memory × PostStats}
    (h : removeHooksStats ((hookModule T names M).hookCalls P)
      (⟨[], ((hookModule T names M).number P localSlot).map (Function.mapCalls
        (patchCall ((hookModule T names M).number P localSlot) L))⟩, s) = some r) : r.2 = s := by
  have herase := @erase_hookModule T names M P hM hfree hremove localSlot _
    (id_patchCall ((hookModule T names M).number P localSlot) L)
  have hturn : ∀ i ∈ (hookModule T names M).hookCalls P, ∀ N,
      eraseFromParent ⟨[], N⟩ i = (N.erase i).map (Memory.mk []) := fun i _ =>
    eraseFromParent_eq (by simp [earlierCalls])
  have hfold := (foldlM_memory hturn _).trans (congrArg (Option.map (Memory.mk [])) herase)
  have hcalls : ((hookModule T names M).map (stripFunction
      (patchCall ((hookModule T names M).number P localSlot) L))).NoHookCalls := by
    intro CS hCS
    obtain ⟨G', hG', hCS⟩ := List.mem_flatMap.1 hCS
    obtain ⟨G, hG, rfl⟩ := List.mem_map.1 hG'
    exact isHook_of_mem_calls_stripFunction (fun CS h => isHook_patchCall h)
      (fun C hC => isHook_term_hookModule hfree hG hC) CS hCS
  unfold removeHooksStats at h
  rw [hfold, Option.map_some, Option.bind_eq_bind, Option.bind_some,
    foldlM_removeHookStats hookNames (by decide) (fun _ h => h) _ s hcalls] at h
  cases hfunctions : hookNames.foldlM removeHook ((hookModule T names M).map (stripFunction
      (patchCall ((hookModule T names M).number P localSlot) L))) with
  | none =>
      rw [hfunctions] at h
      exact absurd h (by simp)
  | some M' =>
      rw [hfunctions, Option.map_some, Option.bind_eq_bind, Option.bind_some] at h
      rw [← Option.some_inj.1 h]

/-- The calls that are listed and can be patched are those that the patches change. -/
theorem countP_changes_hookModule (hM : M.Source) (hfree : M.NoHookCalls) (fault_map : FaultMap)
    (localSlot : Function → BlockId → ℤ) :
    ((hookModule T names M).patchCalls P fault_map).countP
        ((hookModule T names M).number P localSlot).changes =
      M.calls.countP fun CS =>
        patchCall M ((hookModule T names M).patchCalls P fault_map) CS ≠ CS := by
  obtain ⟨hnd, hcalls⟩ := patchCalls_hookModule T names P hM hfree fault_map
  refine countP_id hM.calls_nodup hnd (fun i hi => ?_) fun CS hCS => ?_
  · obtain ⟨CS, hCS, hid, -⟩ := hcalls i hi
    exact ⟨CS, hCS, hid⟩
  · have hmem : CS ∈ (hookModule T names M).calls := by
      obtain ⟨F, hF, hCS⟩ := List.mem_flatMap.1 hCS
      rw [calls_hookModule]
      exact List.mem_flatMap_of_mem hF
        ((mem_calls_rewriteFunction (hM.functions F hF)).2 (Or.inl hCS))
    have hsame : ∀ f, replacement? (hookModule T names M) f = replacement? M f :=
      replacement?_map (M := M) (g := fun F => rewriteFunction T names F F.RPOT) fun F => rfl
    rw [changes_number (wellFormed_hookModule hM).calls_nodup hmem, decide_eq_true_iff,
      patchCall_ne_iff]
    simp only [hsame]

/-- **What the second pass counts after the first one**: the hooks that have been inserted, and the
calls it changes. -/
theorem stats_post (hM : M.Source) (hfree : M.NoHookCalls)
    (h : ProvsanPost.runStats P env localSlot Compiler.fresh (hookModule T names M) .zero =
      some (c, s)) :
    ∃ s₀, PostStats.Counts .zero (M.visitedBlocks.flatMap (BasicBlock.newHooks T)) s₀ ∧
      s = { s₀ with modified_inst_count := s₀.modified_inst_count +
        M.calls.countP fun CS => patchCall M c.patchList CS ≠ CS } := by
  have hwf : (hookModule T names M).WellFormed := wellFormed_hookModule hM
  unfold ProvsanPost.runStats at h
  obtain ⟨r, hr, h⟩ := Option.bind_eq_some_iff.1 h
  obtain ⟨fault_map, hread, -, rfl⟩ := (assignLocalIDs_eq_some hwf.functions).1 hr
  dsimp only at h
  rw [patchList_visit, hookList_visit] at h
  simp only [Compiler.fresh, List.nil_append, Option.bind_eq_bind] at h
  rw [patchesStats_hookModule hM hfree fault_map _ rfl, Option.bind_some,
    countP_changes_hookModule hM hfree fault_map localSlot] at h
  have hcounts : PostStats.Counts .zero (M.visitedBlocks.flatMap (BasicBlock.newHooks T))
      (PostStats.zero.assignLocalIDs (hookModule T names M)) :=
    (PostStats.counts_assignLocalIDs PostStats.complete_zero (hookModule T names M)).perm
      (filter_worked_perm hM hfree)
  refine ⟨_, hcounts, ?_⟩
  obtain ⟨⟨mem, s'⟩, hremoved, h⟩ := Option.bind_eq_some_iff.1 h
  obtain ⟨rfl, rfl⟩ := Prod.mk.inj (Option.some_inj.1 h)
  cases hremove : P.RemoveHooks with
  | true =>
      rw [hremove, if_pos rfl] at hremoved
      exact removeHooksStats_hookModule hM hfree hremove hremoved
  | false =>
      rw [hremove, if_neg (by simp)] at hremoved
      exact (Prod.mk.inj (Option.some_inj.1 hremoved)).2.symm

/-- **What the counters of the two passes are to each other**, when the second one runs on what the
first one has made of `M`, and lists the calls `L` to be patched.

The second pass comes to as many hooks as the first one has inserted.  By the kinds they differ by
the hooks that the first one has made and not inserted.  The calls that are counted as modified are
those that the patches change. -/
structure StatsAgree (T : Targets) (M : Module) (L : List InstId) (pre : PreStats)
    (post : PostStats) : Prop where
  total : post.total_hooks = pre.hook_count
  kinds : ∀ kind, pre.counter kind = post.count kind.name +
    (M.visitedBlocks.flatMap BasicBlock.jumps).countP (T.kind? · = some kind)
  modified : post.modified_inst_count = M.calls.countP fun CS => patchCall M L CS ≠ CS

/-- A count over blocks that agrees in each of them. -/
theorem countP_flatMap_congr {α β : Type} {l : List BasicBlock} {f : BasicBlock → List α}
    {g : BasicBlock → List β} {p : α → Bool} {q : β → Bool}
    (h : ∀ BB ∈ l, (f BB).countP p = (g BB).countP q) :
    (l.flatMap f).countP p = (l.flatMap g).countP q := by
  induction l with
  | nil => rfl
  | cons BB l ih =>
      rw [List.flatMap_cons, List.flatMap_cons, List.countP_append, List.countP_append,
        h BB (List.mem_cons_self ..), ih fun BB hBB => h BB (List.mem_cons_of_mem _ hBB)]

/-- The calls of blocks are those whose hooks are inserted, and the others. -/
theorem countP_calls_eq (l : List BasicBlock) (p : CallSite → Bool) :
    (l.flatMap BasicBlock.calls).countP p =
      (l.flatMap BasicBlock.insertable).countP p + (l.flatMap BasicBlock.jumps).countP p := by
  induction l with
  | nil => rfl
  | cons BB l ih =>
      simp only [List.flatMap_cons, List.countP_append, ih, BB.calls_eq]
      omega

/-- **The two passes count the same hooks.** -/
theorem statistics_agree (O : PreOptions) (names : InstId → String) (P : ProvsanPost)
    (env : Environment) (localSlot : Function → BlockId → ℤ) (M M₁ : Module) (c : Compiler)
    (pre : PreStats) (post : PostStats) (hM : M.Source) (hfree : M.HookFree)
    (hpre : DynUntrustedAllocPre.runStats O names M .zero = some (M₁, pre))
    (hpost : ProvsanPost.runStats P env localSlot Compiler.fresh M₁ .zero = some (c, post)) :
    StatsAgree (O.targets M) M c.patchList pre post := by
  obtain ⟨hcounter, hhooks⟩ := stats_pre hM hfree hpre
  have hrun : DynUntrustedAllocPre.run O names M = some M₁ := by
    rw [← map_fst_runStats_pre O names M .zero, hpre, Option.map_some]
  obtain ⟨hookable, rfl⟩ := (run_pre hM (noHooks_targets O hfree)).1 hrun
  obtain ⟨s₀, hcounts, rfl⟩ := stats_post hM.declareHooks
    (Module.NoHookCalls.declareHooks hfree.calls) hpost
  rw [visitedBlocks_declareHooks hfree] at hcounts
  -- the calls that the first pass comes to have the operands for their hooks
  have hargs : ∀ BB ∈ M.visitedBlocks, ∀ CS ∈ BB.calls, (getHookInst (O.targets M) CS).isSome := by
    intro BB hBB CS hCS
    obtain ⟨F, hF, hBB⟩ := List.mem_flatMap.1 hBB
    obtain ⟨b, hb, hblock⟩ := List.mem_filterMap.1 hBB
    refine hookable F hF BB (Function.mem_of_block? hblock) ?_ CS hCS
    exact Function.id_of_block? hblock ▸ hb
  refine ⟨?_, fun kind => ?_, ?_⟩
  · have hlength : (M.visitedBlocks.flatMap (BasicBlock.newHooks (O.targets M))).length =
        (M.visitedBlocks.flatMap BasicBlock.insertable).countP
          fun CS => ((O.targets M).kind? CS).isSome := by
      rw [← List.countP_true]
      exact countP_flatMap_congr fun BB hBB => by
        rw [List.countP_true, length_newHooks (hargs BB hBB)]
    rw [hhooks, ← hlength]
    exact hcounts.total
  · have hcount := hcounts.count kind.name (HookKind.name_mem_hookNames kind)
    rw [countP_flatMap_congr fun BB hBB => countP_newHooks (hargs BB hBB) kind] at hcount
    have hcalls := countP_calls_eq M.visitedBlocks ((O.targets M).kind? · = some kind)
    have hzero : PreStats.zero.counter kind = PostStats.zero.count kind.name := by
      cases kind <;> rfl
    rw [hcounter kind, hcalls, hzero, ← Nat.add_assoc, ← hcount]
    rfl
  · rw [hcounts.modified, calls_declareHooks, patchCall_declareHooks]
    exact Nat.zero_add _

/-- A module with an allocation that is listed. -/
theorem statistics_agree_sample : ∃ M₁ pre c post,
    DynUntrustedAllocPre.runStats sampleOptions (fun _ => "") sampleModule .zero = some (M₁, pre) ∧
      ProvsanPost.runStats ⟨"p.json", true⟩ (profileOf siteText) (fun _ _ => 0) Compiler.fresh M₁
        .zero = some (c, post) ∧ 0 < post.modified_inst_count ∧
          StatsAgree (sampleOptions.targets sampleModule) sampleModule c.patchList pre post := by
  obtain ⟨⟨M₁, pre⟩, hpre⟩ : ∃ r, DynUntrustedAllocPre.runStats sampleOptions (fun _ => "")
    sampleModule .zero = some r := Option.isSome_iff_exists.1 (by decide)
  have hruns : ∀ r ∈ DynUntrustedAllocPre.runStats sampleOptions (fun _ => "") sampleModule .zero,
      (ProvsanPost.runStats ⟨"p.json", true⟩ (profileOf siteText) (fun _ _ => 0) Compiler.fresh r.1
        .zero).any fun r' => 0 < r'.2.modified_inst_count := by decide
  obtain ⟨⟨c, post⟩, hpost, hpos⟩ := (Option.any_eq_true _ _).1 (hruns _ hpre)
  exact ⟨M₁, pre, c, post, hpre, hpost, by simpa using hpos,
    statistics_agree sampleOptions (fun _ => "") ⟨"p.json", true⟩ (profileOf siteText)
      (fun _ _ => 0) sampleModule M₁ c pre post sampleModule_source sampleModule_hookFree hpre
        hpost⟩

end

end Provsan
