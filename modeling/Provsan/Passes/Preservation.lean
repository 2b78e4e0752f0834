/-
**No execution is lost.**

The executions of an instrumented function are executions of the source with hooks in them; here
are the converse and what follows for the builds.  Whatever the source can do the instrumented
function can do, past the hooks that are due; and what the second pass makes of it, with the hooks
or without them, executes as the source does with its calls patched.

Main definitions:

* `Provsan.Answers` — the rewritten function can do at once what the source can do.

Main results:

* `Provsan.Sim.exists_answers` — wherever the rewritten function stands, it comes to answer the
  source without doing anything else;
* `Provsan.alike_rewriteFunction` — **the rewritten function and the source execute alike**;
* `Provsan.hookFunctions_executesAs` — so do the functions of a module after the first pass;
* `Provsan.builds_executeAs` — **both builds execute as the patched source does**.
-/

import Provsan.Passes.Equivalence
import Provsan.Passes.Removal

set_option relaxedAutoImplicit false
set_option autoImplicit false

namespace Provsan

/-! ### The steps of the source -/

/-- An event says where it leads to, unless it is a jump. -/
theorem Terminator.Step.unique {term : Terminator} {b : BlockId} {e : PathEvent} {s s' : Control}
    (he : ∀ cs, e ≠ .jumped cs) (h : term.Step b e s) (h' : term.Step b e s') : s = s' := by
  cases h with
  | callbr => exact absurd rfl (he _)
  | branch | exit | invoke | unwind =>
      cases h'
      rfl

theorem Function.Step.unique {F : Function} {s s₁ s₂ : Control} {e : PathEvent}
    (he : ∀ cs, e ≠ .jumped cs) (h : F.Step s e s₁) (h' : F.Step s e s₂) : s₁ = s₂ := by
  cases h with
  | enter hblock =>
      generalize hev : PathEvent.enter _ _ = e' at h'
      cases h' with
      | enter hblock' =>
          rw [Option.some_inj.1 (hblock.symm.trans hblock')]
  | inst | call | unwind =>
      cases h'
      rfl
  | term hblock hterm =>
      cases h' with
      | term hblock' hterm' =>
          obtain rfl := Option.some_inj.1 (hblock.symm.trans hblock')
          exact hterm.unique he hterm'

section

variable {T : Targets} {names : InstId → String} {F : Function}

/-- What the source does is its own. -/
theorem Sim.ofPass_eq_false (hF : F.Source) {s s₀ s₀' : Control} {due : Option CallSite}
    {e : PathEvent} (hsim : Sim T F s s₀ due) (h : F.Step s₀ e s₀') : e.ofPass = false := by
  have hcall : ∀ B ∈ F.blocks, ∀ cs ∈ B.calls, (PathEvent.returned cs).ofPass = false := by
    intro B hB cs hcs
    obtain ⟨n, hn⟩ := hF.calls_src cs (List.mem_flatMap_of_mem hB hcs)
    simp [PathEvent.ofPass, hn, InstId.isHook]
  have henter : ∀ pred b, F.Step (.entering pred b) e s₀' → e.ofPass = false := by
    intro pred b h
    cases h with
    | @enter _ _ BB hblock =>
        obtain ⟨n, hn⟩ := hF.ids_src BB (Function.mem_of_block? hblock)
        rw [Function.id_of_block? hblock] at hn
        simp [PathEvent.ofPass, hn, BlockId.isSplit]
  cases hsim with
  | @inside B rest due hB hR hrest hdue =>
      generalize hid : B.id = b at h
      cases h with
      | inst | unwind => rfl
      | @call _ cs rest =>
          exact hcall B hB cs (mem_calls_of_suffix hrest)
      | term hblock hterm =>
          subst hid
          rw [Function.block?_of_mem hF.nodup hB] at hblock
          obtain rfl := Option.some_inj.1 hblock
          obtain ⟨n, hn⟩ := hF.ids_src B hB
          have hmem : ∀ cs ∈ B.term.call?, cs ∈ B.calls := fun cs hcs => by
            simp [BasicBlock.calls, Option.mem_toList.2 hcs]
          generalize B.term = term at hterm hmem
          cases hterm with
          | branch => simp [PathEvent.ofPass, hn, BlockId.isSplit]
          | invoke => exact hcall B hB _ (hmem _ rfl)
          | exit | unwind | callbr => rfl
  | entering | toSplit | inSplit => exact henter _ _ h
  | done => cases h

/-! ### The rewritten function answers -/

/-- The rewritten function can do at once what the source can do. -/
def Answers (T : Targets) (names : InstId → String) (F : Function) (s s₀ : Control) : Prop :=
  ∀ e s₀', F.Step s₀ e s₀' →
    ∃ s' due, (rewriteFunction T names F F.RPOT).Step s e s' ∧ Sim T F s' s₀' due

/-- What is the same event of both leads to where both stand alike. -/
theorem Sim.of_steps (hF : F.Source)
    (hargs : ∀ B ∈ F.blocks, B.id ∈ F.RPOT → ∀ cs ∈ B.calls, T.EnoughArgs cs)
    {s s' s₀ s₀' : Control} {due : Option CallSite} {e : PathEvent} (hsim : Sim T F s s₀ due)
    (he : ∀ cs, e ≠ .jumped cs) (h : (rewriteFunction T names F F.RPOT).Step s e s')
    (h₀ : F.Step s₀ e s₀') :
    ∃ s' due, (rewriteFunction T names F F.RPOT).Step s e s' ∧ Sim T F s' s₀' due := by
  obtain ⟨s₁, due', -, hsim', hstep⟩ := hsim.step hF hargs h
  rw [hsim.ofPass_eq_false hF h₀] at hstep
  obtain rfl := Function.Step.unique he h₀ hstep
  exact ⟨s', due', h, hsim'⟩

/-- The terminator of a block can do what it could do. -/
theorem exists_rewriteTerm_step {B : BasicBlock} {e : PathEvent} {s : Control}
    (h : B.term.Step B.id e s) : ∃ s', (rewriteTerm T F B).Step B.id e s' := by
  unfold rewriteTerm
  cases hs : splitInvoke? T F B with
  | none => exact ⟨s, h⟩
  | some e' =>
      obtain ⟨unwind, hterm, -⟩ := hookedInvoke?_eq_some.1 (splitInvoke?_eq_some.1 hs).1
      rw [hterm] at h ⊢
      cases h with
      | invoke => exact ⟨_, .invoke⟩
      | unwind hno => exact ⟨_, .unwind hno⟩

/-- **Inside a block**, when no hook is due. -/
theorem answers_inside (hF : F.Source)
    (hargs : ∀ B ∈ F.blocks, B.id ∈ F.RPOT → ∀ cs ∈ B.calls, T.EnoughArgs cs) {B : BasicBlock}
    (hB : B ∈ F.blocks) (hR : B.id ∈ F.RPOT) {rest : List Instruction} (hrest : rest <:+ B.body) :
    Answers T names F (.inside B.id (rest.flatMap (hooked T))) (.inside B.id rest) := by
  intro e s₀' h₀
  have hsim : Sim T F (.inside B.id (rest.flatMap (hooked T))) (.inside B.id rest) none :=
    .inside hB hR hrest due_none
  have hfound := @block?_rewriteFunction T names F hF F.RPOT _ hB
  cases h₀ with
  | inst => exact hsim.of_steps hF hargs (by simp) .inst .inst
  | call => exact hsim.of_steps hF hargs (by simp) .call .call
  | unwind hno => exact hsim.of_steps hF hargs (by simp) (.unwind hno) (.unwind hno)
  | term hblock hterm =>
      rw [Function.block?_of_mem hF.nodup hB] at hblock
      obtain rfl := Option.some_inj.1 hblock
      obtain ⟨s', hterm'⟩ := exists_rewriteTerm_step (T := T) (F := F) hterm
      have hstep : ∀ s', (rewriteTerm T F B).Step B.id e s' →
          (rewriteFunction T names F F.RPOT).Step (.inside B.id []) e s' := fun s' h =>
        .term hfound (by simpa [rewriteBlock, hR] using h)
      by_cases hjump : ∃ cs, e = .jumped cs
      · -- a jump does not say where it leads to, but its edges are as they were
        obtain ⟨cs, rfl⟩ := hjump
        generalize hB' : B.term = term at hterm
        cases hterm with
        | @callbr _ dests d hd =>
            have hnone : B.hookedInvoke? T = none := by simp [BasicBlock.hookedInvoke?, hB']
            have hsame : rewriteTerm T F B = B.term := by
              rw [rewriteTerm, splitInvoke?, hnone, Option.filter_none]
            have hedge : d ∈ B.term.succs := by simpa [hB', Terminator.succs] using hd
            refine ⟨_, none, hstep _ ?_, sim_edge hF hB hR hedge (by simp [hnone])⟩
            rw [hsame, hB']
            exact .callbr hd
      · exact hsim.of_steps hF hargs (fun cs hcs => hjump ⟨cs, hcs⟩) (hstep s' hterm')
          (.term (Function.block?_of_mem hF.nodup hB) hterm)

/-- **On an edge.** -/
theorem answers_entering (hF : F.Source)
    (hargs : ∀ B ∈ F.blocks, B.id ∈ F.RPOT → ∀ cs ∈ B.calls, T.EnoughArgs cs)
    {B D : BasicBlock} {due : Option CallSite} (hB : B ∈ F.blocks) (hD : D ∈ F.blocks)
    (hDR : D.id ∈ F.RPOT) (hhead : headHooks T F F.RPOT D.id = dueHooks T due) (hdue : Due T due) :
    Answers T names F (.entering (via T F F.RPOT D.id B.id) D.id) (.entering B.id D.id) := by
  intro e s₀' h₀
  have hsim : Sim T F _ _ due := .entering hB hD hDR hhead hdue
  have hfound := @block?_rewriteFunction T names F hF F.RPOT _ hD
  cases h₀ with
  | enter hblock =>
      rw [Function.block?_of_mem hF.nodup hD] at hblock
      obtain rfl := Option.some_inj.1 hblock
      have henter : (rewriteFunction T names F F.RPOT).Step
          (.entering (via T F F.RPOT D.id B.id) D.id) (.enter D.id (D.phiValues B.id))
            (.inside D.id (rewriteBlock T F F.RPOT D).body) := by
        rw [← phiValues_rewriteBlock hF hB hD]
        exact .enter hfound
      exact hsim.of_steps hF hargs (by simp) henter
        (.enter (Function.block?_of_mem hF.nodup hD))

/-- A hook that is due runs. -/
theorem observes_due {due : Option CallSite} (hdue : Due T due) (b : BlockId)
    (rest : List Instruction) {G : Function} :
    Observes G.Step PathEvent.source? (.inside b (dueHooks T due ++ rest)) [] (.inside b rest) := by
  cases due with
  | none => exact .nil _
  | some cs =>
      obtain ⟨hook, hhook, -⟩ := hdue cs rfl
      have hlist : dueHooks T (some cs) = [.call hook] := by simp [dueHooks, hhook]
      rw [hlist, List.singleton_append]
      refine .of_none ?_ .call
      simp [PathEvent.source?, PathEvent.ofPass, (hookFor_eq_some hhook).1, InstId.isHook]

/-- From the block on a split edge. -/
theorem exists_answers_inSplit (hF : F.Source)
    (hargs : ∀ B ∈ F.blocks, B.id ∈ F.RPOT → ∀ cs ∈ B.calls, T.EnoughArgs cs)
    {B : BasicBlock} {e : HookedInvoke} {due : Option CallSite} (hB : B ∈ F.blocks)
    (hR : B.id ∈ F.RPOT) (hs : splitInvoke? T F B = some e) (hdue : Due T due) :
    ∃ s, Observes (rewriteFunction T names F F.RPOT).Step PathEvent.source?
      (.inside (.splitOf e.cs.id) (dueHooks T due)) [] s ∧
        Answers T names F s (.entering B.id e.normal) := by
  obtain ⟨he, hshared⟩ := splitInvoke?_eq_some.1 hs
  obtain ⟨unwind, hterm, -⟩ := hookedInvoke?_eq_some.1 he
  have hnormal : e.normal ∈ B.term.succs := by simp [hterm, Terminator.succs]
  obtain ⟨D, hD, hid, hDR⟩ := exists_of_mem_succs_of_mem_RPOT hF hB hR hnormal
  have hhead : headHooks T F F.RPOT D.id = dueHooks T none := by
    rw [hid, headHooks_of_mem_succs hF hB hR hnormal, if_pos hshared]
    rfl
  have hvia : via T F F.RPOT D.id B.id = .splitOf e.cs.id := by
    rw [hid, via_of_mem hF hB hR, hs]
    exact if_pos rfl
  have hanswers := @answers_entering T names F hF hargs _ _ _ hB hD (hid ▸ hDR) hhead due_none
  rw [hvia, hid] at hanswers
  refine ⟨_, ?_, hanswers⟩
  have hhooks := observes_due (G := rewriteFunction T names F F.RPOT) hdue (.splitOf e.cs.id) []
  rw [List.append_nil] at hhooks
  refine hhooks.append (.of_none ?_ (.term (block?_splitBlock hF hB hR hs)
    (.branch (List.mem_singleton_self _))))
  simp [PathEvent.source?, PathEvent.ofPass, BlockId.isSplit]

/-- **Wherever it stands, the rewritten function comes to answer the source** without doing anything
else. -/
theorem Sim.exists_answers (hF : F.Source)
    (hargs : ∀ B ∈ F.blocks, B.id ∈ F.RPOT → ∀ cs ∈ B.calls, T.EnoughArgs cs)
    {s s₀ : Control} {due : Option CallSite} (hsim : Sim T F s s₀ due) :
    ∃ s₁, Observes (rewriteFunction T names F F.RPOT).Step PathEvent.source? s [] s₁ ∧
      Answers T names F s₁ s₀ := by
  cases hsim with
  | inside hB hR hrest hdue =>
      exact ⟨_, observes_due hdue _ _, answers_inside hF hargs hB hR hrest⟩
  | entering hB hD hDR hhead hdue =>
      exact ⟨_, .nil _, answers_entering hF hargs hB hD hDR hhead hdue⟩
  | @toSplit B e hB hR hs hdue =>
      obtain ⟨-, -, hhook⟩ := hookedInvoke?_eq_some.1 (splitInvoke?_eq_some.1 hs).1
      have hbody : (splitBlock names e).body = dueHooks T (some e.cs) := by
        simp [splitBlock, dueHooks, hhook]
      obtain ⟨s₁, hobs, hanswers⟩ := @exists_answers_inSplit T names F hF hargs _ _ _ hB hR hs hdue
      refine ⟨s₁, .append (.of_none ?_ (.enter (block?_splitBlock hF hB hR hs))) ?_, hanswers⟩
      · simp [PathEvent.source?, PathEvent.ofPass, BlockId.isSplit]
      · rwa [hbody]
  | inSplit hB hR hs hdue => exact exists_answers_inSplit hF hargs hB hR hs hdue
  | done =>
      refine ⟨_, .nil _, fun e s₀' h => ?_⟩
      cases h

/-- **The rewritten function and the source execute alike.** -/
theorem alike_rewriteFunction (hF : F.Source)
    (hargs : ∀ B ∈ F.blocks, B.id ∈ F.RPOT → ∀ cs ∈ B.calls, T.EnoughArgs cs) :
    Alike F some (rewriteFunction T names F F.RPOT) PathEvent.source?
      fun s₀ s => ∃ due, Sim T F s s₀ due where
  forth := by
    rintro s₀ s e s₀' ⟨due, hsim⟩ h₀
    obtain ⟨s₁, hobs, hanswers⟩ := @Sim.exists_answers T names F hF hargs _ _ _ hsim
    obtain ⟨s', due', hstep, hsim'⟩ := hanswers e s₀' h₀
    have hown : e.source? = some e := by simp [PathEvent.source?, hsim.ofPass_eq_false hF h₀]
    exact ⟨s', hobs.append (.of_some hown hstep), due', hsim'⟩
  back := by
    rintro s s₀ e s' ⟨due, hsim⟩ h
    obtain ⟨s₀', due', -, hsim', hstep⟩ := hsim.step hF hargs h
    refine ⟨s₀', ?_, due', hsim'⟩
    cases he : e.ofPass with
    | true =>
        rw [he] at hstep
        obtain rfl := hstep
        simpa [PathEvent.source?, he] using Observes.nil s₀'
    | false =>
        rw [he] at hstep
        simpa [PathEvent.source?, he] using @Observes.single _ _ _ _ some _ _ _ hstep
  start := by
    rw [head?_rewriteFunction]
    cases hentry : F.blocks.head? with
    | none => exact .none
    | some entry => exact .some ⟨none, sim_start hF hentry⟩
  done := by
    rintro s₀ s ⟨due, hsim⟩
    cases hsim <;> simp

/-! ### Functions with their calls patched -/

/-- A function with other calls, and what is observed of the function without them. -/
theorem alike_mapCalls {patch : CallSite → CallSite} (hnd : F.ids.Nodup)
    (hfree : ∀ cs ∈ F.calls, cs.isHook = false)
    (hpatch : ∀ cs : CallSite, cs.isHook = false → (patch cs).isHook = false) :
    Alike F (fun e => some (e.mapCall patch)) (F.mapCalls patch) some
      (Retellable.Rel (fun _ => false) (fun _ => patch) F) := by
  have hno : ∀ BB ∈ F.blocks, ∀ cs ∈ BB.calls, cs.isHook = false := fun BB hBB cs hcs =>
    hfree cs (List.mem_flatMap_of_mem hBB hcs)
  have hretell : F.mapCalls patch = F.retell (fun _ => false) fun _ => patch := by
    simp [Function.mapCalls, Function.retell, BasicBlock.mapCalls, BasicBlock.retell, retell]
  rw [hretell]
  refine Retellable.alike ⟨hnd, by simp, by simp, ?_, ?_, ?_, ?_, ?_⟩
  · intro BB hBB cs hcs
    exact hno BB hBB cs (by simp [BasicBlock.calls, Option.mem_toList.2 hcs])
  · intro BB hBB cs hcs _
    rw [hno BB hBB cs hcs, hpatch cs (hno BB hBB cs hcs)]
  · exact fun _ _ _ _ _ => rfl
  · exact fun _ _ _ _ _ => ⟨rfl, rfl⟩
  · exact fun e he => congrArg some (he patch)

/-- The hooks of the rewritten function are the pass's own. -/
theorem isHook_id_rewriteFunction (hF : F.Source) (hfree : ∀ cs ∈ F.calls, cs.isHook = false)
    {cs : CallSite} (hcs : cs ∈ (rewriteFunction T names F F.RPOT).calls) :
    cs.id.isHook = cs.isHook := by
  rcases (mem_calls_rewriteFunction hF).1 hcs with hcs | hcs
  · obtain ⟨n, hn⟩ := hF.calls_src cs hcs
    rw [hn, hfree cs hcs]
    rfl
  · obtain ⟨CS, -, hfor⟩ := exists_of_mem_newHooks hcs
    obtain ⟨hid, hhook⟩ := hookFor_eq_some hfor
    rw [hid, hhook]
    rfl

/-- **A rewritten function retold** executes as the source with its calls patched does: its hooks
may have been left out, or have other arguments. -/
theorem executesAs_retell (hF : F.Source) (hfree : ∀ cs ∈ F.calls, cs.isHook = false)
    (hargs : ∀ cs ∈ F.calls, T.EnoughArgs cs) {patch : CallSite → CallSite}
    (hpatch : ∀ cs : CallSite, cs.isHook = false → (patch cs).isHook = false)
    (hid : ∀ cs, (patch cs).id = cs.id) {drop : CallSite → Bool}
    {f : BasicBlock → CallSite → CallSite} (hdrop : ∀ cs, drop cs = true → cs.isHook = true)
    (hkeep : ∀ BB cs, cs.isHook = false → f BB cs = patch cs)
    (hhook : ∀ BB cs, cs.isHook = true → drop cs = false →
      (f BB cs).isHook = true ∧ (f BB cs).id = cs.id) :
    ExecutesAs (F.mapCalls patch) ((rewriteFunction T names F F.RPOT).retell drop f) := by
  have hown : ∀ BB ∈ (rewriteFunction T names F F.RPOT).blocks, ∀ cs ∈ BB.calls,
      cs.id.isHook = cs.isHook := fun BB hBB cs hcs =>
    isHook_id_rewriteFunction hF hfree (List.mem_flatMap_of_mem hBB hcs)
  have hretellable : Retellable drop f (rewriteFunction T names F F.RPOT)
      (fun e => e.source?.bind fun e => some (e.mapCall patch)) PathEvent.source? := by
    refine ⟨nodup_rewriteFunction hF _, hdrop, ?_, ?_, ?_, ?_, ?_, ?_⟩
    · intro BB hBB cs hcs hd
      simp [PathEvent.source?, PathEvent.ofPass, hown BB hBB cs hcs, hdrop cs hd]
    · exact fun BB hBB cs hcs => isHook_term_rewriteFunction hfree hBB cs hcs
    · intro BB hBB cs hcs hd
      cases hh : cs.isHook with
      | true => exact (hhook BB cs hh hd).1
      | false => rw [hkeep BB cs hh, hpatch cs hh]
    · intro BB hBB cs hcs hd
      have hcs' := hown BB hBB cs hcs
      cases hh : cs.isHook with
      | true =>
          simp [PathEvent.source?, PathEvent.ofPass, hcs', hh, (hhook BB cs hh hd).2]
      | false =>
          simp [PathEvent.source?, PathEvent.ofPass, hcs', hh, hkeep BB cs hh, hid,
            PathEvent.mapCall]
    · intro BB hBB cs hcs hh
      rw [hkeep BB cs hh]
      exact ⟨rfl, rfl⟩
    · intro e he
      unfold PathEvent.source?
      split_ifs
      · rfl
      · exact congrArg some (he patch)
  have hargs' : ∀ B ∈ F.blocks, B.id ∈ F.RPOT → ∀ cs ∈ B.calls, T.EnoughArgs cs :=
    fun B hB _ cs hcs => hargs cs (List.mem_flatMap_of_mem hB hcs)
  have hrewrite := (@alike_rewriteFunction T names _ hF hargs').bind fun e =>
    some (e.mapCall patch)
  exact ((alike_mapCalls hF.nodup hfree hpatch).symm.trans
    (hrewrite.trans hretellable.alike)).executesAs

end

/-! ### Modules -/

/-- **The first pass loses no execution and adds none but its own events.** -/
theorem hookFunctions_executesAs (T : Targets) (names : InstId → String) (M : Module)
    (hT : T.NoHooks) (hM : ∀ F ∈ M.functions, F.Source)
    (hargs : ∀ F ∈ M.functions, ∀ cs ∈ F.calls, T.EnoughArgs cs) :
    ∃ M', hookFunctions T names M = some M' ∧
      List.Forall₂ ExecutesAs M.functions M'.functions := by
  have hfun : ∀ F ∈ M.functions, ∃ G, hookFunction T names F = some G ∧ ExecutesAs F G := by
    intro F hF
    have hargs' : ∀ B ∈ F.blocks, B.id ∈ F.RPOT → ∀ cs ∈ B.calls, T.EnoughArgs cs :=
      fun B hB _ cs hcs => hargs F hF cs (List.mem_flatMap_of_mem hB hcs)
    refine ⟨_, (hookFunction_eq_some hT (hM F hF)).2 ⟨fun B hB hR cs hcs => ?_, rfl⟩,
      (alike_rewriteFunction (hM F hF) hargs').executesAs⟩
    exact isSome_getHookInst (hargs' B hB hR cs hcs)
  obtain ⟨l, hl, hR⟩ := exists_mapM hfun
  exact ⟨⟨l⟩, by simp [hookFunctions, hl], hR⟩

theorem hookFunctions_executesAs_sample :
    ∃ M', hookFunctions sampleTargets (fun _ => "") ⟨[sampleFunction]⟩ = some M' ∧
      List.Forall₂ ExecutesAs [sampleFunction] M'.functions := by
  refine hookFunctions_executesAs sampleTargets (fun _ => "") ⟨[sampleFunction]⟩ (by decide) ?_ ?_
  · intro F hF
    rw [List.mem_singleton.1 hF]
    exact sampleFunction_source
  · intro F hF
    rw [List.mem_singleton.1 hF]
    decide

/-- A call of a build that keeps the hooks: numbered, when it is visited, and patched. -/
def keptCall (P : ProvsanPost) (localSlot : Function → BlockId → ℤ) (patch : CallSite → CallSite)
    (G : Function) (BB : BasicBlock) (cs : CallSite) : CallSite :=
  patch (if BB.id ∈ G.RPOT then numberCall P G (blockName G localSlot BB) cs else cs)

theorem mapCalls_numberFunction (P : ProvsanPost) (localSlot : Function → BlockId → ℤ)
    (patch : CallSite → CallSite) (G : Function) :
    (numberFunction P localSlot G G.RPOT).mapCalls patch =
      G.retell (fun _ => false) (keptCall P localSlot patch G) := by
  have hretell : ∀ BB : BasicBlock, BB.retell (fun _ => false) (keptCall P localSlot patch G) =
      BB.mapCalls (keptCall P localSlot patch G BB) := fun BB => by
    simp [BasicBlock.retell, BasicBlock.mapCalls, retell]
  simp only [numberFunction, Function.mapCalls, Function.retell, List.map_map]
  congr 1
  refine List.map_congr_left fun BB _ => ?_
  rw [Function.comp_apply, hretell]
  split_ifs with hR
  · rw [numberBlock, BasicBlock.mapCalls_mapCalls]
    exact congrArg (BasicBlock.mapCalls · BB) (funext fun cs => by rw [keptCall, if_pos hR])
  · exact congrArg (BasicBlock.mapCalls · BB) (funext fun cs => by rw [keptCall, if_neg hR])

/-- **Both builds execute as the patched source does.**  `M` has nothing of the hooks, its calls of
configured functions have the arguments their hooks need, and debug locations; the profile, if there
is one, can be read. -/
theorem builds_executeAs (O : PreOptions) (names : InstId → String) (P : ProvsanPost)
    (env : Environment) (localSlot : Function → BlockId → ℤ) (M : Module) (hM : M.Source)
    (hfree : M.HookFree) (hargs : ∀ CS ∈ M.calls, (O.targets M).EnoughArgs CS)
    (hloc : ∀ CS ∈ M.calls, ((O.targets M).kind? CS).isSome → CS.debugLoc.isSome)
    (hprofile : P.MPKProfilePath = "" ∨ ProfileObjects env P.MPKProfilePath) :
    ∃ M₁ p M₂ total, DynUntrustedAllocPre.run O names M = some M₁ ∧
      ProvsanPost.run P env localSlot Compiler.fresh M₁ = some p ∧ p.processed = [⟨M₂, total⟩] ∧
        List.Forall₂ (fun F H => ExecutesAs (F.mapCalls (patchCall M p.patchList)) H) M.functions
          (M₂.functions.filter fun F => F.name ∉ hookNames) := by
  rw [← isSome_getFaultingAllocMap, Option.isSome_iff_exists] at hprofile
  obtain ⟨fault_map, hread⟩ := hprofile
  have hcalls : (declareHooks M).NoHookCalls := Module.NoHookCalls.declareHooks hfree.calls
  have hpre : DynUntrustedAllocPre.run O names M = some _ :=
    (run_pre hM (noHooks_targets O hfree)).2 ⟨fun F hF B hB _ CS hCS => isSome_getHookInst
      (hargs CS (List.mem_flatMap_of_mem hF (List.mem_flatMap_of_mem hB hCS))), rfl⟩
  obtain ⟨p, M₂, hp, hlist, hpost, hprocessed⟩ := exists_run_hookModule (O.targets M) names
    hM.declareHooks hcalls (by rwa [calls_declareHooks]) hread localSlot
  refine ⟨_, p, M₂, _, hpre, hp, hprocessed, ?_⟩
  -- what the second pass makes of a function is the rewritten function retold
  suffices hretold : ∃ (drop : CallSite → Bool) (f : Function → BasicBlock → CallSite → CallSite),
      (∀ cs, drop cs = true → cs.isHook = true) ∧
      (∀ G BB cs, cs.isHook = false → f G BB cs = patchCall M p.patchList cs) ∧
      (∀ G BB cs, cs.isHook = true → drop cs = false →
        (f G BB cs).isHook = true ∧ (f G BB cs).id = cs.id) ∧
      M₂.functions.filter (fun F => F.name ∉ hookNames) = M.functions.map fun F =>
        (rewriteFunction (O.targets M) names F F.RPOT).retell drop
          (f (rewriteFunction (O.targets M) names F F.RPOT)) by
    obtain ⟨drop, f, hdrop, hkeep, hhook, hfunctions⟩ := hretold
    rw [hfunctions, List.forall₂_map_right_iff, List.forall₂_same]
    intro F hF
    have hmem : ∀ cs ∈ F.calls, cs ∈ M.calls := fun cs hcs => List.mem_flatMap_of_mem hF hcs
    exact executesAs_retell (hM.functions F hF) (fun cs hcs => hfree.calls cs (hmem cs hcs))
      (fun cs hcs => hargs cs (hmem cs hcs)) (fun cs hno => isHook_patchCall hno)
      (fun cs => id_patchCall M _ cs) hdrop (hkeep _) (hhook _)
  cases hremove : P.RemoveHooks with
  | true =>
      rw [post_hookModule names hM.declareHooks hcalls hremove localSlot fault_map rfl,
        ← hlist] at hpost
      obtain rfl := Option.some_inj.1 hpost
      refine ⟨CallSite.isHook, fun _ _ => patchCall M p.patchList, fun _ h => h,
        fun _ _ _ _ => rfl, fun _ _ cs hh hd => absurd (hh.symm.trans hd) (by simp), ?_⟩
      rw [patchCall_declareHooks, hookModule, Module.map_map]
      have hnames : ∀ M : Module, (M.functions.filter fun F => F.name ∉ hookNames).filter
          (fun F => F.name ∉ hookNames) = M.functions.filter fun F => F.name ∉ hookNames := by
        simp
      rw [hnames]
      exact filter_map_declareHooks hfree fun F => rfl
  | false =>
      rw [post_hookModule_of_keep names hM.declareHooks hcalls hremove localSlot fault_map,
        ← hlist] at hpost
      obtain rfl := Option.some_inj.1 hpost
      refine ⟨fun _ => false, keptCall P localSlot (patchCall M p.patchList), by simp,
        fun G BB cs hno => ?_, fun G BB cs hh _ => ?_, ?_⟩
      · rw [keptCall, numberCall_of_not_isHook hno, ite_self]
      · have hnumber : ∀ CS' : CallSite, CS'.calledFunction = cs.calledFunction → CS'.id = cs.id →
            (patchCall M p.patchList CS').isHook = true ∧
              (patchCall M p.patchList CS').id = cs.id := by
          intro CS' hcallee hid
          have hh' : CS'.isHook = true := by rwa [CallSite.isHook, hcallee]
          rw [patchCall_of_isHook hh']
          exact ⟨hh', hid⟩
        unfold keptCall
        split_ifs
        · exact hnumber _ (calledFunction_numberCall cs) (id_numberCall cs)
        · exact hnumber cs rfl rfl
      · simp only [← mapCalls_numberFunction]
        rw [patchCall_declareHooks, Module.number, hookModule, Module.map_map, Module.map_map]
        exact filter_map_declareHooks hfree fun F => rfl

/-- A report build, with a profile that lists the first allocation. -/
theorem builds_executeAs_sample : ∃ M₁ p M₂ total,
    DynUntrustedAllocPre.run sampleOptions (fun _ => "") sampleModule = some M₁ ∧
      ProvsanPost.run ⟨"p.json", true⟩ (profileOf siteText) (fun _ _ => 0) Compiler.fresh M₁ =
        some p ∧ p.processed = [⟨M₂, total⟩] ∧
          List.Forall₂ (fun F H => ExecutesAs (F.mapCalls (patchCall sampleModule p.patchList)) H)
            sampleModule.functions (M₂.functions.filter fun F => F.name ∉ hookNames) :=
  builds_executeAs sampleOptions (fun _ => "") ⟨"p.json", true⟩ (profileOf siteText) (fun _ _ => 0)
    sampleModule sampleModule_source sampleModule_hookFree (by decide) (by decide)
    (Or.inr (by decide))

end Provsan
