/-
**The calls of an instrumented module.**

What the numbering pass finds after the instrumenting pass: the calls of an instrumented function
are those of the source and their hooks, each once, and every hook stands in a block that can be
reached, also when an edge has been split for it.  So the numbering pass comes to all hooks, and
finds the arguments it sets and the calls the hooks refer to.

Main definitions:

* `Provsan.newHooks` — the hooks for the calls of a block;
* `Provsan.Module.Source`, `Provsan.Module.NoHookCalls`, `Provsan.Module.HookFree` — a module before
  the pass, without calls of hooks, and without hooks at all;
* `Provsan.hookModule` — a module with its hooks.

Main results:

* `Provsan.calls_rewriteFunction` — **the calls of an instrumented function**;
* `Provsan.mem_RPOT_rewriteFunction` — blocks that can be reached still can be;
* `Provsan.mem_visited_of_isHook` — **the numbering pass comes to every hook**;
* `Provsan.run_pre` — the instrumenting pass succeeds when the calls have enough operands;
* `Provsan.wellFormed_hookModule`, `Provsan.canVisit_hookModule` — **its result can be numbered**.
-/

import Provsan.Passes.Exec
import Provsan.Passes.Numbering

set_option relaxedAutoImplicit false
set_option autoImplicit false

namespace Provsan

open scoped List

/-! ### Calls -/

/-- The calls of a function after a change inside one of its blocks. -/
theorem calls_modify {G : Function} (hnd : G.ids.Nodup) {C : BasicBlock} (hC : C ∈ G.blocks)
    {f : BasicBlock → BasicBlock} {extra : List CallSite}
    (hf : (f C).calls.Perm (C.calls ++ extra)) :
    (G.modify C.id f).calls.Perm (G.calls ++ extra) := by
  have hblocks : ∀ l : List BasicBlock, (l.map BasicBlock.id).Nodup → C ∈ l →
      ((l.map fun BB => if BB.id = C.id then f BB else BB).flatMap BasicBlock.calls).Perm
        (l.flatMap BasicBlock.calls ++ extra) := by
    intro l
    induction l with
    | nil => exact fun _ h => absurd h (by simp)
    | cons B l ih =>
        intro hnd hmem
        rw [List.map_cons, List.nodup_cons] at hnd
        rw [List.map_cons, List.flatMap_cons, List.flatMap_cons]
        rcases List.mem_cons.1 hmem with rfl | hmem
        · -- the other blocks are different ones
          have hrest : (l.map fun BB => if BB.id = C.id then f BB else BB) = l := by
            conv_rhs => rw [← List.map_id l]
            exact List.map_congr_left fun BB hBB => if_neg fun heq : BB.id = C.id =>
              hnd.1 (heq ▸ List.mem_map_of_mem hBB)
          rw [if_pos rfl, hrest]
          calc (f C).calls ++ l.flatMap BasicBlock.calls
              _ ~ C.calls ++ extra ++ l.flatMap BasicBlock.calls := hf.append_right _
              _ ~ C.calls ++ (l.flatMap BasicBlock.calls ++ extra) := by
                rw [List.append_assoc]
                exact List.perm_append_comm.append_left _
              _ = C.calls ++ l.flatMap BasicBlock.calls ++ extra := by rw [List.append_assoc]
        · have hne : B.id ≠ C.id := fun heq => hnd.1 (heq ▸ List.mem_map_of_mem hmem)
          rw [if_neg hne, List.append_assoc]
          exact (ih hnd.2 hmem).append_left _
  exact hblocks G.blocks hnd hC

/-- Splitting an edge makes no calls. -/
theorem calls_splitEdge (G : Function) (i : InstId) (src dest : BlockId) (name : String) :
    (G.splitEdge i src dest name).calls = G.calls := by
  rw [Function.calls, Function.calls, Function.splitEdge, List.flatMap_assoc]
  refine List.flatMap_congr fun BB _ => ?_
  have hterm : (BB.term.setNormal (.splitOf i)).call? = BB.term.call? := by
    cases BB.term <;> rfl
  have hnil : (BasicBlock.mk (.splitOf i) name [] [] (.br [dest])).calls = [] := rfl
  unfold BasicBlock.splitEdge
  by_cases hsrc : BB.id = src
  · simp only [hsrc, if_true, List.flatMap_cons, List.flatMap_nil, hnil, List.append_nil]
    rw [BasicBlock.calls, BasicBlock.calls, hterm]
  · simp [hsrc, BasicBlock.calls]

/-- The hooks for the calls of a block. -/
def BasicBlock.newHooks (T : Targets) (BB : BasicBlock) : List CallSite :=
  (BB.body.filterMap Instruction.call?).filterMap (hookFor T) ++
    ((BB.hookedInvoke? T).map HookedInvoke.hook).toList

/-- The hooks for the calls of the block `b`. -/
def newHooks (T : Targets) (F : Function) (b : BlockId) : List CallSite :=
  (F.block? b).elim [] (BasicBlock.newHooks T)

section

variable {T : Targets} {names : InstId → String} {F : Function}

/-- The calls of a body with hooks. -/
theorem calls_hooked (body : List Instruction) :
    ((body.flatMap (hooked T)).filterMap Instruction.call?).Perm
      (body.filterMap Instruction.call? ++
        (body.filterMap Instruction.call?).filterMap (hookFor T)) := by
  induction body with
  | nil => exact .nil
  | cons I body ih =>
      cases I with
      | other n =>
          rw [List.flatMap_cons, List.filterMap_append, List.filterMap_cons]
          exact ih
      | call CS =>
          have hhead : (hooked T (.call CS)).filterMap Instruction.call? =
              CS :: (hookFor T CS).toList := by
            cases h : hookFor T CS <;> simp [hooked, h, Instruction.call?]
          have hcons : (CS :: body.filterMap Instruction.call?).filterMap (hookFor T) =
              (hookFor T CS).toList ++
                (body.filterMap Instruction.call?).filterMap (hookFor T) := by
            cases h : hookFor T CS <;> simp [h]
          rw [List.flatMap_cons, List.filterMap_append, hhead, List.filterMap_cons,
            Instruction.call?]
          dsimp only
          rw [hcons, List.cons_append, List.cons_append, List.perm_cons]
          calc (hookFor T CS).toList ++ (body.flatMap (hooked T)).filterMap Instruction.call?
              _ ~ (hookFor T CS).toList ++ (body.filterMap Instruction.call? ++
                  (body.filterMap Instruction.call?).filterMap (hookFor T)) := ih.append_left _
              _ ~ body.filterMap Instruction.call? ++ ((hookFor T CS).toList ++
                  (body.filterMap Instruction.call?).filterMap (hookFor T)) := by
                rw [← List.append_assoc, ← List.append_assoc]
                exact List.perm_append_comm.append_right _

/-- A block whose body gets its hooks. -/
theorem calls_hookedBody {P : List BlockId} {B : BasicBlock} (hP : B.id ∉ P) :
    ({ rewriteBlock T F P B with
        body := headHooks T F P B.id ++ B.body.flatMap (hooked T) } : BasicBlock).calls.Perm
      ((rewriteBlock T F P B).calls ++
        (B.body.filterMap Instruction.call?).filterMap (hookFor T)) := by
  have hbody : (rewriteBlock T F P B).body = headHooks T F P B.id ++ B.body := by
    simp [rewriteBlock, hP]
  unfold BasicBlock.calls
  dsimp only
  rw [hbody, List.filterMap_append, List.filterMap_append, List.append_assoc, List.append_assoc,
    List.append_assoc]
  refine List.Perm.append_left _ ?_
  calc (B.body.flatMap (hooked T)).filterMap Instruction.call? ++ _
      _ ~ B.body.filterMap Instruction.call? ++
          (B.body.filterMap Instruction.call?).filterMap (hookFor T) ++ _ :=
        (calls_hooked B.body).append_right _
      _ ~ B.body.filterMap Instruction.call? ++ (_ ++
          (B.body.filterMap Instruction.call?).filterMap (hookFor T)) := by
        rw [List.append_assoc]
        exact List.perm_append_comm.append_left _

/-- A change inside a block keeps the identities. -/
theorem ids_modify (G : Function) (b : BlockId) {f : BasicBlock → BasicBlock}
    (hf : ∀ BB, (f BB).id = BB.id) : (G.modify b f).ids = G.ids := by
  rw [Function.ids, Function.ids, Function.modify, List.map_map]
  refine List.map_congr_left fun BB _ => ?_
  rw [Function.comp_apply]
  split_ifs
  · exact hf BB
  · rfl

theorem ids_insertFront (G : Function) (d : BlockId) (hook : CallSite) :
    (G.insertFront d hook).ids = G.ids := by
  unfold Function.insertFront
  exact ids_modify G d fun _ => rfl

/-- A hook at the head of a block is one more call. -/
theorem calls_insertFront {G : Function} (hnd : G.ids.Nodup) {d : BlockId} (hd : d ∈ G.ids)
    (hook : CallSite) : (G.insertFront d hook).calls ~ G.calls ++ [hook] := by
  obtain ⟨C, hC, rfl⟩ := List.mem_map.1 hd
  refine calls_modify hnd hC ?_
  rw [BasicBlock.calls, List.filterMap_cons]
  exact (List.perm_append_singleton hook _).symm

/-- **The calls after one more turn**: those from before, and the hooks of the block. -/
theorem calls_turn (hF : F.Source) {P : List BlockId} {B : BasicBlock} (hB : B ∈ F.blocks)
    (hP : B.id ∉ P) : (rewriteFunction T names F (P ++ [B.id])).calls ~
      (rewriteFunction T names F P).calls ++ B.newHooks T := by
  have hnd : (rewriteFunction T names F P).ids.Nodup := nodup_rewriteFunction hF P
  have hmem : rewriteBlock T F P B ∈ (rewriteFunction T names F P).blocks :=
    mem_rewriteFunction.2 ⟨B, hB, Or.inl rfl⟩
  have hbody : ((rewriteFunction T names F P).modify B.id fun C => { C with
      body := headHooks T F P B.id ++ B.body.flatMap (hooked T) }).calls ~
        (rewriteFunction T names F P).calls ++
          (B.body.filterMap Instruction.call?).filterMap (hookFor T) :=
    calls_modify hnd hmem (calls_hookedBody hP)
  have hids : ((rewriteFunction T names F P).modify B.id fun C => { C with
      body := headHooks T F P B.id ++ B.body.flatMap (hooked T) }).ids =
        (rewriteFunction T names F P).ids := ids_modify _ _ fun _ => rfl
  cases he : B.hookedInvoke? T with
  | none =>
      rw [← modify_eq_rewriteFunction hF hB hP he rfl]
      simpa [BasicBlock.newHooks, he] using hbody
  | some e =>
      obtain ⟨unwind, hterm, -⟩ := hookedInvoke?_eq_some.1 he
      have hsucc : e.normal ∈ F.ids := hF.succs_mem B hB (by simp [hterm, Terminator.succs])
      obtain ⟨D, hD, hnormal⟩ := List.mem_map.1 hsucc
      have hnew : B.newHooks T =
          (B.body.filterMap Instruction.call?).filterMap (hookFor T) ++ [e.hook] := by
        simp [BasicBlock.newHooks, he]
      rw [hnew, ← List.append_assoc]
      cases hs : shared F e.normal with
      | false =>
          rw [← insertFront_eq_rewriteFunction hF hB hP he hD hnormal.symm hs rfl]
          have hdest : e.normal ∈ (rewriteFunction T names F P).ids :=
            List.mem_map.2
              ⟨rewriteBlock T F P D, mem_rewriteFunction.2 ⟨D, hD, Or.inl rfl⟩, hnormal⟩
          exact (calls_insertFront (hids ▸ hnd) (hids ▸ hdest) e.hook).trans
            (hbody.append_right [e.hook])
      | true =>
          have heq : (((rewriteFunction T names F P).modify B.id fun C => { C with
              body := headHooks T F P B.id ++ B.body.flatMap (hooked T) }).splitEdge e.cs.id B.id
                e.normal (names e.cs.id)).insertFront (.splitOf e.cs.id) e.hook =
                  rewriteFunction T names F (P ++ [B.id]) :=
            splitEdge_eq_rewriteFunction hF hB hP he hD hnormal.symm hs rfl
          have hsplitids : (((rewriteFunction T names F P).modify B.id fun C => { C with
              body := headHooks T F P B.id ++ B.body.flatMap (hooked T) }).splitEdge e.cs.id B.id
                e.normal (names e.cs.id)).ids = (rewriteFunction T names F (P ++ [B.id])).ids := by
            rw [← heq]
            exact (ids_insertFront _ _ _).symm
          have hsplit : splitInvoke? T F B = some e := splitInvoke?_eq_some.2 ⟨he, hs⟩
          have hdest : BlockId.splitOf e.cs.id ∈ (rewriteFunction T names F (P ++ [B.id])).ids :=
            List.mem_map.2 ⟨_, mem_rewriteFunction.2
              ⟨B, hB, Or.inr ⟨by simp, e, hsplit, rfl⟩⟩, rfl⟩
          have hins := calls_insertFront (hsplitids ▸ nodup_rewriteFunction hF _)
            (hsplitids ▸ hdest) e.hook
          rw [heq, calls_splitEdge] at hins
          exact hins.trans (hbody.append_right [e.hook])

/-- **The calls of a function** after some turns: those of the source and the hooks. -/
theorem calls_rewriteFunction (hF : F.Source) {P : List BlockId} (hP : P.Nodup)
    (hmem : P ⊆ F.ids) :
    (rewriteFunction T names F P).calls ~ F.calls ++ P.flatMap (newHooks T F) := by
  induction P using List.reverseRecOn with
  | nil => rw [rewriteFunction_nil, List.flatMap_nil, List.append_nil]
  | append_singleton P b ih =>
      have hPb := List.nodup_append.1 hP
      obtain ⟨B, hB, rfl⟩ :=
        List.mem_map.1 (hmem (List.mem_append_right _ (List.mem_singleton_self b)))
      have hB' : B.id ∉ P := fun h => hPb.2.2 _ h _ (List.mem_singleton_self _) rfl
      have hnew : newHooks T F B.id = B.newHooks T := by
        rw [newHooks, Function.block?_of_mem hF.nodup hB]
        rfl
      rw [List.flatMap_append, List.flatMap_singleton, hnew, ← List.append_assoc]
      exact (calls_turn hF hB hB').trans
        ((ih hPb.1 fun x hx => hmem (List.mem_append_left _ hx)).append_right _)

/-! ### Identities of calls -/

theorem Function.Source.wellFormed (hF : F.Source) : F.WellFormed :=
  ⟨hF.nodup, hF.succs_mem, hF.calls_nodup⟩

/-- The hooks for the visited blocks. -/
theorem flatMap_newHooks_RPOT :
    F.RPOT.flatMap (newHooks T F) = F.visitedBlocks.flatMap (BasicBlock.newHooks T) := by
  rw [Function.visitedBlocks]
  induction F.RPOT with
  | nil => rfl
  | cons b l ih =>
      rw [List.flatMap_cons, ih]
      cases h : F.block? b with
      | none => simp [newHooks, h]
      | some BB => simp [newHooks, h]

/-- Hooks are named after their calls. -/
theorem map_id_newHooks_sublist (BB : BasicBlock) :
    (BB.newHooks T).map CallSite.id <+ BB.calls.map fun CS => .hookOf CS.id := by
  have hplain : ∀ l : List CallSite,
      (l.filterMap (hookFor T)).map CallSite.id <+ l.map fun CS => .hookOf CS.id := by
    intro l
    induction l with
    | nil => exact .slnil
    | cons CS l ih =>
        cases h : hookFor T CS with
        | none =>
            rw [List.filterMap_cons_none h]
            exact ih.cons _
        | some hook =>
            rw [List.filterMap_cons_some h, List.map_cons, (hookFor_eq_some h).1]
            exact ih.cons_cons _
  rw [BasicBlock.newHooks, BasicBlock.calls, List.map_append, List.map_append]
  refine (hplain _).append ?_
  cases he : BB.hookedInvoke? T with
  | none => exact List.nil_sublist _
  | some e =>
      obtain ⟨unwind, hterm, hhook⟩ := hookedInvoke?_eq_some.1 he
      rw [hterm]
      simp [Terminator.call?, (hookFor_eq_some hhook).1]

theorem nodup_newHooks (hF : F.Source) :
    ((F.RPOT.flatMap (newHooks T F)).map CallSite.id).Nodup := by
  have hsub : ((F.visitedBlocks.flatMap (BasicBlock.newHooks T)).map CallSite.id) <+
      (F.visited.map CallSite.id).map InstId.hookOf := by
    rw [Function.visited, List.map_flatMap, List.map_map, List.map_flatMap]
    induction F.visitedBlocks with
    | nil => exact .slnil
    | cons BB l ih =>
        rw [List.flatMap_cons, List.flatMap_cons]
        exact (map_id_newHooks_sublist BB).append ih
  rw [flatMap_newHooks_RPOT]
  exact hsub.nodup (hF.wellFormed.nodup_visited.map fun _ _ h => InstId.hookOf.inj h)

/-- The hook of a visited block is named after a call of the function. -/
theorem exists_of_mem_newHooks {hook : CallSite} (h : hook ∈ F.RPOT.flatMap (newHooks T F)) :
    ∃ CS ∈ F.visited, hookFor T CS = some hook := by
  rw [flatMap_newHooks_RPOT] at h
  obtain ⟨BB, hBB, hhook⟩ := List.mem_flatMap.1 h
  rcases List.mem_append.1 hhook with hhook | hhook
  · obtain ⟨CS, hCS, hfor⟩ := List.mem_filterMap.1 hhook
    exact ⟨CS, List.mem_flatMap_of_mem hBB (List.mem_append_left _ hCS), hfor⟩
  · obtain ⟨e, he, rfl⟩ := Option.map_eq_some_iff.1 (Option.mem_toList.1 hhook)
    obtain ⟨unwind, hterm, hfor⟩ := hookedInvoke?_eq_some.1 he
    exact ⟨e.cs, List.mem_flatMap_of_mem hBB (mem_calls_of_hookedInvoke? he), hfor⟩

variable (T names) in
/-- The calls of a function after the pass. -/
theorem calls_hookFunction (hF : F.Source) : (rewriteFunction T names F F.RPOT).calls ~
    F.calls ++ F.RPOT.flatMap (newHooks T F) :=
  calls_rewriteFunction hF (Function.nodup_RPOT hF.succs_mem)
    fun _ hb => Function.mem_ids_of_mem_RPOT hF.succs_mem hb

/-- **The calls of an instrumented function are different.** -/
theorem nodup_calls_rewriteFunction (hF : F.Source) :
    ((rewriteFunction T names F F.RPOT).calls.map CallSite.id).Nodup := by
  rw [((calls_hookFunction T names hF).map CallSite.id).nodup_iff, List.map_append,
    List.nodup_append]
  refine ⟨hF.calls_nodup, nodup_newHooks hF, ?_⟩
  rintro i hi j hj rfl
  obtain ⟨CS, hCS, rfl⟩ := List.mem_map.1 hi
  obtain ⟨hook, hhook, heq⟩ := List.mem_map.1 hj
  obtain ⟨n, hn⟩ := hF.calls_src CS hCS
  obtain ⟨CS', -, hfor⟩ := exists_of_mem_newHooks hhook
  rw [(hookFor_eq_some hfor).1, hn] at heq
  exact absurd heq (by simp)

/-! ### Reachability -/

/-- The edges of an instrumented function stay in it. -/
theorem succs_rewriteFunction (hF : F.Source) {C : BasicBlock}
    (hC : C ∈ (rewriteFunction T names F F.RPOT).blocks) :
    C.term.succs ⊆ (rewriteFunction T names F F.RPOT).ids := by
  have hsrc : F.ids ⊆ (rewriteFunction T names F F.RPOT).ids := by
    intro d hd
    obtain ⟨D, hD, rfl⟩ := List.mem_map.1 hd
    exact List.mem_map.2 ⟨_, mem_rewriteFunction.2 ⟨D, hD, Or.inl rfl⟩, rfl⟩
  obtain ⟨BB, hBB, rfl | ⟨hR, e, he, rfl⟩⟩ := mem_rewriteFunction.1 hC
  · have hold : BB.term.succs ⊆ (rewriteFunction T names F F.RPOT).ids :=
      fun d hd => hsrc (hF.succs_mem BB hBB hd)
    unfold rewriteBlock
    dsimp only
    split_ifs with hR
    · unfold rewriteTerm
      cases he : splitInvoke? T F BB with
      | none => exact hold
      | some e =>
          obtain ⟨unwind, hterm, -⟩ := hookedInvoke?_eq_some.1 (splitInvoke?_eq_some.1 he).1
          rw [hterm] at hold ⊢
          intro d hd
          rcases List.mem_cons.1 hd with rfl | hd
          · exact List.mem_map.2 ⟨_, mem_rewriteFunction.2 ⟨BB, hBB, Or.inr ⟨hR, e, he, rfl⟩⟩, rfl⟩
          · exact hold (List.mem_cons_of_mem _ hd)
    · exact hold
  · obtain ⟨unwind, hterm, -⟩ := hookedInvoke?_eq_some.1 (splitInvoke?_eq_some.1 he).1
    intro d hd
    obtain rfl := List.mem_singleton.1 hd
    exact hsrc (hF.succs_mem BB hBB (by simp [hterm, Terminator.succs]))

/-- **An instrumented function can be numbered.** -/
theorem wellFormed_rewriteFunction (hF : F.Source) :
    (rewriteFunction T names F F.RPOT).WellFormed :=
  ⟨nodup_rewriteFunction hF _, fun _ hC => succs_rewriteFunction hF hC,
    nodup_calls_rewriteFunction hF⟩

variable (names) in
/-- The way from a block through its split edge. -/
theorem succs_of_splitInvoke? (hF : F.Source) {B : BasicBlock} (hB : B ∈ F.blocks)
    (hR : B.id ∈ F.RPOT) {e : HookedInvoke} (he : splitInvoke? T F B = some e) :
    .splitOf e.cs.id ∈ (rewriteFunction T names F F.RPOT).succs B.id ∧
      e.normal ∈ (rewriteFunction T names F F.RPOT).succs (.splitOf e.cs.id) := by
  obtain ⟨unwind, hterm, -⟩ := hookedInvoke?_eq_some.1 (splitInvoke?_eq_some.1 he).1
  constructor
  · rw [Function.succs, block?_rewriteFunction hF _ hB]
    simp [rewriteBlock, hR, rewriteTerm, he, hterm, Terminator.setNormal, Terminator.succs]
  · rw [Function.succs, block?_splitBlock hF hB hR he]
    simp [splitBlock, Terminator.succs]

/-- **Blocks that can be reached still can be.** -/
theorem mem_RPOT_rewriteFunction (hF : F.Source) {b : BlockId} (hb : b ∈ F.RPOT) :
    b ∈ (rewriteFunction T names F F.RPOT).RPOT := by
  have hwf : (rewriteFunction T names F F.RPOT).WellFormed := wellFormed_rewriteFunction hF
  obtain ⟨entry, hentry⟩ : ∃ entry, F.blocks.head? = some entry := by
    cases hl : F.blocks with
    | nil =>
        rw [Function.RPOT, hl] at hb
        exact absurd hb (by simp)
    | cons entry l => exact ⟨entry, rfl⟩
  have hentry' : (rewriteFunction T names F F.RPOT).blocks.head? =
      some (rewriteBlock T F F.RPOT entry) := by
    cases hl : F.blocks with
    | nil =>
        rw [hl] at hentry
        exact absurd hentry (by simp)
    | cons C l =>
        rw [hl] at hentry
        obtain rfl := Option.some_inj.1 hentry
        rw [rewriteFunction, hl]
        rfl
  rw [Function.mem_RPOT hwf.succs_mem hentry']
  have hr := (Function.mem_RPOT hF.succs_mem hentry).1 hb
  unfold Traversal.Reaches at hr ⊢
  induction hr with
  | refl => exact .refl
  | @tail c d hr hstep ih =>
      have hc : c ∈ F.RPOT := (Function.mem_RPOT hF.succs_mem hentry).2 hr
      specialize ih hc
      obtain ⟨B, hB, rfl, hd⟩ := Function.exists_of_mem_succs hstep
      cases he : splitInvoke? T F B with
      | none =>
          refine ih.tail ?_
          rw [Function.succs, block?_rewriteFunction hF _ hB]
          simpa [rewriteBlock, hc, rewriteTerm, he] using hd
      | some e =>
          obtain ⟨hin, hout⟩ := succs_of_splitInvoke? names hF hB hc he
          obtain ⟨unwind, hterm, -⟩ := hookedInvoke?_eq_some.1 (splitInvoke?_eq_some.1 he).1
          rw [hterm] at hd
          rcases List.mem_cons.1 hd with rfl | hd
          · exact (ih.tail hin).tail hout
          · refine ih.tail ?_
            rw [Function.succs, block?_rewriteFunction hF _ hB]
            have hmem : d ∈ [BlockId.splitOf e.cs.id, unwind] := List.mem_cons_of_mem _ hd
            simpa [rewriteBlock, hc, rewriteTerm, he, hterm, Terminator.setNormal,
              Terminator.succs] using hmem

/-- A block that is led to from one that can be reached can be reached. -/
theorem Function.WellFormed.mem_RPOT_of_mem_succs {G : Function} (hG : G.WellFormed) {b d : BlockId}
    (hb : b ∈ G.RPOT) (hd : d ∈ G.succs b) : d ∈ G.RPOT := by
  cases hl : G.blocks with
  | nil =>
      rw [Function.RPOT, hl] at hb
      exact absurd hb (by simp)
  | cons entry l =>
      have hentry : G.blocks.head? = some entry := by rw [hl]; rfl
      rw [Function.mem_RPOT hG.succs_mem hentry] at hb ⊢
      exact hb.tail hd

/-! ### Hooks are visited -/

/-- A head hook is that of an invoke in a block that can be reached, as the block itself. -/
theorem mem_RPOT_of_mem_headHooks (hF : F.Source) {BB : BasicBlock} {I : Instruction}
    (h : I ∈ headHooks T F F.RPOT BB.id) : BB.id ∈ F.RPOT ∧ ∃ CS, I = .call CS := by
  unfold headHooks at h
  cases hp : F.getSinglePredecessor BB.id with
  | none =>
      rw [hp] at h
      exact absurd h (by simp)
  | some p =>
      rw [hp] at h
      dsimp only at h
      split_ifs at h with hR
      · cases he : (F.block? p).bind (BasicBlock.hookedInvoke? T) with
        | none =>
            rw [he] at h
            exact absurd h (by simp)
        | some e =>
            rw [he] at h
            dsimp only at h
            split_ifs at h with hnormal
            · obtain ⟨B, hblock, he⟩ := Option.bind_eq_some_iff.1 he
              obtain ⟨unwind, hterm, -⟩ := hookedInvoke?_eq_some.1 he
              obtain rfl := Function.id_of_block? hblock
              obtain ⟨D, -, -, hDR⟩ := exists_of_mem_succs_of_mem_RPOT hF
                (Function.mem_of_block? hblock) hR
                (by simp [hterm, Terminator.succs] : e.normal ∈ B.term.succs)
              exact ⟨hnormal ▸ hDR, e.hook, List.mem_singleton.1 h⟩
            · exact absurd h (by simp)
      · exact absurd h (by simp)

/-- **The numbering pass comes to every hook.** -/
theorem mem_visited_of_isHook (hF : F.Source) (hfree : ∀ CS ∈ F.calls, CS.isHook = false)
    {CS : CallSite} (h : CS ∈ (rewriteFunction T names F F.RPOT).calls) (hhook : CS.isHook = true) :
    CS ∈ (rewriteFunction T names F F.RPOT).visited := by
  have hwf : (rewriteFunction T names F F.RPOT).WellFormed := wellFormed_rewriteFunction hF
  obtain ⟨C, hC, hCS⟩ := List.mem_flatMap.1 h
  refine List.mem_flatMap_of_mem (hwf.mem_visitedBlocks.2 ⟨hC, ?_⟩) hCS
  obtain ⟨BB, hBB, rfl | ⟨hR, e, he, rfl⟩⟩ := mem_rewriteFunction.1 hC
  · change BB.id ∈ _
    refine mem_RPOT_rewriteFunction hF ?_
    by_contra hR
    -- a block that cannot be reached has no hooks
    have hcalls : CS ∈ BB.calls := by
      rcases List.mem_append.1 hCS with hbody | hterm
      · obtain ⟨I, hI, hcall⟩ := List.mem_filterMap.1 hbody
        rcases List.mem_append.1 hI with hI | hI
        · exact absurd (mem_RPOT_of_mem_headHooks hF hI).1 hR
        · rw [if_neg hR] at hI
          exact List.mem_append_left _ (List.mem_filterMap.2 ⟨I, hI, hcall⟩)
      · have hsame : (rewriteBlock T F F.RPOT BB).term = BB.term := if_neg hR
        rw [hsame] at hterm
        exact List.mem_append_right _ hterm
    have hno := hfree CS (List.mem_flatMap_of_mem hBB hcalls)
    rw [hhook] at hno
    exact absurd hno (by simp)
  · exact hwf.mem_RPOT_of_mem_succs (mem_RPOT_rewriteFunction hF hR)
      (succs_of_splitInvoke? names hF hBB hR he).1

/-! ### What a hook is -/

/-- A list of different calls has one for each identity. -/
theorem find?_call {l : List CallSite} (hnd : (l.map CallSite.id).Nodup) {CS : CallSite}
    (h : CS ∈ l) : l.find? (·.id = CS.id) = some CS := by
  induction l with
  | nil => exact absurd h (by simp)
  | cons CS' l ih =>
      rw [List.map_cons, List.nodup_cons] at hnd
      rcases List.mem_cons.1 h with rfl | h
      · simp
      · have hne : CS'.id ≠ CS.id := fun heq => hnd.1 (heq ▸ List.mem_map_of_mem h)
        rw [List.find?_cons_of_neg (by simpa using hne), ih hnd.2 h]

/-- **The hooks the pass makes**: their functions and their arguments. -/
theorem hookFor_cases {CS hook : CallSite} (h : hookFor T CS = some hook) :
    (∃ kind, T.kind? CS = some kind ∧ kind ≠ .dealloc ∧ hook.args[0]? = some (.call CS.id) ∧
      ∃ index : ℕ, hookIndex? hook = some (index : ℤ) ∧ 0 < index ∧
        hook.args.length = index + 3) ∨
    (T.kind? CS = some .dealloc ∧ hookIndex? hook = some deallocHookIndex) := by
  have hg := getHookInst_of_hookFor h
  rw [getHookInst_eq] at hg
  cases hk : T.kind? CS with
  | none =>
      rw [hk] at hg
      exact absurd hg (by simp)
  | some kind =>
      rw [hk] at hg
      cases kind with
      | alloc =>
          obtain ⟨size, -, hg⟩ := Option.bind_eq_some_iff.1 hg
          obtain rfl := Option.some_inj.1 (Option.some_inj.1 hg)
          exact Or.inl ⟨.alloc, rfl, by simp, rfl, 2, rfl, by omega, rfl⟩
      | realloc =>
          obtain ⟨newSize, -, hg⟩ := Option.bind_eq_some_iff.1 hg
          obtain ⟨oldPtr, -, hg⟩ := Option.bind_eq_some_iff.1 hg
          obtain ⟨oldSize, -, hg⟩ := Option.bind_eq_some_iff.1 hg
          obtain rfl := Option.some_inj.1 (Option.some_inj.1 hg)
          exact Or.inl ⟨.realloc, rfl, by simp, rfl, 4, rfl, by omega, rfl⟩
      | dealloc =>
          obtain ⟨ptr, -, hg⟩ := Option.bind_eq_some_iff.1 hg
          obtain ⟨size, -, hg⟩ := Option.bind_eq_some_iff.1 hg
          obtain rfl := Option.some_inj.1 (Option.some_inj.1 hg)
          exact Or.inr ⟨rfl, rfl⟩

/-- A call of an instrumented function is one of the source, or the hook of one. -/
theorem mem_calls_rewriteFunction (hF : F.Source) {CS : CallSite} :
    CS ∈ (rewriteFunction T names F F.RPOT).calls ↔
      CS ∈ F.calls ∨ CS ∈ F.RPOT.flatMap (newHooks T F) := by
  rw [(calls_hookFunction T names hF).mem_iff, List.mem_append]

/-- **A hook that takes an id** is that of an allocation or reallocation, which is its first
argument, and has room for the id and the names after it. -/
theorem exists_of_isNumbered (hF : F.Source) (hfree : ∀ CS ∈ F.calls, CS.isHook = false)
    {hook : CallSite} (h : hook ∈ (rewriteFunction T names F F.RPOT).calls)
    (hnum : hook.isNumbered = true) : ∃ CS ∈ F.visited, hookFor T CS = some hook ∧
      (∃ kind, T.kind? CS = some kind ∧ kind ≠ .dealloc) ∧ hook.args[0]? = some (.call CS.id) ∧
        ∃ index : ℕ, hookIndex? hook = some (index : ℤ) ∧ hook.args.length = index + 3 := by
  obtain ⟨index, hindex, hpos⟩ := isNumbered_iff.1 hnum
  rcases (mem_calls_rewriteFunction hF).1 h with hold | hnew
  · have hno := hfree hook hold
    rw [← isSome_hookIndex?, hindex] at hno
    exact absurd hno (by simp)
  · obtain ⟨CS, hCS, hfor⟩ := exists_of_mem_newHooks hnew
    refine ⟨CS, hCS, hfor, ?_⟩
    rcases hookFor_cases hfor with
      ⟨kind, hkind, hne, harg, index', hindex', -, hlen⟩ | ⟨-, hdealloc⟩
    · exact ⟨⟨kind, hkind, hne⟩, harg, index', hindex', hlen⟩
    · rw [hindex] at hdealloc
      have hneg : (index : ℤ) = -1 := Option.some_inj.1 hdealloc
      omega

/-- **The call that goes to the list for a hook** is the one the hook was made for. -/
theorem exists_of_patched? (hF : F.Source) (hfree : ∀ CS ∈ F.calls, CS.isHook = false)
    {P : ProvsanPost} {fault_map : FaultMap} {hook : CallSite}
    (h : hook ∈ (rewriteFunction T names F F.RPOT).calls) {e : FaultingSite × InstId}
    (he : patched? P fault_map (rewriteFunction T names F F.RPOT) hook = some e) :
    ∃ CS ∈ F.calls, hookFor T CS = some hook ∧ e.2 = CS.id ∧ (T.kind? CS).isSome := by
  obtain ⟨hnum, -, harg, -⟩ := patched?_eq_some.1 he
  obtain ⟨CS, hCS, hfor, ⟨kind, hkind, -⟩, harg', -⟩ := exists_of_isNumbered hF hfree h hnum
  have hid := Option.some_inj.1 (harg.symm.trans harg')
  exact ⟨CS, Function.mem_calls_of_mem_visited hCS, hfor, Value.call.inj hid, by simp [hkind]⟩

/-- **The visit of an instrumented function succeeds.** -/
theorem canVisit_rewriteFunction (hF : F.Source) (hfree : ∀ CS ∈ F.calls, CS.isHook = false)
    (hloc : ∀ CS ∈ F.calls, (T.kind? CS).isSome → CS.debugLoc.isSome) (P : ProvsanPost)
    (fault_map : FaultMap) (localSlot : Function → BlockId → ℤ) :
    (rewriteFunction T names F F.RPOT).CanVisit P fault_map localSlot := by
  intro BB hBB CS hCS
  have hmem := Function.mem_calls_of_mem_visited (List.mem_flatMap_of_mem hBB hCS)
  constructor
  · intro hnum
    obtain ⟨-, -, -, -, -, index, hindex, hlen⟩ := exists_of_isNumbered hF hfree hmem hnum
    rw [hindex, Option.getD_some, Int.toNat_natCast]
    exact isSome_setHookArgs (by omega)
  · intro e he
    obtain ⟨CS₀, hCS₀, -, hid, hkind⟩ := exists_of_patched? hF hfree hmem he
    have hfind : (rewriteFunction T names F F.RPOT).calls.find? (·.id = CS₀.id) = some CS₀ :=
      find?_call (nodup_calls_rewriteFunction hF) ((mem_calls_rewriteFunction hF).2 (Or.inl hCS₀))
    rw [location?, hid, hfind]
    simpa [PrintFaultingLocation] using hloc CS₀ hCS₀ hkind

/-- Different hooks put different calls on the list. -/
theorem nodup_patchCalls (hF : F.Source) (hfree : ∀ CS ∈ F.calls, CS.isHook = false)
    (P : ProvsanPost) (fault_map : FaultMap) :
    ((rewriteFunction T names F F.RPOT).patchCalls P fault_map).Nodup := by
  have hsub : ∀ l : List CallSite, (∀ CS ∈ l, CS ∈ (rewriteFunction T names F F.RPOT).calls) →
      ((l.filterMap fun CS => (patched? P fault_map (rewriteFunction T names F F.RPOT) CS).map
        Prod.snd).map InstId.hookOf) <+ l.map CallSite.id := by
    intro l
    induction l with
    | nil => exact fun _ => .slnil
    | cons CS l ih =>
        intro hl
        have hrest := ih fun CS' hCS' => hl CS' (List.mem_cons_of_mem _ hCS')
        cases he : patched? P fault_map (rewriteFunction T names F F.RPOT) CS with
        | none =>
            rw [List.filterMap_cons_none (by rw [he]; rfl)]
            exact hrest.cons _
        | some e =>
            obtain ⟨CS₀, -, hfor, hid, -⟩ := exists_of_patched? hF hfree (hl CS (by simp)) he
            rw [List.filterMap_cons_some (by rw [he]; rfl), List.map_cons, List.map_cons,
              (hookFor_eq_some hfor).1, hid]
            exact hrest.cons_cons _
  have hwf : (rewriteFunction T names F F.RPOT).WellFormed := wellFormed_rewriteFunction hF
  exact ((hsub _ fun CS hCS => Function.mem_calls_of_mem_visited hCS).nodup
    hwf.nodup_visited).of_map _

end

/-! ### Modules -/

/-- A module before the pass: its functions are those of the source, and their calls are
different. -/
structure Module.Source (M : Module) : Prop where
  functions : ∀ F ∈ M.functions, F.Source
  calls_nodup : (M.calls.map CallSite.id).Nodup

/-- A module without calls of hooks. -/
def Module.NoHookCalls (M : Module) : Prop := ∀ CS ∈ M.calls, CS.isHook = false

/-- A module without hooks: it has none of their functions, and no calls of them. -/
structure Module.HookFree (M : Module) : Prop where
  names : ∀ F ∈ M.functions, F.name ∉ hookNames
  calls : ∀ CS ∈ M.calls, CS.isHook = false

/-- The declarations of the hooks. -/
def hookDeclarations : List Function := hookNames.map fun name => ⟨name, .external, []⟩

/-- **A module with its hooks.** -/
def hookModule (T : Targets) (names : InstId → String) (M : Module) : Module :=
  M.map fun F => rewriteFunction T names F F.RPOT

section

variable {O : PreOptions} {T : Targets} {names : InstId → String} {M : Module}

/-! ### Declarations of hooks -/

/-- A function that does not exist is declared. -/
theorem declare_of_forall_ne {name : String} (hname : name ≠ "")
    (h : ∀ F ∈ M.functions, F.name ≠ name) :
    (M.getOrInsertFunction name).setLinkage name .external =
      ⟨M.functions ++ [⟨name, .external, []⟩]⟩ := by
  have hnone : M.getFunction name = none := by
    rw [Module.getFunction, if_neg hname, List.find?_eq_none]
    exact fun F hF => by simpa using h F hF
  have hsame : (M.functions.map fun F =>
      if F.name = name then { F with linkage := .external } else F) = M.functions := by
    conv_rhs => rw [← List.map_id M.functions]
    exact List.map_congr_left fun F hF => if_neg (h F hF)
  rw [Module.getOrInsertFunction, hnone, Module.setLinkage, List.map_append, hsame]
  simp

/-- Declaring functions that do not exist, one after the other. -/
theorem foldl_declare (l : List String) (hl : l.Nodup) (hne : "" ∉ l) (fs : List Function)
    (h : ∀ F ∈ fs, F.name ∉ l) :
    l.foldl (fun M name => (M.getOrInsertFunction name).setLinkage name .external) ⟨fs⟩ =
      (⟨fs ++ l.map fun name => ⟨name, .external, []⟩⟩ : Module) := by
  induction l generalizing fs with
  | nil => simp
  | cons name l ih =>
      rw [List.nodup_cons] at hl
      rw [List.mem_cons, not_or] at hne
      have hturn : (Module.getOrInsertFunction ⟨fs⟩ name).setLinkage name .external =
          ⟨fs ++ [⟨name, .external, []⟩]⟩ :=
        declare_of_forall_ne (Ne.symm hne.1) fun F hF heq => h F hF (heq ▸ List.mem_cons_self ..)
      rw [List.foldl_cons, hturn, ih hl.2 hne.2, List.map_cons, List.append_assoc]
      · rfl
      · intro F hF
        rcases List.mem_append.1 hF with hF | hF
        · exact fun hmem => h F hF (List.mem_cons_of_mem _ hmem)
        · rw [List.mem_singleton.1 hF]
          exact hl.1

theorem declareHooks_eq (hfree : M.HookFree) :
    declareHooks M = ⟨M.functions ++ hookDeclarations⟩ :=
  foldl_declare hookNames (by decide) (by decide) M.functions hfree.names

/-- A declaration has nothing that could be wrong. -/
theorem source_declaration (name : String) (linkage : Linkage) :
    Function.Source ⟨name, linkage, []⟩ := by
  refine ⟨⟨.nil, ?_, ?_, ?_, ?_⟩, ?_, ?_, .nil⟩
  · exact fun BB h => absurd h (by simp)
  · exact fun BB h => absurd h (by simp)
  · exact fun BB h => absurd h (by simp)
  · exact fun BB h => absurd h (by simp)
  · exact fun BB h => absurd h (by simp)
  · exact fun CS h => absurd h (by simp [Function.calls])

theorem Function.Source.setLinkage {F : Function} (hF : F.Source) (linkage : Linkage) :
    Function.Source { F with linkage := linkage } :=
  ⟨⟨hF.nodup, hF.succs_mem, hF.entry, hF.invoke_ne, hF.phis⟩, hF.ids_src, hF.calls_src,
    hF.calls_nodup⟩

/-- A function with the linkage it has when the functions `l` have been declared. -/
def Function.relink (l : List String) (F : Function) : Function :=
  if F.name ∈ l then { F with linkage := .external } else F

@[simp] theorem Function.blocks_relink (l : List String) (F : Function) :
    (F.relink l).blocks = F.blocks := by
  unfold relink
  split_ifs <;> rfl

@[simp] theorem Function.name_relink (l : List String) (F : Function) :
    (F.relink l).name = F.name := by
  unfold relink
  split_ifs <;> rfl

/-- Declaring functions one after the other: those that exist get another linkage, and declarations
come after them. -/
theorem functions_declare (l : List String) (hne : "" ∉ l) (M : Module) :
    ∃ ds : List Function, (∀ F ∈ ds, F ∈ l.map fun name => (⟨name, .external, []⟩ : Function)) ∧
      (l.foldl (fun M name => (M.getOrInsertFunction name).setLinkage name .external) M).functions =
        M.functions.map (Function.relink l) ++ ds := by
  induction l generalizing M with
  | nil =>
      have hsame : Function.relink [] = id := funext fun F => if_neg (by simp)
      exact ⟨[], by simp, by simp [hsame]⟩
  | cons name l ih =>
      rw [List.mem_cons, not_or] at hne
      obtain ⟨ds, hds, hrest⟩ := ih hne.2 ((M.getOrInsertFunction name).setLinkage name .external)
      have hturn : ∀ F : Function, Function.relink l
          (if F.name = name then { F with linkage := .external } else F) =
            F.relink (name :: l) := by
        intro F
        by_cases hF : F.name = name <;> by_cases hl : F.name ∈ l <;> simp_all [Function.relink]
      have hdecl : Function.relink (name :: l) ⟨name, .external, []⟩ = ⟨name, .external, []⟩ := by
        simp [Function.relink]
      rw [List.foldl_cons, hrest, Module.setLinkage, List.map_map,
        show Function.relink l ∘ _ = Function.relink (name :: l) from funext hturn]
      unfold Module.getOrInsertFunction
      cases M.getFunction name with
      | some F =>
          exact ⟨ds, fun F hF => List.mem_cons_of_mem _ (hds F hF), rfl⟩
      | none =>
          refine ⟨⟨name, .external, []⟩ :: ds, ?_, ?_⟩
          · simpa using fun F hF => Or.inr (hds F hF)
          · rw [List.map_append, List.append_assoc, List.map_singleton, hdecl]
            rfl

/-- The functions of a module that declares the hooks: one of the module before, or a
declaration. -/
theorem functions_declareHooks (M : Module) : ∃ ds ⊆ hookDeclarations,
    (declareHooks M).functions = M.functions.map (Function.relink hookNames) ++ ds :=
  functions_declare hookNames (by decide) M

theorem calls_relink (l : List String) (F : Function) : (F.relink l).calls = F.calls := by
  rw [Function.calls, Function.calls, Function.blocks_relink]

/-- Declarations have no calls. -/
theorem calls_declareHooks (M : Module) : (declareHooks M).calls = M.calls := by
  obtain ⟨ds, hds, hfunctions⟩ := functions_declareHooks M
  have hnil : ds.flatMap Function.calls = [] := List.flatMap_eq_nil_iff.2 fun F hF => by
    obtain ⟨name, -, rfl⟩ := List.mem_map.1 (hds hF)
    rfl
  rw [Module.calls, hfunctions, List.flatMap_append, hnil, List.append_nil, List.flatMap_map]
  exact List.flatMap_congr fun F _ => calls_relink hookNames F

theorem Module.Source.declareHooks (hM : M.Source) : (declareHooks M).Source := by
  refine ⟨fun F hF => ?_, by rw [calls_declareHooks]; exact hM.calls_nodup⟩
  obtain ⟨ds, hds, hfunctions⟩ := functions_declareHooks M
  rw [hfunctions] at hF
  rcases List.mem_append.1 hF with hF | hF
  · obtain ⟨F₀, hF₀, rfl⟩ := List.mem_map.1 hF
    unfold Function.relink
    split_ifs
    · exact (hM.functions F₀ hF₀).setLinkage .external
    · exact hM.functions F₀ hF₀
  · obtain ⟨name, -, rfl⟩ := List.mem_map.1 (hds hF)
    exact source_declaration name .external

theorem Module.NoHookCalls.declareHooks (hM : M.NoHookCalls) : (declareHooks M).NoHookCalls := by
  rw [NoHookCalls, calls_declareHooks]
  exact hM

/-- Whether a function exists that is no hook. -/
theorem isSome_getFunction_declareHooks (M : Module) {name : String} (h : name ∉ hookNames) :
    ((declareHooks M).getFunction name).isSome = (M.getFunction name).isSome := by
  obtain ⟨ds, hds, hfunctions⟩ := functions_declareHooks M
  have hno : ds.find? (·.name = name) = none := List.find?_eq_none.2 fun F hF => by
    obtain ⟨hook, hhook, rfl⟩ := List.mem_map.1 (hds hF)
    simpa using fun heq : hook = name => h (heq ▸ hhook)
  unfold Module.getFunction
  split_ifs
  · rfl
  · rw [hfunctions, List.find?_append, hno, Option.or_none, List.find?_map, Option.isSome_map]
    congr 2
    funext F
    simp

/-- The hooks are no targets in a module that does not have them. -/
theorem noHooks_targets (O : PreOptions) (hfree : M.HookFree) : (O.targets M).NoHooks := by
  have hnot : ∀ name ∈ hookNames, ∀ l, name ∉ getTargetFunctionSet M l := by
    intro name hname l hmem
    have hsome := (List.mem_filter.1 hmem).2
    obtain ⟨F, hF⟩ := Option.isSome_iff_exists.1 hsome
    unfold Module.getFunction at hF
    split_ifs at hF
    have heq : F.name = name := by simpa using List.find?_some hF
    exact hfree.names F (List.mem_of_find?_eq_some hF) (heq ▸ hname)
  exact fun name hname => ⟨hnot name hname _, hnot name hname _, hnot name hname _⟩

/-- A partial function along a list. -/
theorem mapM_eq_some_iff {α β : Type} {f : α → Option β} {g : α → β} {ok : α → Prop} {l : List α}
    (h : ∀ a ∈ l, ∀ b, f a = some b ↔ ok a ∧ b = g a) {l' : List β} :
    l.mapM f = some l' ↔ (∀ a ∈ l, ok a) ∧ l' = l.map g := by
  induction l generalizing l' with
  | nil =>
      rw [List.mapM_nil]
      exact ⟨fun h => ⟨fun a ha => absurd ha (by simp), (Option.some_inj.1 h).symm⟩,
        fun h => h.2 ▸ rfl⟩
  | cons a l ih =>
      rw [List.mapM_cons]
      simp only [Option.bind_eq_bind, Option.bind_eq_some_iff, h a (List.mem_cons_self ..),
        ih fun b hb => h b (List.mem_cons_of_mem _ hb), List.forall_mem_cons, List.map_cons]
      constructor
      · rintro ⟨_, ⟨ha, rfl⟩, _, ⟨hl, rfl⟩, hr⟩
        exact ⟨⟨ha, hl⟩, (Option.some_inj.1 hr).symm⟩
      · rintro ⟨⟨ha, hl⟩, rfl⟩
        exact ⟨_, ⟨ha, rfl⟩, _, ⟨hl, rfl⟩, rfl⟩

/-- The calls of a function in blocks that can be reached have the operands for their hooks. -/
def Function.Hookable (T : Targets) (F : Function) : Prop :=
  ∀ B ∈ F.blocks, B.id ∈ F.RPOT → ∀ CS ∈ B.calls, (getHookInst T CS).isSome

theorem hookable_relink {l : List String} {F : Function} :
    (F.relink l).Hookable T ↔ F.Hookable T := by
  have hRPOT : (F.relink l).RPOT = F.RPOT := by
    unfold Function.relink
    split_ifs <;> rfl
  rw [Function.Hookable, Function.Hookable, Function.blocks_relink, hRPOT]

/-- **The instrumenting pass** succeeds when the calls have the operands for their hooks. -/
theorem run_pre (hM : M.Source) (hT : (O.targets M).NoHooks) {M' : Module} :
    DynUntrustedAllocPre.run O names M = some M' ↔ (∀ F ∈ M.functions, F.Hookable (O.targets M)) ∧
      M' = hookModule (O.targets M) names (declareHooks M) := by
  have hok : (∀ F ∈ (declareHooks M).functions, F.Hookable (O.targets M)) ↔
      ∀ F ∈ M.functions, F.Hookable (O.targets M) := by
    obtain ⟨ds, hds, hfunctions⟩ := functions_declareHooks M
    have hdecl : ∀ F ∈ ds, F.Hookable (O.targets M) := fun F hF => by
      obtain ⟨name, -, rfl⟩ := List.mem_map.1 (hds hF)
      exact fun BB h => absurd h (by simp)
    rw [hfunctions, List.forall_mem_append, List.forall_mem_map]
    simp only [hookable_relink]
    exact and_iff_left hdecl
  rw [DynUntrustedAllocPre.run, hookFunctions]
  simp only [Option.bind_eq_bind, Option.bind_eq_some_iff,
    mapM_eq_some_iff fun F hF G => hookFunction_eq_some hT (hM.declareHooks.functions F hF)]
  constructor
  · rintro ⟨_, ⟨h, rfl⟩, hM'⟩
    exact ⟨hok.1 h, (Option.some_inj.1 hM').symm⟩
  · rintro ⟨h, rfl⟩
    exact ⟨_, ⟨hok.2 h, rfl⟩, rfl⟩

/-! ### Modules with their hooks -/

/-- The calls of a module with its hooks are those of its functions. -/
theorem calls_hookModule : (hookModule T names M).calls =
    M.functions.flatMap fun F => (rewriteFunction T names F F.RPOT).calls := by
  rw [Module.calls, hookModule, Module.map, List.flatMap_map]

/-- **A module with its hooks can be numbered.** -/
theorem wellFormed_hookModule (hM : M.Source) : (hookModule T names M).WellFormed := by
  constructor
  · intro F hF
    obtain ⟨F₀, hF₀, rfl⟩ := List.mem_map.1 hF
    exact wellFormed_rewriteFunction (hM.functions F₀ hF₀)
  · rw [calls_hookModule, List.map_flatMap, List.nodup_flatMap]
    refine ⟨fun F hF => nodup_calls_rewriteFunction (hM.functions F hF), ?_⟩
    have hnd := hM.calls_nodup
    rw [Module.calls, List.map_flatMap, List.nodup_flatMap] at hnd
    refine hnd.2.imp_of_mem fun {F F'} hF hF' hdisj => ?_
    -- identities tell which calls they were made for
    have hcases : ∀ F ∈ M.functions, ∀ i ∈ (rewriteFunction T names F F.RPOT).calls.map CallSite.id,
        (∃ n, i = .src n ∧ i ∈ F.calls.map CallSite.id) ∨
          ∃ j ∈ F.calls.map CallSite.id, i = .hookOf j := by
      intro F hF i hi
      obtain ⟨CS, hCS, rfl⟩ := List.mem_map.1 hi
      rcases (mem_calls_rewriteFunction (hM.functions F hF)).1 hCS with hold | hnew
      · obtain ⟨n, hn⟩ := (hM.functions F hF).calls_src CS hold
        exact Or.inl ⟨n, hn, List.mem_map_of_mem hold⟩
      · obtain ⟨CS', hCS', hfor⟩ := exists_of_mem_newHooks hnew
        exact Or.inr ⟨CS'.id, List.mem_map_of_mem (Function.mem_calls_of_mem_visited hCS'),
          (hookFor_eq_some hfor).1⟩
    intro i hi hi'
    rcases hcases F hF i hi with ⟨n, rfl, hmem⟩ | ⟨j, hmem, rfl⟩
    · rcases hcases F' hF' _ hi' with ⟨-, -, hmem'⟩ | ⟨j, -, hj⟩
      · exact hdisj hmem hmem'
      · exact absurd hj (by simp)
    · rcases hcases F' hF' _ hi' with ⟨n, hn, -⟩ | ⟨j', hmem', hj⟩
      · exact absurd hn (by simp)
      · obtain rfl := InstId.hookOf.inj hj
        exact hdisj hmem hmem'

/-- **The visit of a module with its hooks succeeds.** -/
theorem canVisit_hookModule (hM : M.Source) (hfree : M.NoHookCalls)
    (hloc : ∀ CS ∈ M.calls, (T.kind? CS).isSome → CS.debugLoc.isSome) (P : ProvsanPost)
    (fault_map : FaultMap) (localSlot : Function → BlockId → ℤ) :
    (hookModule T names M).CanVisit P fault_map localSlot := by
  intro F hF
  obtain ⟨F₀, hF₀, rfl⟩ := List.mem_map.1 hF
  exact canVisit_rewriteFunction (hM.functions F₀ hF₀)
    (fun CS hCS => hfree CS (List.mem_flatMap_of_mem hF₀ hCS))
    (fun CS hCS => hloc CS (List.mem_flatMap_of_mem hF₀ hCS)) P fault_map localSlot

end

/-- A module with a function that allocates, and the functions it may call for it. -/
def sampleModule : Module :=
  ⟨[sampleFunction, ⟨"__rust_alloc", .external, []⟩, ⟨"__rust_untrusted_alloc", .external, []⟩]⟩

def sampleOptions : PreOptions := ⟨["__rust_alloc"], ["__rust_realloc"], ["__rust_dealloc"]⟩

theorem sampleModule_source : sampleModule.Source := by
  refine ⟨fun F hF => ?_, by decide⟩
  fin_cases hF
  · exact sampleFunction_source
  · exact source_declaration _ _
  · exact source_declaration _ _

theorem sampleModule_hookFree : sampleModule.HookFree := ⟨by decide, by decide⟩

end Provsan
