/-
**What the instrumenting pass makes of a function.**

The pass changes blocks and edges one after the other, while it walks over the blocks as they were
in the beginning.  Here the function it arrives at is written down at once, for any set of blocks
that have had their turn; one turn of the loop adds its block to that set.  In particular the
number of predecessors of a block never changes on the way, so that the place of a hook does not
depend on the order of the walk.

Main definitions:

* `Provsan.Function.Source` — a function before the pass;
* `Provsan.HookedInvoke`, `Provsan.BasicBlock.hookedInvoke?`, `Provsan.splitInvoke?` — the invokes
  that get a hook, and those whose normal edge is split for it;
* `Provsan.rewriteBlock`, `Provsan.rewriteFunction` — the blocks and the function after some turns.

Main results:

* `Provsan.length_preds_rewriteFunction` — the edges into a block stay as many;
* `Provsan.hookBlock_rewriteFunction` — **one turn of the loop**;
* `Provsan.hookFunction_eq_some` — **the pass succeeds when the calls have enough operands, and its
  result is the rewritten function**.
-/

import Provsan.Passes.Pre
import Mathlib.Algebra.GroupWithZero.Nat
import Mathlib.Data.List.Pairwise

set_option relaxedAutoImplicit false
set_option autoImplicit false

namespace Provsan

/-- A function before the pass: it is verified, and its blocks and calls are those of the
source. -/
structure Function.Source (F : Function) : Prop extends F.Verified where
  ids_src : ∀ BB ∈ F.blocks, ∃ n, BB.id = .src n
  calls_src : ∀ CS ∈ F.calls, ∃ n, CS.id = .src n
  calls_nodup : (F.calls.map CallSite.id).Nodup

/-! ### Invokes with hooks -/

/-- An invoke that gets a hook, and its normal destination. -/
structure HookedInvoke where
  cs : CallSite
  normal : BlockId
  hook : CallSite

/-- The invoke at the end of a block, when it gets a hook. -/
def BasicBlock.hookedInvoke? (T : Targets) (BB : BasicBlock) : Option HookedInvoke :=
  match BB.term with
  | .invoke CS normal _ => (hookFor T CS).map fun hook => ⟨CS, normal, hook⟩
  | _ => none

/-- Whether more than one edge leads to a block, or none. -/
def shared (F : Function) (d : BlockId) : Bool := (F.getSinglePredecessor d).isNone

/-- The invoke at the end of a block, when its normal edge is split. -/
def splitInvoke? (T : Targets) (F : Function) (BB : BasicBlock) : Option HookedInvoke :=
  (BB.hookedInvoke? T).filter fun e => shared F e.normal

/-- The block on a split edge. -/
def splitBlock (names : InstId → String) (e : HookedInvoke) : BasicBlock :=
  ⟨.splitOf e.cs.id, names e.cs.id, [], [.call e.hook], .br [e.normal]⟩

/-! ### The rewritten function -/

/-- The hooks at the head of the block `d`, after the turns of the blocks `P`: that of the invoke
whose normal edge is the only one that leads there. -/
def headHooks (T : Targets) (F : Function) (P : List BlockId) (d : BlockId) : List Instruction :=
  match F.getSinglePredecessor d with
  | none => []
  | some p =>
      if p ∈ P then
        match (F.block? p).bind (BasicBlock.hookedInvoke? T) with
        | some e => if e.normal = d then [.call e.hook] else []
        | none => []
      else []

/-- The block through which the edge from `p` to `d` enters `d`, after the turns of the
blocks `P`. -/
def via (T : Targets) (F : Function) (P : List BlockId) (d p : BlockId) : BlockId :=
  if p ∈ P then
    match (F.block? p).bind (splitInvoke? T F) with
    | some e => if e.normal = d then .splitOf e.cs.id else p
    | none => p
  else p

/-- The terminator of a block that has had its turn. -/
def rewriteTerm (T : Targets) (F : Function) (BB : BasicBlock) : Terminator :=
  match splitInvoke? T F BB with
  | some e => BB.term.setNormal (.splitOf e.cs.id)
  | none => BB.term

/-- A block after the turns of the blocks `P`. -/
def rewriteBlock (T : Targets) (F : Function) (P : List BlockId) (BB : BasicBlock) :
    BasicBlock where
  id := BB.id
  name := BB.name
  phis := BB.phis.map fun phi =>
    { phi with incoming := phi.incoming.map fun e => (via T F P BB.id e.1, e.2) }
  body := headHooks T F P BB.id ++ if BB.id ∈ P then BB.body.flatMap (hooked T) else BB.body
  term := if BB.id ∈ P then rewriteTerm T F BB else BB.term

/-- A block after the turns of the blocks `P`, and the block on its split edge. -/
def expandBlock (T : Targets) (names : InstId → String) (F : Function) (P : List BlockId)
    (BB : BasicBlock) : List BasicBlock :=
  rewriteBlock T F P BB ::
    if BB.id ∈ P then ((splitInvoke? T F BB).map (splitBlock names)).toList else []

/-- **The function after the turns of the blocks `P`.** -/
def rewriteFunction (T : Targets) (names : InstId → String) (F : Function) (P : List BlockId) :
    Function :=
  { F with blocks := F.blocks.flatMap (expandBlock T names F P) }

section

variable {T : Targets} {names : InstId → String} {F : Function}

/-! ### Before the first turn -/

theorem rewriteBlock_nil (BB : BasicBlock) : rewriteBlock T F [] BB = BB := by
  have hhead : headHooks T F [] BB.id = [] := by
    unfold headHooks
    split <;> simp
  have hvia : ∀ p, via T F [] BB.id p = p := fun p => by simp [via]
  simp [rewriteBlock, hhead, hvia]

theorem rewriteFunction_nil : rewriteFunction T names F [] = F := by
  have hexpand : ∀ BB ∈ F.blocks, expandBlock T names F [] BB = [BB] := fun BB _ => by
    simp [expandBlock, rewriteBlock_nil]
  rw [rewriteFunction, List.flatMap_congr hexpand, List.flatMap_singleton']

/-! ### Invokes -/

theorem hookedInvoke?_eq_some {BB : BasicBlock} {e : HookedInvoke} :
    BB.hookedInvoke? T = some e ↔
      ∃ unwind, BB.term = .invoke e.cs e.normal unwind ∧ hookFor T e.cs = some e.hook := by
  unfold BasicBlock.hookedInvoke?
  cases hterm : BB.term with
  | br dests => simp
  | callbr CS dests => simp
  | invoke CS normal unwind =>
      simp only [Option.map_eq_some_iff, Terminator.invoke.injEq]
      constructor
      · rintro ⟨hook, hhook, rfl⟩
        exact ⟨unwind, ⟨rfl, rfl, rfl⟩, hhook⟩
      · rintro ⟨_, ⟨rfl, rfl, rfl⟩, hhook⟩
        exact ⟨e.hook, hhook, rfl⟩

theorem splitInvoke?_eq_some {BB : BasicBlock} {e : HookedInvoke} :
    splitInvoke? T F BB = some e ↔ BB.hookedInvoke? T = some e ∧ shared F e.normal = true := by
  rw [splitInvoke?, Option.filter_eq_some_iff]

/-- The invoke of a block is one of its calls. -/
theorem mem_calls_of_hookedInvoke? {BB : BasicBlock} {e : HookedInvoke}
    (h : BB.hookedInvoke? T = some e) : e.cs ∈ BB.calls := by
  obtain ⟨unwind, hterm, -⟩ := hookedInvoke?_eq_some.1 h
  rw [BasicBlock.calls, hterm]
  simp [Terminator.call?]

/-! ### Identities -/

theorem ids_rewriteFunction (P : List BlockId) : (rewriteFunction T names F P).ids =
    F.blocks.flatMap fun BB => BB.id ::
      if BB.id ∈ P then ((splitInvoke? T F BB).map fun e => BlockId.splitOf e.cs.id).toList
      else [] := by
  rw [Function.ids, rewriteFunction, List.map_flatMap]
  refine List.flatMap_congr fun BB _ => ?_
  rw [expandBlock, List.map_cons]
  split_ifs
  · cases splitInvoke? T F BB <;> rfl
  · rfl

/-- Calls of different blocks are different. -/
theorem Function.Source.pairwise_calls (hF : F.Source) : F.blocks.Pairwise fun B C =>
    ∀ CS ∈ B.calls, ∀ CS' ∈ C.calls, CS.id ≠ CS'.id := by
  have hnd := hF.calls_nodup
  rw [Function.calls, List.map_flatMap, List.nodup_flatMap] at hnd
  refine hnd.2.imp fun h CS hCS CS' hCS' heq => ?_
  exact h (List.mem_map_of_mem hCS) (heq ▸ List.mem_map_of_mem hCS')

theorem Function.Source.pairwise_ids (hF : F.Source) :
    F.blocks.Pairwise fun B C => B.id ≠ C.id :=
  List.pairwise_map.1 hF.nodup

theorem Function.Source.ne_splitOf (hF : F.Source) {BB : BasicBlock} (hBB : BB ∈ F.blocks)
    (i : InstId) : BB.id ≠ .splitOf i := by
  obtain ⟨n, hn⟩ := hF.ids_src BB hBB
  simp [hn]

/-- **The blocks of the rewritten function are different.** -/
theorem nodup_rewriteFunction (hF : F.Source) (P : List BlockId) :
    (rewriteFunction T names F P).ids.Nodup := by
  rw [ids_rewriteFunction, List.nodup_flatMap]
  constructor
  · intro BB hBB
    split_ifs
    · cases hs : splitInvoke? T F BB with
      | none => simp
      | some e => simpa using hF.ne_splitOf hBB e.cs.id
    · simp
  · refine (hF.pairwise_ids.and hF.pairwise_calls).imp_of_mem fun {B C} hB hC h => ?_
    obtain ⟨hid, hcalls⟩ := h
    -- source blocks differ, split blocks differ because their invokes do
    simp only [Function.onFun, List.disjoint_left, List.mem_cons, not_or]
    rintro x (rfl | hx)
    · refine ⟨hid, fun hmem => ?_⟩
      split_ifs at hmem
      · obtain ⟨e, -, he⟩ := Option.map_eq_some_iff.1 (Option.mem_toList.1 hmem)
        exact hF.ne_splitOf hB e.cs.id he.symm
      · exact absurd hmem (by simp)
    · split_ifs at hx
      · obtain ⟨e, hs, rfl⟩ := Option.map_eq_some_iff.1 (Option.mem_toList.1 hx)
        refine ⟨(hF.ne_splitOf hC e.cs.id).symm, fun hmem => ?_⟩
        split_ifs at hmem
        · obtain ⟨e', hs', he'⟩ := Option.map_eq_some_iff.1 (Option.mem_toList.1 hmem)
          exact hcalls e.cs (mem_calls_of_hookedInvoke? (splitInvoke?_eq_some.1 hs).1) e'.cs
            (mem_calls_of_hookedInvoke? (splitInvoke?_eq_some.1 hs').1)
            (BlockId.splitOf.inj he').symm
        · exact absurd hmem (by simp)
      · exact absurd hx (by simp)

/-- A block of the rewritten function is a block of the source or one on a split edge. -/
theorem mem_rewriteFunction {P : List BlockId} {C : BasicBlock} :
    C ∈ (rewriteFunction T names F P).blocks ↔
      ∃ BB ∈ F.blocks, C = rewriteBlock T F P BB ∨
        (BB.id ∈ P ∧ ∃ e, splitInvoke? T F BB = some e ∧ C = splitBlock names e) := by
  simp only [rewriteFunction, List.mem_flatMap, expandBlock, List.mem_cons]
  refine exists_congr fun BB => and_congr_right fun _ => or_congr_right ?_
  split_ifs with h
  · rw [Option.mem_toList, Option.map_eq_some_iff]
    simp only [h, true_and]
    exact exists_congr fun e => and_congr_right fun _ => eq_comm
  · simp [h]

/-- **A source block is found in the rewritten function.** -/
theorem block?_rewriteFunction (hF : F.Source) (P : List BlockId) {BB : BasicBlock}
    (hBB : BB ∈ F.blocks) :
    (rewriteFunction T names F P).block? BB.id = some (rewriteBlock T F P BB) :=
  (Function.block?_eq_some (nodup_rewriteFunction hF P)).2
    ⟨mem_rewriteFunction.2 ⟨BB, hBB, Or.inl rfl⟩, rfl⟩

/-- **The block on a split edge is found in the rewritten function.** -/
theorem block?_splitBlock (hF : F.Source) {P : List BlockId} {BB : BasicBlock} (hBB : BB ∈ F.blocks)
    (hP : BB.id ∈ P) {e : HookedInvoke} (he : splitInvoke? T F BB = some e) :
    (rewriteFunction T names F P).block? (.splitOf e.cs.id) = some (splitBlock names e) :=
  (Function.block?_eq_some (nodup_rewriteFunction hF P)).2
    ⟨mem_rewriteFunction.2 ⟨BB, hBB, Or.inr ⟨hP, e, he, rfl⟩⟩, rfl⟩

/-! ### Edges -/

/-- The number of edges from a block to another. -/
theorem length_preds (G : Function) (d : BlockId) :
    (G.preds d).length = (G.blocks.map fun BB => BB.term.succs.count d).sum := by
  rw [Function.preds, List.length_flatMap]
  refine congrArg List.sum (List.map_congr_left fun BB _ => ?_)
  rw [List.length_map, List.count_eq_length_filter]
  exact congrArg List.length (List.filter_congr fun x _ => by simp [beq_eq_decide])

theorem shared_iff {G : Function} {d : BlockId} : shared G d = true ↔ (G.preds d).length ≠ 1 := by
  unfold shared Function.getSinglePredecessor
  rcases G.preds d with _ | ⟨p, _ | ⟨q, l⟩⟩ <;> simp

theorem getSinglePredecessor_eq_some {G : Function} {d p : BlockId} :
    G.getSinglePredecessor d = some p ↔ G.preds d = [p] := by
  unfold Function.getSinglePredecessor
  rcases G.preds d with _ | ⟨q, _ | ⟨r, l⟩⟩ <;> simp

/-- A destination of a block that is not shared has that block for its single predecessor. -/
theorem getSinglePredecessor_of_not_shared {G : Function} {BB : BasicBlock} (hBB : BB ∈ G.blocks)
    {d : BlockId} (hd : d ∈ BB.term.succs) (hs : shared G d = false) :
    G.getSinglePredecessor d = some BB.id := by
  have hmem : BB.id ∈ G.preds d := Function.mem_preds.2 ⟨BB, hBB, rfl, hd⟩
  cases hp : G.getSinglePredecessor d with
  | none =>
      rw [shared, hp] at hs
      exact absurd hs (by simp)
  | some p =>
      rw [getSinglePredecessor_eq_some.1 hp, List.mem_singleton] at hmem
      rw [hmem]

/-- Splitting an edge adds as many edges into a source block as it takes away. -/
theorem count_expandBlock (P : List BlockId) (BB : BasicBlock) (n : ℕ) :
    ((expandBlock T names F P BB).map fun C => C.term.succs.count (.src n)).sum =
      BB.term.succs.count (.src n) := by
  unfold expandBlock
  rw [List.map_cons, List.sum_cons, rewriteBlock]
  dsimp only
  split_ifs with hP
  · unfold rewriteTerm
    cases hs : splitInvoke? T F BB with
    | none => simp
    | some e =>
        obtain ⟨unwind, hterm, -⟩ := hookedInvoke?_eq_some.1 (splitInvoke?_eq_some.1 hs).1
        rw [hterm]
        simp only [Terminator.setNormal, Terminator.succs, Option.map_some, Option.toList_some,
          splitBlock, List.map_cons, List.map_nil, List.sum_cons, List.sum_nil, List.count_cons,
          List.count_nil]
        have hne : (BlockId.splitOf e.cs.id == BlockId.src n) = false := by simp
        rw [hne]
        simp only [Bool.false_eq_true, if_false]
        omega
  · simp

/-- **The edges into a source block stay as many.** -/
theorem length_preds_rewriteFunction (P : List BlockId) (n : ℕ) :
    ((rewriteFunction T names F P).preds (.src n)).length = (F.preds (.src n)).length := by
  have hsum : ∀ l : List BasicBlock,
      ((l.flatMap (expandBlock T names F P)).map fun C => C.term.succs.count (.src n)).sum =
        (l.map fun BB => BB.term.succs.count (.src n)).sum := by
    intro l
    induction l with
    | nil => rfl
    | cons BB l ih =>
        rw [List.flatMap_cons, List.map_append, List.sum_append, ih, count_expandBlock,
          List.map_cons, List.sum_cons]
  rw [length_preds, length_preds, rewriteFunction, hsum]

/-! ### One turn of the loop -/

/-- The hooks at the head of a block after one more turn: those from before, or that of the invoke
of the new block. -/
theorem headHooks_append (hF : F.Source) {P : List BlockId} {B : BasicBlock} (hB : B ∈ F.blocks)
    (hP : B.id ∉ P) (d : BlockId) : headHooks T F (P ++ [B.id]) d =
      match B.hookedInvoke? T with
      | some e => if e.normal = d ∧ shared F d = false then [.call e.hook] else headHooks T F P d
      | none => headHooks T F P d := by
  have hblock := Function.block?_of_mem hF.nodup hB
  unfold headHooks
  cases hp : F.getSinglePredecessor d with
  | none =>
      have hs : shared F d = true := by simp [shared, hp]
      cases B.hookedInvoke? T <;> simp [hs]
  | some p =>
      have hs : shared F d = false := by simp [shared, hp]
      by_cases hpb : p = B.id
      · subst hpb
        cases he : B.hookedInvoke? T with
        | none => simp [hP, hblock, he]
        | some e => by_cases hd : e.normal = d <;> simp [hP, hblock, he, hs, hd]
      · -- the single predecessor is another block, so that the new invoke does not lead here
        have hmem : p ∈ P ++ [B.id] ↔ p ∈ P := by simp [hpb]
        cases he : B.hookedInvoke? T with
        | none => simp [hmem]
        | some e =>
            have hne : e.normal ≠ d := by
              rintro rfl
              obtain ⟨unwind, hterm, -⟩ := hookedInvoke?_eq_some.1 he
              have hsucc : e.normal ∈ B.term.succs := by simp [hterm, Terminator.succs]
              have hpred := getSinglePredecessor_of_not_shared hB hsucc hs
              exact hpb (Option.some_inj.1 (hp.symm.trans hpred))
            simp [hmem, hne]

/-- The way into a block after one more turn. -/
theorem via_append (hF : F.Source) (P : List BlockId) {B : BasicBlock} (hB : B ∈ F.blocks)
    (d p : BlockId) : via T F (P ++ [B.id]) d p =
      if p = B.id then
        match splitInvoke? T F B with
        | some e => if e.normal = d then .splitOf e.cs.id else p
        | none => p
      else via T F P d p := by
  unfold via
  by_cases hpb : p = B.id
  · subst hpb
    simp [Function.block?_of_mem hF.nodup hB]
  · simp [hpb]

theorem via_self {P : List BlockId} {p : BlockId} (hP : p ∉ P) (d : BlockId) :
    via T F P d p = p := if_neg hP

/-- A turn that splits no edge leaves the ways as they are. -/
theorem via_append_of_splitInvoke?_eq_none (hF : F.Source) {P : List BlockId} {B : BasicBlock}
    (hP : B.id ∉ P) (hB : B ∈ F.blocks) (hsplit : splitInvoke? T F B = none) (d p : BlockId) :
    via T F (P ++ [B.id]) d p = via T F P d p := by
  rw [via_append hF P hB, hsplit]
  split_ifs with hp
  · rw [hp, via_self hP]
  · rfl

/-- Only the block itself enters through itself before its turn. -/
theorem eq_of_via_eq {P : List BlockId} {B : BasicBlock} (hF : F.Source) (hB : B ∈ F.blocks)
    {d p : BlockId} (h : via T F P d p = B.id) : p = B.id := by
  unfold via at h
  split_ifs at h
  · cases he : (F.block? p).bind (splitInvoke? T F) with
    | none =>
        rw [he] at h
        exact h
    | some e =>
        rw [he] at h
        dsimp only at h
        split_ifs at h
        · exact absurd h (hF.ne_splitOf hB e.cs.id).symm
        · exact h
  · exact h

/-- Redirecting the one entry of a block in a phi node. -/
theorem revector_map {b new : BlockId} {f : BlockId → BlockId} (hf : ∀ p, f p = b ↔ p = b)
    {l : List (BlockId × Value)} (hl : (l.map Prod.fst).count b ≤ 1) :
    revector b new (l.map fun e => (f e.1, e.2)) =
      l.map fun e => (if e.1 = b then new else f e.1, e.2) := by
  induction l with
  | nil => rfl
  | cons e l ih =>
      obtain ⟨p, v⟩ := e
      rw [List.map_cons, List.map_cons, revector]
      by_cases hp : p = b
      · subst hp
        have hnone : ∀ e ∈ l, e.1 ≠ p := by
          intro e he heq
          have hpos : 0 < (l.map Prod.fst).count p :=
            List.count_pos_iff.2 (heq ▸ List.mem_map_of_mem he)
          rw [List.map_cons, List.count_cons_self] at hl
          omega
        have hrest : (l.map fun e => (if e.1 = p then new else f e.1, e.2)) =
            l.map fun e => (f e.1, e.2) :=
          List.map_congr_left fun e he => by rw [if_neg (hnone e he)]
        rw [if_pos ((hf p).2 rfl), if_pos rfl, hrest]
      · rw [if_neg (mt (hf p).1 hp), if_neg hp, ih]
        rw [List.map_cons, List.count_cons_of_ne (by simpa using hp)] at hl
        exact hl

/-- What stands at the head of a block are hooks. -/
theorem isHook_of_mem_headHooks {P : List BlockId} {d : BlockId} {I : Instruction}
    (hI : I ∈ headHooks T F P d) : ∃ CS, I = .call CS ∧ CS.isHook = true := by
  unfold headHooks at hI
  split at hI
  · exact absurd hI (by simp)
  · split_ifs at hI
    · split at hI
      · rename_i e he
        split_ifs at hI
        · obtain ⟨C, -, hC⟩ := Option.bind_eq_some_iff.1 he
          obtain ⟨-, -, hhook⟩ := hookedInvoke?_eq_some.1 hC
          exact ⟨e.hook, by simpa using hI, (hookFor_eq_some hhook).2⟩
        · exact absurd hI (by simp)
      · exact absurd hI (by simp)
    · exact absurd hI (by simp)

/-- The body of a block before its turn, with hooks. -/
theorem hookBody_rewriteBlock (hT : T.NoHooks) {P : List BlockId} {B : BasicBlock} (hP : B.id ∉ P)
    {body : List Instruction} : hookBody T (rewriteBlock T F P B).body = some body ↔
      (∀ CS ∈ B.body.filterMap Instruction.call?, (getHookInst T CS).isSome) ∧
        body = headHooks T F P B.id ++ B.body.flatMap (hooked T) := by
  rw [rewriteBlock]
  dsimp only
  rw [if_neg hP, hookBody_append hT fun I hI => isHook_of_mem_headHooks hI, Option.map_eq_some_iff]
  constructor
  · rintro ⟨rest, hrest, rfl⟩
    obtain ⟨hargs, rfl⟩ := hookBody_eq_some.1 hrest
    exact ⟨hargs, rfl⟩
  · rintro ⟨hargs, rfl⟩
    exact ⟨_, hookBody_eq_some.2 ⟨hargs, rfl⟩, rfl⟩

/-- The source blocks after one more turn, up to the block itself. -/
theorem rewriteBlock_append_of_ne {P : List BlockId} {B BB : BasicBlock} (hne : BB.id ≠ B.id) :
    rewriteBlock T F (P ++ [B.id]) BB =
      { rewriteBlock T F P BB with
        phis := BB.phis.map fun phi =>
          { phi with incoming := phi.incoming.map fun e => (via T F (P ++ [B.id]) BB.id e.1, e.2) }
        body := headHooks T F (P ++ [B.id]) BB.id ++
          if BB.id ∈ P then BB.body.flatMap (hooked T) else BB.body } := by
  have hmem : BB.id ∈ P ++ [B.id] ↔ BB.id ∈ P := by simp [hne]
  simp only [rewriteBlock, hmem]

/-- Changing a body of the rewritten function, block by block. -/
theorem modify_rewriteFunction (P : List BlockId) (b : BlockId) (f : BasicBlock → BasicBlock) :
    ((rewriteFunction T names F P).modify b f).blocks =
      F.blocks.flatMap fun BB => (expandBlock T names F P BB).map fun C =>
        if C.id = b then f C else C := by
  rw [Function.modify, rewriteFunction, List.map_flatMap]

/-- The block on the split edge of a block is not one of the source. -/
theorem id_of_mem_tail {P : List BlockId} {BB C : BasicBlock}
    (h : C ∈ (if BB.id ∈ P then ((splitInvoke? T F BB).map (splitBlock names)).toList else [])) :
    BB.id ∈ P ∧ ∃ e, splitInvoke? T F BB = some e ∧ C.id = .splitOf e.cs.id := by
  split_ifs at h with hP
  · obtain ⟨e, he, rfl⟩ := Option.map_eq_some_iff.1 (Option.mem_toList.1 h)
    exact ⟨hP, e, he, rfl⟩
  · exact absurd h (by simp)

/-- A block on a split edge is left alone by a change of a source block. -/
theorem map_tail (hF : F.Source) {P : List BlockId} {B BB : BasicBlock} (hB : B ∈ F.blocks)
    (f : BasicBlock → BasicBlock) :
    ((if BB.id ∈ P then ((splitInvoke? T F BB).map (splitBlock names)).toList else []).map
      fun C => if C.id = B.id then f C else C) =
      if BB.id ∈ P then ((splitInvoke? T F BB).map (splitBlock names)).toList else [] := by
  refine (List.map_congr_left fun C hC => ?_).trans (List.map_id _)
  obtain ⟨-, e, -, hid⟩ := id_of_mem_tail hC
  rw [if_neg (hid ▸ (hF.ne_splitOf hB e.cs.id).symm), id]

/-- **A turn without an invoke**: the body of the block gets its hooks. -/
theorem expandBlock_append_none (hF : F.Source) {P : List BlockId} {B : BasicBlock}
    (hB : B ∈ F.blocks) (hP : B.id ∉ P) (hnone : B.hookedInvoke? T = none)
    {body : List Instruction} (hbody : body = headHooks T F P B.id ++ B.body.flatMap (hooked T))
    {BB : BasicBlock} (hBB : BB ∈ F.blocks) :
    ((expandBlock T names F P BB).map fun C =>
      if C.id = B.id then { C with body := body } else C) =
      expandBlock T names F (P ++ [B.id]) BB := by
  have hsplit : splitInvoke? T F B = none := by simp [splitInvoke?, hnone]
  have hhead : ∀ d, headHooks T F (P ++ [B.id]) d = headHooks T F P d := fun d => by
    rw [headHooks_append hF hB hP, hnone]
  have hvia := via_append_of_splitInvoke?_eq_none hF hP hB hsplit
  by_cases hid : BB.id = B.id
  · obtain rfl : BB = B := Function.eq_of_id_eq hF.nodup hBB hB hid
    simp [expandBlock, rewriteBlock, hP, hsplit, rewriteTerm, hhead, hvia, hbody]
  · have hmem : BB.id ∈ P ++ [B.id] ↔ BB.id ∈ P := by simp [hid]
    have hrewrite : rewriteBlock T F (P ++ [B.id]) BB = rewriteBlock T F P BB := by
      rw [rewriteBlock_append_of_ne hid]
      simp only [rewriteBlock, hhead, hvia]
    rw [expandBlock, expandBlock, List.map_cons, map_tail hF hB, hrewrite,
      if_neg (show (rewriteBlock T F P BB).id ≠ B.id from hid)]
    simp only [hmem]

/-- **A turn with an invoke whose destination is its own**: the hook goes to the head of it. -/
theorem expandBlock_append_front (hF : F.Source) {P : List BlockId} {B D : BasicBlock}
    (hB : B ∈ F.blocks) (hP : B.id ∉ P) {e : HookedInvoke} (he : B.hookedInvoke? T = some e)
    (hD : D ∈ F.blocks) (hnormal : e.normal = D.id) (hs : shared F e.normal = false)
    {body : List Instruction} (hbody : body = headHooks T F P B.id ++ B.body.flatMap (hooked T))
    {BB : BasicBlock} (hBB : BB ∈ F.blocks) :
    ((expandBlock T names F P BB).map fun C =>
      if C.id = B.id then { C with body := body } else C).map (fun C =>
        if C.id = D.id then { C with body := .call e.hook :: C.body } else C) =
      expandBlock T names F (P ++ [B.id]) BB := by
  obtain ⟨unwind, hterm, -⟩ := hookedInvoke?_eq_some.1 he
  have hpred : F.getSinglePredecessor D.id = some B.id := by
    have hsucc : D.id ∈ B.term.succs := by simp [hterm, Terminator.succs, hnormal]
    exact getSinglePredecessor_of_not_shared hB hsucc (hnormal ▸ hs)
  have hempty : headHooks T F P D.id = [] := by
    unfold headHooks
    rw [hpred]
    exact if_neg hP
  have hsplit : splitInvoke? T F B = none := by
    cases h : splitInvoke? T F B with
    | none => rfl
    | some e' =>
        obtain ⟨he', hs'⟩ := splitInvoke?_eq_some.1 h
        obtain rfl := Option.some_inj.1 (he.symm.trans he')
        rw [hs] at hs'
        exact absurd hs' (by simp)
  have hhead : ∀ d, headHooks T F (P ++ [B.id]) d =
      if d = D.id then [.call e.hook] else headHooks T F P d := fun d => by
    rw [headHooks_append hF hB hP, he]
    by_cases hd : d = D.id
    · subst hd
      simp [hnormal, hnormal ▸ hs]
    · simp [hnormal, hd, Ne.symm hd]
  have hvia := via_append_of_splitInvoke?_eq_none hF hP hB hsplit
  by_cases hid : BB.id = B.id
  · obtain rfl : BB = B := Function.eq_of_id_eq hF.nodup hBB hB hid
    by_cases hd : BB.id = D.id
    · obtain rfl : BB = D := Function.eq_of_id_eq hF.nodup hBB hD hd
      simp [expandBlock, rewriteBlock, hP, hsplit, rewriteTerm, hhead, hvia, hbody, hempty]
    · simp [expandBlock, rewriteBlock, hP, hsplit, rewriteTerm, hhead, hvia, hbody, hd]
  · have hmem : BB.id ∈ P ++ [B.id] ↔ BB.id ∈ P := by simp [hid]
    rw [expandBlock, expandBlock, List.map_cons, map_tail hF hB, List.map_cons, map_tail hF hD,
      rewriteBlock_append_of_ne hid, if_neg (show (rewriteBlock T F P BB).id ≠ B.id from hid)]
    simp only [hmem]
    congr 1
    by_cases hd : BB.id = D.id
    · simp [rewriteBlock, hhead, hvia, hd, hempty]
    · simp [rewriteBlock, hhead, hvia, hd]

theorem splitEdge_of_ne {i : InstId} {src dest : BlockId} {name : String} {C : BasicBlock}
    (hsrc : C.id ≠ src) (hdest : C.id ≠ dest) : C.splitEdge i src dest name = [C] := by
  simp [BasicBlock.splitEdge, hsrc, hdest]

/-- Blocks that are not involved stay as they are. -/
theorem split_tail {i : InstId} {src dest : BlockId} {name : String} {f g : BasicBlock → BasicBlock}
    {l : List BasicBlock} (h : ∀ C ∈ l, C.id ≠ src ∧ C.id ≠ dest ∧ C.id ≠ .splitOf i) :
    (((l.map fun C => if C.id = src then f C else C).flatMap
      (BasicBlock.splitEdge i src dest name)).map fun C =>
        if C.id = .splitOf i then g C else C) = l := by
  induction l with
  | nil => rfl
  | cons C l ih =>
      obtain ⟨hsrc, hdest, hnew⟩ := h C (List.mem_cons_self ..)
      rw [List.map_cons, if_neg hsrc, List.flatMap_cons, splitEdge_of_ne hsrc hdest,
        List.singleton_append, List.map_cons, if_neg hnew,
        ih fun C' hC' => h C' (List.mem_cons_of_mem _ hC')]

/-- Calls of different blocks have different identities. -/
theorem Function.Source.cs_ne (hF : F.Source) {B C : BasicBlock} (hB : B ∈ F.blocks)
    (hC : C ∈ F.blocks) (hne : B.id ≠ C.id) {e e' : HookedInvoke} (he : B.hookedInvoke? T = some e)
    (he' : C.hookedInvoke? T = some e') : e.cs.id ≠ e'.cs.id := by
  have hsymm : Std.Symm fun B C : BasicBlock =>
      ∀ CS ∈ B.calls, ∀ CS' ∈ C.calls, CS.id ≠ CS'.id :=
    ⟨fun _ _ h CS hCS CS' hCS' => (h CS' hCS' CS hCS).symm⟩
  exact hF.pairwise_calls.forall hB hC (fun h => hne (h ▸ rfl)) e.cs
    (mem_calls_of_hookedInvoke? he) e'.cs (mem_calls_of_hookedInvoke? he')

/-- **A turn with an invoke whose destination is shared**: the edge is split, and the hook goes
into the new block. -/
theorem expandBlock_append_split (hF : F.Source) {P : List BlockId} {B D : BasicBlock}
    (hB : B ∈ F.blocks) (hP : B.id ∉ P) {e : HookedInvoke} (he : B.hookedInvoke? T = some e)
    (hD : D ∈ F.blocks) (hnormal : e.normal = D.id) (hs : shared F e.normal = true)
    {body : List Instruction} (hbody : body = headHooks T F P B.id ++ B.body.flatMap (hooked T))
    {BB : BasicBlock} (hBB : BB ∈ F.blocks) :
    ((((expandBlock T names F P BB).map fun C =>
      if C.id = B.id then { C with body := body } else C).flatMap
        (BasicBlock.splitEdge e.cs.id B.id D.id (names e.cs.id))).map fun C =>
          if C.id = .splitOf e.cs.id then { C with body := .call e.hook :: C.body } else C) =
      expandBlock T names F (P ++ [B.id]) BB := by
  obtain ⟨unwind, hterm, -⟩ := hookedInvoke?_eq_some.1 he
  have hsplit : splitInvoke? T F B = some e := splitInvoke?_eq_some.2 ⟨he, hs⟩
  have hhead : ∀ d, headHooks T F (P ++ [B.id]) d = headHooks T F P d := fun d => by
    rw [headHooks_append hF hB hP, he]
    by_cases hd : e.normal = d
    · subst hd
      simp [hs]
    · simp [hd]
  have hvia : ∀ d p, via T F (P ++ [B.id]) d p =
      if p = B.id ∧ d = D.id then .splitOf e.cs.id else via T F P d p := fun d p => by
    rw [via_append hF P hB, hsplit]
    by_cases hp : p = B.id
    · subst hp
      by_cases hd : d = D.id
      · simp [hd, hnormal]
      · simp [hd, hnormal, Ne.symm hd, via_self hP]
    · simp [hp]
  -- the phi nodes of the destination have one entry for the edge
  have hphis : ∀ phi ∈ D.phis, revector B.id (.splitOf e.cs.id)
      (phi.incoming.map fun x => (via T F P D.id x.1, x.2)) =
        phi.incoming.map fun x => (via T F (P ++ [B.id]) D.id x.1, x.2) := by
    intro phi hphi
    have hcount : (phi.incoming.map Prod.fst).count B.id ≤ 1 := by
      have hne := hF.invoke_ne B hB _ _ _ hterm
      rw [(hF.phis D hD phi hphi).count_eq, Function.count_preds hF.nodup hB, hterm]
      simp [Terminator.succs, hnormal, hnormal ▸ hne.symm]
    rw [revector_map (fun p => ⟨eq_of_via_eq hF hB, fun h => by rw [h, via_self hP]⟩) hcount]
    refine List.map_congr_left fun x _ => ?_
    rw [hvia]
    simp
  by_cases hid : BB.id = B.id
  · obtain rfl : BB = B := Function.eq_of_id_eq hF.nodup hBB hB hid
    have hsplitOf := hF.ne_splitOf hBB e.cs.id
    by_cases hd : BB.id = D.id
    · obtain rfl : BB = D := Function.eq_of_id_eq hF.nodup hBB hD hd
      simpa [expandBlock, rewriteBlock, hP, hsplit, rewriteTerm, hhead, hbody,
        BasicBlock.splitEdge, splitBlock, hsplitOf, hnormal] using hphis
    · simp [expandBlock, rewriteBlock, hP, hsplit, rewriteTerm, hhead, hvia, hbody, hd,
        BasicBlock.splitEdge, splitBlock, hsplitOf, hnormal]
  · have hmem : BB.id ∈ P ++ [B.id] ↔ BB.id ∈ P := by simp [hid]
    have htail : ∀ C ∈ (if BB.id ∈ P then ((splitInvoke? T F BB).map (splitBlock names)).toList
        else []), C.id ≠ B.id ∧ C.id ≠ D.id ∧ C.id ≠ .splitOf e.cs.id := by
      intro C hC
      obtain ⟨-, e', he', hCid⟩ := id_of_mem_tail hC
      rw [hCid]
      refine ⟨(hF.ne_splitOf hB _).symm, (hF.ne_splitOf hD _).symm, fun heq => ?_⟩
      exact hF.cs_ne hBB hB hid (splitInvoke?_eq_some.1 he').1 he (BlockId.splitOf.inj heq)
    have hsplitOf := hF.ne_splitOf hBB e.cs.id
    rw [expandBlock, expandBlock, List.map_cons, List.flatMap_cons, List.map_append,
      split_tail htail, rewriteBlock_append_of_ne hid,
      if_neg (show (rewriteBlock T F P BB).id ≠ B.id from hid)]
    simp only [hmem]
    by_cases hd : BB.id = D.id
    · obtain rfl : BB = D := Function.eq_of_id_eq hF.nodup hBB hD hd
      simpa [rewriteBlock, hhead, BasicBlock.splitEdge, hid, hsplitOf] using hphis
    · simp [rewriteBlock, hhead, hvia, BasicBlock.splitEdge, hid, hd, hsplitOf]

/-- Changes inside a block leave the edges alone. -/
theorem shared_modify (G : Function) (b : BlockId) {f : BasicBlock → BasicBlock}
    (hf : ∀ BB, (f BB).term = BB.term) (d : BlockId) : shared (G.modify b f) d = shared G d := by
  have hlen : ((G.modify b f).preds d).length = (G.preds d).length := by
    rw [length_preds, length_preds, Function.modify, List.map_map]
    refine congrArg List.sum (List.map_congr_left fun BB _ => ?_)
    rw [Function.comp_apply]
    split_ifs
    · rw [hf]
    · rfl
  rw [Bool.eq_iff_iff, shared_iff, shared_iff, hlen]

/-- **Whether a block is shared does not change on the way.** -/
theorem shared_rewriteFunction (hF : F.Source) (P : List BlockId) {D : BasicBlock}
    (hD : D ∈ F.blocks) : shared (rewriteFunction T names F P) D.id = shared F D.id := by
  obtain ⟨n, hn⟩ := hF.ids_src D hD
  rw [hn, Bool.eq_iff_iff, shared_iff, shared_iff, length_preds_rewriteFunction]

/-- The function after a turn, from its blocks. -/
theorem eq_rewriteFunction {P : List BlockId} {G : Function} (hname : G.name = F.name)
    (hlinkage : G.linkage = F.linkage)
    (hblocks : G.blocks = F.blocks.flatMap (expandBlock T names F P)) :
    G = rewriteFunction T names F P := by
  obtain ⟨name, linkage, blocks⟩ := G
  obtain rfl : name = F.name := hname
  obtain rfl : linkage = F.linkage := hlinkage
  obtain rfl : blocks = _ := hblocks
  rfl

section

variable {P : List BlockId} {B : BasicBlock} {body : List Instruction}

/-- A turn without an invoke. -/
theorem modify_eq_rewriteFunction (hF : F.Source) (hB : B ∈ F.blocks) (hP : B.id ∉ P)
    (hnone : B.hookedInvoke? T = none)
    (hbody : body = headHooks T F P B.id ++ B.body.flatMap (hooked T)) :
    (rewriteFunction T names F P).modify B.id (fun C => { C with body := body }) =
      rewriteFunction T names F (P ++ [B.id]) := by
  refine eq_rewriteFunction rfl rfl ?_
  rw [modify_rewriteFunction]
  exact List.flatMap_congr fun BB hBB => expandBlock_append_none hF hB hP hnone hbody hBB

/-- A turn with an invoke whose destination is its own. -/
theorem insertFront_eq_rewriteFunction (hF : F.Source) (hB : B ∈ F.blocks) (hP : B.id ∉ P)
    {e : HookedInvoke} (he : B.hookedInvoke? T = some e) {D : BasicBlock} (hD : D ∈ F.blocks)
    (hnormal : e.normal = D.id) (hs : shared F e.normal = false)
    (hbody : body = headHooks T F P B.id ++ B.body.flatMap (hooked T)) :
    ((rewriteFunction T names F P).modify B.id (fun C => { C with body := body })).insertFront
      e.normal e.hook = rewriteFunction T names F (P ++ [B.id]) := by
  refine eq_rewriteFunction rfl rfl ?_
  rw [Function.insertFront, Function.modify, modify_rewriteFunction, List.map_flatMap, hnormal]
  exact List.flatMap_congr fun BB hBB =>
    expandBlock_append_front hF hB hP he hD hnormal hs hbody hBB

/-- A turn with an invoke whose destination is shared. -/
theorem splitEdge_eq_rewriteFunction (hF : F.Source) (hB : B ∈ F.blocks) (hP : B.id ∉ P)
    {e : HookedInvoke} (he : B.hookedInvoke? T = some e) {D : BasicBlock} (hD : D ∈ F.blocks)
    (hnormal : e.normal = D.id) (hs : shared F e.normal = true)
    (hbody : body = headHooks T F P B.id ++ B.body.flatMap (hooked T)) :
    (((rewriteFunction T names F P).modify B.id (fun C => { C with body := body })).splitEdge
      e.cs.id B.id e.normal (names e.cs.id)).insertFront (.splitOf e.cs.id) e.hook =
        rewriteFunction T names F (P ++ [B.id]) := by
  refine eq_rewriteFunction rfl rfl ?_
  rw [Function.insertFront, Function.modify, Function.splitEdge, modify_rewriteFunction,
    List.flatMap_assoc, List.map_flatMap, hnormal]
  exact List.flatMap_congr fun BB hBB =>
    expandBlock_append_split hF hB hP he hD hnormal hs hbody hBB

/-- **One turn of the loop** succeeds when the calls of the block have enough operands, and adds
the block to those that are done. -/
theorem hookBlock_rewriteFunction (hT : T.NoHooks) (hF : F.Source) (hB : B ∈ F.blocks)
    (hP : B.id ∉ P) {G : Function} :
    hookBlock T names (rewriteFunction T names F P) B.id = some G ↔
      (∀ CS ∈ B.calls, (getHookInst T CS).isSome) ∧
        G = rewriteFunction T names F (P ++ [B.id]) := by
  have hterm : (rewriteBlock T F P B).term = B.term := if_neg hP
  unfold hookBlock
  rw [block?_rewriteFunction hF P hB]
  simp only [Option.bind_eq_bind, Option.bind_some, hterm, Option.bind_eq_some_iff,
    hookBody_rewriteBlock hT hP, BasicBlock.calls, List.forall_mem_append, and_assoc,
    exists_and_left, exists_eq_left]
  refine and_congr_right fun _ => ?_
  generalize hbody : headHooks T F P B.id ++ B.body.flatMap (hooked T) = body
  have hcomm : ∀ {G' : Function}, some G' = some G ↔ G = G' := Option.some_inj.trans eq_comm
  cases hB' : B.term with
  | br dests =>
      have hnone : B.hookedInvoke? T = none := by simp [BasicBlock.hookedInvoke?, hB']
      rw [← modify_eq_rewriteFunction hF hB hP hnone hbody.symm]
      simp only [hcomm, Terminator.call?, Option.toList_none]
      exact ⟨fun h => ⟨fun CS hCS => absurd hCS (by simp), h⟩, fun h => h.2⟩
  | callbr CS dests =>
      have hnone : B.hookedInvoke? T = none := by simp [BasicBlock.hookedInvoke?, hB']
      rw [← modify_eq_rewriteFunction hF hB hP hnone hbody.symm]
      cases hg : getHookInst T CS with
      | none => simp [Terminator.call?, hg]
      | some newHook =>
          simp only [Option.bind_some, hcomm, Terminator.call?, Option.toList_some,
            List.forall_mem_singleton, hg, Option.isSome_some, true_and]
  | invoke CS normal unwind =>
      rcases hg : getHookInst T CS with _ | _ | hook
      · simp [Terminator.call?, hg]
      · have hnone : B.hookedInvoke? T = none := by
          simp [BasicBlock.hookedInvoke?, hB', hookFor, hg]
        rw [← modify_eq_rewriteFunction hF hB hP hnone hbody.symm]
        simp only [Option.bind_some, hcomm, Terminator.call?, Option.toList_some,
          List.forall_mem_singleton, hg, Option.isSome_some, true_and]
      · have he : B.hookedInvoke? T = some ⟨CS, normal, hook⟩ := by
          simp [BasicBlock.hookedInvoke?, hB', hookFor, hg]
        obtain ⟨D, hD, hnormal⟩ : ∃ D ∈ F.blocks, normal = D.id := by
          have hmem := hF.succs_mem B hB (by simp [hB', Terminator.succs] : normal ∈ B.term.succs)
          obtain ⟨D, hD, hid⟩ := List.mem_map.1 hmem
          exact ⟨D, hD, hid.symm⟩
        -- the edges are those of the source function, whatever has been split before
        have hshared : shared ((rewriteFunction T names F P).modify B.id fun C =>
            { C with body := body }) normal = shared F normal := by
          rw [shared_modify (f := fun C => { C with body := body }) _ _ fun _ => rfl, hnormal,
            shared_rewriteFunction hF P hD]
        simp only [Option.bind_some, Terminator.call?, Option.toList_some,
          List.forall_mem_singleton, hg, Option.isSome_some, true_and]
        change (if shared _ normal = true then _ else _) = _ ↔ _
        rw [hshared]
        cases hs : shared F normal with
        | true =>
            rw [if_pos rfl, hcomm,
              ← splitEdge_eq_rewriteFunction hF hB hP he hD hnormal hs hbody.symm]
        | false =>
            rw [if_neg (by simp), hcomm,
              ← insertFront_eq_rewriteFunction hF hB hP he hD hnormal hs hbody.symm]

end

/-- **The whole loop**, for any blocks in any order. -/
theorem foldlM_hookBlock (hT : T.NoHooks) (hF : F.Source) {P Q : List BlockId}
    (hQ : (P ++ Q).Nodup) (hmem : Q ⊆ F.ids) {G : Function} :
    Q.foldlM (hookBlock T names) (rewriteFunction T names F P) = some G ↔
      (∀ B ∈ F.blocks, B.id ∈ Q → ∀ CS ∈ B.calls, (getHookInst T CS).isSome) ∧
        G = rewriteFunction T names F (P ++ Q) := by
  induction Q generalizing P with
  | nil =>
      rw [List.foldlM_nil, List.append_nil]
      constructor
      · exact fun h => ⟨fun B _ hB => absurd hB (by simp), (Option.some_inj.1 h).symm⟩
      · exact fun h => h.2 ▸ rfl
  | cons b Q ih =>
      obtain ⟨B, hB, rfl⟩ := List.mem_map.1 (hmem (List.mem_cons_self ..))
      have hassoc : P ++ B.id :: Q = P ++ [B.id] ++ Q := by simp
      have hP : B.id ∉ P := by
        intro h
        exact (List.nodup_append.1 hQ).2.2 _ h _ (List.mem_cons_self ..) rfl
      rw [List.foldlM_cons]
      simp only [Option.bind_eq_bind, Option.bind_eq_some_iff,
        hookBlock_rewriteFunction hT hF hB hP]
      constructor
      · rintro ⟨G₁, ⟨hargs, rfl⟩, hrest⟩
        obtain ⟨hargs', rfl⟩ :=
          (ih (hassoc ▸ hQ) fun x hx => hmem (List.mem_cons_of_mem _ hx)).1 hrest
        refine ⟨fun C hC hid => ?_, by rw [hassoc]⟩
        rcases List.mem_cons.1 hid with hid | hid
        · obtain rfl : C = B := Function.eq_of_id_eq hF.nodup hC hB hid
          exact hargs
        · exact hargs' C hC hid
      · rintro ⟨hargs, rfl⟩
        refine ⟨_, ⟨hargs B hB (List.mem_cons_self ..), rfl⟩, ?_⟩
        exact (ih (hassoc ▸ hQ) fun x hx => hmem (List.mem_cons_of_mem _ hx)).2
          ⟨fun C hC hid => hargs C hC (List.mem_cons_of_mem _ hid), by rw [hassoc]⟩

/-- **The pass on one function**: it succeeds when the calls in the blocks that can be reached have
enough operands, and the result is the rewritten function. -/
theorem hookFunction_eq_some (hT : T.NoHooks) (hF : F.Source) {G : Function} :
    hookFunction T names F = some G ↔
      (∀ B ∈ F.blocks, B.id ∈ F.RPOT → ∀ CS ∈ B.calls, (getHookInst T CS).isSome) ∧
        G = rewriteFunction T names F F.RPOT := by
  unfold hookFunction
  cases hl : F.blocks with
  | nil =>
      have hrpot : F.RPOT = [] := by rw [Function.RPOT, hl]
      rw [if_pos (by simp [Function.isDeclaration, hl]), hrpot, rewriteFunction_nil]
      constructor
      · exact fun h => ⟨fun B hB => absurd hB (by simp), (Option.some_inj.1 h).symm⟩
      · exact fun h => h.2 ▸ rfl
  | cons entry rest =>
      rw [if_neg (by simp [Function.isDeclaration, hl]), ← hl]
      have hfold : F.RPOT.foldlM (hookBlock T names) (rewriteFunction T names F []) = some G ↔ _ :=
        foldlM_hookBlock hT hF (by simpa using Function.nodup_RPOT hF.succs_mem)
          fun b hb => Function.mem_ids_of_mem_RPOT hF.succs_mem hb
      rwa [rewriteFunction_nil, List.nil_append] at hfold

end

end Provsan
