/-
**Executions of instrumented functions.**

An execution of a function enters blocks, runs their instructions and follows their terminators;
a call returns or unwinds.  What can be seen of it is a list of events.  The executions of a
function the pass has rewritten are those of the source, with the hooks in them: the hook of every
call that returned comes before anything else that is no phi node, and no other hook runs.

Main definitions:

* `Provsan.PathEvent`, `Provsan.Control`, `Provsan.Function.Step`, `Provsan.Function.Exec` —
  executions;
* `Provsan.PathEvent.ofPass` — what the pass has added to an execution;
* `Provsan.IsHookOf`, `Provsan.watch` — the hooks that an execution has to make;
* `Provsan.Instrumented` — the relation between a function and what the pass makes of it;
* `Provsan.Sim` — the simulation.

Main results:

* `Provsan.Sim.step` — the simulation is kept by every step;
* `Provsan.instrumented_rewriteFunction` — **the rewritten function is instrumented**;
* `Provsan.hookFunctions_instrumented` — **so is every function of a module after the pass**.
-/

import Provsan.Lib.Run
import Provsan.Passes.Rewrite
import Mathlib.Data.List.Forall2
import Mathlib.Tactic.FinCases

set_option relaxedAutoImplicit false
set_option autoImplicit false

namespace Provsan

/-! ### Executions -/

/-- What can be seen of an execution. -/
inductive PathEvent
  /-- A block is entered, and its phi nodes take their values. -/
  | enter (b : BlockId) (phis : List (ℕ × Option Value))
  /-- An instruction that is no call runs. -/
  | inst (n : ℕ)
  /-- A call or an invoke returns. -/
  | returned (cs : CallSite)
  /-- A call or an invoke unwinds. -/
  | unwound (cs : CallSite)
  /-- A `callbr` goes to one of its destinations. -/
  | jumped (cs : CallSite)
  /-- A terminator that is no call goes to a block. -/
  | branch (b d : BlockId)
  /-- A terminator that is no call leaves the function. -/
  | exit (b : BlockId)
  deriving DecidableEq

/-- Where an execution stands: before the instructions `rest` of a block, on an edge, or outside
the function. -/
inductive Control
  | inside (b : BlockId) (rest : List Instruction)
  | entering (pred b : BlockId)
  | done

/-- The values the phi nodes of a block take on the edge from `pred`. -/
def BasicBlock.phiValues (BB : BasicBlock) (pred : BlockId) : List (ℕ × Option Value) :=
  BB.phis.map fun phi => (phi.id, (phi.incoming.find? (·.1 = pred)).map Prod.snd)

/-- What a terminator of the block `b` does.  Hooks do not unwind: they are declared so. -/
inductive Terminator.Step (b : BlockId) : Terminator → PathEvent → Control → Prop
  | branch {dests : List BlockId} {d : BlockId} : d ∈ dests →
      Step b (.br dests) (.branch b d) (.entering b d)
  | exit : Step b (.br []) (.exit b) .done
  | invoke {cs : CallSite} {normal unwind : BlockId} :
      Step b (.invoke cs normal unwind) (.returned cs) (.entering b normal)
  | unwind {cs : CallSite} {normal unwind : BlockId} : cs.isHook = false →
      Step b (.invoke cs normal unwind) (.unwound cs) (.entering b unwind)
  | callbr {cs : CallSite} {dests : List BlockId} {d : BlockId} : d ∈ dests →
      Step b (.callbr cs dests) (.jumped cs) (.entering b d)

inductive Function.Step (F : Function) : Control → PathEvent → Control → Prop
  | enter {pred b : BlockId} {BB : BasicBlock} : F.block? b = some BB →
      Step F (.entering pred b) (.enter b (BB.phiValues pred)) (.inside b BB.body)
  | inst {b : BlockId} {n : ℕ} {rest : List Instruction} :
      Step F (.inside b (.other n :: rest)) (.inst n) (.inside b rest)
  | call {b : BlockId} {cs : CallSite} {rest : List Instruction} :
      Step F (.inside b (.call cs :: rest)) (.returned cs) (.inside b rest)
  | unwind {b : BlockId} {cs : CallSite} {rest : List Instruction} : cs.isHook = false →
      Step F (.inside b (.call cs :: rest)) (.unwound cs) .done
  | term {b : BlockId} {BB : BasicBlock} {e : PathEvent} {s : Control} : F.block? b = some BB →
      BB.term.Step b e s → Step F (.inside b []) e s

/-- **The executions of a function**, from the head of its entry block. -/
def Function.Exec (F : Function) (path : List PathEvent) (s : Control) : Prop :=
  ∃ entry, F.blocks.head? = some entry ∧ Run F.Step (.inside entry.id entry.body) path s

/-! ### Hooks in an execution -/

def InstId.isHook : InstId → Bool
  | .src _ => false
  | .hookOf _ => true

def BlockId.isSplit : BlockId → Bool
  | .src _ => false
  | .splitOf _ => true

/-- What the pass has added to an execution: the hooks, and the blocks on split edges. -/
def PathEvent.ofPass : PathEvent → Bool
  | .returned cs => cs.id.isHook
  | .enter b _ => b.isSplit
  | .branch b _ => b.isSplit
  | _ => false

def erase (path : List PathEvent) : List PathEvent := path.filter fun e => !e.ofPass

inductive HookKind
  | alloc
  | realloc
  | dealloc
  deriving DecidableEq

namespace HookKind

def name : HookKind → String
  | alloc => "allocHook"
  | realloc => "reallocHook"
  | dealloc => "deallocHook"

/-- The number of arguments a call of the kind needs for its hook. -/
def arity : HookKind → ℕ
  | alloc => 1
  | realloc => 4
  | dealloc => 2

/-- The operands of a call that its hook is told. -/
def operands : HookKind → CallSite → List (Option Value)
  | alloc, cs => [some (.call cs.id), cs.args[0]?]
  | realloc, cs => [some (.call cs.id), cs.args[3]?, cs.args[0]?, cs.args[1]?]
  | dealloc, cs => [cs.args[0]?, cs.args[1]?]

end HookKind

/-- The kind of the function a call calls directly: the first list it is in counts. -/
def Targets.kind? (T : Targets) (cs : CallSite) : Option HookKind :=
  cs.calledFunction.bind fun F =>
    if F ∈ T.AllocFunctions then some .alloc
    else if F ∈ T.ReallocFunctions then some .realloc
    else if F ∈ T.DeallocFunctions then some .dealloc
    else none

/-- A call has the arguments its hook needs. -/
def Targets.EnoughArgs (T : Targets) (cs : CallSite) : Prop :=
  ∀ kind ∈ T.kind? cs, kind.arity ≤ cs.args.length

/-- **The hook a call is to have**: of its kind, and with its operands in front. -/
def IsHookOf (T : Targets) (cs hook : CallSite) : Prop :=
  ∃ kind ∈ T.kind? cs, hook.id = .hookOf cs.id ∧ hook.calledFunction = some kind.name ∧
    kind.operands cs <+: hook.args.map some

instance (T : Targets) (cs hook : CallSite) : Decidable (IsHookOf T cs hook) :=
  inferInstanceAs (Decidable (∃ kind ∈ T.kind? cs, _))

/-- Watching an execution: the state is the call whose hook is due.  While there is one, nothing
may happen but that blocks are entered, until the hook runs; a hook that is not due may not run. -/
def watch (T : Targets) : Option CallSite → PathEvent → Option (Option CallSite)
  | due, .enter _ _ => some due
  | some cs, .returned hook => if IsHookOf T cs hook then some none else none
  | none, .returned cs =>
      if cs.id.isHook then none else some (if (T.kind? cs).isSome then some cs else none)
  | some _, _ => none
  | none, _ => some none

/-- **A function and its instrumented form**: every execution of the latter is, without what the
pass has added, one of the former, and its hooks are those that are due, each in its place. -/
def Instrumented (T : Targets) (F G : Function) : Prop :=
  ∀ path s, G.Exec path s → ∃ s₀ due, F.Exec (erase path) s₀ ∧
    path.foldlM (watch T) none = some due ∧ (s = .done → s₀ = .done ∧ due = none)

/-! ### The hooks the pass makes -/

section

variable {T : Targets}

theorem getHookInst_eq (cs : CallSite) : getHookInst T cs =
    (match T.kind? cs with
    | none => some none
    | some .alloc => do
        let size ← cs.args[0]?
        some (some ⟨.hookOf cs.id, some "allocHook",
          [.call cs.id, size, getDummyID, GlobalNullStr, GlobalNullStr], none⟩)
    | some .realloc => do
        let newSize ← cs.args[3]?
        let oldPtr ← cs.args[0]?
        let oldSize ← cs.args[1]?
        some (some ⟨.hookOf cs.id, some "reallocHook",
          [.call cs.id, newSize, oldPtr, oldSize, getDummyID, GlobalNullStr, GlobalNullStr], none⟩)
    | some .dealloc => do
        let ptr ← cs.args[0]?
        let size ← cs.args[1]?
        some (some ⟨.hookOf cs.id, some "deallocHook", [ptr, size, getDummyID], none⟩)) := by
  unfold getHookInst Targets.kind?
  cases cs.calledFunction with
  | none => rfl
  | some F =>
      dsimp only [Option.bind_some]
      split_ifs
      · cases cs.args[0]? <;> rfl
      · rfl
      · rfl
      · rfl

theorem hookFor_of_kind?_eq_none {cs : CallSite} (h : T.kind? cs = none) : hookFor T cs = none := by
  rw [hookFor, getHookInst_eq, h]
  rfl

/-- **A call with enough arguments gets the hook it is to have.** -/
theorem exists_hookFor {cs : CallSite} (hargs : T.EnoughArgs cs) {kind : HookKind}
    (h : T.kind? cs = some kind) : ∃ hook, hookFor T cs = some hook ∧ IsHookOf T cs hook := by
  have hlen := hargs kind h
  have hget : ∀ {n : ℕ}, n < kind.arity → ∃ v, cs.args[n]? = some v := fun {n} hn =>
    ⟨_, List.getElem?_eq_getElem (Nat.lt_of_lt_of_le hn hlen)⟩
  cases kind with
  | alloc =>
      obtain ⟨size, h0⟩ := hget (n := 0) (by decide)
      have hhook : hookFor T cs = some ⟨.hookOf cs.id, some "allocHook",
          [.call cs.id, size, getDummyID, GlobalNullStr, GlobalNullStr], none⟩ := by
        simp [hookFor, getHookInst_eq, h, h0]
      exact ⟨_, hhook, .alloc, h, rfl, rfl, by simp [HookKind.operands, h0]⟩
  | realloc =>
      obtain ⟨oldPtr, h0⟩ := hget (n := 0) (by decide)
      obtain ⟨oldSize, h1⟩ := hget (n := 1) (by decide)
      obtain ⟨newSize, h3⟩ := hget (n := 3) (by decide)
      have hhook : hookFor T cs = some ⟨.hookOf cs.id, some "reallocHook",
          [.call cs.id, newSize, oldPtr, oldSize, getDummyID, GlobalNullStr, GlobalNullStr],
          none⟩ := by
        simp [hookFor, getHookInst_eq, h, h0, h1, h3]
      exact ⟨_, hhook, .realloc, h, rfl, rfl, by simp [HookKind.operands, h0, h1, h3]⟩
  | dealloc =>
      obtain ⟨ptr, h0⟩ := hget (n := 0) (by decide)
      obtain ⟨size, h1⟩ := hget (n := 1) (by decide)
      have hhook : hookFor T cs = some ⟨.hookOf cs.id, some "deallocHook",
          [ptr, size, getDummyID], none⟩ := by
        simp [hookFor, getHookInst_eq, h, h0, h1]
      exact ⟨_, hhook, .dealloc, h, rfl, rfl, by simp [HookKind.operands, h0, h1]⟩

theorem isSome_getHookInst {cs : CallSite} (hargs : T.EnoughArgs cs) :
    (getHookInst T cs).isSome := by
  cases hk : T.kind? cs with
  | none => rw [getHookInst_eq, hk]; rfl
  | some kind =>
      obtain ⟨hook, hhook, -⟩ := exists_hookFor hargs hk
      rw [getHookInst_of_hookFor hhook]
      rfl

/-- The hook that is due, as it stands in a block. -/
def dueHooks (T : Targets) (due : Option CallSite) : List Instruction :=
  (due.bind (hookFor T)).toList.map Instruction.call

/-- A call whose hook can be due: it has one, as it is to be. -/
def Due (T : Targets) (due : Option CallSite) : Prop :=
  ∀ cs ∈ due, ∃ hook, hookFor T cs = some hook ∧ IsHookOf T cs hook

theorem due_none : Due T none := fun cs h => absurd h (by simp)

/-- A call that returns makes its hook due. -/
def dueAfter (T : Targets) (cs : CallSite) : Option CallSite :=
  if (T.kind? cs).isSome then some cs else none

theorem due_dueAfter {cs : CallSite} (hargs : T.EnoughArgs cs) : Due T (dueAfter T cs) := by
  intro cs' h
  unfold dueAfter at h
  split_ifs at h with hk
  · obtain ⟨kind, hk⟩ := Option.isSome_iff_exists.1 hk
    obtain rfl := Option.some_inj.1 h
    exact exists_hookFor hargs hk
  · exact absurd h (by simp)

theorem dueHooks_dueAfter (cs : CallSite) :
    dueHooks T (dueAfter T cs) = (hookFor T cs).toList.map Instruction.call := by
  unfold dueHooks dueAfter
  split_ifs with hk
  · rfl
  · rw [hookFor_of_kind?_eq_none (by simpa using hk)]
    rfl

theorem hooked_call (cs : CallSite) :
    hooked T (.call cs) = .call cs :: dueHooks T (dueAfter T cs) := by
  rw [dueHooks_dueAfter, hooked, Option.toList_map]

end

/-! ### Edges of the rewritten function -/

section

variable {T : Targets} {names : InstId → String} {F : Function}

theorem exists_of_mem_succs_of_mem_RPOT (hF : F.Source) {B : BasicBlock} (hB : B ∈ F.blocks)
    (hR : B.id ∈ F.RPOT) {d : BlockId} (hd : d ∈ B.term.succs) :
    ∃ D ∈ F.blocks, D.id = d ∧ d ∈ F.RPOT := by
  obtain ⟨D, hD, hid⟩ := List.mem_map.1 (hF.succs_mem B hB hd)
  obtain ⟨entry, hentry⟩ : ∃ entry, F.blocks.head? = some entry := by
    cases hl : F.blocks with
    | nil => exact absurd hB (by simp [hl])
    | cons entry l => exact ⟨entry, rfl⟩
  refine ⟨D, hD, hid, (Function.mem_RPOT hF.succs_mem hentry).2 ?_⟩
  have hstep : d ∈ F.succs B.id := by rwa [Function.succs_of_mem hF.nodup hB]
  exact ((Function.mem_RPOT hF.succs_mem hentry).1 hR).tail hstep

/-- The way from a block that has had its turn. -/
theorem via_of_mem (hF : F.Source) {P : List BlockId} {B : BasicBlock} (hB : B ∈ F.blocks)
    (hP : B.id ∈ P) (d : BlockId) : via T F P d B.id =
      match splitInvoke? T F B with
      | some e => if e.normal = d then .splitOf e.cs.id else B.id
      | none => B.id := by
  have hblock := Function.block?_of_mem hF.nodup hB
  cases hsplit : splitInvoke? T F B with
  | none => simp [via, hP, hblock, hsplit]
  | some e => simp [via, hP, hblock, hsplit]

/-- **Different blocks enter a block on different ways.** -/
theorem via_inj (hF : F.Source) {P : List BlockId} {d : BlockId} {B C : BasicBlock}
    (hB : B ∈ F.blocks) (hC : C ∈ F.blocks) :
    via T F P d B.id = via T F P d C.id ↔ B.id = C.id := by
  have hcases : ∀ A ∈ F.blocks, via T F P d A.id = A.id ∨
      ∃ e, A.hookedInvoke? T = some e ∧ via T F P d A.id = .splitOf e.cs.id := by
    intro A hA
    by_cases hP : A.id ∈ P
    · rw [via_of_mem hF hA hP]
      cases hs : splitInvoke? T F A with
      | none => exact Or.inl rfl
      | some e =>
          by_cases hd : e.normal = d
          · exact Or.inr ⟨e, (splitInvoke?_eq_some.1 hs).1, if_pos hd⟩
          · exact Or.inl (if_neg hd)
    · exact Or.inl (via_self hP d)
  constructor
  · intro h
    obtain hb | ⟨e, he, hb⟩ := hcases B hB
    · obtain hc | ⟨e', -, hc⟩ := hcases C hC
      · rw [← hb, h, hc]
      · exact absurd (hb.symm.trans (h.trans hc)) (hF.ne_splitOf hB _)
    · obtain hc | ⟨e', he', hc⟩ := hcases C hC
      · exact absurd (hc.symm.trans (h.symm.trans hb)) (hF.ne_splitOf hC _)
      · -- two split edges are the same one only for the same invoke
        by_contra hne
        exact hF.cs_ne hB hC hne he he' (BlockId.splitOf.inj (hb.symm.trans (h.trans hc)))
  · exact fun h => by rw [h]

/-- **Phi nodes keep their values**, whatever edges have been split. -/
theorem phiValues_rewriteBlock (hF : F.Source) {P : List BlockId} {B D : BasicBlock}
    (hB : B ∈ F.blocks) (hD : D ∈ F.blocks) :
    (rewriteBlock T F P D).phiValues (via T F P D.id B.id) = D.phiValues B.id := by
  unfold BasicBlock.phiValues rewriteBlock
  rw [List.map_map]
  refine List.map_congr_left fun phi hphi => ?_
  have hfind : ∀ x ∈ phi.incoming, (via T F P D.id x.1 = via T F P D.id B.id ↔ x.1 = B.id) := by
    intro x hx
    have hpred := (hF.phis D hD phi hphi).mem_iff.1 (List.mem_map_of_mem hx)
    obtain ⟨C, hC, hid, -⟩ := Function.mem_preds.1 hpred
    rw [← hid]
    exact via_inj hF hC hB
  rw [Function.comp_apply]
  dsimp only
  rw [List.find?_map, Option.map_map]
  refine congrArg (phi.id, ·) (congrArg (Option.map Prod.snd) ?_)
  generalize phi.incoming = l at hfind
  induction l with
  | nil => rfl
  | cons x l ih =>
      have hx := hfind x (List.mem_cons_self ..)
      have hl := ih fun y hy => hfind y (List.mem_cons_of_mem _ hy)
      rw [List.find?_cons, List.find?_cons, hl]
      simp only [Function.comp_apply, hx]

/-- **The hooks at the end of an edge** from a block that has had its turn. -/
theorem headHooks_of_mem_succs (hF : F.Source) {P : List BlockId} {B : BasicBlock}
    (hB : B ∈ F.blocks) (hP : B.id ∈ P) {d : BlockId} (hd : d ∈ B.term.succs) :
    headHooks T F P d =
      if shared F d then [] else
        match B.hookedInvoke? T with
        | some e => if e.normal = d then [.call e.hook] else []
        | none => [] := by
  unfold headHooks
  cases hs : shared F d with
  | true =>
      have hnone : F.getSinglePredecessor d = none := by simpa [shared] using hs
      rw [hnone]
      rfl
  | false =>
      rw [getSinglePredecessor_of_not_shared hB hd hs]
      dsimp only
      rw [if_pos hP, Function.block?_of_mem hF.nodup hB, Option.bind_some]
      rfl

/-- A hook that is due at the end of the normal edge of an invoke that is not split. -/
theorem headHooks_normal (hF : F.Source) {P : List BlockId} {B : BasicBlock} (hB : B ∈ F.blocks)
    (hP : B.id ∈ P) {cs : CallSite} {normal unwind : BlockId}
    (hterm : B.term = .invoke cs normal unwind) (hs : splitInvoke? T F B = none) :
    headHooks T F P normal = dueHooks T (dueAfter T cs) := by
  rw [dueHooks_dueAfter, headHooks_of_mem_succs hF hB hP (by simp [hterm, Terminator.succs])]
  cases hhook : hookFor T cs with
  | none =>
      have hnone : B.hookedInvoke? T = none := by simp [BasicBlock.hookedInvoke?, hterm, hhook]
      simp [hnone]
  | some hook =>
      have he : B.hookedInvoke? T = some ⟨cs, normal, hook⟩ := by
        simp [BasicBlock.hookedInvoke?, hterm, hhook]
      have hshared : shared F normal = false := by simpa [splitInvoke?, he] using hs
      simp [he, hshared]

/-- No hook stands at the end of another edge. -/
theorem headHooks_eq_nil (hF : F.Source) {P : List BlockId} {B : BasicBlock} (hB : B ∈ F.blocks)
    (hP : B.id ∈ P) {d : BlockId} (hd : d ∈ B.term.succs)
    (hne : ∀ e, B.hookedInvoke? T = some e → e.normal ≠ d) : headHooks T F P d = [] := by
  rw [headHooks_of_mem_succs hF hB hP hd]
  cases he : B.hookedInvoke? T with
  | none => simp
  | some e => simp [hne e he]

/-- The ways through other edges stay as they are. -/
theorem via_eq_self (hF : F.Source) {P : List BlockId} {B : BasicBlock} (hB : B ∈ F.blocks)
    (hP : B.id ∈ P) {d : BlockId} (hne : ∀ e, splitInvoke? T F B = some e → e.normal ≠ d) :
    via T F P d B.id = B.id := by
  rw [via_of_mem hF hB hP]
  cases he : splitInvoke? T F B with
  | none => rfl
  | some e => exact if_neg (hne e he)

/-! ### The simulation -/

/-- **The simulation**: where the rewritten function stands, where the source stands, and the call
whose hook is due.  On a split edge the source stands before the end of it. -/
inductive Sim (T : Targets) (F : Function) : Control → Control → Option CallSite → Prop
  | inside {B : BasicBlock} {rest : List Instruction} {due : Option CallSite} : B ∈ F.blocks →
      B.id ∈ F.RPOT → rest <:+ B.body → Due T due →
      Sim T F (.inside B.id (dueHooks T due ++ rest.flatMap (hooked T))) (.inside B.id rest) due
  | entering {B D : BasicBlock} {due : Option CallSite} : B ∈ F.blocks → D ∈ F.blocks →
      D.id ∈ F.RPOT → headHooks T F F.RPOT D.id = dueHooks T due → Due T due →
      Sim T F (.entering (via T F F.RPOT D.id B.id) D.id) (.entering B.id D.id) due
  | toSplit {B : BasicBlock} {e : HookedInvoke} : B ∈ F.blocks → B.id ∈ F.RPOT →
      splitInvoke? T F B = some e → Due T (some e.cs) →
      Sim T F (.entering B.id (.splitOf e.cs.id)) (.entering B.id e.normal) (some e.cs)
  | inSplit {B : BasicBlock} {e : HookedInvoke} {due : Option CallSite} : B ∈ F.blocks →
      B.id ∈ F.RPOT → splitInvoke? T F B = some e → Due T due →
      Sim T F (.inside (.splitOf e.cs.id) (dueHooks T due)) (.entering B.id e.normal) due
  | done : Sim T F .done .done none

/-- The source follows an event that is its own. -/
theorem step_of_keep {s₀ s₀' : Control} {e : PathEvent} (he : e.ofPass = false)
    (h : F.Step s₀ e s₀') : if !e.ofPass then F.Step s₀ e s₀' else s₀' = s₀ := by
  rw [he]
  exact h

/-- **Events of the pass**: a hook that is due runs, and is what it is to be. -/
theorem exists_hook_of_due {due : Option CallSite} (hdue : Due T due) {b : BlockId}
    {rest : List Instruction} {e : PathEvent} {s : Control} {cs : CallSite} (hcs : due = some cs)
    {G : Function} (h : G.Step (.inside b (dueHooks T due ++ rest)) e s) :
    watch T due e = some none ∧ e.ofPass = true ∧ s = .inside b rest := by
  subst hcs
  obtain ⟨hook, hhook, hof⟩ := hdue cs rfl
  have hlist : dueHooks T (some cs) = [.call hook] := by simp [dueHooks, hhook]
  rw [hlist, List.singleton_append] at h
  obtain ⟨hid, hishook⟩ := hookFor_eq_some hhook
  cases h with
  | call => exact ⟨if_pos hof, by simp [PathEvent.ofPass, hid, InstId.isHook], rfl⟩
  | unwind hno => exact absurd hishook (by simp [hno])

/-- What is to be shown for a step to `s'`: the watch goes on, and the source follows. -/
def Follows (T : Targets) (F : Function) (s₀ : Control) (due : Option CallSite) (e : PathEvent)
    (s' : Control) : Prop :=
  ∃ s₀' due', watch T due e = some due' ∧ Sim T F s' s₀' due' ∧
    if !e.ofPass then F.Step s₀ e s₀' else s₀' = s₀

/-- On an edge with no hook at its end both stand alike. -/
theorem sim_edge (hF : F.Source) {B : BasicBlock} (hB : B ∈ F.blocks) (hR : B.id ∈ F.RPOT)
    {d : BlockId} (hd : d ∈ B.term.succs)
    (hne : ∀ e, B.hookedInvoke? T = some e → e.normal ≠ d) :
    Sim T F (.entering B.id d) (.entering B.id d) none := by
  obtain ⟨D, hD, rfl, hDR⟩ := exists_of_mem_succs_of_mem_RPOT hF hB hR hd
  have hvia : via T F F.RPOT D.id B.id = B.id :=
    via_eq_self hF hB hR fun e' he' => hne e' (splitInvoke?_eq_some.1 he').1
  have hhead : headHooks T F F.RPOT D.id = dueHooks T none := headHooks_eq_nil hF hB hR hd hne
  have hsim := Sim.entering hB hD hDR hhead due_none
  rwa [hvia] at hsim

/-- The source follows over an edge with no hook at its end. -/
theorem follows_edge (hF : F.Source) {B : BasicBlock} (hB : B ∈ F.blocks) (hR : B.id ∈ F.RPOT)
    {d : BlockId} (hd : d ∈ B.term.succs) (hne : ∀ e, B.hookedInvoke? T = some e → e.normal ≠ d)
    {e : PathEvent} (he : e.ofPass = false) (hwatch : watch T none e = some none)
    (hstep : B.term.Step B.id e (.entering B.id d)) :
    Follows T F (.inside B.id []) none e (.entering B.id d) :=
  ⟨_, _, hwatch, sim_edge hF hB hR hd hne,
    step_of_keep he (.term (Function.block?_of_mem hF.nodup hB) hstep)⟩

/-- **An invoke**: the hook of a call that returns is due at the end of the normal edge or on the
split edge; the unwind edge is as it was. -/
theorem follows_invoke (hF : F.Source)
    (hargs : ∀ B ∈ F.blocks, B.id ∈ F.RPOT → ∀ cs ∈ B.calls, T.EnoughArgs cs) {B : BasicBlock}
    (hB : B ∈ F.blocks) (hR : B.id ∈ F.RPOT) {cs : CallSite} {normal unwind : BlockId}
    (hterm : B.term = .invoke cs normal unwind) {e : PathEvent} {s' : Control}
    (h : (rewriteTerm T F B).Step B.id e s') : Follows T F (.inside B.id []) none e s' := by
  have hblock := Function.block?_of_mem hF.nodup hB
  have hmem : cs ∈ B.calls := by simp [BasicBlock.calls, hterm, Terminator.call?]
  obtain ⟨m, hm⟩ := hF.calls_src cs (List.mem_flatMap_of_mem hB hmem)
  have hdue := due_dueAfter (hargs B hB hR cs hmem)
  have hwatch : watch T none (.returned cs) = some (dueAfter T cs) := by
    simp [watch, hm, InstId.isHook, dueAfter]
  have hkeep : (PathEvent.returned cs).ofPass = false := by
    simp [PathEvent.ofPass, hm, InstId.isHook]
  have hreturn : F.Step (.inside B.id []) (.returned cs) (.entering B.id normal) := by
    refine .term hblock ?_
    rw [hterm]
    exact .invoke
  -- the unwind edge is neither split nor has it a hook
  have hunwind : cs.isHook = false →
      Follows T F (.inside B.id []) none (.unwound cs) (.entering B.id unwind) := fun hno => by
    refine follows_edge hF hB hR (by simp [hterm, Terminator.succs]) (fun e' he' => ?_)
      rfl rfl ?_
    · obtain ⟨unwind', hterm', -⟩ := hookedInvoke?_eq_some.1 he'
      obtain ⟨-, rfl, rfl⟩ := Terminator.invoke.inj (hterm.symm.trans hterm')
      exact hF.invoke_ne B hB _ _ _ hterm
    · rw [hterm]
      exact .unwind hno
  rw [rewriteTerm] at h
  cases hs : splitInvoke? T F B with
  | none =>
      rw [hs] at h
      dsimp only at h
      rw [hterm] at h
      cases h with
      | invoke =>
          obtain ⟨D, hD, rfl, hDR⟩ := exists_of_mem_succs_of_mem_RPOT hF hB hR
            (by simp [hterm, Terminator.succs] : normal ∈ B.term.succs)
          have hvia : via T F F.RPOT D.id B.id = B.id :=
            via_eq_self hF hB hR (by simp [hs])
          have hsim := Sim.entering hB hD hDR (headHooks_normal hF hB hR hterm hs) hdue
          rw [hvia] at hsim
          exact ⟨_, _, hwatch, hsim, step_of_keep hkeep hreturn⟩
      | unwind hno => exact hunwind hno
  | some e' =>
      obtain ⟨unwind', hterm', hhook⟩ := hookedInvoke?_eq_some.1 (splitInvoke?_eq_some.1 hs).1
      obtain ⟨rfl, rfl, rfl⟩ := Terminator.invoke.inj (hterm.symm.trans hterm')
      rw [hs] at h
      dsimp only at h
      rw [hterm, Terminator.setNormal] at h
      cases h with
      | invoke =>
          have hsome : dueAfter T e'.cs = some e'.cs := by
            unfold dueAfter
            split_ifs with hk
            · rfl
            · rw [hookFor_of_kind?_eq_none (by simpa using hk)] at hhook
              exact absurd hhook (by simp)
          rw [hsome] at hdue hwatch
          exact ⟨_, _, hwatch, .toSplit hB hR hs hdue, step_of_keep hkeep hreturn⟩
      | unwind hno => exact hunwind hno

theorem follows_term (hF : F.Source)
    (hargs : ∀ B ∈ F.blocks, B.id ∈ F.RPOT → ∀ cs ∈ B.calls, T.EnoughArgs cs) {B : BasicBlock}
    (hB : B ∈ F.blocks) (hR : B.id ∈ F.RPOT) {e : PathEvent} {s' : Control}
    (h : (rewriteTerm T F B).Step B.id e s') : Follows T F (.inside B.id []) none e s' := by
  obtain ⟨n, hn⟩ := hF.ids_src B hB
  have hblock := Function.block?_of_mem hF.nodup hB
  cases hterm : B.term with
  | br dests =>
      have hnone : B.hookedInvoke? T = none := by simp [BasicBlock.hookedInvoke?, hterm]
      rw [rewriteTerm, splitInvoke?, hnone, Option.filter_none] at h
      dsimp only at h
      rw [hterm] at h
      cases h with
      | branch hd =>
          refine follows_edge hF hB hR (by simpa [hterm, Terminator.succs] using hd)
            (by simp [hnone]) (by simp [PathEvent.ofPass, hn, BlockId.isSplit]) rfl ?_
          rw [hterm]
          exact .branch hd
      | exit =>
          refine ⟨_, _, rfl, .done, step_of_keep rfl (.term hblock ?_)⟩
          rw [hterm]
          exact .exit
  | callbr cs dests =>
      have hnone : B.hookedInvoke? T = none := by simp [BasicBlock.hookedInvoke?, hterm]
      rw [rewriteTerm, splitInvoke?, hnone, Option.filter_none] at h
      dsimp only at h
      rw [hterm] at h
      cases h with
      | callbr hd =>
          refine follows_edge hF hB hR (by simpa [hterm, Terminator.succs] using hd)
            (by simp [hnone]) rfl rfl ?_
          rw [hterm]
          exact .callbr hd
  | invoke cs normal unwind => exact follows_invoke hF hargs hB hR hterm h

/-- **The simulation is kept by every step.** -/
theorem Sim.step (hF : F.Source)
    (hargs : ∀ B ∈ F.blocks, B.id ∈ F.RPOT → ∀ cs ∈ B.calls, T.EnoughArgs cs)
    {s s₀ s' : Control} {due : Option CallSite} {e : PathEvent} (hsim : Sim T F s s₀ due)
    (h : (rewriteFunction T names F F.RPOT).Step s e s') : Follows T F s₀ due e s' := by
  cases hsim with
  | @inside B rest due hB hR hrest hdue =>
      cases due with
      | some cs =>
          obtain ⟨hwatch, hpass, rfl⟩ := exists_hook_of_due hdue rfl h
          exact ⟨_, none, hwatch, .inside hB hR hrest due_none, by rw [hpass]; rfl⟩
      | none =>
          cases rest with
          | nil =>
              cases h with
              | term hblock hterm =>
                  rw [block?_rewriteFunction hF _ hB] at hblock
                  obtain rfl := Option.some_inj.1 hblock
                  refine follows_term hF hargs hB hR ?_
                  simpa [rewriteBlock, hR] using hterm
          | cons I rest =>
              have hrest' : rest <:+ B.body := (List.suffix_cons I rest).trans hrest
              cases I with
              | other n =>
                  cases h with
                  | inst =>
                      exact ⟨_, none, rfl, .inside hB hR hrest' hdue, step_of_keep rfl .inst⟩
              | call cs =>
                  have hmem : cs ∈ B.calls := List.mem_append_left _
                    (List.mem_filterMap.2 ⟨.call cs, hrest.subset (by simp), rfl⟩)
                  obtain ⟨m, hm⟩ := hF.calls_src cs (List.mem_flatMap_of_mem hB hmem)
                  rw [List.flatMap_cons, hooked_call] at h
                  cases h with
                  | call =>
                      refine ⟨_, dueAfter T cs, ?_,
                        .inside hB hR hrest' (due_dueAfter (hargs B hB hR cs hmem)),
                        step_of_keep (by simp [PathEvent.ofPass, hm, InstId.isHook]) .call⟩
                      simp [watch, hm, InstId.isHook, dueAfter]
                  | unwind hno => exact ⟨_, none, rfl, .done, step_of_keep rfl (.unwind hno)⟩
  | @entering B D due hB hD hDR hhead hdue =>
      obtain ⟨n, hn⟩ := hF.ids_src D hD
      cases h with
      | enter hblock =>
          rw [block?_rewriteFunction hF _ hD] at hblock
          obtain rfl := Option.some_inj.1 hblock
          have hbody : (rewriteBlock T F F.RPOT D).body =
              dueHooks T due ++ D.body.flatMap (hooked T) := by
            simp [rewriteBlock, hDR, hhead]
          rw [phiValues_rewriteBlock hF hB hD, hbody]
          refine ⟨_, due, rfl, .inside hD hDR List.suffix_rfl hdue, ?_⟩
          exact step_of_keep (by simp [PathEvent.ofPass, hn, BlockId.isSplit])
            (.enter (Function.block?_of_mem hF.nodup hD))
  | @toSplit B e' hB hR hs hdue =>
      cases h with
      | enter hblock =>
          rw [block?_splitBlock hF hB hR hs] at hblock
          obtain rfl := Option.some_inj.1 hblock
          obtain ⟨-, -, hhook⟩ := hookedInvoke?_eq_some.1 (splitInvoke?_eq_some.1 hs).1
          have hbody : (splitBlock names e').body = dueHooks T (some e'.cs) := by
            simp [splitBlock, dueHooks, hhook]
          rw [hbody]
          exact ⟨_, _, rfl, .inSplit hB hR hs hdue, rfl⟩
  | @inSplit B e' due hB hR hs hdue =>
      cases due with
      | some cs =>
          rw [← List.append_nil (dueHooks T (some cs))] at h
          obtain ⟨hwatch, hpass, rfl⟩ := exists_hook_of_due hdue rfl h
          exact ⟨_, none, hwatch, .inSplit hB hR hs due_none, by rw [hpass]; rfl⟩
      | none =>
          cases h with
          | term hblock hterm =>
              rw [block?_splitBlock hF hB hR hs] at hblock
              obtain rfl := Option.some_inj.1 hblock
              obtain ⟨he, hshared⟩ := splitInvoke?_eq_some.1 hs
              obtain ⟨unwind, hterm', -⟩ := hookedInvoke?_eq_some.1 he
              have hnormal : e'.normal ∈ B.term.succs := by simp [hterm', Terminator.succs]
              obtain ⟨D, hD, hid, hDR⟩ := exists_of_mem_succs_of_mem_RPOT hF hB hR hnormal
              have hhead : headHooks T F F.RPOT D.id = dueHooks T none := by
                rw [hid, headHooks_of_mem_succs hF hB hR hnormal, if_pos hshared]
                rfl
              have hsim := Sim.entering hB hD (hid ▸ hDR) hhead due_none
              rw [hid, via_of_mem hF hB hR, hs] at hsim
              dsimp only at hsim
              rw [if_pos rfl] at hsim
              rw [splitBlock] at hterm
              cases hterm with
              | branch hd =>
                  obtain rfl := List.mem_singleton.1 hd
                  exact ⟨_, none, rfl, hsim, rfl⟩
  | done => cases h

/-! ### Instrumented functions -/

/-- The entry block has no hook at its head. -/
theorem headHooks_entry (hF : F.Source) (P : List BlockId) {entry : BasicBlock}
    (hentry : F.blocks.head? = some entry) : headHooks T F P entry.id = [] := by
  unfold headHooks Function.getSinglePredecessor
  rw [hF.entry entry hentry]

theorem head?_rewriteFunction (P : List BlockId) :
    (rewriteFunction T names F P).blocks.head? = F.blocks.head?.map (rewriteBlock T F P) := by
  cases hl : F.blocks with
  | nil => simp [rewriteFunction, hl]
  | cons entry rest => simp [rewriteFunction, hl, expandBlock]

theorem sim_start (hF : F.Source) {entry : BasicBlock} (hentry : F.blocks.head? = some entry) :
    Sim T F (.inside entry.id (rewriteBlock T F F.RPOT entry).body) (.inside entry.id entry.body)
      none := by
  have hR : entry.id ∈ F.RPOT := (Function.mem_RPOT hF.succs_mem hentry).2 .refl
  have hbody : (rewriteBlock T F F.RPOT entry).body =
      dueHooks T none ++ entry.body.flatMap (hooked T) := by
    simp [rewriteBlock, hR, headHooks_entry hF _ hentry, dueHooks]
  rw [hbody]
  exact .inside (List.mem_of_mem_head? hentry) hR List.suffix_rfl due_none

/-- **The rewritten function is instrumented.** -/
theorem instrumented_rewriteFunction (hF : F.Source)
    (hargs : ∀ B ∈ F.blocks, B.id ∈ F.RPOT → ∀ cs ∈ B.calls, T.EnoughArgs cs) :
    Instrumented T F (rewriteFunction T names F F.RPOT) := by
  rintro path s ⟨entry', hentry', hrun⟩
  rw [head?_rewriteFunction] at hentry'
  obtain ⟨entry, hentry, rfl⟩ := Option.map_eq_some_iff.1 hentry'
  have hstep : ∀ s s₀ due e s', Sim T F s s₀ due →
      (rewriteFunction T names F F.RPOT).Step s e s' → Follows T F s₀ due e s' :=
    fun _ _ _ _ _ hsim h => hsim.step hF hargs h
  obtain ⟨s₀, due, hrun₀, hwatch, hsim⟩ := hrun.simulates (sim_start hF hentry) hstep
  refine ⟨s₀, due, ⟨entry, hentry, hrun₀⟩, hwatch, ?_⟩
  rintro rfl
  cases hsim
  exact ⟨rfl, rfl⟩

/-- **What the pass makes of a function is instrumented.** -/
theorem exists_hookFunction (hT : T.NoHooks) (hF : F.Source)
    (hargs : ∀ cs ∈ F.calls, T.EnoughArgs cs) :
    ∃ G, hookFunction T names F = some G ∧ Instrumented T F G := by
  have hargs' : ∀ B ∈ F.blocks, B.id ∈ F.RPOT → ∀ cs ∈ B.calls, T.EnoughArgs cs :=
    fun B hB _ cs hcs => hargs cs (List.mem_flatMap_of_mem hB hcs)
  refine ⟨_, (hookFunction_eq_some hT hF).2 ⟨fun B hB hR cs hcs => ?_, rfl⟩,
    instrumented_rewriteFunction hF hargs'⟩
  exact isSome_getHookInst (hargs' B hB hR cs hcs)

/-- A pass over a list of functions, function by function. -/
theorem exists_mapM {f : Function → Option Function} {R : Function → Function → Prop}
    {l : List Function} (h : ∀ F ∈ l, ∃ G, f F = some G ∧ R F G) :
    ∃ l', l.mapM f = some l' ∧ List.Forall₂ R l l' := by
  induction l with
  | nil => exact ⟨[], rfl, .nil⟩
  | cons F l ih =>
      obtain ⟨G, hG, hR⟩ := h F (List.mem_cons_self ..)
      obtain ⟨l', hl', hR'⟩ := ih fun F' hF' => h F' (List.mem_cons_of_mem _ hF')
      exact ⟨G :: l', by simp [List.mapM_cons, hG, hl'], .cons hR hR'⟩

/-- **Instrumentation is exact on every execution.**  When the calls of the configured functions
have the arguments their hooks need, `hookFunctions` succeeds, and every function of the result is
instrumented. -/
theorem hookFunctions_instrumented (T : Targets) (names : InstId → String) (M : Module)
    (hT : T.NoHooks) (hM : ∀ F ∈ M.functions, F.Source)
    (hargs : ∀ F ∈ M.functions, ∀ cs ∈ F.calls, T.EnoughArgs cs) :
    ∃ M', hookFunctions T names M = some M' ∧
      List.Forall₂ (Instrumented T) M.functions M'.functions := by
  have hfun : ∀ F ∈ M.functions, ∃ G, hookFunction T names F = some G ∧ Instrumented T F G :=
    fun F hF => exists_hookFunction hT (hM F hF) (hargs F hF)
  obtain ⟨l, hl, hR⟩ := exists_mapM hfun
  exact ⟨⟨l⟩, by simp [hookFunctions, hl], hR⟩

end

/-- A function with a plain call, and an invoke whose normal destination is a loop. -/
def sampleFunction : Function :=
  ⟨"f", .external, [
    ⟨.src 0, "entry", [],
      [.call ⟨.src 0, some "__rust_alloc", [.int64 8, .int64 8], some (.loc "lib.rs" 3 5)⟩],
      .invoke ⟨.src 1, some "__rust_alloc", [.int64 16, .int64 8], some (.loc "lib.rs" 4 5)⟩
        (.src 1) (.src 2)⟩,
    ⟨.src 1, "loop", [⟨0, [(.src 0, .other 0), (.src 1, .other 1)]⟩],
      [.other 0, .call ⟨.src 2, some "__rust_dealloc", [.call (.src 0), .int64 8, .int64 8], none⟩],
      .br [.src 1, .src 3]⟩,
    ⟨.src 2, "cleanup", [], [.other 1], .br []⟩,
    ⟨.src 3, "end", [], [], .br []⟩]⟩

def sampleTargets : Targets := ⟨["__rust_alloc"], ["__rust_realloc"], ["__rust_dealloc"]⟩

theorem sampleFunction_source : sampleFunction.Source where
  nodup := by decide
  succs_mem := by decide
  entry := by
    intro BB h
    obtain rfl := Option.some_inj.1 h
    decide
  invoke_ne := by
    intro BB hBB cs normal unwind h
    fin_cases hBB <;> cases h
    decide
  phis := by decide
  ids_src := by
    intro BB hBB
    fin_cases hBB <;> exact ⟨_, rfl⟩
  calls_src := by
    intro cs hcs
    fin_cases hcs <;> exact ⟨_, rfl⟩
  calls_nodup := by decide

instance (T : Targets) (cs : CallSite) : Decidable (T.EnoughArgs cs) :=
  inferInstanceAs (Decidable (∀ kind ∈ T.kind? cs, _))

instance (T : Targets) : Decidable T.NoHooks :=
  inferInstanceAs (Decidable (∀ name ∈ hookNames, _))

theorem hookFunctions_instrumented_sample :
    ∃ M', hookFunctions sampleTargets (fun _ => "") ⟨[sampleFunction]⟩ = some M' ∧
      List.Forall₂ (Instrumented sampleTargets) [sampleFunction] M'.functions := by
  refine hookFunctions_instrumented sampleTargets (fun _ => "") ⟨[sampleFunction]⟩ (by decide) ?_ ?_
  · intro F hF
    rw [List.mem_singleton.1 hF]
    exact sampleFunction_source
  · intro F hF
    rw [List.mem_singleton.1 hF]
    decide

end Provsan
