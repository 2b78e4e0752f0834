/-
**What the numbering pass makes of a module.**

The ids of a function are handed out in the order of the visit, so that the id of a hook is its
place among the hooks of the function that take one.  With it what a visit does to a call is known
beforehand: which arguments the hook gets, what goes on which list, and when the visit fails.  A
module after the visit is the module before it with its calls changed in place.

Main definitions:

* `Provsan.CallSite.isNumbered` — the hooks that take an id;
* `Provsan.Function.visited`, `Provsan.Function.localID` — the calls in the order in which the pass
  comes to them, and the ids of the hooks among them;
* `Provsan.numberCall`, `Provsan.CanVisit`, `Provsan.PassState.visit` — what is made of a call, when
  its visit succeeds, and what it adds to the lists;
* `Provsan.Function.WellFormed`, `Provsan.Module.WellFormed` — modules whose calls and blocks are
  different objects.

Main results:

* `Provsan.visitCall_eq_some` — **the visit of a call**, once its id is known;
* `Provsan.visitFunction_eq_some` — **the visit of a function**;
* `Provsan.assignLocalIDs_eq_some` — **the visit of a module**.
-/

import Provsan.Passes.Post
import Mathlib.Data.List.Pairwise

set_option relaxedAutoImplicit false
set_option autoImplicit false

namespace Provsan

/-! ### Calls in place -/

@[simp] theorem Instruction.call?_call (CS : CallSite) : (call CS).call? = some CS := rfl

@[simp] theorem Instruction.call?_other (n : ℕ) : (other n).call? = none := rfl

@[simp] theorem Instruction.call?_mapCall (f : CallSite → CallSite) (I : Instruction) :
    (I.mapCall f).call? = I.call?.map f := by
  cases I <;> rfl

@[simp] theorem Terminator.call?_mapCall (f : CallSite → CallSite) (term : Terminator) :
    (term.mapCall f).call? = term.call?.map f := by
  cases term <;> rfl

@[simp] theorem Terminator.succs_mapCall (f : CallSite → CallSite) (term : Terminator) :
    (term.mapCall f).succs = term.succs := by
  cases term <;> rfl

@[simp] theorem BasicBlock.calls_mapCalls (f : CallSite → CallSite) (BB : BasicBlock) :
    (BB.mapCalls f).calls = BB.calls.map f := by
  have hbody : (BB.body.map (Instruction.mapCall f)).filterMap Instruction.call? =
      (BB.body.filterMap Instruction.call?).map f := by
    rw [List.filterMap_map, List.map_filterMap]
    exact List.filterMap_congr fun I _ => Instruction.call?_mapCall f I
  have hterm : (BB.term.mapCall f).call?.toList = BB.term.call?.toList.map f := by
    rw [Terminator.call?_mapCall, Option.toList_map]
  rw [BasicBlock.calls, BasicBlock.calls, List.map_append, ← hbody, ← hterm]
  rfl

/-- A change that leaves the calls of a block alone leaves the block alone. -/
theorem BasicBlock.mapCalls_eq_self {f : CallSite → CallSite} {BB : BasicBlock}
    (h : ∀ CS ∈ BB.calls, f CS = CS) : BB.mapCalls f = BB := by
  obtain ⟨id, name, phis, body, term⟩ := BB
  simp only [BasicBlock.calls, List.mem_append, List.mem_filterMap, Option.mem_toList] at h
  have hbody : body.map (Instruction.mapCall f) = body := by
    conv_rhs => rw [← List.map_id body]
    refine List.map_congr_left fun I hI => ?_
    cases I with
    | other n => rfl
    | call CS =>
        have hCS : f CS = CS := h CS (Or.inl ⟨_, hI, rfl⟩)
        simp [Instruction.mapCall, hCS]
  have hterm : term.mapCall f = term := by
    cases term with
    | br dests => rfl
    | invoke CS normal unwind =>
        have hCS : f CS = CS := h CS (Or.inr rfl)
        simp [Terminator.mapCall, hCS]
    | callbr CS dests =>
        have hCS : f CS = CS := h CS (Or.inr rfl)
        simp [Terminator.mapCall, hCS]
  simp [BasicBlock.mapCalls, hbody, hterm]

/-! ### Hooks -/

/-- Whether a call is the hook of an allocation or reallocation, which takes an id. -/
def CallSite.isNumbered (CS : CallSite) : Bool :=
  (hookIndex? CS).any fun index => index ≠ deallocHookIndex

/-- The hooks, by their names and the positions of their ids. -/
theorem hookIndex?_eq_some {CS : CallSite} {index : ℤ} : hookIndex? CS = some index ↔
    (CS.calledFunction = some "allocHook" ∧ index = 2) ∨
      (CS.calledFunction = some "reallocHook" ∧ index = 4) ∨
        (CS.calledFunction = some "deallocHook" ∧ index = -1) := by
  unfold hookIndex?
  cases CS.calledFunction with
  | none => simp
  | some hook =>
      simp only [Option.bind_some, patchArgIndexMap, allocHookIndex, reallocHookIndex,
        deallocHookIndex, List.lookup_cons, List.lookup_nil, Option.some.injEq]
      by_cases h₁ : hook = "allocHook"
      · subst h₁
        simp [eq_comm]
      · by_cases h₂ : hook = "reallocHook"
        · subst h₂
          simp [eq_comm]
        · by_cases h₃ : hook = "deallocHook"
          · subst h₃
            simp [eq_comm]
          · have e₁ : (hook == "allocHook") = false := by simpa using h₁
            have e₂ : (hook == "reallocHook") = false := by simpa using h₂
            have e₃ : (hook == "deallocHook") = false := by simpa using h₃
            simp [e₁, e₂, e₃, h₁, h₂, h₃]

theorem isSome_hookIndex? (CS : CallSite) : (hookIndex? CS).isSome = CS.isHook := by
  rw [Bool.eq_iff_iff, Option.isSome_iff_exists]
  simp only [hookIndex?_eq_some, CallSite.isHook]
  cases CS.calledFunction with
  | none => simp
  | some hook =>
      simp only [hookNames, Option.some.injEq, List.mem_cons, List.not_mem_nil, or_false,
        decide_eq_true_eq]
      constructor
      · rintro ⟨index, ⟨h, -⟩ | ⟨h, -⟩ | ⟨h, -⟩⟩ <;> simp [h]
      · rintro (h | h | h)
        · exact ⟨2, Or.inl ⟨h, rfl⟩⟩
        · exact ⟨4, Or.inr (Or.inl ⟨h, rfl⟩)⟩
        · exact ⟨-1, Or.inr (Or.inr ⟨h, rfl⟩)⟩

/-- **The hooks with ids**, and where the id stands. -/
theorem isNumbered_iff {CS : CallSite} : CS.isNumbered = true ↔
    ∃ index : ℕ, hookIndex? CS = some (index : ℤ) ∧ 0 < index := by
  unfold CallSite.isNumbered
  cases h : hookIndex? CS with
  | none => simp
  | some index =>
      rcases hookIndex?_eq_some.1 h with ⟨-, rfl⟩ | ⟨-, rfl⟩ | ⟨-, rfl⟩
      · exact ⟨fun _ => ⟨2, rfl, by omega⟩, fun _ => rfl⟩
      · exact ⟨fun _ => ⟨4, rfl, by omega⟩, fun _ => rfl⟩
      · refine ⟨fun h => absurd h (by decide), ?_⟩
        rintro ⟨n, hn, -⟩
        have hneg : (-1 : ℤ) = n := Option.some_inj.1 hn
        omega

/-! ### The calls of a visit, and their ids -/

namespace Function

/-- The blocks in the order in which the pass comes to them. -/
def visitedBlocks (F : Function) : List BasicBlock := F.RPOT.filterMap F.block?

/-- The calls in the order in which the pass comes to them. -/
def visited (F : Function) : List CallSite := F.visitedBlocks.flatMap BasicBlock.calls

/-- The hooks of the function that take an id, in the order of these. -/
def numbered (F : Function) : List InstId := (F.visited.filter CallSite.isNumbered).map CallSite.id

/-- **The id of a hook**: its place among the hooks that take one. -/
def localID (F : Function) (i : InstId) : ℕ := F.numbered.idxOf i

end Function

section

variable (P : ProvsanPost) (fault_map : FaultMap) (F : Function) (bbName : String)

/-- A call after its visit. -/
def numberCall (CS : CallSite) : CallSite :=
  if CS.isNumbered then
    (setHookArgs P F bbName (F.localID CS.id) ((hookIndex? CS).getD 0).toNat CS).getD CS
  else CS

/-- The site of the profile for a hook, and the call that goes to `patchList` for it. -/
def patched? (CS : CallSite) : Option (FaultingSite × InstId) :=
  if CS.isNumbered ∧ P.MPKProfilePath ≠ "" then
    faulting? fault_map F.name (F.localID CS.id) CS
  else none

/-- The report of a call. -/
def location? (i : InstId) : Option String :=
  (F.calls.find? (·.id = i)).bind PrintFaultingLocation

/-- When the visit of a call succeeds: a hook has the arguments that are set, and a call that is
reported has a debug location. -/
structure CanVisit (CS : CallSite) : Prop where
  args : CS.isNumbered = true →
    (setHookArgs P F bbName (F.localID CS.id) ((hookIndex? CS).getD 0).toNat CS).isSome
  location : ∀ e ∈ patched? P fault_map F CS, (location? F e.2).isSome

/-- What is printed during the visit of a call. -/
def printed (CS : CallSite) : List String :=
  if CS.isNumbered ∧ P.MPKProfilePath = "" then ["MPKProfilePath was empty\n"]
  else match patched? P fault_map F CS with
  | none => []
  | some (FS, i) =>
      (if bbName ≠ FS.bbName then [blockMismatch FS bbName] else []) ++ (location? F i).toList

/-- The state after the visit of a call. -/
def PassState.visit (st : PassState) (CS : CallSite) : PassState where
  hookList := st.hookList ++ if CS.isHook ∧ P.RemoveHooks then [CS.id] else []
  patchList := st.patchList ++ (patched? P fault_map F CS).toList.map Prod.snd
  LocalIDG := st.LocalIDG + if CS.isNumbered then 1 else 0
  assigned := st.assigned ++ if CS.isNumbered then [(CS.id, F.localID CS.id)] else []
  errs := st.errs ++ printed P fault_map F bbName CS

end

section

variable {P : ProvsanPost} {fault_map : FaultMap} {F : Function} {bbName : String}

theorem setArgOperand_eq_some {CS CS' : CallSite} {i : ℕ} {v : Value} :
    CS.setArgOperand i v = some CS' ↔
      i < CS.args.length ∧ CS' = { CS with args := CS.args.set i v } := by
  unfold CallSite.setArgOperand
  split_ifs with h
  · simp [h, eq_comm]
  · simp [h]

/-- **What becomes of the arguments of a hook.** -/
theorem setHookArgs_eq_some {id index : ℕ} {CS CS' : CallSite}
    (h : setHookArgs P F bbName id index CS = some CS') :
    CS'.id = CS.id ∧ CS'.calledFunction = CS.calledFunction ∧ CS'.debugLoc = CS.debugLoc ∧
      CS'.args[index]? = some (.int64 id) ∧ ∀ n < index, CS'.args[n]? = CS.args[n]? := by
  unfold setHookArgs at h
  obtain ⟨CS₁, h₁, h⟩ := Option.bind_eq_some_iff.1 h
  obtain ⟨hlen, rfl⟩ := setArgOperand_eq_some.1 h₁
  split_ifs at h
  · obtain rfl := Option.some_inj.1 h
    refine ⟨rfl, rfl, rfl, by simp [hlen], fun n hn => ?_⟩
    simp [hn.ne']
  · obtain ⟨CS₂, h₂, h₃⟩ := Option.bind_eq_some_iff.1 h
    obtain ⟨-, rfl⟩ := setArgOperand_eq_some.1 h₂
    obtain ⟨-, rfl⟩ := setArgOperand_eq_some.1 h₃
    refine ⟨rfl, rfl, rfl, by simp [hlen], fun n hn => ?_⟩
    have e₁ : index + 2 ≠ n := by omega
    have e₂ : index + 1 ≠ n := by omega
    simp [hn.ne', e₁, e₂]

/-- A hook with enough arguments gets them set. -/
theorem isSome_setHookArgs {id index : ℕ} {CS : CallSite} (h : index + 2 < CS.args.length) :
    (setHookArgs P F bbName id index CS).isSome := by
  have h₀ : index < CS.args.length := by omega
  have h₁ : index + 1 < CS.args.length := by omega
  unfold setHookArgs CallSite.setArgOperand
  rw [if_pos h₀]
  split_ifs <;> simp [h₁, h]

/-! ### The visit of a call -/

@[simp] theorem id_numberCall (CS : CallSite) : (numberCall P F bbName CS).id = CS.id := by
  unfold numberCall
  split_ifs
  · cases h : setHookArgs P F bbName (F.localID CS.id) ((hookIndex? CS).getD 0).toNat CS with
    | none => rfl
    | some CS' => exact (setHookArgs_eq_some h).1
  · rfl

@[simp] theorem calledFunction_numberCall (CS : CallSite) :
    (numberCall P F bbName CS).calledFunction = CS.calledFunction := by
  unfold numberCall
  split_ifs
  · cases h : setHookArgs P F bbName (F.localID CS.id) ((hookIndex? CS).getD 0).toNat CS with
    | none => rfl
    | some CS' => exact (setHookArgs_eq_some h).2.1
  · rfl

/-- The site and the call that `patched?` finds. -/
theorem patched?_eq_some {CS : CallSite} {e : FaultingSite × InstId} :
    patched? P fault_map F CS = some e ↔
      CS.isNumbered = true ∧ P.MPKProfilePath ≠ "" ∧ CS.args[0]? = some (.call e.2) ∧
        fault_map.site? F.name (F.localID CS.id) = some e.1 := by
  have hcall : ∀ {v : Value} {i : InstId}, v.call? = some i ↔ v = .call i := by
    intro v i
    cases v <;> simp [Value.call?]
  unfold patched? faulting? FaultMap.site?
  split_ifs with hnum
  · simp only [Option.bind_eq_bind, Option.bind_eq_some_iff, hcall, hnum.1, ne_eq, hnum.2,
      not_false_eq_true, true_and]
    constructor
    · rintro ⟨sites, hsites, v, hv, i, rfl, FS, hFS, he⟩
      obtain rfl := Option.some_inj.1 he
      exact ⟨hv, sites, hsites, hFS⟩
    · rintro ⟨hv, sites, hsites, hFS⟩
      exact ⟨sites, hsites, _, hv, e.2, rfl, e.1, hFS, rfl⟩
  · exact ⟨fun h => absurd h (by simp), fun h => absurd ⟨h.1, h.2.1⟩ hnum⟩

/-- The call that goes to `patchList` depends on whether there is a site, and not on which. -/
theorem map_snd_patched?_eq_some {CS : CallSite} {i : InstId} :
    (patched? P fault_map F CS).map Prod.snd = some i ↔
      CS.isNumbered = true ∧ P.MPKProfilePath ≠ "" ∧ CS.args[0]? = some (.call i) ∧
        (fault_map.site? F.name (F.localID CS.id)).isSome := by
  rw [Option.map_eq_some_iff, Option.isSome_iff_exists]
  constructor
  · rintro ⟨e, he, rfl⟩
    obtain ⟨hnum, hpath, hrefers, hsite⟩ := patched?_eq_some.1 he
    exact ⟨hnum, hpath, hrefers, e.1, hsite⟩
  · rintro ⟨hnum, hpath, hrefers, FS, hsite⟩
    exact ⟨(FS, i), patched?_eq_some.2 ⟨hnum, hpath, hrefers, hsite⟩, rfl⟩

/-- Nothing is asked of a call that takes no id. -/
theorem canVisit_of_not_isNumbered {CS : CallSite} (hnum : CS.isNumbered = false) :
    CanVisit P fault_map F bbName CS :=
  ⟨fun h => absurd h (by simp [hnum]), fun e he => absurd he (by simp [patched?, hnum])⟩

/-- A call that takes no id is left alone; a hook goes to `hookList` all the same. -/
theorem visitCall_of_not_isNumbered {CS : CallSite} (hnum : CS.isNumbered = false)
    (st : PassState) : visitCall P fault_map F bbName CS st =
      some (numberCall P F bbName CS, st.visit P fault_map F bbName CS) := by
  have hhook := isSome_hookIndex? CS
  have hpatched : patched? P fault_map F CS = none := by simp [patched?, hnum]
  unfold visitCall
  cases hindex : hookIndex? CS with
  | none =>
      have hno : CS.isHook = false := by rw [← hhook, hindex]; rfl
      simp [numberCall, hnum, PassState.visit, hno, hpatched, printed]
  | some index =>
      have hyes : CS.isHook = true := by rw [← hhook, hindex]; rfl
      have hdealloc : index = deallocHookIndex := by
        simpa [CallSite.isNumbered, hindex] using hnum
      dsimp only
      rw [if_pos hdealloc]
      split_ifs with hremove <;>
        simp [numberCall, hnum, PassState.visit, hyes, hpatched, printed, hremove]

/-- **The visit of a hook that takes an id**: its arguments are set, and when the profile has its
site, the call it refers to is reported. -/
theorem visitHook_eq_some {CS : CallSite} {st : PassState} {index : ℕ}
    (hnum : CS.isNumbered = true) (hindex : hookIndex? CS = some (index : ℤ)) (hpos : 0 < index)
    (hst : st.LocalIDG = F.localID CS.id) {r : CallSite × PassState} :
    visitHook P fault_map F bbName index CS { st with
        hookList := st.hookList ++ if CS.isHook ∧ P.RemoveHooks then [CS.id] else [] } = some r ↔
      CanVisit P fault_map F bbName CS ∧
        r = (numberCall P F bbName CS, st.visit P fault_map F bbName CS) := by
  have hcomm : ∀ {x : CallSite × PassState}, some x = some r ↔ r = x :=
    Option.some_inj.trans eq_comm
  rw [visitHook, hst]
  cases hset : setHookArgs P F bbName (F.localID CS.id) index CS with
  | none =>
      refine ⟨fun h => absurd h (by simp), fun ⟨hcan, _⟩ => ?_⟩
      have hargs := hcan.args hnum
      rw [hindex] at hargs
      simp [hset] at hargs
  | some CS' =>
      obtain ⟨hCS', -, -, -, hargs⟩ := setHookArgs_eq_some hset
      have hnumber : numberCall P F bbName CS = CS' := by
        simp [numberCall, hnum, hindex, hset]
      have hfaulting : faulting? fault_map F.name (F.localID CS.id) CS' =
          faulting? fault_map F.name (F.localID CS.id) CS := by
        simp only [faulting?, hargs 0 hpos]
      have hcan : CanVisit P fault_map F bbName CS ↔
          ∀ e ∈ patched? P fault_map F CS, (location? F e.2).isSome :=
        ⟨CanVisit.location, fun h => ⟨fun _ => by simp [hindex, hset], h⟩⟩
      rw [hcan, hnumber]
      simp only [Option.bind_eq_bind, Option.bind_some, hfaulting, hCS']
      by_cases hpath : P.MPKProfilePath = ""
      · have hpatched : patched? P fault_map F CS = none := by simp [patched?, hpath]
        rw [if_pos hpath, hcomm, hpatched]
        simp [PassState.visit, hpatched, printed, hnum, hpath, hst]
      · have hpatched : patched? P fault_map F CS =
            faulting? fault_map F.name (F.localID CS.id) CS := by
          simp [patched?, hnum, hpath]
        rw [if_neg hpath, ← hpatched]
        cases he : patched? P fault_map F CS with
        | none =>
            dsimp only
            rw [hcomm]
            simp [PassState.visit, he, printed, hnum, hpath, hst]
        | some e =>
            obtain ⟨FS, i⟩ := e
            cases hinst : F.calls.find? (·.id = i) with
            | none => simp [location?, hinst]
            | some inst =>
                cases hloc : PrintFaultingLocation inst with
                | none => simp [location?, hinst, hloc]
                | some location =>
                    simp [location?, hinst, hloc, PassState.visit, he, printed, hnum, hpath, hst]
                    exact eq_comm

/-- **The visit of a call**, when the next id is the one for it. -/
theorem visitCall_eq_some {CS : CallSite} {st : PassState}
    (hid : CS.isNumbered = true → st.LocalIDG = F.localID CS.id) {r : CallSite × PassState} :
    visitCall P fault_map F bbName CS st = some r ↔ CanVisit P fault_map F bbName CS ∧
      r = (numberCall P F bbName CS, st.visit P fault_map F bbName CS) := by
  cases hnum : CS.isNumbered with
  | false =>
      rw [visitCall_of_not_isNumbered hnum, Option.some_inj]
      exact ⟨fun h => ⟨canVisit_of_not_isNumbered hnum, h.symm⟩, fun h => h.2.symm⟩
  | true =>
      obtain ⟨index, hindex, hpos⟩ := isNumbered_iff.1 hnum
      have hyes : CS.isHook = true := by rw [← isSome_hookIndex? CS, hindex]; rfl
      have hne : (index : ℤ) ≠ deallocHookIndex := by unfold deallocHookIndex; omega
      have hstate : (if P.RemoveHooks then { st with hookList := st.hookList ++ [CS.id] } else st) =
          { st with
            hookList := st.hookList ++ if CS.isHook ∧ P.RemoveHooks then [CS.id] else [] } := by
        cases P.RemoveHooks <;> simp [hyes]
      unfold visitCall
      rw [hindex]
      dsimp only
      rw [if_neg hne, hstate, Int.toNat_natCast]
      exact visitHook_eq_some hnum hindex hpos (hid hnum)

end

/-! ### The visit of a block -/

section

variable {visit : CallSite → PassState → Option (CallSite × PassState)} {ok : CallSite → Prop}
  {change : CallSite → CallSite} {next : PassState → CallSite → PassState}
  {Inv : List CallSite → PassState → Prop}

/-- What is known of the visits of calls, as long as those that are still to come are known. -/
def Visits (visit : CallSite → PassState → Option (CallSite × PassState)) (ok : CallSite → Prop)
    (change : CallSite → CallSite) (next : PassState → CallSite → PassState)
    (Inv : List CallSite → PassState → Prop) : Prop :=
  ∀ CS rest st, Inv (CS :: rest) st → Inv rest (next st CS) ∧
    ∀ r, visit CS st = some r ↔ ok CS ∧ r = (change CS, next st CS)

/-- What follows a step when it is known which result it has, if it has one. -/
theorem bind_eq_some_of_iff {τ υ : Type} {x : Option τ} {done : Prop} {v : τ}
    (h : ∀ y, x = some y ↔ done ∧ y = v) (f : τ → υ) (r : υ) :
    (x.bind fun y => some (f y)) = some r ↔ done ∧ r = f v := by
  simp only [Option.bind_eq_some_iff, h, Option.some_inj]
  constructor
  · rintro ⟨_, ⟨hdone, rfl⟩, rfl⟩
    exact ⟨hdone, rfl⟩
  · rintro ⟨hdone, rfl⟩
    exact ⟨v, ⟨hdone, rfl⟩, rfl⟩

/-- The visit of a body. -/
theorem visitBody_eq_some (h : Visits visit ok change next Inv) (body : List Instruction) :
    ∀ (rest : List CallSite) (st : PassState),
      Inv (body.filterMap Instruction.call? ++ rest) st →
        Inv rest ((body.filterMap Instruction.call?).foldl next st) ∧
          ∀ r, visitBody visit body st = some r ↔
            (∀ CS ∈ body.filterMap Instruction.call?, ok CS) ∧
              r = (body.map (Instruction.mapCall change),
                (body.filterMap Instruction.call?).foldl next st) := by
  induction body with
  | nil =>
      intro rest st hst
      refine ⟨hst, fun r => ?_⟩
      rw [visitBody, Option.some_inj]
      exact ⟨fun h => ⟨fun CS hCS => absurd hCS (by simp), h.symm⟩, fun h => h.2.symm⟩
  | cons I body ih =>
      intro rest st hst
      cases I with
      | other n =>
          obtain ⟨hinv, hbody⟩ := ih rest st hst
          refine ⟨hinv, fun r => ?_⟩
          rw [visitBody]
          exact bind_eq_some_of_iff hbody (fun y => (.other n :: y.1, y.2)) r
      | call CS =>
          obtain ⟨hinv, hvisit⟩ := h CS (body.filterMap Instruction.call? ++ rest) st hst
          obtain ⟨hinv, hbody⟩ := ih rest (next st CS) hinv
          refine ⟨hinv, fun r => ?_⟩
          rw [visitBody]
          simp only [Option.bind_eq_bind, Option.bind_eq_some_iff, hvisit, List.filterMap_cons,
            Instruction.call?, List.map_cons, Instruction.mapCall, List.forall_mem_cons,
            List.foldl_cons]
          constructor
          · rintro ⟨_, ⟨hCS, rfl⟩, _, hrest, hr⟩
            obtain ⟨hok, rfl⟩ := (hbody _).1 hrest
            exact ⟨⟨hCS, hok⟩, (Option.some_inj.1 hr).symm⟩
          · rintro ⟨⟨hCS, hok⟩, rfl⟩
            exact ⟨_, ⟨hCS, rfl⟩, _, (hbody _).2 ⟨hok, rfl⟩, rfl⟩

/-- The visit of a terminator. -/
theorem visitTerm_eq_some (h : Visits visit ok change next Inv) (term : Terminator)
    (rest : List CallSite) (st : PassState) (hst : Inv (term.call?.toList ++ rest) st) :
    Inv rest (term.call?.toList.foldl next st) ∧
      ∀ r, visitTerm visit term st = some r ↔ (∀ CS ∈ term.call?.toList, ok CS) ∧
        r = (term.mapCall change, term.call?.toList.foldl next st) := by
  cases term with
  | br dests =>
      refine ⟨hst, fun r => ?_⟩
      rw [visitTerm, Option.some_inj]
      exact ⟨fun h => ⟨fun CS hCS => absurd hCS (by simp [Terminator.call?]), h.symm⟩,
        fun h => h.2.symm⟩
  | invoke CS normal unwind =>
      obtain ⟨hinv, hvisit⟩ := h CS rest st hst
      refine ⟨hinv, fun r => ?_⟩
      rw [visitTerm, Terminator.call?, Option.toList_some, List.forall_mem_singleton]
      exact bind_eq_some_of_iff hvisit (fun y => (.invoke y.1 normal unwind, y.2)) r
  | callbr CS dests =>
      obtain ⟨hinv, hvisit⟩ := h CS rest st hst
      refine ⟨hinv, fun r => ?_⟩
      rw [visitTerm, Terminator.call?, Option.toList_some, List.forall_mem_singleton]
      exact bind_eq_some_of_iff hvisit (fun y => (.callbr y.1 dests, y.2)) r

end

/-! ### The visit of a function -/

/-- A function whose blocks and calls are different objects, and whose edges stay in it. -/
structure Function.WellFormed (F : Function) : Prop where
  nodup : F.ids.Nodup
  succs_mem : ∀ BB ∈ F.blocks, BB.term.succs ⊆ F.ids
  calls_nodup : (F.calls.map CallSite.id).Nodup

section

variable (P : ProvsanPost) (fault_map : FaultMap) (localSlot : Function → BlockId → ℤ)
  (F : Function)

/-- A block after its visit. -/
def numberBlock (BB : BasicBlock) : BasicBlock :=
  BB.mapCalls (numberCall P F (blockName F localSlot BB))

/-- A function after the visits of the blocks `Q`. -/
def numberFunction (Q : List BlockId) : Function :=
  { F with blocks := F.blocks.map fun BB =>
      if BB.id ∈ Q then numberBlock P localSlot F BB else BB }

/-- The state after the visit of a block. -/
def PassState.visitBlock (st : PassState) (BB : BasicBlock) : PassState :=
  BB.calls.foldl (PassState.visit P fault_map F (blockName F localSlot BB)) st

/-- The state after the visit of a function. -/
def PassState.visitFunction (st : PassState) : PassState :=
  F.visitedBlocks.foldl (PassState.visitBlock P fault_map localSlot F) { st with LocalIDG := 0 }

/-- When the visit of a function succeeds. -/
def Function.CanVisit : Prop :=
  ∀ BB ∈ F.visitedBlocks, ∀ CS ∈ BB.calls,
    Provsan.CanVisit P fault_map F (blockName F localSlot BB) CS

end

section

variable {P : ProvsanPost} {fault_map : FaultMap} {localSlot : Function → BlockId → ℤ}
  {F : Function}

theorem Function.mem_of_mem_visitedBlocks {BB : BasicBlock} (h : BB ∈ F.visitedBlocks) :
    BB ∈ F.blocks := by
  obtain ⟨b, -, hb⟩ := List.mem_filterMap.1 h
  exact Function.mem_of_block? hb

/-- The visited calls are calls of the function. -/
theorem Function.mem_calls_of_mem_visited {CS : CallSite} (h : CS ∈ F.visited) :
    CS ∈ F.calls := by
  obtain ⟨BB, hBB, hCS⟩ := List.mem_flatMap.1 h
  exact List.mem_flatMap_of_mem (Function.mem_of_mem_visitedBlocks hBB) hCS

/-- **The visited blocks** are those that can be reached. -/
theorem Function.WellFormed.mem_visitedBlocks (hF : F.WellFormed) {BB : BasicBlock} :
    BB ∈ F.visitedBlocks ↔ BB ∈ F.blocks ∧ BB.id ∈ F.RPOT := by
  constructor
  · intro h
    obtain ⟨b, hb, hblock⟩ := List.mem_filterMap.1 h
    exact ⟨Function.mem_of_block? hblock, Function.id_of_block? hblock ▸ hb⟩
  · rintro ⟨hBB, hR⟩
    exact List.mem_filterMap.2 ⟨BB.id, hR, Function.block?_of_mem hF.nodup hBB⟩

/-- The pass goes through the visited blocks. -/
theorem Function.WellFormed.map_id_visitedBlocks (hF : F.WellFormed) :
    F.visitedBlocks.map BasicBlock.id = F.RPOT := by
  have hid : ∀ b ∈ F.RPOT, (F.block? b).map BasicBlock.id = some b := by
    intro b hb
    obtain ⟨BB, hBB, rfl⟩ := List.mem_map.1 (Function.mem_ids_of_mem_RPOT hF.succs_mem hb)
    rw [Function.block?_of_mem hF.nodup hBB]
    rfl
  rw [Function.visitedBlocks, List.map_filterMap, List.filterMap_congr hid, List.filterMap_some]

theorem Function.WellFormed.nodup_visitedBlocks (hF : F.WellFormed) :
    (F.visitedBlocks.map BasicBlock.id).Nodup := by
  rw [hF.map_id_visitedBlocks]
  exact Function.nodup_RPOT hF.succs_mem

/-- Calls of different blocks are different. -/
theorem Function.WellFormed.id_ne (hF : F.WellFormed) {B C : BasicBlock} (hB : B ∈ F.blocks)
    (hC : C ∈ F.blocks) (hne : B.id ≠ C.id) {CS CS' : CallSite} (hCS : CS ∈ B.calls)
    (hCS' : CS' ∈ C.calls) : CS.id ≠ CS'.id := by
  have hnd := hF.calls_nodup
  rw [Function.calls, List.map_flatMap, List.nodup_flatMap] at hnd
  have hsymm : Std.Symm (Function.onFun List.Disjoint fun BB : BasicBlock =>
      BB.calls.map CallSite.id) := ⟨fun _ _ h i hi hi' => h hi' hi⟩
  intro heq
  exact hnd.2.forall hB hC (fun h => hne (h ▸ rfl)) (List.mem_map_of_mem hCS)
    (heq ▸ List.mem_map_of_mem hCS')

/-- The visited calls are different. -/
theorem Function.WellFormed.nodup_visited (hF : F.WellFormed) :
    (F.visited.map CallSite.id).Nodup := by
  rw [Function.visited, List.map_flatMap, List.nodup_flatMap]
  have hnd := hF.calls_nodup
  rw [Function.calls, List.map_flatMap, List.nodup_flatMap] at hnd
  refine ⟨fun BB hBB => hnd.1 BB (Function.mem_of_mem_visitedBlocks hBB), ?_⟩
  refine (List.pairwise_map.1 hF.nodup_visitedBlocks).imp_of_mem fun {B C} hB hC hne => ?_
  rintro x hx hx'
  obtain ⟨CS, hCS, rfl⟩ := List.mem_map.1 hx
  obtain ⟨CS', hCS', heq⟩ := List.mem_map.1 hx'
  exact hF.id_ne (Function.mem_of_mem_visitedBlocks hB) (Function.mem_of_mem_visitedBlocks hC) hne
    hCS hCS' heq.symm

theorem Function.WellFormed.nodup_numbered (hF : F.WellFormed) : F.numbered.Nodup :=
  (List.filter_sublist.map CallSite.id).nodup hF.nodup_visited

/-- The ids that are still to be given are those of the calls that are still to come. -/
def Aligned (F : Function) (rest : List CallSite) (st : PassState) : Prop :=
  (rest.filter CallSite.isNumbered).map CallSite.id = F.numbered.drop st.LocalIDG

/-- **The visits of the calls of a function**, in order. -/
theorem visits_visitCall (hF : F.WellFormed) (bbName : String) :
    Visits (visitCall P fault_map F bbName) (CanVisit P fault_map F bbName)
      (numberCall P F bbName) (PassState.visit P fault_map F bbName) (Aligned F) := by
  intro CS rest st hst
  unfold Aligned at hst
  cases hnum : CS.isNumbered with
  | false =>
      rw [List.filter_cons_of_neg (by simp [hnum])] at hst
      refine ⟨?_, fun r => visitCall_eq_some fun h => absurd h (by simp [hnum])⟩
      simpa [Aligned, PassState.visit, hnum] using hst
  | true =>
      rw [List.filter_cons_of_pos (by simp [hnum]), List.map_cons] at hst
      have hget : F.numbered[st.LocalIDG]? = some CS.id := by
        rw [← Nat.add_zero st.LocalIDG, ← List.getElem?_drop, ← hst]
        rfl
      obtain ⟨hlen, hget⟩ := List.getElem?_eq_some_iff.1 hget
      have hid : st.LocalIDG = F.localID CS.id := by
        rw [Function.localID, ← hget]
        exact (List.get_idxOf hF.nodup_numbered ⟨_, hlen⟩).symm
      refine ⟨?_, fun r => visitCall_eq_some fun _ => hid⟩
      have htail := congrArg List.tail hst
      rw [List.tail_cons, List.tail_drop] at htail
      simpa [Aligned, PassState.visit, hnum] using htail

theorem numberFunction_nil : numberFunction P localSlot F [] = F := by
  simp [numberFunction]

theorem ids_numberFunction (Q : List BlockId) : (numberFunction P localSlot F Q).ids = F.ids := by
  rw [Function.ids, Function.ids, numberFunction, List.map_map]
  refine List.map_congr_left fun BB _ => ?_
  rw [Function.comp_apply]
  split_ifs <;> rfl

/-- A block that has not been visited is as it was. -/
theorem block?_numberFunction (hF : F.WellFormed) {Q : List BlockId} {BB : BasicBlock}
    (hBB : BB ∈ F.blocks) (hQ : BB.id ∉ Q) :
    (numberFunction P localSlot F Q).block? BB.id = some BB := by
  have hnd : (numberFunction P localSlot F Q).ids.Nodup := by
    rw [ids_numberFunction]
    exact hF.nodup
  refine (Function.block?_eq_some hnd).2 ⟨List.mem_map.2 ⟨BB, hBB, if_neg hQ⟩, rfl⟩

variable (P fault_map localSlot)

/-- **The visit of a block.** -/
theorem visitBlock_eq_some (hF : F.WellFormed) {Q : List BlockId} {BB : BasicBlock}
    (hBB : BB ∈ F.blocks) (hQ : BB.id ∉ Q) (rest : List CallSite) (st : PassState)
    (hst : Aligned F (BB.calls ++ rest) st) :
    Aligned F rest (st.visitBlock P fault_map localSlot F BB) ∧
      ∀ r, visitBlock P fault_map F localSlot (numberFunction P localSlot F Q, st) BB.id = some r ↔
        (∀ CS ∈ BB.calls, CanVisit P fault_map F (blockName F localSlot BB) CS) ∧
          r = (numberFunction P localSlot F (Q ++ [BB.id]),
            st.visitBlock P fault_map localSlot F BB) := by
  have hvisits : Visits (visitCall P fault_map F (blockName F localSlot BB)) _ _ _ _ :=
    visits_visitCall hF _
  rw [BasicBlock.calls, List.append_assoc] at hst
  obtain ⟨hinv, hbody⟩ := visitBody_eq_some hvisits BB.body _ st hst
  obtain ⟨hinv, hterm⟩ := visitTerm_eq_some hvisits BB.term rest _ hinv
  have hstate : st.visitBlock P fault_map localSlot F BB = BB.term.call?.toList.foldl
      (PassState.visit P fault_map F (blockName F localSlot BB))
        ((BB.body.filterMap Instruction.call?).foldl
          (PassState.visit P fault_map F (blockName F localSlot BB)) st) := by
    rw [PassState.visitBlock, BasicBlock.calls, List.foldl_append]
  have hmodify : ((numberFunction P localSlot F Q).modify BB.id fun C =>
      { C with
        body := BB.body.map (Instruction.mapCall (numberCall P F (blockName F localSlot BB)))
        term := BB.term.mapCall (numberCall P F (blockName F localSlot BB)) }) =
      numberFunction P localSlot F (Q ++ [BB.id]) := by
    simp only [numberFunction, Function.modify, List.map_map, Function.mk.injEq, true_and]
    refine List.map_congr_left fun C hC => ?_
    by_cases hid : C.id = BB.id
    · obtain rfl : C = BB := Function.eq_of_id_eq hF.nodup hC hBB hid
      simp [hQ, numberBlock, BasicBlock.mapCalls]
    · by_cases hC : C.id ∈ Q <;> simp [hC, hid, numberBlock, BasicBlock.mapCalls]
  rw [hstate]
  refine ⟨hinv, fun r => ?_⟩
  unfold visitBlock
  rw [block?_numberFunction hF hBB hQ]
  simp only [Option.bind_eq_bind, Option.bind_some, Option.bind_eq_some_iff, hbody]
  rw [BasicBlock.calls]
  simp only [List.forall_mem_append]
  constructor
  · rintro ⟨_, ⟨hok, rfl⟩, _, ht, hr⟩
    obtain ⟨hok', rfl⟩ := (hterm _).1 ht
    exact ⟨⟨hok, hok'⟩, by rw [← Option.some_inj.1 hr, hmodify]⟩
  · rintro ⟨⟨hok, hok'⟩, rfl⟩
    exact ⟨_, ⟨hok, rfl⟩, _, (hterm _).2 ⟨hok', rfl⟩, by rw [hmodify]⟩

/-- The visits of the blocks of a function, one after the other. -/
theorem foldlM_visitBlock (hF : F.WellFormed) (BBs : List BasicBlock) :
    ∀ (Q : List BlockId) (st : PassState), (∀ BB ∈ BBs, BB ∈ F.blocks) →
      (Q ++ BBs.map BasicBlock.id).Nodup → Aligned F (BBs.flatMap BasicBlock.calls) st →
        ∀ r, (BBs.map BasicBlock.id).foldlM (visitBlock P fault_map F localSlot)
            (numberFunction P localSlot F Q, st) = some r ↔
          (∀ BB ∈ BBs, ∀ CS ∈ BB.calls,
            CanVisit P fault_map F (blockName F localSlot BB) CS) ∧
          r = (numberFunction P localSlot F (Q ++ BBs.map BasicBlock.id),
            BBs.foldl (PassState.visitBlock P fault_map localSlot F) st) := by
  induction BBs with
  | nil =>
      intro Q st _ _ _ r
      rw [List.map_nil, List.foldlM_nil, List.append_nil, List.foldl_nil]
      exact ⟨fun h => ⟨fun BB hBB => absurd hBB (by simp), (Option.some_inj.1 h).symm⟩,
        fun h => h.2 ▸ rfl⟩
  | cons BB BBs ih =>
      intro Q st hmem hnd hst r
      have hassoc :
          Q ++ BB.id :: BBs.map BasicBlock.id = Q ++ [BB.id] ++ BBs.map BasicBlock.id := by
        simp
      rw [List.map_cons] at hnd
      have hQ : BB.id ∉ Q := fun h =>
        (List.nodup_append.1 hnd).2.2 _ h _ (List.mem_cons_self ..) rfl
      rw [List.flatMap_cons] at hst
      obtain ⟨hinv, hblock⟩ := visitBlock_eq_some P fault_map localSlot hF
        (hmem BB (List.mem_cons_self ..)) hQ _ st hst
      have hrest := ih (Q ++ [BB.id]) (st.visitBlock P fault_map localSlot F BB)
        (fun C hC => hmem C (List.mem_cons_of_mem _ hC)) (hassoc ▸ hnd) hinv
      rw [List.map_cons, List.foldlM_cons]
      simp only [Option.bind_eq_bind, Option.bind_eq_some_iff, hblock, List.forall_mem_cons,
        List.foldl_cons]
      constructor
      · rintro ⟨_, ⟨hok, rfl⟩, hr⟩
        obtain ⟨hok', rfl⟩ := (hrest _).1 hr
        exact ⟨⟨hok, hok'⟩, by rw [hassoc]⟩
      · rintro ⟨⟨hok, hok'⟩, rfl⟩
        exact ⟨_, ⟨hok, rfl⟩, (hrest _).2 ⟨hok', by rw [hassoc]⟩⟩

/-- **The visit of a function.** -/
theorem visitFunction_eq_some (hF : F.WellFormed) (st : PassState) {r : Function × PassState} :
    visitFunction P fault_map F localSlot st = some r ↔ F.CanVisit P fault_map localSlot ∧
      r = (numberFunction P localSlot F F.RPOT, st.visitFunction P fault_map localSlot F) := by
  have hfold := foldlM_visitBlock P fault_map localSlot hF F.visitedBlocks []
    { st with LocalIDG := 0 } (fun BB => Function.mem_of_mem_visitedBlocks) hF.nodup_visitedBlocks
    (by simp [Aligned, Function.numbered, Function.visited]) r
  rw [hF.map_id_visitedBlocks, numberFunction_nil, List.nil_append] at hfold
  exact hfold

end

/-! ### The lists after a visit -/

/-- A field that every turn of a loop appends to. -/
theorem foldl_append_field {σ α β : Type} {field : σ → List β} {turn : σ → α → σ}
    {add : α → List β} (h : ∀ s a, field (turn s a) = field s ++ add a) (l : List α) (s : σ) :
    field (l.foldl turn s) = field s ++ l.flatMap add := by
  induction l generalizing s with
  | nil => simp
  | cons a l ih => rw [List.foldl_cons, ih, h, List.flatMap_cons, List.append_assoc]

section

variable (P : ProvsanPost) (fault_map : FaultMap)

/-- The calls of a function that go to `hookList`. -/
def Function.hookCalls (F : Function) : List InstId :=
  if P.RemoveHooks then (F.visited.filter CallSite.isHook).map CallSite.id else []

/-- The calls of a function that go to `patchList`. -/
def Function.patchCalls (F : Function) : List InstId :=
  F.visited.filterMap fun CS => (patched? P fault_map F CS).map Prod.snd

/-- The hooks of a function that get ids, with these. -/
def Function.assignedIDs (F : Function) : List (InstId × ℕ) :=
  F.numbered.map fun i => (i, F.localID i)

variable (localSlot : Function → BlockId → ℤ) (F : Function) (st : PassState)

/-- A list that the visit of every call appends to. -/
theorem field_visitFunction {β : Type} {field : PassState → List β} {add : CallSite → List β}
    (hcall : ∀ bbName st CS, field (PassState.visit P fault_map F bbName st CS) =
      field st ++ add CS) (hreset : field { st with LocalIDG := 0 } = field st) :
    field (st.visitFunction P fault_map localSlot F) = field st ++ F.visited.flatMap add := by
  have hblock : ∀ (st : PassState) (BB : BasicBlock),
      field (st.visitBlock P fault_map localSlot F BB) = field st ++ BB.calls.flatMap add :=
    fun st BB => foldl_append_field (hcall _) BB.calls st
  rw [PassState.visitFunction, foldl_append_field hblock, hreset, Function.visited,
    List.flatMap_assoc]

theorem hookList_visitFunction : (st.visitFunction P fault_map localSlot F).hookList =
    st.hookList ++ F.hookCalls P := by
  have hlist : F.hookCalls P =
      F.visited.flatMap fun CS => if CS.isHook ∧ P.RemoveHooks then [CS.id] else [] := by
    unfold Function.hookCalls
    induction F.visited with
    | nil => simp
    | cons CS l ih =>
        rw [List.flatMap_cons, ← ih]
        cases P.RemoveHooks <;> cases hCS : CS.isHook <;> simp [hCS]
  rw [hlist]
  exact field_visitFunction P fault_map localSlot F st (fun _ _ _ => rfl) rfl

theorem patchList_visitFunction : (st.visitFunction P fault_map localSlot F).patchList =
    st.patchList ++ F.patchCalls P fault_map := by
  have hlist : F.patchCalls P fault_map =
      F.visited.flatMap fun CS => (patched? P fault_map F CS).toList.map Prod.snd := by
    rw [Function.patchCalls, List.filterMap_eq_flatMap_toList]
    exact List.flatMap_congr fun CS _ => Option.toList_map
  rw [hlist]
  exact field_visitFunction P fault_map localSlot F st (fun _ _ _ => rfl) rfl

theorem assigned_visitFunction : (st.visitFunction P fault_map localSlot F).assigned =
    st.assigned ++ F.assignedIDs := by
  have hlist : F.assignedIDs =
      F.visited.flatMap fun CS => if CS.isNumbered then [(CS.id, F.localID CS.id)] else [] := by
    unfold Function.assignedIDs Function.numbered
    induction F.visited with
    | nil => simp
    | cons CS l ih =>
        rw [List.flatMap_cons, ← ih]
        cases hCS : CS.isNumbered <;> simp [hCS]
  rw [hlist]
  exact field_visitFunction P fault_map localSlot F st (fun _ _ _ => rfl) rfl

end

/-! ### The visit of a module -/

/-- A module of functions that are well-formed, with different calls. -/
structure Module.WellFormed (M : Module) : Prop where
  functions : ∀ F ∈ M.functions, F.WellFormed
  calls_nodup : (M.calls.map CallSite.id).Nodup

/-- A module after the visit. -/
def Module.number (P : ProvsanPost) (localSlot : Function → BlockId → ℤ) (M : Module) : Module :=
  M.map fun F => numberFunction P localSlot F F.RPOT

/-- When the visit of a module succeeds, once the profile has been read. -/
def Module.CanVisit (P : ProvsanPost) (fault_map : FaultMap) (localSlot : Function → BlockId → ℤ)
    (M : Module) : Prop :=
  ∀ F ∈ M.functions, F.CanVisit P fault_map localSlot

/-- The functions of the work list, in the order of the visit. -/
def Module.worked (M : Module) : List Function := (workList M).map Prod.fst

/-- The calls of a module that go to `hookList`, in order. -/
def Module.hookCalls (P : ProvsanPost) (M : Module) : List InstId :=
  M.worked.flatMap fun F => F.hookCalls P

/-- The calls of a module that go to `patchList`, in order. -/
def Module.patchCalls (P : ProvsanPost) (fault_map : FaultMap) (M : Module) : List InstId :=
  M.worked.flatMap fun F => F.patchCalls P fault_map

/-- The hooks of a module that get ids, with these. -/
def Module.assignedIDs (M : Module) : List (InstId × ℕ) := M.worked.flatMap Function.assignedIDs

section

variable {P : ProvsanPost} {fault_map : FaultMap} {localSlot : Function → BlockId → ℤ} {M : Module}

/-- **The work list**: the functions with bodies, and where they are. -/
theorem mem_workList {F : Function} {j : ℕ} : (F, j) ∈ workList M ↔
    M.functions[j]? = some F ∧ F.isDeclaration = false := by
  rw [workList, (List.perm_insertionSort ..).mem_iff, List.mem_filter,
    List.mk_mem_zipIdx_iff_getElem?]
  simp

theorem Module.mem_worked {F : Function} : F ∈ M.worked ↔
    F ∈ M.functions ∧ F.isDeclaration = false := by
  constructor
  · intro h
    obtain ⟨⟨F', j⟩, hj, rfl⟩ := List.mem_map.1 h
    obtain ⟨hget, hdecl⟩ := mem_workList.1 hj
    exact ⟨List.mem_of_getElem? hget, hdecl⟩
  · rintro ⟨h, hdecl⟩
    obtain ⟨j, hj⟩ := List.getElem?_of_mem h
    exact List.mem_map.2 ⟨(F, j), mem_workList.2 ⟨hj, hdecl⟩, rfl⟩

/-- The work list holds the functions with bodies. -/
theorem Module.worked_perm (M : Module) :
    M.worked.Perm (M.functions.filter fun F => !F.isDeclaration) := by
  have hfst : M.functions.filter (fun F => !F.isDeclaration) =
      (M.functions.zipIdx.filter fun F => !F.1.isDeclaration).map Prod.fst := by
    conv_lhs => rw [← List.zipIdx_map_fst 0 M.functions, List.filter_map]
    rfl
  rw [hfst]
  exact (List.perm_insertionSort funcSort _).map Prod.fst

/-- What is listed for the functions of the work list is different, when it is of their calls. -/
theorem Module.WellFormed.nodup_flatMap_worked (hM : M.WellFormed) {f : Function → List InstId}
    (hf : ∀ F ∈ M.functions, (f F).Nodup ∧ f F ⊆ F.calls.map CallSite.id) :
    (M.worked.flatMap f).Nodup := by
  rw [(M.worked_perm.flatMap_right f).nodup_iff, List.nodup_flatMap]
  refine ⟨fun F hF => (hf F (List.mem_of_mem_filter hF)).1, ?_⟩
  have hnd := hM.calls_nodup
  rw [Module.calls, List.map_flatMap, List.nodup_flatMap] at hnd
  refine (hnd.2.filter _).imp_of_mem fun {F F'} hF hF' hdisj i hi hi' => ?_
  exact hdisj ((hf F (List.mem_of_mem_filter hF)).2 hi) ((hf F' (List.mem_of_mem_filter hF')).2 hi')

/-- Replacing some entries of a list by what a function makes of them. -/
theorem getElem?_foldl_set {α : Type} {g : α → α} {orig : List α} (L : List (α × ℕ))
    (hL : ∀ x ∈ L, orig[x.2]? = some x.1) (k : ℕ) :
    ∀ l : List α, l.length = orig.length →
      (L.foldl (fun l x => l.set x.2 (g x.1)) l)[k]? =
        if k ∈ L.map Prod.snd then orig[k]?.map g else l[k]? := by
  induction L with
  | nil => simp
  | cons x L ih =>
      intro l hlen
      rw [List.foldl_cons,
        ih (fun y hy => hL y (List.mem_cons_of_mem _ hy)) _ (by simpa using hlen)]
      have hx := hL x (List.mem_cons_self ..)
      by_cases hk : k ∈ L.map Prod.snd
      · rw [if_pos hk, if_pos (by simp [List.mem_map.1 hk])]
      · rw [if_neg hk, List.getElem?_set]
        by_cases hxk : x.2 = k
        · subst hxk
          have hlt : x.2 < l.length := hlen ▸ (List.getElem?_eq_some_iff.1 hx).1
          simp [hx, hlt]
        · rw [if_neg hxk, if_neg (by simpa [Ne.symm hxk] using hk)]

/-- The functions of the work list in their places. -/
theorem foldl_set_workList (g : Function → Function) (hg : ∀ F : Function,
    F.isDeclaration = true → g F = F) :
    (workList M).foldl (fun l F => l.set F.2 (g F.1)) M.functions = M.functions.map g := by
  refine List.ext_getElem? fun k => ?_
  rw [getElem?_foldl_set (workList M) (fun x hx => (mem_workList.1 hx).1) k _ rfl,
    List.getElem?_map]
  split_ifs with hk
  · rfl
  · cases hget : M.functions[k]? with
    | none => rfl
    | some F =>
        cases hdecl : F.isDeclaration with
        | true => rw [Option.map_some, hg F hdecl]
        | false => exact absurd (List.mem_map.2 ⟨(F, k), mem_workList.2 ⟨hget, hdecl⟩, rfl⟩) hk

/-- A declaration has nothing to be visited. -/
theorem RPOT_of_isDeclaration {F : Function} (h : F.isDeclaration = true) : F.RPOT = [] := by
  have hnil : F.blocks = [] := by simpa [Function.isDeclaration] using h
  rw [Function.RPOT, hnil]

/-- Only functions with bodies have calls that are visited. -/
theorem Function.isDeclaration_of_mem_visited {F : Function} {CS : CallSite} (h : CS ∈ F.visited) :
    F.isDeclaration = false := by
  cases hdecl : F.isDeclaration with
  | false => rfl
  | true =>
      rw [Function.visited, Function.visitedBlocks, RPOT_of_isDeclaration hdecl] at h
      exact absurd h (by simp)

/-- The visits of the functions of the work list, one after the other. -/
theorem foldlM_visitFunction (P : ProvsanPost) (fault_map : FaultMap)
    (localSlot : Function → BlockId → ℤ) (L : List (Function × ℕ)) (hL : ∀ x ∈ L, x.1.WellFormed) :
    ∀ (l : List Function) (st : PassState) (r : Module × PassState),
      L.foldlM (fun r F => do
        let (F', st) ← visitFunction P fault_map F.1 localSlot r.2
        some (({ functions := r.1.functions.set F.2 F' } : Module), st)) (⟨l⟩, st) = some r ↔
      (∀ x ∈ L, x.1.CanVisit P fault_map localSlot) ∧
        r = (⟨L.foldl (fun l x => l.set x.2 (numberFunction P localSlot x.1 x.1.RPOT)) l⟩,
          L.foldl (fun st x => st.visitFunction P fault_map localSlot x.1) st) := by
  induction L with
  | nil =>
      intro l st r
      rw [List.foldlM_nil]
      exact ⟨fun h => ⟨fun x hx => absurd hx (by simp), (Option.some_inj.1 h).symm⟩,
        fun h => h.2 ▸ rfl⟩
  | cons x L ih =>
      intro l st r
      have hx := hL x (List.mem_cons_self ..)
      have hrest := ih fun y hy => hL y (List.mem_cons_of_mem _ hy)
      rw [List.foldlM_cons]
      simp only [Option.bind_eq_bind, Option.bind_eq_some_iff,
        visitFunction_eq_some P fault_map localSlot hx, List.forall_mem_cons, List.foldl_cons]
        at hrest ⊢
      constructor
      · rintro ⟨_, ⟨_, ⟨hok, rfl⟩, h₁⟩, hr⟩
        obtain rfl := Option.some_inj.1 h₁
        obtain ⟨hok', rfl⟩ := (hrest _ _ _).1 hr
        exact ⟨⟨hok, hok'⟩, rfl⟩
      · rintro ⟨⟨hok, hok'⟩, rfl⟩
        exact ⟨_, ⟨_, ⟨hok, rfl⟩, rfl⟩, (hrest _ _ _).2 ⟨hok', rfl⟩⟩

/-- **The visit of a module** succeeds when the profile can be read and the calls can be visited. -/
theorem assignLocalIDs_eq_some (hM : ∀ F ∈ M.functions, F.WellFormed) {env : Environment}
    {st : PassState} {r : Module × PassState} : assignLocalIDs P env localSlot M st = some r ↔
      ∃ fault_map, getFaultingAllocMap env P.MPKProfilePath = some fault_map ∧
        M.CanVisit P fault_map localSlot ∧ r = (M.number P localSlot,
          M.worked.foldl (fun st F => st.visitFunction P fault_map localSlot F) st) := by
  unfold assignLocalIDs
  rw [Option.bind_eq_bind, Option.bind_eq_some_iff]
  refine exists_congr fun fault_map => and_congr_right fun _ => ?_
  have hworked : ∀ x ∈ workList M, x.1 ∈ M.functions := fun x hx =>
    List.mem_of_getElem? (mem_workList.1 hx).1
  have hfold := foldlM_visitFunction P fault_map localSlot (workList M)
    (fun x hx => hM x.1 (hworked x hx)) M.functions st r
  refine hfold.trans (and_congr ⟨fun h F hF => ?_, fun h x hx => h x.1 (hworked x hx)⟩ ?_)
  · cases hdecl : F.isDeclaration with
    | true =>
        intro BB hBB
        rw [Function.visitedBlocks, RPOT_of_isDeclaration hdecl] at hBB
        exact absurd hBB (by simp)
    | false =>
        obtain ⟨j, hj⟩ := List.getElem?_of_mem hF
        exact h (F, j) (mem_workList.2 ⟨hj, hdecl⟩)
  · have hset := foldl_set_workList (M := M) (fun F => numberFunction P localSlot F F.RPOT)
      fun F hdecl => by rw [RPOT_of_isDeclaration hdecl, numberFunction_nil]
    rw [hset, Module.number, Module.map, Module.worked, List.foldl_map]

/-! ### The lists after the visit of a module -/

variable (P fault_map localSlot M) (st : PassState)

theorem hookList_visit :
    (M.worked.foldl (fun st F => st.visitFunction P fault_map localSlot F) st).hookList =
      st.hookList ++ M.hookCalls P :=
  foldl_append_field (fun st F => hookList_visitFunction P fault_map localSlot F st) _ _

theorem patchList_visit :
    (M.worked.foldl (fun st F => st.visitFunction P fault_map localSlot F) st).patchList =
      st.patchList ++ M.patchCalls P fault_map :=
  foldl_append_field (fun st F => patchList_visitFunction P fault_map localSlot F st) _ _

theorem assigned_visit :
    (M.worked.foldl (fun st F => st.visitFunction P fault_map localSlot F) st).assigned =
      st.assigned ++ M.assignedIDs :=
  foldl_append_field (fun st F => assigned_visitFunction P fault_map localSlot F st) _ _

end

end Provsan
