/-
**The runtime hooks.**

The three functions the instrumented program calls after each allocation, reallocation and
deallocation (`Runtime/alloc_site_handler.cpp`).  They are given twice: as functions on the
handler, the way a sequential program sees them, and as the sequence of critical sections they are
made of, the way other threads see them.  Running the critical sections of one call without
interruption is calling the function (`Provsan.HookPc.runToEnd_start`).

Main definitions:

* `Provsan.allocHook`, `Provsan.reallocHook`, `Provsan.deallocHook` — the hooks;
* `Provsan.HookCall`, `Provsan.HookCall.run` — a call with its arguments, and its effect;
* `Provsan.HookPc`, `Provsan.HookPc.step` — what is left of a call, and its next critical section;
* `Provsan.HookEffect` — what the calls that return do.

Main results:

* `Provsan.HookPc.runToEnd_start` — the critical sections of a hook are the hook;
* `Provsan.HookCall.run_eq_some`, `Provsan.HookCall.find_of_run` — all a call can do, and what it
  can leave in the map.
-/

import Provsan.Runtime.Handler

set_option relaxedAutoImplicit false
set_option autoImplicit false

namespace Provsan

def DEFAULT_PKEY : BitVec 32 := 0#32

def allocHook (ptr : RustPtr) (size localID : Int64) (bbName funcName : String)
    (h : AllocSiteHandler) : Option AllocSiteHandler := do
  let site ← AllocSite.create ptr size localID bbName funcName 0#32 false
  some (h.insertAllocSite ptr site)

/-- `reallocHook`.  An old pointer without a valid site is a fresh allocation; otherwise the new
site takes the place of the old one and inherits its chain. -/
def reallocHook (newPtr : RustPtr) (newSize : Int64) (oldPtr : RustPtr) (_oldSize localID : Int64)
    (bbName funcName : String) (h : AllocSiteHandler) : Option AllocSiteHandler :=
  let oldAS := h.getAllocSite oldPtr
  if !oldAS.isValid then do
    let site ← AllocSite.create newPtr newSize localID bbName funcName 0#32 false
    some (h.insertAllocSite newPtr site)
  else do
    let newAS ← AllocSite.create newPtr newSize localID bbName funcName DEFAULT_PKEY true
    let h := h.updateReallocChain oldAS newAS
    let h := h.removeAllocSite oldPtr
    some (h.insertAllocSite newPtr newAS)

def deallocHook (ptr : RustPtr) (_size _localID : Int64) (h : AllocSiteHandler) :
    Option AllocSiteHandler :=
  some (h.removeAllocSite ptr)

inductive HookCall
  | alloc (ptr : RustPtr) (size localID : Int64) (bbName funcName : String)
  | realloc (newPtr : RustPtr) (newSize : Int64) (oldPtr : RustPtr) (oldSize localID : Int64)
      (bbName funcName : String)
  | dealloc (ptr : RustPtr) (size localID : Int64)
  deriving DecidableEq

/-- The effect of a call; `none` when an assertion fails. -/
def HookCall.run : HookCall → AllocSiteHandler → Option AllocSiteHandler
  | alloc ptr size localID bbName funcName => allocHook ptr size localID bbName funcName
  | realloc newPtr newSize oldPtr oldSize localID bbName funcName =>
      reallocHook newPtr newSize oldPtr oldSize localID bbName funcName
  | dealloc ptr size localID => deallocHook ptr size localID

/-! ### The hooks as sequences of critical sections -/

/-- What is left to run of a hook, at the entry of its next critical section: `insertAllocSite` at
the end of `allocHook` and of `reallocHook`, `removeAllocSite` in `deallocHook`, and before its end
in `reallocHook` `getAllocSite`, `updateReallocChain` and `removeAllocSite` for the old pointer. -/
inductive HookPc
  | insert (ptr : RustPtr) (site : AllocSite)
  | remove (ptr : RustPtr)
  | lookup (newPtr : RustPtr) (newSize : Int64) (oldPtr : RustPtr) (localID : Int64)
      (bbName funcName : String)
  | chain (oldAS newAS : AllocSite) (oldPtr newPtr : RustPtr)
  | replace (newAS : AllocSite) (oldPtr newPtr : RustPtr)
  deriving DecidableEq

namespace HookPc

/-- A hook up to its first critical section; the constructor of `AllocSite` comes before it in
`allocHook`. -/
def start : HookCall → Option HookPc
  | .alloc ptr size localID bbName funcName =>
      (AllocSite.create ptr size localID bbName funcName 0#32 false).map (insert ptr)
  | .realloc newPtr newSize oldPtr _ localID bbName funcName =>
      some (lookup newPtr newSize oldPtr localID bbName funcName)
  | .dealloc ptr _ _ => some (remove ptr)

/-- One critical section, and what is left of the hook after it. -/
def step : HookPc → AllocSiteHandler → Option (AllocSiteHandler × Option HookPc)
  | insert ptr site, h => some (h.insertAllocSite ptr site, none)
  | remove ptr, h => some (h.removeAllocSite ptr, none)
  | lookup newPtr newSize oldPtr localID bbName funcName, h =>
      let oldAS := h.getAllocSite oldPtr
      if !oldAS.isValid then
        (AllocSite.create newPtr newSize localID bbName funcName 0#32 false).map fun site =>
          (h, some (insert newPtr site))
      else
        (AllocSite.create newPtr newSize localID bbName funcName DEFAULT_PKEY true).map fun newAS =>
          (h, some (chain oldAS newAS oldPtr newPtr))
  | chain oldAS newAS oldPtr newPtr, h =>
      some (h.updateReallocChain oldAS newAS, some (replace newAS oldPtr newPtr))
  | replace newAS oldPtr newPtr, h => some (h.removeAllocSite oldPtr, some (insert newPtr newAS))

/-- The critical sections of a hook one after the other, at most `fuel` of them. -/
def runToEnd : ℕ → HookPc → AllocSiteHandler → Option AllocSiteHandler
  | 0, _, _ => none
  | fuel + 1, pc, h =>
      match pc.step h with
      | none => none
      | some (h', none) => some h'
      | some (h', some pc') => pc'.runToEnd fuel h'

/-- **Without interruption the critical sections of a hook are the hook**: four of them are
enough. -/
theorem runToEnd_start (c : HookCall) (h : AllocSiteHandler) :
    (start c).bind (fun pc => pc.runToEnd 4 h) = c.run h := by
  cases c with
  | alloc ptr size localID bbName funcName =>
      cases hs : AllocSite.create ptr size localID bbName funcName 0#32 false <;>
        simp [start, HookCall.run, allocHook, hs, runToEnd, step]
  | realloc newPtr newSize oldPtr oldSize localID bbName funcName =>
      by_cases hv : (h.getAllocSite oldPtr).isValid = true
      · cases hs : AllocSite.create newPtr newSize localID bbName funcName DEFAULT_PKEY true <;>
          simp [start, HookCall.run, reallocHook, hv, hs, runToEnd, step]
      · cases hs : AllocSite.create newPtr newSize localID bbName funcName 0#32 false <;>
          simp [start, HookCall.run, reallocHook, hv, hs, runToEnd, step]
  | dealloc ptr size localID => rfl

end HookPc

/-! ### What a sequential call does -/

theorem run_alloc {ptr : RustPtr} {size localID : Int64} {bbName funcName : String}
    {h : AllocSiteHandler} {s : AllocSite}
    (hs : AllocSite.create ptr size localID bbName funcName 0#32 false = some s) :
    (HookCall.alloc ptr size localID bbName funcName).run h = some (h.insertAllocSite ptr s) := by
  simp [HookCall.run, allocHook, hs]

/-- A reallocation of an untracked block is an allocation. -/
theorem run_realloc_of_not_isValid {newPtr oldPtr : RustPtr} {newSize oldSize localID : Int64}
    {bbName funcName : String} {h : AllocSiteHandler} {s : AllocSite}
    (hv : (h.getAllocSite oldPtr).isValid = false)
    (hs : AllocSite.create newPtr newSize localID bbName funcName 0#32 false = some s) :
    (HookCall.realloc newPtr newSize oldPtr oldSize localID bbName funcName).run h =
      some (h.insertAllocSite newPtr s) := by
  simp [HookCall.run, reallocHook, hv, hs]

theorem run_realloc_of_isValid {newPtr oldPtr : RustPtr} {newSize oldSize localID : Int64}
    {bbName funcName : String} {h : AllocSiteHandler} {s : AllocSite}
    (hv : (h.getAllocSite oldPtr).isValid = true)
    (hs : AllocSite.create newPtr newSize localID bbName funcName DEFAULT_PKEY true = some s) :
    (HookCall.realloc newPtr newSize oldPtr oldSize localID bbName funcName).run h =
      some (((h.updateReallocChain (h.getAllocSite oldPtr) s).removeAllocSite
        oldPtr).insertAllocSite newPtr s) := by
  simp [HookCall.run, reallocHook, hv, hs]

theorem run_dealloc (ptr : RustPtr) (size localID : Int64) (h : AllocSiteHandler) :
    (HookCall.dealloc ptr size localID).run h = some (h.removeAllocSite ptr) := rfl

/-! ### All a call can do -/

/-- What the calls that return do to the handler. -/
inductive HookEffect (h : AllocSiteHandler) : HookCall → AllocSiteHandler → Prop
  | alloc {ptr : RustPtr} {size localID : Int64} {bbName funcName : String} {s : AllocSite}
      (hs : AllocSite.create ptr size localID bbName funcName 0#32 false = some s) :
      HookEffect h (.alloc ptr size localID bbName funcName) (h.insertAllocSite ptr s)
  | reallocFresh {newPtr oldPtr : RustPtr} {newSize oldSize localID : Int64}
      {bbName funcName : String} {s : AllocSite}
      (hv : (h.getAllocSite oldPtr).isValid = false)
      (hs : AllocSite.create newPtr newSize localID bbName funcName 0#32 false = some s) :
      HookEffect h (.realloc newPtr newSize oldPtr oldSize localID bbName funcName)
        (h.insertAllocSite newPtr s)
  | realloc {newPtr oldPtr : RustPtr} {newSize oldSize localID : Int64}
      {bbName funcName : String} {s : AllocSite}
      (hv : (h.getAllocSite oldPtr).isValid = true)
      (hs : AllocSite.create newPtr newSize localID bbName funcName DEFAULT_PKEY true = some s) :
      HookEffect h (.realloc newPtr newSize oldPtr oldSize localID bbName funcName)
        (((h.updateReallocChain (h.getAllocSite oldPtr) s).removeAllocSite oldPtr).insertAllocSite
          newPtr s)
  | dealloc (ptr : RustPtr) (size localID : Int64) :
      HookEffect h (.dealloc ptr size localID) (h.removeAllocSite ptr)

theorem HookCall.run_eq_some {c : HookCall} {h h' : AllocSiteHandler} :
    c.run h = some h' ↔ HookEffect h c h' := by
  constructor
  · intro hrun
    cases c with
    | alloc ptr size localID bbName funcName =>
        obtain ⟨s, hs, hrun⟩ := Option.bind_eq_some_iff.1 hrun
        exact Option.some_inj.1 hrun ▸ HookEffect.alloc hs
    | realloc newPtr newSize oldPtr oldSize localID bbName funcName =>
        rw [HookCall.run, reallocHook] at hrun
        by_cases hv : (h.getAllocSite oldPtr).isValid = true
        · rw [if_neg (by simp [hv])] at hrun
          obtain ⟨s, hs, hrun⟩ := Option.bind_eq_some_iff.1 hrun
          exact Option.some_inj.1 hrun ▸ HookEffect.realloc hv hs
        · rw [if_pos (by simp [hv])] at hrun
          obtain ⟨s, hs, hrun⟩ := Option.bind_eq_some_iff.1 hrun
          exact Option.some_inj.1 hrun ▸ HookEffect.reallocFresh (by simpa using hv) hs
    | dealloc ptr size localID => exact Option.some_inj.1 hrun ▸ HookEffect.dealloc ptr size localID
  · intro heff
    cases heff with
    | alloc hs => exact run_alloc hs
    | reallocFresh hv hs => exact run_realloc_of_not_isValid hv hs
    | realloc hv hs => exact run_realloc_of_isValid hv hs
    | dealloc ptr size localID => rfl

theorem HookCall.faultSet_of_run {c : HookCall} {h h' : AllocSiteHandler}
    (hrun : c.run h = some h') : h'.faultSet = h.faultSet := by
  cases HookCall.run_eq_some.1 hrun with
  | alloc | reallocFresh | dealloc => rfl
  | realloc hv hs => exact AllocSiteHandler.faultSet_updateReallocChain ..

/-- The block a call announces: its base, its size and its site. -/
def HookCall.newBlock : HookCall → Option (RustPtr × Int64 × SiteId)
  | alloc ptr size localID bbName funcName => some (ptr, size, ⟨localID, bbName, funcName⟩)
  | realloc newPtr newSize _ _ localID bbName funcName =>
      some (newPtr, newSize, ⟨localID, bbName, funcName⟩)
  | dealloc _ _ _ => none

/-- The pointer a call says is no longer in use. -/
def HookCall.oldPtr : HookCall → Option RustPtr
  | alloc _ _ _ _ _ => none
  | realloc _ _ oldPtr _ _ _ _ => some oldPtr
  | dealloc ptr _ _ => some ptr

structure AllocSite.BuiltFrom (s : AllocSite) (ptr : RustPtr) (size : Int64) (site : SiteId) :
    Prop where
  ptr_eq : s.ptr = ptr
  size_eq : s.size = size
  siteId_eq : s.siteId = site
  isValid : s.isValid = true

theorem AllocSite.builtFrom_of_create {ptr : RustPtr} {size localID : Int64}
    {bbName funcName : String} {pkey : BitVec 32} {isRealloc : Bool} {s : AllocSite}
    (h : create ptr size localID bbName funcName pkey isRealloc = some s) :
    s.BuiltFrom ptr size ⟨localID, bbName, funcName⟩ := by
  have hv := isValid_of_create h
  obtain ⟨-, rfl⟩ := create_eq_some.1 h
  exact ⟨rfl, rfl, rfl, hv⟩

/-- **What a call leaves in the map**: entries that were there, and one for the block it
announces. -/
theorem HookCall.find_of_run {c : HookCall} {h h' : AllocSiteHandler} (hrun : c.run h = some h')
    {k : RustPtr} {s : AllocSite} (hf : h'.allocationMap.find k = some s) :
    h.allocationMap.find k = some s ∨
      ∃ size site, c.newBlock = some (k, size, site) ∧ s.BuiltFrom k size site := by
  have hinsert : ∀ {g : AllocSiteHandler} {ptr : RustPtr} {t : AllocSite} {size : Int64}
      {site : SiteId}, t.BuiltFrom ptr size site →
      (g.insertAllocSite ptr t).allocationMap.find k = some s →
        g.allocationMap.find k = some s ∨ k = ptr ∧ s.BuiltFrom ptr size site := by
    intro g ptr t size site ht hk
    rw [AllocSiteHandler.find_insertAllocSite] at hk
    split_ifs at hk with hkp
    · cases hg : g.allocationMap.find ptr with
      | none =>
          rw [hg, Option.getD_none] at hk
          exact Or.inr ⟨hkp, Option.some_inj.1 hk ▸ ht⟩
      | some u =>
          rw [hg, Option.getD_some] at hk
          exact Or.inl (hkp ▸ hg.trans hk)
    · exact Or.inl hk
  cases HookCall.run_eq_some.1 hrun with
  | alloc hs =>
      rcases hinsert (AllocSite.builtFrom_of_create hs) hf with hold | ⟨rfl, hnew⟩
      · exact Or.inl hold
      · exact Or.inr ⟨_, _, rfl, hnew⟩
  | reallocFresh hv hs =>
      rcases hinsert (AllocSite.builtFrom_of_create hs) hf with hold | ⟨rfl, hnew⟩
      · exact Or.inl hold
      · exact Or.inr ⟨_, _, rfl, hnew⟩
  | realloc hv hs =>
      rcases hinsert (AllocSite.builtFrom_of_create hs) hf with hold | ⟨rfl, hnew⟩
      · rw [AllocSiteHandler.find_removeAllocSite] at hold
        split_ifs at hold with hk
        exact Or.inl (by simpa using hold)
      · exact Or.inr ⟨_, _, rfl, hnew⟩
  | dealloc ptr size localID =>
      rw [AllocSiteHandler.find_removeAllocSite] at hf
      split_ifs at hf with hk
      exact Or.inl hf

end Provsan
