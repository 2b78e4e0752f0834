/-
**The mutexes of the handler.**

Every operation of `AllocSiteHandler` takes the mutex of the map it works on, and `addFaultAlloc`
takes two at once.  Here the operations are written out as programs that take and release these
mutexes (`Runtime/alloc_site_handler.h`), and so are the hooks and the signal handlers that are made
of them.  Run on its own, each program does what the operation does on the state
(`Provsan.LockedCall.eval_prog`); run side by side, they cannot block each other
(`Provsan.no_deadlock`).

Main definitions:

* `Provsan.Mutex` — the four mutexes, in an order that every operation respects;
* `Provsan.Locking.addFaultAlloc` and the others — the operations, followed by what comes after;
* `Provsan.LockedCall`, `Provsan.LockedCall.prog`, `Provsan.LockedCall.run` — what a thread can
  call, as a program and as a function.

Main results:

* `Provsan.LockedCall.eval_prog` — the programs refine the functions;
* `Provsan.LockedCall.wellLocked_prog` — they take their mutexes in order;
* `Provsan.no_deadlock` — **the locking cannot deadlock**;
* `Provsan.calls_return` — **all calls return**, whatever the order of the steps.
-/

import Provsan.Lib.Locks
import Provsan.Runtime.FaultHandler
import Mathlib.Data.Fintype.EquivFin

set_option relaxedAutoImplicit false
set_option autoImplicit false

namespace Provsan

/-! ### The mutexes -/

inductive Mutex
  | alloc_map_mx
  | fault_set_mx
  | pkey_tid_map_mx
  | realloc_map_mx

/-- The mutexes in the order of their declarations. -/
def Mutex.rank : Mutex → ℕ
  | alloc_map_mx => 0
  | fault_set_mx => 1
  | pkey_tid_map_mx => 2
  | realloc_map_mx => 3

instance : LinearOrder Mutex :=
  LinearOrder.lift' Mutex.rank fun m m' h => by cases m <;> cases m' <;> first | rfl | cases h

instance : Fintype Mutex :=
  ⟨{.alloc_map_mx, .fault_set_mx, .pkey_tid_map_mx, .realloc_map_mx}, fun m => by
    cases m <;> decide⟩

abbrev LockedProg := LockProg AllocSiteHandler Mutex

/-! ### The operations as programs -/

namespace Locking

/-- A scope with a `lock_guard`: one step under the mutex, which is released at the end. -/
def guarded {α : Type} (m : Mutex) (f : AllocSiteHandler → α × AllocSiteHandler)
    (k : α → LockedProg) : LockedProg :=
  .lock m <| .act (fun h => (f h).2) fun h => .unlock m (k (f h).1)

def insertAllocSite (ptr : RustPtr) (site : AllocSite) (k : LockedProg) : LockedProg :=
  guarded .alloc_map_mx (fun h => ((), h.insertAllocSite ptr site)) fun _ => k

def removeAllocSite (ptr : RustPtr) (k : LockedProg) : LockedProg :=
  guarded .alloc_map_mx (fun h => ((), h.removeAllocSite ptr)) fun _ => k

def getAllocSite (ptr : RustPtr) (k : AllocSite → LockedProg) : LockedProg :=
  guarded .alloc_map_mx (fun h => (h.getAllocSite ptr, h)) k

def storePendingPKeyInfo (threadID : ThreadId) (pkeyinfo : PendingPKeyInfo) (k : LockedProg) :
    LockedProg :=
  guarded .pkey_tid_map_mx (fun h => ((), h.storePendingPKeyInfo threadID pkeyinfo)) fun _ => k

def getAndRemove (threadID : ThreadId) (k : Option PendingPKeyInfo → LockedProg) : LockedProg :=
  guarded .pkey_tid_map_mx (fun h => h.getAndRemove threadID) k

def faultingAllocs (k : UnorderedSet AllocSite → LockedProg) : LockedProg :=
  guarded .fault_set_mx (fun h => (h.faultSet, h)) k

def updateReallocChain (oldAS newAS : AllocSite) (k : LockedProg) : LockedProg :=
  guarded .realloc_map_mx (fun h => ((), h.updateReallocChain oldAS newAS)) fun _ => k

/-- The loop over the associated sites, each turn a step of its own. -/
def addAssocs (pkey : BitVec 32) (l : List AllocSite) (k : LockedProg) : LockedProg :=
  l.foldr (fun assoc rest => .attempt (AllocSiteHandler.addAssoc pkey · assoc) rest) k

/-- `addFaultAlloc`: the lookup is over before the two guards are taken, which are both held until
the function returns, by either of its ends. -/
def addFaultAlloc (ptr : RustPtr) (pkey : BitVec 32) (k : LockedProg) : LockedProg :=
  getAllocSite ptr fun alloc =>
    if alloc.isValid then
      .attempt (fun h => (h.assertCounted alloc).map fun _ => h) <|
      .lock .fault_set_mx <|
      .act (fun h => { h with faultSet := h.faultSet.insert (alloc.addPkey pkey) }) fun _ =>
      .lock .realloc_map_mx <|
      .act id fun h =>
        match h.FM.find (alloc.addPkey pkey) with
        | none => .unlock .realloc_map_mx <| .unlock .fault_set_mx k
        | some chain =>
            addAssocs pkey chain.elems <| .unlock .realloc_map_mx <| .unlock .fault_set_mx k
    else k

/-- The constructor of `AllocSite`, whose assertions end the process. -/
def create (site : Option AllocSite) (k : AllocSite → LockedProg) : LockedProg :=
  match site with
  | none => .abort
  | some site => k site

/-- The three hooks. -/
def hook (c : HookCall) (k : LockedProg) : LockedProg :=
  match c with
  | .alloc ptr size localID bbName funcName =>
      create (AllocSite.create ptr size localID bbName funcName 0#32 false) fun site =>
        insertAllocSite ptr site k
  | .realloc newPtr newSize oldPtr _ localID bbName funcName =>
      getAllocSite oldPtr fun oldAS =>
        if !oldAS.isValid then
          create (AllocSite.create newPtr newSize localID bbName funcName 0#32 false) fun site =>
            insertAllocSite newPtr site k
        else
          create (AllocSite.create newPtr newSize localID bbName funcName DEFAULT_PKEY true)
            fun newAS => updateReallocChain oldAS newAS <| removeAllocSite oldPtr <|
              insertAllocSite newPtr newAS k
  | .dealloc ptr _ _ => removeAllocSite ptr k

/-- `pku_segv_handler`: of the two lookups after the fault has been recorded, the second one is for
the log. -/
def pku_segv_handler (tid : ThreadId) (si : SigInfo) (ctx : ThreadContext) (k : LockedProg) :
    LockedProg :=
  if si.si_code ≠ SEGV_PKUERR then k
  else
    addFaultAlloc si.si_addr si.si_pkey <|
      getAllocSite si.si_addr fun _ => getAllocSite si.si_addr fun _ =>
        storePendingPKeyInfo tid
          ⟨si.si_pkey, (pkeyGet ctx.pkru (Int32.ofBitVec si.si_pkey)).toBitVec⟩ k

/-- `pku_trap_handler`. -/
def pku_trap_handler (pid : ThreadId) (k : LockedProg) : LockedProg :=
  getAndRemove pid fun _ => k

end Locking

/-! ### Calls -/

/-- What a thread can call: the hooks, the two signal handlers, and every operation by itself. -/
inductive LockedCall
  | hook (c : HookCall)
  | segv (tid : ThreadId) (si : SigInfo) (ctx : ThreadContext)
  | trap (pid : ThreadId) (ctx : ThreadContext)
  | insertAllocSite (ptr : RustPtr) (site : AllocSite)
  | removeAllocSite (ptr : RustPtr)
  | getAllocSite (ptr : RustPtr)
  | addFaultAlloc (ptr : RustPtr) (pkey : BitVec 32)
  | storePendingPKeyInfo (threadID : ThreadId) (pkeyinfo : PendingPKeyInfo)
  | getAndRemove (threadID : ThreadId)
  | faultingAllocs
  | updateReallocChain (oldAS newAS : AllocSite)

namespace LockedCall

/-- A call as a program, and what comes after it. -/
def prog : LockedCall → LockedProg → LockedProg
  | hook c, k => Locking.hook c k
  | segv tid si ctx, k => Locking.pku_segv_handler tid si ctx k
  | trap pid _, k => Locking.pku_trap_handler pid k
  | insertAllocSite ptr site, k => Locking.insertAllocSite ptr site k
  | removeAllocSite ptr, k => Locking.removeAllocSite ptr k
  | getAllocSite ptr, k => Locking.getAllocSite ptr fun _ => k
  | addFaultAlloc ptr pkey, k => Locking.addFaultAlloc ptr pkey k
  | storePendingPKeyInfo threadID pkeyinfo, k => Locking.storePendingPKeyInfo threadID pkeyinfo k
  | getAndRemove threadID, k => Locking.getAndRemove threadID fun _ => k
  | faultingAllocs, k => Locking.faultingAllocs fun _ => k
  | updateReallocChain oldAS newAS, k => Locking.updateReallocChain oldAS newAS k

/-- The handler as a signal handler leaves it. -/
def handlerAfter (h : AllocSiteHandler) : SegvOutcome → AllocSiteHandler
  | .stepping h' _ => h'
  | _ => h

/-- A call as a function on the state. -/
def run : LockedCall → AllocSiteHandler → Option AllocSiteHandler
  | hook c, h => c.run h
  | segv tid si ctx, h => (pku_segv_handler none tid si h ctx).map (handlerAfter h)
  | trap pid ctx, h => some (pku_trap_handler pid h ctx).1
  | insertAllocSite ptr site, h => some (h.insertAllocSite ptr site)
  | removeAllocSite ptr, h => some (h.removeAllocSite ptr)
  | getAllocSite _, h => some h
  | addFaultAlloc ptr pkey, h => h.addFaultAlloc ptr pkey
  | storePendingPKeyInfo threadID pkeyinfo, h => some (h.storePendingPKeyInfo threadID pkeyinfo)
  | getAndRemove threadID, h => some (h.getAndRemove threadID).2
  | faultingAllocs, h => some h
  | updateReallocChain oldAS newAS, h => some (h.updateReallocChain oldAS newAS)

end LockedCall

/-- The calls of a thread, one after the other. -/
def threadProg (calls : List LockedCall) : LockedProg :=
  calls.foldr LockedCall.prog .done

/-! ### The programs refine the functions -/

namespace Locking

@[simp] theorem eval_guarded {α : Type} (m : Mutex) (f : AllocSiteHandler → α × AllocSiteHandler)
    (k : α → LockedProg) (h : AllocSiteHandler) :
    (guarded m f k).eval h = (k (f h).1).eval (f h).2 := rfl

theorem eval_addAssocs (pkey : BitVec 32) (l : List AllocSite) (k : LockedProg)
    (h : AllocSiteHandler) :
    (addAssocs pkey l k).eval h =
      (l.foldlM (AllocSiteHandler.addAssoc pkey) h).bind k.eval := by
  induction l generalizing h with
  | nil => rfl
  | cons assoc l ih =>
      rw [addAssocs, List.foldr_cons, LockProg.eval_attempt, List.foldlM_cons]
      cases hf : h.addAssoc pkey assoc with
      | none => rfl
      | some h' => exact ih h'

end Locking

theorem eval_addFaultAlloc (ptr : RustPtr) (pkey : BitVec 32) (k : LockedProg)
    (h : AllocSiteHandler) :
    (Locking.addFaultAlloc ptr pkey k).eval h = (h.addFaultAlloc ptr pkey).bind k.eval := by
  rw [Locking.addFaultAlloc, Locking.getAllocSite, Locking.eval_guarded,
    AllocSiteHandler.addFaultAlloc, AllocSiteHandler.recordFault]
  by_cases hv : (h.getAllocSite ptr).isValid = true
  · simp only [hv, if_true, LockProg.eval_attempt]
    cases ha : h.assertCounted (h.getAllocSite ptr) with
    | none => rfl
    | some u =>
        simp only [Option.map_some, Option.bind_some, LockProg.eval_lock, LockProg.eval_act, id_eq,
          Option.bind_eq_bind]
        cases hf : h.FM.find ((h.getAllocSite ptr).addPkey pkey) with
        | none => rfl
        | some chain => exact Locking.eval_addAssocs ..
  · simp [hv]

theorem eval_create (site : Option AllocSite) (k : AllocSite → LockedProg) (h : AllocSiteHandler) :
    (Locking.create site k).eval h = site.bind fun site => (k site).eval h := by
  cases site <;> rfl

theorem eval_hook (c : HookCall) (k : LockedProg) (h : AllocSiteHandler) :
    (Locking.hook c k).eval h = (c.run h).bind k.eval := by
  cases c with
  | alloc ptr size localID bbName funcName =>
      rw [Locking.hook, eval_create, HookCall.run, allocHook]
      cases AllocSite.create ptr size localID bbName funcName 0#32 false <;> rfl
  | realloc newPtr newSize oldPtr oldSize localID bbName funcName =>
      rw [Locking.hook, Locking.getAllocSite, Locking.eval_guarded, HookCall.run, reallocHook]
      by_cases hv : (h.getAllocSite oldPtr).isValid = true
      · simp only [hv, Bool.not_true, Bool.false_eq_true, if_false, eval_create]
        cases AllocSite.create newPtr newSize localID bbName funcName DEFAULT_PKEY true <;> rfl
      · simp only [hv, Bool.not_false, if_true, eval_create]
        cases AllocSite.create newPtr newSize localID bbName funcName 0#32 false <;> rfl
  | dealloc ptr size localID => rfl

/-- **Run on its own, a program does what the call does on the state.** -/
theorem LockedCall.eval_prog (c : LockedCall) (k : LockedProg) (h : AllocSiteHandler) :
    (c.prog k).eval h = (c.run h).bind k.eval := by
  cases c with
  | hook c => exact eval_hook c k h
  | addFaultAlloc ptr pkey => exact eval_addFaultAlloc ptr pkey k h
  | segv tid si ctx =>
      unfold LockedCall.prog LockedCall.run Locking.pku_segv_handler pku_segv_handler
      by_cases hcode : si.si_code ≠ SEGV_PKUERR
      · simp [hcode, handlerAfter]
      · simp only [if_neg hcode, eval_addFaultAlloc, Option.bind_eq_bind, Option.map_bind,
          Option.bind_assoc]
        rfl
  | trap pid ctx => rfl
  | insertAllocSite | removeAllocSite | getAllocSite | storePendingPKeyInfo | getAndRemove
  | faultingAllocs | updateReallocChain => rfl

/-! ### The order of the mutexes -/

namespace Locking

theorem wellLocked_guarded {α : Type} {m : Mutex} {f : AllocSiteHandler → α × AllocSiteHandler}
    {k : α → LockedProg} (hk : ∀ a, (k a).WellLocked []) : (guarded m f k).WellLocked [] :=
  ⟨fun l hl => absurd hl (by simp), fun h => ⟨[], rfl, hk _⟩⟩

theorem wellLocked_addAssocs {held : List Mutex} (pkey : BitVec 32) (l : List AllocSite)
    {k : LockedProg} (hk : k.WellLocked held) : (addAssocs pkey l k).WellLocked held := by
  induction l with
  | nil => exact hk
  | cons assoc l ih => exact ih.attempt

/-- **The two mutexes of `addFaultAlloc` are taken in order**, and both are released at each of its
ends. -/
theorem wellLocked_addFaultAlloc (ptr : RustPtr) (pkey : BitVec 32) {k : LockedProg}
    (hk : k.WellLocked []) : (addFaultAlloc ptr pkey k).WellLocked [] := by
  unfold addFaultAlloc getAllocSite
  refine wellLocked_guarded fun alloc => ?_
  split_ifs
  · refine LockProg.WellLocked.attempt ⟨fun l hl => absurd hl (by simp), fun _ => ⟨?_, fun h => ?_⟩⟩
    · intro l hl
      rw [List.mem_singleton.1 hl]
      decide
    · have hend : LockProg.WellLocked [Mutex.realloc_map_mx, Mutex.fault_set_mx]
          (.unlock .realloc_map_mx <| .unlock .fault_set_mx k) := ⟨_, rfl, _, rfl, hk⟩
      dsimp only
      cases h.FM.find (alloc.addPkey pkey) with
      | none => exact hend
      | some chain => exact wellLocked_addAssocs pkey chain.elems hend
  · exact hk

theorem wellLocked_create {site : Option AllocSite} {k : AllocSite → LockedProg}
    (hk : ∀ site, (k site).WellLocked []) : (create site k).WellLocked [] := by
  cases site with
  | none => trivial
  | some site => exact hk site

theorem wellLocked_hook (c : HookCall) {k : LockedProg} (hk : k.WellLocked []) :
    (hook c k).WellLocked [] := by
  cases c with
  | alloc => exact wellLocked_create fun _ => wellLocked_guarded fun _ => hk
  | realloc =>
      unfold hook getAllocSite
      refine wellLocked_guarded fun oldAS => ?_
      split_ifs
      · exact wellLocked_create fun _ => wellLocked_guarded fun _ => hk
      · exact wellLocked_create fun _ => wellLocked_guarded fun _ => wellLocked_guarded fun _ =>
          wellLocked_guarded fun _ => hk
  | dealloc => exact wellLocked_guarded fun _ => hk

end Locking

open Locking in
/-- **Every call takes its mutexes in order** and leaves none taken. -/
theorem LockedCall.wellLocked_prog (c : LockedCall) {k : LockedProg} (hk : k.WellLocked []) :
    (c.prog k).WellLocked [] := by
  cases c with
  | hook c => exact wellLocked_hook c hk
  | addFaultAlloc ptr pkey => exact wellLocked_addFaultAlloc ptr pkey hk
  | segv tid si ctx =>
      change LockProg.WellLocked [] (Locking.pku_segv_handler tid si ctx k)
      unfold Locking.pku_segv_handler
      split_ifs
      · exact hk
      · exact wellLocked_addFaultAlloc _ _ (wellLocked_guarded fun _ => wellLocked_guarded fun _ =>
          wellLocked_guarded fun _ => hk)
  | trap pid ctx => exact wellLocked_guarded fun _ => hk
  | insertAllocSite | removeAllocSite | getAllocSite | storePendingPKeyInfo | getAndRemove
  | faultingAllocs | updateReallocChain => exact wellLocked_guarded fun _ => hk

theorem wellLocked_threadProg (calls : List LockedCall) : (threadProg calls).WellLocked [] := by
  induction calls with
  | nil => rfl
  | cons c calls ih => exact c.wellLocked_prog ih

/-- **The locking cannot deadlock.**  However many threads run whatever calls, in every state that
an interleaving of their steps reaches: as long as some thread has not finished, some thread can
take its next step, and no thread asks for a mutex it holds. -/
theorem no_deadlock {ι : Type} [DecidableEq ι] (calls : ι → List LockedCall)
    (h : AllocSiteHandler) (is : List ι) (S : LockState AllocSiteHandler Mutex ι)
    (hrun : Run LockStep (LockState.start h fun i => threadProg (calls i)) is S) :
    (∀ i, S.Unfinished i → ∃ j S', LockStep S j S') ∧
      ∀ i m, S.Requests i m → S.holder m ≠ some i := by
  have hS : S.Disciplined :=
    LockState.Disciplined.run (fun i => wellLocked_threadProg (calls i)) hrun
  exact ⟨fun i hun => hS.exists_step hun, fun i m hreq => hS.not_holds hreq⟩

/-- A thread that has a fault to record, and one that calls a hook. -/
def faultAndHook (i : Bool) : List LockedCall :=
  if i then [.addFaultAlloc 0x1000#64 1#32] else [.hook (.dealloc 0x1000#64 16 0)]

theorem no_deadlock_faultAndHook : ∃ S : LockState AllocSiteHandler Mutex Bool,
    S.holder .alloc_map_mx = some true ∧
      (∀ i, S.Unfinished i → ∃ j S', LockStep S j S') ∧
        ∀ i m, S.Requests i m → S.holder m ≠ some i :=
  ⟨_, rfl, no_deadlock faultAndHook (AllocSiteHandler.init 0) [true] _
    (Run.nil.snoc (LockStep.lock rfl rfl rfl))⟩

/-- **All calls return.**  Finitely many threads that run whatever calls cannot go on for ever, and
when none of them can take a step the process has ended in a failed assertion, or all calls have
returned and no mutex is held. -/
theorem calls_return {ι : Type} [DecidableEq ι] [Finite ι] (calls : ι → List LockedCall)
    (h : AllocSiteHandler) :
    (¬ ∃ S : ℕ → LockState AllocSiteHandler Mutex ι,
      S 0 = LockState.start h (fun i => threadProg (calls i)) ∧
        ∀ n, ∃ i, LockStep (S n) i (S (n + 1))) ∧
      ∀ is S, Run LockStep (LockState.start h fun i => threadProg (calls i)) is S →
        (∀ i S', ¬ LockStep S i S') →
          S.ended = true ∨ S = LockState.start S.data fun _ => .done := by
  constructor
  · rintro ⟨S, -, hS⟩
    exact (wellFounded_iff_isEmpty_descending_chain.1 LockStep.wellFounded).elim ⟨S, hS⟩
  · intro is S hrun hfinal
    have hdis : S.Disciplined :=
      LockState.Disciplined.run (fun i => wellLocked_threadProg (calls i)) hrun
    exact hdis.eq_start_of_final hfinal

theorem calls_return_faultAndHook : ¬ ∃ S : ℕ → LockState AllocSiteHandler Mutex Bool,
    S 0 = LockState.start (AllocSiteHandler.init 0) (fun i => threadProg (faultAndHook i)) ∧
      ∀ n, ∃ i, LockStep (S n) i (S (n + 1)) :=
  (calls_return faultAndHook (AllocSiteHandler.init 0)).1

end Provsan
