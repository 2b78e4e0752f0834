/-
**A process that single-steps.**

A program of one thread runs on a processor with protection keys: an instruction makes several
accesses, the first one that is refused faults, and the instruction starts again after the handler.
When it completes, the trap flag that a handler has set leads to the trap.  The program is to see
none of this: its rights are meant to be those that it has set itself, and every violation of them
is meant to be recorded.  What it sees in fact is a monitor that forgets to close some keys.

Main definitions:

* `Provsan.Access`, `Provsan.PageKeys`, `Provsan.Instr` — accesses, the keys of the pages, and the
  instructions of a program;
* `Provsan.Machine`, `Provsan.Machine.step` — the processor with the two handlers;
* `Provsan.Monitor`, `Provsan.Monitor.step` — the abstract monitor, which knows no registers.

Main results:

* `Provsan.runTrace_machine` — **the machine is the monitor**: it completes every instruction, with
  the monitor's events and rights;
* `Provsan.pkru_kept_iff` — **the program keeps its rights exactly when no instruction violates
  two keys**;
* `Provsan.trace_sublist` — every recorded event is a violation of the program's own rights, and
  under that condition every violation is recorded.
-/

import Provsan.Lib.Restart
import Provsan.Runtime.FaultOrigin
import Provsan.Runtime.FaultSequence

set_option relaxedAutoImplicit false
set_option autoImplicit false

namespace Provsan

/-! ### Pages and accesses -/

/-- The size of a page. -/
def PAGE_SIZE : RustPtr := 4096#64

/-- The address of the page. -/
def pageAddr (ptr : RustPtr) : RustPtr := ptr &&& ~~~(PAGE_SIZE - 1#64)

/-- The protection keys of the pages, by their addresses. -/
def PageKeys : Type := RustPtr → BitVec 4

/-- The key of the page of an address. -/
def PageKeys.key (keys : PageKeys) (ptr : RustPtr) : BitVec 4 := keys (pageAddr ptr)

/-- The key as the processor reports it with a fault. -/
def PageKeys.si_pkey (keys : PageKeys) (ptr : RustPtr) : BitVec 32 := (keys.key ptr).setWidth 32

/-- What `pkey_mprotect` does to a page. -/
def PageKeys.protect (keys : PageKeys) (page : RustPtr) (key : BitVec 4) : PageKeys :=
  fun p => if p = pageAddr page then key else keys p

/-- An access of an instruction. -/
structure Access where
  ptr : RustPtr
  write : Bool
  deriving DecidableEq

/-- Whether the processor refuses the access. -/
def Access.denied (pkru : BitVec 32) (keys : PageKeys) (a : Access) : Bool :=
  accessDenied pkru (Int32.ofBitVec (keys.si_pkey a.ptr)) a.write

/-- The fault of a refused access. -/
def PageKeys.fault (keys : PageKeys) (a : Access) : Event := .fault a.ptr (keys.si_pkey a.ptr)

/-- The instructions of a program: one that makes accesses, the two that change what is allowed, and
a call of a hook. -/
inductive Instr
  | access (accs : List Access)
  | wrpkru (pkru : BitVec 32)
  | pkey_mprotect (page : RustPtr) (key : BitVec 4)
  | hook (c : HookCall)

theorem toNat_si_pkey (keys : PageKeys) (ptr : RustPtr) :
    (keys.si_pkey ptr).toNat = (keys.key ptr).toNat := by
  rw [PageKeys.si_pkey, BitVec.toNat_setWidth_of_le (by omega)]

theorem si_pkey_lt (keys : PageKeys) (ptr : RustPtr) : (keys.si_pkey ptr).toNat < 16 := by
  rw [toNat_si_pkey]
  exact (keys.key ptr).isLt

/-- Whether an access is refused depends on the rights of its key only. -/
theorem denied_congr {pkru pkru' : BitVec 32} {keys : PageKeys} {a : Access}
    (h : BitField.read 2 pkru (keys.key a.ptr).toNat =
      BitField.read 2 pkru' (keys.key a.ptr).toNat) :
    a.denied pkru keys = a.denied pkru' keys := by
  rw [Access.denied, Access.denied, accessDenied, accessDenied,
    pkeyGet_of_lt (si_pkey_lt keys a.ptr), pkeyGet_of_lt (si_pkey_lt keys a.ptr), toNat_si_pkey, h]

/-- An open key refuses nothing. -/
theorem not_denied_of_open {pkru : BitVec 32} {keys : PageKeys} {a : Access}
    (h : BitField.read 2 pkru (keys.key a.ptr).toNat = PKEY_ENABLE_ACCESS) :
    a.denied pkru keys = false := by
  by_contra hd
  rw [Bool.not_eq_false] at hd
  rw [← toNat_si_pkey] at h
  exact read_ne_of_accessDenied (si_pkey_lt keys a.ptr) hd h

/-! ### Opened keys -/

/-- The word in which some keys have been opened. -/
def openKeys (pkru : BitVec 32) (ks : List (BitVec 4)) : BitVec 32 :=
  ks.foldl (fun pkru k => BitField.write 2 pkru k.toNat PKEY_ENABLE_ACCESS) pkru

@[simp] theorem openKeys_nil (pkru : BitVec 32) : openKeys pkru [] = pkru := rfl

theorem openKeys_append (pkru : BitVec 32) (ks ks' : List (BitVec 4)) :
    openKeys pkru (ks ++ ks') = openKeys (openKeys pkru ks) ks' := List.foldl_append ..

/-- **The opened keys are open**, and the others have the rights they had. -/
theorem read_openKeys (pkru : BitVec 32) (ks : List (BitVec 4)) (k : BitVec 4) :
    BitField.read 2 (openKeys pkru ks) k.toNat =
      if k ∈ ks then PKEY_ENABLE_ACCESS else BitField.read 2 pkru k.toNat := by
  induction ks generalizing pkru with
  | nil => rfl
  | cons k' ks ih =>
      have hread := read_after_fault (j := k.toNat) k'.isLt pkru
      change BitField.read 2 (openKeys (BitField.write 2 pkru k'.toNat PKEY_ENABLE_ACCESS) ks) _ = _
      rw [ih, hread]
      by_cases hk : k = k'
      · simp [hk]
      · have hne : k.toNat ≠ k'.toNat := fun h => hk (BitVec.eq_of_toNat_eq h)
        simp [hk, hne]

/-- The rights of the keys determine the word. -/
theorem ext_read_key {pkru pkru' : BitVec 32}
    (h : ∀ k : BitVec 4, BitField.read 2 pkru k.toNat = BitField.read 2 pkru' k.toNat) :
    pkru = pkru' := by
  refine BitField.ext_read (w := 2) (m := 16) (by omega) rfl fun k hk => ?_
  have hnat : (BitVec.ofNat 4 k).toNat = k := by
    rw [BitVec.toNat_ofNat]
    omega
  rw [← hnat]
  exact h _

theorem denied_openKeys (pkru : BitVec 32) (keys : PageKeys) (ks : List (BitVec 4)) (a : Access) :
    a.denied (openKeys pkru ks) keys = (a.denied pkru keys && keys.key a.ptr ∉ ks) := by
  have hread := read_openKeys pkru ks (keys.key a.ptr)
  by_cases hk : keys.key a.ptr ∈ ks
  · rw [if_pos hk] at hread
    rw [not_denied_of_open hread]
    simp [hk]
  · rw [if_neg hk] at hread
    rw [denied_congr hread]
    simp [hk]

/-- Closing again the first of the opened keys leaves the others open. -/
theorem write_openKeys_cons (pkru : BitVec 32) {k : BitVec 4} {ks : List (BitVec 4)}
    (hk : k ∉ ks) : BitField.write 2 (openKeys pkru (k :: ks)) k.toNat
      (BitField.read 2 pkru k.toNat) = openKeys pkru ks := by
  refine ext_read_key fun j => ?_
  rw [read_openKeys]
  by_cases hj : j = k
  · rw [hj, if_neg hk,
      BitField.read_write_self (by have := k.isLt; omega) (BitField.fits_read 2 pkru k.toNat)]
  · have hne : j.toNat ≠ k.toNat := fun h => hj (BitVec.eq_of_toNat_eq h)
    rw [BitField.read_write_of_ne hne (BitField.fits_read _ _ _), read_openKeys]
    simp [hj]

/-! ### The machine -/

/-- The only thread of a process, on a processor with protection keys. -/
structure Machine where
  handler : AllocSiteHandler
  ctx : ThreadContext
  keys : PageKeys

namespace Machine

variable (prevAction : Option SigAction) (pid : ThreadId)

/-- The SIGSEGV of a refused access, in the build that single-steps. -/
def serve (m : Machine) (a : Access) : Option Machine :=
  match pku_segv_handler prevAction pid ⟨SEGV_PKUERR, a.ptr, m.keys.si_pkey a.ptr⟩ m.handler
    m.ctx with
  | some (.stepping h ctx) => some { m with handler := h, ctx := ctx }
  | _ => none

/-- The faults of an instruction and their handler. -/
def stepping : Restart Machine Access where
  blocked m a := a.denied m.ctx.pkru m.keys
  serve := serve prevAction pid

/-- The SIGTRAP of an instruction that completes with the trap flag set. -/
def trap (m : Machine) : Machine :=
  if m.ctx.trapFlag then
    { m with
      handler := (pku_trap_handler pid m.handler m.ctx).1
      ctx := (pku_trap_handler pid m.handler m.ctx).2 }
  else m

/-- An instruction, started again at most `fuel` times; `none` when an assertion of the runtime
fails, or when the instruction does not complete. -/
def step (fuel : ℕ) (m : Machine) : Instr → Option (List Event × Machine)
  | .access accs => do
      let (faults, m') ← (stepping prevAction pid).complete fuel m accs
      some (faults.map m.keys.fault, m'.trap pid)
  | .wrpkru pkru => some ([], { m with ctx := { m.ctx with pkru := pkru } })
  | .pkey_mprotect page key => some ([], { m with keys := m.keys.protect page key })
  | .hook c => do
      let h ← c.run m.handler
      some ([.hook c], { m with handler := h })

/-- Between two instructions: the trap flag is clear, and the thread has no entry. -/
structure Idle (m : Machine) : Prop where
  trapFlag : m.ctx.efl &&& TF = 0#64
  entry : m.handler.pkeyByTidMap.find pid = none

end Machine

/-! ### The monitor -/

/-- What single-stepping is meant to be, and what it forgets: the word that the program has set, the
keys of the pages, and the keys that are open although the program has closed them. -/
structure Monitor where
  pkru : BitVec 32
  keys : PageKeys
  leaked : List (BitVec 4)

namespace Monitor

/-- The key of an access. -/
def key (mon : Monitor) (a : Access) : BitVec 4 := mon.keys.key a.ptr

/-- Whether an access is noticed. -/
def refuses (mon : Monitor) (a : Access) : Bool :=
  a.denied mon.pkru mon.keys && mon.key a ∉ mon.leaked

/-- The violations of an instruction that are noticed: one for each key. -/
def violations (mon : Monitor) (accs : List Access) : List Access :=
  firsts mon.key (accs.filter mon.refuses)

/-- An instruction under the monitor: its first violation is forgotten afterwards, the keys of the
others leak until the program sets its rights again. -/
def step (mon : Monitor) : Instr → List Event × Monitor
  | .access accs => ((mon.violations accs).map mon.keys.fault,
      { mon with leaked := mon.leaked ++ (mon.violations accs).tail.map mon.key })
  | .wrpkru pkru => ([], { mon with pkru := pkru, leaked := [] })
  | .pkey_mprotect page key => ([], { mon with keys := mon.keys.protect page key })
  | .hook c => ([.hook c], mon)

/-- A program under the monitor. -/
def run (mon : Monitor) : List Instr → List Event × Monitor
  | [] => ([], mon)
  | i :: is => ((mon.step i).1 ++ (run (mon.step i).2 is).1, (run (mon.step i).2 is).2)

/-- The machine that the monitor describes, with what the runtime has recorded. -/
def machine (mon : Monitor) (h : AllocSiteHandler) (efl : BitVec 64) : Machine where
  handler := h
  ctx := ⟨openKeys mon.pkru mon.leaked, efl⟩
  keys := mon.keys

end Monitor

/-- A program begins with no key leaked. -/
def Machine.monitor (m : Machine) : Monitor := ⟨m.ctx.pkru, m.keys, []⟩

/-! ### Served faults -/

theorem ThreadContext.eq_mk {ctx : ThreadContext} {pkru : BitVec 32} {efl : BitVec 64}
    (hpkru : ctx.pkru = pkru) (hefl : ctx.efl = efl) : ctx = ⟨pkru, efl⟩ := by
  rw [← hpkru, ← hefl]

theorem efl_pku_trap_handler (pid : ThreadId) (h : AllocSiteHandler) (ctx : ThreadContext) :
    (pku_trap_handler pid h ctx).2.efl = ctx.efl &&& ~~~TF := by
  rw [pku_trap_handler]
  dsimp only
  cases (h.getAndRemove pid).1 <;> rfl

theorem or_TF_and_not_TF {efl : BitVec 64} (h : efl &&& TF = 0#64) :
    (efl ||| TF) &&& ~~~TF = efl := by
  refine BitVec.eq_of_getLsbD_eq fun i hi => ?_
  have hbit := congrArg (fun x => x.getLsbD i) h
  simp only [BitVec.getLsbD_and, BitVec.getLsbD_zero] at hbit
  rw [BitVec.getLsbD_and, BitVec.getLsbD_or, BitVec.getLsbD_not, decide_eq_true hi]
  cases he : efl.getLsbD i <;> cases ht : TF.getLsbD i <;> simp_all

theorem trapFlag_or_TF (pkru : BitVec 32) (efl : BitVec 64) :
    (ThreadContext.mk pkru (efl ||| TF)).trapFlag = true := by
  have hTF : (efl ||| TF) &&& TF = TF := by
    refine BitVec.eq_of_getLsbD_eq fun i _ => ?_
    rw [BitVec.getLsbD_and, BitVec.getLsbD_or]
    cases efl.getLsbD i <;> cases TF.getLsbD i <;> rfl
  rw [ThreadContext.trapFlag, hTF]
  decide

/-- A hook of a program, and the same hook as an event. -/
theorem bind_hook {β : Type} (h : AllocSiteHandler) (c : HookCall) (f : AllocSiteHandler → β) :
    ((c.run h).bind fun h' => some (f h')) = ([Event.hook c].foldlM Event.run h).map f := by
  rw [List.foldlM_cons, Option.bind_eq_bind]
  change _ = Option.map f ((c.run h).bind _)
  cases c.run h <;> rfl

namespace AllocSiteHandler

/-- The handler with other pending entries. -/
def withPending (h : AllocSiteHandler) (m : UnorderedMap ThreadId PendingPKeyInfo) :
    AllocSiteHandler :=
  { h with pkeyByTidMap := m }

theorem assertCounted_withPending (h : AllocSiteHandler)
    (m : UnorderedMap ThreadId PendingPKeyInfo) (s : AllocSite) :
    (h.withPending m).assertCounted s = h.assertCounted s := rfl

theorem foldlM_addAssoc_withPending (pkey : BitVec 32) (l : List AllocSite) (h : AllocSiteHandler)
    (m : UnorderedMap ThreadId PendingPKeyInfo) : l.foldlM (addAssoc pkey) (h.withPending m) =
      (l.foldlM (addAssoc pkey) h).map fun g => g.withPending m := by
  induction l generalizing h with
  | nil => rfl
  | cons a l ih =>
      rw [List.foldlM_cons, List.foldlM_cons]
      have hstep : addAssoc pkey (h.withPending m) a =
          (addAssoc pkey h a).map fun g => g.withPending m := by
        unfold addAssoc
        change (assertCounted _ a).bind _ = ((assertCounted _ a).bind _).map _
        cases hc : AllocSiteHandler.assertCounted
          { h with faultSet := h.faultSet.insert (a.addPkey pkey) } a with
        | none => exact congrArg (fun o => Option.bind o _) hc
        | some u => exact congrArg (fun o => Option.bind o _) hc
      rw [hstep]
      cases addAssoc pkey h a with
      | none => rfl
      | some g => exact ih g

/-- **Recording does not look at the pending entries.** -/
theorem addFaultAlloc_withPending (h : AllocSiteHandler) (ptr : RustPtr) (pkey : BitVec 32)
    (m : UnorderedMap ThreadId PendingPKeyInfo) : (h.withPending m).addFaultAlloc ptr pkey =
      (h.addFaultAlloc ptr pkey).map fun g => g.withPending m := by
  have hsite : (h.withPending m).getAllocSite ptr = h.getAllocSite ptr := rfl
  have hFM : (h.withPending m).FM = h.FM := rfl
  unfold addFaultAlloc recordFault
  dsimp only
  rw [hsite, hFM, assertCounted_withPending]
  by_cases hv : (h.getAllocSite ptr).isValid = true
  · rw [if_pos hv, if_pos hv]
    cases h.assertCounted (h.getAllocSite ptr) with
    | none => rfl
    | some u =>
        simp only [Option.bind_eq_bind, Option.bind_some]
        cases h.FM.find ((h.getAllocSite ptr).addPkey pkey) with
        | none => rfl
        | some chain =>
            exact foldlM_addAssoc_withPending pkey chain.elems
              { h with faultSet := h.faultSet.insert ((h.getAllocSite ptr).addPkey pkey) } m
  · rw [if_neg hv, if_neg hv]
    rfl

end AllocSiteHandler

/-- Neither a fault nor a hook changes a pending entry. -/
theorem pkeyByTidMap_event {e : Event} {h h' : AllocSiteHandler} (he : e.run h = some h') :
    h'.pkeyByTidMap = h.pkeyByTidMap := by
  cases e with
  | hook c => exact pkeyByTidMap_run he
  | fault ptr pkey =>
      have hframe : h' = { h with faultSet := h'.faultSet } :=
        AllocSiteHandler.addFaultAlloc_frame he
      rw [hframe]

theorem pkeyByTidMap_events {es : List Event} {h h' : AllocSiteHandler}
    (he : es.foldlM Event.run h = some h') : h'.pkeyByTidMap = h.pkeyByTidMap := by
  induction es generalizing h with
  | nil => rw [← Option.some_inj.1 he]
  | cons e es ih =>
      rw [List.foldlM_cons] at he
      obtain ⟨g, hg, hrest⟩ := Option.bind_eq_some_iff.1 he
      rw [ih hrest, pkeyByTidMap_event hg]

theorem foldlM_fault_withPending {keys : PageKeys} (as : List Access) (h : AllocSiteHandler)
    (m : UnorderedMap ThreadId PendingPKeyInfo) :
    (as.map keys.fault).foldlM Event.run (h.withPending m) =
      ((as.map keys.fault).foldlM Event.run h).map fun g => g.withPending m := by
  induction as generalizing h with
  | nil => rfl
  | cons a as ih =>
      have hstep : (keys.fault a).run (h.withPending m) =
          ((keys.fault a).run h).map fun g => g.withPending m :=
        AllocSiteHandler.addFaultAlloc_withPending ..
      simp only [List.map_cons, List.foldlM_cons, hstep]
      cases (keys.fault a).run h with
      | none => rfl
      | some g => exact ih g

/-- The handler on a fault of a protection key. -/
theorem pku_segv_handler_pkuerr (prevAction : Option SigAction) (tid : ThreadId) (ptr : RustPtr)
    (pkey : BitVec 32) (h : AllocSiteHandler) (ctx : ThreadContext) :
    pku_segv_handler prevAction tid ⟨SEGV_PKUERR, ptr, pkey⟩ h ctx =
      (h.addFaultAlloc ptr pkey).map fun g =>
        .stepping (disable_mpk tid ⟨SEGV_PKUERR, ptr, pkey⟩ g ctx).1
          (disable_mpk tid ⟨SEGV_PKUERR, ptr, pkey⟩ g ctx).2 := by
  unfold pku_segv_handler
  rw [if_neg (by simp)]
  exact (Option.map_eq_bind ..).symm

namespace Machine

variable {prevAction : Option SigAction} {pid : ThreadId}

/-- The pending entries once an access has faulted: the rights of its key are saved, unless some are
already. -/
def pendingAfter (pid : ThreadId) (m : Machine) (a : Access) :
    UnorderedMap ThreadId PendingPKeyInfo :=
  m.handler.pkeyByTidMap.emplace pid
    ⟨m.keys.si_pkey a.ptr, savedRights m.ctx.pkru (m.keys.si_pkey a.ptr)⟩

/-- **The SIGSEGV of a refused access**: it is recorded, its rights are saved, and its key is
opened. -/
theorem serve_eq (m : Machine) (a : Access) : serve prevAction pid m a =
    ((m.keys.fault a).run m.handler).map fun h =>
      ⟨h.withPending (m.pendingAfter pid a),
        ⟨openKeys m.ctx.pkru [m.keys.key a.ptr], m.ctx.efl ||| TF⟩, m.keys⟩ := by
  have hlt := si_pkey_lt m.keys a.ptr
  rw [serve, pku_segv_handler_pkuerr, PageKeys.fault, Event.run]
  cases hrun : m.handler.addFaultAlloc a.ptr (m.keys.si_pkey a.ptr) with
  | none => rfl
  | some h =>
      have hmap : h.pkeyByTidMap = m.handler.pkeyByTidMap :=
        pkeyByTidMap_event (show (m.keys.fault a).run m.handler = some h from hrun)
      rw [pendingAfter, ← hmap]
      simp only [Option.map_some, disable_mpk, disableThreadMPK]
      rw [pkeyGet_of_lt hlt, pkeySet_of_lt hlt (by decide), toNat_si_pkey]
      rfl

/-- **Serving a fault opens its key** and touches no other one. -/
theorem opens_stepping (keys : PageKeys) : (stepping prevAction pid).Opens (fun a => keys.key a.ptr)
    fun m => m.keys = keys := by
  intro m a m' hm _ hserve
  change serve prevAction pid m a = some m' at hserve
  rw [serve_eq] at hserve
  obtain ⟨h, -, rfl⟩ := Option.map_eq_some_iff.1 hserve
  subst hm
  refine ⟨rfl, fun b => ?_⟩
  change b.denied (openKeys m.ctx.pkru [m.keys.key a.ptr]) m.keys = _
  rw [denied_openKeys]
  simp [stepping]

/-- Further faults of the instruction, once a thread has its entry. -/
theorem foldlM_serve_of_entry (m : Machine) {info : PendingPKeyInfo}
    (hentry : m.handler.pkeyByTidMap.find pid = some info) (hTF : m.ctx.efl ||| TF = m.ctx.efl)
    (as : List Access) : as.foldlM (serve prevAction pid) m =
      ((as.map m.keys.fault).foldlM Event.run m.handler).map fun h =>
        ⟨h, ⟨openKeys m.ctx.pkru (as.map fun a => m.keys.key a.ptr), m.ctx.efl⟩, m.keys⟩ := by
  induction as generalizing m with
  | nil => rfl
  | cons a as ih =>
      simp only [List.map_cons, List.foldlM_cons, serve_eq]
      cases hrun : (m.keys.fault a).run m.handler with
      | none => rfl
      | some h =>
          have hmap := pkeyByTidMap_event hrun
          -- the entry of the first fault is kept
          have hkept : h.withPending (m.pendingAfter pid a) = h := by
            rw [pendingAfter, UnorderedMap.emplace_of_some hentry, ← hmap]
            rfl
          rw [Option.map_some, hkept, hTF]
          exact ih ⟨h, ⟨openKeys m.ctx.pkru [m.keys.key a.ptr], m.ctx.efl⟩, m.keys⟩
            (by rw [hmap, hentry]) hTF

/-- **All faults of an instruction**, from the first to the last one. -/
theorem foldlM_serve (m : Machine) (hentry : m.handler.pkeyByTidMap.find pid = none) (a : Access)
    (as : List Access) : (a :: as).foldlM (serve prevAction pid) m =
      (((a :: as).map m.keys.fault).foldlM Event.run m.handler).map fun h =>
        ⟨h.withPending (m.pendingAfter pid a),
          ⟨openKeys m.ctx.pkru ((a :: as).map fun a => m.keys.key a.ptr), m.ctx.efl ||| TF⟩,
          m.keys⟩ := by
  simp only [List.map_cons, List.foldlM_cons, serve_eq]
  cases hrun : (m.keys.fault a).run m.handler with
  | none => rfl
  | some h =>
      have hfind : (m.pendingAfter pid a).find pid =
          some ⟨m.keys.si_pkey a.ptr, savedRights m.ctx.pkru (m.keys.si_pkey a.ptr)⟩ := by
        rw [pendingAfter, UnorderedMap.find_emplace, if_pos (by simp), hentry, Option.getD_none]
      have hTF : (m.ctx.efl ||| TF) ||| TF = m.ctx.efl ||| TF := by
        rw [BitVec.or_assoc, BitVec.or_self]
      refine (foldlM_serve_of_entry ⟨h.withPending (m.pendingAfter pid a),
        ⟨openKeys m.ctx.pkru [m.keys.key a.ptr], m.ctx.efl ||| TF⟩, m.keys⟩ hfind hTF as).trans ?_
      change ((as.map m.keys.fault).foldlM Event.run (h.withPending _)).map _ = _
      rw [foldlM_fault_withPending, Option.map_map]
      rfl

/-- **The trap of an instruction with faults** closes the key of the first one, and leaves the
others open. -/
theorem trap_afterFaults (m : Machine) (hidle : m.Idle pid) {h : AllocSiteHandler}
    (hmap : h.pkeyByTidMap = m.handler.pkeyByTidMap) {a : Access} {ks : List (BitVec 4)}
    (hk : m.keys.key a.ptr ∉ ks) :
    trap pid ⟨h.withPending (m.pendingAfter pid a),
      ⟨openKeys m.ctx.pkru (m.keys.key a.ptr :: ks), m.ctx.efl ||| TF⟩, m.keys⟩ =
      ⟨h, ⟨openKeys m.ctx.pkru ks, m.ctx.efl⟩, m.keys⟩ := by
  have hfind : (h.withPending (m.pendingAfter pid a)).pkeyByTidMap.find pid =
      some ⟨m.keys.si_pkey a.ptr, savedRights m.ctx.pkru (m.keys.si_pkey a.ptr)⟩ := by
    change (m.pendingAfter pid a).find pid = _
    rw [pendingAfter, UnorderedMap.find_emplace, if_pos (by simp), hidle.entry, Option.getD_none]
  obtain ⟨hhandler, hpkru⟩ := pku_trap_handler_of_find
    ⟨openKeys m.ctx.pkru (m.keys.key a.ptr :: ks), m.ctx.efl ||| TF⟩ hfind
    (si_pkey_lt m.keys a.ptr) (not_lt_read _ _)
  have hefl := efl_pku_trap_handler pid (h.withPending (m.pendingAfter pid a))
    ⟨openKeys m.ctx.pkru (m.keys.key a.ptr :: ks), m.ctx.efl ||| TF⟩
  rw [savedRights, toNat_si_pkey, write_openKeys_cons _ hk] at hpkru
  rw [or_TF_and_not_TF hidle.trapFlag] at hefl
  have hrestored : (h.withPending (m.pendingAfter pid a)).withPending
      ((m.pendingAfter pid a).erase pid) = h := by
    rw [pendingAfter, UnorderedMap.erase_emplace hidle.entry, ← hmap]
    rfl
  rw [trap, if_pos (trapFlag_or_TF _ _)]
  dsimp only
  rw [hhandler, ThreadContext.eq_mk hpkru hefl]
  exact congrArg (fun g => Machine.mk g _ _) hrestored

end Machine

/-! ### The machine and the monitor -/

namespace Monitor

variable {prevAction : Option SigAction} {pid : ThreadId} {fuel : ℕ}

/-- The violations of an instruction are of different keys. -/
theorem nodup_violations (mon : Monitor) (accs : List Access) :
    ((mon.violations accs).map mon.key).Nodup := nodup_map_firsts _

theorem length_violations_le (mon : Monitor) (accs : List Access) :
    (mon.violations accs).length ≤ 16 := by
  have hnodup : (((mon.violations accs).map mon.key).map BitVec.toNat).Nodup :=
    (mon.nodup_violations accs).map fun _ _ => BitVec.eq_of_toNat_eq
  have hsub : ((mon.violations accs).map mon.key).map BitVec.toNat ⊆ List.range 16 := by
    intro n hn
    obtain ⟨k, -, rfl⟩ := List.mem_map.1 hn
    exact List.mem_range.2 k.isLt
  have hle := (List.subperm_of_subset hnodup hsub).length_le
  rwa [List.length_map, List.length_map, List.length_range] at hle

/-- The machine refuses what the monitor notices. -/
theorem blocked_machine (mon : Monitor) (h : AllocSiteHandler) (efl : BitVec 64) :
    (Machine.stepping prevAction pid).blocked (mon.machine h efl) = mon.refuses := by
  funext a
  exact denied_openKeys ..

/-- The machine when further keys have leaked. -/
theorem machine_leak (mon : Monitor) (ks : List (BitVec 4)) (h : AllocSiteHandler)
    (efl : BitVec 64) : { mon with leaked := mon.leaked ++ ks }.machine h efl =
      ⟨h, ⟨openKeys (openKeys mon.pkru mon.leaked) ks, efl⟩, mon.keys⟩ := by
  rw [← openKeys_append]
  rfl

/-- **An instruction on the machine**, which completes with the faults that the monitor notices. -/
theorem step_access (hfuel : 16 ≤ fuel) (mon : Monitor) {h : AllocSiteHandler} {efl : BitVec 64}
    (hidle : (mon.machine h efl).Idle pid) (accs : List Access) :
    (mon.machine h efl).step prevAction pid fuel (.access accs) =
      ((mon.step (.access accs)).1.foldlM Event.run h).map fun h' =>
        ((mon.step (.access accs)).1, (mon.step (.access accs)).2.machine h' efl) := by
  have hopens : (Machine.stepping prevAction pid).Opens mon.key fun m => m.keys = mon.keys :=
    Machine.opens_stepping mon.keys
  have hle : (firsts mon.key (accs.filter ((Machine.stepping prevAction pid).blocked
      (mon.machine h efl)))).length ≤ fuel := by
    rw [blocked_machine]
    exact (mon.length_violations_le accs).trans hfuel
  have hcomplete := Restart.complete_eq hopens fuel (show (mon.machine h efl).keys = mon.keys from
    rfl) hle
  rw [blocked_machine] at hcomplete
  change _ = ((mon.violations accs).foldlM (Machine.serve prevAction pid) _).map
    (fun m => (mon.violations accs, m)) at hcomplete
  have hnodup := mon.nodup_violations accs
  rw [Machine.step, hcomplete]
  simp only [Monitor.step]
  cases hv : mon.violations accs with
  | nil =>
      have htrap : Machine.trap pid (mon.machine h efl) = mon.machine h efl := by
        rw [Machine.trap, if_neg]
        simpa [ThreadContext.trapFlag] using hidle.trapFlag
      change some (_, Machine.trap pid (mon.machine h efl)) =
        some (_, { mon with leaked := _ ++ List.map mon.key [] }.machine h efl)
      rw [htrap, machine_leak]
      rfl
  | cons a as =>
      rw [hv, List.map_cons, List.nodup_cons] at hnodup
      rw [Machine.foldlM_serve _ hidle.entry]
      change Option.bind (((((a :: as).map mon.keys.fault).foldlM Event.run h).map _).map _) _ = _
      cases hrun : ((a :: as).map mon.keys.fault).foldlM Event.run h with
      | none => rfl
      | some h' =>
          have htrap := Machine.trap_afterFaults _ hidle (pkeyByTidMap_events hrun) hnodup.1
          exact congrArg (fun m => some (_, m)) (htrap.trans (machine_leak ..).symm)

/-- Every instruction on the machine. -/
theorem step_machine (hfuel : 16 ≤ fuel) (mon : Monitor) {h : AllocSiteHandler} {efl : BitVec 64}
    (hidle : (mon.machine h efl).Idle pid) (i : Instr) :
    (mon.machine h efl).step prevAction pid fuel i = ((mon.step i).1.foldlM Event.run h).map
      fun h' => ((mon.step i).1, (mon.step i).2.machine h' efl) := by
  cases i with
  | access accs => exact step_access hfuel mon hidle accs
  | wrpkru pkru => rfl
  | pkey_mprotect page key => rfl
  | hook c => exact bind_hook h c fun h' => ([Event.hook c], mon.machine h' efl)

/-- The thread is between two instructions again afterwards. -/
theorem idle_machine {mon mon' : Monitor} {h h' : AllocSiteHandler} {efl : BitVec 64}
    (hidle : (mon.machine h efl).Idle pid) {es : List Event}
    (he : es.foldlM Event.run h = some h') : (mon'.machine h' efl).Idle pid where
  trapFlag := hidle.trapFlag
  entry := (congrArg (fun m => UnorderedMap.find m pid) (pkeyByTidMap_events he)).trans hidle.entry

theorem runTrace_machine_leaked (hfuel : 16 ≤ fuel) (mon : Monitor) {h : AllocSiteHandler}
    {efl : BitVec 64} (hidle : (mon.machine h efl).Idle pid) (is : List Instr) :
    runTrace (Machine.step prevAction pid fuel) (mon.machine h efl) is =
      ((mon.run is).1.foldlM Event.run h).map fun h' =>
        ((mon.run is).1, (mon.run is).2.machine h' efl) := by
  induction is generalizing mon h with
  | nil => rfl
  | cons i is ih =>
      rw [runTrace_cons, step_machine hfuel mon hidle, Monitor.run, List.foldlM_append]
      cases hi : (mon.step i).1.foldlM Event.run h with
      | none => rfl
      | some h' =>
          rw [Option.map_some, Option.bind_some, ih _ (idle_machine hidle hi)]
          change Option.map _ (Option.map _ _) = Option.map _ (Option.bind (some h') _)
          rw [Option.map_map, Option.bind_some]
          rfl

end Monitor

/-- What a program that has run to its end has left. -/
theorem Machine.exists_of_runTrace {prevAction : Option SigAction} {pid : ThreadId} {fuel : ℕ}
    (hfuel : 16 ≤ fuel) {m : Machine} (hidle : m.Idle pid) {is : List Instr}
    {r : List Event × Machine}
    (hrun : runTrace (Machine.step prevAction pid fuel) m is = some r) :
    ∃ h, (m.monitor.run is).1.foldlM Event.run m.handler = some h ∧
      r = ((m.monitor.run is).1, (m.monitor.run is).2.machine h m.ctx.efl) := by
  have hrefines : runTrace (Machine.step prevAction pid fuel) m is = _ :=
    Monitor.runTrace_machine_leaked hfuel m.monitor hidle is
  rw [hrun] at hrefines
  obtain ⟨h, hh, hr⟩ := Option.map_eq_some_iff.1 hrefines.symm
  exact ⟨h, hh, hr.symm⟩

/-- **The machine is the monitor**: started between two instructions it completes every program, as
long as no assertion of the runtime fails, with the events that the monitor notices, and what it
leaves are these events in the runtime and the monitor's rights in the registers. -/
theorem runTrace_machine (prevAction : Option SigAction) (pid : ThreadId) (fuel : ℕ)
    (hfuel : 16 ≤ fuel) (m : Machine) (hidle : m.Idle pid) (is : List Instr) :
    runTrace (Machine.step prevAction pid fuel) m is =
      ((m.monitor.run is).1.foldlM Event.run m.handler).map fun h =>
        ((m.monitor.run is).1, (m.monitor.run is).2.machine h m.ctx.efl) :=
  Monitor.runTrace_machine_leaked hfuel m.monitor hidle is

/-- A process whose pages all have key 1, which is closed. -/
def closedMachine : Machine := ⟨AllocSiteHandler.init 0, closedContext, fun _ => 1#4⟩

theorem idle_closedMachine : closedMachine.Idle 1 := ⟨by decide, rfl⟩

/-- A write to a page. -/
def closedWrite : Instr := .access [⟨0x1008#64, true⟩]

/-- The write completes with one fault, and the register is as before. -/
theorem runTrace_machine_write : runTrace (Machine.step none 1 16) closedMachine [closedWrite] =
    some ([.fault 0x1008#64 1#32], closedMachine) :=
  runTrace_machine none 1 16 le_rfl closedMachine idle_closedMachine [closedWrite]

/-! ### The program's own rights -/

/-- The word that the program has set. -/
def Instr.pkru (pkru : BitVec 32) : Instr → BitVec 32
  | .wrpkru pkru' => pkru'
  | _ => pkru

/-- The keys that the program has given the pages. -/
def Instr.keys (keys : PageKeys) : Instr → PageKeys
  | .pkey_mprotect page key => keys.protect page key
  | _ => keys

/-- The violations of an instruction, one for each key. -/
def ownViolations (pkru : BitVec 32) (keys : PageKeys) (accs : List Access) : List Access :=
  firsts (fun a => keys.key a.ptr) (accs.filter fun a => a.denied pkru keys)

/-- The calls of hooks in a program, and the violations of the program's own rights. -/
def ownTrace (pkru : BitVec 32) (keys : PageKeys) : List Instr → List Event
  | [] => []
  | .access accs :: is => (ownViolations pkru keys accs).map keys.fault ++ ownTrace pkru keys is
  | .hook c :: is => .hook c :: ownTrace pkru keys is
  | i :: is => ownTrace (i.pkru pkru) (i.keys keys) is

/-- No instruction of the program violates two keys. -/
def SingleKeys (pkru : BitVec 32) (keys : PageKeys) (is : List Instr) : Prop :=
  ∀ is₁ accs is₂, is = is₁ ++ .access accs :: is₂ →
    (ownViolations (is₁.foldl Instr.pkru pkru) (is₁.foldl Instr.keys keys) accs).length ≤ 1

/-- Instructions that make one access each violate one key at most. -/
theorem singleKeys_of_length {pkru : BitVec 32} {keys : PageKeys} {is : List Instr}
    (h : ∀ accs, .access accs ∈ is → accs.length ≤ 1) : SingleKeys pkru keys is := by
  intro is₁ accs is₂ his
  have hsub : (ownViolations (is₁.foldl Instr.pkru pkru) (is₁.foldl Instr.keys keys) accs).Sublist
    accs := (firsts_sublist _).trans List.filter_sublist
  exact hsub.length_le.trans (h accs (by simp [his]))

theorem SingleKeys.tail {pkru : BitVec 32} {keys : PageKeys} {i : Instr} {is : List Instr}
    (h : SingleKeys pkru keys (i :: is)) : SingleKeys (i.pkru pkru) (i.keys keys) is := by
  intro is₁ accs is₂ his
  exact h (i :: is₁) accs is₂ (by rw [his, List.cons_append])

theorem SingleKeys.of_append {pkru : BitVec 32} {keys : PageKeys} {is is' : List Instr}
    (h : SingleKeys pkru keys (is ++ is')) : SingleKeys pkru keys is := by
  intro is₁ accs is₂ his
  exact h is₁ accs (is₂ ++ is') (by rw [his, List.append_assoc, List.cons_append])

namespace Monitor

theorem pkru_step (mon : Monitor) (i : Instr) : (mon.step i).2.pkru = i.pkru mon.pkru := by
  cases i <;> rfl

theorem keys_step (mon : Monitor) (i : Instr) : (mon.step i).2.keys = i.keys mon.keys := by
  cases i <;> rfl

theorem run_append (mon : Monitor) (is is' : List Instr) :
    (mon.run (is ++ is')).2 = ((mon.run is).2.run is').2 := by
  induction is generalizing mon with
  | nil => rfl
  | cons i is ih => exact ih _

theorem pkru_run (mon : Monitor) (is : List Instr) :
    (mon.run is).2.pkru = is.foldl Instr.pkru mon.pkru := by
  induction is generalizing mon with
  | nil => rfl
  | cons i is ih => rw [run, ih, pkru_step, List.foldl_cons]

theorem keys_run (mon : Monitor) (is : List Instr) :
    (mon.run is).2.keys = is.foldl Instr.keys mon.keys := by
  induction is generalizing mon with
  | nil => rfl
  | cons i is ih => rw [run, ih, keys_step, List.foldl_cons]

/-- **What the monitor notices are violations**: all those of keys that have not leaked. -/
theorem violations_eq (mon : Monitor) (accs : List Access) : mon.violations accs =
    (ownViolations mon.pkru mon.keys accs).filter fun a => mon.key a ∉ mon.leaked := by
  have hkey : ∀ a b : Access, mon.key a = mon.key b →
      decide (mon.key a ∉ mon.leaked) = decide (mon.key b ∉ mon.leaked) := fun a b h => by rw [h]
  change firsts mon.key _ = (firsts mon.key _).filter _
  rw [← firsts_filter hkey, List.filter_filter]
  exact congrArg (firsts mon.key) (List.filter_congr fun a _ => Bool.and_comm ..)

theorem violations_of_nil {mon : Monitor} (hleaked : mon.leaked = []) (accs : List Access) :
    mon.violations accs = ownViolations mon.pkru mon.keys accs := by
  rw [violations_eq, hleaked]
  simp

/-- The keys that have leaked are closed in the program's own word. -/
def LeakedClosed (mon : Monitor) : Prop :=
  ∀ k ∈ mon.leaked, BitField.read 2 mon.pkru k.toNat ≠ PKEY_ENABLE_ACCESS

theorem LeakedClosed.step {mon : Monitor} (h : mon.LeakedClosed) (i : Instr) :
    (mon.step i).2.LeakedClosed := by
  cases i with
  | wrpkru pkru => exact fun k hk => absurd hk (by simp [Monitor.step])
  | pkey_mprotect page key => exact h
  | hook c => exact h
  | access accs =>
      intro k hk
      rcases List.mem_append.1 hk with hk | hk
      · exact h k hk
      · obtain ⟨a, ha, rfl⟩ := List.mem_map.1 hk
        have hmem := (firsts_sublist _).subset (List.mem_of_mem_tail ha)
        have hdenied := (Bool.and_eq_true_iff.1 (List.mem_filter.1 hmem).2).1
        have hclosed := read_ne_of_accessDenied (si_pkey_lt mon.keys a.ptr) hdenied
        rwa [toNat_si_pkey] at hclosed

theorem LeakedClosed.run {mon : Monitor} (h : mon.LeakedClosed) (is : List Instr) :
    (mon.run is).2.LeakedClosed := by
  induction is generalizing mon with
  | nil => exact h
  | cons i is ih => exact ih (h.step i)

/-- The registers have the program's own rights exactly when no key has leaked. -/
theorem LeakedClosed.openKeys_eq_iff {mon : Monitor} (h : mon.LeakedClosed) :
    openKeys mon.pkru mon.leaked = mon.pkru ↔ mon.leaked = [] := by
  constructor
  · intro heq
    refine List.eq_nil_iff_forall_not_mem.2 fun k hk => h k hk ?_
    have hread := read_openKeys mon.pkru mon.leaked k
    rwa [heq, if_pos hk] at hread
  · intro hnil
    rw [hnil, openKeys_nil]

/-- **Nothing leaks in a program whose instructions violate one key each**, and every violation is
noticed. -/
theorem run_of_singleKeys {mon : Monitor} (hleaked : mon.leaked = []) {is : List Instr}
    (hsingle : SingleKeys mon.pkru mon.keys is) :
    (mon.run is).2.leaked = [] ∧ (mon.run is).1 = ownTrace mon.pkru mon.keys is := by
  induction is generalizing mon with
  | nil => exact ⟨hleaked, rfl⟩
  | cons i is ih =>
      have htail := hsingle.tail
      rw [← pkru_step, ← keys_step] at htail
      have hstep : (mon.step i).2.leaked = [] := by
        cases i with
        | wrpkru pkru => rfl
        | pkey_mprotect page key => exact hleaked
        | hook c => exact hleaked
        | access accs =>
            have hle := hsingle [] accs is rfl
            change mon.leaked ++ (mon.violations accs).tail.map mon.key = []
            rw [violations_of_nil hleaked, hleaked, List.nil_append, List.map_eq_nil_iff]
            cases hv : ownViolations mon.pkru mon.keys accs with
            | nil => rfl
            | cons a as =>
                change (ownViolations mon.pkru mon.keys accs).length ≤ 1 at hle
                rw [hv, List.length_cons] at hle
                rw [List.tail_cons]
                exact List.length_eq_zero_iff.1 (by omega)
      obtain ⟨hend, htrace⟩ := ih hstep htail
      refine ⟨hend, ?_⟩
      rw [run, htrace, pkru_step, keys_step]
      cases i with
      | access accs =>
          rw [Monitor.step, violations_of_nil hleaked]
          rfl
      | wrpkru | pkey_mprotect | hook => rfl

/-- The monitor notices violations only. -/
theorem trace_sublist_run (mon : Monitor) (is : List Instr) :
    (mon.run is).1.Sublist (ownTrace mon.pkru mon.keys is) := by
  induction is generalizing mon with
  | nil => exact List.Sublist.refl _
  | cons i is ih =>
      have hrest := ih (mon.step i).2
      rw [pkru_step, keys_step] at hrest
      rw [run]
      cases i with
      | access accs =>
          refine List.Sublist.append ?_ hrest
          rw [Monitor.step, violations_eq]
          exact List.filter_sublist.map _
      | hook c => exact hrest.cons_cons _
      | wrpkru pkru => exact hrest
      | pkey_mprotect page key => exact hrest

end Monitor

/-- **The program keeps its rights exactly when no instruction violates two keys**: at every point
of the program the register has what the program has put there. -/
theorem pkru_kept_iff (prevAction : Option SigAction) (pid : ThreadId) (fuel : ℕ)
    (hfuel : 16 ≤ fuel) (m : Machine) (hidle : m.Idle pid) (is : List Instr)
    (hrun : (runTrace (Machine.step prevAction pid fuel) m is).isSome) :
    (∀ is₁ is₂ r, is = is₁ ++ is₂ → runTrace (Machine.step prevAction pid fuel) m is₁ = some r →
        r.2.ctx.pkru = is₁.foldl Instr.pkru m.ctx.pkru) ↔
      SingleKeys m.ctx.pkru m.keys is := by
  have hclosed : m.monitor.LeakedClosed := fun k hk => absurd hk List.not_mem_nil
  -- the register at the end of a prefix
  have hbefores : ∀ is₁ r, runTrace (Machine.step prevAction pid fuel) m is₁ = some r →
      (r.2.ctx.pkru = is₁.foldl Instr.pkru m.ctx.pkru ↔ (m.monitor.run is₁).2.leaked = []) := by
    intro is₁ r hr
    obtain ⟨h, -, rfl⟩ := Machine.exists_of_runTrace hfuel hidle hr
    have hown := m.monitor.pkru_run is₁
    change openKeys _ _ = is₁.foldl Instr.pkru m.monitor.pkru ↔ _
    rw [← hown]
    exact (hclosed.run is₁).openKeys_eq_iff
  constructor
  · intro hkept is₁ accs is₂ his
    have hcut : is = (is₁ ++ [.access accs]) ++ is₂ := by simp [his]
    obtain ⟨r₁, hr₁⟩ := exists_runTrace_of_append (his ▸ hrun)
    obtain ⟨r₂, hr₂⟩ := exists_runTrace_of_append (hcut ▸ hrun)
    have hbefore := (hbefores _ r₁ hr₁).1 (hkept is₁ _ r₁ his hr₁)
    have hafter := (hbefores _ r₂ hr₂).1 (hkept _ is₂ r₂ hcut hr₂)
    rw [Monitor.run_append] at hafter
    have htail : (((m.monitor.run is₁).2.violations accs).tail.map _) = [] :=
      (List.append_eq_nil_iff.1 hafter).2
    rw [Monitor.violations_of_nil hbefore, List.map_eq_nil_iff, Monitor.pkru_run,
      Monitor.keys_run] at htail
    have hlength := congrArg List.length htail
    rw [List.length_tail, List.length_nil] at hlength
    exact Nat.le_of_sub_eq_zero hlength
  · intro hsingle is₁ is₂ r his hr
    exact (hbefores is₁ r hr).2
      (Monitor.run_of_singleKeys (show m.monitor.leaked = [] from rfl)
        (SingleKeys.of_append (his ▸ hsingle))).1

theorem singleKeys_closedWrite :
    SingleKeys closedMachine.ctx.pkru closedMachine.keys [closedWrite] := by
  refine singleKeys_of_length fun accs haccs => ?_
  obtain rfl := Instr.access.inj (List.mem_singleton.1 haccs)
  exact le_rfl

/-- A program that writes to a closed page keeps its rights. -/
theorem pkru_kept_iff_write : ∃ r,
    runTrace (Machine.step none 1 16) closedMachine [closedWrite] = some r ∧
      r.2.ctx.pkru = closedMachine.ctx.pkru := by
  have hrun : (runTrace (Machine.step none 1 16) closedMachine [closedWrite]).isSome := rfl
  obtain ⟨r, hr⟩ := Option.isSome_iff_exists.1 hrun
  exact ⟨r, hr, (pkru_kept_iff none 1 16 le_rfl closedMachine idle_closedMachine [closedWrite]
    rfl).2 singleKeys_closedWrite [closedWrite] [] r rfl hr⟩

/-- **What is recorded are violations**: the events of a program are calls of hooks and violations
of its own rights, in their order, and none is missed when no instruction violates two keys. -/
theorem trace_sublist (prevAction : Option SigAction) (pid : ThreadId) (fuel : ℕ)
    (hfuel : 16 ≤ fuel) (m : Machine) (hidle : m.Idle pid) (is : List Instr)
    (r : List Event × Machine)
    (hrun : runTrace (Machine.step prevAction pid fuel) m is = some r) :
    r.1.foldlM Event.run m.handler = some r.2.handler ∧
      r.1.Sublist (ownTrace m.ctx.pkru m.keys is) ∧
      (SingleKeys m.ctx.pkru m.keys is → r.1 = ownTrace m.ctx.pkru m.keys is) := by
  obtain ⟨h, hh, rfl⟩ := Machine.exists_of_runTrace hfuel hidle hrun
  refine ⟨hh, m.monitor.trace_sublist_run is, fun hsingle => ?_⟩
  exact (Monitor.run_of_singleKeys (show m.monitor.leaked = [] from rfl) hsingle).2

theorem trace_sublist_write : ∃ r,
    runTrace (Machine.step none 1 16) closedMachine [closedWrite] = some r ∧
      r.1 = ownTrace closedMachine.ctx.pkru closedMachine.keys [closedWrite] := by
  have hrun : (runTrace (Machine.step none 1 16) closedMachine [closedWrite]).isSome := rfl
  obtain ⟨r, hr⟩ := Option.isSome_iff_exists.1 hrun
  exact ⟨r, hr, (trace_sublist none 1 16 le_rfl closedMachine idle_closedMachine [closedWrite] r
    hr).2.2 singleKeys_closedWrite⟩

end Provsan
