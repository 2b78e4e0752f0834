/-
**The signal handlers.**

`pku_segv_handler` and `pku_trap_handler` of `Runtime/provsan_fault_handler.cpp`, in the build that
single-steps.  A PKU fault is recorded, the rights of its key are saved for the thread, the key is
opened and the trap flag is set; the trap after the instruction restores what was saved.  The
handlers see the registers of the interrupted thread in its signal context.

Main definitions:

* `Provsan.ThreadContext`, `Provsan.SigInfo` — the signal context and the signal's information;
* `Provsan.disableThreadMPK`, `Provsan.enableThreadMPK`, `Provsan.disable_mpk`;
* `Provsan.pku_segv_handler`, `Provsan.pku_trap_handler` — the two handlers.

Main results:

* `Provsan.pku_segv_handler_eq_some` — what a PKU fault leaves behind;
* `Provsan.pku_trap_handler_of_find`, `Provsan.pku_trap_handler_of_none` — what a trap restores.
-/

import Provsan.Runtime.Hooks
import Provsan.Runtime.Pkru

set_option relaxedAutoImplicit false
set_option autoImplicit false

namespace Provsan

def TF : BitVec 64 := 0x100#64

/-- `si_code` of a fault that a protection key caused. -/
def SEGV_PKUERR : Int32 := 4

/-- The registers in the signal context that the handlers read and write. -/
structure ThreadContext where
  pkru : BitVec 32
  efl : BitVec 64
  deriving DecidableEq

def ThreadContext.trapFlag (ctx : ThreadContext) : Bool := (ctx.efl &&& TF) ≠ 0#64

structure SigInfo where
  si_code : Int32
  si_addr : RustPtr
  si_pkey : BitVec 32
  deriving DecidableEq

inductive SigHandler
  | SIG_DFL
  | SIG_IGN
  | pku_segv_handler
  | pku_trap_handler
  | foreign (id : ℕ)
  deriving DecidableEq

/-- A signal action; `siginfo` is the flag `SA_SIGINFO`. -/
structure SigAction where
  siginfo : Bool
  handler : SigHandler
  deriving DecidableEq

/-- How the SIGSEGV handler ends. -/
inductive SegvOutcome
  | stepping (h : AllocSiteHandler) (ctx : ThreadContext)
  /-- `signal(sig, SIG_DFL); raise(sig)`. -/
  | raisedDefault
  /-- `sigaction(sig, prevAction, nullptr)`. -/
  | reinstalled (action : SigAction)
  | delegated (handler : SigHandler)
  deriving DecidableEq

/-- `disableThreadMPK`: save the rights of the key for the thread, and open the key. -/
def disableThreadMPK (tid : ThreadId) (pkey : BitVec 32) (h : AllocSiteHandler)
    (ctx : ThreadContext) : AllocSiteHandler × ThreadContext :=
  let pkeyInfo : PendingPKeyInfo := ⟨pkey, (pkeyGet ctx.pkru (Int32.ofBitVec pkey)).toBitVec⟩
  (h.storePendingPKeyInfo tid pkeyInfo,
    { ctx with pkru := (pkeySet ctx.pkru (Int32.ofBitVec pkey) PKEY_ENABLE_ACCESS).2 })

def enableThreadMPK (pkeyInfo : PendingPKeyInfo) (ctx : ThreadContext) : ThreadContext :=
  { ctx with pkru := (pkeySet ctx.pkru (Int32.ofBitVec pkeyInfo.pkey) pkeyInfo.accessRights).2 }

def disable_mpk (tid : ThreadId) (si : SigInfo) (h : AllocSiteHandler) (ctx : ThreadContext) :
    AllocSiteHandler × ThreadContext :=
  let (h, ctx) := disableThreadMPK tid si.si_pkey h ctx
  (h, { ctx with efl := ctx.efl ||| TF })

/-- `pku_segv_handler` on the thread `tid`, which is what `gettid` returns; `none` when an
assertion fails. -/
def pku_segv_handler (prevAction : Option SigAction) (tid : ThreadId) (si : SigInfo)
    (h : AllocSiteHandler) (ctx : ThreadContext) : Option SegvOutcome :=
  if si.si_code ≠ SEGV_PKUERR then
    match prevAction with
    | none => some .raisedDefault
    | some action =>
        if action.siginfo then some (.delegated action.handler)
        else if action.handler = .SIG_DFL ∨ action.handler = .SIG_IGN then
          some (.reinstalled action)
        else some (.delegated action.handler)
  else do
    let h ← h.addFaultAlloc si.si_addr si.si_pkey
    let (h, ctx) := disable_mpk tid si h ctx
    some (.stepping h ctx)

/-- `pku_trap_handler` in the process `pid`, which is what `getpid` returns on every thread. -/
def pku_trap_handler (pid : ThreadId) (h : AllocSiteHandler) (ctx : ThreadContext) :
    AllocSiteHandler × ThreadContext :=
  let (pidKeyInfo, h) := h.getAndRemove pid
  let ctx :=
    match pidKeyInfo with
    | some info => enableThreadMPK info ctx
    | none => ctx
  (h, { ctx with efl := ctx.efl &&& ~~~TF })

/-! ### The trap flag -/

theorem and_not_TF_and_TF (efl : BitVec 64) : (efl &&& ~~~TF) &&& TF = 0#64 := by
  rw [BitVec.and_assoc, BitVec.not_and_self]
  exact BitVec.and_zero

theorem trapFlag_pku_trap_handler (pid : ThreadId) (h : AllocSiteHandler) (ctx : ThreadContext) :
    (pku_trap_handler pid h ctx).2.trapFlag = false := by
  rw [ThreadContext.trapFlag, pku_trap_handler]
  dsimp only
  rw [and_not_TF_and_TF]
  rfl

/-! ### What a fault leaves behind -/

/-- The rights `disableThreadMPK` saves for a key. -/
def savedRights (pkru pkey : BitVec 32) : BitVec 32 := BitField.read 2 pkru pkey.toNat

/-- **A PKU fault**: the block is looked up and its sites recorded, then the key is opened. -/
theorem pku_segv_handler_eq_stepping {prevAction : Option SigAction} {tid : ThreadId}
    {si : SigInfo} {h h' : AllocSiteHandler} {ctx ctx' : ThreadContext}
    (hcode : si.si_code = SEGV_PKUERR) :
    pku_segv_handler prevAction tid si h ctx = some (.stepping h' ctx') ↔
      ∃ g, h.addFaultAlloc si.si_addr si.si_pkey = some g ∧
        disable_mpk tid si g ctx = (h', ctx') := by
  unfold pku_segv_handler
  rw [if_neg (not_not.2 hcode)]
  simp only [Option.bind_eq_bind, Option.bind_eq_some_iff, Option.some_inj,
    SegvOutcome.stepping.injEq, Prod.ext_iff]

/-- **What a PKU fault leaves behind**: the saved rights, stored unless the thread had some
already, and a word in which the key is open. -/
theorem pku_segv_handler_eq_some {prevAction : Option SigAction} {tid : ThreadId} {si : SigInfo}
    {h h' : AllocSiteHandler} {ctx ctx' : ThreadContext} (hkey : si.si_pkey.toNat < 16)
    (hcode : si.si_code = SEGV_PKUERR)
    (he : pku_segv_handler prevAction tid si h ctx = some (.stepping h' ctx')) :
    h'.pkeyByTidMap =
        h.pkeyByTidMap.emplace tid ⟨si.si_pkey, savedRights ctx.pkru si.si_pkey⟩ ∧
      ctx'.pkru = BitField.write 2 ctx.pkru si.si_pkey.toNat PKEY_ENABLE_ACCESS := by
  obtain ⟨g, hg, heq⟩ := (pku_segv_handler_eq_stepping hcode).1 he
  obtain ⟨rfl, rfl⟩ := Prod.mk.inj heq
  rw [AllocSiteHandler.addFaultAlloc_frame hg]
  refine ⟨?_, ?_⟩
  · change UnorderedMap.emplace _ _ _ = _
    rw [pkeyGet_of_lt hkey]
    rfl
  · change (pkeySet ctx.pkru _ _).2 = _
    rw [pkeySet_of_lt hkey (by decide)]

theorem allocSiteCount_pku_segv_handler {prevAction : Option SigAction} {tid : ThreadId}
    {si : SigInfo} {h h' : AllocSiteHandler} {ctx ctx' : ThreadContext}
    (hcode : si.si_code = SEGV_PKUERR)
    (he : pku_segv_handler prevAction tid si h ctx = some (.stepping h' ctx')) :
    h'.allocSiteCount = h.allocSiteCount := by
  obtain ⟨g, hg, heq⟩ := (pku_segv_handler_eq_stepping hcode).1 he
  obtain ⟨rfl, rfl⟩ := Prod.mk.inj heq
  rw [AllocSiteHandler.addFaultAlloc_frame hg]
  rfl

/-- With the statistics off, a PKU fault always leads to a step. -/
theorem exists_pku_segv_handler (prevAction : Option SigAction) (tid : ThreadId) (si : SigInfo)
    {h : AllocSiteHandler} (ctx : ThreadContext) (hcode : si.si_code = SEGV_PKUERR)
    (h0 : h.allocSiteCount = 0) :
    ∃ h' ctx', pku_segv_handler prevAction tid si h ctx = some (.stepping h' ctx') := by
  obtain ⟨g, hg⟩ := AllocSiteHandler.exists_addFaultAlloc h0 si.si_addr si.si_pkey
  exact ⟨_, _, (pku_segv_handler_eq_stepping hcode).2 ⟨g, hg, rfl⟩⟩

/-! ### What a trap restores -/

theorem pku_trap_handler_of_none {pid : ThreadId} {h : AllocSiteHandler} (ctx : ThreadContext)
    (hf : h.pkeyByTidMap.find pid = none) :
    (pku_trap_handler pid h ctx).1 = h ∧ (pku_trap_handler pid h ctx).2.pkru = ctx.pkru := by
  rw [pku_trap_handler, AllocSiteHandler.getAndRemove, hf]
  exact ⟨rfl, rfl⟩

/-- **With an entry for the process, the trap restores it** and removes the entry. -/
theorem pku_trap_handler_of_find {pid : ThreadId} {h : AllocSiteHandler} (ctx : ThreadContext)
    {info : PendingPKeyInfo} (hf : h.pkeyByTidMap.find pid = some info)
    (hkey : info.pkey.toNat < 16) (hr : ¬ 3#32 < info.accessRights) :
    (pku_trap_handler pid h ctx).1 = { h with pkeyByTidMap := h.pkeyByTidMap.erase pid } ∧
      (pku_trap_handler pid h ctx).2.pkru =
        BitField.write 2 ctx.pkru info.pkey.toNat info.accessRights := by
  rw [pku_trap_handler, AllocSiteHandler.getAndRemove, hf]
  refine ⟨rfl, ?_⟩
  change (pkeySet ctx.pkru _ _).2 = _
  rw [pkeySet_of_lt hkey hr]

/-- **A trap touches the entry of the process only**, whatever thread it runs on. -/
theorem find_pku_trap_handler (pid : ThreadId) (h : AllocSiteHandler) (ctx : ThreadContext)
    (tid : ThreadId) :
    (pku_trap_handler pid h ctx).1.pkeyByTidMap.find tid =
      if tid = pid then none else h.pkeyByTidMap.find tid := by
  unfold pku_trap_handler AllocSiteHandler.getAndRemove
  cases hf : h.pkeyByTidMap.find pid with
  | none =>
      change h.pkeyByTidMap.find tid = _
      split_ifs with ht
      · rw [ht, hf]
      · rfl
  | some info =>
      change (h.pkeyByTidMap.erase pid).find tid = _
      rw [UnorderedMap.find_erase]
      by_cases ht : tid = pid
      · simp [ht]
      · simp [ht, Ne.symm ht]

end Provsan
