/-
**Several faults of one instruction.**

An instruction may touch pages of several keys, and then it faults once for each before the trap
comes.  Every fault opens its key, but there is one entry for the thread and the first fault takes
it, so that the trap closes the first key only.

Main definitions:

* `Provsan.PkuFault`, `Provsan.FaultStep` — a denied access, and the handler's answer to it;
* `Provsan.KeysClosed` — what the trap after the instruction is meant to leave;
* `Provsan.FirstSaved`, `Provsan.SecondOpen` — the state after one fault, and after more.

Main results:

* `Provsan.keysClosed_iff_single` — **the keys are closed again exactly when the instruction
  faulted once**;
* `Provsan.find_of_idle` — between two instructions the main thread has no entry.
-/

import Provsan.Runtime.Stepping

set_option relaxedAutoImplicit false
set_option autoImplicit false

namespace Provsan

/-- A PKU fault, with the kind of the access that caused it. -/
structure PkuFault where
  si : SigInfo
  write : Bool
  deriving DecidableEq

/-- The handler's answer to one fault of the thread: the key is one of the processor's, and its
access is denied at that moment. -/
inductive FaultStep (tid : ThreadId) :
    AllocSiteHandler × ThreadContext → PkuFault → AllocSiteHandler × ThreadContext → Prop
  | intro {h h' : AllocSiteHandler} {ctx ctx' : ThreadContext} {f : PkuFault}
      {prevAction : Option SigAction} (hcode : f.si.si_code = SEGV_PKUERR)
      (hkey : f.si.si_pkey.toNat < 16)
      (hdenied : accessDenied ctx.pkru (Int32.ofBitVec f.si.si_pkey) f.write = true)
      (hcall : pku_segv_handler prevAction tid f.si h ctx = some (.stepping h' ctx')) :
      FaultStep tid (h, ctx) f (h', ctx')

/-- **What the trap after an instruction is meant to leave**, in a process whose main thread took
the faults: the word it had before, a clear trap flag and no entry. -/
structure KeysClosed (pid : ThreadId) (ctx₀ : ThreadContext)
    (s : AllocSiteHandler × ThreadContext) : Prop where
  pkru : (pku_trap_handler pid s.1 s.2).2.pkru = ctx₀.pkru
  trapFlag : (pku_trap_handler pid s.1 s.2).2.trapFlag = false
  entry : (pku_trap_handler pid s.1 s.2).1.pkeyByTidMap.find pid = none

/-! ### After the first fault -/

/-- The first fault was one of key `k`: its rights are saved, and the keys that are not as before
are open. -/
structure FirstSaved (tid : ThreadId) (ctx₀ : ThreadContext) (k : BitVec 32)
    (s : AllocSiteHandler × ThreadContext) : Prop where
  entry : s.1.pkeyByTidMap.find tid = some ⟨k, savedRights ctx₀.pkru k⟩
  key_lt : k.toNat < 16
  key_open : BitField.read 2 s.2.pkru k.toNat = PKEY_ENABLE_ACCESS
  opened : ∀ j, BitField.read 2 s.2.pkru j = PKEY_ENABLE_ACCESS ∨
    BitField.read 2 s.2.pkru j = BitField.read 2 ctx₀.pkru j

theorem fits_enableAccess : BitField.Fits 2 PKEY_ENABLE_ACCESS := fits_rights (by decide)

/-- What a fault does to the rights of the keys. -/
theorem read_after_fault {j k : ℕ} (hk : k < 16) (pkru : BitVec 32) :
    BitField.read 2 (BitField.write 2 pkru k PKEY_ENABLE_ACCESS) j =
      if j = k then PKEY_ENABLE_ACCESS else BitField.read 2 pkru j := by
  split_ifs with hjk
  · rw [hjk, BitField.read_write_self (by omega) fits_enableAccess]
  · rw [BitField.read_write_of_ne hjk fits_enableAccess]

namespace FirstSaved

variable {tid : ThreadId} {ctx₀ : ThreadContext}

/-- The first fault of an instruction finds no entry and stores its own. -/
theorem of_faultStep {h : AllocSiteHandler} {f : PkuFault} {s : AllocSiteHandler × ThreadContext}
    (hentry : h.pkeyByTidMap.find tid = none) (hstep : FaultStep tid (h, ctx₀) f s) :
    FirstSaved tid ctx₀ f.si.si_pkey s ∧
      s.2.pkru = BitField.write 2 ctx₀.pkru f.si.si_pkey.toNat PKEY_ENABLE_ACCESS := by
  cases hstep with
  | @intro _ h' _ ctx' _ _ hcode hkey hdenied hcall =>
      obtain ⟨hmap, hword⟩ := pku_segv_handler_eq_some hkey hcode hcall
      refine ⟨⟨?_, hkey, ?_, fun j => ?_⟩, hword⟩
      · rw [hmap, UnorderedMap.find_emplace, if_pos (by simp), hentry, Option.getD_none]
      · rw [hword, read_after_fault hkey, if_pos rfl]
      · rw [hword, read_after_fault hkey]
        split_ifs
        · exact Or.inl rfl
        · exact Or.inr rfl

/-- **A further fault keeps the entry of the first one.** -/
theorem faultStep {k : BitVec 32} {s s' : AllocSiteHandler × ThreadContext} {f : PkuFault}
    (hinv : FirstSaved tid ctx₀ k s) (hstep : FaultStep tid s f s') : FirstSaved tid ctx₀ k s' := by
  cases hstep with
  | @intro h h' ctx ctx' _ _ hcode hkey hdenied hcall =>
      obtain ⟨hmap, hword⟩ := pku_segv_handler_eq_some hkey hcode hcall
      refine ⟨?_, hinv.key_lt, ?_, fun j => ?_⟩
      · -- `emplace` finds the slot of the thread taken
        rw [hmap, UnorderedMap.find_emplace, if_pos (by simp), hinv.entry, Option.getD_some]
      · rw [hword, read_after_fault hkey]
        split_ifs
        · rfl
        · exact hinv.key_open
      · rw [hword, read_after_fault hkey]
        split_ifs
        · exact Or.inl rfl
        · exact hinv.opened j

/-- The trap puts the first key back. -/
theorem pkru_trap {k : BitVec 32} {s : AllocSiteHandler × ThreadContext}
    (hinv : FirstSaved tid ctx₀ k s) : (pku_trap_handler tid s.1 s.2).2.pkru =
      BitField.write 2 s.2.pkru k.toNat (savedRights ctx₀.pkru k) :=
  (pku_trap_handler_of_find s.2 hinv.entry hinv.key_lt (not_lt_read _ _)).2

end FirstSaved

/-! ### After a second fault -/

/-- A second key, which was closed before the instruction, is open. -/
structure SecondOpen (tid : ThreadId) (ctx₀ : ThreadContext) (k j : BitVec 32)
    (s : AllocSiteHandler × ThreadContext) : Prop extends FirstSaved tid ctx₀ k s where
  ne : j.toNat ≠ k.toNat
  second_open : BitField.read 2 s.2.pkru j.toNat = PKEY_ENABLE_ACCESS
  was_closed : BitField.read 2 ctx₀.pkru j.toNat ≠ PKEY_ENABLE_ACCESS

namespace SecondOpen

variable {tid : ThreadId} {ctx₀ : ThreadContext} {k j : BitVec 32}

/-- A fault needs a key that is closed, so that the second one is not on the first key. -/
theorem of_faultStep {s s' : AllocSiteHandler × ThreadContext} {f : PkuFault}
    (hinv : FirstSaved tid ctx₀ k s) (hstep : FaultStep tid s f s') :
    SecondOpen tid ctx₀ k f.si.si_pkey s' := by
  have hfirst := hinv.faultStep hstep
  cases hstep with
  | intro hcode hkey hdenied hcall =>
      have hclosed := read_ne_of_accessDenied hkey hdenied
      refine { hfirst with ne := ?_, second_open := ?_, was_closed := ?_ }
      · intro heq
        rw [heq] at hclosed
        exact hclosed hinv.key_open
      · rw [(pku_segv_handler_eq_some hkey hcode hcall).2, read_after_fault hkey, if_pos rfl]
      · rcases hinv.opened f.si.si_pkey.toNat with h | h
        · exact absurd h hclosed
        · rwa [← h]

theorem faultStep {s s' : AllocSiteHandler × ThreadContext} {f : PkuFault}
    (hinv : SecondOpen tid ctx₀ k j s) (hstep : FaultStep tid s f s') :
    SecondOpen tid ctx₀ k j s' := by
  refine { hinv.toFirstSaved.faultStep hstep with
    ne := hinv.ne, second_open := ?_, was_closed := hinv.was_closed }
  cases hstep with
  | intro hcode hkey hdenied hcall =>
      rw [(pku_segv_handler_eq_some hkey hcode hcall).2, read_after_fault hkey]
      split_ifs
      · rfl
      · exact hinv.second_open

/-- **The second key stays open after the trap.** -/
theorem leaves_open {s : AllocSiteHandler × ThreadContext}
    (hinv : SecondOpen tid ctx₀ k j s) : ¬ KeysClosed tid ctx₀ s := by
  intro hclosed
  have hread := congrArg (fun x => BitField.read 2 x j.toNat)
    (hinv.toFirstSaved.pkru_trap.symm.trans hclosed.pkru)
  rw [savedRights, BitField.read_write_of_ne hinv.ne (BitField.fits_read _ _ _),
    hinv.second_open] at hread
  exact hinv.was_closed hread.symm

end SecondOpen

/-! ### Whole instructions -/

/-- **The keys are closed again exactly when the instruction faulted once.** -/
theorem keysClosed_iff_single (pid : ThreadId) (h : AllocSiteHandler) (ctx : ThreadContext)
    (fs : List PkuFault) (s : AllocSiteHandler × ThreadContext)
    (hentry : h.pkeyByTidMap.find pid = none) (hne : fs ≠ [])
    (hrun : Run (FaultStep pid) (h, ctx) fs s) : KeysClosed pid ctx s ↔ fs.length = 1 := by
  cases fs with
  | nil => exact absurd rfl hne
  | cons f fs =>
      obtain ⟨s₁, hfirst, hrest⟩ := hrun.of_cons
      obtain ⟨hsaved, hword⟩ := FirstSaved.of_faultStep hentry hfirst
      cases fs with
      | nil =>
          obtain rfl := hrest.eq_of_nil
          refine iff_of_true ⟨?_, trapFlag_pku_trap_handler .., ?_⟩ rfl
          · rw [hsaved.pkru_trap, hword, savedRights,
              BitField.write_write_read fits_enableAccess]
          · rw [find_pku_trap_handler, if_pos rfl]
      | cons g fs =>
          obtain ⟨s₂, hsecond, hrest⟩ := hrest.of_cons
          refine iff_of_false (SecondOpen.leaves_open (hrest.invariant
            (SecondOpen.of_faultStep hsaved hsecond) fun _ _ _ hinv => hinv.faultStep)) ?_
          rw [List.length_cons, List.length_cons]
          omega

/-- A fault on the key `k`, with registers in which it is closed. -/
theorem exists_faultStep (tid : ThreadId) {h : AllocSiteHandler} (h0 : h.allocSiteCount = 0)
    (ctx : ThreadContext) {f : PkuFault} (hcode : f.si.si_code = SEGV_PKUERR)
    (hkey : f.si.si_pkey.toNat < 16)
    (hdenied : accessDenied ctx.pkru (Int32.ofBitVec f.si.si_pkey) f.write = true) :
    ∃ s, FaultStep tid (h, ctx) f s := by
  obtain ⟨h', ctx', hcall⟩ := exists_pku_segv_handler none tid f.si ctx hcode h0
  exact ⟨(h', ctx'), FaultStep.intro hcode hkey hdenied hcall⟩

theorem keysClosed_iff_single_read : ∃ s, Run (FaultStep 1) (AllocSiteHandler.init 0, closedContext)
    [⟨deniedAccess, false⟩] s ∧ KeysClosed 1 closedContext s := by
  obtain ⟨s, hstep⟩ := exists_faultStep 1 (h := AllocSiteHandler.init 0) rfl closedContext
    (f := ⟨deniedAccess, false⟩) rfl (by decide) (by decide)
  have hrun := Run.nil.snoc hstep
  exact ⟨s, hrun, (keysClosed_iff_single 1 _ _ _ _ rfl (by simp) hrun).2 rfl⟩

/-- **An instruction that faults twice leaves a key open**: with keys 1 and 2 closed, an access to
both of them opens key 2 for good. -/
theorem not_keysClosed : ¬ ∀ (pid : ThreadId) (h : AllocSiteHandler) (ctx : ThreadContext)
    (fs : List PkuFault) (s : AllocSiteHandler × ThreadContext),
    h.pkeyByTidMap.find pid = none → fs ≠ [] → Run (FaultStep pid) (h, ctx) fs s →
      KeysClosed pid ctx s := by
  intro hall
  obtain ⟨⟨h₁, ctx₁⟩, hfirst⟩ := exists_faultStep 1 (h := AllocSiteHandler.init 0) rfl closedContext
    (f := ⟨deniedAccess, false⟩) rfl (by decide) (by decide)
  obtain ⟨hsaved, hword⟩ := FirstSaved.of_faultStep rfl hfirst
  have h0 : h₁.allocSiteCount = 0 := by
    cases hfirst with
    | intro hcode hkey _ hcall => rw [allocSiteCount_pku_segv_handler hcode hcall]; rfl
  obtain ⟨s, hsecond⟩ := exists_faultStep 1 h0 ctx₁
    (f := ⟨⟨SEGV_PKUERR, 0x2000#64, 2#32⟩, false⟩) rfl (by decide) (by
      rw [show ctx₁.pkru = _ from hword]
      decide)
  have hrun := (Run.nil.snoc hfirst).snoc hsecond
  exact (SecondOpen.of_faultStep hsaved hsecond).leaves_open
    (hall 1 _ closedContext _ _ rfl (by simp) hrun)

/-! ### Between instructions -/

/-- **Between two instructions the main thread has no entry**, in every run of the process. -/
theorem find_of_idle {pid : ThreadId} {h : AllocSiteHandler} {context : ThreadId → ThreadContext}
    {es : List ProcessEvent} {P : Process}
    (hrun : Run (ProcessStep pid) (Process.start h context) es P) (hidle : P.underWay pid = none) :
    P.handler.pkeyByTidMap.find pid = none := by
  refine hrun.invariant (I := fun P => P.underWay pid = none →
    P.handler.pkeyByTidMap.find pid = none) (fun _ => rfl) ?_ hidle
  intro P e P' hinv hstep hidle
  cases hstep with
  | @fault u si prevAction h ctx _ hcode hkey hcall =>
      rw [Process.underWay_afterFault] at hidle
      split_ifs at hidle with hu
      change h.pkeyByTidMap.find pid = none
      rw [(pku_segv_handler_eq_some hkey hcode hcall).1, UnorderedMap.find_emplace,
        if_neg (by simpa using Ne.symm hu)]
      exact hinv hidle
  | trap hst => rw [Process.find_afterTrap, if_pos rfl]
  | resume _ => exact hinv hidle
  | @hook c h hcall =>
      change h.pkeyByTidMap.find pid = none
      rw [pkeyByTidMap_run hcall]
      exact hinv hidle

end Provsan
