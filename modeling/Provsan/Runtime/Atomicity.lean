/-
**The critical sections of the handler are atomic.**

Each mutex of `AllocSiteHandler` guards one member, and every operation holds the mutexes of the
members it works on until it has done with them.  So the threads cannot tell whether others act in
the middle of a critical section: the programs with their mutexes leave the same handlers as the
machine in which a critical section is one step (`Provsan.sections_atomic`).  For the hooks these
steps are those of `Provsan.HookPc.step`, and the threads of `Provsan.PoolStep` leave the same
handlers as the threads with mutexes (`Provsan.hooks_atomic`).

Main definitions:

* `Provsan.handlerParts` — the members that the mutexes guard;
* `Provsan.HookPc.prog`, `Provsan.ThreadState.prog` — what is left of a call, and of a thread, as a
  program.

Main results:

* `Provsan.LockedCall.twoPhase_prog` — every call releases its mutexes only when it has done;
* `Provsan.sections_atomic` — **the critical sections are atomic**;
* `Provsan.hooks_atomic` — **threads of hook calls leave what their critical sections leave**.
-/

import Provsan.Lib.Atomic
import Provsan.Runtime.Locking
import Provsan.Runtime.Independent

set_option relaxedAutoImplicit false
set_option autoImplicit false

namespace Provsan

/-! ### What the mutexes guard -/

/-- The members of the handler: each mutex guards one, and nobody changes the site total. -/
def handlerParts : Parts AllocSiteHandler Mutex where
  γ
    | none => ℕ
    | some .alloc_map_mx => OrdMap RustPtr AllocSite
    | some .fault_set_mx => UnorderedSet AllocSite
    | some .pkey_tid_map_mx => UnorderedMap ThreadId PendingPKeyInfo
    | some .realloc_map_mx => UnorderedMap AllocSite (UnorderedSet AllocSite)
  part
    | none => AllocSiteHandler.allocSiteCount
    | some .alloc_map_mx => AllocSiteHandler.allocationMap
    | some .fault_set_mx => AllocSiteHandler.faultSet
    | some .pkey_tid_map_mx => AllocSiteHandler.pkeyByTidMap
    | some .realloc_map_mx => AllocSiteHandler.FM
  ext := by
    rintro ⟨m, s, p, f, n⟩ ⟨m', s', p', f', n'⟩ h
    obtain rfl : m = m' := h (some .alloc_map_mx)
    obtain rfl : s = s' := h (some .fault_set_mx)
    obtain rfl : p = p' := h (some .pkey_tid_map_mx)
    obtain rfl : f = f' := h (some .realloc_map_mx)
    obtain rfl : n = n' := h none
    rfl

section

variable (h : AllocSiteHandler) {o : Option Mutex}

theorem part_allocationMap (m : OrdMap RustPtr AllocSite) (ho : o ≠ some .alloc_map_mx) :
    handlerParts.part o { h with allocationMap := m } = handlerParts.part o h := by
  rcases o with _ | _ | _ | _ | _ <;> first | rfl | exact absurd rfl ho

theorem part_faultSet (s : UnorderedSet AllocSite) (ho : o ≠ some .fault_set_mx) :
    handlerParts.part o { h with faultSet := s } = handlerParts.part o h := by
  rcases o with _ | _ | _ | _ | _ <;> first | rfl | exact absurd rfl ho

theorem part_pkeyByTidMap (m : UnorderedMap ThreadId PendingPKeyInfo)
    (ho : o ≠ some .pkey_tid_map_mx) :
    handlerParts.part o { h with pkeyByTidMap := m } = handlerParts.part o h := by
  rcases o with _ | _ | _ | _ | _ <;> first | rfl | exact absurd rfl ho

theorem part_FM (m : UnorderedMap AllocSite (UnorderedSet AllocSite))
    (ho : o ≠ some .realloc_map_mx) :
    handlerParts.part o { h with FM := m } = handlerParts.part o h := by
  rcases o with _ | _ | _ | _ | _ <;> first | rfl | exact absurd rfl ho

end

/-- The body of a scope with a `lock_guard` works on the member of its mutex only. -/
structure Guards {α : Type} (m : Mutex) (f : AllocSiteHandler → α × AllocSiteHandler) : Prop where
  inside : ∀ h h', handlerParts.part (some m) h = handlerParts.part (some m) h' →
    (f h).1 = (f h').1 ∧
      handlerParts.part (some m) (f h).2 = handlerParts.part (some m) (f h').2
  outside : ∀ h o, o ≠ some m → handlerParts.part o (f h).2 = handlerParts.part o h

namespace Guards

theorem insertAllocSite (ptr : RustPtr) (site : AllocSite) :
    Guards .alloc_map_mx fun h => ((), h.insertAllocSite ptr site) where
  inside _ _ heq := ⟨rfl, congrArg (OrdMap.emplace · ptr site) heq⟩
  outside h _ ho := part_allocationMap h _ ho

theorem removeAllocSite (ptr : RustPtr) :
    Guards .alloc_map_mx fun h => ((), h.removeAllocSite ptr) where
  inside _ _ heq := ⟨rfl, congrArg (OrdMap.erase · ptr) heq⟩
  outside h _ ho := part_allocationMap h _ ho

theorem getAllocSite (ptr : RustPtr) :
    Guards .alloc_map_mx fun h => (h.getAllocSite ptr, h) where
  inside h h' heq := by
    have hmap : h.allocationMap = h'.allocationMap := heq
    refine ⟨?_, heq⟩
    simp only [AllocSiteHandler.getAllocSite, AllocSiteHandler.checkNode, hmap]
  outside _ _ _ := rfl

theorem storePendingPKeyInfo (threadID : ThreadId) (pkeyinfo : PendingPKeyInfo) :
    Guards .pkey_tid_map_mx fun h => ((), h.storePendingPKeyInfo threadID pkeyinfo) where
  inside _ _ heq := ⟨rfl, congrArg (UnorderedMap.emplace · threadID pkeyinfo) heq⟩
  outside h _ ho := part_pkeyByTidMap h _ ho

theorem getAndRemove (threadID : ThreadId) :
    Guards .pkey_tid_map_mx fun h => h.getAndRemove threadID where
  inside h h' heq := by
    have hmap : h.pkeyByTidMap = h'.pkeyByTidMap := heq
    simp only [AllocSiteHandler.getAndRemove, ← hmap]
    cases h.pkeyByTidMap.find threadID with
    | none => exact ⟨rfl, hmap⟩
    | some info => exact ⟨rfl, rfl⟩
  outside h o ho := by
    rw [AllocSiteHandler.getAndRemove]
    cases h.pkeyByTidMap.find threadID with
    | none => rfl
    | some info => exact part_pkeyByTidMap h _ ho

theorem faultingAllocs : Guards .fault_set_mx fun h => (h.faultSet, h) where
  inside _ _ heq := ⟨heq, heq⟩
  outside _ _ _ := rfl

theorem insertFault (site : AllocSite) :
    Guards .fault_set_mx fun h => ((), { h with faultSet := h.faultSet.insert site }) where
  inside _ _ heq := ⟨rfl, congrArg (UnorderedSet.insert · site) heq⟩
  outside h _ ho := part_faultSet h _ ho

theorem findChain (site : AllocSite) :
    Guards .realloc_map_mx fun h => (h.FM.find site, h) where
  inside _ _ heq := ⟨congrArg (UnorderedMap.find · site) heq, heq⟩
  outside _ _ _ := rfl

theorem updateReallocChain (oldAS newAS : AllocSite) :
    Guards .realloc_map_mx fun h => ((), h.updateReallocChain oldAS newAS) where
  inside h h' heq := by
    have hmap : h.FM = h'.FM := heq
    refine ⟨rfl, ?_⟩
    simp only [AllocSiteHandler.updateReallocChain, ← hmap]
    cases h.FM.find oldAS <;> rfl
  outside h o ho := by
    rw [AllocSiteHandler.updateReallocChain]
    cases h.FM.find oldAS with
    | none => exact part_FM h _ ho
    | some chain => exact part_FM h _ ho

/-- Under its mutex, and maybe others, it is a step on the parts of the mutexes held. -/
theorem isLocal {α : Type} {m : Mutex} {f : AllocSiteHandler → α × AllocSiteHandler}
    (hf : Guards m f) {held : List Mutex} (hm : m ∈ held) (rest : α → LockedProg) :
    handlerParts.Local held (fun h => (f h).2) fun h => rest (f h).1 where
  inside h h' hagree := by
    obtain ⟨hsame, hpart⟩ := hf.inside h h' (hagree.2 m hm)
    refine ⟨⟨?_, fun l hl => ?_⟩, congrArg rest hsame⟩
    · rw [hf.outside h none (by simp), hf.outside h' none (by simp)]
      exact hagree.1
    · by_cases hlm : l = m
      · rw [hlm]
        exact hpart
      · rw [hf.outside h (some l) (by simpa using hlm), hf.outside h' (some l) (by simpa using hlm)]
        exact hagree.2 l hl
  outside h := by
    refine ⟨hf.outside h none (by simp), fun l hl => hf.outside h (some l) ?_⟩
    rintro ⟨rfl⟩
    exact hl hm

end Guards

/-! ### Every call works in two phases -/

namespace Locking

/-- The discipline of a program that holds no mutex. -/
abbrev InTwoPhases (p : LockedProg) : Prop := p.TwoPhase handlerParts false []

theorem twoPhase_guarded {α : Type} {m : Mutex} {f : AllocSiteHandler → α × AllocSiteHandler}
    {k : α → LockedProg} (hf : Guards m f) (hk : ∀ a, InTwoPhases (k a)) :
    InTwoPhases (guarded m f k) :=
  ⟨Or.inl rfl, by simp, Or.inr rfl, hf.isLocal (by simp) fun a => .unlock m (k a),
    fun _ => ⟨[], rfl, hk _⟩⟩

/-- What the assertion about the use counter asks of the site total. -/
def counted (site : AllocSite) (allocSiteCount : ℕ) : Bool :=
  allocSiteCount = 0 ∨ 0 ≤ site.localID ∧ site.localID.toInt.toNat < allocSiteCount

theorem assertCounted_map (h h' : AllocSiteHandler) (site : AllocSite) :
    ((h.assertCounted site).map fun _ => h') =
      if counted site h.allocSiteCount then some h' else none := by
  by_cases h0 : h.allocSiteCount = 0 <;>
    by_cases hs : 0 ≤ site.localID ∧ site.localID.toInt.toNat < h.allocSiteCount <;>
      simp [AllocSiteHandler.assertCounted, counted, h0, hs]

theorem twoPhase_addAssocs {held : List Mutex} (hheld : Mutex.fault_set_mx ∈ held)
    (pkey : BitVec 32) (l : List AllocSite) {k : LockedProg}
    (hk : k.TwoPhase handlerParts true held) :
    (addAssocs pkey l k).TwoPhase handlerParts true held := by
  induction l with
  | nil => exact hk
  | cons assoc l ih =>
      have hlocal := (Guards.insertFault (assoc.addPkey pkey)).isLocal hheld fun _ =>
        addAssocs pkey l k
      refine @LockProg.TwoPhase.attempt _ _ handlerParts _ _ _ _ _ (counted assoc) ih (Or.inr rfl)
        hlocal fun h => ?_
      have hassert := assertCounted_map h
        { h with faultSet := h.faultSet.insert (assoc.addPkey pkey) } assoc
      rw [Option.map_eq_bind] at hassert
      exact hassert

/-- **`addFaultAlloc` releases its two mutexes only when it has done**, by either of its ends. -/
theorem twoPhase_addFaultAlloc (ptr : RustPtr) (pkey : BitVec 32) {k : LockedProg}
    (hk : InTwoPhases k) : InTwoPhases (addFaultAlloc ptr pkey k) := by
  unfold addFaultAlloc getAllocSite
  refine twoPhase_guarded (.getAllocSite ptr) fun alloc => ?_
  split_ifs
  · have hend : LockProg.TwoPhase handlerParts true [.realloc_map_mx, .fault_set_mx]
        (.unlock .realloc_map_mx <| .unlock .fault_set_mx k) := ⟨_, rfl, _, rfl, hk⟩
    refine @LockProg.TwoPhase.attempt _ _ handlerParts _ _ _ _ _ (counted alloc) ?_ (Or.inl rfl)
      ⟨fun _ _ hagree => ⟨hagree, rfl⟩, fun h => .refl [] h⟩ fun h => assertCounted_map h h alloc
    refine ⟨Or.inl rfl, by simp, Or.inr rfl,
      (Guards.insertFault (alloc.addPkey pkey)).isLocal (by simp) fun _ => _, fun _ => ?_⟩
    refine ⟨Or.inr rfl, by simp, Or.inr rfl, ⟨fun h h' hagree => ⟨hagree, ?_⟩, .refl _⟩,
      fun h => ?_⟩
    · have hsame : h.FM.find (alloc.addPkey pkey) = h'.FM.find (alloc.addPkey pkey) :=
        ((Guards.findChain (alloc.addPkey pkey)).inside h h'
          (hagree.2 .realloc_map_mx List.mem_cons_self)).1
      rw [hsame]
    dsimp only
    cases h.FM.find (alloc.addPkey pkey) with
    | none => exact hend
    | some chain => exact twoPhase_addAssocs (by simp) pkey chain.elems hend
  · exact hk

theorem twoPhase_create {site : Option AllocSite} {k : AllocSite → LockedProg}
    (hk : ∀ site, InTwoPhases (k site)) : InTwoPhases (create site k) := by
  cases site with
  | none => exact Or.inl rfl
  | some site => exact hk site

end Locking

/-! ### What is left of a call, as a program -/

open Locking in
/-- What is left of a hook, and what comes after it. -/
def HookPc.prog : HookPc → LockedProg → LockedProg
  | insert ptr site, k => insertAllocSite ptr site k
  | remove ptr, k => removeAllocSite ptr k
  | lookup newPtr newSize oldPtr localID bbName funcName, k =>
      getAllocSite oldPtr fun oldAS =>
        if !oldAS.isValid then
          create (AllocSite.create newPtr newSize localID bbName funcName 0#32 false) fun site =>
            insertAllocSite newPtr site k
        else
          create (AllocSite.create newPtr newSize localID bbName funcName DEFAULT_PKEY true)
            fun newAS => updateReallocChain oldAS newAS <| removeAllocSite oldPtr <|
              insertAllocSite newPtr newAS k
  | chain oldAS newAS oldPtr newPtr, k =>
      updateReallocChain oldAS newAS <| removeAllocSite oldPtr <| insertAllocSite newPtr newAS k
  | replace newAS oldPtr newPtr, k => removeAllocSite oldPtr <| insertAllocSite newPtr newAS k

namespace HookPc

/-- The handler and the program after a critical section; a failed assertion ends the process. -/
def after (k : LockedProg) (h : AllocSiteHandler) :
    Option (AllocSiteHandler × Option HookPc) → AllocSiteHandler × LockedProg
  | none => (h, .abort)
  | some (h', none) => (h', k)
  | some (h', some pc) => (h', pc.prog k)

/-- A hook begins with its first critical section. -/
theorem hook_eq (c : HookCall) (k : LockedProg) :
    Locking.hook c k = ((start c).map fun pc => pc.prog k).getD .abort := by
  cases c with
  | alloc ptr size localID bbName funcName =>
      rw [Locking.hook, start]
      cases AllocSite.create ptr size localID bbName funcName 0#32 false <;> rfl
  | realloc | dealloc => rfl

/-- **Every step of a hook is a scope with a `lock_guard`.** -/
theorem exists_guarded (pc : HookPc) (k : LockedProg) :
    ∃ (α : Type) (m : Mutex) (f : AllocSiteHandler → α × AllocSiteHandler) (k' : α → LockedProg),
      pc.prog k = Locking.guarded m f k' ∧ ∀ h, after k h (pc.step h) = ((f h).2, k' (f h).1) := by
  cases pc with
  | insert ptr site => exact ⟨Unit, _, _, fun _ => k, rfl, fun _ => rfl⟩
  | remove ptr => exact ⟨Unit, _, _, fun _ => k, rfl, fun _ => rfl⟩
  | chain oldAS newAS oldPtr newPtr =>
      exact ⟨Unit, _, _, fun _ => (replace newAS oldPtr newPtr).prog k, rfl, fun _ => rfl⟩
  | replace newAS oldPtr newPtr =>
      exact ⟨Unit, _, _, fun _ => (insert newPtr newAS).prog k, rfl, fun _ => rfl⟩
  | lookup newPtr newSize oldPtr localID bbName funcName =>
      unfold prog Locking.getAllocSite
      refine ⟨_, _, _, _, rfl, fun h => ?_⟩
      rw [step]
      dsimp only
      by_cases hv : (h.getAllocSite oldPtr).isValid = true
      · simp only [hv, Bool.not_true, Bool.false_eq_true, if_false]
        cases AllocSite.create newPtr newSize localID bbName funcName DEFAULT_PKEY true <;> rfl
      · simp only [hv, Bool.not_false, if_true]
        cases AllocSite.create newPtr newSize localID bbName funcName 0#32 false <;> rfl

/-- What comes after a critical section is in two phases, when what comes after the hook is. -/
theorem twoPhase_prog (pc : HookPc) {k : LockedProg} (hk : Locking.InTwoPhases k) :
    Locking.InTwoPhases (pc.prog k) := by
  have hinsert : ∀ ptr site, Locking.InTwoPhases (Locking.insertAllocSite ptr site k) :=
    fun ptr site => Locking.twoPhase_guarded (.insertAllocSite ptr site) fun _ => hk
  have hreplace : ∀ newAS oldPtr newPtr, Locking.InTwoPhases
      (Locking.removeAllocSite oldPtr <| Locking.insertAllocSite newPtr newAS k) :=
    fun newAS oldPtr newPtr => Locking.twoPhase_guarded (.removeAllocSite oldPtr) fun _ =>
      hinsert newPtr newAS
  have hchain : ∀ oldAS newAS oldPtr newPtr, Locking.InTwoPhases
      (Locking.updateReallocChain oldAS newAS <| Locking.removeAllocSite oldPtr <|
        Locking.insertAllocSite newPtr newAS k) :=
    fun oldAS newAS oldPtr newPtr => Locking.twoPhase_guarded (.updateReallocChain oldAS newAS)
      fun _ => hreplace newAS oldPtr newPtr
  cases pc with
  | insert ptr site => exact hinsert ptr site
  | remove ptr => exact Locking.twoPhase_guarded (.removeAllocSite ptr) fun _ => hk
  | chain oldAS newAS oldPtr newPtr => exact hchain oldAS newAS oldPtr newPtr
  | replace newAS oldPtr newPtr => exact hreplace newAS oldPtr newPtr
  | lookup newPtr newSize oldPtr localID bbName funcName =>
      unfold prog Locking.getAllocSite
      refine Locking.twoPhase_guarded (.getAllocSite oldPtr) fun oldAS => ?_
      split_ifs
      · exact Locking.twoPhase_create fun site => hinsert newPtr site
      · exact Locking.twoPhase_create fun newAS => hchain oldAS newAS oldPtr newPtr

end HookPc

open Locking in
/-- **Every call releases its mutexes only when it has done** with what they guard. -/
theorem LockedCall.twoPhase_prog (c : LockedCall) {k : LockedProg} (hk : InTwoPhases k) :
    InTwoPhases (c.prog k) := by
  cases c with
  | hook c =>
      change InTwoPhases (Locking.hook c k)
      rw [HookPc.hook_eq]
      cases HookPc.start c with
      | none => exact Or.inl rfl
      | some pc => exact pc.twoPhase_prog hk
  | addFaultAlloc ptr pkey => exact twoPhase_addFaultAlloc ptr pkey hk
  | segv tid si ctx =>
      change InTwoPhases (Locking.pku_segv_handler tid si ctx k)
      unfold Locking.pku_segv_handler
      split_ifs
      · exact hk
      · exact twoPhase_addFaultAlloc _ _ (twoPhase_guarded (.getAllocSite _) fun _ =>
          twoPhase_guarded (.getAllocSite _) fun _ =>
            twoPhase_guarded (.storePendingPKeyInfo _ _) fun _ => hk)
  | trap pid ctx => exact twoPhase_guarded (.getAndRemove pid) fun _ => hk
  | insertAllocSite ptr site => exact twoPhase_guarded (.insertAllocSite ptr site) fun _ => hk
  | removeAllocSite ptr => exact twoPhase_guarded (.removeAllocSite ptr) fun _ => hk
  | getAllocSite ptr => exact twoPhase_guarded (.getAllocSite ptr) fun _ => hk
  | storePendingPKeyInfo threadID pkeyinfo =>
      exact twoPhase_guarded (.storePendingPKeyInfo threadID pkeyinfo) fun _ => hk
  | getAndRemove threadID => exact twoPhase_guarded (.getAndRemove threadID) fun _ => hk
  | faultingAllocs => exact twoPhase_guarded .faultingAllocs fun _ => hk
  | updateReallocChain oldAS newAS =>
      exact twoPhase_guarded (.updateReallocChain oldAS newAS) fun _ => hk

theorem twoPhase_threadProg (calls : List LockedCall) :
    Locking.InTwoPhases (threadProg calls) := by
  induction calls with
  | nil => rfl
  | cons c calls ih => exact c.twoPhase_prog ih

/-- **The critical sections are atomic.**  However many threads run whatever calls: the handler and
the programs that an interleaving of their steps leaves when no mutex is held, are those that an
interleaving of whole critical sections leaves. -/
theorem sections_atomic {ι : Type} [DecidableEq ι] (calls : ι → List LockedCall)
    (h h' : AllocSiteHandler) (prog : ι → LockedProg) :
    (∃ is, Run LockStep (LockState.start h fun i => threadProg (calls i)) is
      (LockState.start h' prog)) ↔
        ∃ is, Run AtomicStep ⟨h, fun i => threadProg (calls i)⟩ is ⟨h', prog⟩ :=
  exists_run_iff fun i => twoPhase_threadProg (calls i)

/-! ### Threads of hook calls -/

section

variable {α : Type} {m : Mutex} {f : AllocSiteHandler → α × AllocSiteHandler} {k : α → LockedProg}
  {h x : AllocSiteHandler} {q : LockedProg}

/-- How far a scope with a `lock_guard` can be. -/
theorem section_guarded_cases {p : LockedProg} {held : List Mutex} (hsection : Section p h q held x)
    (hp : p = Locking.guarded m f k) :
    (q = .act (fun h => (f h).2) fun h => .unlock m (k (f h).1)) ∧ held = [m] ∧ x = h ∨
      q = .unlock m (k (f h).1) ∧ held = [m] ∧ x = (f h).2 ∨
        q = k (f h).1 ∧ held = [] ∧ x = (f h).2 := by
  induction hsection with
  | enter =>
      cases hp
      exact Or.inl ⟨rfl, rfl, rfl⟩
  | lock _ hne ih =>
      rcases ih hp with ⟨hq, -⟩ | ⟨hq, -⟩ | ⟨-, hnil, -⟩
      · cases hq
      · cases hq
      · exact absurd hnil hne
  | unlock _ ih =>
      rcases ih hp with ⟨hq, -⟩ | ⟨hq, hheld, rfl⟩ | ⟨-, hnil, -⟩
      · cases hq
      · cases hq
        exact Or.inr (Or.inr ⟨rfl, (List.cons.inj hheld).2, rfl⟩)
      · cases hnil
  | act _ hne ih =>
      rcases ih hp with ⟨hq, hheld, rfl⟩ | ⟨hq, -⟩ | ⟨-, hnil, -⟩
      · cases hq
        exact Or.inr (Or.inl ⟨rfl, hheld, rfl⟩)
      · cases hq
      · exact absurd hnil hne

/-- The critical section of a scope with a `lock_guard` is its body. -/
theorem section_guarded_iff :
    Section (Locking.guarded m f k) h q [] x ↔ (x, q) = ((f h).2, k (f h).1) := by
  constructor
  · intro hsection
    rcases section_guarded_cases hsection rfl with ⟨-, hheld, -⟩ | ⟨-, hheld, -⟩ | ⟨rfl, -, rfl⟩
    · cases hheld
    · cases hheld
    · rfl
  · intro heq
    obtain ⟨rfl, rfl⟩ := Prod.mk.inj heq
    exact .unlock (.act .enter (by simp))

end

/-- **The critical sections of a hook are the steps of `HookPc.step`.** -/
theorem HookPc.section_prog_iff {pc : HookPc} {k q : LockedProg} {h x : AllocSiteHandler} :
    Section (pc.prog k) h q [] x ↔ (x, q) = after k h (pc.step h) := by
  obtain ⟨α, m, f, k', hprog, hafter⟩ := pc.exists_guarded k
  rw [hprog, hafter, section_guarded_iff]

namespace ThreadState

/-- What is left of a thread, as a program. -/
def prog (t : ThreadState) : LockedProg :=
  let k := threadProg (t.calls.map .hook)
  match t.pc with
  | none => k
  | some pc => pc.prog k

variable {t t' : ThreadState} {h x : AllocSiteHandler} {q : LockedProg}

/-- A thread that begins a call is at its first critical section. -/
theorem prog_of_start {c : HookCall} {pc : HookPc} (hstart : HookPc.start c = some pc)
    (calls : List HookCall) (lookups : List AllocSite) :
    (⟨c :: calls, none, lookups⟩ : ThreadState).prog =
      (⟨calls, some pc, lookups⟩ : ThreadState).prog := by
  change Locking.hook c _ = _
  rw [HookPc.hook_eq, hstart]
  rfl

theorem prog_of_finished (t : ThreadState) (hfin : t.Finished) : t.prog = .done := by
  obtain ⟨calls, pc, lookups⟩ := t
  obtain ⟨rfl, rfl⟩ := hfin
  rfl

/-- A thread is done, or in a call that has failed an assertion, or takes a mutex next. -/
theorem prog_cases (t : ThreadState) :
    t.Finished ∨ t.prog = .abort ∨ ∃ m rest, t.prog = .lock m rest := by
  have hlock : ∀ (pc : HookPc) (calls : List HookCall) (lookups : List AllocSite), ∃ m rest,
      (⟨calls, some pc, lookups⟩ : ThreadState).prog = .lock m rest := by
    intro pc calls lookups
    obtain ⟨α, m, f, k', hprog, -⟩ := pc.exists_guarded (threadProg (calls.map .hook))
    exact ⟨m, _, hprog⟩
  obtain ⟨calls, pc, lookups⟩ := t
  cases pc with
  | some pc => exact Or.inr (Or.inr (hlock pc calls lookups))
  | none =>
      cases calls with
      | nil => exact Or.inl ⟨rfl, rfl⟩
      | cons c calls =>
          cases hstart : HookPc.start c with
          | none =>
              refine Or.inr (Or.inl ?_)
              change Locking.hook c _ = _
              rw [HookPc.hook_eq, hstart]
              rfl
          | some pc =>
              rw [prog_of_start hstart]
              exact Or.inr (Or.inr (hlock pc calls lookups))

/-- A step of a thread is a critical section, or none when it begins a call. -/
theorem section_of_step (hstep : t.step h = some (t', x)) :
    x = h ∧ t'.prog = t.prog ∨ Section t.prog h t'.prog [] x := by
  obtain ⟨calls, pc, lookups⟩ := t
  cases pc with
  | none =>
      cases calls with
      | nil => exact absurd hstep (by simp [step])
      | cons c calls =>
          obtain ⟨pc, hstart, heq⟩ := Option.map_eq_some_iff.1 hstep
          obtain ⟨rfl, rfl⟩ := Prod.mk.inj heq
          exact Or.inl ⟨rfl, (prog_of_start hstart calls lookups).symm⟩
  | some pc =>
      rw [step_some] at hstep
      obtain ⟨⟨h', pc'⟩, hpc, heq⟩ := Option.map_eq_some_iff.1 hstep
      obtain ⟨rfl, rfl⟩ := Prod.mk.inj heq
      refine Or.inr (HookPc.section_prog_iff.2 ?_)
      rw [hpc]
      cases pc' <;> rfl

/-- A critical section is a step of the thread that is in a call. -/
theorem step_of_section_some {calls : List HookCall} {pc : HookPc} {lookups : List AllocSite}
    (hsection : Section (⟨calls, some pc, lookups⟩ : ThreadState).prog h q [] x) :
    q = .abort ∨ ∃ t', t'.prog = q ∧
      (⟨calls, some pc, lookups⟩ : ThreadState).step h = some (t', x) := by
  have heq := HookPc.section_prog_iff.1 hsection
  rw [step_some]
  cases hpc : pc.step h with
  | none =>
      rw [hpc] at heq
      exact Or.inl (Prod.mk.inj heq).2
  | some r =>
      obtain ⟨h', pc'⟩ := r
      rw [hpc] at heq
      refine Or.inr ⟨⟨calls, pc', lookups ++ pc.lookedUp h⟩, ?_⟩
      cases pc' with
      | none =>
          obtain ⟨rfl, rfl⟩ := Prod.mk.inj heq
          exact ⟨rfl, rfl⟩
      | some pc' =>
          obtain ⟨rfl, rfl⟩ := Prod.mk.inj heq
          exact ⟨rfl, rfl⟩

/-- **A critical section is made of steps of the thread**, when no assertion fails. -/
theorem solo_of_section (hsection : Section t.prog h q [] x) : q = .abort ∨
    ∃ t', t'.prog = q ∧ Relation.ReflTransGen SoloStep (t, h) (t', x) := by
  obtain ⟨calls, pc, lookups⟩ := t
  cases pc with
  | some pc =>
      rcases step_of_section_some hsection with hq | ⟨t', ht', hstep⟩
      · exact Or.inl hq
      · exact Or.inr ⟨t', ht', Relation.ReflTransGen.single hstep⟩
  | none =>
      obtain ⟨m, rest, hlock⟩ := hsection.exists_lock
      cases calls with
      | nil => cases hlock
      | cons c calls =>
          cases hstart : HookPc.start c with
          | none =>
              change Locking.hook c _ = _ at hlock
              rw [HookPc.hook_eq, hstart] at hlock
              cases hlock
          | some pc =>
              rw [prog_of_start hstart] at hsection
              rcases step_of_section_some hsection with hq | ⟨t', ht', hstep⟩
              · exact Or.inl hq
              · have hbegin : SoloStep (⟨c :: calls, none, lookups⟩, h)
                    (⟨calls, some pc, lookups⟩, h) := by
                  simp [SoloStep, step, hstart]
                exact Or.inr ⟨t', ht', Relation.ReflTransGen.head hbegin (.single hstep)⟩

end ThreadState

namespace Pool

variable {ι : Type}

/-- The pool as a state of the machine without interruptions. -/
def atomic (S : Pool ι) : AtomicState AllocSiteHandler Mutex ι :=
  ⟨S.handler, fun i => (S.thread i).prog⟩

/-- The threads have all finished when their programs are done. -/
theorem finished_iff {S : Pool ι} : S.Finished ↔ ∀ i, (S.thread i).prog = .done := by
  refine forall_congr' fun i => ⟨fun hfin => ?_, fun hdone => ?_⟩
  · exact (S.thread i).prog_of_finished hfin
  · rcases (S.thread i).prog_cases with hfin | habort | ⟨m, rest, hlock⟩
    · exact hfin
    · simp [hdone] at habort
    · simp [hdone] at hlock

variable [DecidableEq ι] {S S' : Pool ι} {A : AtomicState AllocSiteHandler Mutex ι} {i : ι}

theorem atomic_update (S : Pool ι) (h : AllocSiteHandler) (i : ι) (t : ThreadState) :
    (⟨h, Function.update S.thread i t⟩ : Pool ι).atomic =
      ⟨h, Function.update S.atomic.prog i t.prog⟩ := by
  simp only [atomic, AtomicState.mk.injEq, true_and]
  funext j
  by_cases hj : j = i
  · subst hj
    simp
  · simp [hj]

/-- A step of the pool is a critical section, or none when a thread begins a call. -/
theorem atomicStep_of_step (hstep : PoolStep S i S') :
    S'.atomic = S.atomic ∨ AtomicStep S.atomic i S'.atomic := by
  obtain ⟨⟨t', h'⟩, hthread, rfl⟩ := Option.map_eq_some_iff.1 hstep
  rw [atomic_update]
  rcases ThreadState.section_of_step hthread with ⟨rfl, hprog⟩ | hsection
  · left
    rw [hprog]
    exact congrArg (AtomicState.mk S.handler) (Function.update_eq_self i S.atomic.prog)
  · exact Or.inr (.critical hsection)

/-- What a thread does on its own is a run of the pool. -/
theorem exists_run_of_solo {t : ThreadState} {x : AllocSiteHandler}
    (hsolo : Relation.ReflTransGen ThreadState.SoloStep (S.thread i, S.handler) (t, x)) :
    ∃ is, Run PoolStep S is ⟨x, Function.update S.thread i t⟩ := by
  generalize hr : (t, x) = r at hsolo
  induction hsolo generalizing t x with
  | refl =>
      cases hr
      exact ⟨[], by simpa using Run.nil⟩
  | @tail r r' _ hstep ih =>
      cases hr
      obtain ⟨is, hrun⟩ := @ih r.1 r.2 rfl
      refine ⟨is ++ [i], hrun.snoc ?_⟩
      have hstep' : r.1.step r.2 = some (t, x) := hstep
      simp [PoolStep, step, hstep']

/-- **A critical section is a run of the pool**, when no assertion fails. -/
theorem exists_run_of_atomicStep (hstep : AtomicStep S.atomic i A) :
    A.prog i = .abort ∨ ∃ S' is, S'.atomic = A ∧ Run PoolStep S is S' := by
  cases hstep with
  | @critical p x hsection =>
      rcases ThreadState.solo_of_section hsection with rfl | ⟨t', rfl, hsolo⟩
      · exact Or.inl (by simp)
      · obtain ⟨is, hrun⟩ := exists_run_of_solo hsolo
        exact Or.inr ⟨_, is, atomic_update S x i t', hrun⟩
  | act hprog =>
      have hprog' : (S.thread i).prog = _ := hprog
      rcases (S.thread i).prog_cases with hfin | habort | ⟨m, rest, hlock⟩
      · rw [(S.thread i).prog_of_finished hfin] at hprog'
        cases hprog'
      · rw [habort] at hprog'
        cases hprog'
      · rw [hlock] at hprog'
        cases hprog'

end Pool

/-- **Threads of hook calls leave what their critical sections leave.**  The handlers that the
threads can leave when they have all returned are the same, whether they take mutexes around single
steps or run their critical sections as one step each. -/
theorem hooks_atomic {ι : Type} [DecidableEq ι] (calls : ι → List HookCall)
    (h h' : AllocSiteHandler) :
    (∃ is, Run LockStep (LockState.start h fun i => threadProg ((calls i).map .hook)) is
      (LockState.start h' fun _ => .done)) ↔
        ∃ is S, Run PoolStep (Pool.start h calls) is S ∧ S.Finished ∧ S.handler = h' := by
  rw [exists_run_iff fun i => twoPhase_threadProg ((calls i).map .hook)]
  constructor
  · rintro ⟨is, hrun⟩
    have hfollow : ∀ {is : List ι} {A : AtomicState AllocSiteHandler Mutex ι},
        Run AtomicStep (Pool.start h calls).atomic is A → (∃ i, A.prog i = .abort) ∨
          ∃ S is, S.atomic = A ∧ Run PoolStep (Pool.start h calls) is S := by
      intro is A hA
      induction hA with
      | nil => exact Or.inr ⟨_, [], rfl, Run.nil⟩
      | @snoc is A A' i _ hstep ih =>
          rcases ih with ⟨j, hj⟩ | ⟨S, is', rfl, hS⟩
          · exact Or.inl ⟨j, hstep.prog_of_abort hj⟩
          · rcases Pool.exists_run_of_atomicStep hstep with habort | ⟨S', is'', hS', hrun'⟩
            · exact Or.inl ⟨i, habort⟩
            · exact Or.inr ⟨S', is' ++ is'', hS', hS.append hrun'⟩
    rcases hfollow hrun with ⟨i, habort⟩ | ⟨S, is', hS, hrun'⟩
    · cases habort
    · refine ⟨is', S, hrun', Pool.finished_iff.2 fun i => ?_, congrArg AtomicState.data hS⟩
      exact congrFun (congrArg AtomicState.prog hS) i
  · rintro ⟨is, S, hrun, hfin, rfl⟩
    have hdone : S.atomic = ⟨S.handler, fun _ => .done⟩ :=
      congrArg (AtomicState.mk S.handler) (funext fun i => Pool.finished_iff.1 hfin i)
    rw [← hdone]
    refine @Run.invariant _ _ _ _ (fun S => ∃ is, Run AtomicStep (Pool.start h calls).atomic is
      S.atomic) ⟨[], Run.nil⟩ ?_ is S hrun
    rintro S i S' ⟨is, hA⟩ hstep
    rcases Pool.atomicStep_of_step hstep with heq | hstep'
    · exact ⟨is, heq ▸ hA⟩
    · exact ⟨is ++ [i], hA.snoc hstep'⟩

end Provsan
