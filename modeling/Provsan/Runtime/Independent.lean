/-
**Threads on separate blocks.**

Threads call hooks side by side, and the critical sections of their calls interleave in any order.
When no two threads name a common address, they cannot disturb each other: whatever the order, each
reallocation finds the same old site, and the map is the same in the end.  The reason is that a
lookup sees nothing of the other threads (`Provsan.Local.getAllocSite_congr`), although it may stop
at one of their entries; so each thread runs as it would on its own, and what the threads leave in
the map can be told apart by the addresses.

Main definitions:

* `Provsan.ThreadState`, `Provsan.ThreadState.step` — a thread on its calls;
* `Provsan.Pool`, `Provsan.PoolStep` — threads side by side;
* `Provsan.HookCall.named`, `Provsan.Separate` — the addresses of a call, and separate threads;
* `Provsan.Local` — a map that separate threads have worked on.

Main results:

* `Provsan.Local.getAllocSite_congr` — lookups see nothing of the other threads;
* `Provsan.Pool.solo_of_run` — each thread runs as it would on its own;
* `Provsan.interleavings_agree` — **the order of the threads makes no difference**.
-/

import Provsan.Runtime.Lookup
import Mathlib.Data.Set.Lattice
import Mathlib.Logic.Relation

set_option relaxedAutoImplicit false
set_option autoImplicit false

namespace Provsan

/-! ### Threads -/

/-- The old site that a critical section looks up. -/
def HookPc.lookedUp (h : AllocSiteHandler) : HookPc → List AllocSite
  | .lookup _ _ oldPtr _ _ _ => [h.getAllocSite oldPtr]
  | _ => []

/-- The calls a thread has not begun, what is left of the one it is in, and the old sites its
reallocations have found, which decide the branches they take. -/
structure ThreadState where
  calls : List HookCall
  pc : Option HookPc
  lookups : List AllocSite
  deriving DecidableEq

namespace ThreadState

/-- The next step of a thread: it begins a call, or runs a critical section. -/
def step : ThreadState → AllocSiteHandler → Option (ThreadState × AllocSiteHandler)
  | ⟨[], none, _⟩, _ => none
  | ⟨c :: calls, none, lookups⟩, h =>
      (HookPc.start c).map fun pc => (⟨calls, some pc, lookups⟩, h)
  | ⟨calls, some pc, lookups⟩, h =>
      (pc.step h).map fun r => (⟨calls, r.2, lookups ++ pc.lookedUp h⟩, r.1)

/-- Inside a call, the step is a critical section. -/
theorem step_some (calls : List HookCall) (pc : HookPc) (lookups : List AllocSite)
    (h : AllocSiteHandler) : (⟨calls, some pc, lookups⟩ : ThreadState).step h =
      (pc.step h).map fun r => (⟨calls, r.2, lookups ++ pc.lookedUp h⟩, r.1) := by
  cases calls <;> rfl

def Finished (t : ThreadState) : Prop := t.calls = [] ∧ t.pc = none

theorem step_of_finished {t : ThreadState} (ht : t.Finished) (h : AllocSiteHandler) :
    t.step h = none := by
  obtain ⟨calls, pc, lookups⟩ := t
  obtain ⟨rfl, rfl⟩ := ht
  rfl

end ThreadState

/-- Threads that share a handler. -/
structure Pool (ι : Type) where
  handler : AllocSiteHandler
  thread : ι → ThreadState

namespace Pool

variable {ι : Type}

/-- No thread has begun. -/
def start (h : AllocSiteHandler) (calls : ι → List HookCall) : Pool ι :=
  ⟨h, fun i => ⟨calls i, none, []⟩⟩

/-- One thread makes a step. -/
def step [DecidableEq ι] (S : Pool ι) (i : ι) : Option (Pool ι) :=
  ((S.thread i).step S.handler).map fun r => ⟨r.2, Function.update S.thread i r.1⟩

def Finished (S : Pool ι) : Prop := ∀ i, (S.thread i).Finished

end Pool

/-- The interleavings of the threads. -/
def PoolStep {ι : Type} [DecidableEq ι] (S : Pool ι) (i : ι) (S' : Pool ι) : Prop :=
  S.step i = some S'

/-! ### Addresses -/

/-- The addresses from a pointer on. -/
def addrRange (ptr : RustPtr) (size : Int64) : Set RustPtr :=
  {p | ptr.toNat ≤ p.toNat ∧ p.toNat < ptr.toNat + size.toInt.toNat}

/-- The addresses that a call names: its new block, its old block and its old pointer. -/
def HookCall.named : HookCall → Set RustPtr
  | .alloc ptr size _ _ _ => addrRange ptr size
  | .realloc newPtr newSize oldPtr oldSize _ _ _ =>
      addrRange newPtr newSize ∪ addrRange oldPtr oldSize ∪ {oldPtr}
  | .dealloc ptr size _ => addrRange ptr size ∪ {ptr}

/-- The addresses that the calls of a thread name. -/
def namedBy (calls : List HookCall) : Set RustPtr := {p | ∃ c ∈ calls, p ∈ c.named}

/-- **Separate threads**: no address is named by two of them, and the map they start on holds blocks
that share no address, each of them named by one thread at most. -/
structure Separate {ι : Type} (m : OrdMap RustPtr AllocSite) (A : ι → Set RustPtr) : Prop where
  threads : ∀ i j p, p ∈ A i → p ∈ A j → i = j
  stored : Stored m
  unwrapped : Unwrapped m
  entries : ∀ k s k' s' p, m.find k = some s → m.find k' = some s' → p ∈ addrRange k s.size →
    p ∈ addrRange k' s'.size → k = k'
  named : ∀ k s, m.find k = some s → ∀ i j p q, p ∈ addrRange k s.size → p ∈ A i →
    q ∈ addrRange k s.size → q ∈ A j → i = j

/-- A map that separate threads have worked on: its entries are those of the start and blocks named
by a thread, and at the addresses that nobody names nothing has changed. -/
structure Local {ι : Type} (m₀ : OrdMap RustPtr AllocSite) (A : ι → Set RustPtr)
    (m : OrdMap RustPtr AllocSite) : Prop where
  stored : Stored m
  unwrapped : Unwrapped m
  origin : ∀ k s, m.find k = some s → m₀.find k = some s ∨ ∃ i, addrRange k s.size ⊆ A i
  outside : ∀ k, (∀ i, k ∉ A i) → m.find k = m₀.find k

/-- A pointer is in its own range, when that is not empty. -/
theorem mem_addrRange_self {m : OrdMap RustPtr AllocSite} (hst : Stored m) {k : RustPtr}
    {s : AllocSite} (hf : m.find k = some s) : k ∈ addrRange k s.size := by
  have hpos : 0 < s.size.toInt := by
    simpa using Int64.lt_iff_toInt_lt.1 (AllocSite.isValid_iff.1 (hst k s hf).2).2.1
  exact ⟨le_refl _, by omega⟩

theorem Separate.local_start {ι : Type} {m : OrdMap RustPtr AllocSite} {A : ι → Set RustPtr}
    (hsep : Separate m A) : Local m A m :=
  ⟨hsep.stored, hsep.unwrapped, fun _ _ hf => Or.inl hf, fun _ _ => rfl⟩

/-! ### Lookups see nothing of the other threads -/

namespace Local

variable {ι : Type} {m₀ : OrdMap RustPtr AllocSite} {A : ι → Set RustPtr}

/-- **A block around an address of a thread belongs to that thread**, or to nobody. -/
theorem key_of_mem {m : OrdMap RustPtr AllocSite} (hsep : Separate m₀ A) (hm : Local m₀ A m) {i : ι}
    {p k : RustPtr} {s : AllocSite} (hp : p ∈ A i) (hf : m.find k = some s)
    (hin : p ∈ addrRange k s.size) : k ∈ A i ∨ ∀ j, k ∉ A j := by
  have hk := mem_addrRange_self hm.stored hf
  rcases hm.origin k s hf with hf₀ | ⟨j, hsub⟩
  · by_cases hj : ∃ j, k ∈ A j
    · obtain ⟨j, hj⟩ := hj
      obtain rfl := hsep.named k s hf₀ i j p k hin hp hk hj
      exact Or.inl hj
    · exact Or.inr fun j hkj => hj ⟨j, hkj⟩
  · obtain rfl := hsep.threads i j p hp (hsub hin)
    exact Or.inl (hsub hk)

/-- **The entry a lookup returns is the last one in every map** that agrees on the addresses of the
thread: what the other threads have put in front of it would lie inside it. -/
theorem lastUpTo {m m' : OrdMap RustPtr AllocSite} (hsep : Separate m₀ A) (hm : Local m₀ A m)
    (hm' : Local m₀ A m') {i : ι} (hagree : ∀ k ∈ A i, m.find k = m'.find k) {p k : RustPtr}
    {s : AllocSite} (hp : p ∈ A i) (hlast : LastUpTo m p k s) (hc : s.containsPtr p = true) :
    LastUpTo m' p k s := by
  have hin : p ∈ addrRange k s.size :=
    (containsPtr_iff_of_stored hm.stored hm.unwrapped hlast.find p).1 hc
  have hsame : ∀ l, l ∈ A i ∨ (∀ j, l ∉ A j) → m'.find l = m.find l := by
    rintro l (hl | hl)
    · exact (hagree l hl).symm
    · rw [hm.outside l hl, hm'.outside l hl]
  refine ⟨(hsame k (key_of_mem hsep hm hp hlast.find hin)).trans hlast.find, hlast.le, ?_⟩
  intro k' s' hf' hle'
  by_contra hgt
  have hlt : k < k' := not_le.1 hgt
  have hk' : k' ∈ addrRange k s.size := by
    have h₁ := BitVec.lt_def.1 hlt
    have h₂ := BitVec.le_def.1 hle'
    exact ⟨le_of_lt h₁, lt_of_le_of_lt h₂ hin.2⟩
  have hself := mem_addrRange_self hm'.stored hf'
  -- the entry in between is one of the thread, so that it is in both maps
  have hmine : k' ∈ A i := by
    rcases hm.origin k s hlast.find with hf₀ | ⟨j, hsub⟩
    · rcases hm'.origin k' s' hf' with hf₀' | ⟨j, hsub'⟩
      · exact absurd (hsep.entries k s k' s' k' hf₀ hf₀' hk' hself) (ne_of_lt hlt)
      · obtain rfl := hsep.named k s hf₀ i j p k' hin hp hk' (hsub' hself)
        exact hsub' hself
    · obtain rfl := hsep.threads i j p hp (hsub hin)
      exact hsub hk'
  exact hgt (hlast.last k' s' ((hagree k' hmine).trans hf') hle')

/-- **Lookups see nothing of the other threads.** -/
theorem getAllocSite_congr {h h' : AllocSiteHandler} (hsep : Separate m₀ A)
    (hm : Local m₀ A h.allocationMap) (hm' : Local m₀ A h'.allocationMap) {i : ι}
    (hagree : ∀ k ∈ A i, h.allocationMap.find k = h'.allocationMap.find k) {p : RustPtr}
    (hp : p ∈ A i) : h.getAllocSite p = h'.getAllocSite p := by
  have htransfer : ∀ {g g' : AllocSiteHandler}, Local m₀ A g.allocationMap →
      Local m₀ A g'.allocationMap → (∀ k ∈ A i, g.allocationMap.find k = g'.allocationMap.find k) →
        g.getAllocSite p = AllocSite.error ∨ g'.getAllocSite p = g.getAllocSite p := by
    intro g g' hg hg' hgg
    rcases getAllocSite_eq_error_or_lastUpTo hg.stored hg.unwrapped p with herr | ⟨k, hlast, hc⟩
    · exact Or.inl herr
    · refine Or.inr ?_
      rw [getAllocSite_of_lastUpTo hg'.stored hg'.unwrapped
        (lastUpTo hsep hg hg' hgg hp hlast hc), if_pos hc]
  rcases htransfer hm hm' hagree with herr | heq
  · rcases htransfer hm' hm fun k hk => (hagree k hk).symm with herr' | heq
    · rw [herr, herr']
    · exact heq
  · exact heq.symm

end Local

/-! ### Steps on the addresses of one thread -/

/-- A site that can be stored for a block within a set of addresses. -/
structure AllocSite.Within (B : Set RustPtr) (ptr : RustPtr) (s : AllocSite) : Prop where
  ptr_eq : s.ptr = ptr
  isValid : s.isValid = true
  noWrap : ptr.toNat + s.size.toInt.toNat < 2 ^ 64
  subset : addrRange ptr s.size ⊆ B

theorem AllocSite.within_of_create {B : Set RustPtr} {ptr : RustPtr} {size localID : Int64}
    {bbName funcName : String} {pkey : BitVec 32} {isRealloc : Bool} {s : AllocSite}
    (hs : create ptr size localID bbName funcName pkey isRealloc = some s)
    (hwrap : ptr.toNat + size.toInt.toNat < 2 ^ 64) (hsub : addrRange ptr size ⊆ B) :
    s.Within B ptr := by
  have hbuilt := builtFrom_of_create hs
  exact ⟨hbuilt.ptr_eq, hbuilt.isValid, hbuilt.size_eq ▸ hwrap, hbuilt.size_eq ▸ hsub⟩

namespace HookPc

/-- What is left of a call works within a set of addresses. -/
def Within (B : Set RustPtr) : HookPc → Prop
  | insert ptr site => site.Within B ptr
  | remove ptr => ptr ∈ B
  | lookup newPtr newSize oldPtr _ _ _ =>
      oldPtr ∈ B ∧ newPtr.toNat + newSize.toInt.toNat < 2 ^ 64 ∧ addrRange newPtr newSize ⊆ B
  | chain _ newAS oldPtr newPtr => oldPtr ∈ B ∧ newAS.Within B newPtr
  | replace newAS oldPtr newPtr => oldPtr ∈ B ∧ newAS.Within B newPtr

/-- What a critical section does to the map. -/
def onMap : HookPc → OrdMap RustPtr AllocSite → OrdMap RustPtr AllocSite
  | insert ptr site, m => m.emplace ptr site
  | remove ptr, m => m.erase ptr
  | lookup _ _ _ _ _ _, m => m
  | chain _ _ _ _, m => m
  | replace _ oldPtr _, m => m.erase oldPtr

variable {B : Set RustPtr} {pc : HookPc}

/-- A call begins within the addresses that it names. -/
theorem within_start {c : HookCall} (hwrap : c.NoWrap) (hsub : c.named ⊆ B)
    (hstart : start c = some pc) : pc.Within B := by
  cases c with
  | alloc ptr size localID bbName funcName =>
      obtain ⟨s, hs, rfl⟩ := Option.map_eq_some_iff.1 hstart
      exact AllocSite.within_of_create hs (hwrap _ rfl) hsub
  | realloc newPtr newSize oldPtr oldSize localID bbName funcName =>
      obtain rfl := Option.some_inj.1 hstart
      exact ⟨hsub (Or.inr rfl), hwrap _ rfl, fun p hp => hsub (Or.inl (Or.inl hp))⟩
  | dealloc ptr size localID =>
      obtain rfl := Option.some_inj.1 hstart
      exact hsub (Or.inr rfl)

/-- **A critical section depends on the lookups within its addresses only**, and what is left after
it works within them again. -/
theorem step_congr {h g h' : AllocSiteHandler} {pc' : Option HookPc} (hw : pc.Within B)
    (hlook : ∀ p ∈ B, h.getAllocSite p = g.getAllocSite p) (hstep : pc.step h = some (h', pc')) :
    ∃ g', pc.step g = some (g', pc') ∧ pc.lookedUp h = pc.lookedUp g ∧
      h'.allocationMap = pc.onMap h.allocationMap ∧
      g'.allocationMap = pc.onMap g.allocationMap ∧ ∀ pc₁ ∈ pc', pc₁.Within B := by
  cases pc with
  | insert ptr site =>
      obtain ⟨rfl, rfl⟩ := Prod.mk.inj (Option.some_inj.1 hstep)
      exact ⟨_, rfl, rfl, rfl, rfl, fun _ hpc => absurd hpc (by simp)⟩
  | remove ptr =>
      obtain ⟨rfl, rfl⟩ := Prod.mk.inj (Option.some_inj.1 hstep)
      exact ⟨_, rfl, rfl, rfl, rfl, fun _ hpc => absurd hpc (by simp)⟩
  | chain oldAS newAS oldPtr newPtr =>
      obtain ⟨rfl, rfl⟩ := Prod.mk.inj (Option.some_inj.1 hstep)
      refine ⟨_, rfl, rfl, ?_, ?_, fun _ hpc => Option.mem_some_iff.1 hpc ▸ hw⟩ <;>
        exact AllocSiteHandler.allocationMap_updateReallocChain ..
  | replace newAS oldPtr newPtr =>
      obtain ⟨rfl, rfl⟩ := Prod.mk.inj (Option.some_inj.1 hstep)
      exact ⟨_, rfl, rfl, rfl, rfl, fun _ hpc => Option.mem_some_iff.1 hpc ▸ hw.2⟩
  | lookup newPtr newSize oldPtr localID bbName funcName =>
      obtain ⟨hold, hwrap, hsub⟩ := hw
      have heq := hlook oldPtr hold
      unfold step at hstep ⊢
      dsimp only at hstep ⊢
      rw [← heq]
      split_ifs at hstep ⊢ with hv
      · obtain ⟨site, hs, hr⟩ := Option.map_eq_some_iff.1 hstep
        obtain ⟨rfl, rfl⟩ := Prod.mk.inj hr
        refine ⟨g, by rw [hs]; rfl, by rw [lookedUp, lookedUp, heq], rfl, rfl, ?_⟩
        intro pc₁ hpc
        rw [← Option.mem_some_iff.1 hpc]
        exact AllocSite.within_of_create hs hwrap hsub
      · obtain ⟨newAS, hs, hr⟩ := Option.map_eq_some_iff.1 hstep
        obtain ⟨rfl, rfl⟩ := Prod.mk.inj hr
        refine ⟨g, by rw [hs]; rfl, by rw [lookedUp, lookedUp, heq], rfl, rfl, ?_⟩
        intro pc₁ hpc
        rw [← Option.mem_some_iff.1 hpc]
        exact ⟨hold, AllocSite.within_of_create hs hwrap hsub⟩

variable {m m' : OrdMap RustPtr AllocSite}

/-- A block within the addresses has its pointer among them. -/
theorem ptr_mem_of_within {ptr : RustPtr} {s : AllocSite} (hs : s.Within B ptr) : ptr ∈ B := by
  have hpos : 0 < s.size.toInt := by
    simpa using Int64.lt_iff_toInt_lt.1 (AllocSite.isValid_iff.1 hs.isValid).2.1
  exact hs.subset ⟨le_refl _, by omega⟩

/-- **A critical section leaves the other addresses alone.** -/
theorem find_onMap_of_notMem (hw : pc.Within B) {k : RustPtr} (hk : k ∉ B) :
    (pc.onMap m).find k = m.find k := by
  have hne : ∀ {ptr : RustPtr}, ptr ∈ B → k ≠ ptr := fun hptr heq => hk (heq ▸ hptr)
  cases pc with
  | insert ptr site => rw [onMap, OrdMap.find_emplace, if_neg (hne (ptr_mem_of_within hw))]
  | remove ptr => rw [onMap, OrdMap.find_erase, if_neg (hne hw)]
  | lookup | chain => rfl
  | replace newAS oldPtr newPtr => rw [onMap, OrdMap.find_erase, if_neg (hne hw.1)]

/-- What it does at its own addresses depends on these only. -/
theorem find_onMap_congr (hw : pc.Within B) (hagree : ∀ k ∈ B, m.find k = m'.find k) {k : RustPtr}
    (hk : k ∈ B) : (pc.onMap m).find k = (pc.onMap m').find k := by
  cases pc with
  | insert ptr site =>
      rw [onMap, onMap, OrdMap.find_emplace, OrdMap.find_emplace, hagree k hk,
        hagree ptr (ptr_mem_of_within hw)]
  | remove ptr => rw [onMap, onMap, OrdMap.find_erase, OrdMap.find_erase, hagree k hk]
  | lookup | chain => exact hagree k hk
  | replace newAS oldPtr newPtr =>
      rw [onMap, onMap, OrdMap.find_erase, OrdMap.find_erase, hagree k hk]

/-- An entry after a critical section was there before, or is that of a block within the
addresses. -/
theorem find_onMap_cases (hw : pc.Within B) {k : RustPtr} {s : AllocSite}
    (hf : (pc.onMap m).find k = some s) : m.find k = some s ∨ s.Within B k := by
  have herase : ∀ {ptr : RustPtr}, (m.erase ptr).find k = some s → m.find k = some s := by
    intro ptr he
    rw [OrdMap.find_erase] at he
    split_ifs at he
    exact he
  cases pc with
  | insert ptr site =>
      rw [onMap, OrdMap.find_emplace] at hf
      split_ifs at hf with hk
      · subst hk
        cases hold : m.find k with
        | none =>
            rw [hold, Option.getD_none] at hf
            exact Or.inr (Option.some_inj.1 hf ▸ hw)
        | some t =>
            rw [hold, Option.getD_some] at hf
            exact Or.inl hf
      · exact Or.inl hf
  | remove ptr => exact Or.inl (herase hf)
  | lookup | chain => exact Or.inl hf
  | replace newAS oldPtr newPtr => exact Or.inl (herase hf)

end HookPc

/-- **A critical section of a thread keeps the map local.** -/
theorem Local.onMap {ι : Type} {m₀ m : OrdMap RustPtr AllocSite} {A : ι → Set RustPtr}
    (hm : Local m₀ A m) {i : ι} {pc : HookPc} (hw : pc.Within (A i)) : Local m₀ A (pc.onMap m) := by
  refine ⟨fun k s hf => ?_, fun k s hf => ?_, fun k s hf => ?_, fun k hk => ?_⟩
  · rcases pc.find_onMap_cases hw hf with hold | hnew
    · exact hm.stored k s hold
    · exact ⟨hnew.ptr_eq, hnew.isValid⟩
  · rcases pc.find_onMap_cases hw hf with hold | hnew
    · exact hm.unwrapped k s hold
    · exact hnew.noWrap
  · rcases pc.find_onMap_cases hw hf with hold | hnew
    · exact hm.origin k s hold
    · exact Or.inr ⟨i, hnew.subset⟩
  · rw [pc.find_onMap_of_notMem hw (hk i), hm.outside k hk]

namespace ThreadState

/-- What a thread has left to do is within a set of addresses. -/
structure Within (B : Set RustPtr) (t : ThreadState) : Prop where
  calls : ∀ c ∈ t.calls, c.NoWrap ∧ c.named ⊆ B
  pc : ∀ pc ∈ t.pc, pc.Within B

/-- **A step of a thread is the same on two local maps** that agree on its addresses: it leads to
the same state of the thread, and to maps that agree there again. -/
theorem step_congr {ι : Type} {m₀ : OrdMap RustPtr AllocSite} {A : ι → Set RustPtr}
    (hsep : Separate m₀ A) {h g h' : AllocSiteHandler} (hm : Local m₀ A h.allocationMap)
    (hm' : Local m₀ A g.allocationMap) {i : ι}
    (hagree : ∀ k ∈ A i, h.allocationMap.find k = g.allocationMap.find k) {t t' : ThreadState}
    (hw : t.Within (A i)) (hstep : t.step h = some (t', h')) :
    ∃ g', t.step g = some (t', g') ∧ t'.Within (A i) ∧ Local m₀ A h'.allocationMap ∧
      Local m₀ A g'.allocationMap ∧
      (∀ k ∈ A i, h'.allocationMap.find k = g'.allocationMap.find k) ∧
      ∀ k ∉ A i, h'.allocationMap.find k = h.allocationMap.find k := by
  obtain ⟨calls, pc, lookups⟩ := t
  cases pc with
  | none =>
      cases calls with
      | nil => exact absurd hstep (by simp [step])
      | cons c calls =>
          obtain ⟨hc, hcalls⟩ := List.forall_mem_cons.1 hw.calls
          obtain ⟨pc, hstart, hr⟩ := Option.map_eq_some_iff.1 hstep
          obtain ⟨rfl, rfl⟩ := Prod.mk.inj hr
          refine ⟨g, by rw [step, hstart]; rfl, ⟨hcalls, fun pc₁ hpc => ?_⟩, hm, hm', hagree,
            fun _ _ => rfl⟩
          rw [← Option.mem_some_iff.1 hpc]
          exact HookPc.within_start hc.1 hc.2 hstart
  | some pc =>
      have hpc := hw.pc pc rfl
      rw [step_some] at hstep
      obtain ⟨⟨h₁, pc'⟩, hsec, hr⟩ := Option.map_eq_some_iff.1 hstep
      obtain ⟨rfl, rfl⟩ := Prod.mk.inj hr
      obtain ⟨g', hsec', hlook, hmap, hmap', hnext⟩ := HookPc.step_congr hpc
        (fun p hp => Local.getAllocSite_congr hsep hm hm' hagree hp) hsec
      refine ⟨g', by rw [step_some, hsec', hlook]; rfl, ⟨hw.calls, hnext⟩, ?_, ?_, fun k hk => ?_,
        fun k hk => ?_⟩
      · rw [hmap]
        exact hm.onMap hpc
      · rw [hmap']
        exact hm'.onMap hpc
      · rw [hmap, hmap']
        exact pc.find_onMap_congr hpc hagree hk
      · rw [hmap]
        exact pc.find_onMap_of_notMem hpc hk

/-- A step of a thread that has the handler to itself. -/
def SoloStep (r r' : ThreadState × AllocSiteHandler) : Prop := r.1.step r.2 = some r'

/-- **What a thread ends with on its own is determined.** -/
theorem eq_of_solo {r r₁ r₂ : ThreadState × AllocSiteHandler}
    (h₁ : Relation.ReflTransGen SoloStep r r₁) (h₂ : Relation.ReflTransGen SoloStep r r₂)
    (hfin₁ : r₁.1.Finished) (hfin₂ : r₂.1.Finished) : r₁ = r₂ := by
  have hstop : ∀ {a b : ThreadState × AllocSiteHandler}, a.1.Finished →
      Relation.ReflTransGen SoloStep a b → a = b := by
    intro a b hfin hab
    rcases Relation.ReflTransGen.cases_head hab with heq | ⟨c, hac, -⟩
    · exact heq
    · rw [SoloStep, step_of_finished hfin] at hac
      exact absurd hac (by simp)
  have hdet : Relator.RightUnique SoloStep := fun a b c hab hac =>
    Option.some_inj.1 (hab.symm.trans hac)
  rcases Relation.ReflTransGen.total_of_right_unique hdet h₁ h₂ with h | h
  · exact hstop hfin₁ h
  · exact (hstop hfin₂ h).symm

end ThreadState

/-! ### Runs of the pool -/

namespace Pool

variable {ι : Type}

/-- **The invariant of separate threads**: the map is local, and every thread is where it would be
on its own, with the entries it would have at its addresses. -/
structure Solo (h₀ : AllocSiteHandler) (calls : ι → List HookCall) (S : Pool ι) : Prop where
  isLocal : Local h₀.allocationMap (fun i => namedBy (calls i)) S.handler.allocationMap
  within : ∀ i, (S.thread i).Within (namedBy (calls i))
  solo : ∀ i, ∃ g, Relation.ReflTransGen ThreadState.SoloStep (⟨calls i, none, []⟩, h₀)
      (S.thread i, g) ∧ Local h₀.allocationMap (fun i => namedBy (calls i)) g.allocationMap ∧
    ∀ k ∈ namedBy (calls i), S.handler.allocationMap.find k = g.allocationMap.find k

variable {h₀ : AllocSiteHandler} {calls : ι → List HookCall}

theorem solo_start (hsep : Separate h₀.allocationMap fun i => namedBy (calls i))
    (hwrap : ∀ i, ∀ c ∈ calls i, c.NoWrap) : Solo h₀ calls (start h₀ calls) where
  isLocal := hsep.local_start
  within i := ⟨fun c hc => ⟨hwrap i c hc, fun p hp => ⟨c, hc, hp⟩⟩,
    fun pc hpc => absurd hpc (by simp [start])⟩
  solo i := ⟨h₀, Relation.ReflTransGen.refl, hsep.local_start, fun _ _ => rfl⟩

variable [DecidableEq ι]

/-- **One step keeps every thread where it would be on its own.** -/
theorem Solo.step (hsep : Separate h₀.allocationMap fun i => namedBy (calls i)) {S S' : Pool ι}
    {i : ι} (hS : Solo h₀ calls S) (hstep : PoolStep S i S') : Solo h₀ calls S' := by
  obtain ⟨⟨t, h'⟩, hthread, rfl⟩ := Option.map_eq_some_iff.1 hstep
  obtain ⟨g, hsolo, hg, hagree⟩ := hS.solo i
  obtain ⟨g', hstep', hw', hlocal, hg', hagree', hother⟩ :=
    ThreadState.step_congr hsep hS.isLocal hg hagree (hS.within i) hthread
  refine ⟨hlocal, fun j => ?_, fun j => ?_⟩
  · by_cases hj : j = i
    · subst hj
      simpa using hw'
    · simpa [hj] using hS.within j
  · by_cases hj : j = i
    · subst hj
      refine ⟨g', ?_, hg', hagree'⟩
      simpa using hsolo.tail hstep'
    · -- the addresses of another thread have not been touched
      obtain ⟨gj, hsoloj, hgj, hagreej⟩ := hS.solo j
      refine ⟨gj, by simpa [hj] using hsoloj, hgj, fun k hk => ?_⟩
      rw [hother k fun hki => hj (hsep.threads j i k hk hki)]
      exact hagreej k hk

/-- **Each thread runs as it would on its own**, in every interleaving. -/
theorem solo_of_run (hsep : Separate h₀.allocationMap fun i => namedBy (calls i))
    (hwrap : ∀ i, ∀ c ∈ calls i, c.NoWrap) {is : List ι} {S : Pool ι}
    (hrun : Run PoolStep (start h₀ calls) is S) : Solo h₀ calls S :=
  hrun.invariant (solo_start hsep hwrap) fun _ _ _ hS hstep => hS.step hsep hstep

end Pool

/-- **The order of the threads makes no difference.**  When separate threads have all finished, the
map is the same, and each thread has found the same old sites, whatever the interleaving was. -/
theorem interleavings_agree {ι : Type} [DecidableEq ι] (h₀ : AllocSiteHandler)
    (calls : ι → List HookCall) (hsep : Separate h₀.allocationMap fun i => namedBy (calls i))
    (hwrap : ∀ i, ∀ c ∈ calls i, c.NoWrap) (is₁ is₂ : List ι) (S₁ S₂ : Pool ι)
    (hrun₁ : Run PoolStep (Pool.start h₀ calls) is₁ S₁)
    (hrun₂ : Run PoolStep (Pool.start h₀ calls) is₂ S₂) (hfin₁ : S₁.Finished)
    (hfin₂ : S₂.Finished) :
    S₁.handler.allocationMap = S₂.handler.allocationMap ∧
      ∀ i, (S₁.thread i).lookups = (S₂.thread i).lookups := by
  have h₁ := Pool.solo_of_run hsep hwrap hrun₁
  have h₂ := Pool.solo_of_run hsep hwrap hrun₂
  have hsame : ∀ i, S₁.thread i = S₂.thread i ∧ ∀ k ∈ namedBy (calls i),
      S₁.handler.allocationMap.find k = S₂.handler.allocationMap.find k := by
    intro i
    obtain ⟨g₁, hsolo₁, -, hagree₁⟩ := h₁.solo i
    obtain ⟨g₂, hsolo₂, -, hagree₂⟩ := h₂.solo i
    obtain ⟨ht, rfl⟩ := Prod.mk.inj
      (ThreadState.eq_of_solo hsolo₁ hsolo₂ (hfin₁ i) (hfin₂ i))
    exact ⟨ht, fun k hk => (hagree₁ k hk).trans (hagree₂ k hk).symm⟩
  refine ⟨OrdMap.ext_find fun k => ?_, fun i => congrArg ThreadState.lookups (hsame i).1⟩
  by_cases hk : ∃ i, k ∈ namedBy (calls i)
  · obtain ⟨i, hk⟩ := hk
    exact (hsame i).2 k hk
  · have hnone : ∀ i, k ∉ namedBy (calls i) := fun i hki => hk ⟨i, hki⟩
    rw [h₁.isLocal.outside k hnone, h₂.isLocal.outside k hnone]

/-- Two threads, one of which moves a block, and one that makes another. -/
def moveAndMake (i : Bool) : List HookCall :=
  if i then [.alloc 0x1000#64 16 0 "entry" "move",
    .realloc 0x2000#64 32 0x1000#64 16 1 "entry" "move"]
  else [.alloc 0x3000#64 16 0 "entry" "make"]

theorem separate_moveAndMake : Separate (AllocSiteHandler.init 0).allocationMap
    fun i => namedBy (moveAndMake i) where
  threads := by
    have hside : ∀ i, ∀ p ∈ namedBy (moveAndMake i), p.toNat < 0x3000 ↔ i = true := by
      rintro i p ⟨c, hc, hp⟩
      cases i with
      | false =>
          obtain rfl := List.mem_singleton.1 hc
          have hle : 0x3000 ≤ p.toNat := hp.1
          simpa using hle
      | true =>
          refine iff_of_true ?_ rfl
          rcases List.mem_cons.1 hc with rfl | hc
          · have hlt : p.toNat < 0x1000 + 16 := hp.2
            omega
          · obtain rfl := List.mem_singleton.1 hc
            rcases hp with (⟨-, hlt⟩ | ⟨-, hlt⟩) | rfl
            · have : p.toNat < 0x2000 + 32 := hlt
              omega
            · have : p.toNat < 0x1000 + 16 := hlt
              omega
            · decide
    intro i j p hi hj
    have hij := (hside i p hi).symm.trans (hside j p hj)
    cases i <;> cases j <;> simp_all
  stored _ _ hf := absurd hf (by simp [AllocSiteHandler.init])
  unwrapped _ _ hf := absurd hf (by simp [AllocSiteHandler.init])
  entries _ _ _ _ _ hf := absurd hf (by simp [AllocSiteHandler.init])
  named _ _ hf := absurd hf (by simp [AllocSiteHandler.init])

instance (t : ThreadState) : Decidable t.Finished :=
  inferInstanceAs (Decidable (t.calls = [] ∧ t.pc = none))

/-- An interleaving of the two threads to their ends. -/
theorem exists_run_moveAndMake {is : List Bool}
    (hfin : ((is.foldlM Pool.step (Pool.start (AllocSiteHandler.init 0) moveAndMake)).map fun S =>
      decide ((S.thread true).Finished ∧ (S.thread false).Finished)) = some true) :
    ∃ S, Run PoolStep (Pool.start (AllocSiteHandler.init 0) moveAndMake) is S ∧ S.Finished := by
  obtain ⟨S, hS, hdone⟩ := Option.map_eq_some_iff.1 hfin
  obtain ⟨htrue, hfalse⟩ := of_decide_eq_true hdone
  refine ⟨S, Run.of_foldlM (fun _ _ _ hstep => hstep) hS, fun i => ?_⟩
  cases i with
  | false => exact hfalse
  | true => exact htrue

theorem interleavings_agree_moveAndMake : ∃ S₁ S₂ : Pool Bool,
    Run PoolStep (Pool.start (AllocSiteHandler.init 0) moveAndMake)
      [true, true, true, true, true, true, true, false, false] S₁ ∧
    Run PoolStep (Pool.start (AllocSiteHandler.init 0) moveAndMake)
      [true, true, false, true, true, false, true, true, true] S₂ ∧
    S₁.handler.allocationMap = S₂.handler.allocationMap ∧
      ∀ i, (S₁.thread i).lookups = (S₂.thread i).lookups := by
  obtain ⟨S₁, hrun₁, hfin₁⟩ : ∃ S, Run PoolStep _
      [true, true, true, true, true, true, true, false, false] S ∧ S.Finished :=
    exists_run_moveAndMake (by decide)
  obtain ⟨S₂, hrun₂, hfin₂⟩ : ∃ S, Run PoolStep _
      [true, true, false, true, true, false, true, true, true] S ∧ S.Finished :=
    exists_run_moveAndMake (by decide)
  exact ⟨S₁, S₂, hrun₁, hrun₂, interleavings_agree (AllocSiteHandler.init 0) moveAndMake
    separate_moveAndMake (by decide) _ _ S₁ S₂ hrun₁ hrun₂ hfin₁ hfin₂⟩

end Provsan
