/-
**Faults among concurrent threads.**

A fault is recorded in two critical sections: the lookup of the faulting address, and the insertion
of what it has found.  Other threads may act before, between and after them, and a released block
keeps its entry until the hook of its release has removed it.  A fault inside a live block is
attributed to the operation that created the block exactly when no such entry lies between the base
of the block and the faulting address (`Provsan.World.Consistent.describes_iff`); what the lookup
has found waits for the second critical section of its thread, and is on record ever after.

Main definitions:

* `Provsan.FaultWorld`, `Provsan.FaultWorldStep` — threads that operate on blocks, run hooks and
  fault;
* `Provsan.World.Hidden` — an entry that hides a block from a lookup.

Main results:

* `Provsan.World.Consistent.describes_iff` — **whom a lookup names**, in every state;
* `Provsan.FaultWorld.Awaits.run` — what a lookup has found is not lost;
* `Provsan.fault_attributed` — **whom a fault is attributed to**, and that it stays so.
-/

import Provsan.Runtime.Concurrent
import Provsan.Runtime.Lookup
import Provsan.Runtime.FaultOrigin

set_option relaxedAutoImplicit false
set_option autoImplicit false

namespace Provsan

/-! ### Whom a lookup names -/

namespace World

variable {W : World}

/-- Every entry of a consistent map is valid, under its own pointer, and does not wrap. -/
theorem Consistent.exists_owner (hinv : W.Consistent) {k : RustPtr} {s : AllocSite}
    (hf : W.handler.allocationMap.find k = some s) : ∃ b : Block, b.base = k ∧ Describes s b ∧
      (b ∈ W.live ∨ ∃ tid, W.Leaving tid b) := by
  obtain ⟨owner, hown⟩ := hinv.owned
  cases ho : owner k with
  | none => exact absurd (hown.absent k ho) (by simp [hf])
  | some w =>
      obtain ⟨rfl, t, ht, hd⟩ := hown.entry k w ho
      obtain rfl := Option.some_inj.1 (hf.symm.trans ht)
      refine ⟨w.block, rfl, hd, ?_⟩
      cases w with
      | live b => exact Or.inl ((hown.live_iff b).1 ho).1
      | leaving b tid => exact Or.inr ⟨tid, (hown.leaving_iff b tid).1 ho⟩

theorem Consistent.stored (hinv : W.Consistent) : Stored W.handler.allocationMap := by
  intro k s hf
  obtain ⟨b, rfl, hd, -⟩ := hinv.exists_owner hf
  exact ⟨hd.ptr, hd.isValid⟩

theorem Consistent.unwrapped (hinv : W.Consistent) : Unwrapped W.handler.allocationMap := by
  intro k s hf
  obtain ⟨b, rfl, hd, -⟩ := hinv.exists_owner hf
  exact hd.size ▸ b.noWrap

/-- Between the base of the block and the address begins a released block whose entry some thread
still has to remove. -/
def Hidden (W : World) (b : Block) (p : RustPtr) : Prop :=
  ∃ tid o, W.Leaving tid o ∧ b.base < o.base ∧ o.base ≤ p

/-- **Whom a lookup names**: inside a live block whose hook has finished it finds the site of the
block, unless the block is hidden there. -/
theorem Consistent.describes_iff (hinv : W.Consistent) {b : Block} (hb : b ∈ W.live)
    (hdone : ∀ tid, ¬ W.Creating tid b) {p : RustPtr} (hp : p ∈ b.addrs) :
    Describes (W.handler.getAllocSite p) b ↔ ¬ W.Hidden b p := by
  obtain ⟨owner, hown⟩ := hinv.owned
  have hlive := (hown.live_iff b).2 ⟨hb, hdone⟩
  obtain ⟨-, s₀, hs₀, -⟩ := hown.entry _ _ hlive
  obtain ⟨k, s, hlast⟩ := exists_lastUpTo hs₀ (BitVec.le_def.2 hp.1)
  have hbk : b.base ≤ k := hlast.last _ _ hs₀ (BitVec.le_def.2 hp.1)
  rw [getAllocSite_of_lastUpTo hinv.stored hinv.unwrapped hlast]
  constructor
  · rintro hd ⟨tid, o, ho, hlt, hle⟩
    obtain ⟨-, t, ht, -⟩ := hown.entry _ _ ((hown.leaving_iff o tid).2 ho)
    have hok : o.base ≤ k := hlast.last _ _ ht hle
    split_ifs at hd
    · -- the site found is stored under its own pointer, which is not that of the block
      have hkb : k = b.base := (hinv.stored k s hlast.find).1.symm.trans hd.ptr
      exact absurd (hok.trans_eq hkb) (not_le.2 hlt)
    · exact absurd hd.isValid (by simp)
  · intro hhidden
    cases ho : owner k with
    | none => exact absurd (hown.absent k ho) (by simp [hlast.find])
    | some w =>
        obtain ⟨rfl, t, ht, hd⟩ := hown.entry k w ho
        obtain rfl := Option.some_inj.1 (hlast.find.symm.trans ht)
        have hsame : w.block = b := by
          cases w with
          | leaving o tid =>
              refine absurd ⟨tid, o, (hown.leaving_iff o tid).1 ho, ?_, hlast.le⟩ hhidden
              refine lt_of_le_of_ne hbk fun heq => ?_
              have hboth : owner b.base = some (.leaving o tid) :=
                (congrArg owner heq).trans ho
              exact absurd (hlive.symm.trans hboth) (by simp)
          | live c =>
              by_contra hne
              have hcl := ((hown.live_iff c).1 ho).1
              have h₁ := BitVec.le_def.1 hbk
              have h₂ := BitVec.le_def.1 hlast.le
              have hin : c.base ∈ b.addrs := ⟨h₁, lt_of_le_of_lt h₂ hp.2⟩
              exact Set.disjoint_left.1 (hown.disjoint hcl hb hne) c.base_mem_addrs hin
        rw [hsame] at hd
        rwa [if_pos ((hd.containsPtr_iff p).2 hp)]

end World

/-! ### Threads that fault -/

/-- The threads, and for each the site and the key of a fault that it has looked up and not yet
recorded. -/
structure FaultWorld where
  world : World
  faulting : ThreadId → Option (AllocSite × BitVec 32)

inductive FaultWorldEvent
  | world (e : WorldEvent)
  | fault (tid : ThreadId) (ptr : RustPtr) (pkey : BitVec 32)
  | record (tid : ThreadId)

def WorldEvent.tid : WorldEvent → ThreadId
  | op tid _ => tid
  | hook tid => tid

/-- The steps of threads that fault: `addFaultAlloc` looks the address up, and records what it has
found later; in between the thread does nothing else. -/
inductive FaultWorldStep : FaultWorld → FaultWorldEvent → FaultWorld → Prop
  | world {W : FaultWorld} {e : WorldEvent} {w : World} (hidle : W.faulting e.tid = none)
      (hstep : WorldStep W.world e w) : FaultWorldStep W (.world e) ⟨w, W.faulting⟩
  | fault {W : FaultWorld} {tid : ThreadId} {ptr : RustPtr} {pkey : BitVec 32}
      (hidle : W.faulting tid = none) :
      FaultWorldStep W (.fault tid ptr pkey) ⟨W.world,
        Function.update W.faulting tid (some (W.world.handler.getAllocSite ptr, pkey))⟩
  | record {W : FaultWorld} {tid : ThreadId} {site : AllocSite} {pkey : BitVec 32}
      {h : AllocSiteHandler} (hfaulting : W.faulting tid = some (site, pkey))
      (hrecord : W.world.handler.recordFault site pkey = some h) :
      FaultWorldStep W (.record tid)
        ⟨⟨h, W.world.live, W.world.pending⟩, Function.update W.faulting tid none⟩

namespace FaultWorld

def start (allocSiteTotal : ℕ) : FaultWorld := ⟨World.start allocSiteTotal, fun _ => none⟩

/-- The steps on blocks lose no block. -/
def KeepsEntries (W : FaultWorld) : FaultWorldEvent → Prop
  | .world e => Provsan.KeepsEntries W.world e
  | _ => True

variable {W W' : FaultWorld} {e : FaultWorldEvent}

/-- Faults change nothing that the entries depend on. -/
theorem consistent_step (hinv : W.world.Consistent)
    (hstep : Guarded KeepsEntries FaultWorldStep W e W') : W'.world.Consistent := by
  obtain ⟨hkeep, hstep⟩ := hstep
  cases hstep with
  | world hidle hstep => exact hinv.step hkeep hstep
  | fault hidle => exact hinv
  | @record tid site pkey h hfaulting hrecord =>
      have hmap : h.allocationMap = W.world.handler.allocationMap := by
        rw [AllocSiteHandler.recordFault_frame hrecord]
      obtain ⟨hpcOf, owner, hown⟩ := hinv
      exact ⟨hpcOf, owner, by rw [hmap]; exact hown⟩

theorem consistent_of_run {allocSiteTotal : ℕ} {es : List FaultWorldEvent}
    (hrun : Run (Guarded KeepsEntries FaultWorldStep) (start allocSiteTotal) es W) :
    W.world.Consistent :=
  @Run.invariant _ _ _ _ (fun W => W.world.Consistent) (World.consistent_start allocSiteTotal)
    (fun _ _ _ hinv hstep => consistent_step hinv hstep) es W hrun

/-- **What the thread has looked up** waits for the thread as long as it has not recorded it, and is
on record from then on. -/
inductive Awaits (tid : ThreadId) (site : AllocSite) (pkey : BitVec 32)
    (es : List FaultWorldEvent) (W : FaultWorld) : Prop
  | waiting (hno : .record tid ∉ es) (hwait : W.faulting tid = some (site, pkey))
  | recorded (hrecorded : .record tid ∈ es)
      (hmem : W.world.handler.faultSet.contains site = true)

end FaultWorld

namespace HookPc

variable {pc : HookPc} {h h' : AllocSiteHandler} {pc' : Option HookPc}

/-- **What a critical section does to the chains**: nothing, and the next one extends a chain only
after a lookup of a valid site; or it extends the chain. -/
theorem step_chain_cases (hstep : pc.step h = some (h', pc')) :
    h'.FM = h.FM ∧ h'.faultSet = h.faultSet ∧ (∀ oldAS newAS oldPtr newPtr,
        pc' = some (.chain oldAS newAS oldPtr newPtr) → ∃ newSize,
          pc = .lookup newPtr newSize oldPtr newAS.localID newAS.bbName newAS.funcName ∧
            oldAS = h.getAllocSite oldPtr ∧ oldAS.isValid = true) ∨
      ∃ oldAS newAS oldPtr newPtr, pc = .chain oldAS newAS oldPtr newPtr ∧
        h' = h.updateReallocChain oldAS newAS ∧ pc' = some (.replace newAS oldPtr newPtr) := by
  cases pc with
  | insert | remove | replace =>
      obtain ⟨rfl, rfl⟩ := Prod.mk.inj (Option.some_inj.1 hstep)
      exact Or.inl ⟨rfl, rfl, fun _ _ _ _ hpc => absurd hpc (by simp)⟩
  | chain oldAS newAS oldPtr newPtr =>
      obtain ⟨rfl, rfl⟩ := Prod.mk.inj (Option.some_inj.1 hstep)
      exact Or.inr ⟨oldAS, newAS, oldPtr, newPtr, rfl, rfl, rfl⟩
  | lookup newPtr newSize oldPtr localID bbName funcName =>
      left
      unfold step at hstep
      dsimp only at hstep
      split_ifs at hstep with hv
      · obtain ⟨site, -, heq⟩ := Option.map_eq_some_iff.1 hstep
        obtain ⟨rfl, rfl⟩ := Prod.mk.inj heq
        exact ⟨rfl, rfl, fun _ _ _ _ hpc => absurd hpc (by simp)⟩
      · obtain ⟨site, hs, heq⟩ := Option.map_eq_some_iff.1 hstep
        obtain ⟨rfl, rfl⟩ := Prod.mk.inj heq
        refine ⟨rfl, rfl, fun oldAS newAS oldPtr' newPtr' hpc => ?_⟩
        obtain ⟨rfl, rfl, rfl, rfl⟩ := HookPc.chain.inj (Option.some_inj.1 hpc)
        obtain ⟨-, rfl⟩ := AllocSite.create_eq_some.1 hs
        exact ⟨newSize, rfl, rfl, by simpa using hv⟩

/-- A critical section of a hook does not change the fault set. -/
theorem faultSet_step (hstep : pc.step h = some (h', pc')) : h'.faultSet = h.faultSet := by
  rcases step_chain_cases hstep with ⟨-, hfaults, -⟩ | ⟨oldAS, newAS, -, -, -, rfl, -⟩
  · exact hfaults
  · exact AllocSiteHandler.faultSet_updateReallocChain ..

/-- No hook begins with the extension of a chain. -/
theorem start_ne_chain {c : HookCall} (hstart : start c = some pc) (oldAS newAS : AllocSite)
    (oldPtr newPtr : RustPtr) : pc ≠ .chain oldAS newAS oldPtr newPtr := by
  rintro rfl
  cases c with
  | alloc =>
      obtain ⟨_, -, heq⟩ := Option.map_eq_some_iff.1 hstart
      exact absurd heq (by simp)
  | realloc | dealloc => exact absurd (Option.some_inj.1 hstart) (by simp)

end HookPc

namespace FaultWorld

variable {W W' : FaultWorld} {tid : ThreadId} {site : AllocSite} {pkey : BitVec 32}
  {es : List FaultWorldEvent}

/-- **Nothing is taken from the record.** -/
theorem contains_step {e : FaultWorldEvent} (hstep : FaultWorldStep W e W')
    (hmem : W.world.handler.faultSet.contains site = true) :
    W'.world.handler.faultSet.contains site = true := by
  cases hstep with
  | world hidle hstep =>
      cases hstep with
      | op => exact hmem
      | hook hpending hcall =>
          rw [HookPc.faultSet_step hcall]
          exact hmem
  | fault hidle => exact hmem
  | @record u site' pkey' h hfaulting hrecord =>
      by_cases hv' : site'.isValid = true
      · exact (AllocSiteHandler.contains_recordFault hrecord hv' site).2 (Or.inl hmem)
      · rw [AllocSiteHandler.recordFault_of_not_isValid pkey' (by simpa using hv')] at hrecord
        rwa [← Option.some_inj.1 hrecord]

/-- What waits is recorded by its own thread, and goes on waiting in every other step. -/
theorem waits_step (hv : site.isValid = true) {e : FaultWorldEvent}
    (hwait : W.faulting tid = some (site, pkey)) (hstep : FaultWorldStep W e W') :
    (e = .record tid ∧ W'.world.handler.faultSet.contains site = true) ∨
      (e ≠ .record tid ∧ W'.faulting tid = some (site, pkey)) := by
  cases hstep with
  | world hidle hstep => exact Or.inr ⟨by simp, hwait⟩
  | @fault u ptr pkey' hidle =>
      have hne : tid ≠ u := by
        rintro rfl
        exact absurd (hidle.symm.trans hwait) (by simp)
      exact Or.inr ⟨by simp, by simpa [Function.update_of_ne hne] using hwait⟩
  | @record u site' pkey' h hfaulting hrecord =>
      by_cases hu : tid = u
      · subst hu
        obtain ⟨rfl, rfl⟩ := Prod.mk.inj (Option.some_inj.1 (hfaulting.symm.trans hwait))
        exact Or.inl ⟨rfl, (AllocSiteHandler.contains_recordFault hrecord hv site').2
          (Or.inr (Or.inl BEq.rfl))⟩
      · exact Or.inr ⟨by simpa using Ne.symm hu, by simpa [Function.update_of_ne hu] using hwait⟩

/-- **What a lookup has found is not lost**: it waits for its thread, and stays on record then. -/
theorem Awaits.step (hv : site.isValid = true) {e : FaultWorldEvent}
    (hW : Awaits tid site pkey es W) (hstep : FaultWorldStep W e W') :
    Awaits tid site pkey (es ++ [e]) W' := by
  cases hW with
  | waiting hno hwait =>
      rcases waits_step hv hwait hstep with ⟨rfl, hmem⟩ | ⟨hne, hwait⟩
      · exact .recorded (by simp) hmem
      · refine .waiting (fun hin => ?_) hwait
        rcases List.mem_append.1 hin with hin | hin
        · exact hno hin
        · exact hne (List.mem_singleton.1 hin).symm
  | recorded hrecorded hmem =>
      exact .recorded (List.mem_append_left _ hrecorded) (contains_step hstep hmem)

theorem Awaits.run (hv : site.isValid = true) (hwait : W.faulting tid = some (site, pkey))
    (hrun : Run FaultWorldStep W es W') : Awaits tid site pkey es W' := by
  induction hrun with
  | nil => exact .waiting (by simp) hwait
  | snoc _ hstep ih => exact ih.step hv hstep

end FaultWorld

/-- **Whom a fault is attributed to**, among threads that operate on blocks, run their hooks and
fault in any order.  The lookup of a fault inside a live block finds the site of the operation that
created it exactly when the block is not hidden there; and then this is what the thread holds until
it records the fault, and in every state after that the site is on record. -/
theorem fault_attributed (allocSiteTotal : ℕ) (es₁ es₂ : List FaultWorldEvent)
    (W₁ W₂ W : FaultWorld) (tid : ThreadId) (ptr : RustPtr) (pkey : BitVec 32) (b : Block)
    (hrun₁ : Run (Guarded FaultWorld.KeepsEntries FaultWorldStep) (.start allocSiteTotal) es₁
      W₁)
    (hfault : FaultWorldStep W₁ (.fault tid ptr pkey) W₂) (hrun₂ : Run FaultWorldStep W₂ es₂ W)
    (hb : b ∈ W₁.world.live) (hdone : ∀ u, ¬ W₁.world.Creating u b) (hp : ptr ∈ b.addrs) :
    (Describes (W₁.world.handler.getAllocSite ptr) b ↔ ¬ W₁.world.Hidden b ptr) ∧
      (¬ W₁.world.Hidden b ptr →
        (.record tid ∉ es₂ →
          W.faulting tid = some (W₁.world.handler.getAllocSite ptr, pkey)) ∧
        (.record tid ∈ es₂ → ∃ s ∈ W.world.handler.faultSet.elems, s.siteId = b.site)) := by
  have hinv := FaultWorld.consistent_of_run hrun₁
  have hiff := hinv.describes_iff hb hdone hp
  refine ⟨hiff, fun hhidden => ?_⟩
  have hd := hiff.2 hhidden
  have hfound : W₂.faulting tid = some (W₁.world.handler.getAllocSite ptr, pkey) := by
    cases hfault
    exact Function.update_self ..
  cases FaultWorld.Awaits.run hd.isValid hfound hrun₂ with
  | waiting hno hwait => exact ⟨fun _ => hwait, fun hrecorded => absurd hrecorded hno⟩
  | recorded hrecorded hmem =>
      refine ⟨fun hno => absurd hrecorded hno, fun _ => ?_⟩
      obtain ⟨s, hs, heq⟩ := UnorderedSet.contains_iff.1 hmem
      exact ⟨s, hs, (AllocSite.beq_iff.1 heq).trans hd.siteId⟩

/-- A block that begins inside `Provsan.smallBlock`. -/
def innerBlock : Block where
  base := 0x1004#64
  size := 12
  site := ⟨7, "entry", "make"⟩
  earlier := []
  base_ne := by decide
  size_pos := by decide
  id_nonneg := by decide
  noWrap := by decide

/-- A fault at the address of a block that was released before the live one was created is not
attributed to the live one, as long as the hook of the release has not run. -/
theorem fault_attributed_stale : ∃ W : FaultWorld, smallBlock ∈ W.world.live ∧
    innerBlock.base ∈ smallBlock.addrs ∧
      ¬ Describes (W.world.handler.getAllocSite innerBlock.base) smallBlock := by
  have hgo : ∀ {es : List FaultWorldEvent} {w w' : World} {e : WorldEvent},
      Run (Guarded FaultWorld.KeepsEntries FaultWorldStep) (.start 0) es ⟨w, fun _ => none⟩ →
        WorldStep w e w' → KeepsEntries w e →
          Run (Guarded FaultWorld.KeepsEntries FaultWorldStep) (.start 0) (es ++ [.world e])
            ⟨w', fun _ => none⟩ :=
    fun hrun hstep hkeep => hrun.snoc ⟨hkeep, .world rfl hstep⟩
  have hrun₁ := hgo Run.nil (worldStep_alloc (b := innerBlock) 1 rfl
    (fun c hc => absurd hc (Set.notMem_empty c)) rfl) fun o ho =>
      absurd ho (by simp [ThreadOp.releases])
  have hrun₂ := hgo hrun₁ (worldStep_insert 1 World.pending_self) (by
    rintro op ptr site -
    exact OrdMap.find_empty ptr)
  have hrun₃ := hgo hrun₂ (worldStep_dealloc 1 12 (-1) World.pending_self
    (Set.mem_insert innerBlock ∅)) (by
      rintro o - tid ⟨op, pc, hp, -⟩
      by_cases h₁ : tid = 1 <;> simp [World.start, Function.update_apply, h₁] at hp)
  have hrun₄ := hgo hrun₃ (worldStep_alloc (b := smallBlock) 2 (by simp [World.start])
    (fun c hc => absurd ((Set.mem_insert_iff.1 hc.1).resolve_right (Set.notMem_empty c)) hc.2) rfl)
      fun o ho => absurd ho (by simp [ThreadOp.releases])
  have hrun₅ := hgo hrun₄ (worldStep_insert 2 World.pending_self) (by
    intro op ptr site hp
    simp only [Function.update_self, Option.some_inj, Prod.mk.injEq, HookPc.insert.injEq] at hp
    obtain ⟨-, rfl, -⟩ := hp
    decide)
  have hin : innerBlock.base ∈ smallBlock.addrs := by
    rw [Block.mem_addrs]
    decide
  have hattributed := fault_attributed 0 _ [] _ _ _ 2 innerBlock.base 1#32 smallBlock hrun₅
    (.fault rfl) Run.nil (Set.mem_insert ..) (by
      rintro u ⟨op, pc, hp, hcr⟩
      by_cases h₁ : u = 1
      · simp [h₁] at hp
        obtain ⟨rfl, -⟩ := hp
        simp [ThreadOp.creates] at hcr
      · by_cases h₂ : u = 2 <;> simp [World.start, h₁, h₂] at hp) hin
  refine ⟨_, Set.mem_insert .., hin, fun hd => hattributed.1.1 hd ?_⟩
  refine ⟨1, innerBlock, ⟨.dealloc innerBlock 12 (-1), .remove innerBlock.base, ?_, rfl⟩, by decide,
    le_refl _⟩
  simp

/-! ### Where the records come from -/

section

variable (allocSiteTotal : ℕ) (es : List FaultWorldEvent)

/-- A realloc step of a run: the critical section with the lookup of a `reallocHook` has found the
old site, valid, and the hook was given the new one. -/
def ReallocFound (old new : SiteId) : Prop :=
  ∃ es₁ es₂ W tid op newPtr newSize oldPtr, es = es₁ ++ .world (.hook tid) :: es₂ ∧
    Run FaultWorldStep (.start allocSiteTotal) es₁ W ∧
    W.world.pending tid = some (op, .lookup newPtr newSize oldPtr new.localID new.bbName
      new.funcName) ∧
    (W.world.handler.getAllocSite oldPtr).isValid = true ∧
      (W.world.handler.getAllocSite oldPtr).siteId = old

/-- A fault of a run with a key, whose lookup has found the site. -/
def FaultFound (site : AllocSite) (pkey : BitVec 32) : Prop :=
  ∃ es₁ es₂ W tid ptr, es = es₁ ++ .fault tid ptr pkey :: es₂ ∧
    Run FaultWorldStep (.start allocSiteTotal) es₁ W ∧ site = W.world.handler.getAllocSite ptr

/-- A record stems from a fault with its key: its site is the one the fault has found, or realloc
steps lead from it to that site. -/
def RecordFound (s : AllocSite) : Prop :=
  ∃ site, FaultFound allocSiteTotal es site s.pkey ∧ site.isValid = true ∧
    (s.siteId = site.siteId ∨
      Relation.TransGen (ReallocFound allocSiteTotal es) s.siteId site.siteId)

/-- **The invariant of the runs**: the chains, the sites of unfinished reallocations and faults, and
the records are all found in the run. -/
structure FaultWorld.Sound (W : FaultWorld) : Prop where
  chains : ChainsWithin (ReallocFound allocSiteTotal es) W.world.handler
  pending : ∀ tid op oldAS newAS oldPtr newPtr,
    W.world.pending tid = some (op, .chain oldAS newAS oldPtr newPtr) →
      ReallocFound allocSiteTotal es oldAS.siteId newAS.siteId
  faulting : ∀ tid site pkey, W.faulting tid = some (site, pkey) →
    FaultFound allocSiteTotal es site pkey
  records : ∀ s ∈ W.world.handler.faultSet.elems, RecordFound allocSiteTotal es s

end

variable {allocSiteTotal : ℕ} {es : List FaultWorldEvent}

theorem ReallocFound.append {old new : SiteId} (h : ReallocFound allocSiteTotal es old new)
    (es' : List FaultWorldEvent) : ReallocFound allocSiteTotal (es ++ es') old new := by
  obtain ⟨es₁, es₂, W, tid, op, newPtr, newSize, oldPtr, rfl, hrest⟩ := h
  exact ⟨es₁, es₂ ++ es', W, tid, op, newPtr, newSize, oldPtr, by simp, hrest⟩

theorem FaultFound.append {site : AllocSite} {pkey : BitVec 32}
    (h : FaultFound allocSiteTotal es site pkey) (es' : List FaultWorldEvent) :
    FaultFound allocSiteTotal (es ++ es') site pkey := by
  obtain ⟨es₁, es₂, W, tid, ptr, rfl, hrest⟩ := h
  exact ⟨es₁, es₂ ++ es', W, tid, ptr, by simp, hrest⟩

theorem RecordFound.append {s : AllocSite} (h : RecordFound allocSiteTotal es s)
    (es' : List FaultWorldEvent) : RecordFound allocSiteTotal (es ++ es') s := by
  obtain ⟨site, hfault, hv, hor⟩ := h
  exact ⟨site, hfault.append es', hv,
    hor.imp id fun hlead =>
      Relation.TransGen.mono (fun _ _ h => ReallocFound.append h es') _ _ hlead⟩

namespace FaultWorld.Sound

variable {W W' : FaultWorld}

theorem start (allocSiteTotal : ℕ) : Sound allocSiteTotal [] (.start allocSiteTotal) where
  chains := ChainsWithin.init allocSiteTotal
  pending _ _ _ _ _ _ h := absurd h (by simp [FaultWorld.start, World.start])
  faulting _ _ _ h := absurd h (by simp [FaultWorld.start])
  records s hs := absurd hs
    (by simp [FaultWorld.start, World.start, AllocSiteHandler.init, UnorderedSet.empty])

/-- A longer run finds as much. -/
theorem append (hW : Sound allocSiteTotal es W) (es' : List FaultWorldEvent) :
    Sound allocSiteTotal (es ++ es') W where
  chains := hW.chains.mono rfl fun _ _ h => h.append es'
  pending _ _ _ _ _ _ h := (hW.pending _ _ _ _ _ _ h).append es'
  faulting _ _ _ h := (hW.faulting _ _ _ h).append es'
  records s hs := (hW.records s hs).append es'

/-- A thread moves on in its hook, or to a new one. -/
theorem update (hW : Sound allocSiteTotal es W) {h : AllocSiteHandler} {L : Set Block}
    {tid : ThreadId} {p : Option (ThreadOp × HookPc)}
    (hch : ChainsWithin (ReallocFound allocSiteTotal es) h)
    (hfaults : h.faultSet = W.world.handler.faultSet)
    (hp : ∀ op oldAS newAS oldPtr newPtr, p = some (op, .chain oldAS newAS oldPtr newPtr) →
      ReallocFound allocSiteTotal es oldAS.siteId newAS.siteId) :
    Sound allocSiteTotal es ⟨⟨h, L, Function.update W.world.pending tid p⟩, W.faulting⟩ where
  chains := hch
  pending u op oldAS newAS oldPtr newPtr hu := by
    rcases World.pending_update.1 hu with ⟨-, hnew⟩ | ⟨-, hold⟩
    · exact hp op oldAS newAS oldPtr newPtr hnew
    · exact hW.pending u op oldAS newAS oldPtr newPtr hold
  faulting := hW.faulting
  records s hs := hW.records s (hfaults ▸ hs)

/-- **A critical section of a hook finds what it puts on a chain.** -/
theorem hook (hW : Sound allocSiteTotal es W)
    (hrun : Run FaultWorldStep (.start allocSiteTotal) es W) {tid : ThreadId} {op : ThreadOp}
    {pc : HookPc} {h : AllocSiteHandler} {pc' : Option HookPc}
    (hp : W.world.pending tid = some (op, pc)) (hcall : pc.step W.world.handler = some (h, pc')) :
    Sound allocSiteTotal (es ++ [.world (.hook tid)])
      ⟨⟨h, W.world.live, Function.update W.world.pending tid (pc'.map fun pc' => (op, pc'))⟩,
        W.faulting⟩ := by
  have hlong := hW.append [.world (.hook tid)]
  refine hlong.update ?_ (HookPc.faultSet_step hcall) ?_
  · rcases HookPc.step_chain_cases hcall with ⟨hFM, -, -⟩ | ⟨oldAS, newAS, _, _, rfl, rfl, -⟩
    · exact hlong.chains.mono hFM fun _ _ => id
    · exact hlong.chains.updateReallocChain (hlong.pending _ _ _ _ _ _ hp)
  · intro op' oldAS newAS oldPtr newPtr hnext
    obtain ⟨pc₁, hpc₁, heq⟩ := Option.map_eq_some_iff.1 hnext
    obtain ⟨rfl, rfl⟩ := Prod.mk.inj heq
    rcases HookPc.step_chain_cases hcall with ⟨-, -, hlook⟩ | ⟨_, _, _, _, -, -, hreplace⟩
    · obtain ⟨newSize, rfl, rfl, hv⟩ := hlook _ _ _ _ hpc₁
      exact ⟨es, [], W, tid, op, newPtr, newSize, oldPtr, rfl, hrun, hp, hv, rfl⟩
    · rw [hpc₁] at hreplace
      exact absurd hreplace (by simp)

/-- **One step of the threads keeps the invariant.** -/
theorem step (hW : Sound allocSiteTotal es W)
    (hrun : Run FaultWorldStep (.start allocSiteTotal) es W) {e : FaultWorldEvent}
    (hstep : FaultWorldStep W e W') : Sound allocSiteTotal (es ++ [e]) W' := by
  have hlong := hW.append [e]
  cases hstep with
  | world hidle hstep =>
      cases hstep with
      | @op tid op pc hpending hallowed hstart =>
          refine hlong.update hlong.chains rfl fun op' oldAS newAS oldPtr newPtr hnew => ?_
          obtain ⟨-, rfl⟩ := Prod.mk.inj (Option.some_inj.1 hnew)
          exact absurd rfl (HookPc.start_ne_chain hstart oldAS newAS oldPtr newPtr)
      | hook hpending hcall => exact hW.hook hrun hpending hcall
  | @fault tid ptr pkey hidle =>
      refine ⟨hlong.chains, hlong.pending, fun u site pkey' hu => ?_, hlong.records⟩
      rcases World.pending_update.1 hu with ⟨-, hnew⟩ | ⟨-, hold⟩
      · obtain ⟨rfl, rfl⟩ := Prod.mk.inj (Option.some_inj.1 hnew)
        exact ⟨es, [], W, tid, ptr, rfl, hrun, rfl⟩
      · exact hlong.faulting u site pkey' hold
  | @record tid site pkey h hfaulting hrecord =>
      have hframe := AllocSiteHandler.recordFault_frame hrecord
      refine ⟨hlong.chains.mono (by rw [hframe]) fun _ _ => id, hlong.pending,
        fun u site' pkey' hu => ?_, fun s hs => ?_⟩
      · rcases World.pending_update.1 hu with ⟨-, hnew⟩ | ⟨-, hold⟩
        · exact absurd hnew (by simp)
        · exact hlong.faulting u site' pkey' hold
      · rcases mem_recordFault hrecord hs with hold | ⟨hv, a, ha, rfl⟩
        · exact hlong.records s hold
        · refine ⟨site, hlong.faulting tid site pkey hfaulting, hv, ?_⟩
          rcases ha with rfl | ha
          · exact Or.inl rfl
          · obtain ⟨chain, hf, ha⟩ := AllocSiteHandler.mem_chainOf.1 ha
            exact Or.inr (hlong.chains site chain hf a ha)

end FaultWorld.Sound

/-- **The profile of concurrent threads is sound.**  Whatever the order of the critical sections,
every record stems from a fault with its key: its site is the one the lookup of that fault has
found, or realloc steps that the threads have made lead from it to that site. -/
theorem recorded_found (allocSiteTotal : ℕ) (es : List FaultWorldEvent) (W : FaultWorld)
    (hrun : Run FaultWorldStep (.start allocSiteTotal) es W) :
    ∀ s ∈ W.world.handler.faultSet.elems, RecordFound allocSiteTotal es s := by
  have hsound : FaultWorld.Sound allocSiteTotal es W := by
    induction hrun with
    | nil => exact .start allocSiteTotal
    | snoc hrun hstep ih => exact ih.step hrun hstep
  exact hsound.records

/-- The handler with one block. -/
def handlerWithSmall : AllocSiteHandler :=
  (AllocSiteHandler.init 0).insertAllocSite smallBlock.base (smallBlock.toSite 0#32 false)

theorem isSome_addFaultAlloc_small :
    (handlerWithSmall.addFaultAlloc 0x1008#64 1#32).isSome = true := by decide

theorem recorded_found_small : ∃ (es : List FaultWorldEvent) (W : FaultWorld),
    (∃ s ∈ W.world.handler.faultSet.elems, s.siteId = smallBlock.site) ∧
      ∀ s ∈ W.world.handler.faultSet.elems, RecordFound 0 es s := by
  have hrun₁ := (@Run.nil _ _ FaultWorldStep (.start 0)).snoc (.world rfl
    (worldStep_alloc (b := smallBlock) 1 rfl (fun c hc => absurd hc (Set.notMem_empty c)) rfl))
  have hrun₂ := hrun₁.snoc (.world rfl (worldStep_insert 1 World.pending_self))
  have hrun₃ := hrun₂.snoc (@FaultWorldStep.fault _ 1 0x1008#64 1#32 rfl)
  have hrecord : ∀ (w : World) (f : ThreadId → Option (AllocSite × BitVec 32)) {site : AllocSite}
      {h : AllocSiteHandler}, w.handler.recordFault site 1#32 = some h →
        FaultWorldStep ⟨w, Function.update f 1 (some (site, 1#32))⟩ (.record 1) _ :=
    fun w f _ _ hrec => .record (by simp) hrec
  have hrun₄ := hrun₃.snoc (hrecord _ _ (Option.some_get isSome_addFaultAlloc_small).symm)
  have helems : ((handlerWithSmall.addFaultAlloc 0x1008#64 1#32).get
      isSome_addFaultAlloc_small).faultSet.elems = [smallBlock.toSite 1#32 false] := by decide
  exact ⟨_, _, ⟨smallBlock.toSite 1#32 false, helems ▸ List.mem_singleton_self _, rfl⟩,
    recorded_found 0 _ _ hrun₄⟩

end Provsan
