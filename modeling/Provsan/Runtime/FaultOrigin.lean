/-
**Where the records of a profile come from.**

A record of the fault set names a site and a key.  The site is the one that some fault was traced
to, or a site whose blocks were reallocated, in one or more steps, at the site of that fault; and
the key is the key of the fault.  This holds after every sequence of hook calls and faults, whatever
the calls say: a chain that is copied, extended or dropped never holds a site that no reallocation
led from.

Main definitions:

* `Provsan.EventStep` — hook calls and faults that return, in any order;
* `Provsan.ReallocSeen` — the pairs of sites that `reallocHook` has observed in a run;
* `Provsan.ChainsSeen`, `Provsan.FaultSeen` — the invariants of the chains and of the fault set;
* `Provsan.SitesIn` — all that the handler keeps meets a condition on sites.

Main results:

* `Provsan.ChainsSeen.step` — one step keeps every chain within what has been observed;
* `Provsan.faultSet_sound` — **every record stems from a fault**;
* `Provsan.SitesIn.step` — a condition that announced sites meet holds of all that is kept.
-/

import Provsan.Runtime.ReallocChain
import Mathlib.Logic.Relation

set_option relaxedAutoImplicit false
set_option autoImplicit false

namespace Provsan

/-! ### Events in any order -/

/-- The effect of a hook call or a fault; `none` when an assertion fails. -/
def Event.run (h : AllocSiteHandler) : Event → Option AllocSiteHandler
  | .hook c => c.run h
  | .fault ptr pkey => h.addFaultAlloc ptr pkey

/-- A hook call or a fault that returns. -/
def EventStep (h : AllocSiteHandler) (e : Event) (h' : AllocSiteHandler) : Prop :=
  e.run h = some h'

/-- A realloc step observed in a run from `h₀`: a call of `reallocHook` found the old site, valid,
under the old pointer, and was given the new one. -/
def ReallocSeen (h₀ : AllocSiteHandler) (es : List Event) (old new : SiteId) : Prop :=
  ∃ es₁ es₂ h newPtr newSize oldPtr oldSize,
    es = es₁ ++ .hook (.realloc newPtr newSize oldPtr oldSize new.localID new.bbName
      new.funcName) :: es₂ ∧ Run EventStep h₀ es₁ h ∧
    (h.getAllocSite oldPtr).isValid = true ∧ (h.getAllocSite oldPtr).siteId = old

/-- A fault of a run with a key, at an address that led to a valid site at that moment. -/
def FaultAt (h₀ : AllocSiteHandler) (es : List Event) (pkey : BitVec 32) (es₁ : List Event)
    (site : SiteId) : Prop :=
  ∃ ptr es₂ h, es = es₁ ++ .fault ptr pkey :: es₂ ∧ Run EventStep h₀ es₁ h ∧
    (h.getAllocSite ptr).isValid = true ∧ (h.getAllocSite ptr).siteId = site

variable {h₀ : AllocSiteHandler} {es : List Event}

/-- What has been observed stays observed. -/
theorem ReallocSeen.append {old new : SiteId} (hseen : ReallocSeen h₀ es old new)
    (es' : List Event) : ReallocSeen h₀ (es ++ es') old new := by
  obtain ⟨es₁, es₂, h, newPtr, newSize, oldPtr, oldSize, rfl, hrest⟩ := hseen
  exact ⟨es₁, es₂ ++ es', h, newPtr, newSize, oldPtr, oldSize, by simp, hrest⟩

theorem FaultAt.append {pkey : BitVec 32} {es₁ : List Event} {site : SiteId}
    (hfault : FaultAt h₀ es pkey es₁ site) (es' : List Event) :
    FaultAt h₀ (es ++ es') pkey es₁ site := by
  obtain ⟨ptr, es₂, h, rfl, hrest⟩ := hfault
  exact ⟨ptr, es₂ ++ es', h, by simp, hrest⟩

/-! ### Chains -/

/-- Every chain holds sites that steps of a relation lead from to the site it is stored for. -/
def ChainsWithin (R : SiteId → SiteId → Prop) (h : AllocSiteHandler) : Prop :=
  ∀ s chain, h.FM.find s = some chain → ∀ a ∈ chain.elems, Relation.TransGen R a.siteId s.siteId

namespace ChainsWithin

variable {R R' : SiteId → SiteId → Prop} {h h' : AllocSiteHandler}

theorem init (allocSiteTotal : ℕ) : ChainsWithin R (AllocSiteHandler.init allocSiteTotal) :=
  fun s chain hf => absurd hf (by simp [AllocSiteHandler.init])

/-- As long as `FM` does not change, more steps do no harm. -/
theorem mono (hch : ChainsWithin R h) (hFM : h'.FM = h.FM) (hR : ∀ a b, R a b → R' a b) :
    ChainsWithin R' h' := by
  intro s chain hf a ha
  rw [hFM] at hf
  exact Relation.TransGen.mono hR _ _ (hch s chain hf a ha)

/-- The chain made for a new site: what led to the old site leads to the new one. -/
theorem updateReallocChain (hch : ChainsWithin R h) {oldAS newAS : AllocSite}
    (hstep : R oldAS.siteId newAS.siteId) : ChainsWithin R (h.updateReallocChain oldAS newAS) := by
  intro s chain hf a ha
  rcases AllocSiteHandler.mem_chainOf_cases (AllocSiteHandler.mem_chainOf.2 ⟨chain, hf, ha⟩) with
    hold | ⟨hns, rfl | hold⟩
  · obtain ⟨chain', hf', ha'⟩ := AllocSiteHandler.mem_chainOf.1 hold
    exact hch s chain' hf' a ha'
  · exact AllocSite.beq_iff.1 hns ▸ Relation.TransGen.single hstep
  · obtain ⟨old, hfo, ha'⟩ := AllocSiteHandler.mem_chainOf.1 hold
    exact AllocSite.beq_iff.1 hns ▸ (hch oldAS old hfo a ha').tail hstep

end ChainsWithin

/-- **Every chain holds sites that observed steps lead from** to the site it is stored for. -/
def ChainsSeen (h₀ : AllocSiteHandler) (es : List Event) (h : AllocSiteHandler) : Prop :=
  ∀ s chain, h.FM.find s = some chain → ∀ a ∈ chain.elems,
    Relation.TransGen (ReallocSeen h₀ es) a.siteId s.siteId

namespace ChainsSeen

variable {h h' : AllocSiteHandler}

/-- As long as `FM` does not change, more events do no harm. -/
theorem of_FM_eq (hch : ChainsSeen h₀ es h) (hFM : h'.FM = h.FM) (e : Event) :
    ChainsSeen h₀ (es ++ [e]) h' :=
  ChainsWithin.mono hch hFM fun _ _ hseen => ReallocSeen.append hseen [e]

/-- The chain made for a new site: what led to the old site leads to the new one. -/
theorem updateReallocChain (hch : ChainsSeen h₀ es h) {oldAS newAS : AllocSite}
    (hseen : ReallocSeen h₀ es oldAS.siteId newAS.siteId) :
    ChainsSeen h₀ es (h.updateReallocChain oldAS newAS) :=
  ChainsWithin.updateReallocChain hch hseen

/-- **One step keeps every chain within what has been observed.** -/
theorem step (hch : ChainsSeen h₀ es h) (hrun : Run EventStep h₀ es h) {e : Event}
    (hstep : EventStep h e h') : ChainsSeen h₀ (es ++ [e]) h' := by
  cases e with
  | fault ptr pkey =>
      refine hch.of_FM_eq ?_ _
      rw [AllocSiteHandler.addFaultAlloc_frame hstep]
  | hook c =>
      cases HookCall.run_eq_some.1 hstep with
      | alloc | reallocFresh | dealloc => exact hch.of_FM_eq rfl _
      | @realloc newPtr oldPtr newSize oldSize localID bbName funcName s hv hs =>
          have hseen : ReallocSeen h₀ (es ++ [.hook (.realloc newPtr newSize oldPtr oldSize localID
              bbName funcName)]) (h.getAllocSite oldPtr).siteId s.siteId := by
            rw [(AllocSite.builtFrom_of_create hs).siteId_eq]
            exact ⟨es, [], h, newPtr, newSize, oldPtr, oldSize, rfl, hrun, hv, rfl⟩
          exact (hch.of_FM_eq rfl _).updateReallocChain hseen

theorem run (allocSiteTotal : ℕ) {es : List Event} {h : AllocSiteHandler}
    (hrun : Run EventStep (AllocSiteHandler.init allocSiteTotal) es h) :
    ChainsSeen (AllocSiteHandler.init allocSiteTotal) es h := by
  induction hrun with
  | nil => exact fun s chain hf => absurd hf (by simp [AllocSiteHandler.init])
  | snoc hrun hstep ih => exact ih.step hrun hstep

end ChainsSeen

/-! ### Records -/

/-- **Every record of the fault set stems from a fault** with its key: the site of the record is
the one the fault was traced to, or observed realloc steps lead from it to that site. -/
def FaultSeen (h₀ : AllocSiteHandler) (es : List Event) (s : AllocSite) : Prop :=
  ∃ es₁ t, FaultAt h₀ es s.pkey es₁ t ∧
    (s.siteId = t ∨ Relation.TransGen (ReallocSeen h₀ es₁) s.siteId t)

theorem FaultSeen.append {es : List Event} {s : AllocSite} (hseen : FaultSeen h₀ es s)
    (es' : List Event) : FaultSeen h₀ (es ++ es') s := by
  obtain ⟨es₁, t, hfault, hor⟩ := hseen
  exact ⟨es₁, t, hfault.append es', hor⟩

/-- **What a fault adds to the fault set**: the site that the lookup has found, when it is valid,
and its chain, all with the key of the fault. -/
theorem mem_recordFault {h h' : AllocSiteHandler} {alloc : AllocSite} {pkey : BitVec 32}
    (he : h.recordFault alloc pkey = some h') {s : AllocSite} (hs : s ∈ h'.faultSet.elems) :
    s ∈ h.faultSet.elems ∨ alloc.isValid = true ∧
      ∃ a, (a = alloc ∨ a ∈ h.chainOf alloc) ∧ s = a.addPkey pkey := by
  cases hv : alloc.isValid with
  | true =>
      rw [AllocSiteHandler.recordFault_of_isValid he hv] at hs
      rcases UnorderedSet.mem_foldl_insert hs with hold | ⟨a, ha, heq⟩
      · exact Or.inl hold
      · exact Or.inr ⟨rfl, a, List.mem_cons.1 ha, heq⟩
  | false =>
      rw [AllocSiteHandler.recordFault_of_not_isValid pkey hv] at he
      exact Or.inl (Option.some_inj.1 he ▸ hs)

theorem mem_addFaultAlloc {h h' : AllocSiteHandler} {ptr : RustPtr} {pkey : BitVec 32}
    (he : h.addFaultAlloc ptr pkey = some h') {s : AllocSite} (hs : s ∈ h'.faultSet.elems) :
    s ∈ h.faultSet.elems ∨ (h.getAllocSite ptr).isValid = true ∧
      ∃ a, (a = h.getAllocSite ptr ∨ a ∈ h.chainOf (h.getAllocSite ptr)) ∧ s = a.addPkey pkey :=
  mem_recordFault he hs

/-- One step adds records of faults only. -/
theorem FaultSeen.step {h h' : AllocSiteHandler} {e : Event} (hch : ChainsSeen h₀ es h)
    (hold : ∀ s ∈ h.faultSet.elems, FaultSeen h₀ es s) (hrun : Run EventStep h₀ es h)
    (hstep : EventStep h e h') {s : AllocSite} (hs : s ∈ h'.faultSet.elems) :
    FaultSeen h₀ (es ++ [e]) s := by
  cases e with
  | hook c =>
      rw [HookCall.faultSet_of_run hstep] at hs
      exact (hold s hs).append _
  | fault ptr pkey =>
      rcases mem_addFaultAlloc hstep hs with hmem | ⟨hv, a, ha, rfl⟩
      · exact (hold s hmem).append _
      · refine ⟨es, (h.getAllocSite ptr).siteId, ⟨ptr, [], h, rfl, hrun, hv, rfl⟩, ?_⟩
        rcases ha with rfl | ha
        · exact Or.inl rfl
        · obtain ⟨chain, hf, ha⟩ := AllocSiteHandler.mem_chainOf.1 ha
          exact Or.inr (hch _ chain hf a ha)

/-- **The profile is sound**: after every run, every record stems from a fault with its key, and its
site is the one the fault was traced to or one that observed realloc steps lead from. -/
theorem faultSet_sound (allocSiteTotal : ℕ) (es : List Event) (h : AllocSiteHandler)
    (hrun : Run EventStep (AllocSiteHandler.init allocSiteTotal) es h) :
    ∀ s ∈ h.faultSet.elems, FaultSeen (AllocSiteHandler.init allocSiteTotal) es s := by
  induction hrun with
  | nil => exact fun s hs => absurd hs (by simp [AllocSiteHandler.init, UnorderedSet.empty])
  | snoc hrun hstep ih =>
      exact fun s hs => FaultSeen.step (ChainsSeen.run allocSiteTotal hrun) ih hrun hstep hs

/-- A block, its reallocation, and a fault in what it became. -/
def grownAndFaulted : List Event :=
  [.hook (.alloc 0x1000#64 16 0 "entry" "make"),
    .hook (.realloc 0x2000#64 32 0x1000#64 16 1 "entry" "make"), .fault 0x2008#64 1#32]

theorem faultSet_sound_grown : ∃ h, grownAndFaulted.foldlM Event.run (AllocSiteHandler.init 0) =
    some h ∧ h.faultSet.elems.map AllocSite.siteId =
      [⟨1, "entry", "make"⟩, ⟨0, "entry", "make"⟩] ∧
    ∀ s ∈ h.faultSet.elems, FaultSeen (AllocSiteHandler.init 0) grownAndFaulted s :=
  ⟨_, rfl, by decide,
    faultSet_sound 0 grownAndFaulted _ (Run.of_foldlM (fun _ _ _ hrun => hrun) rfl)⟩

/-! ### Announced sites -/

/-- **Every site that the handler keeps meets a condition**: those of the map, of the chains and of
the fault set. -/
structure SitesIn (K : SiteId → Prop) (h : AllocSiteHandler) : Prop where
  stored : ∀ k s, h.allocationMap.find k = some s → K s.siteId
  chains : ∀ s, ∀ a ∈ h.chainOf s, K a.siteId
  faults : ∀ s ∈ h.faultSet.elems, K s.siteId

namespace SitesIn

variable {K : SiteId → Prop} {h h' : AllocSiteHandler}

theorem init (allocSiteTotal : ℕ) : SitesIn K (AllocSiteHandler.init allocSiteTotal) where
  stored k s hf := absurd hf (by simp [AllocSiteHandler.init])
  chains s a ha := absurd ha (by simp [AllocSiteHandler.init, AllocSiteHandler.chainOf])
  faults s hs := absurd hs (by simp [AllocSiteHandler.init, UnorderedSet.empty])

/-- A valid site that a lookup returns is one of the map. -/
theorem getAllocSite (hsites : SitesIn K h) {ptr : RustPtr}
    (hv : (h.getAllocSite ptr).isValid = true) : K (h.getAllocSite ptr).siteId := by
  rcases h.getAllocSite_cases ptr with herr | ⟨k, s, hf, hs, -⟩
  · rw [herr] at hv
    exact absurd hv (by simp)
  · exact hs ▸ hsites.stored k s hf

/-- A call leaves the condition true of the chains. -/
theorem chains_of_run (hsites : SitesIn K h) {c : HookCall} (hrun : c.run h = some h') :
    ∀ s, ∀ a ∈ h'.chainOf s, K a.siteId := by
  cases HookCall.run_eq_some.1 hrun with
  | alloc | reallocFresh | dealloc => exact hsites.chains
  | realloc hv hs =>
      intro s a ha
      rcases AllocSiteHandler.mem_chainOf_cases ha with hold | ⟨-, rfl | hold⟩
      · exact hsites.chains s a hold
      · exact hsites.getAllocSite hv
      · exact hsites.chains _ a hold

/-- **One step keeps the condition**, when the site that a call announces meets it. -/
theorem step (hsites : SitesIn K h) {e : Event} (hstep : EventStep h e h')
    (hnew : ∀ c base size site, e = .hook c → c.newBlock = some (base, size, site) →
      0 ≤ site.localID → K site) : SitesIn K h' := by
  cases e with
  | hook c =>
      refine ⟨fun k s hf => ?_, hsites.chains_of_run hstep, ?_⟩
      · rcases HookCall.find_of_run hstep hf with hold | ⟨size, site, hblock, hs⟩
        · exact hsites.stored k s hold
        · have hid := congrArg SiteId.localID hs.siteId_eq
          rw [hs.siteId_eq]
          exact hnew c k size site rfl hblock (hid ▸ (AllocSite.isValid_iff.1 hs.isValid).2.2)
      · rw [HookCall.faultSet_of_run hstep]
        exact hsites.faults
  | fault ptr pkey =>
      have hframe := AllocSiteHandler.addFaultAlloc_frame hstep
      have hmap : h'.allocationMap = h.allocationMap := by rw [hframe]
      have hchain : ∀ s, h'.chainOf s = h.chainOf s := fun s => by
        rw [hframe]
        rfl
      refine ⟨fun k s hf => hsites.stored k s (hmap ▸ hf),
        fun s a ha => hsites.chains s a (hchain s ▸ ha), fun s hs => ?_⟩
      rcases mem_addFaultAlloc hstep hs with hold | ⟨hv, a, rfl | ha, rfl⟩
      · exact hsites.faults s hold
      · exact hsites.getAllocSite hv
      · exact hsites.chains _ a ha

end SitesIn

/-- What is on record stays on record. -/
theorem contains_of_step {h h' : AllocSiteHandler} {e : Event} (hstep : EventStep h e h')
    {s : AllocSite} (hs : h.faultSet.contains s = true) : h'.faultSet.contains s = true := by
  cases e with
  | hook c => rwa [HookCall.faultSet_of_run hstep]
  | fault ptr pkey =>
      by_cases hv : (h.getAllocSite ptr).isValid = true
      · exact (AllocSiteHandler.contains_addFaultAlloc hstep hv s).2 (Or.inl hs)
      · have hsame := AllocSiteHandler.addFaultAlloc_of_not_isValid pkey (by simpa using hv)
        obtain rfl := Option.some_inj.1 (hsame.symm.trans hstep)
        exact hs

end Provsan
