/-
**The compartments of a profile.**

The fault set is a set of sites, and the key of a fault is a field that its equality does not see.
A site that is on record already keeps the key it has, so that a fault with another key leaves no
trace.  This module says exactly when every fault of a run is on record with its key, and when the
records do not depend on the order of the faults.

Main definitions:

* `Provsan.AllocSiteHandler.records` — the sites on record, each with its key;
* `Provsan.AllocSiteHandler.faultedSites` — the sites that a fault is to record;
* `Provsan.CompartmentsKept`, `Provsan.KeysAgree` — every fault is on record, and the condition on a
  fault under which it will be;
* `Provsan.OrderFree`, `Provsan.KeysCompatible` — the same for a collection of faults.

Main results:

* `Provsan.AllocSiteHandler.mem_records_addFaultAlloc` — the records after a fault;
* `Provsan.AllocSiteHandler.mem_records_addFaults` — the records after compatible faults;
* `Provsan.compartmentsKept_iff` — **no compartment is lost exactly when no site faults with two
  keys**.
-/

import Provsan.Runtime.FaultOrigin
import Mathlib.Data.Set.Defs

set_option relaxedAutoImplicit false
set_option autoImplicit false

namespace Provsan

namespace AllocSiteHandler

/-- The records of the fault set: the triples of the sites with their keys. -/
def records (h : AllocSiteHandler) : Set (SiteId × BitVec 32) :=
  {r | r ∈ h.faultSet.elems.map fun s => (s.siteId, s.pkey)}

/-- The sites that a fault at an address concerns: the valid site of the address, and its chain. -/
def faultedSites (h : AllocSiteHandler) (ptr : RustPtr) : List AllocSite :=
  if (h.getAllocSite ptr).isValid then h.getAllocSite ptr :: h.chainOf (h.getAllocSite ptr) else []

/-- Faults one after the other, each an address with a key. -/
def addFaults (h : AllocSiteHandler) (fs : List (RustPtr × BitVec 32)) : Option AllocSiteHandler :=
  fs.foldlM (fun h f => h.addFaultAlloc f.1 f.2) h

/-! ### The records after a fault -/

variable {h h' : AllocSiteHandler} {ptr : RustPtr} {pkey : BitVec 32}

theorem mem_records {id : SiteId} {key : BitVec 32} :
    (id, key) ∈ h.records ↔ ∃ s ∈ h.faultSet.elems, s.siteId = id ∧ s.pkey = key := by
  simp [records]

/-- A site is on record with one key at most. -/
theorem key_unique {id : SiteId} {key key' : BitVec 32} (hkey : (id, key) ∈ h.records)
    (hkey' : (id, key') ∈ h.records) : key = key' := by
  obtain ⟨s, hs, hid, rfl⟩ := mem_records.1 hkey
  obtain ⟨s', hs', hid', rfl⟩ := mem_records.1 hkey'
  rw [UnorderedSet.eq_of_mem hs hs' (AllocSite.beq_iff.2 (hid.trans hid'.symm))]

theorem addFaultAlloc_eq (he : h.addFaultAlloc ptr pkey = some h') :
    h' = { h with faultSet :=
      (h.faultedSites ptr).foldl (fun t a => t.insert (a.addPkey pkey)) h.faultSet } := by
  rw [faultedSites]
  cases hv : (h.getAllocSite ptr).isValid with
  | true => exact addFaultAlloc_of_isValid he hv
  | false =>
      rw [addFaultAlloc_of_not_isValid pkey hv] at he
      exact (Option.some_inj.1 he).symm

theorem faultedSites_addFaultAlloc (he : h.addFaultAlloc ptr pkey = some h') (ptr' : RustPtr) :
    h'.faultedSites ptr' = h.faultedSites ptr' := by
  rw [addFaultAlloc_eq he]
  rfl

theorem records_subset_addFaultAlloc (he : h.addFaultAlloc ptr pkey = some h') :
    h.records ⊆ h'.records := by
  rintro ⟨id, key⟩ hr
  obtain ⟨s, hs, hid⟩ := mem_records.1 hr
  rw [addFaultAlloc_eq he]
  exact mem_records.2 ⟨s, UnorderedSet.mem_foldl_insert_of_mem hs, hid⟩

theorem exists_record_addFaultAlloc (he : h.addFaultAlloc ptr pkey = some h') {a : AllocSite}
    (ha : a ∈ h.faultedSites ptr) : ∃ key, (a.siteId, key) ∈ h'.records := by
  rw [addFaultAlloc_eq he]
  obtain ⟨s, hs, hsa⟩ := UnorderedSet.contains_iff.1 ((UnorderedSet.contains_foldl_insert
    (fun s => s.addPkey pkey) (h.faultedSites ptr) h.faultSet a).2
      (Or.inr ⟨a, ha, AllocSite.addPkey_beq a pkey⟩))
  exact ⟨s.pkey, mem_records.2 ⟨s, hs, AllocSite.beq_iff.1 hsa, rfl⟩⟩

/-- **The records after a fault**: those before it, and the sites it concerns that were on record
with no key, with the key of the fault. -/
theorem mem_records_addFaultAlloc (he : h.addFaultAlloc ptr pkey = some h') {id : SiteId}
    {key : BitVec 32} : (id, key) ∈ h'.records ↔ (id, key) ∈ h.records ∨
      key = pkey ∧ (∃ a ∈ h.faultedSites ptr, a.siteId = id) ∧ ∀ old, (id, old) ∉ h.records := by
  constructor
  · intro hr
    by_cases hold : ∃ old, (id, old) ∈ h.records
    · obtain ⟨old, hold⟩ := hold
      rw [key_unique hr (records_subset_addFaultAlloc he hold)]
      exact Or.inl hold
    · obtain ⟨s, hs, rfl, rfl⟩ := mem_records.1 hr
      rw [addFaultAlloc_eq he] at hs
      rcases UnorderedSet.mem_foldl_insert hs with hmem | ⟨a, ha, rfl⟩
      · exact Or.inl (mem_records.2 ⟨s, hmem, rfl, rfl⟩)
      · exact Or.inr ⟨rfl, ⟨a, ha, rfl⟩, not_exists.1 hold⟩
  · rintro (hold | ⟨rfl, ⟨a, ha, rfl⟩, hfresh⟩)
    · exact records_subset_addFaultAlloc he hold
    · obtain ⟨key', hr⟩ := exists_record_addFaultAlloc he ha
      obtain ⟨s, hs, hid, rfl⟩ := mem_records.1 hr
      rw [addFaultAlloc_eq he] at hs
      rcases UnorderedSet.mem_foldl_insert hs with hmem | ⟨b, -, rfl⟩
      · exact absurd (mem_records.2 ⟨s, hmem, hid, rfl⟩) (hfresh s.pkey)
      · exact hr

end AllocSiteHandler

/-! ### Runs -/

/-- **Every fault of a run is on record** with its key at the end, at each site that it concerned
when it was handled. -/
def CompartmentsKept (h₀ : AllocSiteHandler) (es : List Event) (h : AllocSiteHandler) : Prop :=
  ∀ es₁ ptr pkey es₂ h₁, es = es₁ ++ .fault ptr pkey :: es₂ → Run EventStep h₀ es₁ h₁ →
    ∀ a ∈ h₁.faultedSites ptr, (a.siteId, pkey) ∈ h.records

/-- The sites that the event concerns are on record with no key but that of the event. -/
def KeysAgree (h : AllocSiteHandler) : Event → Prop
  | .hook _ => True
  | .fault ptr pkey => ∀ a ∈ h.faultedSites ptr, ∀ key, (a.siteId, key) ∈ h.records → key = pkey

variable {h₀ h h' : AllocSiteHandler} {es : List Event}

/-- What is on record with a key stays on record with it. -/
theorem records_subset_of_step {e : Event} (hstep : EventStep h e h') : h.records ⊆ h'.records := by
  cases e with
  | hook c =>
      rw [AllocSiteHandler.records, AllocSiteHandler.records, HookCall.faultSet_of_run hstep]
  | fault ptr pkey => exact AllocSiteHandler.records_subset_addFaultAlloc hstep

theorem mem_records_of_keysAgree {ptr : RustPtr} {pkey : BitVec 32}
    (hagree : KeysAgree h (.fault ptr pkey)) (hstep : EventStep h (.fault ptr pkey) h')
    {a : AllocSite} (ha : a ∈ h.faultedSites ptr) : (a.siteId, pkey) ∈ h'.records := by
  rw [AllocSiteHandler.mem_records_addFaultAlloc hstep]
  by_cases hold : ∃ key, (a.siteId, key) ∈ h.records
  · obtain ⟨key, hold⟩ := hold
    exact Or.inl (hagree a ha key hold ▸ hold)
  · exact Or.inr ⟨rfl, ⟨a, ha, rfl⟩, not_exists.1 hold⟩

theorem eventStep_unique (h : AllocSiteHandler) (e : Event) (h₁ h₂ : AllocSiteHandler)
    (hstep : EventStep h e h₁) (hstep' : EventStep h e h₂) : h₁ = h₂ :=
  Option.some_inj.1 (hstep.symm.trans hstep')

/-- **One step keeps the compartments** of the run so far, and adds its own when the keys agree. -/
theorem CompartmentsKept.step (hkept : CompartmentsKept h₀ es h) (hrun : Run EventStep h₀ es h)
    {e : Event} (hagree : KeysAgree h e) (hstep : EventStep h e h') :
    CompartmentsKept h₀ (es ++ [e]) h' := by
  intro es₁ ptr pkey es₂ h₁ hes hrun₁ a ha
  rcases List.eq_nil_or_concat es₂ with rfl | ⟨es₂', e', rfl⟩
  · -- the fault is the step itself
    obtain ⟨rfl, he⟩ := List.append_inj' hes rfl
    obtain rfl := List.head_eq_of_cons_eq he
    obtain rfl := hrun₁.unique eventStep_unique hrun
    exact mem_records_of_keysAgree hagree hstep ha
  · rw [List.concat_eq_append, ← List.cons_append, ← List.append_assoc] at hes
    obtain ⟨rfl, -⟩ := List.append_inj' hes rfl
    exact records_subset_of_step hstep (hkept es₁ ptr pkey es₂' h₁ rfl hrun₁ a ha)

/-- In a run whose keys all agree no compartment is lost. -/
theorem compartmentsKept_of_guarded (hrun : Run (Guarded KeysAgree EventStep) h₀ es h) :
    CompartmentsKept h₀ es h := by
  induction hrun with
  | nil =>
      intro es₁ ptr pkey es₂ h₁ hes
      exact absurd hes (by simp)
  | snoc hrun hs ih => exact ih.step (hrun.mono fun _ _ _ hs => hs.2) hs.1 hs.2

/-- A run loses no compartment at its end only if the keys agree all the way. -/
theorem guarded_of_recorded (hrun : Run EventStep h₀ es h) (hsub : h.records ⊆ h'.records)
    (hkept : CompartmentsKept h₀ es h') : Run (Guarded KeysAgree EventStep) h₀ es h := by
  induction hrun with
  | nil => exact Run.nil
  | @snoc es h h₂ e hrun hstep ih =>
      have hsub' := (records_subset_of_step hstep).trans hsub
      refine (ih hsub' fun es₁ ptr pkey es₂ h₁ hes => ?_).snoc ⟨?_, hstep⟩
      · exact hkept es₁ ptr pkey (es₂ ++ [e]) h₁ (by rw [hes, List.append_assoc]; rfl)
      · cases e with
        | hook c => trivial
        | fault ptr pkey =>
            intro a ha key hold
            exact AllocSiteHandler.key_unique (hsub' hold) (hkept es ptr pkey [] h rfl hrun a ha)

/-! ### Collections of faults -/

/-- **The order of the faults does not matter**: in any other order they are handled as well, and
leave the same records. -/
def OrderFree (h : AllocSiteHandler) (fs : List (RustPtr × BitVec 32)) (h' : AllocSiteHandler) :
    Prop :=
  ∀ fs', fs.Perm fs' → ∃ h'', h.addFaults fs' = some h'' ∧ h''.records = h'.records

/-- Two faults that concern a site not on record have the same key. -/
def KeysCompatible (h : AllocSiteHandler) (fs : List (RustPtr × BitVec 32)) : Prop :=
  ∀ f ∈ fs, ∀ g ∈ fs, ∀ a ∈ h.faultedSites f.1, ∀ b ∈ h.faultedSites g.1, a.siteId = b.siteId →
    (∀ key, (a.siteId, key) ∉ h.records) → f.2 = g.2

namespace AllocSiteHandler

variable {fs : List (RustPtr × BitVec 32)} {f : RustPtr × BitVec 32}

theorem addFaults_cons_eq_some {g : AllocSiteHandler} :
    h.addFaults (f :: fs) = some g ↔
      ∃ h₁, h.addFaultAlloc f.1 f.2 = some h₁ ∧ h₁.addFaults fs = some g := by
  rw [addFaults, List.foldlM_cons]
  exact Option.bind_eq_some_iff

/-- The set of faulting sites does not bear on the assertion about a site. -/
theorem assertCounted_faultSet (h : AllocSiteHandler) (t : UnorderedSet AllocSite)
    (a : AllocSite) : { h with faultSet := t }.assertCounted a = h.assertCounted a := rfl

/-- The loop over the associated sites comes to its end when all of them are counted. -/
theorem exists_foldlM_addAssoc_iff (l : List AllocSite) (h : AllocSiteHandler)
    (pkey : BitVec 32) : (∃ h', l.foldlM (addAssoc pkey) h = some h') ↔
      ∀ a ∈ l, h.assertCounted a = some () := by
  induction l generalizing h with
  | nil => simp
  | cons a l ih =>
      have hrest := ih { h with faultSet := h.faultSet.insert (a.addPkey pkey) }
      simp only [assertCounted_faultSet] at hrest
      have hhead : addAssoc pkey h a = (h.assertCounted a).bind fun _ =>
          some { h with faultSet := h.faultSet.insert (a.addPkey pkey) } := rfl
      rw [List.foldlM_cons, hhead, List.forall_mem_cons]
      cases hc : h.assertCounted a with
      | none => simp
      | some u => simpa using hrest

/-- The assertions let a fault pass when every site it concerns is counted. -/
theorem exists_addFaultAlloc_iff (h : AllocSiteHandler) (ptr : RustPtr) (pkey : BitVec 32) :
    (∃ h', h.addFaultAlloc ptr pkey = some h') ↔
      ∀ a ∈ h.faultedSites ptr, h.assertCounted a = some () := by
  by_cases hv : (h.getAllocSite ptr).isValid = true
  · rw [addFaultAlloc, recordFault, if_pos hv, faultedSites, if_pos hv, List.forall_mem_cons]
    dsimp only
    rw [UnorderedMap.find_congr (AllocSite.addPkey_beq _ pkey), chainOf]
    cases hc : h.assertCounted (h.getAllocSite ptr) with
    | none => simp
    | some u =>
        cases hf : h.FM.find (h.getAllocSite ptr) with
        | none => simp
        | some chain =>
            have hloop := exists_foldlM_addAssoc_iff chain.elems
              { h with faultSet := h.faultSet.insert ((h.getAllocSite ptr).addPkey pkey) } pkey
            simpa [assertCounted_faultSet] using hloop
  · rw [addFaultAlloc_of_not_isValid pkey (by simpa using hv), faultedSites, if_neg hv]
    simp

/-- Faults can be handled one after the other when each can on its own. -/
theorem exists_addFaults_iff (h : AllocSiteHandler) (fs : List (RustPtr × BitVec 32)) :
    (∃ h', h.addFaults fs = some h') ↔
      ∀ f ∈ fs, ∀ a ∈ h.faultedSites f.1, h.assertCounted a = some () := by
  induction fs generalizing h with
  | nil => exact iff_of_true ⟨h, rfl⟩ (by simp)
  | cons f fs ih =>
      rw [List.forall_mem_cons, ← exists_addFaultAlloc_iff h f.1 f.2]
      constructor
      · rintro ⟨g, hg⟩
        obtain ⟨h₁, he, hrest⟩ := addFaults_cons_eq_some.1 hg
        have hall := (ih h₁).1 ⟨g, hrest⟩
        simp only [faultedSites_addFaultAlloc he] at hall
        rw [addFaultAlloc_frame he] at hall
        exact ⟨⟨h₁, he⟩, hall⟩
      · rintro ⟨⟨h₁, he⟩, hall⟩
        have hall₁ : ∀ f ∈ fs, ∀ a ∈ h₁.faultedSites f.1, h₁.assertCounted a = some () := by
          simp only [faultedSites_addFaultAlloc he]
          rw [addFaultAlloc_frame he]
          exact hall
        obtain ⟨g, hrest⟩ := (ih h₁).2 hall₁
        exact ⟨g, addFaults_cons_eq_some.2 ⟨h₁, he, hrest⟩⟩

/-- **The records after compatible faults**: those before, and every site that some fault concerns
and that was not on record, with the key of that fault. -/
theorem mem_records_addFaults {g : AllocSiteHandler} (hcompat : KeysCompatible h fs)
    (hret : h.addFaults fs = some g) {id : SiteId} {key : BitVec 32} :
    (id, key) ∈ g.records ↔ (id, key) ∈ h.records ∨
      (∃ f ∈ fs, f.2 = key ∧ ∃ a ∈ h.faultedSites f.1, a.siteId = id) ∧
        ∀ old, (id, old) ∉ h.records := by
  induction fs generalizing h with
  | nil =>
      obtain rfl := Option.some_inj.1 hret
      simp
  | cons f fs ih =>
      obtain ⟨h₁, he, hrest⟩ := addFaults_cons_eq_some.1 hret
      have hcompat₁ : KeysCompatible h₁ fs := by
        intro f' hf' g' hg' a ha b hb hab hfresh
        rw [faultedSites_addFaultAlloc he] at ha hb
        exact hcompat f' (List.mem_cons_of_mem _ hf') g' (List.mem_cons_of_mem _ hg') a ha b hb hab
          fun key hkey => hfresh key (records_subset_addFaultAlloc he hkey)
      rw [ih hcompat₁ hrest, mem_records_addFaultAlloc he]
      simp only [faultedSites_addFaultAlloc he]
      constructor
      · rintro ((hold | ⟨rfl, ⟨a, ha, rfl⟩, hfresh⟩) | ⟨⟨f', hf', rfl, a, ha, rfl⟩, hfresh⟩)
        · exact Or.inl hold
        · exact Or.inr ⟨⟨f, List.mem_cons_self .., rfl, a, ha, rfl⟩, hfresh⟩
        · exact Or.inr ⟨⟨f', List.mem_cons_of_mem _ hf', rfl, a, ha, rfl⟩,
            fun old hold => hfresh old (records_subset_addFaultAlloc he hold)⟩
      · rintro (hold | ⟨⟨f', hf', rfl, a, ha, rfl⟩, hfresh⟩)
        · exact Or.inl (Or.inl hold)
        · by_cases hfirst : ∃ b ∈ h.faultedSites f.1, b.siteId = a.siteId
          · -- the first fault recorded the site, and its key is that of the later one
            obtain ⟨b, hb, hba⟩ := hfirst
            have hkey : f'.2 = f.2 := hcompat f' hf' f (List.mem_cons_self ..) a ha b hb hba.symm
              hfresh
            exact Or.inl (Or.inr ⟨hkey, ⟨b, hb, hba⟩, hfresh⟩)
          · rcases List.mem_cons.1 hf' with rfl | hmem
            · exact absurd ⟨a, ha, rfl⟩ hfirst
            · refine Or.inr ⟨⟨f', hmem, rfl, a, ha, rfl⟩, fun old hold => ?_⟩
              rcases (mem_records_addFaultAlloc he).1 hold with hold | ⟨-, hsite, -⟩
              · exact hfresh old hold
              · exact hfirst hsite

/-- The first fault of a collection is on record when a site that it concerns was not. -/
theorem mem_records_addFaults_cons {g : AllocSiteHandler} (hret : h.addFaults (f :: fs) = some g)
    {a : AllocSite} (ha : a ∈ h.faultedSites f.1) (hfresh : ∀ old, (a.siteId, old) ∉ h.records) :
    (a.siteId, f.2) ∈ g.records := by
  obtain ⟨h₁, he, hrest⟩ := addFaults_cons_eq_some.1 hret
  have hfirst : (a.siteId, f.2) ∈ h₁.records :=
    (mem_records_addFaultAlloc he).2 (Or.inr ⟨rfl, ⟨a, ha, rfl⟩, hfresh⟩)
  clear he hret
  induction fs generalizing h₁ with
  | nil =>
      obtain rfl := Option.some_inj.1 hrest
      exact hfirst
  | cons f' fs ih =>
      obtain ⟨h₂, he, hrest⟩ := addFaults_cons_eq_some.1 hrest
      exact ih h₂ hrest (records_subset_addFaultAlloc he hfirst)

end AllocSiteHandler

/-- **Compatible faults can be handled in any order.** -/
theorem OrderFree.of_keysCompatible {fs : List (RustPtr × BitVec 32)} {g : AllocSiteHandler}
    (hret : h.addFaults fs = some g) (hcompat : KeysCompatible h fs) : OrderFree h fs g := by
  intro fs' hperm
  have hall := (h.exists_addFaults_iff fs).1 ⟨g, hret⟩
  obtain ⟨g', hret'⟩ := (h.exists_addFaults_iff fs').2 fun f hf => hall f (hperm.mem_iff.2 hf)
  refine ⟨g', hret', Set.ext fun ⟨id, key⟩ => ?_⟩
  have hcompat' : KeysCompatible h fs' := fun f hf f' hf' =>
    hcompat f (hperm.mem_iff.2 hf) f' (hperm.mem_iff.2 hf')
  rw [AllocSiteHandler.mem_records_addFaults hcompat' hret',
    AllocSiteHandler.mem_records_addFaults hcompat hret]
  simp only [hperm.mem_iff]

/-- In a collection whose order does not matter the keys are compatible: whichever of two faults
comes first gives its key to a site of both. -/
theorem OrderFree.keysCompatible {fs : List (RustPtr × BitVec 32)} {g : AllocSiteHandler}
    (hfree : OrderFree h fs g) : KeysCompatible h fs := by
  have hfirst : ∀ f ∈ fs, ∀ a ∈ h.faultedSites f.1, (∀ key, (a.siteId, key) ∉ h.records) →
      (a.siteId, f.2) ∈ g.records := by
    intro f hf a ha hfresh
    obtain ⟨fs₁, fs₂, rfl⟩ := List.append_of_mem hf
    obtain ⟨g', hret, hsame⟩ := hfree (f :: (fs₁ ++ fs₂)) List.perm_middle
    exact hsame ▸ AllocSiteHandler.mem_records_addFaults_cons hret ha hfresh
  intro f hf f' hf' a ha b hb hab hfresh
  have hrec := hfirst f hf a ha hfresh
  have hrec' := hfirst f' hf' b hb (hab ▸ hfresh)
  rw [← hab] at hrec'
  exact AllocSiteHandler.key_unique hrec hrec'

/-! ### When no compartment is lost -/

/-- **No compartment is lost exactly when no site faults with two keys.**  In a run, every fault is
on record with its key at the end if and only if no fault concerns a site that is on record with
another key when it is handled.  Against a fixed map and fixed chains, the records that a collection
of faults leaves do not depend on its order if and only if no two of them, with different keys,
concern a site that was not on record before. -/
theorem compartmentsKept_iff (allocSiteTotal : ℕ) (es : List Event) (h : AllocSiteHandler)
    (hrun : Run EventStep (AllocSiteHandler.init allocSiteTotal) es h) (g : AllocSiteHandler)
    (fs : List (RustPtr × BitVec 32)) (g' : AllocSiteHandler) (hret : g.addFaults fs = some g') :
    (CompartmentsKept (AllocSiteHandler.init allocSiteTotal) es h ↔
      Run (Guarded KeysAgree EventStep) (AllocSiteHandler.init allocSiteTotal) es h) ∧
    (OrderFree g fs g' ↔ KeysCompatible g fs) :=
  ⟨⟨guarded_of_recorded hrun Set.Subset.rfl, compartmentsKept_of_guarded⟩,
    ⟨OrderFree.keysCompatible, OrderFree.of_keysCompatible hret⟩⟩

/-- A block, a fault in it, and two more faults with the same key. -/
theorem compartmentsKept_iff_sameKey : ∃ h g',
    CompartmentsKept (AllocSiteHandler.init 0)
      [.hook (.alloc 0x1000#64 16 0 "entry" "make"), .fault 0x1008#64 1#32] h ∧
    OrderFree h [(0x1000#64, 1#32), (0x1008#64, 1#32)] g' := by
  obtain ⟨h₁, halloc, hnone⟩ : ∃ h₁, EventStep (AllocSiteHandler.init 0)
      (.hook (.alloc 0x1000#64 16 0 "entry" "make")) h₁ ∧ h₁.faultSet.elems = [] :=
    ⟨_, rfl, rfl⟩
  obtain ⟨h, hfault, h0⟩ : ∃ h, EventStep h₁ (.fault 0x1008#64 1#32) h ∧ h.allocSiteCount = 0 := by
    obtain rfl := Option.some_inj.1 halloc
    exact ⟨_, rfl, rfl⟩
  have hagree : KeysAgree h₁ (.fault 0x1008#64 1#32) := by
    intro a _ key hold
    rw [AllocSiteHandler.records, hnone] at hold
    exact absurd hold (by simp)
  have hrun := (Run.nil.snoc halloc).snoc hfault
  have hhook : KeysAgree (AllocSiteHandler.init 0)
      (.hook (.alloc 0x1000#64 16 0 "entry" "make")) := trivial
  have hguarded := (Run.nil.snoc
    (show Guarded KeysAgree EventStep _ _ _ from ⟨hhook, halloc⟩)).snoc ⟨hagree, hfault⟩
  have hcounted : ∀ f ∈ [(0x1000#64, 1#32), (0x1008#64, 1#32)], ∀ a ∈ h.faultedSites f.1,
      h.assertCounted a = some () := by
    intro f _ a _
    rw [AllocSiteHandler.assertCounted, h0]
    rfl
  obtain ⟨g', hret⟩ := (h.exists_addFaults_iff _).2 hcounted
  have hcompat : KeysCompatible h [(0x1000#64, 1#32), (0x1008#64, 1#32)] := by
    have hkey : ∀ f ∈ [((0x1000#64, 1#32) : RustPtr × BitVec 32), (0x1008#64, 1#32)],
        f.2 = 1#32 := by simp
    intro f hf g hg a _ b _ _ _
    rw [hkey f hf, hkey g hg]
  have hboth := compartmentsKept_iff 0 _ h hrun h _ g' hret
  exact ⟨h, g', hboth.1.2 hguarded, hboth.2.2 hcompat⟩

def faultedTwice : List Event :=
  [.hook (.alloc 0x1000#64 16 0 "entry" "make"), .fault 0x1008#64 1#32, .fault 0x1008#64 2#32]

/-- **The second key of a site is lost.** -/
theorem not_compartmentsKept : ¬ ∀ (allocSiteTotal : ℕ) (es : List Event) (h : AllocSiteHandler),
    Run EventStep (AllocSiteHandler.init allocSiteTotal) es h →
      CompartmentsKept (AllocSiteHandler.init allocSiteTotal) es h := by
  intro hall
  have hruns : ∀ es h, es.foldlM Event.run (AllocSiteHandler.init 0) = some h →
      Run EventStep (AllocSiteHandler.init 0) es h :=
    fun _ _ hes => Run.of_foldlM (fun _ _ _ hrun => hrun) hes
  obtain ⟨h, hend, hrec⟩ : ∃ h, faultedTwice.foldlM Event.run (AllocSiteHandler.init 0) = some h ∧
      h.faultSet.elems.map (fun s => (s.siteId, s.pkey)) = [(⟨0, "entry", "make"⟩, 1#32)] :=
    ⟨_, rfl, by decide⟩
  obtain ⟨h₁, hbefore, hsites⟩ : ∃ h₁,
      (faultedTwice.take 2).foldlM Event.run (AllocSiteHandler.init 0) = some h₁ ∧
        h₁.faultedSites 0x1008#64 = [⟨0x1000#64, 16, 0, "entry", "make", 0#32, false⟩] :=
    ⟨_, rfl, by decide⟩
  have hkept := hall 0 faultedTwice h (hruns _ _ hend) _ 0x1008#64 2#32 [] h₁ rfl
    (hruns _ _ hbefore) _ (hsites ▸ List.mem_singleton_self _)
  rw [AllocSiteHandler.records, Set.mem_ofPred_eq, hrec, List.mem_singleton] at hkept
  exact absurd hkept (by decide)

end Provsan
