/-
**Lookups after arbitrary calls.**

`Runtime/Tracking.lean` looks at the hook calls of a well-formed allocator.  The hooks can also be
called in any other order: blocks may nest, when a pool and the allocator behind it are both hooked,
and an entry may be left over from a block whose release was not.  This module says what lookups
return then.  A block inside another one hides the rest of it (`Provsan.lookupAgrees_iff`); an entry
left at an address keeps the next one out (`Provsan.newestStored_iff`); and the hook of an
allocation that failed ends the process (`Provsan.not_leavesIntact`).

Main definitions:

* `Provsan.HookStep`, `Provsan.HookCall.NoWrap` — calls that return, and calls whose block does not
  wrap;
* `Provsan.Covered`, `Provsan.LookupAgrees`, `Provsan.Exposed` — lookups against a scan of the map;
* `Provsan.NewestStored`, `Provsan.NoStaleEntry` — lookups against the call just made;
* `Provsan.HookCall.Failed`, `Provsan.LeavesIntact` — calls for an allocation that failed.

Main results:

* `Provsan.entries_of_run` — what every entry of the map is, after any sequence of calls;
* `Provsan.lookupAgrees_iff`, `Provsan.newestStored_iff`, `Provsan.not_leavesIntact`.
-/

import Provsan.Lib.Run
import Provsan.Runtime.Hooks

set_option relaxedAutoImplicit false
set_option autoImplicit false

namespace Provsan

/-! ### Sequences of calls -/

/-- A hook call that returns. -/
def HookStep (h : AllocSiteHandler) (c : HookCall) (h' : AllocSiteHandler) : Prop :=
  c.run h = some h'

/-- The block that a call announces does not wrap around the address space. -/
def HookCall.NoWrap (c : HookCall) : Prop :=
  ∀ b ∈ c.newBlock, b.1.toNat + b.2.1.toInt.toNat < 2 ^ 64

instance : DecidablePred HookCall.NoWrap := fun c =>
  inferInstanceAs (Decidable (∀ b ∈ c.newBlock, b.1.toNat + b.2.1.toInt.toNat < 2 ^ 64))

/-- **Every entry of the map was built from the data of a call**, under the pointer of that
call. -/
theorem entries_of_run {allocSiteTotal : ℕ} {C : AllocSiteHandler → HookCall → Prop}
    {calls : List HookCall} {h : AllocSiteHandler}
    (hrun : Run (Guarded C HookStep) (AllocSiteHandler.init allocSiteTotal) calls h)
    {k : RustPtr} {s : AllocSite} (hf : h.allocationMap.find k = some s) :
    ∃ g c size site, C g c ∧ c.newBlock = some (k, size, site) ∧ s.BuiltFrom k size site := by
  induction hrun with
  | nil => exact absurd hf (by simp [AllocSiteHandler.init])
  | @snoc cs g g' c _ hstep ih =>
      rcases HookCall.find_of_run hstep.2 hf with hold | ⟨size, site, hnew, hbuilt⟩
      · exact ih hold
      · exact ⟨g, c, size, site, hstep.1, hnew, hbuilt⟩

/-- The entries of a map are valid, and each is stored under its own pointer. -/
def Stored (m : OrdMap RustPtr AllocSite) : Prop :=
  ∀ k s, m.find k = some s → s.ptr = k ∧ s.isValid = true

/-- No entry of the map wraps around the address space. -/
def Unwrapped (m : OrdMap RustPtr AllocSite) : Prop :=
  ∀ k s, m.find k = some s → k.toNat + s.size.toInt.toNat < 2 ^ 64

theorem stored_of_run {allocSiteTotal : ℕ} {C : AllocSiteHandler → HookCall → Prop}
    {calls : List HookCall} {h : AllocSiteHandler}
    (hrun : Run (Guarded C HookStep) (AllocSiteHandler.init allocSiteTotal) calls h) :
    Stored h.allocationMap := by
  intro k s hf
  obtain ⟨_, _, _, _, _, _, hbuilt⟩ := entries_of_run hrun hf
  exact ⟨hbuilt.ptr_eq, hbuilt.isValid⟩

theorem unwrapped_of_run {allocSiteTotal : ℕ} {calls : List HookCall} {h : AllocSiteHandler}
    (hrun : Run (Guarded (fun _ c => c.NoWrap) HookStep) (AllocSiteHandler.init allocSiteTotal)
      calls h) :
    Unwrapped h.allocationMap := by
  intro k s hf
  obtain ⟨_, c, size, site, hwrap, hnew, hbuilt⟩ := entries_of_run hrun hf
  rw [hbuilt.size_eq]
  exact hwrap _ hnew

/-! ### Lookups against a scan -/

/-- Some entry of the map contains the address. -/
def Covered (m : OrdMap RustPtr AllocSite) (p : RustPtr) : Prop :=
  ∃ k s, m.find k = some s ∧ s.containsPtr p = true

/-- The lookup agrees with a scan of all entries. -/
structure LookupAgrees (h : AllocSiteHandler) (p : RustPtr) : Prop where
  isValid_iff : (h.getAllocSite p).isValid = true ↔ Covered h.allocationMap p
  contains : (h.getAllocSite p).isValid = true → (h.getAllocSite p).containsPtr p = true

/-- An entry is the last one that begins at an address or below. -/
structure LastUpTo (m : OrdMap RustPtr AllocSite) (p k : RustPtr) (s : AllocSite) : Prop where
  find : m.find k = some s
  le : k ≤ p
  last : ∀ k' s', m.find k' = some s' → k' ≤ p → k' ≤ k

/-- **What the map must meet for the lookup to be right**: when some entry contains the address, so
does the last one that begins at it or below. -/
def Exposed (m : OrdMap RustPtr AllocSite) (p : RustPtr) : Prop :=
  Covered m p → ∀ k s, LastUpTo m p k s → s.containsPtr p = true

/-- In a map whose entries do not wrap, containing an address is lying around it. -/
theorem containsPtr_iff_of_stored {m : OrdMap RustPtr AllocSite} (hst : Stored m)
    (hun : Unwrapped m) {k : RustPtr} {s : AllocSite} (hf : m.find k = some s) (p : RustPtr) :
    s.containsPtr p = true ↔ k.toNat ≤ p.toNat ∧ p.toNat < k.toNat + s.size.toInt.toNat := by
  obtain ⟨rfl, hv⟩ := hst k s hf
  exact AllocSite.containsPtr_iff (AllocSite.isValid_iff.1 hv).2.1 (hun _ s hf) p

/-- An entry contains its own pointer. -/
theorem containsPtr_self {m : OrdMap RustPtr AllocSite} (hst : Stored m) (hun : Unwrapped m)
    {k : RustPtr} {s : AllocSite} (hf : m.find k = some s) : s.containsPtr k = true := by
  have hpos : 0 < s.size.toInt := by
    simpa using Int64.lt_iff_toInt_lt.1 (AllocSite.isValid_iff.1 (hst k s hf).2).2.1
  rw [containsPtr_iff_of_stored hst hun hf]
  omega

/-- Below or at an address that an entry begins at or below, there is a last entry. -/
theorem exists_lastUpTo {m : OrdMap RustPtr AllocSite} {p k₀ : RustPtr} {s₀ : AllocSite}
    (hf : m.find k₀ = some s₀) (hle : k₀ ≤ p) : ∃ k s, LastUpTo m p k s := by
  cases hp : m.find p with
  | some s => exact ⟨p, s, hp, le_refl p, fun _ _ _ h => h⟩
  | none =>
      have hlt : ∀ {k s}, m.find k = some s → k ≤ p → k < p := by
        intro k s hk hkp
        refine lt_of_le_of_ne hkp ?_
        rintro rfl
        rw [hp] at hk
        exact absurd hk (by simp)
      have hzero : m.lowerBound p ≠ 0 := fun h0 =>
        absurd (hlt hf hle) (not_lt.2 (OrdMap.lowerBound_eq_zero.1 h0 _ (OrdMap.find_eq_some.1 hf)))
      obtain ⟨⟨k, s⟩, hd, hk, hmax⟩ := OrdMap.prev_lowerBound hzero
      refine ⟨k, s, OrdMap.find_eq_some.2 (OrdMap.mem_of_deref hd), le_of_lt hk, ?_⟩
      intro k' s' hk' hle'
      exact hmax _ (OrdMap.find_eq_some.1 hk') (hlt hk' hle')

/-- **The lookup examines the last entry that begins at the address or below**, and no other. -/
theorem getAllocSite_of_lastUpTo {h : AllocSiteHandler} (hst : Stored h.allocationMap)
    (hun : Unwrapped h.allocationMap) {p k : RustPtr} {s : AllocSite}
    (hlast : LastUpTo h.allocationMap p k s) :
    h.getAllocSite p = if s.containsPtr p = true then s else AllocSite.error := by
  rcases eq_or_lt_of_le hlast.le with rfl | hlt
  · rw [if_pos (containsPtr_self hst hun hlast.find),
      AllocSiteHandler.getAllocSite_of_find hlast.find]
  · have hmem := OrdMap.find_eq_some.1 hlast.find
    have hnone : h.allocationMap.find p = none := by
      cases hp : h.allocationMap.find p with
      | none => rfl
      | some t => exact absurd (hlast.last p t hp (le_refl p)) (not_le.2 hlt)
    have hempty : h.allocationMap.isEmpty = false := by
      cases he : h.allocationMap.entries with
      | nil => rw [he] at hmem; exact absurd hmem (by simp)
      | cons e l => simp [OrdMap.isEmpty, he]
    have hzero : h.allocationMap.lowerBound p ≠ 0 := fun h0 =>
      absurd hlt (not_lt.2 (OrdMap.lowerBound_eq_zero.1 h0 _ hmem))
    -- the node before the iterator is that entry
    obtain ⟨⟨k', s'⟩, hd, hlt', hmax⟩ := OrdMap.prev_lowerBound hzero
    have hf' : h.allocationMap.find k' = some s' := OrdMap.find_eq_some.2 (OrdMap.mem_of_deref hd)
    have hk : k' = k := le_antisymm (hlast.last k' s' hf' hlt'.le) (hmax _ hmem hlt)
    subst hk
    obtain rfl : s' = s := Option.some_inj.1 (hf'.symm.trans hlast.find)
    rw [AllocSiteHandler.getAllocSite_of_none hnone hempty, if_pos hzero,
      AllocSiteHandler.checkNode, hd]

/-- What a lookup returns is the error site, or the last entry that begins at the address or
below. -/
theorem getAllocSite_eq_error_or_lastUpTo {h : AllocSiteHandler} (hst : Stored h.allocationMap)
    (hun : Unwrapped h.allocationMap) (p : RustPtr) :
    h.getAllocSite p = AllocSite.error ∨
      ∃ k, LastUpTo h.allocationMap p k (h.getAllocSite p) ∧
        (h.getAllocSite p).containsPtr p = true := by
  rcases h.getAllocSite_cases p with herr | ⟨k, s, hf, -, hor⟩
  · exact Or.inl herr
  · have hc : s.containsPtr p = true := by
      rcases hor with rfl | hc
      · exact containsPtr_self hst hun hf
      · exact hc
    have hle : k ≤ p := BitVec.le_def.2 ((containsPtr_iff_of_stored hst hun hf p).1 hc).1
    obtain ⟨k', s', hlast⟩ := exists_lastUpTo hf hle
    rw [getAllocSite_of_lastUpTo hst hun hlast]
    split_ifs with hc'
    · exact Or.inr ⟨k', hlast, hc'⟩
    · exact Or.inl rfl

/-- **The lookup agrees with a scan exactly when the address is exposed**: after every sequence of
calls that return and announce blocks that do not wrap. -/
theorem lookupAgrees_iff (allocSiteTotal : ℕ) (calls : List HookCall) (h : AllocSiteHandler)
    (hrun : Run (Guarded (fun _ c => c.NoWrap) HookStep) (AllocSiteHandler.init allocSiteTotal)
      calls h)
    (p : RustPtr) : LookupAgrees h p ↔ Exposed h.allocationMap p := by
  have hst := stored_of_run hrun
  have hun := unwrapped_of_run hrun
  constructor
  · rintro hagree hcov k s hlast
    have hv := hagree.isValid_iff.2 hcov
    rcases getAllocSite_eq_error_or_lastUpTo hst hun p with herr | ⟨k', hlast', hc⟩
    · rw [herr] at hv
      exact absurd hv (by simp)
    · have hk : k' = k := le_antisymm (hlast.last k' _ hlast'.find hlast'.le)
        (hlast'.last k s hlast.find hlast.le)
      subst hk
      rwa [Option.some_inj.1 (hlast'.find.symm.trans hlast.find)] at hc
  · intro hexp
    have hcontains : (h.getAllocSite p).isValid = true →
        ∃ k, h.allocationMap.find k = some (h.getAllocSite p) ∧
          (h.getAllocSite p).containsPtr p = true := by
      intro hv
      rcases getAllocSite_eq_error_or_lastUpTo hst hun p with herr | ⟨k, hlast, hc⟩
      · rw [herr] at hv
        exact absurd hv (by simp)
      · exact ⟨k, hlast.find, hc⟩
    refine ⟨⟨fun hv => ?_, fun hcov => ?_⟩, fun hv => ?_⟩
    · obtain ⟨k, hf, hc⟩ := hcontains hv
      exact ⟨k, _, hf, hc⟩
    · obtain ⟨k₀, s₀, hf₀, hc₀⟩ := hcov
      have hle : k₀ ≤ p := BitVec.le_def.2 ((containsPtr_iff_of_stored hst hun hf₀ p).1 hc₀).1
      obtain ⟨k, s, hlast⟩ := exists_lastUpTo hf₀ hle
      rw [getAllocSite_of_lastUpTo hst hun hlast, if_pos (hexp ⟨k₀, s₀, hf₀, hc₀⟩ k s hlast)]
      exact (hst k s hlast.find).2
    · obtain ⟨-, -, hc⟩ := hcontains hv
      exact hc

/-- A block of a pool allocator, and a smaller one handed out of it. -/
def nestedCalls : List HookCall :=
  [.alloc 0x1000#64 0x1000 0 "entry" "grow", .alloc 0x1100#64 16 0 "entry" "take"]

theorem run_of_calls {allocSiteTotal : ℕ} {calls : List HookCall} {h : AllocSiteHandler}
    (hcalls : calls.foldlM (fun h c => HookCall.run c h) (AllocSiteHandler.init allocSiteTotal) =
      some h) : Run HookStep (AllocSiteHandler.init allocSiteTotal) calls h :=
  Run.of_foldlM (fun _ _ _ hrun => hrun) hcalls

theorem lookupAgrees_iff_nested : ∃ h, nestedCalls.foldlM (fun h c => HookCall.run c h)
    (AllocSiteHandler.init 0) = some h ∧
      (LookupAgrees h 0x1108#64 ↔ Exposed h.allocationMap 0x1108#64) :=
  ⟨_, rfl, lookupAgrees_iff 0 nestedCalls _
    ((run_of_calls rfl).guarded (C := HookCall.NoWrap) (by decide)) _⟩

/-- **A scan can find what the lookup does not**: a block inside another one hides what comes after
it. -/
theorem not_lookupAgrees : ¬ ∀ (allocSiteTotal : ℕ) (calls : List HookCall) (h : AllocSiteHandler),
    Run (Guarded (fun _ c => c.NoWrap) HookStep) (AllocSiteHandler.init allocSiteTotal) calls h →
      ∀ p, LookupAgrees h p := by
  intro hall
  obtain ⟨h, hcalls⟩ : ∃ h, nestedCalls.foldlM (fun h c => HookCall.run c h)
    (AllocSiteHandler.init 0) = some h := ⟨_, rfl⟩
  have hagree := hall 0 nestedCalls h
    ((run_of_calls hcalls).guarded (C := HookCall.NoWrap) (by decide)) 0x1200#64
  have houter : (nestedCalls.foldlM (fun h c => HookCall.run c h) (AllocSiteHandler.init 0)).map
      (fun h => (h.allocationMap.find 0x1000#64, (h.getAllocSite 0x1200#64).isValid)) =
        some (some ⟨0x1000#64, 0x1000, 0, "entry", "grow", 0#32, false⟩, false) := by decide
  rw [hcalls, Option.map_some, Option.some_inj, Prod.mk.injEq] at houter
  have hv := hagree.isValid_iff.2 ⟨_, _, houter.1, by decide⟩
  rw [houter.2] at hv
  exact absurd hv (by simp)

/-! ### Lookups of the newest block -/

/-- The lookup of the pointer that a call announces gives the data of the call. -/
def NewestStored (c : HookCall) (h' : AllocSiteHandler) : Prop :=
  ∀ b ∈ c.newBlock, (h'.getAllocSite b.1).size = b.2.1 ∧ (h'.getAllocSite b.1).siteId = b.2.2

/-- **What a call must meet for its block to be the one that is found**: the entry stored under the
pointer before the call, if there is one, has the data of the call already, or it is the one that
the call takes away. -/
def NoStaleEntry (h : AllocSiteHandler) (c : HookCall) : Prop :=
  ∀ b ∈ c.newBlock, c.oldPtr = some b.1 ∨
    ∀ s, h.allocationMap.find b.1 = some s → s.size = b.2.1 ∧ s.siteId = b.2.2

/-- What is found under a pointer once a site has been inserted there. -/
theorem getAllocSite_insertAllocSite (h : AllocSiteHandler) (ptr : RustPtr) (t : AllocSite) :
    (h.insertAllocSite ptr t).getAllocSite ptr = (h.allocationMap.find ptr).getD t := by
  refine AllocSiteHandler.getAllocSite_of_find ?_
  rw [AllocSiteHandler.find_insertAllocSite, if_pos rfl]

/-- An insertion gives the new data exactly when no other data was stored. -/
theorem getD_builtFrom_iff {o : Option AllocSite} {t : AllocSite} {ptr : RustPtr} {size : Int64}
    {site : SiteId} (ht : t.BuiltFrom ptr size site) :
    ((o.getD t).size = size ∧ (o.getD t).siteId = site) ↔
      ∀ s, o = some s → s.size = size ∧ s.siteId = site := by
  cases o with
  | none => exact ⟨fun _ s hs => absurd hs (by simp), fun _ => ⟨ht.size_eq, ht.siteId_eq⟩⟩
  | some u => exact ⟨fun hu s hs => Option.some_inj.1 hs ▸ hu, fun hall => hall u rfl⟩

/-- **The newest block is found exactly when no stale entry is in its way**, in every state that any
sequence of calls can reach. -/
theorem newestStored_iff (allocSiteTotal : ℕ) (calls : List HookCall) (h h' : AllocSiteHandler)
    (c : HookCall) (hrun : Run HookStep (AllocSiteHandler.init allocSiteTotal) calls h)
    (hcall : c.run h = some h') : NewestStored c h' ↔ NoStaleEntry h c := by
  have hst : Stored h.allocationMap :=
    stored_of_run (C := fun _ _ => True) (hrun.mono fun _ _ _ hstep => ⟨trivial, hstep⟩)
  unfold NewestStored NoStaleEntry
  cases HookCall.run_eq_some.1 hcall with
  | alloc hs =>
      simp only [HookCall.newBlock, HookCall.oldPtr, Option.mem_some_iff, forall_eq', reduceCtorEq,
        false_or, getAllocSite_insertAllocSite]
      exact getD_builtFrom_iff (AllocSite.builtFrom_of_create hs)
  | @reallocFresh newPtr oldPtr newSize oldSize localID bbName funcName s hv hs =>
      simp only [HookCall.newBlock, HookCall.oldPtr, Option.mem_some_iff, forall_eq',
        Option.some_inj, getAllocSite_insertAllocSite]
      rw [getD_builtFrom_iff (AllocSite.builtFrom_of_create hs)]
      refine ⟨Or.inr, ?_⟩
      rintro (rfl | hold)
      · -- an entry under the old pointer would be valid
        intro t ht
        rw [AllocSiteHandler.getAllocSite_of_find ht, (hst _ t ht).2] at hv
        exact absurd hv (by simp)
      · exact hold
  | @realloc newPtr oldPtr newSize oldSize localID bbName funcName s hv hs =>
      simp only [HookCall.newBlock, HookCall.oldPtr, Option.mem_some_iff, forall_eq',
        Option.some_inj, getAllocSite_insertAllocSite, AllocSiteHandler.find_removeAllocSite,
        AllocSiteHandler.allocationMap_updateReallocChain]
      rw [getD_builtFrom_iff (AllocSite.builtFrom_of_create hs)]
      by_cases hptr : newPtr = oldPtr
      · simp [hptr]
      · simp [hptr, Ne.symm hptr]
  | dealloc ptr size localID => simp [HookCall.newBlock]

/-- A block whose release is not hooked, and the next one at its address. -/
def reusedCalls : List HookCall := [.alloc 0x1000#64 16 0 "entry" "make"]

theorem newestStored_iff_reused : ∃ h h', reusedCalls.foldlM (fun h c => HookCall.run c h)
    (AllocSiteHandler.init 0) = some h ∧
      (HookCall.alloc 0x2000#64 32 1 "entry" "make").run h = some h' ∧
      (NewestStored (.alloc 0x2000#64 32 1 "entry" "make") h' ↔
        NoStaleEntry h (.alloc 0x2000#64 32 1 "entry" "make")) :=
  ⟨_, _, rfl, rfl, newestStored_iff 0 reusedCalls _ _ _ (run_of_calls rfl) rfl⟩

/-- **The newest block is not always the one that is found**: an entry left at its address stays. -/
theorem not_newestStored : ¬ ∀ (allocSiteTotal : ℕ) (calls : List HookCall)
    (h h' : AllocSiteHandler) (c : HookCall),
    Run HookStep (AllocSiteHandler.init allocSiteTotal) calls h → c.run h = some h' →
      NewestStored c h' := by
  intro hall
  obtain ⟨h, hcalls⟩ : ∃ h, reusedCalls.foldlM (fun h c => HookCall.run c h)
    (AllocSiteHandler.init 0) = some h := ⟨_, rfl⟩
  obtain ⟨h', hcall⟩ : ∃ h', (HookCall.alloc 0x1000#64 32 1 "entry" "make").run h = some h' :=
    ⟨_, rfl⟩
  have hnew := hall 0 reusedCalls h h' _ (run_of_calls hcalls) hcall _ rfl
  have hfound : ((reusedCalls.foldlM (fun h c => HookCall.run c h) (AllocSiteHandler.init 0)).bind
      (HookCall.alloc 0x1000#64 32 1 "entry" "make").run).map
        (fun h' => (h'.getAllocSite 0x1000#64).size) = some 16 := by decide
  rw [hcalls, Option.bind_some, hcall, Option.map_some, Option.some_inj] at hfound
  exact absurd (hfound.symm.trans hnew.1) (by decide)

/-! ### Allocations that fail -/

/-- The hook call of an allocation or reallocation that returned `NULL`. -/
def HookCall.Failed (c : HookCall) : Prop := ∃ size site, c.newBlock = some (0#64, size, site)

/-- The call returns and leaves the state of the tracking as it was; so every address still leads to
the site it led to. -/
def LeavesIntact (c : HookCall) (h : AllocSiteHandler) : Prop :=
  ∃ h', c.run h = some h' ∧ h'.allocationMap = h.allocationMap ∧ h'.FM = h.FM ∧
    h'.faultSet = h.faultSet ∧ ∀ p, h'.getAllocSite p = h.getAllocSite p

/-- The assertion of the constructor ends the process: a call that returns announces a block with a
pointer. -/
theorem HookCall.run_of_failed {c : HookCall} (hfail : c.Failed) (h : AllocSiteHandler) :
    c.run h = none := by
  obtain ⟨size, site, hnew⟩ := hfail
  have hcreate : ∀ (n i : Int64) (bb fn : String) (k : BitVec 32) (r : Bool),
      AllocSite.create 0#64 n i bb fn k r = none := fun _ _ _ _ _ _ => if_neg (by simp)
  cases c with
  | alloc ptr size localID bbName funcName =>
      obtain ⟨rfl, -⟩ := Prod.mk.inj (Option.some_inj.1 hnew)
      simp [HookCall.run, allocHook, hcreate]
  | realloc newPtr newSize oldPtr oldSize localID bbName funcName =>
      obtain ⟨rfl, -⟩ := Prod.mk.inj (Option.some_inj.1 hnew)
      simp [HookCall.run, reallocHook, hcreate]
  | dealloc ptr size localID => exact absurd hnew (by simp [HookCall.newBlock])

/-- **The hook of a failed allocation never leaves the state intact**, because it never returns. -/
theorem not_leavesIntact (h : AllocSiteHandler) (c : HookCall) (hfail : c.Failed) :
    ¬ LeavesIntact c h := by
  rintro ⟨h', hrun, -⟩
  rw [HookCall.run_of_failed hfail h] at hrun
  exact absurd hrun (by simp)

theorem not_leavesIntact_alloc :
    ¬ LeavesIntact (.alloc 0#64 16 0 "entry" "make") (AllocSiteHandler.init 0) :=
  not_leavesIntact _ _ ⟨_, _, rfl⟩

/-- **A failed allocation is not harmless**: here a reallocation, in a state with a live block. -/
theorem not_all_leaveIntact : ¬ ∀ (allocSiteTotal : ℕ) (calls : List HookCall)
    (h : AllocSiteHandler) (c : HookCall),
    Run HookStep (AllocSiteHandler.init allocSiteTotal) calls h → c.Failed → LeavesIntact c h := by
  intro hall
  obtain ⟨h', hrun, -⟩ := hall 0 reusedCalls _ (.realloc 0#64 32 0x1000#64 16 1 "entry" "make")
    (run_of_calls rfl) ⟨_, _, rfl⟩
  have hnone : (reusedCalls.foldlM (fun h c => HookCall.run c h) (AllocSiteHandler.init 0)).bind
      (HookCall.realloc 0#64 32 0x1000#64 16 1 "entry" "make").run = none := by decide
  exact absurd (hrun.symm.trans hnone) (by simp)

end Provsan
