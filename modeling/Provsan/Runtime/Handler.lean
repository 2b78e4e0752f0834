/-
**The allocation-site handler.**

The state behind `AllocSiteHandler` and its operations (`Runtime/alloc_site_handler.h`).  Every
operation runs under the mutex of the map it works on, so it is one atomic function on the state
here; an operation that ends in a failed assertion is `none`.  The counters kept for statistics are
left out, but not the assertions that guard them.

Main definitions:

* `Provsan.AllocSiteHandler` — the state;
* `Provsan.AllocSiteHandler.insertAllocSite`, `Provsan.AllocSiteHandler.removeAllocSite`,
  `Provsan.AllocSiteHandler.getAllocSite` — the map from addresses to sites;
* `Provsan.AllocSiteHandler.addFaultAlloc`, `Provsan.AllocSiteHandler.updateReallocChain` — the set
  of faulting sites, and the sites associated with a site through reallocations;
* `Provsan.AllocSiteHandler.storePendingPKeyInfo`, `Provsan.AllocSiteHandler.getAndRemove` — the
  saved rights of the threads that are stepping.

Main results:

* `Provsan.AllocSiteHandler.getAllocSite_cases` — what a lookup can return;
* `Provsan.AllocSiteHandler.getAllocSite_of_last` — it finds the last block below an address;
* `Provsan.AllocSiteHandler.addFaultAlloc_of_isValid`,
  `Provsan.AllocSiteHandler.addFaultAlloc_frame` — what a fault records, and that it changes nothing
  else.
-/

import Provsan.Lib.OrdMap
import Provsan.Lib.Unordered
import Provsan.Runtime.AllocSite

set_option relaxedAutoImplicit false
set_option autoImplicit false

namespace Provsan

/-- Thread ids are `pid_t` values. -/
abbrev ThreadId := Int32

/-- The key and the rights to restore after a single step. -/
structure PendingPKeyInfo where
  pkey : BitVec 32
  accessRights : BitVec 32
  deriving DecidableEq

/-- The state shared by all threads.  `allocSiteCount` is the global `AllocSiteCount`, set once
from `AllocSiteTotal` when the handler is built. -/
structure AllocSiteHandler where
  allocationMap : OrdMap RustPtr AllocSite
  faultSet : UnorderedSet AllocSite
  pkeyByTidMap : UnorderedMap ThreadId PendingPKeyInfo
  FM : UnorderedMap AllocSite (UnorderedSet AllocSite)
  allocSiteCount : ℕ
  deriving DecidableEq

namespace AllocSiteHandler

/-- The handler as `init` leaves it. -/
def init (allocSiteTotal : ℕ) : AllocSiteHandler where
  allocationMap := OrdMap.empty
  faultSet := UnorderedSet.empty
  pkeyByTidMap := UnorderedMap.empty
  FM := UnorderedMap.empty
  allocSiteCount := allocSiteTotal

/-! ### The map from addresses to sites -/

/-- `insertAllocSite`: `emplace` keeps an entry already stored at the address. -/
def insertAllocSite (h : AllocSiteHandler) (ptr : RustPtr) (site : AllocSite) :
    AllocSiteHandler :=
  { h with allocationMap := h.allocationMap.emplace ptr site }

def removeAllocSite (h : AllocSiteHandler) (ptr : RustPtr) : AllocSiteHandler :=
  { h with allocationMap := h.allocationMap.erase ptr }

/-- The test of `getAllocSite` on a node of the map that is no exact match. -/
def checkNode (h : AllocSiteHandler) (it : ℕ) (ptr : RustPtr) : AllocSite :=
  match h.allocationMap.deref it with
  | some (_, second) => if second.containsPtr ptr then second else AllocSite.error
  | none => AllocSite.error

/-- `getAllocSite`: an exact match for the address, or else the node before it. -/
def getAllocSite (h : AllocSiteHandler) (ptr : RustPtr) : AllocSite :=
  if h.allocationMap.isEmpty then AllocSite.error
  else
    let mapIter := h.allocationMap.lowerBound ptr
    -- at `begin()` there is no node before, and the first one is checked instead
    let prevIter := if mapIter ≠ 0 then mapIter - 1 else mapIter
    match h.allocationMap.deref mapIter with
    | some (first, second) => if first = ptr then second else h.checkNode prevIter ptr
    | none => h.checkNode prevIter ptr

/-! ### Faults and reallocation chains -/

/-- The assertion guarding the use counter of a site, which is active only when `AllocSiteTotal`
was not zero. -/
def assertCounted (h : AllocSiteHandler) (site : AllocSite) : Option Unit :=
  if h.allocSiteCount ≠ 0 then
    if 0 ≤ site.localID ∧ site.localID.toInt.toNat < h.allocSiteCount then some () else none
  else some ()

/-- One turn of the loop over the associated sites. -/
def addAssoc (pkey : BitVec 32) (h : AllocSiteHandler) (assoc : AllocSite) :
    Option AllocSiteHandler := do
  let h' := { h with faultSet := h.faultSet.insert (assoc.addPkey pkey) }
  h'.assertCounted assoc
  some h'

/-- What `addFaultAlloc` does after its lookup, which has found the site: record it, and the sites
associated with it. -/
def recordFault (h : AllocSiteHandler) (alloc : AllocSite) (pkey : BitVec 32) :
    Option AllocSiteHandler :=
  if alloc.isValid then do
    h.assertCounted alloc
    let alloc := alloc.addPkey pkey
    let h' := { h with faultSet := h.faultSet.insert alloc }
    match h'.FM.find alloc with
    | none => some h'
    | some chain => chain.elems.foldlM (addAssoc pkey) h'
  else some h

/-- `addFaultAlloc`: look the address up, and record what has been found. -/
def addFaultAlloc (h : AllocSiteHandler) (ptr : RustPtr) (pkey : BitVec 32) :
    Option AllocSiteHandler :=
  h.recordFault (h.getAllocSite ptr) pkey

/-- `updateReallocChain`: the chain of the old site and the old site itself become the chain of the
new one; `emplace` keeps a chain already stored for the new site. -/
def updateReallocChain (h : AllocSiteHandler) (oldAS newAS : AllocSite) : AllocSiteHandler :=
  match h.FM.find oldAS with
  | none => { h with FM := h.FM.emplace newAS (UnorderedSet.empty.insert oldAS) }
  | some reallocChain => { h with FM := h.FM.emplace newAS (reallocChain.insert oldAS) }

/-! ### Pending single steps -/

/-- `storePendingPKeyInfo`: `emplace` keeps an entry already stored for the thread. -/
def storePendingPKeyInfo (h : AllocSiteHandler) (threadID : ThreadId)
    (pkeyinfo : PendingPKeyInfo) : AllocSiteHandler :=
  { h with pkeyByTidMap := h.pkeyByTidMap.emplace threadID pkeyinfo }

def getAndRemove (h : AllocSiteHandler) (threadID : ThreadId) :
    Option PendingPKeyInfo × AllocSiteHandler :=
  match h.pkeyByTidMap.find threadID with
  | none => (none, h)
  | some retVal => (some retVal, { h with pkeyByTidMap := h.pkeyByTidMap.erase threadID })

/-! ### What a lookup returns -/

/-- On an address of the map the lookup returns the site stored there. -/
theorem getAllocSite_of_find {h : AllocSiteHandler} {ptr : RustPtr} {s : AllocSite}
    (hs : h.allocationMap.find ptr = some s) : h.getAllocSite ptr = s := by
  have hne : h.allocationMap.isEmpty = false := by
    cases he : h.allocationMap.entries with
    | nil => rw [OrdMap.find, he] at hs; simp at hs
    | cons e l => simp [OrdMap.isEmpty, he]
  simp [getAllocSite, hne, OrdMap.deref_lowerBound_of_find hs]

/-- Off the addresses of the map, the lookup is the test of the node before. -/
theorem getAllocSite_of_none {h : AllocSiteHandler} {ptr : RustPtr}
    (hnone : h.allocationMap.find ptr = none) (hne : h.allocationMap.isEmpty = false) :
    h.getAllocSite ptr =
      h.checkNode (if h.allocationMap.lowerBound ptr ≠ 0 then h.allocationMap.lowerBound ptr - 1
        else h.allocationMap.lowerBound ptr) ptr := by
  rw [getAllocSite, if_neg (by simp [hne])]
  dsimp only
  cases hd : h.allocationMap.deref (h.allocationMap.lowerBound ptr) with
  | none => rfl
  | some e =>
      obtain ⟨first, second⟩ := e
      have hfirst : first ≠ ptr := by
        rintro rfl
        exact OrdMap.find_eq_none.1 hnone second (OrdMap.mem_of_deref hd)
      simp only [hfirst, if_false]

/-- **What a lookup can return**: the error site, or a site of the map that is stored at the
address or contains it. -/
theorem getAllocSite_cases (h : AllocSiteHandler) (ptr : RustPtr) :
    h.getAllocSite ptr = AllocSite.error ∨
      ∃ k s, h.allocationMap.find k = some s ∧ h.getAllocSite ptr = s ∧
        (k = ptr ∨ s.containsPtr ptr = true) := by
  by_cases hempty : h.allocationMap.isEmpty = true
  · exact Or.inl (by simp [getAllocSite, hempty])
  · cases hf : h.allocationMap.find ptr with
    | some s => exact Or.inr ⟨ptr, s, hf, getAllocSite_of_find hf, Or.inl rfl⟩
    | none =>
        rw [getAllocSite_of_none hf (by simpa using hempty), checkNode]
        split
        · rename_i k s hd
          split_ifs with hc
          · exact Or.inr ⟨k, s, OrdMap.find_eq_some.2 (OrdMap.mem_of_deref hd), rfl, Or.inr hc⟩
          · exact Or.inl rfl
        · exact Or.inl rfl

/-- **The last block below an address is found**, when it contains the address. -/
theorem getAllocSite_of_last {h : AllocSiteHandler} {ptr k : RustPtr} {s : AllocSite}
    (hnone : h.allocationMap.find ptr = none) (hs : h.allocationMap.find k = some s)
    (hlt : k < ptr)
    (hlast : ∀ k' s', h.allocationMap.find k' = some s' → k' < ptr → k' ≤ k)
    (hc : s.containsPtr ptr = true) : h.getAllocSite ptr = s := by
  have hmem : (k, s) ∈ h.allocationMap.entries := OrdMap.find_eq_some.1 hs
  have hempty : h.allocationMap.isEmpty = false := by
    cases he : h.allocationMap.entries with
    | nil => rw [he] at hmem; simp at hmem
    | cons e l => simp [OrdMap.isEmpty, he]
  have hzero : h.allocationMap.lowerBound ptr ≠ 0 := fun h0 =>
    absurd hlt (not_lt.2 (OrdMap.lowerBound_eq_zero.1 h0 _ hmem))
  obtain ⟨⟨k', s'⟩, hd, hk', hmax⟩ := OrdMap.prev_lowerBound hzero
  have hfind' : h.allocationMap.find k' = some s' :=
    OrdMap.find_eq_some.2 (OrdMap.mem_of_deref hd)
  have hkk : k' = k := le_antisymm (hlast k' s' hfind' hk') (hmax _ hmem hlt)
  subst hkk
  obtain rfl : s' = s := Option.some_inj.1 (hfind'.symm.trans hs)
  rw [getAllocSite_of_none hnone hempty, if_pos hzero, checkNode, hd]
  simp [hc]

/-! ### What the other operations change -/

@[simp] theorem find_insertAllocSite (h : AllocSiteHandler) (ptr k : RustPtr) (s : AllocSite) :
    (h.insertAllocSite ptr s).allocationMap.find k =
      if k = ptr then some ((h.allocationMap.find ptr).getD s) else h.allocationMap.find k :=
  OrdMap.find_emplace ..

@[simp] theorem find_removeAllocSite (h : AllocSiteHandler) (ptr k : RustPtr) :
    (h.removeAllocSite ptr).allocationMap.find k =
      if k = ptr then none else h.allocationMap.find k :=
  OrdMap.find_erase ..

@[simp] theorem allocationMap_updateReallocChain (h : AllocSiteHandler) (oldAS newAS : AllocSite) :
    (h.updateReallocChain oldAS newAS).allocationMap = h.allocationMap := by
  rw [updateReallocChain]
  split <;> rfl

@[simp] theorem faultSet_updateReallocChain (h : AllocSiteHandler) (oldAS newAS : AllocSite) :
    (h.updateReallocChain oldAS newAS).faultSet = h.faultSet := by
  rw [updateReallocChain]
  split <;> rfl

/-- The sites recorded for a fault at a valid site: the site and its chain. -/
def chainOf (h : AllocSiteHandler) (s : AllocSite) : List AllocSite :=
  match h.FM.find s with
  | none => []
  | some chain => chain.elems

theorem mem_chainOf {h : AllocSiteHandler} {s a : AllocSite} :
    a ∈ h.chainOf s ↔ ∃ chain, h.FM.find s = some chain ∧ a ∈ chain.elems := by
  rw [chainOf]
  cases h.FM.find s <;> simp

/-- The chain stored for a new site, when none was stored before. -/
theorem find_FM_updateReallocChain (h : AllocSiteHandler) (oldAS newAS s : AllocSite) :
    (h.updateReallocChain oldAS newAS).FM.find s =
      if (newAS == s) = true then
        some ((h.FM.find newAS).getD
          (((h.FM.find oldAS).getD UnorderedSet.empty).insert oldAS))
      else h.FM.find s := by
  rw [updateReallocChain]
  cases hf : h.FM.find oldAS <;> simp only [UnorderedMap.find_emplace, Option.getD_none,
    Option.getD_some]

/-- **What a reallocation can put on a chain**: the old site, and what is on its chain. -/
theorem mem_chainOf_cases {h : AllocSiteHandler} {oldAS newAS s a : AllocSite}
    (ha : a ∈ (h.updateReallocChain oldAS newAS).chainOf s) : a ∈ h.chainOf s ∨
      (newAS == s) = true ∧ (a = oldAS ∨ a ∈ h.chainOf oldAS) := by
  obtain ⟨chain, hf, ha⟩ := mem_chainOf.1 ha
  rw [find_FM_updateReallocChain] at hf
  split_ifs at hf with hns
  · cases hnew : h.FM.find newAS with
    | some kept =>
        -- the chain stored before is kept
        rw [hnew, Option.getD_some] at hf
        obtain rfl := Option.some_inj.1 hf
        exact Or.inl (mem_chainOf.2 ⟨kept, (UnorderedMap.find_congr hns).symm.trans hnew, ha⟩)
    | none =>
        rw [hnew, Option.getD_none] at hf
        obtain rfl := Option.some_inj.1 hf
        rcases UnorderedSet.mem_insert.1 ha with hold | ⟨-, rfl⟩
        · cases hfo : h.FM.find oldAS with
          | none =>
              rw [hfo, Option.getD_none] at hold
              exact absurd hold (by simp [UnorderedSet.empty])
          | some old =>
              rw [hfo, Option.getD_some] at hold
              exact Or.inr ⟨hns, Or.inr (mem_chainOf.2 ⟨old, hfo, hold⟩)⟩
        · exact Or.inr ⟨hns, Or.inl rfl⟩
  · exact Or.inl (mem_chainOf.2 ⟨chain, hf, ha⟩)

/-- The loop over the associated sites changes the fault set only. -/
theorem foldlM_addAssoc {pkey : BitVec 32} {l : List AllocSite} {h h' : AllocSiteHandler}
    (he : l.foldlM (addAssoc pkey) h = some h') :
    h' = { h with faultSet := l.foldl (fun t a => t.insert (a.addPkey pkey)) h.faultSet } := by
  induction l generalizing h with
  | nil => exact (Option.some_inj.1 he).symm
  | cons a l ih =>
      rw [List.foldlM_cons] at he
      obtain ⟨h₁, h₁e, hrest⟩ := Option.bind_eq_some_iff.1 he
      obtain ⟨-, -, hh₁⟩ := Option.bind_eq_some_iff.1 h₁e
      rw [ih hrest, ← Option.some_inj.1 hh₁, List.foldl_cons]

/-- A fault without a valid site changes nothing. -/
theorem recordFault_of_not_isValid {h : AllocSiteHandler} {alloc : AllocSite} (pkey : BitVec 32)
    (hv : alloc.isValid = false) : h.recordFault alloc pkey = some h := by
  rw [recordFault, if_neg (by simp [hv])]

theorem addFaultAlloc_of_not_isValid {h : AllocSiteHandler} {ptr : RustPtr} (pkey : BitVec 32)
    (hv : (h.getAllocSite ptr).isValid = false) : h.addFaultAlloc ptr pkey = some h := by
  rw [addFaultAlloc, recordFault_of_not_isValid pkey hv]

/-- **What a fault records**: the site that the lookup has found, when it is valid, and its chain,
one after the other and all with the key of the fault. -/
theorem recordFault_of_isValid {h h' : AllocSiteHandler} {alloc : AllocSite} {pkey : BitVec 32}
    (he : h.recordFault alloc pkey = some h') (hv : alloc.isValid = true) :
    h' = { h with
      faultSet := (alloc :: h.chainOf alloc).foldl (fun t a => t.insert (a.addPkey pkey))
        h.faultSet } := by
  rw [recordFault, if_pos hv] at he
  obtain ⟨-, -, he⟩ := Option.bind_eq_some_iff.1 he
  dsimp only at he
  rw [UnorderedMap.find_congr (AllocSite.addPkey_beq _ pkey)] at he
  rw [chainOf, List.foldl_cons]
  cases hf : h.FM.find alloc with
  | none =>
      rw [hf] at he
      exact (Option.some_inj.1 he).symm
  | some chain =>
      rw [hf] at he
      exact foldlM_addAssoc he

theorem addFaultAlloc_of_isValid {h h' : AllocSiteHandler} {ptr : RustPtr} {pkey : BitVec 32}
    (he : h.addFaultAlloc ptr pkey = some h') (hv : (h.getAllocSite ptr).isValid = true) :
    h' = { h with
      faultSet := (h.getAllocSite ptr :: h.chainOf (h.getAllocSite ptr)).foldl
        (fun t a => t.insert (a.addPkey pkey)) h.faultSet } :=
  recordFault_of_isValid he hv

/-- **What a fault changes**: nothing but the fault set. -/
theorem recordFault_frame {h h' : AllocSiteHandler} {alloc : AllocSite} {pkey : BitVec 32}
    (he : h.recordFault alloc pkey = some h') : h' = { h with faultSet := h'.faultSet } := by
  cases hv : alloc.isValid with
  | true => rw [recordFault_of_isValid he hv]
  | false =>
      rw [recordFault_of_not_isValid pkey hv] at he
      rw [← Option.some_inj.1 he]

theorem addFaultAlloc_frame {h h' : AllocSiteHandler} {ptr : RustPtr} {pkey : BitVec 32}
    (he : h.addFaultAlloc ptr pkey = some h') : h' = { h with faultSet := h'.faultSet } :=
  recordFault_frame he

/-- What is recorded after a fault, up to the equality of sites. -/
theorem contains_recordFault {h h' : AllocSiteHandler} {alloc : AllocSite} {pkey : BitVec 32}
    (he : h.recordFault alloc pkey = some h') (hv : alloc.isValid = true) (s : AllocSite) :
    h'.faultSet.contains s = true ↔ h.faultSet.contains s = true ∨ (alloc == s) = true ∨
      ∃ a ∈ h.chainOf alloc, (a == s) = true := by
  have hkey : ∀ a b : AllocSite, (a.addPkey pkey == b) = (a == b) := fun a b => by
    rw [Bool.eq_iff_iff, AllocSite.beq_iff, AllocSite.beq_iff, AllocSite.siteId_addPkey]
  rw [recordFault_of_isValid he hv]
  dsimp only
  rw [UnorderedSet.contains_foldl_insert]
  simp only [hkey, List.mem_cons, exists_eq_or_imp]

theorem contains_addFaultAlloc {h h' : AllocSiteHandler} {ptr : RustPtr} {pkey : BitVec 32}
    (he : h.addFaultAlloc ptr pkey = some h') (hv : (h.getAllocSite ptr).isValid = true)
    (s : AllocSite) :
    h'.faultSet.contains s = true ↔ h.faultSet.contains s = true ∨
      (h.getAllocSite ptr == s) = true ∨
        ∃ a ∈ h.chainOf (h.getAllocSite ptr), (a == s) = true :=
  contains_recordFault he hv s

/-- With no site total the assertions are off, so that a fault is always recorded. -/
theorem exists_addFaultAlloc {h : AllocSiteHandler} (h0 : h.allocSiteCount = 0) (ptr : RustPtr)
    (pkey : BitVec 32) : ∃ h', h.addFaultAlloc ptr pkey = some h' := by
  have hfold : ∀ (l : List AllocSite) (g : AllocSiteHandler), g.allocSiteCount = 0 →
      ∃ g', l.foldlM (addAssoc pkey) g = some g' := by
    intro l
    induction l with
    | nil => exact fun g _ => ⟨g, rfl⟩
    | cons a l ih =>
        intro g hg
        obtain ⟨g', hg'⟩ := ih { g with faultSet := g.faultSet.insert (a.addPkey pkey) } hg
        exact ⟨g', by simpa [List.foldlM_cons, addAssoc, assertCounted, hg] using hg'⟩
  rw [addFaultAlloc, recordFault]
  by_cases hv : (h.getAllocSite ptr).isValid = true
  · rw [if_pos hv]
    simp only [assertCounted, h0, ne_eq, not_true_eq_false, if_false, Option.bind_eq_bind,
      Option.bind_some]
    cases hf : h.FM.find ((h.getAllocSite ptr).addPkey pkey) with
    | none => exact ⟨_, rfl⟩
    | some chain => exact hfold chain.elems _ rfl
  · rw [if_neg hv]
    exact ⟨h, rfl⟩

end AllocSiteHandler

end Provsan
