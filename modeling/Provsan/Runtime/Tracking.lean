/-
**Tracking of heap blocks.**

What the handler is for: at every moment it knows the blocks that are live, and for an address it
names the block the address lies in.  The live blocks are described here on their own, together
with what an allocator may do to them (`Provsan.AllocStep`); the handler *tracks* a set of blocks
when its map holds exactly their sites, each under its base (`Provsan.Tracks`).  The hooks keep
that relation, and under it the two nodes a lookup examines are enough.

Main definitions:

* `Provsan.Block` — a live block with the sites it went through, `Provsan.Block.addrs`;
* `Provsan.AllocStep` — the hook calls a well-formed allocator can produce;
* `Provsan.Describes`, `Provsan.Tracks` — a site describes a block, a map tracks a set of blocks.

Main results:

* `Provsan.Tracks.getAllocSite_of_mem`, `Provsan.Tracks.getAllocSite_of_forall_notMem` — lookups;
* `Provsan.Tracks.exists_run` — **every hook keeps the tracking**;
* `Provsan.getAllocSite_exact` — after every sequence of hook calls, lookups are exact.
-/

import Provsan.Lib.Run
import Provsan.Runtime.Hooks
import Mathlib.Data.Set.BooleanAlgebra
import Mathlib.Data.Set.Pairwise.Basic
import Mathlib.Order.CompletePartialOrder

set_option relaxedAutoImplicit false
set_option autoImplicit false

namespace Provsan

/-! ### Blocks and allocators -/

/-- A live block.  `site` is the site of the operation that created it, and `earlier` lists the
sites the block went through before, the latest first: it is empty for a fresh allocation and grows
with each reallocation. -/
structure Block where
  base : RustPtr
  size : Int64
  site : SiteId
  earlier : List SiteId
  base_ne : base ≠ 0#64
  size_pos : 0 < size
  id_nonneg : 0 ≤ site.localID
  noWrap : base.toNat + size.toInt.toNat < 2 ^ 64

namespace Block

/-- The addresses of a block. -/
def addrs (b : Block) : Set RustPtr :=
  {p | b.base.toNat ≤ p.toNat ∧ p.toNat < b.base.toNat + b.size.toInt.toNat}

theorem mem_addrs {b : Block} {p : RustPtr} :
    p ∈ b.addrs ↔ b.base.toNat ≤ p.toNat ∧ p.toNat < b.base.toNat + b.size.toInt.toNat :=
  Iff.rfl

theorem base_mem_addrs (b : Block) : b.base ∈ b.addrs := by
  have hpos : 0 < b.size.toInt := by simpa using Int64.lt_iff_toInt_lt.1 b.size_pos
  rw [mem_addrs]
  omega

/-- A block that ends before another one begins shares no address with it. -/
theorem disjoint_addrs_of_le {b c : Block}
    (h : b.base.toNat + b.size.toInt.toNat ≤ c.base.toNat) : Disjoint b.addrs c.addrs := by
  refine Set.disjoint_left.2 fun p hb hc => ?_
  rw [mem_addrs] at hb hc
  omega

/-- The history of a block: every site it went through, its own first. -/
def history (b : Block) : List SiteId := b.site :: b.earlier

/-- The call of `allocHook` for a fresh block. -/
def allocCall (b : Block) : HookCall :=
  .alloc b.base b.size b.site.localID b.site.bbName b.site.funcName

/-- The call of `reallocHook` for a block that takes the place of the one at `oldPtr`. -/
def reallocCall (b : Block) (oldPtr : RustPtr) (oldSize : Int64) : HookCall :=
  .realloc b.base b.size oldPtr oldSize b.site.localID b.site.bbName b.site.funcName

end Block

/-- The hook calls a well-formed allocator can produce, with the live blocks before and after.  A
new block avoids every live block but the one it replaces; an old pointer is the base of a live
block or lies in none. -/
inductive AllocStep : Set Block → HookCall → Set Block → Prop
  | alloc {L : Set Block} {b : Block} (hfresh : ∀ c ∈ L, Disjoint b.addrs c.addrs)
      (hearlier : b.earlier = []) : AllocStep L b.allocCall (insert b L)
  | realloc {L : Set Block} {b o : Block} (oldSize : Int64) (ho : o ∈ L)
      (hfresh : ∀ c ∈ L, c ≠ o → Disjoint b.addrs c.addrs) (hearlier : b.earlier = o.history) :
      AllocStep L (b.reallocCall o.base oldSize) (insert b (L \ {o}))
  | reallocUntracked {L : Set Block} {b : Block} {oldPtr : RustPtr} (oldSize : Int64)
      (hold : ∀ c ∈ L, oldPtr ∉ c.addrs) (hfresh : ∀ c ∈ L, Disjoint b.addrs c.addrs)
      (hearlier : b.earlier = []) :
      AllocStep L (b.reallocCall oldPtr oldSize) (insert b L)
  | dealloc {L : Set Block} {o : Block} (size localID : Int64) (ho : o ∈ L) :
      AllocStep L (.dealloc o.base size localID) (L \ {o})
  | deallocUntracked {L : Set Block} {ptr : RustPtr} (size localID : Int64)
      (hptr : ∀ c ∈ L, ptr ∉ c.addrs) : AllocStep L (.dealloc ptr size localID) L

/-- A block that is live after a call is the one the call announces, or was live before and has
another base. -/
theorem AllocStep.mem_cases {L L' : Set Block} {c : HookCall} (h : AllocStep L c L') {b : Block}
    (hb : b ∈ L') : c.newBlock = some (b.base, b.size, b.site) ∨
      b ∈ L ∧ ∀ base size site, c.newBlock = some (base, size, site) → b.base ≠ base := by
  have hother : ∀ {d : Block}, Disjoint d.addrs b.addrs → b.base ≠ d.base := fun hdisj heq =>
    Set.disjoint_left.1 hdisj (heq ▸ Block.base_mem_addrs _) b.base_mem_addrs
  cases h with
  | @alloc d hfresh _ =>
      rcases Set.mem_insert_iff.1 hb with rfl | hb
      · exact Or.inl rfl
      · refine Or.inr ⟨hb, fun base size site heq => ?_⟩
        obtain ⟨rfl, -⟩ := Prod.mk.inj (Option.some_inj.1 heq)
        exact hother (hfresh b hb)
  | @realloc d o oldSize ho hfresh _ =>
      rcases Set.mem_insert_iff.1 hb with rfl | hb
      · exact Or.inl rfl
      · refine Or.inr ⟨hb.1, fun base size site heq => ?_⟩
        obtain ⟨rfl, -⟩ := Prod.mk.inj (Option.some_inj.1 heq)
        exact hother (hfresh b hb.1 hb.2)
  | @reallocUntracked d oldPtr oldSize _ hfresh _ =>
      rcases Set.mem_insert_iff.1 hb with rfl | hb
      · exact Or.inl rfl
      · refine Or.inr ⟨hb, fun base size site heq => ?_⟩
        obtain ⟨rfl, -⟩ := Prod.mk.inj (Option.some_inj.1 heq)
        exact hother (hfresh b hb)
  | dealloc size localID ho =>
      exact Or.inr ⟨hb.1, fun base size site heq => absurd heq (by simp [HookCall.newBlock])⟩
  | deallocUntracked size localID _ =>
      exact Or.inr ⟨hb, fun base size site heq => absurd heq (by simp [HookCall.newBlock])⟩

/-! ### The tracking relation -/

/-- The site carries the data of the block. -/
structure Describes (s : AllocSite) (b : Block) : Prop where
  ptr : s.ptr = b.base
  size : s.size = b.size
  siteId : s.siteId = b.site

/-- The site built for a block, with a key and the mark of a reallocation. -/
def Block.toSite (b : Block) (pkey : BitVec 32) (isRealloc : Bool) : AllocSite :=
  ⟨b.base, b.size, b.site.localID, b.site.bbName, b.site.funcName, pkey, isRealloc⟩

theorem create_of_block (b : Block) (pkey : BitVec 32) (isRealloc : Bool) :
    AllocSite.create b.base b.size b.site.localID b.site.bbName b.site.funcName pkey isRealloc =
      some (b.toSite pkey isRealloc) :=
  AllocSite.create_eq_some.2 ⟨⟨b.base_ne, b.size_pos, b.id_nonneg⟩, rfl⟩

theorem describes_toSite (b : Block) (pkey : BitVec 32) (isRealloc : Bool) :
    Describes (b.toSite pkey isRealloc) b :=
  ⟨rfl, rfl, rfl⟩

namespace Describes

variable {s : AllocSite} {b : Block}

theorem isValid (h : Describes s b) : s.isValid = true := by
  refine AllocSite.isValid_iff.2 ⟨h.ptr ▸ b.base_ne, h.size ▸ b.size_pos, ?_⟩
  have hid : s.localID = b.site.localID := congrArg SiteId.localID h.siteId
  exact hid ▸ b.id_nonneg

theorem containsPtr_iff (h : Describes s b) (p : RustPtr) :
    s.containsPtr p = true ↔ p ∈ b.addrs := by
  rw [AllocSite.containsPtr_iff (h.size ▸ b.size_pos) (by rw [h.ptr, h.size]; exact b.noWrap),
    h.ptr, h.size, Block.mem_addrs]

end Describes

/-- **The map tracks the blocks**: it holds a site of each, under its base, and nothing else; and
no two blocks share an address. -/
structure Tracks (m : OrdMap RustPtr AllocSite) (L : Set Block) : Prop where
  stored : ∀ b ∈ L, ∃ s, m.find b.base = some s ∧ Describes s b
  owned : ∀ k s, m.find k = some s → ∃ b ∈ L, b.base = k ∧ Describes s b
  disjoint : L.PairwiseDisjoint Block.addrs

namespace Tracks

variable {m : OrdMap RustPtr AllocSite} {L : Set Block}

theorem empty : Tracks OrdMap.empty ∅ where
  stored b hb := absurd hb (Set.notMem_empty b)
  owned k s h := absurd h (by simp)
  disjoint := Set.pairwiseDisjoint_empty

/-- Two blocks of the set that share an address are the same block. -/
theorem eq_of_mem (h : Tracks m L) {b c : Block} (hb : b ∈ L) (hc : c ∈ L) {p : RustPtr}
    (hpb : p ∈ b.addrs) (hpc : p ∈ c.addrs) : b = c := by
  by_contra hne
  exact Set.disjoint_left.1 (h.disjoint hb hc hne) hpb hpc

/-- Outside the blocks nothing is stored. -/
theorem find_eq_none (h : Tracks m L) {p : RustPtr} (hp : ∀ b ∈ L, p ∉ b.addrs) :
    m.find p = none := by
  cases hf : m.find p with
  | none => rfl
  | some s =>
      obtain ⟨b, hb, rfl, -⟩ := h.owned p s hf
      exact absurd b.base_mem_addrs (hp b hb)

/-- A block that avoids the tracked ones can be stored. -/
theorem emplace (h : Tracks m L) {b : Block} {s : AllocSite} (hs : Describes s b)
    (hfresh : ∀ c ∈ L, Disjoint b.addrs c.addrs) : Tracks (m.emplace b.base s) (insert b L) := by
  have hnone : m.find b.base = none := h.find_eq_none fun c hc hmem =>
    Set.disjoint_left.1 (hfresh c hc) b.base_mem_addrs hmem
  constructor
  · intro c hc
    rcases Set.mem_insert_iff.1 hc with rfl | hc
    · exact ⟨s, by rw [OrdMap.find_emplace_of_none hnone, if_pos rfl], hs⟩
    · obtain ⟨t, ht, hd⟩ := h.stored c hc
      refine ⟨t, ?_, hd⟩
      rw [OrdMap.find_emplace_of_none hnone, if_neg ?_, ht]
      intro heq
      rw [heq, hnone] at ht
      exact absurd ht (by simp)
  · intro k t ht
    rw [OrdMap.find_emplace_of_none hnone] at ht
    split_ifs at ht with hk
    · obtain rfl := Option.some_inj.1 ht
      exact ⟨b, Set.mem_insert b L, hk.symm, hs⟩
    · obtain ⟨c, hc, hck, hd⟩ := h.owned k t ht
      exact ⟨c, Set.mem_insert_of_mem b hc, hck, hd⟩
  · exact h.disjoint.insert fun c hc _ => hfresh c hc

/-- A tracked block can be released. -/
theorem erase (h : Tracks m L) {o : Block} (ho : o ∈ L) : Tracks (m.erase o.base) (L \ {o}) := by
  have hbase : ∀ c ∈ L, c.base = o.base → c = o := fun c hc heq =>
    h.eq_of_mem hc ho (heq ▸ c.base_mem_addrs) o.base_mem_addrs
  constructor
  · rintro c ⟨hc, hco⟩
    obtain ⟨t, ht, hd⟩ := h.stored c hc
    exact ⟨t, by rw [OrdMap.find_erase, if_neg fun heq => hco (hbase c hc heq), ht], hd⟩
  · intro k t ht
    rw [OrdMap.find_erase] at ht
    split_ifs at ht with hk
    obtain ⟨c, hc, rfl, hd⟩ := h.owned k t ht
    exact ⟨c, ⟨hc, fun heq => hk (by rw [Set.mem_singleton_iff.1 heq])⟩, rfl, hd⟩
  · exact h.disjoint.subset Set.sdiff_subset

/-! ### Lookups in a tracking map -/

variable {h : AllocSiteHandler}

/-- **Inside a block the lookup finds its site.**  Either the address is the base of a block, which
can only be this one; or the last base below it is the base of the block, because a later one would
lie inside the block. -/
theorem find_base_of_mem (ht : Tracks h.allocationMap L) {b : Block} (hb : b ∈ L) {p : RustPtr}
    (hp : p ∈ b.addrs) : h.allocationMap.find b.base = some (h.getAllocSite p) := by
  obtain ⟨s, hs, hd⟩ := ht.stored b hb
  rw [hs]
  congr 1
  cases hf : h.allocationMap.find p with
  | some t =>
      obtain ⟨c, hc, rfl, -⟩ := ht.owned p t hf
      obtain rfl := ht.eq_of_mem hb hc hp c.base_mem_addrs
      rw [AllocSiteHandler.getAllocSite_of_find hs]
  | none =>
      have hpb : p ≠ b.base := by
        rintro rfl
        rw [hs] at hf
        exact absurd hf (by simp)
      have hle : b.base ≤ p := BitVec.le_def.2 hp.1
      refine (AllocSiteHandler.getAllocSite_of_last hf hs (lt_of_le_of_ne hle hpb.symm) ?_
        ((hd.containsPtr_iff p).2 hp)).symm
      intro k t hk hlt
      obtain ⟨c, hc, rfl, -⟩ := ht.owned k t hk
      by_contra hgt
      have hin : c.base ∈ b.addrs := by
        have h₁ := BitVec.lt_def.1 (not_le.1 hgt)
        have h₂ := BitVec.lt_def.1 hlt
        have h₃ := hp.2
        rw [Block.mem_addrs]
        omega
      obtain rfl := ht.eq_of_mem hb hc hin c.base_mem_addrs
      exact hgt (le_refl _)

theorem getAllocSite_of_mem (ht : Tracks h.allocationMap L) {b : Block} (hb : b ∈ L) {p : RustPtr}
    (hp : p ∈ b.addrs) : Describes (h.getAllocSite p) b := by
  obtain ⟨s, hs, hd⟩ := ht.stored b hb
  rw [ht.find_base_of_mem hb hp] at hs
  exact Option.some_inj.1 hs ▸ hd

/-- **Outside the blocks the lookup returns the error site.** -/
theorem getAllocSite_of_forall_notMem (ht : Tracks h.allocationMap L) {p : RustPtr}
    (hp : ∀ b ∈ L, p ∉ b.addrs) : h.getAllocSite p = AllocSite.error := by
  rcases h.getAllocSite_cases p with he | ⟨k, s, hf, -, hk⟩
  · exact he
  · obtain ⟨b, hb, rfl, hd⟩ := ht.owned k s hf
    rcases hk with rfl | hc
    · exact absurd b.base_mem_addrs (hp b hb)
    · exact absurd ((hd.containsPtr_iff p).1 hc) (hp b hb)

/-! ### The hooks keep the tracking -/

/-- **Every hook call an allocator can produce runs to its end, and the map tracks the blocks that
are live after it.** -/
theorem exists_run (ht : Tracks h.allocationMap L) {c : HookCall} {L' : Set Block}
    (hstep : AllocStep L c L') : ∃ h', c.run h = some h' ∧ Tracks h'.allocationMap L' := by
  cases hstep with
  | @alloc b hfresh _ =>
      exact ⟨_, run_alloc (create_of_block b _ _), ht.emplace (describes_toSite b _ _) hfresh⟩
  | @realloc b o oldSize ho hfresh _ =>
      have hd := ht.getAllocSite_of_mem ho o.base_mem_addrs
      refine ⟨_, run_realloc_of_isValid hd.isValid (create_of_block b _ _), ?_⟩
      have hmap := (ht.erase ho).emplace (describes_toSite b DEFAULT_PKEY true)
        fun c hc => hfresh c hc.1 hc.2
      simpa [AllocSiteHandler.insertAllocSite, AllocSiteHandler.removeAllocSite] using hmap
  | @reallocUntracked b oldPtr oldSize hold hfresh _ =>
      have herr := ht.getAllocSite_of_forall_notMem hold
      exact ⟨_, run_realloc_of_not_isValid (by rw [herr]; rfl) (create_of_block b _ _),
        ht.emplace (describes_toSite b _ _) hfresh⟩
  | @dealloc o size localID ho => exact ⟨_, run_dealloc .., ht.erase ho⟩
  | @deallocUntracked ptr size localID hptr =>
      refine ⟨_, run_dealloc .., ?_⟩
      rw [AllocSiteHandler.removeAllocSite, OrdMap.erase_of_none (ht.find_eq_none hptr)]
      exact ht

end Tracks

/-! ### Exactness of lookups -/

/-- What an exact lookup is: a valid site is returned exactly inside the live blocks, and there it
describes the one block the address lies in; elsewhere the error site is returned. -/
structure ExactLookup (h : AllocSiteHandler) (L : Set Block) (p : RustPtr) : Prop where
  isValid_iff : (h.getAllocSite p).isValid = true ↔ ∃ b ∈ L, p ∈ b.addrs
  describes : ∀ b ∈ L, p ∈ b.addrs → Describes (h.getAllocSite p) b
  unique : ∀ b ∈ L, ∀ c ∈ L, p ∈ b.addrs → p ∈ c.addrs → b = c
  error : (∀ b ∈ L, p ∉ b.addrs) → h.getAllocSite p = AllocSite.error

theorem Tracks.exactLookup {h : AllocSiteHandler} {L : Set Block}
    (ht : Tracks h.allocationMap L) (p : RustPtr) : ExactLookup h L p where
  isValid_iff := by
    constructor
    · intro hv
      by_contra hnone
      rw [ht.getAllocSite_of_forall_notMem fun b hb hp => hnone ⟨b, hb, hp⟩] at hv
      exact absurd hv (by simp)
    · rintro ⟨b, hb, hp⟩
      exact (ht.getAllocSite_of_mem hb hp).isValid
  describes _ hb hp := ht.getAllocSite_of_mem hb hp
  unique _ hb _ hc hpb hpc := ht.eq_of_mem hb hc hpb hpc
  error hp := ht.getAllocSite_of_forall_notMem hp

/-- **Sequential tracking is exact.**  After every sequence of hook calls a well-formed allocator
can produce, all of which return, the lookup of every address is exact for the blocks that are
live. -/
theorem getAllocSite_exact (allocSiteTotal : ℕ) (calls : List HookCall) (L : Set Block)
    (hrun : Run AllocStep ∅ calls L) :
    ∃ h, calls.foldlM (fun h c => HookCall.run c h) (AllocSiteHandler.init allocSiteTotal) =
        some h ∧ ∀ p, ExactLookup h L p := by
  have hsteps : ∀ (h : AllocSiteHandler) (L : Set Block) (c : HookCall) (L' : Set Block),
      Tracks h.allocationMap L → AllocStep L c L' →
        ∃ h', c.run h = some h' ∧ Tracks h'.allocationMap L' :=
    fun _ _ _ _ ht hstep => ht.exists_run hstep
  have hinit : Tracks (AllocSiteHandler.init allocSiteTotal).allocationMap ∅ := Tracks.empty
  obtain ⟨h, hcalls, ht⟩ := hrun.exists_foldlM (f := fun h c => HookCall.run c h)
    (R := fun h L => Tracks h.allocationMap L) hinit hsteps
  exact ⟨h, hcalls, fun p => ht.exactLookup p⟩

/-- A block of 16 bytes, from the first site of its function. -/
def smallBlock : Block where
  base := 0x1000#64
  size := 16
  site := ⟨0, "entry", "make"⟩
  earlier := []
  base_ne := by decide
  size_pos := by decide
  id_nonneg := by decide
  noWrap := by decide

/-- The same block after it has grown and moved. -/
def grownBlock : Block where
  base := 0x2000#64
  size := 32
  site := ⟨1, "entry", "make"⟩
  earlier := smallBlock.history
  base_ne := by decide
  size_pos := by decide
  id_nonneg := by decide
  noWrap := by decide

theorem run_grow : Run AllocStep ∅ [smallBlock.allocCall, grownBlock.reallocCall 0x1000#64 16]
    (insert grownBlock (insert smallBlock ∅ \ {smallBlock})) := by
  refine (Run.nil.snoc (AllocStep.alloc (b := smallBlock) ?_ rfl)).snoc
    (AllocStep.realloc (b := grownBlock) (o := smallBlock) 16 (Set.mem_insert ..) ?_ rfl)
  · exact fun c hc => absurd hc (Set.notMem_empty c)
  · rintro c hc hne
    rcases Set.mem_insert_iff.1 hc with rfl | hc
    · exact absurd rfl hne
    · exact absurd hc (Set.notMem_empty c)

theorem getAllocSite_exact_grow :
    ∃ h, [smallBlock.allocCall, grownBlock.reallocCall 0x1000#64 16].foldlM
        (fun h c => HookCall.run c h) (AllocSiteHandler.init 0) = some h ∧
      ∀ p, ExactLookup h (insert grownBlock (insert smallBlock ∅ \ {smallBlock})) p :=
  getAllocSite_exact 0 _ _ run_grow

end Provsan
