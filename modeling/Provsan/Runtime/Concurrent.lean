/-
**Tracking by concurrent threads.**

Many threads allocate, reallocate and release blocks, and each calls the hook of its operation
right after it.  The allocator acts at one moment, the hook in several critical sections at later
ones, and other threads may act in between: a released address can be handed out again while the
entry of its old block is still in the map.  To say whose entry an address holds, the map is
compared with an owner for every address, which is either a live block whose hook has finished or a
block that is gone and whose entry some thread still has to remove.

Main definitions:

* `Provsan.ThreadOp`, `Provsan.ThreadOp.Allowed` — the operations, and when the allocator does them;
* `Provsan.World`, `Provsan.WorldStep` — the threads with their pending hooks;
* `Provsan.Owner`, `Provsan.Consistent` — whose the entries of the map are;
* `Provsan.KeepsEntries` — what a step must meet for no block to be lost.

Main results:

* `Provsan.hookStep_cases` — what a critical section can do;
* `Provsan.Consistent.step` — the ownership of entries is kept;
* `Provsan.tracks_of_keepsEntries` — **when no hook is pending the map tracks the live blocks**.
-/

import Provsan.Runtime.Tracking

set_option relaxedAutoImplicit false
set_option autoImplicit false

namespace Provsan

/-! ### Operations -/

/-- An operation of a thread on the trusted heap. -/
inductive ThreadOp
  | alloc (b : Block)
  | realloc (b o : Block) (oldSize : Int64)
  | dealloc (o : Block) (size localID : Int64)

namespace ThreadOp

/-- The hook call that follows the operation. -/
def call : ThreadOp → HookCall
  | alloc b => b.allocCall
  | realloc b o oldSize => b.reallocCall o.base oldSize
  | dealloc o size localID => .dealloc o.base size localID

/-- The block the operation creates. -/
def creates : ThreadOp → Option Block
  | alloc b => some b
  | realloc b _ _ => some b
  | dealloc _ _ _ => none

/-- The block the operation releases. -/
def releases : ThreadOp → Option Block
  | alloc _ => none
  | realloc _ o _ => some o
  | dealloc o _ _ => some o

/-- The live blocks after the operation. -/
def after (op : ThreadOp) (L : Set Block) : Set Block :=
  {x | op.creates = some x ∨ (x ∈ L ∧ op.releases ≠ some x)}

/-- What a well-formed allocator does: only live blocks are released, and a new block avoids the
live blocks that stay. -/
structure Allowed (op : ThreadOp) (L : Set Block) : Prop where
  held : ∀ o, op.releases = some o → o ∈ L
  fresh : ∀ b, op.creates = some b → ∀ c ∈ L, op.releases ≠ some c → Disjoint b.addrs c.addrs
  earlier : ∀ b, op.creates = some b → b.earlier = (op.releases.map Block.history).getD []

theorem after_alloc (b : Block) (L : Set Block) : (alloc b).after L = insert b L := by
  ext x
  simp [after, creates, releases, eq_comm]

theorem after_realloc (b o : Block) (oldSize : Int64) (L : Set Block) :
    (realloc b o oldSize).after L = insert b (L \ {o}) := by
  ext x
  simp [after, creates, releases, eq_comm]

theorem after_dealloc (o : Block) (size localID : Int64) (L : Set Block) :
    (dealloc o size localID).after L = L \ {o} := by
  ext x
  simp [after, creates, releases, eq_comm]

/-- The operations are those of the sequential allocator. -/
theorem Allowed.allocStep {op : ThreadOp} {L : Set Block} (h : op.Allowed L) :
    AllocStep L op.call (op.after L) := by
  cases op with
  | alloc b =>
      rw [after_alloc]
      exact AllocStep.alloc (fun c hc => h.fresh b rfl c hc (by simp [releases])) (h.earlier b rfl)
  | realloc b o oldSize =>
      rw [after_realloc]
      refine AllocStep.realloc oldSize (h.held o rfl) (fun c hc hne => ?_) (h.earlier b rfl)
      exact h.fresh b rfl c hc fun heq => hne (Option.some_inj.1 heq).symm
  | dealloc o size localID =>
      rw [after_dealloc]
      exact AllocStep.dealloc size localID (h.held o rfl)

end ThreadOp

/-! ### Threads with pending hooks -/

/-- The shared state, and for each thread the operation whose hook it has not finished. -/
structure World where
  handler : AllocSiteHandler
  live : Set Block
  pending : ThreadId → Option (ThreadOp × HookPc)

/-- A thread operates on the heap, or runs one critical section of its hook. -/
inductive WorldEvent
  | op (tid : ThreadId) (op : ThreadOp)
  | hook (tid : ThreadId)

namespace World

/-- No block is live and no hook is pending. -/
def start (allocSiteTotal : ℕ) : World where
  handler := AllocSiteHandler.init allocSiteTotal
  live := ∅
  pending _ := none

/-- The thread has not finished the hook of the operation that created the block. -/
def Creating (W : World) (tid : ThreadId) (b : Block) : Prop :=
  ∃ op pc, W.pending tid = some (op, pc) ∧ op.creates = some b

end World

/-- The steps of the threads.  The allocator acts at the moment of the operation; the hook runs
later, one critical section at a time. -/
inductive WorldStep : World → WorldEvent → World → Prop
  | op {W : World} {tid : ThreadId} {op : ThreadOp} {pc : HookPc} (hidle : W.pending tid = none)
      (hallowed : op.Allowed W.live) (hstart : HookPc.start op.call = some pc) :
      WorldStep W (.op tid op)
        ⟨W.handler, op.after W.live, Function.update W.pending tid (some (op, pc))⟩
  | hook {W : World} {tid : ThreadId} {op : ThreadOp} {pc : HookPc} {h : AllocSiteHandler}
      {pc' : Option HookPc} (hpending : W.pending tid = some (op, pc))
      (hcall : pc.step W.handler = some (h, pc')) :
      WorldStep W (.hook tid)
        ⟨h, W.live, Function.update W.pending tid (pc'.map fun pc' => (op, pc'))⟩

/-- **What a step must meet for no block to be lost**: a block is released only after the hook of
the operation that created it has finished, and an insertion finds no entry at its address. -/
def KeepsEntries (W : World) : WorldEvent → Prop
  | .op _ op => ∀ o, op.releases = some o → ∀ tid, ¬ W.Creating tid o
  | .hook tid => ∀ op ptr site, W.pending tid = some (op, .insert ptr site) →
      W.handler.allocationMap.find ptr = none

/-! ### What a critical section can do -/

/-- The points a hook of an operation can be at. -/
inductive PcOf : ThreadOp → HookPc → Prop
  | insert {b : Block} {s : AllocSite} (hs : Describes s b) : PcOf (.alloc b) (.insert b.base s)
  | lookup (b o : Block) (oldSize : Int64) : PcOf (.realloc b o oldSize)
      (.lookup b.base b.size o.base b.site.localID b.site.bbName b.site.funcName)
  | chain {b o : Block} {oldSize : Int64} {oldAS s : AllocSite} (hs : Describes s b) :
      PcOf (.realloc b o oldSize) (.chain oldAS s o.base b.base)
  | replace {b o : Block} {oldSize : Int64} {s : AllocSite} (hs : Describes s b) :
      PcOf (.realloc b o oldSize) (.replace s o.base b.base)
  | insertNew {b o : Block} {oldSize : Int64} {s : AllocSite} (hs : Describes s b) :
      PcOf (.realloc b o oldSize) (.insert b.base s)
  | remove (o : Block) (size localID : Int64) : PcOf (.dealloc o size localID) (.remove o.base)

/-- The block whose entry the hook still has to remove. -/
def owesRemoval (op : ThreadOp) : HookPc → Option Block
  | .insert _ _ => none
  | _ => op.releases

/-- A hook begins with its removal still to do. -/
theorem pcOf_start {op : ThreadOp} {pc : HookPc} (h : HookPc.start op.call = some pc) :
    PcOf op pc ∧ owesRemoval op pc = op.releases := by
  cases op with
  | alloc b =>
      unfold HookPc.start ThreadOp.call Block.allocCall at h
      dsimp only at h
      rw [create_of_block] at h
      rw [← Option.some_inj.1 h]
      exact ⟨PcOf.insert (describes_toSite b _ _), rfl⟩
  | realloc b o oldSize =>
      rw [← Option.some_inj.1 h]
      exact ⟨PcOf.lookup b o oldSize, rfl⟩
  | dealloc o size localID =>
      rw [← Option.some_inj.1 h]
      exact ⟨PcOf.remove o size localID, rfl⟩

/-- **What a critical section can do**: leave the map alone, remove the entry it owes, or insert
the entry of the new block and finish. -/
theorem hookStep_cases {op : ThreadOp} {pc : HookPc} {h h' : AllocSiteHandler}
    {pc' : Option HookPc} (hpc : PcOf op pc)
    (hold : ∀ o, owesRemoval op pc = some o →
      ∃ s, h.allocationMap.find o.base = some s ∧ Describes s o)
    (he : pc.step h = some (h', pc')) :
    (h'.allocationMap = h.allocationMap ∧
      ∃ pc₁, pc' = some pc₁ ∧ PcOf op pc₁ ∧ owesRemoval op pc₁ = owesRemoval op pc) ∨
    (∃ o, owesRemoval op pc = some o ∧ h'.allocationMap = h.allocationMap.erase o.base ∧
      ((pc' = none ∧ op.creates = none) ∨
        ∃ pc₁, pc' = some pc₁ ∧ PcOf op pc₁ ∧ owesRemoval op pc₁ = none)) ∨
    (∃ b s, pc = .insert b.base s ∧ op.creates = some b ∧ Describes s b ∧
      h'.allocationMap = h.allocationMap.emplace b.base s ∧ pc' = none) := by
  cases hpc with
  | @insert b s hs =>
      obtain ⟨rfl, rfl⟩ := Prod.mk.inj (Option.some_inj.1 he)
      exact Or.inr (Or.inr ⟨b, s, rfl, rfl, hs, rfl, rfl⟩)
  | @insertNew b o oldSize s hs =>
      obtain ⟨rfl, rfl⟩ := Prod.mk.inj (Option.some_inj.1 he)
      exact Or.inr (Or.inr ⟨b, s, rfl, rfl, hs, rfl, rfl⟩)
  | remove o size localID =>
      obtain ⟨rfl, rfl⟩ := Prod.mk.inj (Option.some_inj.1 he)
      exact Or.inr (Or.inl ⟨o, rfl, rfl, Or.inl ⟨rfl, rfl⟩⟩)
  | @replace b o oldSize s hs =>
      obtain ⟨rfl, rfl⟩ := Prod.mk.inj (Option.some_inj.1 he)
      exact Or.inr (Or.inl ⟨o, rfl, rfl, Or.inr ⟨_, rfl, PcOf.insertNew hs, rfl⟩⟩)
  | @chain b o oldSize oldAS s hs =>
      obtain ⟨rfl, rfl⟩ := Prod.mk.inj (Option.some_inj.1 he)
      exact Or.inl ⟨AllocSiteHandler.allocationMap_updateReallocChain .., _, rfl,
        PcOf.replace hs, rfl⟩
  | lookup b o oldSize =>
      -- the entry of the old block is still there, so that the lookup is valid
      obtain ⟨s, hs, hd⟩ := hold o rfl
      have hvalid : (h.getAllocSite o.base).isValid = true := by
        rw [AllocSiteHandler.getAllocSite_of_find hs]
        exact hd.isValid
      unfold HookPc.step at he
      simp only [hvalid, Bool.not_true, Bool.false_eq_true, if_false, create_of_block,
        Option.map_some, Option.some_inj, Prod.mk.injEq] at he
      obtain ⟨rfl, rfl⟩ := he
      exact Or.inl ⟨rfl, _, rfl, PcOf.chain (describes_toSite b _ _), rfl⟩

/-! ### Owners of entries -/

/-- Whose the entry at an address is: that of a live block whose hook has finished, or that of a
block which is gone and whose entry the thread still has to remove. -/
inductive Owner
  | live (b : Block)
  | leaving (b : Block) (tid : ThreadId)

def Owner.block : Owner → Block
  | live b => b
  | leaving b _ => b

/-- **Every entry of the map has one owner.**  A live block that no thread is still creating owns
the entry at its base, and so does a block whose entry a thread has to remove; there are no other
entries.  A thread creates a live block, and no two threads create the same. -/
structure Owned (m : OrdMap RustPtr AllocSite) (L : Set Block)
    (creating leaving : ThreadId → Block → Prop) (owner : RustPtr → Option Owner) : Prop where
  disjoint : L.PairwiseDisjoint Block.addrs
  created : ∀ tid b, creating tid b → b ∈ L
  unique : ∀ tid tid' b, creating tid b → creating tid' b → tid = tid'
  absent : ∀ k, owner k = none → m.find k = none
  entry : ∀ k w, owner k = some w → w.block.base = k ∧ ∃ s, m.find k = some s ∧ Describes s w.block
  live_iff : ∀ b, owner b.base = some (.live b) ↔ b ∈ L ∧ ∀ tid, ¬ creating tid b
  leaving_iff : ∀ b tid, owner b.base = some (.leaving b tid) ↔ leaving tid b

namespace Owned

variable {m : OrdMap RustPtr AllocSite} {L : Set Block} {creating leaving : ThreadId → Block → Prop}
  {owner : RustPtr → Option Owner}

theorem empty : Owned OrdMap.empty ∅ (fun _ _ => False) (fun _ _ => False) fun _ => none where
  disjoint := Set.pairwiseDisjoint_empty
  created _ _ h := h.elim
  unique _ _ _ h := h.elim
  absent _ _ := rfl
  entry _ _ h := absurd h (by simp)
  live_iff b := by simp
  leaving_iff b tid := by simp

/-- Two live blocks with one base are the same block. -/
theorem eq_of_base (hc : Owned m L creating leaving owner) {b c : Block} (hb : b ∈ L) (hcl : c ∈ L)
    (heq : b.base = c.base) : b = c := by
  by_contra hne
  exact Set.disjoint_left.1 (hc.disjoint hb hcl hne) b.base_mem_addrs (heq ▸ c.base_mem_addrs)

/-- When no thread creates a block or has an entry to remove, the map tracks the live blocks. -/
theorem tracks (hc : Owned m L creating leaving owner) (hcreating : ∀ tid b, ¬ creating tid b)
    (hleaving : ∀ tid b, ¬ leaving tid b) : Tracks m L := by
  refine ⟨fun b hb => ?_, fun k s hs => ?_, hc.disjoint⟩
  · have hown := (hc.live_iff b).2 ⟨hb, fun tid => hcreating tid b⟩
    exact (hc.entry _ _ hown).2
  · cases ho : owner k with
    | none => exact absurd (hc.absent k ho) (by simp [hs])
    | some w =>
        obtain ⟨rfl, t, ht, hd⟩ := hc.entry k w ho
        obtain rfl := Option.some_inj.1 (hs.symm.trans ht)
        cases w with
        | live b => exact ⟨b, ((hc.live_iff b).1 ho).1, rfl, hd⟩
        | leaving b tid => exact absurd ((hc.leaving_iff b tid).1 ho) (hleaving tid b)

/-- The relation depends only on who creates and who removes what. -/
theorem congr (hc : Owned m L creating leaving owner)
    {creating' leaving' : ThreadId → Block → Prop} (hcr : ∀ tid b, creating' tid b ↔ creating tid b)
    (hle : ∀ tid b, leaving' tid b ↔ leaving tid b) : Owned m L creating' leaving' owner := by
  obtain rfl : creating' = creating := funext fun tid => funext fun b => propext (hcr tid b)
  obtain rfl : leaving' = leaving := funext fun tid => funext fun b => propext (hle tid b)
  exact hc

/-- **Removing an entry** that a thread owed leaves the address without an owner. -/
theorem remove (hc : Owned m L creating leaving owner) {tid : ThreadId} {o : Block}
    (ho : leaving tid o) (honly : ∀ b, leaving tid b → b = o) :
    Owned (m.erase o.base) L creating (fun u b => leaving u b ∧ u ≠ tid)
      (Function.update owner o.base none) := by
  have hown := (hc.leaving_iff o tid).2 ho
  refine ⟨hc.disjoint, hc.created, hc.unique, ?_, ?_, ?_, ?_⟩
  · intro k hk
    rw [OrdMap.find_erase]
    split_ifs with hko
    · rfl
    · rw [Function.update_of_ne hko] at hk
      exact hc.absent k hk
  · intro k w hk
    by_cases hko : k = o.base
    · rw [hko, Function.update_self] at hk
      exact absurd hk (by simp)
    · rw [Function.update_of_ne hko] at hk
      rw [OrdMap.find_erase, if_neg hko]
      exact hc.entry k w hk
  · intro b
    rw [← hc.live_iff b, Function.update_apply]
    split_ifs with hb
    · rw [hb, hown]
      simp
    · rfl
  · intro b u
    rw [← hc.leaving_iff b u, Function.update_apply]
    split_ifs with hb
    · -- the owner that goes is that of the thread itself
      rw [hb, hown]
      simp only [Option.some_inj, Owner.leaving.injEq, false_iff, not_and, not_not]
      rintro ⟨-, rfl⟩
      rfl
    · refine ⟨fun h => ⟨h, ?_⟩, fun h => h.1⟩
      rintro rfl
      exact hb (by rw [honly b ((hc.leaving_iff b u).1 h)])

/-- **Inserting the entry** of a block, where there is none, gives it to the block. -/
theorem insert (hc : Owned m L creating leaving owner) {tid : ThreadId} {b : Block} {s : AllocSite}
    (hb : creating tid b) (honly : ∀ c, creating tid c → c = b) (hs : Describes s b)
    (hfree : m.find b.base = none) :
    Owned (m.emplace b.base s) L (fun u c => creating u c ∧ u ≠ tid) leaving
      (Function.update owner b.base (some (.live b))) := by
  have hnone : owner b.base = none := by
    cases ho : owner b.base with
    | none => rfl
    | some w =>
        obtain ⟨-, t, ht, -⟩ := hc.entry _ _ ho
        exact absurd ht (by simp [hfree])
  refine ⟨hc.disjoint, fun u c h => hc.created u c h.1,
    fun u u' c h h' => hc.unique u u' c h.1 h'.1, ?_, ?_, ?_, ?_⟩
  · intro k hk
    by_cases hkb : k = b.base
    · rw [hkb, Function.update_self] at hk
      exact absurd hk (by simp)
    · rw [Function.update_of_ne hkb] at hk
      rw [OrdMap.find_emplace_of_none hfree, if_neg hkb]
      exact hc.absent k hk
  · intro k w hk
    rw [OrdMap.find_emplace_of_none hfree]
    by_cases hkb : k = b.base
    · rw [hkb, Function.update_self] at hk
      obtain rfl := Option.some_inj.1 hk
      exact ⟨hkb.symm, s, if_pos hkb, hs⟩
    · rw [Function.update_of_ne hkb] at hk
      rw [if_neg hkb]
      exact hc.entry k w hk
  · intro c
    rw [Function.update_apply]
    split_ifs with hcb
    · constructor
      · intro h
        obtain rfl : b = c := Owner.live.inj (Option.some_inj.1 h)
        exact ⟨hc.created tid b hb, fun u h => h.2 (hc.unique u tid b h.1 hb)⟩
      · rintro ⟨hcl, -⟩
        rw [hc.eq_of_base hcl (hc.created tid b hb) hcb]
    · rw [hc.live_iff c]
      refine and_congr_right fun _ => ⟨fun h u hu => h u hu.1, fun h u hu => h u ⟨hu, ?_⟩⟩
      rintro rfl
      exact hcb (by rw [honly c hu])
  · intro c u
    rw [← hc.leaving_iff c u, Function.update_apply]
    split_ifs with hcb
    · rw [hcb, hnone]
      simp
    · rfl

/-- **Releasing a block** passes its entry to the thread, which has to remove it. -/
theorem release (hc : Owned m L creating leaving owner) (tid : ThreadId) {o : Block} (ho : o ∈ L)
    (hdone : ∀ u, ¬ creating u o) :
    Owned m (L \ {o}) creating (fun u b => leaving u b ∨ (u = tid ∧ b = o))
      (Function.update owner o.base (some (.leaving o tid))) := by
  have hown := (hc.live_iff o).2 ⟨ho, hdone⟩
  refine ⟨hc.disjoint.subset Set.sdiff_subset, ?_, hc.unique, ?_, ?_, ?_, ?_⟩
  · intro u b hb
    refine ⟨hc.created u b hb, ?_⟩
    rintro rfl
    exact hdone u hb
  · intro k hk
    by_cases hko : k = o.base
    · rw [hko, Function.update_self] at hk
      exact absurd hk (by simp)
    · rw [Function.update_of_ne hko] at hk
      exact hc.absent k hk
  · intro k w hk
    by_cases hko : k = o.base
    · subst hko
      rw [Function.update_self] at hk
      obtain rfl := Option.some_inj.1 hk
      obtain ⟨-, hstored⟩ := hc.entry _ _ hown
      exact ⟨rfl, hstored⟩
    · rw [Function.update_of_ne hko] at hk
      exact hc.entry k w hk
  · intro b
    rw [Function.update_apply]
    split_ifs with hb
    · simp only [Option.some_inj, reduceCtorEq, false_iff, not_and]
      rintro ⟨hbL, hbo⟩ -
      exact hbo (hc.eq_of_base hbL ho hb)
    · rw [hc.live_iff b]
      refine and_congr_left fun _ => ⟨fun h => ⟨h, ?_⟩, fun h => h.1⟩
      rintro rfl
      exact hb rfl
  · intro b u
    rw [Function.update_apply]
    split_ifs with hb
    · rw [← hc.leaving_iff b u, hb, hown]
      simp only [Option.some_inj, Owner.leaving.injEq, reduceCtorEq, false_or]
      exact ⟨fun h => ⟨h.2.symm, h.1.symm⟩, fun h => ⟨h.2.symm, h.1.symm⟩⟩
    · rw [hc.leaving_iff b u]
      refine ⟨Or.inl, fun h => h.resolve_right ?_⟩
      rintro ⟨-, rfl⟩
      exact hb rfl

/-- **Creating a block** that avoids the live ones gives it no entry yet. -/
theorem create (hc : Owned m L creating leaving owner) (tid : ThreadId) {b : Block}
    (hfresh : ∀ c ∈ L, Disjoint b.addrs c.addrs) :
    Owned m (Insert.insert b L) (fun u c => creating u c ∨ (u = tid ∧ c = b)) leaving owner := by
  have hb : b ∉ L := fun h => Set.disjoint_left.1 (hfresh b h) b.base_mem_addrs b.base_mem_addrs
  refine ⟨hc.disjoint.insert fun c hcl _ => hfresh c hcl, ?_, ?_, hc.absent, hc.entry, ?_,
    hc.leaving_iff⟩
  · rintro u c (h | ⟨-, rfl⟩)
    · exact Set.mem_insert_of_mem b (hc.created u c h)
    · exact Set.mem_insert c L
  · rintro u u' c (h | ⟨hu, hcb⟩) (h' | ⟨hu', hcb'⟩)
    · exact hc.unique u u' c h h'
    · exact absurd (hc.created u c h) (hcb' ▸ hb)
    · exact absurd (hc.created u' c h') (hcb ▸ hb)
    · rw [hu, hu']
  · intro c
    rw [hc.live_iff c]
    constructor
    · rintro ⟨hcl, hcr⟩
      refine ⟨Set.mem_insert_of_mem b hcl, ?_⟩
      rintro u (h | ⟨-, rfl⟩)
      · exact hcr u h
      · exact hb hcl
    · rintro ⟨hcl, hcr⟩
      have hne : c ≠ b := fun heq => hcr tid (Or.inr ⟨rfl, heq⟩)
      exact ⟨(Set.mem_insert_iff.1 hcl).resolve_left hne, fun u h => hcr u (Or.inl h)⟩

/-- **An operation** passes the entry of the block it releases to its thread, and creates its new
block. -/
theorem operate (hc : Owned m L creating leaving owner) (tid : ThreadId) {op : ThreadOp}
    (hallowed : op.Allowed L) (hpub : ∀ o, op.releases = some o → ∀ u, ¬ creating u o) :
    ∃ owner', Owned m (op.after L) (fun u b => creating u b ∨ (u = tid ∧ op.creates = some b))
      (fun u b => leaving u b ∨ (u = tid ∧ op.releases = some b)) owner' := by
  cases op with
  | alloc b =>
      have hnew := hc.create tid
        (fun c hcl => hallowed.fresh b rfl c hcl (by simp [ThreadOp.releases]))
      rw [ThreadOp.after_alloc]
      exact ⟨owner, hnew.congr (fun u c => by simp [ThreadOp.creates, eq_comm])
        (fun u c => by simp [ThreadOp.releases])⟩
  | realloc b o oldSize =>
      have hfresh : ∀ c ∈ L \ {o}, Disjoint b.addrs c.addrs := fun c hcl =>
        hallowed.fresh b rfl c hcl.1 fun heq => hcl.2 (Option.some_inj.1 heq).symm
      have hnew := (hc.release tid (hallowed.held o rfl) (hpub o rfl)).create tid hfresh
      rw [ThreadOp.after_realloc]
      exact ⟨_, hnew.congr (fun u c => by simp [ThreadOp.creates, eq_comm])
        (fun u c => by simp [ThreadOp.releases, eq_comm])⟩
  | dealloc o size localID =>
      have hnew := hc.release tid (hallowed.held o rfl) (hpub o rfl)
      rw [ThreadOp.after_dealloc]
      exact ⟨_, hnew.congr (fun u c => by simp [ThreadOp.creates])
        (fun u c => by simp [ThreadOp.releases, eq_comm])⟩

end Owned

/-! ### Runs of many threads -/

namespace World

/-- The thread still has to remove the entry of the block. -/
def Leaving (W : World) (tid : ThreadId) (o : Block) : Prop :=
  ∃ op pc, W.pending tid = some (op, pc) ∧ owesRemoval op pc = some o

/-- **The invariant of the threads**: every hook is at a point of its operation, and every entry
of the map has one owner. -/
structure Consistent (W : World) : Prop where
  pcOf : ∀ tid op pc, W.pending tid = some (op, pc) → PcOf op pc
  owned : ∃ owner, Owned W.handler.allocationMap W.live W.Creating W.Leaving owner

theorem consistent_start (allocSiteTotal : ℕ) : (start allocSiteTotal).Consistent where
  pcOf _ _ _ h := absurd h (by simp [start])
  owned := ⟨_, Owned.empty.congr (fun tid b => by simp [Creating, start])
    (fun tid b => by simp [Leaving, start])⟩

/-- What a thread is at, after one of the threads has moved. -/
theorem pending_update {β : Type} {pending : ThreadId → β} {tid u : ThreadId} {p q : β} :
    Function.update pending tid p u = q ↔ (u = tid ∧ p = q) ∨ (u ≠ tid ∧ pending u = q) := by
  rw [Function.update_apply]
  split_ifs with hu <;> simp [hu]

theorem pending_self {h : AllocSiteHandler} {L : Set Block}
    {pending : ThreadId → Option (ThreadOp × HookPc)} {tid : ThreadId}
    {p : Option (ThreadOp × HookPc)} :
    (World.mk h L (Function.update pending tid p)).pending tid = p :=
  Function.update_self ..

theorem pending_of_ne {h : AllocSiteHandler} {L : Set Block}
    {pending : ThreadId → Option (ThreadOp × HookPc)} {tid u : ThreadId}
    {p : Option (ThreadOp × HookPc)} (hu : u ≠ tid) :
    (World.mk h L (Function.update pending tid p)).pending u = pending u :=
  Function.update_of_ne hu ..

/-- A property of a thread's operation and point, after one of the threads has moved. -/
theorem exists_pending_update {pending : ThreadId → Option (ThreadOp × HookPc)}
    {tid u : ThreadId} {p : Option (ThreadOp × HookPc)} {Q : ThreadOp → HookPc → Prop} :
    (∃ op pc, Function.update pending tid p u = some (op, pc) ∧ Q op pc) ↔
      (u = tid ∧ ∃ op pc, p = some (op, pc) ∧ Q op pc) ∨
        (u ≠ tid ∧ ∃ op pc, pending u = some (op, pc) ∧ Q op pc) := by
  simp only [pending_update, or_and_right, exists_or, and_assoc, exists_and_left]

theorem creating_of_pending {W : World} {tid : ThreadId} {op : ThreadOp} {pc : HookPc}
    (hp : W.pending tid = some (op, pc)) (b : Block) : W.Creating tid b ↔ op.creates = some b := by
  simp [Creating, hp]

theorem leaving_of_pending {W : World} {tid : ThreadId} {op : ThreadOp} {pc : HookPc}
    (hp : W.pending tid = some (op, pc)) (b : Block) :
    W.Leaving tid b ↔ owesRemoval op pc = some b := by
  simp [Leaving, hp]

/-- Moving one thread to a new point changes what that thread creates and removes, only. -/
theorem creating_update (W : World) (h : AllocSiteHandler) (L : Set Block) (tid u : ThreadId)
    (p : Option (ThreadOp × HookPc)) (b : Block) :
    (World.mk h L (Function.update W.pending tid p)).Creating u b ↔
      (u = tid ∧ ∃ op pc, p = some (op, pc) ∧ op.creates = some b) ∨
        (u ≠ tid ∧ W.Creating u b) :=
  exists_pending_update (Q := fun op _ => op.creates = some b)

theorem leaving_update (W : World) (h : AllocSiteHandler) (L : Set Block) (tid u : ThreadId)
    (p : Option (ThreadOp × HookPc)) (b : Block) :
    (World.mk h L (Function.update W.pending tid p)).Leaving u b ↔
      (u = tid ∧ ∃ op pc, p = some (op, pc) ∧ owesRemoval op pc = some b) ∨
        (u ≠ tid ∧ W.Leaving u b) :=
  exists_pending_update (Q := fun op pc => owesRemoval op pc = some b)

/-- **An operation keeps the invariant**, when it releases no block whose hook is pending. -/
theorem Consistent.afterOp {W : World} (hinv : W.Consistent) {tid : ThreadId} {op : ThreadOp}
    {pc : HookPc} (hidle : W.pending tid = none) (hallowed : op.Allowed W.live)
    (hstart : HookPc.start op.call = some pc)
    (hpub : ∀ o, op.releases = some o → ∀ u, ¬ W.Creating u o) :
    (World.mk W.handler (op.after W.live)
      (Function.update W.pending tid (some (op, pc)))).Consistent := by
  obtain ⟨hpcOf, owner, hown⟩ := hinv
  obtain ⟨hpc, howes⟩ := pcOf_start hstart
  obtain ⟨owner', hown'⟩ := hown.operate tid hallowed hpub
  refine ⟨fun u op' pc' hu => ?_, owner', hown'.congr (fun u b => ?_) (fun u b => ?_)⟩
  · rcases pending_update.1 hu with ⟨-, h⟩ | ⟨-, h⟩
    · obtain ⟨rfl, rfl⟩ := Prod.mk.inj (Option.some_inj.1 h)
      exact hpc
    · exact hpcOf u op' pc' h
  · have hnot : ¬ W.Creating tid b := by simp [Creating, hidle]
    rw [creating_update]
    by_cases hu : u = tid
    · simp [hu, hnot]
    · simp [hu]
  · have hnot : ¬ W.Leaving tid b := by simp [Leaving, hidle]
    rw [leaving_update]
    by_cases hu : u = tid
    · simp [hu, hnot, howes]
    · simp [hu]

/-- **A critical section keeps the invariant**, when an insertion finds its address free. -/
theorem Consistent.afterHook {W : World} (hinv : W.Consistent) {tid : ThreadId} {op : ThreadOp}
    {pc : HookPc} {h : AllocSiteHandler} {pc' : Option HookPc}
    (hp : W.pending tid = some (op, pc)) (hcall : pc.step W.handler = some (h, pc'))
    (hfree : ∀ ptr site, pc = .insert ptr site → W.handler.allocationMap.find ptr = none) :
    (World.mk h W.live
      (Function.update W.pending tid (pc'.map fun pc' => (op, pc')))).Consistent := by
  obtain ⟨hpcOf, owner, hown⟩ := hinv
  have hold : ∀ o, owesRemoval op pc = some o →
      ∃ s, W.handler.allocationMap.find o.base = some s ∧ Describes s o := by
    intro o ho
    have hleave := (hown.leaving_iff o tid).2 ((leaving_of_pending hp o).2 ho)
    exact (hown.entry _ _ hleave).2
  have hpcOf' : (∀ pc₁, pc' = some pc₁ → PcOf op pc₁) → ∀ u op' pc'',
      Function.update W.pending tid (pc'.map fun pc' => (op, pc')) u = some (op', pc'') →
        PcOf op' pc'' := by
    intro hnew u op' pc'' hu
    rcases pending_update.1 hu with ⟨-, h⟩ | ⟨-, h⟩
    · obtain ⟨pc₁, hpc₁, heq⟩ := Option.map_eq_some_iff.1 h
      obtain ⟨rfl, rfl⟩ := Prod.mk.inj heq
      exact hnew _ hpc₁
    · exact hpcOf u op' pc'' h
  rcases hookStep_cases (hpcOf tid op pc hp) hold hcall with
    ⟨hmap, pc₁, rfl, hpc₁, howes⟩ | ⟨o, ho, hmap, hnext⟩ | ⟨b, s, rfl, hcr, hs, hmap, rfl⟩
  · -- the map is as before, and so is what the thread has to do with it
    refine ⟨hpcOf' fun pc₂ hpc₂ => (Option.some_inj.1 hpc₂) ▸ hpc₁, owner, ?_⟩
    rw [hmap]
    refine hown.congr (fun u b => ?_) (fun u b => ?_)
    · rw [creating_update]
      by_cases hu : u = tid
      · simp [hu, creating_of_pending hp]
      · simp [hu]
    · rw [leaving_update]
      by_cases hu : u = tid
      · simp [hu, leaving_of_pending hp, howes]
      · simp [hu]
  · -- the thread has removed the entry it owed
    have honly : ∀ b, W.Leaving tid b → b = o := by
      intro b hb
      rw [leaving_of_pending hp, ho] at hb
      exact (Option.some_inj.1 hb).symm
    have hrem := hown.remove ((leaving_of_pending hp o).2 ho) honly
    refine ⟨hpcOf' ?_, Function.update owner o.base none, ?_⟩
    · rintro pc₂ rfl
      rcases hnext with ⟨h, -⟩ | ⟨pc₁, h, hpc₁, -⟩
      · exact absurd h (by simp)
      · rwa [Option.some_inj.1 h]
    · rw [hmap]
      refine hrem.congr (fun u b => ?_) (fun u b => ?_)
      · rw [creating_update]
        by_cases hu : u = tid
        · rw [hu, creating_of_pending hp]
          rcases hnext with ⟨rfl, hnone⟩ | ⟨pc₁, rfl, -, -⟩
          · simp [hnone]
          · simp
        · simp [hu]
      · rw [leaving_update]
        by_cases hu : u = tid
        · rcases hnext with ⟨rfl, -⟩ | ⟨pc₁, rfl, -, howes⟩
          · simp [hu]
          · simp [hu, howes]
        · simp [hu]
  · -- the thread has inserted the entry of its block
    have honly : ∀ c, W.Creating tid c → c = b := by
      intro c hc
      rw [creating_of_pending hp, hcr] at hc
      exact (Option.some_inj.1 hc).symm
    have hins := hown.insert ((creating_of_pending hp b).2 hcr) honly hs (hfree _ _ rfl)
    refine ⟨hpcOf' fun _ h => absurd h (by simp),
      Function.update owner b.base (some (.live b)), ?_⟩
    rw [hmap]
    refine hins.congr (fun u c => ?_) (fun u c => ?_)
    · rw [creating_update]
      by_cases hu : u = tid <;> simp [hu]
    · rw [leaving_update]
      by_cases hu : u = tid
      · simp [hu, leaving_of_pending hp, owesRemoval]
      · simp [hu]

/-- **One step keeps the invariant**, when it loses no entry. -/
theorem Consistent.step {W W' : World} {e : WorldEvent} (hinv : W.Consistent)
    (hkeep : KeepsEntries W e) (hstep : WorldStep W e W') : W'.Consistent := by
  cases hstep with
  | op hidle hallowed hstart => exact hinv.afterOp hidle hallowed hstart hkeep
  | hook hp hcall =>
      refine hinv.afterHook hp hcall ?_
      rintro ptr site rfl
      exact hkeep _ ptr site hp

/-- A pending hook can always go on: no assertion of it fails. -/
theorem Consistent.exists_hook {W : World} (hinv : W.Consistent) {tid : ThreadId} {op : ThreadOp}
    {pc : HookPc} (hp : W.pending tid = some (op, pc)) : ∃ W', WorldStep W (.hook tid) W' := by
  suffices h : ∃ r, pc.step W.handler = some r by
    obtain ⟨⟨h, pc'⟩, hcall⟩ := h
    exact ⟨_, WorldStep.hook hp hcall⟩
  cases hinv.pcOf tid op pc hp with
  | insert | insertNew | remove | replace | chain => exact ⟨_, rfl⟩
  | lookup b o oldSize =>
      unfold HookPc.step
      dsimp only
      split_ifs <;> rw [create_of_block] <;> exact ⟨_, rfl⟩

end World

/-- **No tracked block is lost** in a run in which no released block has a pending hook and every
insertion finds its address free: whenever no hook is pending, the map tracks the live blocks. -/
theorem tracks_of_keepsEntries (allocSiteTotal : ℕ) (es : List WorldEvent) (W : World)
    (hrun : Run (Guarded KeepsEntries WorldStep) (World.start allocSiteTotal) es W)
    (hquiet : ∀ tid, W.pending tid = none) : Tracks W.handler.allocationMap W.live := by
  have hinv : W.Consistent := hrun.invariant (World.consistent_start allocSiteTotal)
    fun _ _ _ hinv hstep => hinv.step hstep.1 hstep.2
  obtain ⟨owner, hown⟩ := hinv.owned
  exact hown.tracks (fun tid b => by simp [World.Creating, hquiet])
    fun tid b => by simp [World.Leaving, hquiet]

/-! ### Single steps -/

theorem worldStep_alloc {W : World} (tid : ThreadId) {b : Block} (hidle : W.pending tid = none)
    (hfresh : ∀ c ∈ W.live, Disjoint b.addrs c.addrs) (hearlier : b.earlier = []) :
    WorldStep W (.op tid (.alloc b)) ⟨W.handler, insert b W.live, Function.update W.pending tid
      (some (.alloc b, .insert b.base (b.toSite 0#32 false)))⟩ := by
  rw [← ThreadOp.after_alloc]
  refine WorldStep.op hidle ⟨fun o ho => absurd ho (by simp [ThreadOp.releases]), ?_, ?_⟩ ?_
  · rintro c hc d hd -
    obtain rfl := Option.some_inj.1 hc
    exact hfresh d hd
  · intro c hc
    obtain rfl := Option.some_inj.1 hc
    exact hearlier
  · unfold HookPc.start ThreadOp.call Block.allocCall
    dsimp only
    rw [create_of_block]
    rfl

theorem worldStep_insert {W : World} (tid : ThreadId) {op : ThreadOp} {ptr : RustPtr}
    {site : AllocSite} (hp : W.pending tid = some (op, .insert ptr site)) :
    WorldStep W (.hook tid)
      ⟨W.handler.insertAllocSite ptr site, W.live, Function.update W.pending tid none⟩ :=
  WorldStep.hook hp rfl

theorem worldStep_dealloc {W : World} (tid : ThreadId) {o : Block} (size localID : Int64)
    (hidle : W.pending tid = none) (ho : o ∈ W.live) :
    WorldStep W (.op tid (.dealloc o size localID)) ⟨W.handler, W.live \ {o},
      Function.update W.pending tid (some (.dealloc o size localID, .remove o.base))⟩ := by
  rw [← ThreadOp.after_dealloc o size localID]
  refine WorldStep.op hidle ⟨?_, fun b hb => absurd hb (by simp [ThreadOp.creates]),
    fun b hb => absurd hb (by simp [ThreadOp.creates])⟩ rfl
  intro c hc
  obtain rfl := Option.some_inj.1 hc
  exact ho

theorem worldStep_remove {W : World} (tid : ThreadId) {op : ThreadOp} {ptr : RustPtr}
    (hp : W.pending tid = some (op, .remove ptr)) :
    WorldStep W (.hook tid)
      ⟨W.handler.removeAllocSite ptr, W.live, Function.update W.pending tid none⟩ :=
  WorldStep.hook hp rfl

theorem tracks_of_keepsEntries_alloc : ∃ W : World, smallBlock ∈ W.live ∧
    Tracks W.handler.allocationMap W.live := by
  have hop := worldStep_alloc (W := World.start 0) (b := smallBlock) 1 rfl
    (fun c hc => absurd hc (Set.notMem_empty c)) rfl
  have hkeep : KeepsEntries (World.start 0) (.op 1 (.alloc smallBlock)) := fun o ho =>
    absurd ho (by simp [ThreadOp.releases])
  have hfree : ∀ W : World, W.handler = (World.start 0).handler → KeepsEntries W (.hook 1) := by
    intro W hW op ptr site _
    rw [hW]
    exact OrdMap.find_empty ptr
  have hrun := (Run.nil.snoc (show Guarded KeepsEntries WorldStep _ _ _ from ⟨hkeep, hop⟩)).snoc
    ⟨hfree _ rfl, worldStep_insert 1 World.pending_self⟩
  refine ⟨_, Set.mem_insert _ _, tracks_of_keepsEntries 0 _ _ hrun fun tid => ?_⟩
  simp [Function.update_apply, World.start]

/-- A block at the address of `Provsan.smallBlock`, from another site. -/
def reusedBlock : Block where
  base := 0x1000#64
  size := 16
  site := ⟨2, "entry", "make"⟩
  earlier := []
  base_ne := smallBlock.base_ne
  size_pos := smallBlock.size_pos
  id_nonneg := by decide
  noWrap := smallBlock.noWrap

/-- **A tracked block can be lost**: its address still holds the entry of a released block when its
hook inserts it, and the hook of the release then removes that entry. -/
theorem not_tracks : ¬ ∀ (allocSiteTotal : ℕ) (es : List WorldEvent) (W : World),
    Run WorldStep (World.start allocSiteTotal) es W → (∀ tid, W.pending tid = none) →
      Tracks W.handler.allocationMap W.live := by
  intro hall
  have hrun₁ := Run.nil.snoc (worldStep_alloc (W := World.start 0) (b := smallBlock) 1 rfl
    (fun c hc => absurd hc (Set.notMem_empty c)) rfl)
  have hrun₂ := hrun₁.snoc (worldStep_insert 1 World.pending_self)
  -- thread 1 releases the block, and its hook stays pending
  have hrun₃ := hrun₂.snoc (worldStep_dealloc 1 16 (-1) World.pending_self
    (Set.mem_insert smallBlock ∅))
  -- thread 2 gets the address, and its hook finds the old entry there
  have hrun₄ := hrun₃.snoc (worldStep_alloc (b := reusedBlock) 2
    (by simp [World.start])
    (fun c hc => absurd ((Set.mem_insert_iff.1 hc.1).resolve_right (Set.notMem_empty c)) hc.2) rfl)
  have hrun₅ := hrun₄.snoc (worldStep_insert 2 World.pending_self)
  have hne : (1 : ThreadId) ≠ 2 := by decide
  have hrun₆ := hrun₅.snoc (worldStep_remove 1 ((World.pending_of_ne hne).trans
    ((World.pending_of_ne hne).trans World.pending_self)))
  have htracks := hall 0 _ _ hrun₆ fun tid => by
    by_cases h₁ : tid = 1
    · rw [h₁, World.pending_self]
    · by_cases h₂ : tid = 2
      · rw [h₂, World.pending_of_ne (by decide), World.pending_self]
      · simp [World.start, h₁, h₂]
  obtain ⟨s, hs, -⟩ := htracks.stored reusedBlock (Set.mem_insert ..)
  -- the entry of the address is gone
  change (AllocSiteHandler.removeAllocSite _ _).allocationMap.find smallBlock.base = some s at hs
  rw [AllocSiteHandler.find_removeAllocSite, if_pos rfl] at hs
  exact absurd hs (by simp)

end Provsan
