/-
**Provenance through reallocations.**

A block that has been reallocated went through several sites, and a fault in it should put all of
them on record.  The handler keeps the associated sites in `FM`, keyed by site and not by block,
and `updateReallocChain` leaves a chain that is already stored as it is.  When two blocks of
different origin pass through one reallocation site, the chain of the second is therefore dropped
(`Provsan.not_reallocProvenance`); in the runs where that does not happen the provenance is complete
(`Provsan.reallocProvenance_of_keepsChain`).

Main definitions:

* `Provsan.Event`, `Provsan.Session`, `Provsan.SessionStep` — sequential runs of hooks and faults;
* `Provsan.ReallocProvenance` — a fault in a block records the whole history of the block;
* `Provsan.KeepsChain` — a step at which the chain of the reallocated block is not dropped;
* `Provsan.ChainsRecorded` — the invariant: `FM` covers the history of every live block.

Main results:

* `Provsan.Session.tracks` — in every session the handler tracks the live blocks;
* `Provsan.ChainsRecorded.step` — one step keeps the invariant;
* `Provsan.reallocProvenance_of_keepsChain`, `Provsan.not_reallocProvenance`.
-/

import Provsan.Runtime.Tracking

set_option relaxedAutoImplicit false
set_option autoImplicit false

namespace Provsan

/-! ### Sessions -/

/-- What happens in a sequential run: a hook is called, or an access faults. -/
inductive Event
  | hook (c : HookCall)
  | fault (ptr : RustPtr) (pkey : BitVec 32)
  deriving DecidableEq

/-- The handler together with the blocks that are live. -/
structure Session where
  handler : AllocSiteHandler
  live : Set Block

/-- The sequential runs under a well-formed allocator. -/
inductive SessionStep : Session → Event → Session → Prop
  | hook {h h' : AllocSiteHandler} {L L' : Set Block} {c : HookCall} (halloc : AllocStep L c L')
      (hcall : c.run h = some h') : SessionStep ⟨h, L⟩ (.hook c) ⟨h', L'⟩
  | fault {h h' : AllocSiteHandler} {L : Set Block} {ptr : RustPtr} {pkey : BitVec 32}
      (hcall : h.addFaultAlloc ptr pkey = some h') : SessionStep ⟨h, L⟩ (.fault ptr pkey) ⟨h', L⟩

namespace Session

/-- Before the first hook. -/
def start (allocSiteTotal : ℕ) : Session := ⟨AllocSiteHandler.init allocSiteTotal, ∅⟩

theorem tracks_step {S S' : Session} {e : Event} (ht : Tracks S.handler.allocationMap S.live)
    (hstep : SessionStep S e S') : Tracks S'.handler.allocationMap S'.live := by
  cases hstep with
  | hook halloc hcall =>
      obtain ⟨h', hcall', ht'⟩ := ht.exists_run halloc
      rw [hcall] at hcall'
      exact Option.some_inj.1 hcall' ▸ ht'
  | fault hcall =>
      rw [AllocSiteHandler.addFaultAlloc_frame hcall]
      exact ht

/-- **In every session the handler tracks the live blocks.** -/
theorem tracks {allocSiteTotal : ℕ} {es : List Event} {S : Session}
    (hrun : Run SessionStep (start allocSiteTotal) es S) :
    Tracks S.handler.allocationMap S.live :=
  hrun.invariant (I := fun S => Tracks S.handler.allocationMap S.live) Tracks.empty
    fun _ _ _ => tracks_step

/-- A sequence of calls an allocator can produce is a session without faults. -/
theorem exists_run_hooks {calls : List HookCall} {L : Set Block}
    (hrun : Run AllocStep ∅ calls L) (allocSiteTotal : ℕ) :
    ∃ h, Run SessionStep (start allocSiteTotal) (calls.map Event.hook) ⟨h, L⟩ ∧
      calls.foldlM (fun h c => HookCall.run c h) (AllocSiteHandler.init allocSiteTotal) =
        some h := by
  induction hrun with
  | nil => exact ⟨_, Run.nil, rfl⟩
  | @snoc cs L L' c _ halloc ih =>
      obtain ⟨h, hsession, hcalls⟩ := ih
      obtain ⟨h', hcall, -⟩ := (tracks hsession).exists_run halloc
      refine ⟨h', ?_, by simp [List.foldlM_append, hcalls, hcall]⟩
      rw [List.map_append]
      exact hsession.snoc (SessionStep.hook halloc hcall)

end Session

/-! ### Chains -/

namespace AllocSiteHandler

/-- The chain of a site depends on its triple only. -/
theorem chainOf_congr {h : AllocSiteHandler} {s t : AllocSite} (hst : s.siteId = t.siteId) :
    h.chainOf s = h.chainOf t := by
  rw [chainOf, chainOf, UnorderedMap.find_congr (AllocSite.beq_iff.2 hst)]

/-- A reallocation never takes a site off a chain. -/
theorem mem_chainOf_updateReallocChain {h : AllocSiteHandler} {oldAS newAS s t : AllocSite}
    (ht : t ∈ h.chainOf s) : t ∈ (h.updateReallocChain oldAS newAS).chainOf s := by
  obtain ⟨chain, hf, ht⟩ := mem_chainOf.1 ht
  refine mem_chainOf.2 ⟨chain, ?_, ht⟩
  rw [find_FM_updateReallocChain]
  split_ifs with hns
  · rw [UnorderedMap.find_congr hns, hf, Option.getD_some]
  · exact hf

/-- The chain of a site reached for the first time: the old site and the chain of the old site. -/
theorem chainOf_updateReallocChain_of_none {h : AllocSiteHandler} {oldAS newAS : AllocSite}
    (hnone : h.FM.find newAS = none) {s : SiteId}
    (hs : s = oldAS.siteId ∨ ∃ t ∈ h.chainOf oldAS, t.siteId = s) :
    ∃ t ∈ (h.updateReallocChain oldAS newAS).chainOf newAS, t.siteId = s := by
  have hchain : (h.updateReallocChain oldAS newAS).chainOf newAS =
      (((h.FM.find oldAS).getD UnorderedSet.empty).insert oldAS).elems := by
    rw [chainOf, find_FM_updateReallocChain, if_pos BEq.rfl, hnone, Option.getD_none]
  rw [hchain]
  rcases hs with rfl | ⟨t, ht, rfl⟩
  · -- an equal site may have been there before, and stands for the old one
    have hc : (((h.FM.find oldAS).getD UnorderedSet.empty).insert oldAS).contains oldAS = true := by
      rw [UnorderedSet.contains_insert, BEq.rfl, Bool.or_true]
    obtain ⟨t, ht, hbeq⟩ := UnorderedSet.contains_iff.1 hc
    exact ⟨t, ht, AllocSite.beq_iff.1 hbeq⟩
  · refine ⟨t, UnorderedSet.mem_insert.2 (Or.inl ?_), rfl⟩
    obtain ⟨chain, hf, ht⟩ := mem_chainOf.1 ht
    rwa [hf, Option.getD_some]

end AllocSiteHandler

/-- `FM` covers the histories: every earlier site of a live block is its present site again, or on
the chain of the present site. -/
def ChainsRecorded (S : Session) : Prop :=
  ∀ b ∈ S.live, ∀ s ∈ b.earlier,
    s = b.site ∨ ∃ t ∈ S.handler.chainOf (b.toSite DEFAULT_PKEY true), t.siteId = s

/-- **What a step must meet for no site to be lost**: a reallocation of a live block finds no chain
stored for its new site, or one that already covers the history of the block, the new site itself
apart. -/
def KeepsChain (S : Session) : Event → Prop
  | .hook (.realloc newPtr newSize oldPtr _ localID bbName funcName) =>
      ∀ o ∈ S.live, o.base = oldPtr → ∀ chain,
        S.handler.FM.find ⟨newPtr, newSize, localID, bbName, funcName, DEFAULT_PKEY, true⟩ =
            some chain →
          ∀ s ∈ o.history, s = ⟨localID, bbName, funcName⟩ ∨ ∃ t ∈ chain.elems, t.siteId = s
  | _ => True

namespace ChainsRecorded

theorem start (allocSiteTotal : ℕ) : ChainsRecorded (Session.start allocSiteTotal) :=
  fun b hb => absurd hb (Set.notMem_empty b)

/-- Blocks without a past, and fewer blocks, keep the invariant as long as `FM` does not change. -/
theorem of_FM_eq {S S' : Session} (hrec : ChainsRecorded S)
    (hFM : S'.handler.FM = S.handler.FM)
    (hlive : ∀ b ∈ S'.live, b ∈ S.live ∨ b.earlier = []) : ChainsRecorded S' := by
  intro b hb s hs
  rcases hlive b hb with hb | hnil
  · rw [AllocSiteHandler.chainOf, hFM]
    exact hrec b hb s hs
  · rw [hnil] at hs
    exact absurd hs (by simp)

/-- **One step keeps the histories covered**, when it does not drop a chain. -/
theorem step {S S' : Session} {e : Event} (ht : Tracks S.handler.allocationMap S.live)
    (hrec : ChainsRecorded S) (hkeep : KeepsChain S e) (hstep : SessionStep S e S') :
    ChainsRecorded S' := by
  cases hstep with
  | fault hcall =>
      rw [AllocSiteHandler.addFaultAlloc_frame hcall]
      exact hrec.of_FM_eq rfl fun b hb => Or.inl hb
  | @hook h h' L L' c halloc hcall =>
      cases halloc with
      | @alloc b _ hearlier =>
          obtain rfl := Option.some_inj.1 ((run_alloc (create_of_block b _ _)).symm.trans hcall)
          refine hrec.of_FM_eq rfl fun c hc => ?_
          rcases Set.mem_insert_iff.1 hc with rfl | hc
          · exact Or.inr hearlier
          · exact Or.inl hc
      | @reallocUntracked b oldPtr oldSize hold _ hearlier =>
          have herr := ht.getAllocSite_of_forall_notMem hold
          obtain rfl := Option.some_inj.1 ((run_realloc_of_not_isValid (by rw [herr]; rfl)
            (create_of_block b _ _)).symm.trans hcall)
          refine hrec.of_FM_eq rfl fun c hc => ?_
          rcases Set.mem_insert_iff.1 hc with rfl | hc
          · exact Or.inr hearlier
          · exact Or.inl hc
      | dealloc size localID ho =>
          obtain rfl := Option.some_inj.1 hcall
          exact hrec.of_FM_eq rfl fun c hc => Or.inl hc.1
      | deallocUntracked size localID _ =>
          obtain rfl := Option.some_inj.1 hcall
          exact hrec.of_FM_eq rfl fun c hc => Or.inl hc
      | @realloc b o oldSize ho _ hearlier =>
          have hd := ht.getAllocSite_of_mem ho o.base_mem_addrs
          obtain rfl := Option.some_inj.1 ((run_realloc_of_isValid hd.isValid
            (create_of_block b _ _)).symm.trans hcall)
          intro c hc s hs
          rcases Set.mem_insert_iff.1 hc with rfl | hc
          · -- the new block: its past is the history of the block it replaces
            rw [hearlier] at hs
            cases hf : h.FM.find (c.toSite DEFAULT_PKEY true) with
            | some chain =>
                rcases hkeep o ho rfl chain hf s hs with rfl | ⟨t, htc, rfl⟩
                · exact Or.inl rfl
                · refine Or.inr ⟨t, ?_, rfl⟩
                  refine AllocSiteHandler.mem_chainOf_updateReallocChain ?_
                  rw [AllocSiteHandler.chainOf, hf]
                  exact htc
            | none =>
                refine Or.inr (AllocSiteHandler.chainOf_updateReallocChain_of_none hf ?_)
                rw [hd.siteId]
                rcases List.mem_cons.1 hs with rfl | hs
                · exact Or.inl rfl
                · rcases hrec o ho s hs with rfl | ⟨t, htc, rfl⟩
                  · exact Or.inl rfl
                  · refine Or.inr ⟨t, ?_, rfl⟩
                    rwa [AllocSiteHandler.chainOf_congr (t := o.toSite DEFAULT_PKEY true) hd.siteId]
          · -- the other blocks: chains only grow
            rcases hrec c hc.1 s hs with rfl | ⟨t, htc, rfl⟩
            · exact Or.inl rfl
            · exact Or.inr ⟨t, AllocSiteHandler.mem_chainOf_updateReallocChain htc, rfl⟩

/-- **A run that drops no chain keeps the histories covered.** -/
theorem run {allocSiteTotal : ℕ} {es : List Event} {S : Session}
    (hrun : Run (Guarded KeepsChain SessionStep) (Session.start allocSiteTotal) es S) :
    ChainsRecorded S := by
  have hinv : Tracks S.handler.allocationMap S.live ∧ ChainsRecorded S := by
    refine hrun.invariant
      (I := fun S => Tracks S.handler.allocationMap S.live ∧ ChainsRecorded S)
      ⟨Tracks.empty, start allocSiteTotal⟩ ?_
    rintro S e S' ⟨ht, hrec⟩ ⟨hkeep, hstep⟩
    exact ⟨Session.tracks_step ht hstep, hrec.step ht hkeep hstep⟩
  exact hinv.2

end ChainsRecorded

/-! ### Faults and histories -/

/-- A fault inside a live block puts the whole history of the block on record, in the state it
leaves; and it returns whenever the statistics are off. -/
structure ReallocProvenance (S : Session) : Prop where
  returns : S.handler.allocSiteCount = 0 → ∀ p pkey, ∃ h', S.handler.addFaultAlloc p pkey = some h'
  records : ∀ b ∈ S.live, ∀ p ∈ b.addrs, ∀ pkey h', S.handler.addFaultAlloc p pkey = some h' →
    ∀ s ∈ b.history, ∃ t ∈ h'.faultSet.elems, t.siteId = s

/-- Covered histories are recorded by faults. -/
theorem ChainsRecorded.reallocProvenance {S : Session}
    (ht : Tracks S.handler.allocationMap S.live) (hrec : ChainsRecorded S) :
    ReallocProvenance S := by
  refine ⟨fun h0 p pkey => AllocSiteHandler.exists_addFaultAlloc h0 p pkey, ?_⟩
  intro b hb p hp pkey h' hcall s hs
  have hd := ht.getAllocSite_of_mem hb hp
  have hfound : ∀ t : AllocSite, t.siteId = s → h'.faultSet.contains t = true →
      ∃ t ∈ h'.faultSet.elems, t.siteId = s := by
    intro t hts hc
    obtain ⟨u, hu, hbeq⟩ := UnorderedSet.contains_iff.1 hc
    exact ⟨u, hu, (AllocSite.beq_iff.1 hbeq).trans hts⟩
  have hown : b.site = s → ∃ t ∈ h'.faultSet.elems, t.siteId = s := by
    rintro rfl
    refine hfound _ hd.siteId ?_
    exact (AllocSiteHandler.contains_addFaultAlloc hcall hd.isValid _).2 (Or.inr (Or.inl BEq.rfl))
  rcases List.mem_cons.1 hs with rfl | hs
  · exact hown rfl
  · rcases hrec b hb s hs with rfl | ⟨t, htc, hts⟩
    · exact hown rfl
    · refine hfound t hts ?_
      refine (AllocSiteHandler.contains_addFaultAlloc hcall hd.isValid t).2
        (Or.inr (Or.inr ⟨t, ?_, BEq.rfl⟩))
      rwa [AllocSiteHandler.chainOf_congr (t := b.toSite DEFAULT_PKEY true) hd.siteId]

/-- **Realloc provenance is complete** after every run in which no reallocation drops a chain. -/
theorem reallocProvenance_of_keepsChain (allocSiteTotal : ℕ) (es : List Event) (S : Session)
    (hrun : Run (Guarded KeepsChain SessionStep) (Session.start allocSiteTotal) es S) :
    ReallocProvenance S :=
  (ChainsRecorded.run hrun).reallocProvenance (Session.tracks (hrun.mono fun _ _ _ h => h.2))

theorem reallocProvenance_of_keepsChain_grow :
    ∃ S : Session, grownBlock ∈ S.live ∧ ReallocProvenance S := by
  have hmake : SessionStep (Session.start 0) (.hook smallBlock.allocCall) ⟨_, _⟩ :=
    SessionStep.hook (AllocStep.alloc (fun c hc => absurd hc (Set.notMem_empty c)) rfl)
      (run_alloc (create_of_block smallBlock _ _))
  have honly : ∀ c ∈ insert smallBlock (∅ : Set Block), c ≠ smallBlock →
      Disjoint grownBlock.addrs c.addrs := fun c hc hne =>
    absurd ((Set.mem_insert_iff.1 hc).resolve_right (Set.notMem_empty c)) hne
  obtain ⟨S, hgrow, hmem⟩ : ∃ S, SessionStep ⟨(AllocSiteHandler.init 0).insertAllocSite 0x1000#64
      (smallBlock.toSite 0#32 false), insert smallBlock ∅⟩
      (.hook (grownBlock.reallocCall 0x1000#64 16)) S ∧ grownBlock ∈ S.live :=
    ⟨⟨_, _⟩, SessionStep.hook (AllocStep.realloc (o := smallBlock) 16 (Set.mem_insert ..) honly rfl)
      (run_realloc_of_isValid (by decide) (create_of_block grownBlock _ _)), Set.mem_insert ..⟩
  -- the first reallocation at a site finds no chain there
  have hkeep : KeepsChain ⟨(AllocSiteHandler.init 0).insertAllocSite 0x1000#64
      (smallBlock.toSite 0#32 false), insert smallBlock ∅⟩
      (.hook (grownBlock.reallocCall 0x1000#64 16)) := by
    intro o _ _ chain hf
    exact absurd hf (by simp [AllocSiteHandler.init, AllocSiteHandler.insertAllocSite])
  have hfirst : KeepsChain (Session.start 0) (.hook smallBlock.allocCall) := trivial
  exact ⟨S, hmem, reallocProvenance_of_keepsChain 0 _ S
    ((Run.nil.snoc ⟨hfirst, hmake⟩).snoc ⟨hkeep, hgrow⟩)⟩

/-! ### The condition is exact -/

/-- A reallocation that drops a chain leaves a history uncovered. -/
theorem KeepsChain.of_chainsRecorded {S S' : Session} {e : Event}
    (ht : Tracks S.handler.allocationMap S.live) (hstep : SessionStep S e S')
    (hrec : ChainsRecorded S') : KeepsChain S e := by
  cases hstep with
  | fault hcall => trivial
  | @hook h h' L L' c halloc hcall =>
      cases halloc with
      | alloc | dealloc | deallocUntracked => trivial
      | @reallocUntracked b oldPtr oldSize hold _ _ =>
          rintro o ho rfl
          exact absurd o.base_mem_addrs (hold o ho)
      | @realloc b o oldSize ho _ hearlier =>
          intro o' ho' hbase chain hf s hs
          obtain rfl := ht.eq_of_mem ho' ho (hbase ▸ o'.base_mem_addrs) o.base_mem_addrs
          have hd := ht.getAllocSite_of_mem ho o'.base_mem_addrs
          obtain rfl := Option.some_inj.1 ((run_realloc_of_isValid hd.isValid
            (create_of_block b _ _)).symm.trans hcall)
          rcases hrec b (Set.mem_insert ..) s (hearlier ▸ hs) with rfl | ⟨t, htc, rfl⟩
          · exact Or.inl rfl
          · -- the chain that was stored is the one that is there now
            refine Or.inr ⟨t, ?_, rfl⟩
            change t ∈ ((h.updateReallocChain _ _).chainOf _) at htc
            rw [AllocSiteHandler.chainOf, AllocSiteHandler.find_FM_updateReallocChain,
              if_pos BEq.rfl] at htc
            change h.FM.find (b.toSite DEFAULT_PKEY true) = some chain at hf
            rwa [hf, Option.getD_some] at htc

/-- As long as no fault is on record, provenance holds exactly when the histories are covered. -/
theorem ReallocProvenance.chainsRecorded {S : Session}
    (ht : Tracks S.handler.allocationMap S.live) (h0 : S.handler.allocSiteCount = 0)
    (hempty : S.handler.faultSet = UnorderedSet.empty) (hprov : ReallocProvenance S) :
    ChainsRecorded S := by
  intro b hb s hs
  have hd := ht.getAllocSite_of_mem hb b.base_mem_addrs
  obtain ⟨h', hcall⟩ := hprov.returns h0 b.base DEFAULT_PKEY
  obtain ⟨t, htm, rfl⟩ := hprov.records b hb b.base b.base_mem_addrs DEFAULT_PKEY h' hcall s
    (List.mem_cons_of_mem _ hs)
  rcases (AllocSiteHandler.contains_addFaultAlloc hcall hd.isValid t).1
    (UnorderedSet.contains_of_mem htm) with h | h | ⟨a, ha, hbeq⟩
  · rw [hempty, UnorderedSet.contains_empty] at h
    exact absurd h (by simp)
  · exact Or.inl ((AllocSite.beq_iff.1 h).symm.trans hd.siteId)
  · refine Or.inr ⟨a, ?_, AllocSite.beq_iff.1 hbeq⟩
    rwa [AllocSiteHandler.chainOf_congr (t := b.toSite DEFAULT_PKEY true) hd.siteId] at ha

/-- **A step drops no chain exactly when provenance holds after it**, in a session whose histories
are covered and in which nothing has faulted yet. -/
theorem keepsChain_iff_reallocProvenance {S S' : Session} {e : Event}
    (ht : Tracks S.handler.allocationMap S.live) (hrec : ChainsRecorded S)
    (hstep : SessionStep S e S') (h0 : S'.handler.allocSiteCount = 0)
    (hempty : S'.handler.faultSet = UnorderedSet.empty) :
    KeepsChain S e ↔ ReallocProvenance S' := by
  have ht' := Session.tracks_step ht hstep
  constructor
  · exact fun hkeep => (hrec.step ht hkeep hstep).reallocProvenance ht'
  · exact fun hprov => KeepsChain.of_chainsRecorded ht hstep (hprov.chainsRecorded ht' h0 hempty)

/-! ### Two blocks through one site -/

/-- A second block, from another site of the function. -/
def otherBlock : Block where
  base := 0x3000#64
  size := 16
  site := ⟨2, "entry", "make"⟩
  earlier := []
  base_ne := by decide
  size_pos := smallBlock.size_pos
  id_nonneg := (by decide : (0 : Int64) ≤ 2)
  noWrap := by decide

/-- The second block after it has been reallocated at the site of `Provsan.grownBlock`. -/
def otherGrownBlock : Block where
  base := 0x4000#64
  size := 32
  site := ⟨1, "entry", "make"⟩
  earlier := otherBlock.history
  base_ne := by decide
  size_pos := grownBlock.size_pos
  id_nonneg := grownBlock.id_nonneg
  noWrap := by decide

/-- Two blocks of different origin, reallocated one after the other at the same site. -/
def sharedSiteCalls : List HookCall :=
  [smallBlock.allocCall, grownBlock.reallocCall 0x1000#64 16, otherBlock.allocCall,
    otherGrownBlock.reallocCall 0x3000#64 16]

theorem run_sharedSiteCalls : ∃ L, otherGrownBlock ∈ L ∧ Run AllocStep ∅ sharedSiteCalls L := by
  have hgrown : ∀ c ∈ insert grownBlock (insert smallBlock (∅ : Set Block) \ {smallBlock}),
      c = grownBlock := by
    rintro c (rfl | ⟨hc, hne⟩)
    · rfl
    · exact absurd ((Set.mem_insert_iff.1 hc).resolve_right (Set.notMem_empty c)) hne
  refine ⟨_, Set.mem_insert .., (run_grow.snoc (AllocStep.alloc (b := otherBlock) ?_ rfl)).snoc
    (AllocStep.realloc (b := otherGrownBlock) (o := otherBlock) 16 (Set.mem_insert ..) ?_ rfl)⟩
  · intro c hc
    rw [hgrown c hc]
    exact (Block.disjoint_addrs_of_le (by decide)).symm
  · rintro c (rfl | hc) hne
    · exact absurd rfl hne
    · rw [hgrown c hc]
      exact (Block.disjoint_addrs_of_le (by decide)).symm

/-- **Realloc provenance is not complete in general**: the chain stored for the shared site is that
of the first block, and a fault in the second one does not name where it came from. -/
theorem not_reallocProvenance : ¬ ∀ (es : List Event) (S : Session),
    Run SessionStep (Session.start 0) es S → ReallocProvenance S := by
  intro hall
  obtain ⟨L, hmem, hrun⟩ := run_sharedSiteCalls
  obtain ⟨h, hsession, hcalls⟩ := Session.exists_run_hooks hrun 0
  have hprov := hall _ _ hsession
  have hcompute : ((sharedSiteCalls.foldlM (fun h c => HookCall.run c h)
      (AllocSiteHandler.init 0)).bind fun h => (h.addFaultAlloc 0x4000#64 1#32).map fun h' =>
        h'.faultSet.elems.map AllocSite.siteId) = some [grownBlock.site, smallBlock.site] := by
    decide
  have hcount : h.allocSiteCount = 0 := by
    have : (sharedSiteCalls.foldlM (fun h c => HookCall.run c h)
      (AllocSiteHandler.init 0)).map AllocSiteHandler.allocSiteCount = some 0 := by decide
    rw [hcalls] at this
    exact Option.some_inj.1 this
  obtain ⟨h', hcall⟩ := hprov.returns hcount 0x4000#64 1#32
  rw [hcalls, Option.bind_some, hcall, Option.map_some, Option.some_inj] at hcompute
  obtain ⟨t, ht, hts⟩ := hprov.records otherGrownBlock hmem 0x4000#64
    otherGrownBlock.base_mem_addrs 1#32 h' hcall otherBlock.site (by decide)
  have hin : otherBlock.site ∈ h'.faultSet.elems.map AllocSite.siteId :=
    List.mem_map.2 ⟨t, ht, hts⟩
  rw [hcompute] at hin
  revert hin
  decide

end Provsan
