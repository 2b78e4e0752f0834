/-
**The build with `PAGE_MPK`.**

Instead of stepping over the instruction, the SIGSEGV handler of this build takes the protection
from the page of the access, for the remainder of the runtime.  The registers are never touched,
and a page faults once: what is recorded of a program are the violations that are the first ones of
their pages.

Main definitions:

* `Provsan.disablePageMPK`, `Provsan.Machine.servePage`, `Provsan.Machine.stepPage` — the handler of
  this build, and the processor with it;
* `Provsan.PageMonitor` — what the build does, without a runtime;
* `Provsan.deniedAccesses` — all violations of a program.

Main results:

* `Provsan.runTrace_pageMachine` — the machine is the monitor, and keeps the program's rights;
* `Provsan.faults_eq_firsts` — **what is recorded are the first violations of the pages**.
-/

import Provsan.Runtime.Machine

set_option relaxedAutoImplicit false
set_option autoImplicit false

namespace Provsan

/-- `disablePageMPK`: the page of the address gets key 0. -/
def disablePageMPK (si_addr : RustPtr) (keys : PageKeys) : PageKeys :=
  keys.protect (pageAddr si_addr) 0#4

namespace Machine

/-- The SIGSEGV of a refused access, in the build with `PAGE_MPK`. -/
def servePage (m : Machine) (a : Access) : Option Machine := do
  let h ← m.handler.addFaultAlloc a.ptr (m.keys.si_pkey a.ptr)
  some { m with handler := h, keys := disablePageMPK a.ptr m.keys }

/-- The faults of an instruction and their handler. -/
def paging : Restart Machine Access where
  blocked m a := a.denied m.ctx.pkru m.keys
  serve := servePage

/-- An instruction, started again at most `fuel` times.  No trap flag is set in this build. -/
def stepPage (fuel : ℕ) (m : Machine) : Instr → Option (List Event × Machine)
  | .access accs => do
      let (faults, m') ← paging.complete fuel m accs
      some (faults.map m.keys.fault, m')
  | .wrpkru pkru => some ([], { m with ctx := { m.ctx with pkru := pkru } })
  | .pkey_mprotect page key => some ([], { m with keys := m.keys.protect page key })
  | .hook c => do
      let h ← c.run m.handler
      some ([.hook c], { m with handler := h })

end Machine

/-! ### Opened pages -/

/-- The keys of the pages when some pages have lost their protection. -/
def PageKeys.opened (keys : PageKeys) (pages : List RustPtr) : PageKeys :=
  fun p => if p ∈ pages then 0#4 else keys p

@[simp] theorem opened_nil (keys : PageKeys) : keys.opened [] = keys := rfl

theorem pageAddr_pageAddr (ptr : RustPtr) : pageAddr (pageAddr ptr) = pageAddr ptr := by
  rw [pageAddr, pageAddr, BitVec.and_assoc, BitVec.and_self]

theorem disablePageMPK_opened (keys : PageKeys) (pages : List RustPtr) (ptr : RustPtr) :
    disablePageMPK ptr (keys.opened pages) = keys.opened (pages ++ [pageAddr ptr]) := by
  funext p
  rw [disablePageMPK, PageKeys.protect, pageAddr_pageAddr]
  by_cases hp : p = pageAddr ptr <;> simp [PageKeys.opened, hp]

theorem protect_opened (keys : PageKeys) (pages : List RustPtr) (page : RustPtr) (key : BitVec 4) :
    (keys.opened pages).protect page key =
      (keys.protect page key).opened (pages.filter (· ≠ pageAddr page)) := by
  funext p
  by_cases hp : p = pageAddr page <;> simp [PageKeys.opened, PageKeys.protect, hp]

/-- The rights of key 0, which no program is to take away. -/
def ZeroOpen (pkru : BitVec 32) : Prop := BitField.read 2 pkru 0 = PKEY_ENABLE_ACCESS

instance (pkru : BitVec 32) : Decidable (ZeroOpen pkru) :=
  inferInstanceAs (Decidable (_ = _))

/-- **A page without protection refuses nothing**, and the others are as before. -/
theorem denied_opened {pkru : BitVec 32} (hzero : ZeroOpen pkru) (keys : PageKeys)
    (pages : List RustPtr) (a : Access) :
    a.denied pkru (keys.opened pages) = (a.denied pkru keys && pageAddr a.ptr ∉ pages) := by
  by_cases ha : pageAddr a.ptr ∈ pages
  · have hkey : (keys.opened pages).key a.ptr = 0#4 := if_pos ha
    rw [not_denied_of_open (by rw [hkey]; exact hzero)]
    simp [ha]
  · have hkey : (keys.opened pages).key a.ptr = keys.key a.ptr := if_neg ha
    rw [Access.denied, PageKeys.si_pkey, hkey]
    simp [ha, Access.denied, PageKeys.si_pkey]

/-! ### The monitor -/

/-- What the build does: the word of the program, the keys that the program has given the pages, and
the pages that have lost their protection since. -/
structure PageMonitor where
  pkru : BitVec 32
  keys : PageKeys
  pages : List RustPtr

namespace PageMonitor

def page (a : Access) : RustPtr := pageAddr a.ptr

/-- The violations of an instruction that are noticed: one for each page with its protection. -/
def violations (mon : PageMonitor) (accs : List Access) : List Access :=
  firsts page (accs.filter fun a => a.denied mon.pkru mon.keys && page a ∉ mon.pages)

/-- An instruction under the monitor. -/
def step (mon : PageMonitor) : Instr → List Event × PageMonitor
  | .access accs => ((mon.violations accs).map mon.keys.fault,
      { mon with pages := mon.pages ++ (mon.violations accs).map page })
  | .wrpkru pkru => ([], { mon with pkru := pkru })
  | .pkey_mprotect p key => ([], { mon with
      keys := mon.keys.protect p key
      pages := mon.pages.filter (· ≠ pageAddr p) })
  | .hook c => ([.hook c], mon)

/-- A program under the monitor. -/
def run (mon : PageMonitor) : List Instr → List Event × PageMonitor
  | [] => ([], mon)
  | i :: is => ((mon.step i).1 ++ (run (mon.step i).2 is).1, (run (mon.step i).2 is).2)

/-- The machine that the monitor describes. -/
def machine (mon : PageMonitor) (h : AllocSiteHandler) (efl : BitVec 64) : Machine where
  handler := h
  ctx := ⟨mon.pkru, efl⟩
  keys := mon.keys.opened mon.pages

end PageMonitor

/-! ### Served faults -/

/-- **Serving a fault opens its page** and touches no other one. -/
theorem opens_paging (pkru : BitVec 32) (hzero : ZeroOpen pkru) :
    Machine.paging.Opens PageMonitor.page fun m => m.ctx.pkru = pkru := by
  intro m a m' hm _ hserve
  obtain ⟨h, -, hm'⟩ := Option.bind_eq_some_iff.1 hserve
  obtain rfl := Option.some_inj.1 hm'
  refine ⟨hm, fun b => ?_⟩
  change b.denied m.ctx.pkru (disablePageMPK a.ptr m.keys) = _
  have hopened := disablePageMPK_opened m.keys [] a.ptr
  rw [opened_nil, List.nil_append] at hopened
  rw [hopened, denied_opened (hm ▸ hzero)]
  by_cases hb : pageAddr b.ptr = pageAddr a.ptr <;> simp [Machine.paging, PageMonitor.page, hb]

namespace PageMonitor

variable {fuel : ℕ}

theorem foldlM_servePage (mon : PageMonitor) {as : List Access}
    (hnew : ∀ a ∈ as, page a ∉ mon.pages) (hnodup : (as.map page).Nodup) (h : AllocSiteHandler)
    (efl : BitVec 64) : as.foldlM Machine.servePage (mon.machine h efl) =
      ((as.map mon.keys.fault).foldlM Event.run h).map fun h' =>
        { mon with pages := mon.pages ++ as.map page }.machine h' efl := by
  induction as generalizing mon h with
  | nil => simp [PageMonitor.machine]
  | cons a as ih =>
      rw [List.map_cons, List.nodup_cons] at hnodup
      have ha : page a ∉ mon.pages := hnew a (List.mem_cons_self ..)
      have hserve : (mon.machine h efl).servePage a = ((mon.keys.fault a).run h).map fun g =>
          { mon with pages := mon.pages ++ [page a] }.machine g efl := by
        have hkey : (mon.keys.opened mon.pages).si_pkey a.ptr = mon.keys.si_pkey a.ptr :=
          congrArg (BitVec.setWidth 32) (if_neg ha)
        change (h.addFaultAlloc a.ptr ((mon.keys.opened mon.pages).si_pkey a.ptr)).bind _ =
          (h.addFaultAlloc a.ptr (mon.keys.si_pkey a.ptr)).map _
        rw [hkey]
        cases h.addFaultAlloc a.ptr (mon.keys.si_pkey a.ptr) with
        | none => rfl
        | some g =>
            refine congrArg (fun keys => some (Machine.mk g _ keys)) ?_
            exact disablePageMPK_opened ..
      simp only [List.foldlM_cons, List.map_cons, hserve]
      cases (mon.keys.fault a).run h with
      | none => rfl
      | some g =>
          have hrest : ∀ b ∈ as, page b ∉ mon.pages ++ [page a] := by
            intro b hb hmem
            rcases List.mem_append.1 hmem with hold | hsame
            · exact hnew b (List.mem_cons_of_mem _ hb) hold
            · rw [List.mem_singleton] at hsame
              exact hnodup.1 (hsame ▸ List.mem_map_of_mem hb)
          have hih := ih { mon with pages := mon.pages ++ [page a] } hrest hnodup.2 g
          simp only [List.append_assoc, List.singleton_append] at hih
          exact hih

/-- The violations that are noticed are on different pages, all with their protection. -/
theorem nodup_violations (mon : PageMonitor) (accs : List Access) :
    ((mon.violations accs).map page).Nodup := nodup_map_firsts _

theorem notMem_pages_of_mem_violations {mon : PageMonitor} {accs : List Access} {a : Access}
    (ha : a ∈ mon.violations accs) : page a ∉ mon.pages := by
  have hmem := List.mem_filter.1 ((firsts_sublist _).subset ha)
  exact of_decide_eq_true (Bool.and_eq_true_iff.1 hmem.2).2

theorem length_violations_le (mon : PageMonitor) (accs : List Access) :
    (mon.violations accs).length ≤ accs.length :=
  ((firsts_sublist _).trans List.filter_sublist).length_le

/-- Key 0 stays open in the program. -/
def KeepsZeroOpen (is : List Instr) : Prop := ∀ pkru, .wrpkru pkru ∈ is → ZeroOpen pkru

/-- The instructions make no more accesses than that. -/
def AtMost (fuel : ℕ) (is : List Instr) : Prop := ∀ accs, .access accs ∈ is → accs.length ≤ fuel

theorem step_machine (mon : PageMonitor) (hzero : ZeroOpen mon.pkru) (h : AllocSiteHandler)
    (efl : BitVec 64) (i : Instr) (hfuel : AtMost fuel [i]) :
    (mon.machine h efl).stepPage fuel i = ((mon.step i).1.foldlM Event.run h).map
      fun h' => ((mon.step i).1, (mon.step i).2.machine h' efl) := by
  cases i with
  | access accs =>
      have hblocked : Machine.paging.blocked (mon.machine h efl) = fun a =>
          a.denied mon.pkru mon.keys && page a ∉ mon.pages := by
        funext a
        exact denied_opened hzero ..
      have hle : (firsts page (accs.filter (Machine.paging.blocked (mon.machine h efl)))).length ≤
          fuel := by
        rw [hblocked]
        exact (mon.length_violations_le accs).trans (hfuel accs (List.mem_singleton.2 rfl))
      have hcomplete := Restart.complete_eq (opens_paging mon.pkru hzero) fuel
        (show (mon.machine h efl).ctx.pkru = mon.pkru from rfl) hle
      rw [hblocked] at hcomplete
      change _ = ((mon.violations accs).foldlM Machine.servePage _).map
        (fun m => (mon.violations accs, m)) at hcomplete
      have hevents : (mon.violations accs).map (mon.machine h efl).keys.fault =
          (mon.violations accs).map mon.keys.fault := by
        refine List.map_congr_left fun a ha => congrArg (Event.fault a.ptr) ?_
        exact congrArg (BitVec.setWidth 32) (if_neg (notMem_pages_of_mem_violations ha))
      rw [Machine.stepPage, hcomplete, foldlM_servePage mon
        (fun a => notMem_pages_of_mem_violations) (mon.nodup_violations accs)]
      change Option.bind ((((mon.violations accs).map mon.keys.fault).foldlM Event.run h).map _
        |>.map _) _ = Option.map _ (((mon.violations accs).map mon.keys.fault).foldlM Event.run h)
      cases ((mon.violations accs).map mon.keys.fault).foldlM Event.run h with
      | none => rfl
      | some h' => exact congrArg (fun es => some (es, _)) hevents
  | wrpkru pkru => rfl
  | pkey_mprotect p key =>
      refine congrArg (fun keys => some ([], Machine.mk h _ keys)) ?_
      exact protect_opened ..
  | hook c => exact bind_hook h c fun h' => ([Event.hook c], mon.machine h' efl)

theorem runTrace_stepPage (mon : PageMonitor) (hzero : ZeroOpen mon.pkru) (h : AllocSiteHandler)
    (efl : BitVec 64) {is : List Instr} (hkeeps : KeepsZeroOpen is) (hfuel : AtMost fuel is) :
    runTrace (Machine.stepPage fuel) (mon.machine h efl) is =
      ((mon.run is).1.foldlM Event.run h).map fun h' =>
        ((mon.run is).1, (mon.run is).2.machine h' efl) := by
  induction is generalizing mon h with
  | nil => rfl
  | cons i is ih =>
      have hfirst : AtMost fuel [i] := fun accs haccs =>
        hfuel accs (List.mem_cons.2 (Or.inl (List.mem_singleton.1 haccs)))
      have hzero' : ZeroOpen (mon.step i).2.pkru := by
        cases i with
        | wrpkru pkru => exact hkeeps pkru (List.mem_cons_self ..)
        | access | pkey_mprotect | hook => exact hzero
      rw [runTrace_cons, step_machine mon hzero h efl i hfirst, PageMonitor.run,
        List.foldlM_append]
      cases (mon.step i).1.foldlM Event.run h with
      | none => rfl
      | some h' =>
          rw [Option.map_some, Option.bind_some, ih _ hzero' h'
            (fun pkru hp => hkeeps pkru (List.mem_cons_of_mem _ hp))
            fun accs haccs => hfuel accs (List.mem_cons_of_mem _ haccs)]
          change Option.map _ (Option.map _ _) = Option.map _ (Option.bind (some h') _)
          rw [Option.map_map, Option.bind_some]
          rfl

theorem pkru_run (mon : PageMonitor) (is : List Instr) :
    (mon.run is).2.pkru = is.foldl Instr.pkru mon.pkru := by
  induction is generalizing mon with
  | nil => rfl
  | cons i is ih =>
      rw [run, ih, List.foldl_cons]
      cases i <;> rfl

end PageMonitor

/-! ### Whole programs -/

/-- A program begins with all pages protected. -/
def Machine.pageMonitor (m : Machine) : PageMonitor := ⟨m.ctx.pkru, m.keys, []⟩

/-- The violations of a program, all of them. -/
def deniedAccesses (pkru : BitVec 32) (keys : PageKeys) : List Instr → List Access
  | [] => []
  | .access accs :: is => (accs.filter fun a => a.denied pkru keys) ++ deniedAccesses pkru keys is
  | i :: is => deniedAccesses (i.pkru pkru) (i.keys keys) is

/-- The addresses and keys of the faults among events. -/
def faultsOf : List Event → List (RustPtr × BitVec 32)
  | [] => []
  | .fault ptr pkey :: es => (ptr, pkey) :: faultsOf es
  | .hook _ :: es => faultsOf es

theorem faultsOf_append (es es' : List Event) :
    faultsOf (es ++ es') = faultsOf es ++ faultsOf es' := by
  induction es with
  | nil => rfl
  | cons e es ih => cases e <;> simp [faultsOf, ih]

theorem faultsOf_map_fault (keys : PageKeys) (as : List Access) :
    faultsOf (as.map keys.fault) = as.map fun a => (a.ptr, keys.si_pkey a.ptr) := by
  induction as with
  | nil => rfl
  | cons a as ih => exact congrArg _ ih

/-- The program does not change the keys of pages. -/
def KeepsKeys (is : List Instr) : Prop := ∀ page key, .pkey_mprotect page key ∉ is

theorem PageMonitor.violations_eq (mon : PageMonitor) (accs : List Access) :
    mon.violations accs = firsts page ((accs.filter fun a => a.denied mon.pkru mon.keys).filter
      fun a => page a ∉ mon.pages) := by
  rw [List.filter_filter]
  exact congrArg (firsts page) (List.filter_congr fun a _ => Bool.and_comm ..)

/-- The first violations of an instruction and what follows it: those of the instruction, and those
on pages that it has not opened. -/
theorem PageMonitor.firsts_step (mon : PageMonitor) (accs : List Access) (rest : List Access) :
    firsts page (((accs.filter fun a => a.denied mon.pkru mon.keys) ++ rest).filter fun a =>
        page a ∉ mon.pages) =
      mon.violations accs ++ firsts page (rest.filter fun a =>
        page a ∉ mon.pages ++ (mon.violations accs).map page) := by
  rw [violations_eq, List.filter_append]
  generalize (accs.filter fun a => a.denied mon.pkru mon.keys).filter _ = D
  rw [firsts_append, ← firsts_filter, List.filter_filter]
  · refine congrArg (fun l => firsts page D ++ firsts page l) (List.filter_congr fun b _ => ?_)
    rw [Bool.eq_iff_iff, Bool.and_eq_true_iff, decide_eq_true_iff, decide_eq_true_iff,
      decide_eq_true_iff, List.mem_append, not_or, List.mem_map, and_comm]
    refine and_congr_right fun _ => ⟨?_, ?_⟩
    · rintro hne ⟨a, ha, hab⟩
      exact hne a ((firsts_sublist D).subset ha) hab.symm
    · intro hno a ha hba
      obtain ⟨c, hc, hca⟩ : ∃ c ∈ firsts page D, page c = page a := exists_mem_firsts ha
      exact hno ⟨c, hc, hca.trans hba.symm⟩
  · intro a b hab
    rw [hab]

/-- What the monitor notices, when some pages are open already. -/
theorem PageMonitor.faultsOf_run (mon : PageMonitor) {is : List Instr} (hkeys : KeepsKeys is) :
    faultsOf (mon.run is).1 =
      (firsts page ((deniedAccesses mon.pkru mon.keys is).filter fun a =>
        page a ∉ mon.pages)).map fun a => (a.ptr, mon.keys.si_pkey a.ptr) := by
  induction is generalizing mon with
  | nil => rfl
  | cons i is ih =>
      have htail : KeepsKeys is := fun p key hmem => hkeys p key (List.mem_cons_of_mem _ hmem)
      rw [PageMonitor.run, faultsOf_append, ih _ htail]
      cases i with
      | access accs =>
          rw [deniedAccesses, firsts_step, List.map_append,
            ← faultsOf_map_fault mon.keys (mon.violations accs)]
          rfl
      | wrpkru pkru => rfl
      | pkey_mprotect p key => exact absurd (List.mem_cons_self ..) (hkeys p key)
      | hook c => rfl

/-- **The machine is the monitor**, and keeps the program's rights at every point. -/
theorem runTrace_pageMachine (fuel : ℕ) (m : Machine) (hzero : ZeroOpen m.ctx.pkru)
    (is : List Instr) (hkeeps : PageMonitor.KeepsZeroOpen is) (hfuel : PageMonitor.AtMost fuel is) :
    runTrace (Machine.stepPage fuel) m is =
        ((m.pageMonitor.run is).1.foldlM Event.run m.handler).map (fun h =>
          ((m.pageMonitor.run is).1, (m.pageMonitor.run is).2.machine h m.ctx.efl)) ∧
      ∀ r, runTrace (Machine.stepPage fuel) m is = some r →
        r.2.ctx = ⟨is.foldl Instr.pkru m.ctx.pkru, m.ctx.efl⟩ := by
  have hrun := m.pageMonitor.runTrace_stepPage hzero m.handler m.ctx.efl hkeeps hfuel
  refine ⟨hrun, fun r hr => ?_⟩
  change runTrace _ (m.pageMonitor.machine m.handler m.ctx.efl) is = some r at hr
  rw [hrun] at hr
  obtain ⟨h, -, rfl⟩ := Option.map_eq_some_iff.1 hr
  rw [PageMonitor.machine, m.pageMonitor.pkru_run]
  rfl

/-- A program that writes to a closed page twice. -/
theorem runTrace_pageMachine_writes :
    (runTrace (Machine.stepPage 1) closedMachine [closedWrite, closedWrite]).map (fun r => r.1) =
        some [.fault 0x1008#64 1#32] ∧
      ∀ r, runTrace (Machine.stepPage 1) closedMachine [closedWrite, closedWrite] = some r →
        r.2.ctx = closedContext := by
  have hone : ∀ i ∈ [closedWrite, closedWrite], i = closedWrite := by simp
  obtain ⟨hrun, hctx⟩ := runTrace_pageMachine 1 closedMachine (by decide)
    [closedWrite, closedWrite] (fun pkru hp => absurd (hone _ hp) (by simp [closedWrite]))
    fun accs haccs => by
      obtain rfl := Instr.access.inj (hone _ haccs)
      exact le_rfl
  exact ⟨(congrArg (Option.map fun r => r.1) hrun).trans rfl, hctx⟩

/-- **What is recorded are the first violations of the pages**, in every program that leaves the
keys of the pages as they are. -/
theorem faults_eq_firsts (fuel : ℕ) (m : Machine) (hzero : ZeroOpen m.ctx.pkru) (is : List Instr)
    (hkeeps : PageMonitor.KeepsZeroOpen is) (hfuel : PageMonitor.AtMost fuel is)
    (hkeys : KeepsKeys is) (r : List Event × Machine)
    (hrun : runTrace (Machine.stepPage fuel) m is = some r) :
    r.1.foldlM Event.run m.handler = some r.2.handler ∧
      faultsOf r.1 = (firsts PageMonitor.page (deniedAccesses m.ctx.pkru m.keys is)).map fun a =>
        (a.ptr, m.keys.si_pkey a.ptr) := by
  change runTrace _ (m.pageMonitor.machine m.handler m.ctx.efl) is = some r at hrun
  rw [m.pageMonitor.runTrace_stepPage hzero m.handler m.ctx.efl hkeeps hfuel] at hrun
  obtain ⟨h, hh, rfl⟩ := Option.map_eq_some_iff.1 hrun
  refine ⟨hh, ?_⟩
  have hfaults := m.pageMonitor.faultsOf_run hkeys
  have hall : (deniedAccesses m.ctx.pkru m.keys is).filter (fun a =>
      PageMonitor.page a ∉ m.pageMonitor.pages) = deniedAccesses m.ctx.pkru m.keys is :=
    List.filter_eq_self.2 fun a _ => decide_eq_true List.not_mem_nil
  change faultsOf _ = List.map _ (firsts PageMonitor.page
    ((deniedAccesses m.ctx.pkru m.keys is).filter _)) at hfaults
  rw [hall] at hfaults
  exact hfaults

/-- The second write is not recorded. -/
theorem faults_eq_firsts_writes : ∃ r,
    runTrace (Machine.stepPage 1) closedMachine [closedWrite, closedWrite] = some r ∧
      faultsOf r.1 = [(0x1008#64, 1#32)] := by
  have hone : ∀ i ∈ [closedWrite, closedWrite], i = closedWrite := by simp
  obtain ⟨r, hr⟩ := Option.isSome_iff_exists.1
    (show (runTrace (Machine.stepPage 1) closedMachine [closedWrite, closedWrite]).isSome from rfl)
  obtain ⟨-, hfaults⟩ := faults_eq_firsts 1 closedMachine (by decide) [closedWrite, closedWrite]
    (fun pkru hp => absurd (hone _ hp) (by simp [closedWrite]))
    (fun accs haccs => by
      obtain rfl := Instr.access.inj (hone _ haccs)
      exact le_rfl)
    (fun page key hp => absurd (hone _ hp) (by simp [closedWrite])) r hr
  exact ⟨r, hr, hfaults⟩

end Provsan
