/-
**Functions that execute alike.**

Two functions execute alike when every execution of the one is answered by one of the other, up to
what cannot be observed, and the answer leaves open whatever could be done next.  The functions that
the passes make differ from what they started with in their calls: some have been left out, and
others have another callee or other arguments.

Main definitions:

* `Provsan.Alike` — a relation between the executions of two functions;
* `Provsan.PathEvent.mapCall`, `Provsan.retell`, `Provsan.Function.retell` — other calls in place
  of the calls of a function, and some left out;
* `Provsan.Retellable` — when the change cannot be observed;
* `Provsan.PathEvent.source?`, `Provsan.GoOnAlike`, `Provsan.ExecutesAs` — executions without what
  the passes have added.

Main results:

* `Provsan.Alike.trans`, `Provsan.Alike.bind`, `Provsan.Alike.executesAs` — relations composed, and
  what they say of executions;
* `Provsan.Retellable.alike` — **a function and what it is retold as execute alike**.
-/

import Provsan.Lib.Simulation
import Provsan.Passes.Exec
import Provsan.Passes.Post
import Mathlib.Data.Option.Basic

set_option relaxedAutoImplicit false
set_option autoImplicit false

namespace Provsan

/-- Observations of an execution. -/
abbrev Observation := PathEvent → Option PathEvent

/-- **A relation between executions**: the functions answer each other's steps, begin together and
end together. -/
structure Alike (F : Function) (observe : Observation) (G : Function) (observe' : Observation)
    (R : Control → Control → Prop) : Prop extends
    Bisimulates F.Step observe G.Step observe' R where
  start : Option.Rel (fun B C => R (.inside B.id B.body) (.inside C.id C.body)) F.blocks.head?
    G.blocks.head?
  done : ∀ s t, R s t → (s = .done ↔ t = .done)

namespace Alike

variable {F G H : Function} {observe observe' observe'' : Observation}
  {R R' : Control → Control → Prop}

theorem symm (h : Alike F observe G observe' R) : Alike G observe' F observe fun t s => R s t where
  toBisimulates := h.toBisimulates.symm
  start := by
    have hs := h.start
    generalize F.blocks.head? = x at hs
    generalize G.blocks.head? = y at hs
    cases hs with
    | none => exact .none
    | some hR => exact .some hR
  done s t hR := (h.done t s hR).symm

theorem trans (h : Alike F observe G observe' R) (h' : Alike G observe' H observe'' R') :
    Alike F observe H observe'' fun s u => ∃ t, R s t ∧ R' t u where
  toBisimulates := h.toBisimulates.trans h'.toBisimulates
  start := by
    have hs := h.start
    have hs' := h'.start
    generalize F.blocks.head? = x at hs
    generalize G.blocks.head? = y at hs hs'
    generalize H.blocks.head? = z at hs'
    cases hs with
    | none =>
        cases hs'
        exact .none
    | some hR =>
        cases hs' with
        | some hR' => exact .some ⟨_, hR, hR'⟩
  done := by
    rintro s u ⟨t, hR, hR'⟩
    exact (h.done s t hR).trans (h'.done t u hR')

theorem bind (k : Observation) (h : Alike F observe G observe' R) :
    Alike F (fun e => (observe e).bind k) G (fun e => (observe' e).bind k) R where
  toBisimulates := h.toBisimulates.bind k
  start := h.start
  done := h.done

end Alike

/-! ### Executions without what the passes have added -/

/-- What is the source's of an event. -/
def PathEvent.source? (e : PathEvent) : Option PathEvent := if e.ofPass then none else some e

theorem filterMap_source? (path : List PathEvent) :
    path.filterMap PathEvent.source? = erase path := by
  induction path with
  | nil => rfl
  | cons e path ih =>
      have herase : erase (e :: path) = if !e.ofPass then e :: erase path else erase path :=
        List.filter_cons
      rw [List.filterMap_cons, ih, herase]
      cases he : e.ofPass <;> simp [PathEvent.source?, he]

/-- From where they have got to, `F` and `G` have ended both or neither, and each of them can go on
as the other can. -/
structure GoOnAlike (F G : Function) (s s' : Control) : Prop where
  done : s = .done ↔ s' = .done
  forth : ∀ path t, Run F.Step s path t → ∃ path' t', Run G.Step s' path' t' ∧ erase path' = path ∧
    (t = .done ↔ t' = .done)
  back : ∀ path' t', Run G.Step s' path' t' → ∃ t, Run F.Step s (erase path') t ∧
    (t = .done ↔ t' = .done)

/-- **`G` executes as `F` does**, with what the passes have added: no execution of `F` is lost, none
that is not one of `F` is gained, and wherever they have got to, they go on alike. -/
structure ExecutesAs (F G : Function) : Prop where
  complete : ∀ path s, F.Exec path s →
    ∃ path' s', G.Exec path' s' ∧ erase path' = path ∧ GoOnAlike F G s s'
  sound : ∀ path' s', G.Exec path' s' → ∃ s, F.Exec (erase path') s ∧ GoOnAlike F G s s'

namespace Alike

variable {F G : Function} {R : Control → Control → Prop} {s s' : Control}

/-- What `F` does, `G` does with what has been added. -/
theorem exists_run (h : Alike F some G PathEvent.source? R) (hR : R s s') {path : List PathEvent}
    {t : Control} (hrun : Run F.Step s path t) :
    ∃ path' t', Run G.Step s' path' t' ∧ erase path' = path ∧ R t t' := by
  obtain ⟨t', ⟨path', hrun', hpath'⟩, hR'⟩ := h.forth.observes hR (Observes.of_run hrun)
  rw [filterMap_source?] at hpath'
  exact ⟨path', t', hrun', hpath', hR'⟩

/-- What `G` does, `F` does without what has been added. -/
theorem exists_run_erase (h : Alike F some G PathEvent.source? R) (hR : R s s')
    {path' : List PathEvent} {t' : Control} (hrun : Run G.Step s' path' t') :
    ∃ t, Run F.Step s (erase path') t ∧ R t t' := by
  obtain ⟨t, ht, hR'⟩ := h.back.observes hR ⟨path', hrun, rfl⟩
  rw [filterMap_source?] at ht
  exact ⟨t, ht.run, hR'⟩

theorem goOnAlike (h : Alike F some G PathEvent.source? R) (hR : R s s') : GoOnAlike F G s s' where
  done := h.done s s' hR
  forth path t hrun := by
    obtain ⟨path', t', hrun', hpath', hR'⟩ := h.exists_run hR hrun
    exact ⟨path', t', hrun', hpath', h.done t t' hR'⟩
  back path' t' hrun := by
    obtain ⟨t, ht, hR'⟩ := h.exists_run_erase hR hrun
    exact ⟨t, ht, h.done t t' hR'⟩

theorem executesAs (h : Alike F some G PathEvent.source? R) : ExecutesAs F G where
  complete := by
    rintro path s ⟨entry, hentry, hrun⟩
    have hstart := h.start
    rw [hentry] at hstart
    generalize hG : G.blocks.head? = x at hstart
    cases hstart with
    | some hR =>
        obtain ⟨path', s', hrun', hpath', hR'⟩ := h.exists_run hR hrun
        exact ⟨path', s', ⟨_, hG, hrun'⟩, hpath', h.goOnAlike hR'⟩
  sound := by
    rintro path' s' ⟨entry', hentry', hrun⟩
    have hstart := h.start
    rw [hentry'] at hstart
    generalize hF : F.blocks.head? = x at hstart
    cases hstart with
    | some hR =>
        obtain ⟨s, hs, hR'⟩ := h.exists_run_erase hR hrun
        exact ⟨s, ⟨_, hF, hs⟩, h.goOnAlike hR'⟩

end Alike

/-! ### Functions with other calls -/

/-- An event with another call in place of its call. -/
def PathEvent.mapCall (f : CallSite → CallSite) : PathEvent → PathEvent
  | .returned cs => .returned (f cs)
  | .unwound cs => .unwound (f cs)
  | .jumped cs => .jumped (f cs)
  | e => e

/-- The instructions of a block that are not left out, with other calls. -/
def retell (drop : CallSite → Bool) (f : CallSite → CallSite) (body : List Instruction) :
    List Instruction :=
  (body.filter fun I => !I.call?.any drop).map (Instruction.mapCall f)

def BasicBlock.retell (drop : CallSite → Bool) (f : BasicBlock → CallSite → CallSite)
    (BB : BasicBlock) : BasicBlock :=
  { BB with body := Provsan.retell drop (f BB) BB.body, term := BB.term.mapCall (f BB) }

/-- A function with other calls in place of its own, which depend on the block, and some left
out. -/
def Function.retell (drop : CallSite → Bool) (f : BasicBlock → CallSite → CallSite) (F : Function) :
    Function :=
  { F with blocks := F.blocks.map (BasicBlock.retell drop f) }

/-- **When it cannot be observed that a function is told otherwise**: what is left out are calls of
hooks in the bodies of blocks, which nobody observes, and the other calls look the same. -/
structure Retellable (drop : CallSite → Bool) (f : BasicBlock → CallSite → CallSite) (F : Function)
    (observe observe' : Observation) : Prop where
  nodup : F.ids.Nodup
  dropped : ∀ cs, drop cs = true → cs.isHook = true
  hidden : ∀ BB ∈ F.blocks, ∀ cs ∈ BB.calls, drop cs = true → observe (.returned cs) = none
  term : ∀ BB ∈ F.blocks, ∀ cs ∈ BB.term.call?, cs.isHook = false
  isHook : ∀ BB ∈ F.blocks, ∀ cs ∈ BB.calls, drop cs = false → (f BB cs).isHook = cs.isHook
  returned : ∀ BB ∈ F.blocks, ∀ cs ∈ BB.calls, drop cs = false →
    observe (.returned cs) = observe' (.returned (f BB cs))
  left : ∀ BB ∈ F.blocks, ∀ cs ∈ BB.calls, cs.isHook = false →
    observe (.unwound cs) = observe' (.unwound (f BB cs)) ∧
      observe (.jumped cs) = observe' (.jumped (f BB cs))
  others : ∀ e : PathEvent, (∀ f, e.mapCall f = e) → observe e = observe' e

section

variable {drop : CallSite → Bool} {f : CallSite → CallSite}

@[simp] theorem retell_nil : retell drop f [] = [] := rfl

@[simp] theorem retell_other (n : ℕ) (rest : List Instruction) :
    retell drop f (.other n :: rest) = .other n :: retell drop f rest := rfl

theorem retell_call_of_drop {cs : CallSite} (h : drop cs = true) (rest : List Instruction) :
    retell drop f (.call cs :: rest) = retell drop f rest := by
  simp [retell, Instruction.call?, h]

theorem retell_call_of_keep {cs : CallSite} (h : drop cs = false) (rest : List Instruction) :
    retell drop f (.call cs :: rest) = .call (f cs) :: retell drop f rest := by
  simp [retell, Instruction.call?, h, Instruction.mapCall]

/-- A terminator with another call makes the same steps. -/
theorem Terminator.Step.mapCall {term : Terminator} {b : BlockId} {e : PathEvent} {s : Control}
    (hf : ∀ cs ∈ term.call?, (f cs).isHook = cs.isHook) (h : term.Step b e s) :
    (term.mapCall f).Step b (e.mapCall f) s := by
  cases h with
  | branch hd => exact .branch hd
  | exit => exact .exit
  | invoke => exact .invoke
  | unwind hno => exact .unwind ((hf _ rfl).trans hno)
  | callbr hd => exact .callbr hd

/-- It makes no others. -/
theorem Terminator.Step.of_mapCall {term : Terminator} {b : BlockId} {e' : PathEvent} {s : Control}
    (hf : ∀ cs ∈ term.call?, (f cs).isHook = cs.isHook) (h : (term.mapCall f).Step b e' s) :
    ∃ e, term.Step b e s ∧ e' = e.mapCall f := by
  cases term with
  | br dests =>
      cases h with
      | branch hd => exact ⟨_, .branch hd, rfl⟩
      | exit => exact ⟨_, .exit, rfl⟩
  | invoke cs normal unwind =>
      cases h with
      | invoke => exact ⟨_, .invoke, rfl⟩
      | unwind hno => exact ⟨_, .unwind ((hf _ rfl).symm.trans hno), rfl⟩
  | callbr cs dests =>
      cases h with
      | callbr hd => exact ⟨_, .callbr hd, rfl⟩

end

/-- The next call of a block is one of its calls. -/
theorem mem_calls_of_suffix {BB : BasicBlock} {cs : CallSite} {rest : List Instruction}
    (h : .call cs :: rest <:+ BB.body) : cs ∈ BB.calls :=
  List.mem_append_left _ (List.mem_filterMap.2 ⟨.call cs, h.subset (List.mem_cons_self ..), rfl⟩)

/-! ### What a function is retold as -/

namespace Retellable

variable {drop : CallSite → Bool} {f : BasicBlock → CallSite → CallSite} {F : Function}
  {observe observe' : Observation}

/-- Where the two functions stand. -/
inductive Rel (drop : CallSite → Bool) (f : BasicBlock → CallSite → CallSite) (F : Function) :
    Control → Control → Prop
  | inside {BB : BasicBlock} {rest : List Instruction} : BB ∈ F.blocks → rest <:+ BB.body →
      Rel drop f F (.inside BB.id rest) (.inside BB.id (retell drop (f BB) rest))
  | entering (pred b : BlockId) : Rel drop f F (.entering pred b) (.entering pred b)
  | done : Rel drop f F .done .done

theorem block?_retell (b : BlockId) :
    (F.retell drop f).block? b = (F.block? b).map (BasicBlock.retell drop f) := by
  unfold Function.block? Function.retell
  rw [List.find?_map]
  rfl

/-- A block that is found is found as it is retold. -/
theorem block?_of_mem (h : Retellable drop f F observe observe') {BB : BasicBlock}
    (hBB : BB ∈ F.blocks) :
    (F.retell drop f).block? BB.id = some (BB.retell drop f) := by
  rw [block?_retell, Function.block?_of_mem h.nodup hBB, Option.map_some]

/-- A call that is no hook is not left out. -/
theorem keep (h : Retellable drop f F observe observe') {cs : CallSite} (hno : cs.isHook = false) :
    drop cs = false := by
  cases hdrop : drop cs with
  | false => rfl
  | true => exact absurd (h.dropped cs hdrop) (by simp [hno])

theorem isHook_term (h : Retellable drop f F observe observe') {BB : BasicBlock}
    (hBB : BB ∈ F.blocks) : ∀ cs ∈ BB.term.call?, (f BB cs).isHook = cs.isHook :=
  fun cs hcs => h.isHook BB hBB cs (by simp [BasicBlock.calls, Option.mem_toList.2 hcs])
    (h.keep (h.term BB hBB cs hcs))

/-- A step of a terminator looks the same. -/
theorem observe_term (h : Retellable drop f F observe observe') {BB : BasicBlock}
    (hBB : BB ∈ F.blocks) {e : PathEvent} {s : Control} (hstep : BB.term.Step BB.id e s) :
    observe e = observe' (e.mapCall (f BB)) := by
  have hmem : ∀ cs ∈ BB.term.call?, cs ∈ BB.calls := fun cs hcs => by
    simp [BasicBlock.calls, Option.mem_toList.2 hcs]
  have hreturned : ∀ cs ∈ BB.term.call?, _ := fun cs hcs =>
    h.returned BB hBB cs (hmem cs hcs) (h.keep (h.term BB hBB cs hcs))
  have hleft : ∀ cs ∈ BB.term.call?, _ := fun cs hcs =>
    h.left BB hBB cs (hmem cs hcs) (h.term BB hBB cs hcs)
  generalize BB.term = term at hstep hreturned hleft
  cases hstep with
  | branch | exit => exact h.others _ fun _ => rfl
  | invoke => exact hreturned _ rfl
  | unwind => exact (hleft _ rfl).1
  | callbr => exact (hleft _ rfl).2

/-- Where a terminator leads to the functions stand alike. -/
theorem rel_term {BB : BasicBlock} {e : PathEvent} {s : Control} (h : BB.term.Step BB.id e s) :
    Rel drop f F s s := by
  generalize BB.term = term at h
  cases h with
  | branch | invoke | unwind | callbr => exact .entering _ _
  | exit => exact .done

/-- **The steps of the function are those of what it is retold as**, but for those left out. -/
theorem forth (h : Retellable drop f F observe observe') :
    Simulates F.Step observe (F.retell drop f).Step observe' (Rel drop f F) := by
  intro s t e s' hR hstep
  cases hR with
  | @inside BB rest hBB hrest =>
      generalize hid : BB.id = b at hstep
      cases hstep with
      | @inst _ n rest =>
          subst hid
          rw [h.others (.inst n) fun _ => rfl]
          exact ⟨_, .single .inst, .inside hBB ((List.suffix_cons _ rest).trans hrest)⟩
      | @call _ cs rest =>
          subst hid
          have hrest' : rest <:+ BB.body := (List.suffix_cons _ rest).trans hrest
          have hcs := mem_calls_of_suffix hrest
          cases hdrop : drop cs with
          | true =>
              rw [h.hidden BB hBB cs hcs hdrop, retell_call_of_drop hdrop]
              exact ⟨_, .nil _, .inside hBB hrest'⟩
          | false =>
              rw [h.returned BB hBB cs hcs hdrop, retell_call_of_keep hdrop]
              exact ⟨_, .single .call, .inside hBB hrest'⟩
      | @unwind _ cs rest hno =>
          subst hid
          have hcs := mem_calls_of_suffix hrest
          rw [(h.left BB hBB cs hcs hno).1, retell_call_of_keep (h.keep hno)]
          exact ⟨_, .single (.unwind ((h.isHook BB hBB cs hcs (h.keep hno)).trans hno)), .done⟩
      | term hblock hterm =>
          subst hid
          rw [Function.block?_of_mem h.nodup hBB] at hblock
          obtain rfl := Option.some_inj.1 hblock
          rw [h.observe_term hBB hterm]
          exact ⟨_, .single (.term (h.block?_of_mem hBB) (hterm.mapCall (h.isHook_term hBB))),
            rel_term hterm⟩
  | entering pred b =>
      cases hstep with
      | @enter _ _ BB hblock =>
          have hBB := Function.mem_of_block? hblock
          obtain rfl := Function.id_of_block? hblock
          have henter : (F.retell drop f).Step (.entering pred BB.id)
              (.enter BB.id (BB.phiValues pred)) (.inside BB.id (BB.retell drop f).body) :=
            @Function.Step.enter _ pred BB.id (BB.retell drop f) (h.block?_of_mem hBB)
          rw [h.others (.enter _ _) fun _ => rfl]
          exact ⟨_, .single henter, .inside hBB List.suffix_rfl⟩
  | done => cases hstep

/-- What is left out is gone past. -/
theorem exists_settled (h : Retellable drop f F observe observe') {BB : BasicBlock}
    (hBB : BB ∈ F.blocks) (rest : List Instruction) (hrest : rest <:+ BB.body) :
    ∃ rest', Observes F.Step observe (.inside BB.id rest) [] (.inside BB.id rest') ∧
      rest' <:+ BB.body ∧ retell drop (f BB) rest' = retell drop (f BB) rest ∧
        ∀ cs rest'', rest' = .call cs :: rest'' → drop cs = false := by
  induction rest with
  | nil => exact ⟨[], .nil _, hrest, rfl, fun cs rest'' hno => absurd hno (by simp)⟩
  | cons I rest ih =>
      cases I with
      | other n =>
          exact ⟨_, .nil _, hrest, rfl, fun cs rest'' hno => absurd hno (by simp)⟩
      | call cs =>
          cases hdrop : drop cs with
          | false =>
              refine ⟨_, .nil _, hrest, rfl, fun cs' rest'' hcs' => ?_⟩
              obtain ⟨hcall, -⟩ := List.cons.inj hcs'
              exact Instruction.call.inj hcall ▸ hdrop
          | true =>
              obtain ⟨rest', hobs, hsuffix, heq, hkeep⟩ :=
                ih ((List.suffix_cons _ rest).trans hrest)
              refine ⟨rest', ?_, hsuffix, by rw [heq, retell_call_of_drop hdrop], hkeep⟩
              have hhidden := h.hidden BB hBB cs (mem_calls_of_suffix hrest) hdrop
              exact (Observes.of_none hhidden .call).append hobs

/-- **The steps of what it is retold as are those of the function**, past what is left out. -/
theorem back (h : Retellable drop f F observe observe') :
    Simulates (F.retell drop f).Step observe' F.Step observe fun t s => Rel drop f F s t := by
  intro t s e' t' hR hstep
  cases hR with
  | @inside BB rest₀ hBB hrest₀ =>
      obtain ⟨rest, hobs, hrest, heq, hkeep⟩ := h.exists_settled hBB rest₀ hrest₀
      rw [← heq] at hstep
      -- it is enough to answer from where nothing is left out
      suffices hanswer : ∃ e s', F.Step (.inside BB.id rest) e s' ∧ observe e = observe' e' ∧
          Rel drop f F s' t' by
        obtain ⟨e, s', hs', he, hR'⟩ := hanswer
        exact ⟨s', he ▸ hobs.append (.single hs'), hR'⟩
      cases rest with
      | nil =>
          cases hstep with
          | term hblock hterm =>
              rw [h.block?_of_mem hBB] at hblock
              obtain rfl := Option.some_inj.1 hblock
              obtain ⟨e, hterm', rfl⟩ := hterm.of_mapCall (h.isHook_term hBB)
              exact ⟨e, t', .term (Function.block?_of_mem h.nodup hBB) hterm',
                h.observe_term hBB hterm', rel_term hterm'⟩
      | cons I rest =>
          have hrest' : rest <:+ BB.body := (List.suffix_cons _ rest).trans hrest
          cases I with
          | other n =>
              cases hstep with
              | inst =>
                  exact ⟨_, _, .inst, h.others _ fun _ => rfl, .inside hBB hrest'⟩
          | call cs =>
              have hdrop := hkeep cs rest rfl
              have hcs := mem_calls_of_suffix hrest
              rw [retell_call_of_keep hdrop] at hstep
              cases hstep with
              | call => exact ⟨_, _, .call, h.returned BB hBB cs hcs hdrop, .inside hBB hrest'⟩
              | unwind hno =>
                  have hno' := (h.isHook BB hBB cs hcs hdrop).symm.trans hno
                  exact ⟨_, _, .unwind hno', (h.left BB hBB cs hcs hno').1, .done⟩
  | entering pred b =>
      cases hstep with
      | enter hblock =>
          rw [block?_retell] at hblock
          obtain ⟨BB, hfound, rfl⟩ := Option.map_eq_some_iff.1 hblock
          have hBB := Function.mem_of_block? hfound
          obtain rfl := Function.id_of_block? hfound
          refine ⟨_, ?_, .inside hBB List.suffix_rfl⟩
          rw [← h.others (.enter _ _) fun _ => rfl]
          exact .single (.enter hfound)
  | done => cases hstep

/-- **A function and what it is retold as execute alike.** -/
theorem alike (h : Retellable drop f F observe observe') :
    Alike F observe (F.retell drop f) observe' (Rel drop f F) where
  forth := h.forth
  back := h.back
  start := by
    rw [Function.retell, List.head?_map]
    cases hhead : F.blocks.head? with
    | none => exact .none
    | some BB => exact .some (.inside (List.mem_of_mem_head? hhead) List.suffix_rfl)
  done s t hR := by
    cases hR <;> simp

end Retellable

end Provsan
