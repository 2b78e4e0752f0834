/-
**The part of LLVM's IR that the passes see.**

A module is a list of functions, a function a list of basic blocks whose first one is the entry,
and a block a row of phi nodes, a body and a terminator.  Of the instructions the calls matter:
plain calls in the body, and invokes and `callbr`s, which end a block.  Instructions and blocks
carry an identity that stands for the pointer to them; the identity of what a pass adds says what
it was added for, so that it cannot be one of the source's.

Main definitions:

* `Provsan.InstId`, `Provsan.BlockId`, `Provsan.Value`, `Provsan.CallSite` — identities and calls;
* `Provsan.BasicBlock`, `Provsan.Function`, `Provsan.Module` — the containers;
* `Provsan.Function.preds`, `Provsan.Function.getSinglePredecessor`, `Provsan.Function.RPOT` — the
  control-flow graph;
* `Provsan.Function.Verified` — what the IR verifier guarantees.

Main results:

* `Provsan.Function.block?_eq_some` — blocks are found by their identity;
* `Provsan.Function.mem_RPOT`, `Provsan.Function.nodup_RPOT` — the traversal of a function lists the
  blocks that can be reached from its entry, each once.
-/

import Provsan.Lib.Traversal
import Mathlib.Data.Int.Notation
import Mathlib.Data.List.Basic

set_option relaxedAutoImplicit false
set_option autoImplicit false

namespace Provsan

/-! ### Syntax -/

/-- The identity of an instruction: one of the source, or the hook of a call. -/
inductive InstId
  | src (n : ℕ)
  | hookOf (i : InstId)
  deriving DecidableEq

/-- The identity of a basic block: one of the source, or the one made for the edge of an invoke. -/
inductive BlockId
  | src (n : ℕ)
  | splitOf (i : InstId)
  deriving DecidableEq

/-- An operand.  `call` is the result of a call instruction, and `other` any value that is neither
that nor one of the constants the passes make. -/
inductive Value
  | call (id : InstId)
  | int64 (n : ℤ)
  | null
  | str (s : String)
  | other (n : ℕ)
  deriving DecidableEq

/-- A debug location, and the one it was inlined at. -/
inductive DebugLoc
  | loc (filename : String) (line col : ℕ)
  | inlinedAt (filename : String) (line col : ℕ) (outer : DebugLoc)
  deriving DecidableEq

/-- A call instruction of any kind.  `calledFunction` is the name of the function that is called
directly, if it is. -/
structure CallSite where
  id : InstId
  calledFunction : Option String
  args : List Value
  debugLoc : Option DebugLoc
  deriving DecidableEq

inductive Instruction
  | call (cs : CallSite)
  | other (n : ℕ)
  deriving DecidableEq

/-- A phi node with its incoming blocks and values. -/
structure Phi where
  id : ℕ
  incoming : List (BlockId × Value)
  deriving DecidableEq

/-- The last instruction of a block.  `br` is any terminator that is no call: branches and
switches with their destinations, returns with none. -/
inductive Terminator
  | br (dests : List BlockId)
  | invoke (cs : CallSite) (normal unwind : BlockId)
  | callbr (cs : CallSite) (dests : List BlockId)
  deriving DecidableEq

structure BasicBlock where
  id : BlockId
  name : String
  phis : List Phi
  body : List Instruction
  term : Terminator
  deriving DecidableEq

inductive Linkage
  | external
  | internal
  deriving DecidableEq

/-- A function; the first block is the entry. -/
structure Function where
  name : String
  linkage : Linkage
  blocks : List BasicBlock
  deriving DecidableEq

structure Module where
  functions : List Function
  deriving DecidableEq

/-! ### Reading a function -/

def Instruction.call? : Instruction → Option CallSite
  | call cs => some cs
  | other _ => none

namespace Terminator

def call? : Terminator → Option CallSite
  | br _ => none
  | invoke cs _ _ => some cs
  | callbr cs _ => some cs

def succs : Terminator → List BlockId
  | br dests => dests
  | invoke _ normal unwind => [normal, unwind]
  | callbr _ dests => dests

end Terminator

def BasicBlock.calls (BB : BasicBlock) : List CallSite :=
  BB.body.filterMap Instruction.call? ++ BB.term.call?.toList

namespace Function

def isDeclaration (F : Function) : Bool := F.blocks.isEmpty

def block? (F : Function) (b : BlockId) : Option BasicBlock := F.blocks.find? (·.id = b)

def calls (F : Function) : List CallSite := F.blocks.flatMap BasicBlock.calls

def ids (F : Function) : List BlockId := F.blocks.map BasicBlock.id

def succs (F : Function) (b : BlockId) : List BlockId :=
  match F.block? b with
  | some BB => BB.term.succs
  | none => []

/-- The predecessors of a block, one for each edge into it. -/
def preds (F : Function) (d : BlockId) : List BlockId :=
  F.blocks.flatMap fun BB => (BB.term.succs.filter (· = d)).map fun _ => BB.id

/-- `getSinglePredecessor`: the predecessor of a block that has one edge into it. -/
def getSinglePredecessor (F : Function) (d : BlockId) : Option BlockId :=
  match F.preds d with
  | [p] => some p
  | _ => none

/-- `ReversePostOrderTraversal` of the function. -/
def RPOT (F : Function) : List BlockId :=
  match F.blocks with
  | [] => []
  | entry :: _ => Traversal.reversePostOrder F.succs F.blocks.length entry.id

/-- **What the IR verifier guarantees**, as far as it is needed here. -/
structure Verified (F : Function) : Prop where
  nodup : F.ids.Nodup
  /-- Terminators lead to blocks of the function. -/
  succs_mem : ∀ BB ∈ F.blocks, BB.term.succs ⊆ F.ids
  /-- The entry block has no predecessors. -/
  entry : ∀ BB, F.blocks.head? = some BB → F.preds BB.id = []
  /-- The unwind destination of an invoke is a landing pad, which a normal destination is not. -/
  invoke_ne : ∀ BB ∈ F.blocks, ∀ cs normal unwind, BB.term = .invoke cs normal unwind →
    normal ≠ unwind
  /-- A phi node has one entry for each edge into its block. -/
  phis : ∀ BB ∈ F.blocks, ∀ phi ∈ BB.phis, (phi.incoming.map Prod.fst).Perm (F.preds BB.id)

/-! ### Blocks and their identities -/

variable {F : Function}

theorem id_of_block? {b : BlockId} {BB : BasicBlock} (h : F.block? b = some BB) : BB.id = b := by
  simpa using List.find?_some h

theorem mem_of_block? {b : BlockId} {BB : BasicBlock} (h : F.block? b = some BB) :
    BB ∈ F.blocks :=
  List.mem_of_find?_eq_some h

/-- Blocks of a list with different identities are found by them. -/
theorem find?_eq_some_of_nodup {l : List BasicBlock} (hnd : (l.map BasicBlock.id).Nodup)
    {BB : BasicBlock} (h : BB ∈ l) : l.find? (·.id = BB.id) = some BB := by
  induction l with
  | nil => exact absurd h (by simp)
  | cons C l ih =>
      rw [List.map_cons, List.nodup_cons] at hnd
      rcases List.mem_cons.1 h with rfl | h
      · simp
      · have hne : C.id ≠ BB.id := fun heq => hnd.1 (heq ▸ List.mem_map_of_mem h)
        rw [List.find?_cons_of_neg (by simpa using hne), ih hnd.2 h]

theorem block?_of_mem (hnd : F.ids.Nodup) {BB : BasicBlock} (h : BB ∈ F.blocks) :
    F.block? BB.id = some BB :=
  find?_eq_some_of_nodup hnd h

theorem eq_of_id_eq (hnd : F.ids.Nodup) {B C : BasicBlock} (hB : B ∈ F.blocks)
    (hC : C ∈ F.blocks) (h : B.id = C.id) : B = C :=
  List.inj_on_of_nodup_map hnd hB hC h

/-- **A block is found by its identity.** -/
theorem block?_eq_some (hnd : F.ids.Nodup) {b : BlockId} {BB : BasicBlock} :
    F.block? b = some BB ↔ BB ∈ F.blocks ∧ BB.id = b := by
  constructor
  · exact fun h => ⟨mem_of_block? h, id_of_block? h⟩
  · rintro ⟨h, rfl⟩
    exact block?_of_mem hnd h

theorem succs_of_mem (hnd : F.ids.Nodup) {BB : BasicBlock} (h : BB ∈ F.blocks) :
    F.succs BB.id = BB.term.succs := by
  rw [succs, block?_of_mem hnd h]

theorem exists_of_mem_succs {b d : BlockId} (h : d ∈ F.succs b) :
    ∃ BB ∈ F.blocks, BB.id = b ∧ d ∈ BB.term.succs := by
  unfold succs at h
  cases hb : F.block? b with
  | none =>
      rw [hb] at h
      exact absurd h (by simp)
  | some BB =>
      rw [hb] at h
      exact ⟨BB, mem_of_block? hb, id_of_block? hb, h⟩

theorem mem_preds {p d : BlockId} :
    p ∈ F.preds d ↔ ∃ BB ∈ F.blocks, BB.id = p ∧ d ∈ BB.term.succs := by
  simp only [preds, List.mem_flatMap, List.mem_map, List.mem_filter, decide_eq_true_eq]
  constructor
  · rintro ⟨BB, hBB, _, ⟨hd, rfl⟩, rfl⟩
    exact ⟨BB, hBB, rfl, hd⟩
  · rintro ⟨BB, hBB, rfl, hd⟩
    exact ⟨BB, hBB, d, ⟨hd, rfl⟩, rfl⟩

/-- A block is as often a predecessor as it has edges. -/
theorem count_preds (hnd : F.ids.Nodup) {B : BasicBlock} (hB : B ∈ F.blocks) (d : BlockId) :
    (F.preds d).count B.id = B.term.succs.count d := by
  have hcount : ∀ C : BasicBlock, ((C.term.succs.filter (· = d)).map fun _ => C.id).count B.id =
      if C.id = B.id then C.term.succs.count d else 0 := by
    intro C
    rw [List.map_const', List.count_replicate, List.count_eq_length_filter]
    simp [beq_eq_decide]
  have hsum : ∀ l : List BasicBlock, (l.map BasicBlock.id).Nodup → B ∈ l →
      (l.map fun C => if C.id = B.id then C.term.succs.count d else 0).sum =
        B.term.succs.count d := by
    intro l
    induction l with
    | nil => exact fun _ h => absurd h (by simp)
    | cons C l ih =>
        intro hnd h
        rw [List.map_cons, List.nodup_cons] at hnd
        rw [List.map_cons, List.sum_cons]
        rcases List.mem_cons.1 h with rfl | h
        · -- the other blocks of the list are different ones
          have hrest : (l.map fun C => if C.id = B.id then C.term.succs.count d else 0) =
              l.map fun _ => 0 :=
            List.map_congr_left fun C hC => if_neg fun heq : C.id = B.id =>
              hnd.1 (heq ▸ List.mem_map_of_mem hC)
          rw [if_pos rfl, hrest]
          simp
        · have hne : C.id ≠ B.id := fun heq => hnd.1 (heq ▸ List.mem_map_of_mem h)
          rw [if_neg hne, ih hnd.2 h, Nat.zero_add]
  rw [preds, List.count_flatMap, ← hsum F.blocks hnd hB]
  exact congrArg List.sum (List.map_congr_left fun C _ => hcount C)

/-! ### The traversal of a function -/

theorem succs_subset (hsucc : ∀ BB ∈ F.blocks, BB.term.succs ⊆ F.ids) (b : BlockId) :
    F.succs b ⊆ F.ids := by
  intro d hd
  obtain ⟨BB, hBB, -, hd⟩ := exists_of_mem_succs hd
  exact hsucc BB hBB hd

/-- **The traversal lists the blocks that can be reached from the entry.** -/
theorem mem_RPOT (hsucc : ∀ BB ∈ F.blocks, BB.term.succs ⊆ F.ids) {entry : BasicBlock}
    (hentry : F.blocks.head? = some entry) {b : BlockId} :
    b ∈ F.RPOT ↔ Traversal.Reaches F.succs entry.id b := by
  cases hl : F.blocks with
  | nil =>
      rw [hl] at hentry
      exact absurd hentry (by simp)
  | cons C l =>
      rw [hl] at hentry
      obtain rfl := Option.some_inj.1 hentry
      have hroot : C.id ∈ F.ids := List.mem_map_of_mem (by simp [hl])
      have hlen : F.ids.length ≤ F.blocks.length := by simp [ids]
      rw [RPOT, hl]
      exact Traversal.mem_reversePostOrder (fun v _ => succs_subset hsucc v) hroot (hl ▸ hlen)

/-- **The traversal lists no block twice.** -/
theorem nodup_RPOT (hsucc : ∀ BB ∈ F.blocks, BB.term.succs ⊆ F.ids) : F.RPOT.Nodup := by
  cases hl : F.blocks with
  | nil =>
      rw [RPOT, hl]
      exact List.nodup_nil
  | cons C l =>
      have hroot : C.id ∈ F.ids := List.mem_map_of_mem (by simp [hl])
      have hlen : F.ids.length ≤ F.blocks.length := by simp [ids]
      rw [RPOT, hl]
      exact Traversal.nodup_reversePostOrder (fun v _ => succs_subset hsucc v) hroot (hl ▸ hlen)

theorem mem_ids_of_mem_RPOT (hsucc : ∀ BB ∈ F.blocks, BB.term.succs ⊆ F.ids) {b : BlockId}
    (h : b ∈ F.RPOT) : b ∈ F.ids := by
  cases hl : F.blocks with
  | nil =>
      rw [RPOT, hl] at h
      exact absurd h (by simp)
  | cons C l =>
      have hentry : F.blocks.head? = some C := by simp [hl]
      have hr := (mem_RPOT hsucc hentry).1 h
      rcases Relation.ReflTransGen.cases_tail hr with rfl | ⟨c, -, hstep⟩
      · exact List.mem_map_of_mem (by simp [hl])
      · exact succs_subset hsucc c hstep

end Function

namespace Module

/-- `getFunction`: functions are found by a name that is not empty. -/
def getFunction (M : Module) (name : String) : Option Function :=
  if name = "" then none else M.functions.find? (·.name = name)

/-- `getOrInsertFunction`: a function that does not exist is declared. -/
def getOrInsertFunction (M : Module) (name : String) : Module :=
  match M.getFunction name with
  | some _ => M
  | none => { M with functions := M.functions ++ [⟨name, .external, []⟩] }

/-- `setLinkage` of a function. -/
def setLinkage (M : Module) (name : String) (linkage : Linkage) : Module :=
  { M with functions := M.functions.map fun F =>
      if F.name = name then { F with linkage := linkage } else F }

end Module

end Provsan
