/-
**Allocation sites.**

The metadata the runtime keeps for every tracked heap block (`Runtime/alloc_site_handler.h`): the
block's address and size, and the triple of a function-local id, a basic-block name and a function
name that leads back to the allocation call in the source.  Two sites are equal for the runtime
when their triples are, whatever block they describe.

Main definitions:

* `Provsan.RustPtr` — addresses, with the unsigned order;
* `Provsan.AllocSite`, `Provsan.AllocSite.create` — a site, and its constructor with the assertions;
* `Provsan.AllocSite.containsPtr`, `Provsan.AllocSite.isValid` — the two tests on a site;
* `Provsan.SiteId`, `Provsan.AllocSite.siteId` — the triple that identifies a site.

Main results:

* `Provsan.AllocSite.beq_iff` — the runtime's equality is equality of the triples;
* `Provsan.AllocSite.containsPtr_iff` — without wrap-around the interval test is the expected one.
-/

import Mathlib.Algebra.Group.Nat.Defs
import Mathlib.Order.Basic
import Mathlib.Order.Lattice
import Mathlib.Tactic.Tauto

set_option relaxedAutoImplicit false
set_option autoImplicit false

namespace Provsan

/-- A `rust_ptr` is an address of the 64-bit address space; `nullptr` is `0#64`. -/
abbrev RustPtr := BitVec 64

instance : LinearOrder RustPtr where
  le := (· ≤ ·)
  lt := (· < ·)
  le_refl _ := BitVec.le_refl _
  le_trans _ _ _ := BitVec.le_trans
  le_antisymm _ _ := BitVec.le_antisymm
  le_total x y := BitVec.le_total x y
  lt_iff_le_not_ge x y := by bv_omega
  toDecidableLE := inferInstance
  toDecidableEq := inferInstance
  toDecidableLT := inferInstance

/-- What identifies an allocation site: the id inside its function, the name of its basic block and
the name of its function. -/
structure SiteId where
  localID : Int64
  bbName : String
  funcName : String
  deriving DecidableEq

structure AllocSite where
  ptr : RustPtr
  size : Int64
  localID : Int64
  bbName : String
  funcName : String
  pkey : BitVec 32
  isRealloc : Bool
  deriving DecidableEq

namespace AllocSite

/-- The error site, which is what the default constructor builds. -/
def error : AllocSite := ⟨0#64, -1, -1, "", "", 0#32, false⟩

/-- The public constructor: `none` stands for a failed assertion, which ends the process. -/
def create (ptr : RustPtr) (size localID : Int64) (bbName funcName : String) (pkey : BitVec 32)
    (isRealloc : Bool) : Option AllocSite :=
  if ptr ≠ 0#64 ∧ 0 < size ∧ 0 ≤ localID then
    some ⟨ptr, size, localID, bbName, funcName, pkey, isRealloc⟩
  else none

/-- Whether an address lies in the block of the site.  The end of the block wraps around. -/
def containsPtr (s : AllocSite) (ptrCmp : RustPtr) : Bool :=
  s.ptr ≤ ptrCmp && ptrCmp < s.ptr + s.size.toBitVec

def isValid (s : AllocSite) : Bool := s.ptr ≠ 0#64 && 0 < s.size && 0 ≤ s.localID

def addPkey (s : AllocSite) (faultPkey : BitVec 32) : AllocSite := { s with pkey := faultPkey }

/-- `operator==`: the function name, the block name and the id decide. -/
instance : BEq AllocSite where
  beq s t := s.funcName == t.funcName && s.bbName == t.bbName && s.localID == t.localID

def siteId (s : AllocSite) : SiteId := ⟨s.localID, s.bbName, s.funcName⟩

/-! ### Equality of sites -/

/-- **Two sites are equal for the runtime exactly when their triples are.** -/
theorem beq_iff {s t : AllocSite} : (s == t) = true ↔ s.siteId = t.siteId := by
  change (s.funcName == t.funcName && s.bbName == t.bbName && s.localID == t.localID) = true ↔ _
  simp only [Bool.and_eq_true, beq_iff_eq, siteId, SiteId.mk.injEq]
  tauto

instance : EquivBEq AllocSite where
  rfl := beq_iff.2 rfl
  symm h := beq_iff.2 (beq_iff.1 h).symm
  trans h h' := beq_iff.2 ((beq_iff.1 h).trans (beq_iff.1 h'))

@[simp] theorem siteId_addPkey (s : AllocSite) (k : BitVec 32) :
    (s.addPkey k).siteId = s.siteId := rfl

theorem addPkey_beq (s : AllocSite) (k : BitVec 32) : (s.addPkey k == s) = true :=
  beq_iff.2 rfl

/-! ### Validity -/

@[simp] theorem isValid_error : error.isValid = false := rfl

theorem isValid_iff {s : AllocSite} :
    s.isValid = true ↔ s.ptr ≠ 0#64 ∧ 0 < s.size ∧ 0 ≤ s.localID := by
  simp [isValid, and_assoc]

/-- The constructor builds valid sites only, and from its arguments. -/
theorem create_eq_some {ptr : RustPtr} {size localID : Int64} {bbName funcName : String}
    {pkey : BitVec 32} {isRealloc : Bool} {s : AllocSite} :
    create ptr size localID bbName funcName pkey isRealloc = some s ↔
      (ptr ≠ 0#64 ∧ 0 < size ∧ 0 ≤ localID) ∧
        s = ⟨ptr, size, localID, bbName, funcName, pkey, isRealloc⟩ := by
  rw [create]
  split_ifs with h
  · exact ⟨fun e => ⟨h, (Option.some_inj.1 e).symm⟩, fun e => by rw [e.2]⟩
  · exact ⟨fun e => absurd e (by simp), fun e => absurd e.1 h⟩

theorem isValid_of_create {ptr : RustPtr} {size localID : Int64} {bbName funcName : String}
    {pkey : BitVec 32} {isRealloc : Bool} {s : AllocSite}
    (h : create ptr size localID bbName funcName pkey isRealloc = some s) : s.isValid = true := by
  obtain ⟨hok, rfl⟩ := create_eq_some.1 h
  exact isValid_iff.2 hok

/-! ### The interval of a site -/

/-- A positive 64-bit size read as a bit pattern is the size itself. -/
theorem toNat_toBitVec_of_pos {size : Int64} (h : 0 < size) :
    size.toBitVec.toNat = size.toInt.toNat := by
  have hpos : 0 < size.toInt := by simpa using Int64.lt_iff_toInt_lt.1 h
  have hint : size.toInt = size.toBitVec.toInt := rfl
  have hcond := BitVec.toInt_eq_toNat_cond size.toBitVec
  split at hcond <;> omega

/-- Without wrap-around, the addresses of a site are those from its base up to its end. -/
theorem containsPtr_iff {s : AllocSite} (hpos : 0 < s.size)
    (hwrap : s.ptr.toNat + s.size.toInt.toNat < 2 ^ 64) (p : RustPtr) :
    s.containsPtr p = true ↔
      s.ptr.toNat ≤ p.toNat ∧ p.toNat < s.ptr.toNat + s.size.toInt.toNat := by
  have hsize := toNat_toBitVec_of_pos hpos
  have hend : (s.ptr + s.size.toBitVec).toNat = s.ptr.toNat + s.size.toInt.toNat := by
    rw [BitVec.toNat_add, hsize, Nat.mod_eq_of_lt hwrap]
  rw [containsPtr, Bool.and_eq_true, decide_eq_true_eq, decide_eq_true_eq, BitVec.le_def,
    BitVec.lt_def, hend]

end AllocSite

end Provsan
