/-
**The protection-key rights register.**

`pkey_get` and `pkey_set` of `Runtime/provsan_utils.cpp`: the 32-bit PKRU word holds two bits of
rights for each of sixteen keys, the lower one denying every access and the higher one denying
writes.  For a key in range the two functions read and write a field of the word.

Main definitions:

* `Provsan.pkeyGet`, `Provsan.pkeySet` — the two functions, with their range checks;
* `Provsan.accessDenied` — when the processor refuses an access;
* `Provsan.pkeySets`, `Provsan.lastRights` — several calls of `pkey_set`, and the rights that the
  last accepted one gave a key.

Main results:

* `Provsan.pkeyGet_of_inRange`, `Provsan.pkeySet_of_inRange` — in range they are field operations;
* `Provsan.pkeySet_of_not_inRange` — out of range the word does not change;
* `Provsan.pkeySets_registers` — **the word behaves as sixteen independent registers**.
-/

import Provsan.Lib.BitField
import Mathlib.Data.List.Induction

set_option relaxedAutoImplicit false
set_option autoImplicit false

namespace Provsan

def PKEY_ENABLE_ACCESS : BitVec 32 := 0x0#32

def PKEY_DISABLE_ACCESS : BitVec 32 := 0x1#32

def PKEY_DISABLE_WRITE : BitVec 32 := 0x2#32

/-- `pkey_get`: the rights of a key, or `-1` for a key that does not exist. -/
def pkeyGet (pkru : BitVec 32) (key : Int32) : Int32 :=
  if key < 0 ∨ 15 < key then -1
  else Int32.ofBitVec ((pkru >>> (2 * key.toInt.toNat)) &&& 3#32)

/-- `pkey_set`: the returned code, and the word it leaves.  Shifts are taken modulo `2 ^ 32`, also
the one of the signed constant for key 15. -/
def pkeySet (pkru : BitVec 32) (key : Int32) (rights : BitVec 32) : Int32 × BitVec 32 :=
  if key < 0 ∨ 15 < key ∨ 3#32 < rights then (-1, pkru)
  else
    let mask := 3#32 <<< (2 * key.toInt.toNat)
    (0, (pkru &&& ~~~mask) ||| (rights <<< (2 * key.toInt.toNat)))

/-- Whether the processor refuses an access to a page of the key. -/
def accessDenied (pkru : BitVec 32) (key : Int32) (write : Bool) : Bool :=
  let rights := (pkeyGet pkru key).toBitVec
  (rights &&& PKEY_DISABLE_ACCESS) ≠ 0#32 || (write && (rights &&& PKEY_DISABLE_WRITE) ≠ 0#32)

/-! ### Keys in range -/

theorem mask_eq : BitField.mask 32 2 = 3#32 := rfl

/-- Rights of at most two bits fit into a field. -/
theorem fits_rights {rights : BitVec 32} (h : ¬ 3#32 < rights) : BitField.Fits 2 rights := by
  intro i hi
  have hle : rights.toNat ≤ 3 := by
    rw [BitVec.not_lt, BitVec.le_def] at h
    exact h
  have hpow : 2 ^ 2 ≤ 2 ^ i := Nat.pow_le_pow_right (by omega) hi
  exact Nat.testBit_lt_two_pow (by omega)

/-- What a field of rights holds passes the check of `pkey_set`. -/
theorem not_lt_read (pkru : BitVec 32) (k : ℕ) : ¬ 3#32 < BitField.read 2 pkru k := by
  rw [BitVec.not_lt, BitVec.le_def, BitField.read, mask_eq, BitVec.toNat_and]
  exact Nat.and_le_right

/-- The keys the processor has, as signed integers. -/
theorem inRange_iff {key : Int32} : ¬ (key < 0 ∨ 15 < key) ↔ 0 ≤ key.toInt ∧ key.toInt ≤ 15 := by
  rw [Int32.lt_iff_toInt_lt, Int32.lt_iff_toInt_lt, not_or, not_lt, not_lt]
  rfl

/-- In range, `pkey_get` reads a field. -/
theorem pkeyGet_of_inRange {key : Int32} (h : 0 ≤ key.toInt ∧ key.toInt ≤ 15) (pkru : BitVec 32) :
    pkeyGet pkru key = Int32.ofBitVec (BitField.read 2 pkru key.toInt.toNat) := by
  rw [pkeyGet, if_neg (inRange_iff.2 h), BitField.read, mask_eq]

/-- In range, `pkey_set` writes a field. -/
theorem pkeySet_of_inRange {key : Int32} (h : 0 ≤ key.toInt ∧ key.toInt ≤ 15)
    {rights : BitVec 32} (hr : ¬ 3#32 < rights) (pkru : BitVec 32) :
    pkeySet pkru key rights = (0, BitField.write 2 pkru key.toInt.toNat rights) := by
  have hcond : ¬ (key < 0 ∨ 15 < key ∨ 3#32 < rights) := by
    rw [← or_assoc]
    exact not_or.2 ⟨inRange_iff.2 h, hr⟩
  rw [pkeySet, if_neg hcond, BitField.write, mask_eq]

/-- Out of range, `pkey_set` fails and the word stays as it was. -/
theorem pkeySet_of_not_inRange {key : Int32} {rights : BitVec 32}
    (h : ¬ (0 ≤ key.toInt ∧ key.toInt ≤ 15) ∨ 3#32 < rights) (pkru : BitVec 32) :
    pkeySet pkru key rights = (-1, pkru) := by
  have hcond : key < 0 ∨ 15 < key ∨ 3#32 < rights := by
    rw [← or_assoc]
    exact h.imp_left fun hk => not_not.1 (mt inRange_iff.1 hk)
  rw [pkeySet, if_pos hcond]

/-- A key number of a fault, which is unsigned, as `pkey_get` and `pkey_set` take it. -/
theorem toInt_ofBitVec_of_lt {pkey : BitVec 32} (h : pkey.toNat < 16) :
    (Int32.ofBitVec pkey).toInt = pkey.toNat := by
  rw [Int32.toInt_ofBitVec, BitVec.toInt_eq_toNat_of_lt (by omega)]

theorem inRange_of_lt {pkey : BitVec 32} (h : pkey.toNat < 16) :
    0 ≤ (Int32.ofBitVec pkey).toInt ∧ (Int32.ofBitVec pkey).toInt ≤ 15 := by
  rw [toInt_ofBitVec_of_lt h]
  omega

theorem pkeyGet_of_lt {pkey : BitVec 32} (h : pkey.toNat < 16) (pkru : BitVec 32) :
    pkeyGet pkru (Int32.ofBitVec pkey) = Int32.ofBitVec (BitField.read 2 pkru pkey.toNat) := by
  rw [pkeyGet_of_inRange (inRange_of_lt h), toInt_ofBitVec_of_lt h, Int.toNat_natCast]

theorem pkeySet_of_lt {pkey : BitVec 32} (h : pkey.toNat < 16) {rights : BitVec 32}
    (hr : ¬ 3#32 < rights) (pkru : BitVec 32) :
    pkeySet pkru (Int32.ofBitVec pkey) rights = (0, BitField.write 2 pkru pkey.toNat rights) := by
  rw [pkeySet_of_inRange (inRange_of_lt h) hr, toInt_ofBitVec_of_lt h, Int.toNat_natCast]

/-- A denied access needs rights that are not those of `PKEY_ENABLE_ACCESS`. -/
theorem read_ne_of_accessDenied {pkey pkru : BitVec 32} (h : pkey.toNat < 16) {write : Bool}
    (hd : accessDenied pkru (Int32.ofBitVec pkey) write = true) :
    BitField.read 2 pkru pkey.toNat ≠ PKEY_ENABLE_ACCESS := by
  intro hzero
  rw [accessDenied, pkeyGet_of_lt h, hzero] at hd
  cases write <;> exact absurd hd (by decide)

/-! ### Sequences of calls -/

/-- Calls of `pkey_set` one after the other: the codes they return, and the word they leave. -/
def pkeySets (pkru : BitVec 32) (calls : List (Int32 × BitVec 32)) : List Int32 × BitVec 32 :=
  calls.foldl (fun s c => (s.1 ++ [(pkeySet s.2 c.1 c.2).1], (pkeySet s.2 c.1 c.2).2)) ([], pkru)

/-- The calls that `pkey_set` accepts: the key exists and the rights have two bits. -/
def PkeyAccepts (key : Int32) (rights : BitVec 32) : Prop :=
  (0 ≤ key.toInt ∧ key.toInt ≤ 15) ∧ ¬ 3#32 < rights

instance (key : Int32) (rights : BitVec 32) : Decidable (PkeyAccepts key rights) :=
  inferInstanceAs (Decidable (_ ∧ _))

/-- The rights of the last call with the key whose rights have two bits. -/
def lastRights (key : Int32) (calls : List (Int32 × BitVec 32)) : Option (BitVec 32) :=
  (calls.filter fun c => c.1 = key ∧ ¬ 3#32 < c.2).getLast?.map Prod.snd

@[simp] theorem pkeySets_nil (pkru : BitVec 32) : pkeySets pkru [] = ([], pkru) := rfl

theorem pkeySets_concat (pkru : BitVec 32) (calls : List (Int32 × BitVec 32)) (key : Int32)
    (rights : BitVec 32) : pkeySets pkru (calls ++ [(key, rights)]) =
      ((pkeySets pkru calls).1 ++ [(pkeySet (pkeySets pkru calls).2 key rights).1],
        (pkeySet (pkeySets pkru calls).2 key rights).2) := by
  rw [pkeySets, List.foldl_append]
  rfl

@[simp] theorem lastRights_nil (key : Int32) : lastRights key [] = none := rfl

theorem lastRights_concat (key : Int32) (calls : List (Int32 × BitVec 32)) (key' : Int32)
    (rights : BitVec 32) : lastRights key (calls ++ [(key', rights)]) =
      if key' = key ∧ ¬ 3#32 < rights then some rights else lastRights key calls := by
  rw [lastRights, List.filter_append]
  split_ifs with h
  · rw [List.filter_cons_of_pos (by simpa using h), List.filter_nil, List.getLast?_concat]
    rfl
  · rw [List.filter_cons_of_neg (by simpa using h), List.filter_nil, List.append_nil]
    rfl

theorem pkeySet_of_accepts {key : Int32} {rights : BitVec 32} (h : PkeyAccepts key rights)
    (pkru : BitVec 32) : (pkeySet pkru key rights).1 = 0 := by
  rw [pkeySet_of_inRange h.1 h.2]

theorem pkeySet_of_not_accepts {key : Int32} {rights : BitVec 32} (h : ¬ PkeyAccepts key rights)
    (pkru : BitVec 32) : pkeySet pkru key rights = (-1, pkru) := by
  refine pkeySet_of_not_inRange ?_ pkru
  by_contra hn
  rw [not_or, not_not] at hn
  exact h hn

/-- **One call through the eyes of `pkey_get`**: the rights of its own key change, when they are
accepted, and those of no other key do. -/
theorem pkeyGet_pkeySet {key : Int32} (hk : 0 ≤ key.toInt ∧ key.toInt ≤ 15) (pkru : BitVec 32)
    (key' : Int32) (rights : BitVec 32) : pkeyGet (pkeySet pkru key' rights).2 key =
      if key' = key ∧ ¬ 3#32 < rights then Int32.ofBitVec rights else pkeyGet pkru key := by
  by_cases hacc : PkeyAccepts key' rights
  · obtain ⟨hk', hr⟩ := hacc
    rw [pkeySet_of_inRange hk' hr, pkeyGet_of_inRange hk, pkeyGet_of_inRange hk]
    by_cases heq : key' = key
    · subst heq
      have hfit : 2 * (key'.toInt.toNat + 1) ≤ 32 := by omega
      rw [if_pos ⟨rfl, hr⟩, BitField.read_write_self hfit (fits_rights hr)]
    · have hne : key.toInt.toNat ≠ key'.toInt.toNat := by
        intro hnat
        exact heq (Int32.toInt_inj.1 (by omega))
      rw [if_neg fun h => heq h.1, BitField.read_write_of_ne hne (fits_rights hr)]
  · rw [pkeySet_of_not_accepts hacc]
    have hne : ¬ (key' = key ∧ ¬ 3#32 < rights) := by
      rintro ⟨rfl, hr⟩
      exact hacc ⟨hk, hr⟩
    rw [if_neg hne]

/-- After any calls, a key has the rights of the last accepted call for it. -/
theorem pkeyGet_pkeySets {key : Int32} (hk : 0 ≤ key.toInt ∧ key.toInt ≤ 15) (pkru : BitVec 32)
    (calls : List (Int32 × BitVec 32)) : pkeyGet (pkeySets pkru calls).2 key =
      ((lastRights key calls).map Int32.ofBitVec).getD (pkeyGet pkru key) := by
  induction calls using List.reverseRecOn with
  | nil => rfl
  | append_singleton calls c ih =>
      obtain ⟨key', rights⟩ := c
      rw [pkeySets_concat, pkeyGet_pkeySet hk, lastRights_concat, ih]
      split_ifs <;> rfl

theorem codes_pkeySets (pkru : BitVec 32) (calls : List (Int32 × BitVec 32)) :
    (pkeySets pkru calls).1 = calls.map fun c => if PkeyAccepts c.1 c.2 then 0 else -1 := by
  induction calls using List.reverseRecOn with
  | nil => rfl
  | append_singleton calls c ih =>
      obtain ⟨key, rights⟩ := c
      rw [pkeySets_concat, ih, List.map_append, List.map_cons, List.map_nil]
      split_ifs with hacc
      · rw [pkeySet_of_accepts hacc]
      · rw [pkeySet_of_not_accepts hacc]

/-- The word is determined by the rights of the sixteen keys. -/
theorem ext_pkeyGet {pkru pkru' : BitVec 32}
    (h : ∀ key : Int32, 0 ≤ key.toInt ∧ key.toInt ≤ 15 → pkeyGet pkru key = pkeyGet pkru' key) :
    pkru = pkru' := by
  refine BitField.ext_read (w := 2) (m := 16) (by omega) rfl fun k hk => ?_
  have hlt : (BitVec.ofNat 32 k).toNat < 16 := by
    rw [BitVec.toNat_ofNat]
    omega
  have hnat : (BitVec.ofNat 32 k).toNat = k := by
    rw [BitVec.toNat_ofNat]
    omega
  have hget := h _ (inRange_of_lt hlt)
  rw [pkeyGet_of_lt hlt, pkeyGet_of_lt hlt, hnat] at hget
  simpa using congrArg Int32.toBitVec hget

/-- **The word behaves as sixteen independent registers** of two bits.  After any sequence of calls
of `pkey_set`, with any keys and rights, every key has the rights of the last accepted call for it,
or those it had at first; the calls that are not accepted return `-1` and leave the word as it was,
and the others return `0`; and the word is the only one with these rights. -/
theorem pkeySets_registers (pkru : BitVec 32) (calls : List (Int32 × BitVec 32)) :
    (∀ key : Int32, 0 ≤ key.toInt ∧ key.toInt ≤ 15 → pkeyGet (pkeySets pkru calls).2 key =
      ((lastRights key calls).map Int32.ofBitVec).getD (pkeyGet pkru key)) ∧
    (pkeySets pkru calls).1 = calls.map (fun c => if PkeyAccepts c.1 c.2 then 0 else -1) ∧
    (∀ before c after, calls = before ++ c :: after → ¬ PkeyAccepts c.1 c.2 →
      (pkeySets pkru (before ++ [c])).2 = (pkeySets pkru before).2) ∧
    ∀ pkru' : BitVec 32, (∀ key : Int32, 0 ≤ key.toInt ∧ key.toInt ≤ 15 →
      pkeyGet pkru' key = pkeyGet (pkeySets pkru calls).2 key) →
        pkru' = (pkeySets pkru calls).2 := by
  refine ⟨fun key hk => pkeyGet_pkeySets hk pkru calls, codes_pkeySets pkru calls, ?_, ?_⟩
  · rintro before ⟨key, rights⟩ after - hacc
    rw [pkeySets_concat, pkeySet_of_not_accepts hacc]
  · intro pkru' h
    exact ext_pkeyGet h

-- A call with a key that does not exist, one with rights of three bits, and two for the same key.
example : pkeySets 0xFFFFFFFF#32 [(16, 0#32), (15, 4#32), (15, 1#32), (15, 2#32)] =
    ([-1, -1, 0, 0], 0xBFFFFFFF#32) := by decide

end Provsan
