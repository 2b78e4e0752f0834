/-
**What the profile reader rejects.**

`fromJSON` of `Passes/DynUntrustedAllocPost/DynUntrustedAllocPost.cpp` maps a field into a variable
and looks at the variable before it asks whether the mapping succeeded, and it maps fields before it
asks whether the element is an object.  This module says for which elements that goes well, and when
the map that is made of the files holds what their well-formed elements say.

Main definitions:

* `Provsan.DescribesSite` — a value is a well-formed element, and what it says;
* `Provsan.ReadsCleanly`, `Provsan.MapsIntegers` — `fromJSON` treats a value as it should, and the
  condition under which it does;
* `Provsan.HoldsDescribed` — the map holds the sites of the well-formed elements and no others.

Main results:

* `Provsan.unset_fromJSON` — which variables `fromJSON` reads without setting them;
* `Provsan.readsCleanly_iff`, `Provsan.holdsDescribed_iff` — the two equivalences;
* `Provsan.reader_clean_iff` — **when the reader rejects cleanly**.
-/

import Provsan.Passes.Profile

set_option relaxedAutoImplicit false
set_option autoImplicit false

namespace Provsan

/-! ### Well-formed elements -/

/-- **A well-formed element**: an object with an id and a key that are integers and not negative,
and the names of a block and a function that are strings and not empty. -/
def DescribesSite (Alloc : Json.Value) (FS : FaultingSite) : Prop :=
  ∃ O id pkey, Alloc.getAsObject = some O ∧ (mapInteger O "id" = some id ∧ 0 ≤ id) ∧
    (mapInteger O "pkey" = some pkey ∧ 0 ≤ pkey) ∧
    (mapString O "bbName" = some FS.bbName ∧ FS.bbName ≠ "") ∧
    (mapString O "funcName" = some FS.funcName ∧ FS.funcName ≠ "") ∧
    FS.localID = id.toInt.toNat ∧ FS.pkey = pkey.toBitVec.setWidth 32

theorem describesSite_iff {Alloc : Json.Value} {FS : FaultingSite} :
    DescribesSite Alloc FS ↔ siteOfValue? Alloc = some FS := by
  rw [siteOfValue?, Option.bind_eq_some_iff]
  simp only [siteOf?_eq_some]
  constructor
  · rintro ⟨O, id, pkey, hO, ⟨hid, hid0⟩, ⟨hpkey, hpkey0⟩, ⟨hbb, hbb0⟩, ⟨hfunc, hfunc0⟩, hlocal,
      hkey⟩
    refine ⟨O, hO, id, pkey, FS.bbName, FS.funcName, hid, hpkey, hbb, hfunc,
      ⟨hid0, hpkey0, hbb0, hfunc0⟩, ?_⟩
    rw [← hlocal, ← hkey]
  · rintro ⟨O, hO, id, pkey, bbName, funcName, hid, hpkey, hbb, hfunc, ⟨hid0, hpkey0, hbb0, hfunc0⟩,
      rfl⟩
    exact ⟨O, id, pkey, hO, ⟨hid, hid0⟩, ⟨hpkey, hpkey0⟩, ⟨hbb, hbb0⟩, ⟨hfunc, hfunc0⟩, rfl, rfl⟩

/-! ### One element -/

/-- **`fromJSON` treats a value as it should**, whatever unset variables hold: it returns without
looking up a field of a value that is no object and without reading a variable that is not set, its
result is whether the value is a well-formed element, and then the site is the one described. -/
def ReadsCleanly (Alloc : Json.Value) : Prop :=
  ∀ (junk : String → Int64) (F : FaultingSite), ∃ r, fromJSON junk Alloc F = some r ∧
    r.unset = [] ∧ (r.result = true ↔ ∃ FS, DescribesSite Alloc FS) ∧
    ∀ FS, DescribesSite Alloc FS → r.site = FS

/-- The value is an object with an integer for its id, which is negative or comes with an integer
for the key. -/
def MapsIntegers (Alloc : Json.Value) : Prop :=
  ∃ O id, Alloc.getAsObject = some O ∧ mapInteger O "id" = some id ∧
    (id < 0 ∨ (mapInteger O "pkey").isSome)

/-- **Which variables are read without having been set**: none, when the id is mapped and either
refused or followed by a key that is mapped. -/
theorem unset_fromJSON (junk : String → Int64) (O : List (String × Json.Value))
    (F : FaultingSite) {r : SiteRead} (hr : fromJSON junk (.object O) F = some r) :
    r.unset = [] ↔ ∃ id, mapInteger O "id" = some id ∧
      (id < 0 ∨ (mapInteger O "pkey").isSome) := by
  obtain rfl := Option.some_inj.1 hr
  dsimp only
  cases hid : mapInteger O "id" with
  | none =>
      refine iff_of_false ?_ (by simp)
      simp only [Option.isNone_none, if_true]
      split_ifs <;> simp
  | some id =>
      simp only [Option.getD_some, Option.isNone_some, Option.some_inj, exists_eq_left']
      by_cases hneg : id < 0
      · rw [if_pos hneg]
        simp [hneg]
      · rw [if_neg hneg]
        cases hpkey : mapInteger O "pkey" with
        | none =>
            refine iff_of_false ?_ (by simp [hneg])
            simp only [Option.isNone_none, if_true]
            split_ifs <;> simp
        | some pkey =>
            refine iff_of_true ?_ (by simp)
            simp only [Option.isNone_some, Bool.false_eq_true, if_false, List.append_nil]
            split_ifs <;> rfl

/-- **`fromJSON` treats a value as it should exactly when it maps the integers** that it looks
at. -/
theorem readsCleanly_iff (Alloc : Json.Value) : ReadsCleanly Alloc ↔ MapsIntegers Alloc := by
  constructor
  · intro h
    obtain ⟨r, hr, hunset, -⟩ := h (fun _ => 0) ⟨0, 0#32, "", ""⟩
    cases hO : Alloc.getAsObject with
    | none =>
        rw [fromJSON, hO] at hr
        exact absurd hr (by simp)
    | some O =>
        obtain rfl : Alloc = .object O := Json.Value.eq_object hO
        obtain ⟨id, hid, hor⟩ := (unset_fromJSON _ O _ hr).1 hunset
        exact ⟨O, id, rfl, hid, hor⟩
  · rintro ⟨O, id, hO, hid, hor⟩ junk F
    obtain rfl : Alloc = .object O := Json.Value.eq_object hO
    obtain ⟨r, hr, htrue, hfalse⟩ := fromJSON_object junk O F
    simp only [describesSite_iff, siteOfValue?_object]
    refine ⟨r, hr, (unset_fromJSON junk O F hr).2 ⟨id, hid, hor⟩, ?_, fun FS hFS => ?_⟩
    · constructor
      · intro hres
        exact ⟨r.site, htrue.1 hres⟩
      · rintro ⟨FS, hFS⟩
        by_contra hres
        rw [hfalse.1 (by simpa using hres)] at hFS
        exact absurd hFS (by simp)
    · cases hres : r.result with
      | true => exact Option.some_inj.1 ((htrue.1 hres).symm.trans hFS)
      | false =>
          rw [hfalse.1 hres] at hFS
          exact absurd hFS (by simp)

/-! ### All files -/

/-- The arrays in the files of a path; without a path there are none. -/
def profileArrays (env : Environment) (MPKProfilePath : String) : List (List Json.Value) :=
  if MPKProfilePath = "" then []
  else (getFaultPaths env.fs MPKProfilePath).filterMap fun path =>
    parseJSONArrayFile env.strtod (env.fs.content path)

/-- **The map is made, and holds exactly the pairs of the well-formed elements** of the files that
are arrays. -/
def HoldsDescribed (env : Environment) (MPKProfilePath : String) : Prop :=
  ∃ m, getFaultingAllocMap env MPKProfilePath = some m ∧ ∀ funcName id,
    (m.site? funcName id).isSome ↔ ∃ elems ∈ profileArrays env MPKProfilePath, ∃ Alloc ∈ elems,
      ∃ FS, DescribesSite Alloc FS ∧ FS.funcName = funcName ∧ FS.localID = id

/-- The sites in the files are those that the elements of the arrays describe. -/
theorem mem_profileSites {env : Environment} {MPKProfilePath : String} (hpath : MPKProfilePath ≠ "")
    {FS : FaultingSite} : FS ∈ profileSites env MPKProfilePath ↔
      ∃ elems ∈ profileArrays env MPKProfilePath, ∃ Alloc ∈ elems, DescribesSite Alloc FS := by
  simp only [profileSites, profileArrays, if_neg hpath, List.mem_flatMap, List.mem_filterMap,
    describesSite_iff]
  constructor
  · rintro ⟨path, hp, Alloc, hmem, hFS⟩
    cases hfile : parseJSONArrayFile env.strtod (env.fs.content path) with
    | none =>
        rw [hfile] at hmem
        exact absurd hmem (by simp)
    | some elems =>
        rw [hfile, Option.getD_some] at hmem
        exact ⟨elems, ⟨path, hp, hfile⟩, Alloc, hmem, hFS⟩
  · rintro ⟨elems, ⟨path, hp, hfile⟩, Alloc, hmem, hFS⟩
    refine ⟨path, hp, Alloc, ?_, hFS⟩
    rw [hfile, Option.getD_some]
    exact hmem

/-- **The map holds what the well-formed elements say exactly when all elements are objects**, or
there is no path. -/
theorem holdsDescribed_iff (env : Environment) (MPKProfilePath : String) :
    HoldsDescribed env MPKProfilePath ↔
      MPKProfilePath = "" ∨ ProfileObjects env MPKProfilePath := by
  constructor
  · rintro ⟨m, hm, -⟩
    rw [← isSome_getFaultingAllocMap, hm, Option.isSome_some]
  · intro hcond
    by_cases hpath : MPKProfilePath = ""
    · refine ⟨OrdMap.empty, by rw [getFaultingAllocMap, if_pos hpath], fun funcName id => ?_⟩
      rw [profileArrays, if_pos hpath]
      simp [FaultMap.site?]
    · have hobj := hcond.resolve_left hpath
      refine ⟨_, (getFaultingAllocMap_eq_some hpath).2 ⟨hobj, rfl⟩, fun funcName id => ?_⟩
      rw [site?_profileSites, List.find?_isSome]
      simp only [mem_profileSites hpath, decide_eq_true_eq]
      constructor
      · rintro ⟨FS, ⟨elems, helems, Alloc, hmem, hFS⟩, hpair⟩
        exact ⟨elems, helems, Alloc, hmem, FS, hFS, hpair⟩
      · rintro ⟨elems, helems, Alloc, hmem, FS, hFS, hpair⟩
        exact ⟨FS, ⟨elems, helems, Alloc, hmem, hFS⟩, hpair⟩

/-- **When the reader rejects cleanly.**  A value is treated as it should be if and only if it is
an object with an integer for its id, which is negative or comes with an integer for the key; and
the map holds the pairs of the well-formed elements, and no others, if and only if all elements of
the files are objects, or there is no path. -/
theorem reader_clean_iff (Alloc : Json.Value) (env : Environment) (MPKProfilePath : String) :
    (ReadsCleanly Alloc ↔ MapsIntegers Alloc) ∧
      (HoldsDescribed env MPKProfilePath ↔
        MPKProfilePath = "" ∨ ProfileObjects env MPKProfilePath) :=
  ⟨readsCleanly_iff Alloc, holdsDescribed_iff env MPKProfilePath⟩

/-- **A malformed element is not rejected cleanly** when it is no object: a number, for one. -/
theorem not_readsCleanly : ¬ ((∀ Alloc, ReadsCleanly Alloc) ∧
    ∀ env MPKProfilePath, HoldsDescribed env MPKProfilePath) := by
  rintro ⟨hall, -⟩
  obtain ⟨r, hr, -⟩ := hall (.integer 1) (fun _ => 0) ⟨0, 0#32, "", ""⟩
  exact absurd hr (by simp [fromJSON, Json.Value.getAsObject])

end Provsan
