/-
**Reading profiles.**

The post pass reads the sites that have faulted in earlier runs from JSON files
(`Passes/DynUntrustedAllocPost/DynUntrustedAllocPost.cpp`).  Elements of the array of a file that
`fromJSON` accepts go into a map by the name of the function and the id of the site; of two sites
for one pair the first one stays.

Main definitions:

* `Provsan.FaultingSite`, `Provsan.fromJSON` — a site, and how it is read from an element;
* `Provsan.FileSystem` — what the pass finds on the disk;
* `Provsan.getFaultPaths`, `Provsan.parseJSONArrayFile`, `Provsan.getFaultingAllocMap` — the map.

Main results:

* `Provsan.fromJSON_object` — **which objects are accepted**, whatever unset variables hold;
* `Provsan.site?_addSite` — the map after one more site;
* `Provsan.getFaultingAllocMap_eq_some` — **the map holds the sites of the files**.
-/

import Provsan.Lib.Json
import Provsan.Lib.OrdMap
import Mathlib.Data.String.Basic

set_option relaxedAutoImplicit false
set_option autoImplicit false

namespace Provsan

/-! ### Sites of a profile -/

structure FaultingSite where
  localID : ℕ
  pkey : BitVec 32
  bbName : String
  funcName : String
  deriving DecidableEq

/-- A call of `fromJSON`: its result, the site it was given, and the variables that were compared
without having been set. -/
structure SiteRead where
  result : Bool
  site : FaultingSite
  unset : List String
  deriving DecidableEq

/-- `ObjectMapper::map` into an `int64_t`; `none` leaves the variable as it is. -/
def mapInteger (O : List (String × Json.Value)) (key : String) : Option Int64 :=
  (Json.Value.get O key).bind Json.Value.getAsInteger

/-- `ObjectMapper::map` into a string. -/
def mapString (O : List (String × Json.Value)) (key : String) : Option String :=
  (Json.Value.get O key).bind Json.Value.getAsString

/-- `fromJSON`.  `junk` is what variables hold that have not been set.  For a value that is no
object `ObjectMapper::map` goes through a null pointer, which is `none`. -/
def fromJSON (junk : String → Int64) (Alloc : Json.Value) (F : FaultingSite) : Option SiteRead :=
  Alloc.getAsObject.map fun O =>
    let id := mapInteger O "id"
    let temp_id := id.getD (junk "temp_id")
    let unset := if id.isNone then ["temp_id"] else []
    if temp_id < 0 then ⟨false, F, unset⟩
    else
      let pkey := mapInteger O "pkey"
      let temp_pkey := pkey.getD (junk "temp_pkey")
      let unset := unset ++ if pkey.isNone then ["temp_pkey"] else []
      if temp_pkey < 0 then ⟨false, F, unset⟩
      else
        let bbName := mapString O "bbName"
        let temp_bbName := bbName.getD ""
        if temp_bbName = "" then ⟨false, F, unset⟩
        else
          let funcName := mapString O "funcName"
          let temp_funcName := funcName.getD ""
          if temp_funcName = "" then ⟨false, F, unset⟩
          else
            ⟨id.isSome && pkey.isSome && bbName.isSome && funcName.isSome,
              ⟨temp_id.toInt.toNat, temp_pkey.toBitVec.setWidth 32, temp_bbName, temp_funcName⟩,
              unset⟩

/-- The site an object describes, when it has all that is needed. -/
def siteOf? (O : List (String × Json.Value)) : Option FaultingSite := do
  let id ← mapInteger O "id"
  let pkey ← mapInteger O "pkey"
  let bbName ← mapString O "bbName"
  let funcName ← mapString O "funcName"
  if 0 ≤ id ∧ 0 ≤ pkey ∧ bbName ≠ "" ∧ funcName ≠ "" then
    some ⟨id.toInt.toNat, pkey.toBitVec.setWidth 32, bbName, funcName⟩
  else none

theorem siteOf?_eq_some {O : List (String × Json.Value)} {FS : FaultingSite} :
    siteOf? O = some FS ↔ ∃ id pkey bbName funcName, mapInteger O "id" = some id ∧
      mapInteger O "pkey" = some pkey ∧ mapString O "bbName" = some bbName ∧
      mapString O "funcName" = some funcName ∧
      (0 ≤ id ∧ 0 ≤ pkey ∧ bbName ≠ "" ∧ funcName ≠ "") ∧
      ⟨id.toInt.toNat, pkey.toBitVec.setWidth 32, bbName, funcName⟩ = FS := by
  simp only [siteOf?, Option.bind_eq_bind, Option.bind_eq_some_iff, Option.ite_none_right_eq_some,
    Option.some_inj]
  constructor
  · rintro ⟨id, hid, pkey, hpkey, bbName, hbb, funcName, hfunc, hok, rfl⟩
    exact ⟨id, pkey, bbName, funcName, hid, hpkey, hbb, hfunc, hok, rfl⟩
  · rintro ⟨id, pkey, bbName, funcName, hid, hpkey, hbb, hfunc, hok, rfl⟩
    exact ⟨id, hid, pkey, hpkey, bbName, hbb, funcName, hfunc, hok, rfl⟩

/-- **Which objects are accepted**: those that describe a site, and the site is what is read.  What
unset variables hold makes no difference. -/
theorem fromJSON_object (junk : String → Int64) (O : List (String × Json.Value))
    (F : FaultingSite) :
    ∃ r, fromJSON junk (.object O) F = some r ∧ (r.result = true ↔ siteOf? O = some r.site) ∧
      (r.result = false ↔ siteOf? O = none) := by
  -- A call that gives up agrees when the object describes no site.
  have hrefuse : siteOf? O = none →
      (False ↔ siteOf? O = some F) ∧ (false = false ↔ siteOf? O = none) := by
    intro hnone
    simp [hnone]
  refine ⟨_, rfl, ?_⟩
  dsimp only
  generalize (if (mapInteger O "id").isNone = true then ["temp_id"] else []) = unset₁
  generalize unset₁ ++ (if (mapInteger O "pkey").isNone = true then ["temp_pkey"] else []) = unset₂
  split_ifs with hid hpkey hbb hfunc
  · refine hrefuse (Option.eq_none_iff_forall_ne_some.2 fun FS hFS => ?_)
    obtain ⟨id, pkey, bbName, funcName, h, -, -, -, hok, -⟩ := siteOf?_eq_some.1 hFS
    rw [h, Option.getD_some] at hid
    exact Int64.not_lt.2 hok.1 hid
  · refine hrefuse (Option.eq_none_iff_forall_ne_some.2 fun FS hFS => ?_)
    obtain ⟨id, pkey, bbName, funcName, -, h, -, -, hok, -⟩ := siteOf?_eq_some.1 hFS
    rw [h, Option.getD_some] at hpkey
    exact Int64.not_lt.2 hok.2.1 hpkey
  · refine hrefuse (Option.eq_none_iff_forall_ne_some.2 fun FS hFS => ?_)
    obtain ⟨id, pkey, bbName, funcName, -, -, h, -, hok, -⟩ := siteOf?_eq_some.1 hFS
    rw [h, Option.getD_some] at hbb
    exact hok.2.2.1 hbb
  · refine hrefuse (Option.eq_none_iff_forall_ne_some.2 fun FS hFS => ?_)
    obtain ⟨id, pkey, bbName, funcName, -, -, -, h, hok, -⟩ := siteOf?_eq_some.1 hFS
    rw [h, Option.getD_some] at hfunc
    exact hok.2.2.2 hfunc
  · -- Nothing is refused: what is left is whether all four variables have been set.
    cases h₁ : mapInteger O "id" with
    | none => simp [siteOf?, h₁]
    | some id =>
        cases h₂ : mapInteger O "pkey" with
        | none => simp [siteOf?, h₁, h₂]
        | some pkey =>
            cases h₃ : mapString O "bbName" with
            | none => simp [siteOf?, h₁, h₂, h₃]
            | some bbName =>
                cases h₄ : mapString O "funcName" with
                | none => simp [siteOf?, h₁, h₂, h₃, h₄]
                | some funcName =>
                    rw [h₁, Option.getD_some] at hid
                    rw [h₂, Option.getD_some] at hpkey
                    rw [h₃, Option.getD_some] at hbb
                    rw [h₄, Option.getD_some] at hfunc
                    have hsome := siteOf?_eq_some.2 ⟨id, pkey, bbName, funcName, h₁, h₂, h₃, h₄,
                      ⟨Int64.not_lt.1 hid, Int64.not_lt.1 hpkey, hbb, hfunc⟩, rfl⟩
                    simp [hsome]

/-! ### The map of sites -/

/-- `fault_map`: the sites by function name and id. -/
abbrev FaultMap := OrdMap String (OrdMap ℕ FaultingSite)

/-- The sites of a function with an id. -/
def FaultMap.site? (m : FaultMap) (funcName : String) (id : ℕ) : Option FaultingSite :=
  (m.find funcName).bind fun sites => sites.find id

/-- What the loop of `getFaultingAllocMap` does with a site: it goes into the map of its function,
which is made when there is none. -/
def addSite (m : FaultMap) (FS : FaultingSite) : FaultMap :=
  let sites := (m.find FS.funcName).getD OrdMap.empty
  (m.erase FS.funcName).emplace FS.funcName (sites.emplace FS.localID FS)

/-- **The map after one more site.** -/
theorem site?_addSite (m : FaultMap) (FS : FaultingSite) (funcName : String) (id : ℕ) :
    (addSite m FS).site? funcName id =
      if funcName = FS.funcName ∧ id = FS.localID then (m.site? funcName id).or (some FS)
      else m.site? funcName id := by
  have hnone : (m.erase FS.funcName).find FS.funcName = none := by
    rw [OrdMap.find_erase, if_pos rfl]
  unfold FaultMap.site? addSite
  dsimp only
  rw [OrdMap.find_emplace_of_none hnone, OrdMap.find_erase]
  by_cases hf : funcName = FS.funcName
  · subst hf
    simp only [if_true, true_and, Option.bind_some]
    rw [OrdMap.find_emplace]
    cases hm : m.find FS.funcName with
    | none => simp
    | some sites =>
        by_cases hid : id = FS.localID
        · subst hid
          simp
        · simp [hid]
  · simp [hf]

/-- The sites that are added one after the other: the first one for a pair stays. -/
theorem site?_foldl_addSite (l : List FaultingSite) (m : FaultMap) (funcName : String) (id : ℕ) :
    (l.foldl addSite m).site? funcName id =
      (m.site? funcName id).or (l.find? fun FS => FS.funcName = funcName ∧ FS.localID = id) := by
  induction l generalizing m with
  | nil => simp
  | cons FS l ih =>
      rw [List.foldl_cons, ih, site?_addSite]
      by_cases h : funcName = FS.funcName ∧ id = FS.localID
      · obtain ⟨rfl, rfl⟩ := h
        rw [if_pos ⟨rfl, rfl⟩, List.find?_cons_of_pos (by simp), Option.or_assoc, Option.some_or]
      · have hne : ¬ (FS.funcName = funcName ∧ FS.localID = id) := fun h' =>
          h ⟨h'.1.symm, h'.2.symm⟩
        rw [if_neg h, List.find?_cons_of_neg (by simpa using hne)]

/-! ### Files -/

/-- What the pass finds on the disk.  `content` is the text of a file that can be read and is
UTF-8; the parser refuses any other. -/
structure FileSystem where
  isDirectory : String → Bool
  directory : String → List String
  content : String → Option (List Char)

/-- `path::extension`: the file name from its last dot. -/
def extension (path : String) : List Char :=
  let fname := (path.toList.reverse.takeWhile (· ≠ '/')).reverse
  if fname = ['.'] ∨ fname = ['.', '.'] ∨ '.' ∉ fname then []
  else '.' :: (fname.reverse.takeWhile (· ≠ '.')).reverse

def getFaultPaths (fs : FileSystem) (MPKProfilePath : String) : List String :=
  if fs.isDirectory MPKProfilePath then
    (fs.directory MPKProfilePath).filter fun path =>
      (extension path).map Char.toLower = ".json".toList
  else [MPKProfilePath]

def parseJSONArrayFile (strtod : List Char → Option (Option Int64))
    (file : Option (List Char)) : Option (List Json.Value) := do
  let text ← file
  let v ← Json.parse strtod text
  v.getAsArray

/-- What the pass reads from outside, beside the module. -/
structure Environment where
  fs : FileSystem
  strtod : List Char → Option (Option Int64)
  junk : String → Int64

/-- The elements of an array go into the map when they are accepted. -/
def addSites (junk : String → Int64) (m : FaultMap) (elems : List Json.Value) : Option FaultMap :=
  elems.foldlM (fun m Alloc => do
    let r ← fromJSON junk Alloc ⟨0, 0#32, "", ""⟩
    some (if r.result then addSite m r.site else m)) m

/-- `getFaultingAllocMap`; files that do not hold an array are left out. -/
def getFaultingAllocMap (env : Environment) (MPKProfilePath : String) : Option FaultMap :=
  if MPKProfilePath = "" then some OrdMap.empty
  else (getFaultPaths env.fs MPKProfilePath).foldlM (fun m path =>
    match parseJSONArrayFile env.strtod (env.fs.content path) with
    | none => some m
    | some elems => addSites env.junk m elems) OrdMap.empty

/-! ### What the map holds -/

/-- The site an element describes. -/
def siteOfValue? (Alloc : Json.Value) : Option FaultingSite := Alloc.getAsObject.bind siteOf?

@[simp] theorem siteOfValue?_object (O : List (String × Json.Value)) :
    siteOfValue? (.object O) = siteOf? O := rfl

/-- The sites in the files, in order. -/
def profileSites (env : Environment) (MPKProfilePath : String) : List FaultingSite :=
  (getFaultPaths env.fs MPKProfilePath).flatMap fun path =>
    ((parseJSONArrayFile env.strtod (env.fs.content path)).getD []).filterMap siteOfValue?

/-- Every element of the arrays in the files is an object. -/
def ProfileObjects (env : Environment) (MPKProfilePath : String) : Prop :=
  ∀ path ∈ getFaultPaths env.fs MPKProfilePath,
    ∀ v ∈ (parseJSONArrayFile env.strtod (env.fs.content path)).getD [], v.getAsObject.isSome

instance (env : Environment) (MPKProfilePath : String) :
    Decidable (ProfileObjects env MPKProfilePath) :=
  inferInstanceAs (Decidable (∀ path ∈ getFaultPaths env.fs MPKProfilePath,
    ∀ v ∈ (parseJSONArrayFile env.strtod (env.fs.content path)).getD [], v.getAsObject.isSome))

theorem addSites_eq_some {junk : String → Int64} {m m' : FaultMap} {elems : List Json.Value} :
    addSites junk m elems = some m' ↔ (∀ v ∈ elems, v.getAsObject.isSome) ∧
      m' = (elems.filterMap siteOfValue?).foldl addSite m := by
  induction elems generalizing m with
  | nil =>
      constructor
      · exact fun h => ⟨fun v hv => absurd hv (by simp), (Option.some_inj.1 h).symm⟩
      · rintro ⟨-, rfl⟩
        rfl
  | cons v elems ih =>
      unfold addSites at ih ⊢
      rw [List.foldlM_cons]
      cases hO : v.getAsObject with
      | none => simp [fromJSON, hO]
      | some O =>
          obtain rfl := Json.Value.eq_object hO
          obtain ⟨r, hr, htrue, hfalse⟩ := fromJSON_object junk O ⟨0, 0#32, "", ""⟩
          have hrest := ih (m := if r.result then addSite m r.site else m)
          simp only [Option.bind_eq_bind] at hrest ⊢
          rw [hr, Option.bind_some, Option.bind_some, hrest]
          simp only [List.forall_mem_cons, hO, Option.isSome_some, true_and]
          refine and_congr_right fun _ => ?_
          have hsite := siteOfValue?_object O
          cases hres : r.result with
          | true =>
              rw [List.filterMap_cons_some (hsite.trans (htrue.1 hres)), List.foldl_cons]
              rfl
          | false =>
              rw [List.filterMap_cons_none (hsite.trans (hfalse.1 hres))]
              rfl

/-- **The map holds the sites of the files**; it can be made when every element is an object. -/
theorem getFaultingAllocMap_eq_some {env : Environment} {MPKProfilePath : String}
    (hpath : MPKProfilePath ≠ "") {m : FaultMap} :
    getFaultingAllocMap env MPKProfilePath = some m ↔ ProfileObjects env MPKProfilePath ∧
      m = (profileSites env MPKProfilePath).foldl addSite OrdMap.empty := by
  rw [getFaultingAllocMap, if_neg hpath, ProfileObjects, profileSites]
  generalize (OrdMap.empty : FaultMap) = m₀
  induction getFaultPaths env.fs MPKProfilePath generalizing m₀ with
  | nil =>
      constructor
      · exact fun h => ⟨fun path hp => absurd hp (by simp), (Option.some_inj.1 h).symm⟩
      · rintro ⟨-, rfl⟩
        rfl
  | cons path paths ih =>
      rw [List.foldlM_cons]
      simp only [Option.bind_eq_bind, Option.bind_eq_some_iff, ih, List.forall_mem_cons,
        List.flatMap_cons, List.foldl_append]
      cases hfile : parseJSONArrayFile env.strtod (env.fs.content path) with
      | none => simp
      | some elems =>
          simp only [addSites_eq_some, Option.getD_some]
          constructor
          · rintro ⟨m₁, ⟨hobj, rfl⟩, hrest, rfl⟩
            exact ⟨⟨hobj, hrest⟩, rfl⟩
          · rintro ⟨⟨hobj, hrest⟩, rfl⟩
            exact ⟨_, ⟨hobj, rfl⟩, hrest, rfl⟩

/-- **When the profile can be read.** -/
theorem isSome_getFaultingAllocMap {env : Environment} {MPKProfilePath : String} :
    (getFaultingAllocMap env MPKProfilePath).isSome ↔
      MPKProfilePath = "" ∨ ProfileObjects env MPKProfilePath := by
  by_cases hpath : MPKProfilePath = ""
  · simp [getFaultingAllocMap, hpath]
  · rw [Option.isSome_iff_exists]
    simp [getFaultingAllocMap_eq_some hpath, hpath]

/-- What the map finds: the first site in the files for the pair. -/
theorem site?_profileSites (env : Environment) (MPKProfilePath funcName : String) (id : ℕ) :
    FaultMap.site? ((profileSites env MPKProfilePath).foldl addSite OrdMap.empty) funcName id =
      (profileSites env MPKProfilePath).find? fun FS =>
        FS.funcName = funcName ∧ FS.localID = id := by
  rw [site?_foldl_addSite]
  rfl

end Provsan
