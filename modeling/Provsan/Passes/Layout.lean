/-
**Layouts of a profile.**

The same records may come in one file or in several, in any order and more than once, beside files
that are no arrays and elements that are rejected.  Which of two records for a pair stays in the map
does depend on that, but not whether there is one, and `patchList` depends on nothing else.

Main definitions:

* `Provsan.profileFiles`, `Provsan.fileRecords` — the files of a profile as they are parsed, and
  their elements;
* `Provsan.Relaid` — one collection of files is another layout of the same records;
* `Provsan.SameSites` — two maps have sites for the same pairs.

Main results:

* `Provsan.Relaid.mem_iff` — a layout keeps all elements that are not rejected;
* `Provsan.sameSites_of_relaid` — the maps of two layouts have the same pairs;
* `Provsan.patchList_relaid` — **the list of calls does not depend on the layout**.
-/

import Provsan.Passes.Reader
import Provsan.Passes.Process

set_option relaxedAutoImplicit false
set_option autoImplicit false

namespace Provsan

/-! ### Layouts -/

/-- The files of a profile, each with its array or without one. -/
def profileFiles (env : Environment) (MPKProfilePath : String) : List (Option (List Json.Value)) :=
  (getFaultPaths env.fs MPKProfilePath).map fun path =>
    parseJSONArrayFile env.strtod (env.fs.content path)

/-- The elements of all files. -/
def fileRecords (files : List (Option (List Json.Value))) : List Json.Value :=
  files.flatMap fun file => file.getD []

/-- An element that `fromJSON` rejects. -/
def Rejected (Alloc : Json.Value) : Prop :=
  ∀ (junk : String → Int64) (F : FaultingSite), ∃ r, fromJSON junk Alloc F = some r ∧
    r.result = false

/-- **Another layout of the same records**: files and the records in a file in another order, a file
split in two or two merged, a record repeated, and files that are no arrays, files with an empty
array and elements that are rejected added or left out. -/
inductive Relaid : List (Option (List Json.Value)) → List (Option (List Json.Value)) → Prop
  | files {l l' : List (Option (List Json.Value))} : l.Perm l' → Relaid l l'
  | records {l : List (Option (List Json.Value))} {elems elems' : List Json.Value} :
      elems.Perm elems' → Relaid (some elems :: l) (some elems' :: l)
  | split {l : List (Option (List Json.Value))} (elems elems' : List Json.Value) :
      Relaid (some (elems ++ elems') :: l) (some elems :: some elems' :: l)
  | again {l : List (Option (List Json.Value))} {elems : List Json.Value} {v : Json.Value} :
      v ∈ elems → Relaid (some elems :: l) (some (v :: elems) :: l)
  | noArray (l : List (Option (List Json.Value))) : Relaid l (none :: l)
  | emptyArray (l : List (Option (List Json.Value))) : Relaid l (some [] :: l)
  | rejected {l : List (Option (List Json.Value))} {elems : List Json.Value} {v : Json.Value} :
      Rejected v → Relaid (some elems :: l) (some (v :: elems) :: l)
  | symm {l l' : List (Option (List Json.Value))} : Relaid l l' → Relaid l' l
  | trans {l l' l'' : List (Option (List Json.Value))} : Relaid l l' → Relaid l' l'' → Relaid l l''

theorem rejected_iff {Alloc : Json.Value} :
    Rejected Alloc ↔ Alloc.getAsObject.isSome ∧ siteOfValue? Alloc = none := by
  constructor
  · intro h
    cases hO : Alloc.getAsObject with
    | none =>
        obtain ⟨r, hr, -⟩ := h (fun _ => 0) ⟨0, 0#32, "", ""⟩
        rw [fromJSON, hO] at hr
        exact absurd hr (by simp)
    | some O =>
        obtain rfl := Json.Value.eq_object hO
        obtain ⟨r, hr, -, hfalse⟩ := fromJSON_object (fun _ => 0) O ⟨0, 0#32, "", ""⟩
        obtain ⟨r', hr', hres⟩ := h (fun _ => 0) ⟨0, 0#32, "", ""⟩
        obtain rfl := Option.some_inj.1 (hr.symm.trans hr')
        exact ⟨rfl, hfalse.1 hres⟩
  · rintro ⟨hobj, hnone⟩ junk F
    obtain ⟨O, hO⟩ := Option.isSome_iff_exists.1 hobj
    obtain rfl := Json.Value.eq_object hO
    obtain ⟨r, hr, -, hfalse⟩ := fromJSON_object junk O F
    exact ⟨r, hr, hfalse.2 hnone⟩

/-- **A layout keeps all elements that are not rejected.**  The induction is on how the layout is
made. -/
theorem Relaid.mem_iff {l l' : List (Option (List Json.Value))} (h : Relaid l l') {v : Json.Value}
    (hv : ¬ Rejected v) : v ∈ fileRecords l ↔ v ∈ fileRecords l' := by
  induction h with
  | files hperm => exact (hperm.flatMap_right _).mem_iff
  | records hperm =>
      simp only [fileRecords, List.flatMap_cons, List.mem_append, Option.getD_some, hperm.mem_iff]
  | split elems elems' =>
      simp only [fileRecords, List.flatMap_cons, List.mem_append, Option.getD_some, or_assoc]
  | @again l elems w hw =>
      simp only [fileRecords, List.flatMap_cons, List.mem_append, Option.getD_some, List.mem_cons]
      refine or_congr_left ⟨Or.inr, ?_⟩
      rintro (rfl | hmem)
      · exact hw
      · exact hmem
  | noArray l | emptyArray l => simp [fileRecords]
  | @rejected l elems w hw =>
      simp only [fileRecords, List.flatMap_cons, List.mem_append, Option.getD_some, List.mem_cons]
      refine or_congr_left ⟨Or.inr, ?_⟩
      rintro (rfl | hmem)
      · exact absurd hw hv
      · exact hmem
  | symm _ ih => exact ih.symm
  | trans _ _ ih ih' => exact ih.trans ih'

/-! ### The maps of two layouts -/

/-- Two maps have sites for the same pairs. -/
def SameSites (m m' : FaultMap) : Prop :=
  ∀ funcName id, (m.site? funcName id).isSome = (m'.site? funcName id).isSome

variable {env env' : Environment} {MPKProfilePath : String}

theorem mem_profileSites_iff {FS : FaultingSite} : FS ∈ profileSites env MPKProfilePath ↔
    ∃ v ∈ fileRecords (profileFiles env MPKProfilePath), siteOfValue? v = some FS := by
  simp only [profileSites, fileRecords, profileFiles, List.mem_flatMap, List.mem_filterMap,
    List.mem_map, exists_exists_and_eq_and]
  constructor
  · rintro ⟨path, hp, v, hv, hFS⟩
    exact ⟨v, ⟨path, hp, hv⟩, hFS⟩
  · rintro ⟨v, ⟨path, hp, hv⟩, hFS⟩
    exact ⟨path, hp, v, hv, hFS⟩

theorem profileObjects_iff : ProfileObjects env MPKProfilePath ↔
    ∀ v ∈ fileRecords (profileFiles env MPKProfilePath), v.getAsObject.isSome := by
  simp only [ProfileObjects, fileRecords, profileFiles, List.mem_flatMap, List.mem_map,
    exists_exists_and_eq_and]
  constructor
  · rintro h v ⟨path, hp, hv⟩
    exact h path hp v hv
  · intro h path hp v hv
    exact h v ⟨path, hp, hv⟩

/-- Another layout can be read when the first one can. -/
theorem ProfileObjects.relaid (hobj : ProfileObjects env MPKProfilePath)
    (h : Relaid (profileFiles env MPKProfilePath) (profileFiles env' MPKProfilePath)) :
    ProfileObjects env' MPKProfilePath := by
  rw [profileObjects_iff] at hobj ⊢
  intro v hv
  by_cases hrej : Rejected v
  · exact (rejected_iff.1 hrej).1
  · exact hobj v ((h.mem_iff hrej).2 hv)

/-- The sites of two layouts are the same, whatever their order. -/
theorem mem_profileSites_relaid
    (h : Relaid (profileFiles env MPKProfilePath) (profileFiles env' MPKProfilePath))
    {FS : FaultingSite} :
    FS ∈ profileSites env MPKProfilePath ↔ FS ∈ profileSites env' MPKProfilePath := by
  rw [mem_profileSites_iff, mem_profileSites_iff]
  refine exists_congr fun v => and_congr_left fun hFS => h.mem_iff fun hrej => ?_
  rw [(rejected_iff.1 hrej).2] at hFS
  exact absurd hFS (by simp)

/-- **The maps of two layouts have the same pairs**, and one can be made when the other can. -/
theorem sameSites_of_relaid
    (h : Relaid (profileFiles env MPKProfilePath) (profileFiles env' MPKProfilePath)) {m : FaultMap}
    (hm : getFaultingAllocMap env MPKProfilePath = some m) :
    ∃ m', getFaultingAllocMap env' MPKProfilePath = some m' ∧ SameSites m m' := by
  by_cases hpath : MPKProfilePath = ""
  · refine ⟨m, ?_, fun _ _ => rfl⟩
    rw [getFaultingAllocMap, if_pos hpath] at hm ⊢
    exact hm
  · obtain ⟨hobj, rfl⟩ := (getFaultingAllocMap_eq_some hpath).1 hm
    refine ⟨_, (getFaultingAllocMap_eq_some hpath).2 ⟨hobj.relaid h, rfl⟩, fun funcName id => ?_⟩
    rw [site?_profileSites, site?_profileSites, Bool.eq_iff_iff, List.find?_isSome,
      List.find?_isSome]
    exact exists_congr fun FS => and_congr_left fun _ => mem_profileSites_relaid h

/-! ### The calls that are listed -/

section

variable {P : ProvsanPost} {m m' : FaultMap} {localSlot : Function → BlockId → ℤ}

/-- A hook lists the same call with both maps. -/
theorem patched?_sameSites (h : SameSites m m') (F : Function) (CS : CallSite) :
    (patched? P m F CS).map Prod.snd = (patched? P m' F CS).map Prod.snd := by
  refine Option.ext fun i => ?_
  rw [map_snd_patched?_eq_some, map_snd_patched?_eq_some, h]

/-- The visit of a call succeeds with both maps. -/
theorem CanVisit.sameSites {F : Function} {bbName : String} {CS : CallSite}
    (hvisit : CanVisit P m F bbName CS) (h : SameSites m m') : CanVisit P m' F bbName CS := by
  refine ⟨hvisit.args, fun e he => ?_⟩
  have hsnd : (patched? P m F CS).map Prod.snd = some e.2 := by
    rw [patched?_sameSites h, Option.mem_def.1 he, Option.map_some]
  obtain ⟨e', he', hcall⟩ := Option.map_eq_some_iff.1 hsnd
  rw [← hcall]
  exact hvisit.location e' he'

theorem Module.patchCalls_sameSites (h : SameSites m m') (M : Module) :
    M.patchCalls P m = M.patchCalls P m' := by
  unfold Module.patchCalls Function.patchCalls
  refine List.flatMap_congr fun F _ => ?_
  exact List.filterMap_congr fun CS _ => patched?_sameSites h F CS

end

/-- The visit with one layout succeeds and lists some calls when it does with the other. -/
theorem patchList_of_relaid {P : ProvsanPost} {localSlot : Function → BlockId → ℤ} {M : Module}
    (hM : ∀ F ∈ M.functions, F.WellFormed)
    (h : Relaid (profileFiles env P.MPKProfilePath) (profileFiles env' P.MPKProfilePath))
    {st : PassState} {r : Module × PassState}
    (hr : assignLocalIDs P env localSlot M st = some r) :
    ∃ r', assignLocalIDs P env' localSlot M st = some r' ∧ r'.2.patchList = r.2.patchList := by
  obtain ⟨m, hm, hvisit, rfl⟩ := (assignLocalIDs_eq_some hM).1 hr
  obtain ⟨m', hm', hsame⟩ := sameSites_of_relaid h hm
  refine ⟨_, (assignLocalIDs_eq_some hM).2 ⟨m', hm', ?_, rfl⟩, ?_⟩
  · exact fun F hF BB hBB CS hCS => (hvisit F hF BB hBB CS hCS).sameSites hsame
  · dsimp only
    rw [patchList_visit, patchList_visit, Module.patchCalls_sameSites hsame]

/-- **The list of calls does not depend on the layout of the profile**: with another layout the
visit of a module succeeds as before, and puts the same calls on the list in the same order. -/
theorem patchList_relaid (P : ProvsanPost) (env env' : Environment)
    (localSlot : Function → BlockId → ℤ) (M : Module) (st : PassState)
    (hM : ∀ F ∈ M.functions, F.WellFormed)
    (h : Relaid (profileFiles env P.MPKProfilePath) (profileFiles env' P.MPKProfilePath)) :
    (assignLocalIDs P env localSlot M st).map (fun r => r.2.patchList) =
      (assignLocalIDs P env' localSlot M st).map fun r => r.2.patchList := by
  refine Option.ext fun patchList => ?_
  rw [Option.map_eq_some_iff, Option.map_eq_some_iff]
  constructor
  · rintro ⟨r, hr, rfl⟩
    exact patchList_of_relaid hM h hr
  · rintro ⟨r, hr, rfl⟩
    exact patchList_of_relaid hM h.symm hr

/-- A directory of profiles: the first of them holds a site, and the others are no JSON. -/
def directoryOf (names : List String) : Environment :=
  ⟨⟨fun _ => true, fun _ => names,
    fun path => if path = "a.json" then some siteText.toList else some []⟩,
    fun _ => none, fun _ => 0⟩

theorem patchList_relaid_directory :
    (assignLocalIDs ⟨"dir", false⟩ (directoryOf ["a.json"]) (fun _ _ => 0)
      ⟨[hookedFunction "f" 0]⟩ ⟨[], [], 0, [], []⟩).map (fun r => r.2.patchList) = some [.src 0] ∧
    (assignLocalIDs ⟨"dir", false⟩ (directoryOf ["a.json"]) (fun _ _ => 0)
      ⟨[hookedFunction "f" 0]⟩ ⟨[], [], 0, [], []⟩).map (fun r => r.2.patchList) =
    (assignLocalIDs ⟨"dir", false⟩ (directoryOf ["b.json", "a.json"]) (fun _ _ => 0)
      ⟨[hookedFunction "f" 0]⟩ ⟨[], [], 0, [], []⟩).map fun r => r.2.patchList :=
  ⟨by decide, patchList_relaid ⟨"dir", false⟩ (directoryOf ["a.json"])
    (directoryOf ["b.json", "a.json"]) (fun _ _ => 0) _ _
    (hookedFunction_wellFormed "f" 0).functions (Relaid.noArray _)⟩

end Provsan
