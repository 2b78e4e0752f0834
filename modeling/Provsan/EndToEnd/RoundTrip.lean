/-
**The profile between the runtime and the compiler.**

What the runtime writes at the end of a run the post pass reads in the next build.  The sites come
back as they were if no name has a character that JSON escapes; if one has, they do not, whatever
the names are: the longest of these names cannot be read from the text.

Main definitions:

* `Provsan.readBack` — the site the post pass reads from an element;
* `Provsan.RoundTrips` — the sites of a set come back.

Main results:

* `Provsan.profileSites_writeJSON` — the sites that the post pass finds in a profile;
* `Provsan.roundTrips_iff_clean` — **when the sites of a set come back**.
-/

import Provsan.Passes.Profile
import Provsan.Runtime.Formatter
import Mathlib.Data.Finset.Max

set_option relaxedAutoImplicit false
set_option autoImplicit false

namespace Provsan

open Json

/-- The site that `fromJSON` gives for an element. -/
def readBack (junk : String → Int64) (v : Json.Value) : Option FaultingSite :=
  (fromJSON junk v ⟨0, 0#32, "", ""⟩).bind fun r => if r.result then some r.site else none

/-- What is to be read back for a site. -/
def AllocSite.faultingSite (s : AllocSite) : FaultingSite :=
  ⟨s.localID.toInt.toNat, s.pkey, s.bbName, s.funcName⟩

/-- **The sites of a set come back**: the text of the set is an array of objects, one for each
site, and the sites read from them are those of the set. -/
def RoundTrips (strtod : List Char → Option (Option Int64)) (junk : String → Int64)
    (S : UnorderedSet AllocSite) : Prop :=
  ∃ elems, Json.parse strtod (writeJSON S).toList = some (.array elems) ∧
    (∀ v ∈ elems, v.getAsObject.isSome) ∧
      (elems.map (readBack junk)).Perm (S.elems.map fun s => some s.faultingSite)

/-! ### Reading sites -/

theorem readBack_eq (junk : String → Int64) (v : Json.Value) :
    readBack junk v = siteOfValue? v := by
  cases v with
  | object O =>
      obtain ⟨r, hr, htrue, hfalse⟩ := fromJSON_object junk O ⟨0, 0#32, "", ""⟩
      rw [readBack, hr, Option.bind_some, siteOfValue?_object]
      cases hres : r.result with
      | true => rw [htrue.1 hres, if_pos rfl]
      | false => rw [hfalse.1 hres, if_neg (by simp)]
  | _ => rfl

/-- A member that is found is one of the object. -/
theorem mem_of_get {O : List (String × Json.Value)} {key : String} {v : Json.Value}
    (h : Json.Value.get O key = some v) : (key, v) ∈ O := by
  obtain ⟨⟨k, v'⟩, hfind, rfl⟩ := Option.map_eq_some_iff.1 h
  have hkey : k = key := by simpa using List.find?_some hfind
  rw [← hkey]
  exact List.mem_reverse.1 (List.mem_of_find?_eq_some hfind)

/-- The names of a site are strings of its object. -/
theorem mentions_of_siteOf? {O : List (String × Json.Value)} {FS : FaultingSite}
    (h : siteOf? O = some FS) :
    Mentions FS.bbName (.object O) ∧ Mentions FS.funcName (.object O) := by
  have hstring : ∀ {key s : String}, mapString O key = some s → Mentions s (.object O) := by
    intro key s hs
    obtain ⟨v, hget, hv⟩ := Option.bind_eq_some_iff.1 hs
    cases v with
    | string s' =>
        obtain rfl := Option.some_inj.1 hv
        exact .field (mem_of_get hget) .string
    | _ => exact absurd hv (by simp [Json.Value.getAsString])
  unfold siteOf? at h
  simp only [Option.bind_eq_bind, Option.bind_eq_some_iff] at h
  obtain ⟨id, -, pkey, -, bbName, hbb, funcName, hfunc, h⟩ := h
  split_ifs at h
  obtain rfl := Option.some_inj.1 h
  exact ⟨hstring hbb, hstring hfunc⟩

/-- The object that is written for a site describes it. -/
theorem siteOf?_fields {s : AllocSite} (hid : 0 ≤ s.localID) (hbb : s.bbName ≠ "")
    (hfunc : s.funcName ≠ "") : siteOf? s.fields = some s.faultingSite := by
  have hlt := s.pkey.isLt
  have hpkey : (Int64.ofInt s.pkey.toNat).toInt = s.pkey.toNat :=
    Int64.toInt_ofInt_of_le (by omega) (by omega)
  have hnn : 0 ≤ Int64.ofInt s.pkey.toNat := by
    rw [Int64.le_iff_toInt_le, hpkey]
    simp
  have hback : (Int64.ofInt s.pkey.toNat).toBitVec.setWidth 32 = s.pkey := by
    rw [Int64.toBitVec_ofInt, BitVec.ofInt_natCast]
    apply BitVec.eq_of_toNat_eq
    rw [BitVec.toNat_setWidth, BitVec.toNat_ofNat]
    omega
  have hid' : mapInteger s.fields "id" = some s.localID := rfl
  have hpkey' : mapInteger s.fields "pkey" = some (Int64.ofInt s.pkey.toNat) := rfl
  have hbb' : mapString s.fields "bbName" = some s.bbName := rfl
  have hfunc' : mapString s.fields "funcName" = some s.funcName := rfl
  simp only [siteOf?, hid', hpkey', hbb', hfunc', Option.bind_eq_bind, Option.bind_some]
  rw [if_pos ⟨hid, hnn, hbb, hfunc⟩, hback]
  rfl

/-! ### Round trips -/

/-- **Sites without escapes come back.** -/
theorem roundTrips_of_clean (strtod : List Char → Option (Option Int64)) (junk : String → Int64)
    {S : UnorderedSet AllocSite} (hne : S.elems ≠ [])
    (hS : ∀ s ∈ S.elems, 0 ≤ s.localID ∧ s.bbName ≠ "" ∧ s.funcName ≠ "")
    (hclean : ∀ s ∈ S.elems, s.Clean) : RoundTrips strtod junk S := by
  refine ⟨_, parse_writeJSON hne (fun s hs => (hS s hs).1) hclean, ?_, ?_⟩
  · intro v hv
    obtain ⟨s, -, rfl⟩ := List.mem_map.1 hv
    rfl
  · rw [List.map_map]
    refine List.Perm.of_eq (List.map_congr_left fun s hs => ?_)
    obtain ⟨hid, hbb, hfunc⟩ := hS s hs
    rw [Function.comp_apply, readBack_eq, siteOfValue?_object, siteOf?_fields hid hbb hfunc]

/-- The elements of the text of a set: the objects of its sites, when they need no escapes.  The
text of the empty set is none that can be read. -/
theorem elems_writeJSON (strtod : List Char → Option (Option Int64)) {S : UnorderedSet AllocSite}
    (hid : ∀ s ∈ S.elems, 0 ≤ s.localID) (hclean : ∀ s ∈ S.elems, s.Clean) :
    (parseJSONArrayFile strtod (some (writeJSON S).toList)).getD [] =
      S.elems.map fun s => Json.Value.object s.fields := by
  obtain ⟨elems, hnd⟩ := S
  rw [parseJSONArrayFile]
  cases elems with
  | nil => rfl
  | cons s l =>
      have hread : Json.parse strtod (writeJSON ⟨s :: l, hnd⟩).toList = some (.array _) :=
        parse_writeJSON (by simp) hid hclean
      simp only [Option.bind_eq_bind, Option.bind_some, hread, Json.Value.getAsArray,
        Option.getD_some]

/-- The sites that the objects of a set describe. -/
theorem filterMap_siteOfValue? {S : UnorderedSet AllocSite}
    (hS : ∀ s ∈ S.elems, 0 ≤ s.localID ∧ s.bbName ≠ "" ∧ s.funcName ≠ "") :
    (S.elems.map fun s => Json.Value.object s.fields).filterMap siteOfValue? =
      S.elems.map AllocSite.faultingSite := by
  rw [List.filterMap_map, ← List.filterMap_eq_map]
  refine List.filterMap_congr fun s hs => ?_
  obtain ⟨hid, hbb, hfunc⟩ := hS s hs
  exact siteOf?_fields hid hbb hfunc

/-- **The profile of a file with the text of a set**: the sites of the set, when they need no
escapes. -/
theorem profileSites_writeJSON {env : Environment} {MPKProfilePath file : String}
    {S : UnorderedSet AllocSite} (hfile : getFaultPaths env.fs MPKProfilePath = [file])
    (hcontent : env.fs.content file = some (writeJSON S).toList)
    (hS : ∀ s ∈ S.elems, 0 ≤ s.localID ∧ s.bbName ≠ "" ∧ s.funcName ≠ "")
    (hclean : ∀ s ∈ S.elems, s.Clean) :
    ProfileObjects env MPKProfilePath ∧
      profileSites env MPKProfilePath = S.elems.map AllocSite.faultingSite := by
  have hparse : (parseJSONArrayFile env.strtod (env.fs.content file)).getD [] =
      S.elems.map fun s => Json.Value.object s.fields := by
    rw [hcontent]
    exact elems_writeJSON env.strtod (fun s hs => (hS s hs).1) hclean
  constructor
  · rw [ProfileObjects, hfile]
    intro path hpath v hv
    rw [List.mem_singleton.1 hpath, hparse] at hv
    obtain ⟨s, -, rfl⟩ := List.mem_map.1 hv
    rfl
  · rw [profileSites, hfile, List.flatMap_singleton, hparse, filterMap_siteOfValue? hS]

/-- Of the names that need escapes, one is the longest. -/
theorem exists_longest {S : UnorderedSet AllocSite} {t : AllocSite} (ht : t ∈ S.elems)
    (hunclean : ¬ t.Clean) : ∃ w : String, (∃ c ∈ w.toList, isSpecial c = true) ∧
      (∃ s ∈ S.elems, w = s.bbName ∨ w = s.funcName) ∧
        ∀ s ∈ S.elems, NotLonger w.toList s.bbName.toList ∧
          NotLonger w.toList s.funcName.toList := by
  let names := (S.elems.flatMap fun s => [s.bbName, s.funcName]).filter fun n =>
    n.toList.any isSpecial
  have hmem : ∀ n, n ∈ names ↔ (∃ s ∈ S.elems, n = s.bbName ∨ n = s.funcName) ∧
      ∃ c ∈ n.toList, isSpecial c = true := fun n => by
    simp [names]
  obtain ⟨n, hn⟩ : ∃ n, n ∈ names := by
    have hspecial : ∀ v : String, ¬ Plain v.toList → ∃ c ∈ v.toList, isSpecial c = true := by
      intro v hv
      simpa [Plain] using hv
    by_cases hbb : Plain t.bbName.toList
    · have hfunc := hspecial _ fun h => hunclean ⟨hbb, h⟩
      exact ⟨t.funcName, (hmem _).2 ⟨⟨t, ht, Or.inr rfl⟩, hfunc⟩⟩
    · exact ⟨t.bbName, (hmem _).2 ⟨⟨t, ht, Or.inl rfl⟩, hspecial _ hbb⟩⟩
  obtain ⟨w, hw, hmax⟩ := names.toFinset.exists_max_image (fun n => n.toList.length)
    ⟨n, List.mem_toFinset.2 hn⟩
  have hbound : ∀ s ∈ S.elems, ∀ v, v = s.bbName ∨ v = s.funcName →
      NotLonger w.toList v.toList := fun s hs v hv hspecial =>
    hmax v (List.mem_toFinset.2 ((hmem v).2 ⟨⟨s, hs, hv⟩, hspecial⟩))
  obtain ⟨hname, hspecial⟩ := (hmem w).1 (List.mem_toFinset.1 hw)
  exact ⟨w, hspecial, hname, fun s hs =>
    ⟨hbound s hs _ (Or.inl rfl), hbound s hs _ (Or.inr rfl)⟩⟩

/-- **If the sites come back, they need no escapes.** -/
theorem clean_of_roundTrips {strtod : List Char → Option (Option Int64)} {junk : String → Int64}
    {S : UnorderedSet AllocSite} (hid : ∀ s ∈ S.elems, 0 ≤ s.localID)
    (h : RoundTrips strtod junk S) : ∀ s ∈ S.elems, s.Clean := by
  intro t ht
  by_contra hunclean
  obtain ⟨w, hw, ⟨s, hs, hname⟩, hlongest⟩ := exists_longest ht hunclean
  obtain ⟨elems, hparse, -, hperm⟩ := h
  -- the site with the longest of these names has been read from some object
  have hmem : some s.faultingSite ∈ elems.map (readBack junk) :=
    hperm.mem_iff.2 (List.mem_map_of_mem hs)
  obtain ⟨v, hv, hread⟩ := List.mem_map.1 hmem
  rw [readBack_eq] at hread
  obtain ⟨O, hO, hsite⟩ := Option.bind_eq_some_iff.1 hread
  obtain rfl : v = .object O := by
    cases v <;> simp_all [Json.Value.getAsObject]
  obtain ⟨hbb, hfunc⟩ := mentions_of_siteOf? hsite
  have hmentions : Mentions w (.array elems) := by
    rcases hname with rfl | rfl
    · exact .item hv hbb
    · exact .item hv hfunc
  exact not_holds_writeJSON hw hid hlongest (hmentions.holds hparse)

/-- **When the sites of a set come back**: exactly when no name has a character that JSON
escapes. -/
theorem roundTrips_iff_clean (strtod : List Char → Option (Option Int64)) (junk : String → Int64)
    (S : UnorderedSet AllocSite) (hne : S.elems ≠ [])
    (hS : ∀ s ∈ S.elems, 0 ≤ s.localID ∧ s.bbName ≠ "" ∧ s.funcName ≠ "") :
    RoundTrips strtod junk S ↔ ∀ s ∈ S.elems, s.Clean := by
  constructor
  · exact clean_of_roundTrips fun s hs => (hS s hs).1
  · exact roundTrips_of_clean strtod junk hne hS

/-- The set of one site. -/
def single (s : AllocSite) : UnorderedSet AllocSite := ⟨[s], List.pairwise_singleton ..⟩

def mainSite : AllocSite := ⟨0x1000#64, 16, 0, "entry", "main", 1#32, false⟩

theorem roundTrips_iff_clean_main : RoundTrips (fun _ => none) (fun _ => 0) (single mainSite) := by
  have hclean : mainSite.Clean := ⟨by decide, by decide⟩
  refine (roundTrips_iff_clean (fun _ => none) (fun _ => 0) (single mainSite) (by decide) ?_).2 ?_
  · intro s hs
    rw [List.mem_singleton.1 hs]
    decide
  · intro s hs
    rw [List.mem_singleton.1 hs]
    exact hclean

/-- The name of a function may have quotes in it. -/
def quotedSite : AllocSite := ⟨0x1000#64, 16, 0, "entry", "say \"hi\"", 1#32, false⟩

theorem not_roundTrips : ¬ ∀ (strtod : List Char → Option (Option Int64)) (junk : String → Int64)
    (S : UnorderedSet AllocSite), S.elems ≠ [] →
      (∀ s ∈ S.elems, 0 ≤ s.localID ∧ s.bbName ≠ "" ∧ s.funcName ≠ "") →
        RoundTrips strtod junk S := by
  intro h
  have hround := h (fun _ => none) (fun _ => 0) (single quotedSite) (by decide) fun s hs => by
    rw [List.mem_singleton.1 hs]
    decide
  have hid : ∀ s ∈ (single quotedSite).elems, 0 ≤ s.localID := fun s hs => by
    rw [List.mem_singleton.1 hs]
    decide
  have hclean := clean_of_roundTrips hid hround quotedSite (List.mem_singleton.2 rfl)
  exact absurd (hclean.2 '"' (by decide)) (by decide)

end Provsan
