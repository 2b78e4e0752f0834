/-
**Profiling campaigns.**

An instrumented program is run many times, by processes that exit one after the other or at the same
time, and the report build is given the directory with all their profiles.  What it reads is the
union of the sites that the processes have recorded, so that its report is about every block that
has faulted in any of the runs.

Main definitions:

* `Provsan.flush_allocs` — the file that a process writes at its exit;
* `Provsan.Shows` — the file system that the compiler sees is the disk;
* `Provsan.CampaignReports` — a list of calls that says what has faulted in any of the runs.

Main results:

* `Provsan.extension_uniqueName` — the files of profiles are those that the compiler reads;
* `Provsan.mem_profileSites_campaign` — **the compiler reads what all processes have recorded**;
* `Provsan.campaign_provenance` — **the report lists the calls of all runs**.
-/

import Provsan.EndToEnd.Provenance
import Provsan.Runtime.ProfileFiles

set_option relaxedAutoImplicit false
set_option autoImplicit false

namespace Provsan

/-! ### Names of profiles -/

theorem notMem_toDigits {c : Char} (hc : ∀ n, Nat.digitChar n ≠ c) (n : ℕ) :
    c ∉ Nat.toDigits 16 n := by
  induction n using Nat.strongRecOn with
  | ind n ih =>
      rw [Nat.toDigits_eq_if (by decide)]
      split_ifs with hn
      · simpa using Ne.symm (hc n)
      · intro hmem
        rcases List.mem_append.1 hmem with hmem | hmem
        · exact ih (n / 16) (by omega) hmem
        · exact hc _ (List.mem_singleton.1 hmem).symm

theorem notMem_hexDigits {c : Char} (hc : ∀ n, Nat.digitChar n ≠ c) (hzero : c ≠ '0')
    (r : BitVec 64) : c ∉ (hexDigits r).toList := by
  rw [hexDigits, String.toList_ofList, List.leftpad]
  intro hmem
  rcases List.mem_append.1 hmem with hmem | hmem
  · exact hzero (List.eq_of_mem_replicate hmem)
  · exact notMem_toDigits hc _ hmem

/-- The last part of a path. -/
theorem takeWhile_reverse_of_notMem {c : Char} (pre : List Char) {name : List Char}
    (hname : c ∉ name) :
    ((pre ++ c :: name).reverse.takeWhile (· ≠ c)).reverse = name := by
  have hall : ∀ x ∈ name.reverse, decide (x ≠ c) = true := by
    intro x hx
    rw [decide_eq_true_iff]
    rintro rfl
    exact hname (List.mem_reverse.1 hx)
  rw [List.reverse_append, List.reverse_cons, List.append_assoc, List.takeWhile_append_of_pos hall]
  simp

/-- The name of a file without its directory. -/
def profileName (kind : OutputKind) (pid : ℕ) (r : BitVec 64) : List Char :=
  kind.base_name.toList ++ '-' :: ((toString pid).toList ++ '-' :: (hexDigits r).toList)

theorem toList_uniqueName (path : String) (kind : OutputKind) (pid : ℕ) (r : BitVec 64) :
    (uniqueName path kind pid r).toList =
      path.toList ++ '/' :: (profileName kind pid r ++ '.' :: kind.extension.toList) := by
  simp [uniqueName, profileName]

theorem notMem_profileName {c : Char} (hc : ∀ n, Nat.digitChar n ≠ c) (hdash : c ≠ '-')
    (hdigit : c.isDigit = false) (kind : OutputKind) (hbase : c ∉ kind.base_name.toList) (pid : ℕ)
    (r : BitVec 64) : c ∉ profileName kind pid r := by
  have hpid : c ∉ Nat.toDigits 10 pid := by
    intro hmem
    rw [Nat.isDigit_of_mem_toDigits (by decide) (by decide) hmem] at hdigit
    exact absurd hdigit (by simp)
  have hzero : c ≠ '0' := fun h => hc 0 (by rw [h]; rfl)
  have hhex := notMem_hexDigits hc hzero r
  simp [profileName, hbase, hdash, hpid, hhex]

/-- **The extension of a profile is the one of its kind.** -/
theorem extension_uniqueName (path : String) (kind : OutputKind) (pid : ℕ) (r : BitVec 64) :
    extension (uniqueName path kind pid r) = '.' :: kind.extension.toList := by
  have hslash : '/' ∉ profileName kind pid r ++ '.' :: kind.extension.toList := by
    have hname : '/' ∉ profileName kind pid r :=
      notMem_profileName (by simp) (by decide) (by decide) kind (by cases kind <;> decide) pid r
    cases kind <;> simp [hname, OutputKind.extension]
  have hdot : '.' ∉ kind.extension.toList := by cases kind <;> decide
  have hlength : (profileName kind pid r ++ '.' :: kind.extension.toList).length ≥ 5 := by
    rw [List.length_append, List.length_cons]
    cases kind <;> exact Nat.le_add_left ..
  rw [extension, toList_uniqueName, takeWhile_reverse_of_notMem path.toList hslash, if_neg,
    takeWhile_reverse_of_notMem (profileName kind pid r) hdot]
  rintro (h | h | h)
  · exact absurd (congrArg List.length h) (by rw [List.length_singleton]; omega)
  · exact absurd (congrArg List.length h) (by rw [List.length_cons, List.length_singleton]; omega)
  · exact h (List.mem_append_right _ (List.mem_cons_self ..))

/-! ### The directory that the compiler reads -/

/-- The path is one of a file in the directory. -/
def Inside (dir p : String) : Prop :=
  ∃ name : List Char, p.toList = dir.toList ++ '/' :: name ∧ '/' ∉ name

theorem inside_uniqueName (path : String) (kind : OutputKind) (pid : ℕ) (r : BitVec 64) :
    Inside path (uniqueName path kind pid r) := by
  refine ⟨_, toList_uniqueName .., ?_⟩
  have hname : '/' ∉ profileName kind pid r :=
    notMem_profileName (by simp) (by decide) (by decide) kind (by cases kind <;> decide) pid r
  cases kind <;> simp [hname, OutputKind.extension]

/-- **The file system that the compiler sees is the disk**: directories are listed in any order, but
with all that is in them. -/
structure Shows (fs : FileSystem) (d : Disk) : Prop where
  isDirectory : ∀ p, fs.isDirectory p = d.is_directory p
  directory : ∀ dir p, p ∈ fs.directory dir ↔ Inside dir p ∧ d.find p ≠ none
  content : ∀ p, fs.content p = match d.find p with
    | some (.file t) => some t
    | _ => none

theorem inside_iff {dir p : String} : Inside dir p ↔
    dir.toList ++ ['/'] <+: p.toList ∧ '/' ∉ p.toList.drop (dir.toList.length + 1) := by
  constructor
  · rintro ⟨name, hp, hname⟩
    have hcut : p.toList = (dir.toList ++ ['/']) ++ name := by rw [hp]; simp
    refine ⟨⟨name, hcut.symm⟩, ?_⟩
    rw [hcut, List.drop_left' (by simp)]
    exact hname
  · rintro ⟨⟨name, hp⟩, hname⟩
    refine ⟨name, by rw [← hp]; simp, ?_⟩
    rwa [← hp, List.drop_left' (by simp)] at hname

instance (dir p : String) : Decidable (Inside dir p) := decidable_of_iff _ inside_iff.symm

/-- The file system of a disk. -/
def Disk.fileSystem (d : Disk) : FileSystem where
  isDirectory p := d.is_directory p
  directory dir := (d.entries.map Prod.fst).filter fun p => Inside dir p
  content p := match d.find p with
    | some (.file t) => some t
    | _ => none

theorem Disk.shows_fileSystem (d : Disk) : Shows d.fileSystem d where
  isDirectory _ := rfl
  directory dir p := by
    have hmem : p ∈ d.entries.map Prod.fst ↔ OrdMap.find d p ≠ none := by
      rw [List.mem_map, Ne, Option.eq_none_iff_forall_ne_some, not_forall]
      constructor
      · rintro ⟨⟨q, n⟩, he, rfl⟩
        exact ⟨n, not_not.2 (OrdMap.find_eq_some.2 he)⟩
      · rintro ⟨n, hn⟩
        exact ⟨(p, n), OrdMap.find_eq_some.1 (not_not.1 hn), rfl⟩
    change p ∈ (d.entries.map Prod.fst).filter _ ↔ _
    rw [List.mem_filter, decide_eq_true_iff, hmem, and_comm]
  content _ := rfl

/-- The elements of a file of the disk. -/
def elemsOf (strtod : List Char → Option (Option Int64)) (t : List Char) : List Json.Value :=
  (parseJSONArrayFile strtod (some t)).getD []

/-- The files of a directory that hold profiles. -/
def ProfileFile (d : Disk) (dir p : String) (t : List Char) : Prop :=
  d.find p = some (.file t) ∧ Inside dir p ∧ (extension p).map Char.toLower = ".json".toList

section

variable {env : Environment} {d : Disk} {dir : String}

/-- What the compiler reads from a directory. -/
theorem mem_profileSites_dir (hshows : Shows env.fs d) (hdir : d.find dir = some .directory)
    (FS : FaultingSite) : FS ∈ profileSites env dir ↔ ∃ p t, ProfileFile d dir p t ∧
      FS ∈ (elemsOf env.strtod t).filterMap siteOfValue? := by
  have hisDir : env.fs.isDirectory dir = true := by
    rw [hshows.isDirectory, Disk.is_directory, hdir]
    rfl
  rw [profileSites, getFaultPaths, if_pos hisDir]
  constructor
  · intro hFS
    obtain ⟨p, hp, hsite⟩ := List.mem_flatMap.1 hFS
    obtain ⟨hp, hext⟩ := List.mem_filter.1 hp
    obtain ⟨hinside, hsome⟩ := (hshows.directory dir p).1 hp
    rw [hshows.content] at hsite
    cases hfind : d.find p with
    | none => exact absurd hfind hsome
    | some n =>
        cases n with
        | directory =>
            rw [hfind] at hsite
            exact absurd hsite (by simp [parseJSONArrayFile])
        | file t =>
            rw [hfind] at hsite
            exact ⟨p, t, ⟨hfind, hinside, of_decide_eq_true hext⟩, hsite⟩
  · rintro ⟨p, t, ⟨hfind, hinside, hext⟩, hsite⟩
    refine List.mem_flatMap.2 ⟨p, List.mem_filter.2 ⟨?_, decide_eq_true hext⟩, ?_⟩
    · exact (hshows.directory dir p).2 ⟨hinside, by rw [hfind]; simp⟩
    · rw [hshows.content, hfind]
      exact hsite

/-- When all of it consists of objects. -/
theorem profileObjects_dir (hshows : Shows env.fs d) (hdir : d.find dir = some .directory)
    (h : ∀ p t, ProfileFile d dir p t → ∀ v ∈ elemsOf env.strtod t, v.getAsObject.isSome) :
    ProfileObjects env dir := by
  have hisDir : env.fs.isDirectory dir = true := by
    rw [hshows.isDirectory, Disk.is_directory, hdir]
    rfl
  rw [ProfileObjects, getFaultPaths, if_pos hisDir]
  intro p hp v hv
  obtain ⟨hp, hext⟩ := List.mem_filter.1 hp
  obtain ⟨hinside, -⟩ := (hshows.directory dir p).1 hp
  rw [hshows.content] at hv
  cases hfind : d.find p with
  | none =>
      rw [hfind] at hv
      exact absurd hv (by simp [parseJSONArrayFile])
  | some n =>
      cases n with
      | directory =>
          rw [hfind] at hv
          exact absurd hv (by simp [parseJSONArrayFile])
      | file t =>
          rw [hfind] at hv
          exact h p t ⟨hfind, hinside, of_decide_eq_true hext⟩ v hv

end

/-! ### The profiles of a campaign -/

/-- `flush_allocs` in the process `pid`: a set that is not empty is written. -/
def flush_allocs (pid : ℕ) (h : AllocSiteHandler) : Option Writer :=
  if h.faultSet.elems = [] then none
  else some ⟨pid, .faultingAllocs, (writeJSON h.faultSet).toList⟩

/-- The sites that a process has recorded can be written and read back. -/
def Readable (h : AllocSiteHandler) : Prop :=
  ∀ s ∈ h.faultSet.elems, (0 ≤ s.localID ∧ s.bbName ≠ "" ∧ s.funcName ≠ "") ∧ s.Clean

theorem flush_allocs_eq_some {pid : ℕ} {h : AllocSiteHandler} {W : Writer}
    (hflush : flush_allocs pid h = some W) : h.faultSet.elems ≠ [] ∧
      W = ⟨pid, .faultingAllocs, (writeJSON h.faultSet).toList⟩ := by
  rw [flush_allocs] at hflush
  split_ifs at hflush with hempty
  exact ⟨hempty, (Option.some_inj.1 hflush).symm⟩

theorem toLower_json :
    ('.' :: OutputKind.faultingAllocs.extension.toList).map Char.toLower = ".json".toList := by
  decide

/-- The elements of the file of a process. -/
theorem elemsOf_flush_allocs (strtod : List Char → Option (Option Int64)) {pid : ℕ}
    {h : AllocSiteHandler} {W : Writer} (hflush : flush_allocs pid h = some W)
    (hread : Readable h) : elemsOf strtod W.text =
      h.faultSet.elems.map fun s => Json.Value.object s.fields := by
  obtain ⟨-, rfl⟩ := flush_allocs_eq_some hflush
  exact elems_writeJSON strtod (fun s hs => (hread s hs).1.1) fun s hs => (hread s hs).2

section

variable {ι : Type} [DecidableEq ι] {W : ι → Writer} {pid : ι → ℕ} {h : ι → AllocSiteHandler}
  {d₀ : Disk} {es : List (ι × WriterEvent)} {C : Campaign ι}

/-- **The files of profiles after a campaign**: the old ones, and one for each process that is
done. -/
theorem profileFile_campaign (hflush : ∀ i, flush_allocs (pid i) (h i) = some (W i))
    (hrun : Run (CampaignStep W) (.start d₀) es C) (hover : ∀ i, (C.pc i).isActive = false)
    (p : String) (t : List Char) : ProfileFile C.disk TestDirectory p t ↔
      ProfileFile d₀ TestDirectory p t ∨ ∃ i, C.pc i = .done p ∧ t = (W i).text := by
  have hinv := CampaignInv.run hrun
  constructor
  · rintro ⟨hfind, hinside, hext⟩
    rcases hinv.files p t hfind with hold | ⟨i, hi⟩
    · exact Or.inl ⟨hold, hinside, hext⟩
    · refine Or.inr ⟨i, ?_⟩
      have hactive := hover i
      cases hpc : C.pc i with
      | done q =>
          rw [hpc] at hi
          obtain ⟨rfl, rfl⟩ := Prod.mk.inj (Option.some_inj.1 hi)
          exact ⟨rfl, rfl⟩
      | writing q off =>
          rw [hpc] at hactive
          exact absurd hactive (by simp [WriterPc.isActive])
      | _ =>
          rw [hpc] at hi
          exact absurd hi (by simp [WriterPc.owned?])
  · rintro (⟨hfind, hinside, hext⟩ | ⟨i, hpc, rfl⟩)
    · exact ⟨hinv.kept p _ hfind, hinside, hext⟩
    · have howned : (C.pc i).owned? (W i) = some (p, (W i).text) := by rw [hpc]; rfl
      obtain ⟨r, rfl⟩ := (hinv.writers i).named p (WriterPc.path?_of_owned? howned)
      refine ⟨((hinv.writers i).owned _ _ howned).1, inside_uniqueName .., ?_⟩
      obtain ⟨-, hW⟩ := flush_allocs_eq_some (hflush i)
      rw [extension_uniqueName, hW]
      exact toLower_json

/-- **The compiler reads what all processes have recorded**, beside what was in the directory
before the campaign. -/
theorem mem_profileSites_campaign (hflush : ∀ i, flush_allocs (pid i) (h i) = some (W i))
    (hread : ∀ i, Readable (h i)) (hdir : d₀.find TestDirectory = some .directory)
    (hrun : Run (CampaignStep W) (.start d₀) es C) (hover : ∀ i, (C.pc i).isActive = false)
    {env : Environment} (hshows : Shows env.fs C.disk) (FS : FaultingSite) :
    FS ∈ profileSites env TestDirectory ↔
      (∃ p t, ProfileFile d₀ TestDirectory p t ∧
        FS ∈ (elemsOf env.strtod t).filterMap siteOfValue?) ∨
      ∃ i p, C.pc i = .done p ∧ ∃ s ∈ (h i).faultSet.elems, s.faultingSite = FS := by
  have hinv := CampaignInv.run hrun
  have hsites : ∀ i, (elemsOf env.strtod (W i).text).filterMap siteOfValue? =
      (h i).faultSet.elems.map AllocSite.faultingSite := fun i => by
    rw [elemsOf_flush_allocs env.strtod (hflush i) (hread i)]
    exact filterMap_siteOfValue? fun s hs => (hread i s hs).1
  rw [mem_profileSites_dir hshows (hinv.kept _ _ hdir)]
  simp only [profileFile_campaign hflush hrun hover]
  constructor
  · rintro ⟨p, t, hold | ⟨i, hpc, rfl⟩, hFS⟩
    · exact Or.inl ⟨p, t, hold, hFS⟩
    · rw [hsites] at hFS
      exact Or.inr ⟨i, p, hpc, List.mem_map.1 hFS⟩
  · rintro (⟨p, t, hold, hFS⟩ | ⟨i, p, hpc, hFS⟩)
    · exact ⟨p, t, Or.inl hold, hFS⟩
    · refine ⟨p, _, Or.inr ⟨i, hpc, rfl⟩, ?_⟩
      rw [hsites]
      exact List.mem_map.2 hFS

theorem profileObjects_campaign (hflush : ∀ i, flush_allocs (pid i) (h i) = some (W i))
    (hread : ∀ i, Readable (h i)) (hdir : d₀.find TestDirectory = some .directory)
    (hrun : Run (CampaignStep W) (.start d₀) es C) (hover : ∀ i, (C.pc i).isActive = false)
    {env : Environment} (hshows : Shows env.fs C.disk)
    (hold : ∀ p t, ProfileFile d₀ TestDirectory p t →
      ∀ v ∈ elemsOf env.strtod t, v.getAsObject.isSome) : ProfileObjects env TestDirectory := by
  refine profileObjects_dir hshows ((CampaignInv.run hrun).kept _ _ hdir) fun p t hfile v hv => ?_
  rcases (profileFile_campaign hflush hrun hover p t).1 hfile with hfile | ⟨i, -, rfl⟩
  · exact hold p t hfile v hv
  · rw [elemsOf_flush_allocs env.strtod (hflush i) (hread i)] at hv
    obtain ⟨s, -, rfl⟩ := List.mem_map.1 hv
    rfl

end

/-! ### The report -/

/-- **A list of calls of `M` that says what has faulted** in any of the runs of `M'`, and what else
the runs have put on record: the sites of realloc chains. -/
structure CampaignReports {ι : Type} (T : Targets) (M M' : Module) (allocSiteTotal : ℕ)
    (events : ι → List ProgramEvent) (E : ι → Execution) (patchList : List InstId) : Prop where
  faults : ∀ k E₁ b, FaultIn M' allocSiteTotal (events k) (E k) E₁ b →
    ∃ hook ∈ M'.calls, ∃ CS ∈ M.calls,
      E₁.creator b.base = some hook ∧ HookOf T hook CS ∧ patchList.count CS.id = 1
  recorded : ∀ k, ∀ s ∈ (E k).handler.faultSet.elems, ∃ hook ∈ M'.calls, ∃ CS ∈ M.calls,
    hook.hookSite? = some s.siteId.hookSite ∧ HookOf T hook CS ∧ patchList.count CS.id = 1
  listed : ∀ i ∈ patchList, ∃ k, ∃ F ∈ M'.functions, ∃ hook ∈ F.calls,
    hook.args[0]? = some (.call i) ∧ ∃ s ∈ (E k).handler.faultSet.elems,
      s.funcName = F.name ∧ hook.hookID? = some (.int64 s.localID.toInt)

section

variable {ι : Type} {T : Targets} {names : InstId → String} {M M' : Module} {P₀ : ProvsanPost}
  {env₀ : Environment} {localSlot₀ : Function → BlockId → ℤ} {p₀ : Compiler} {total : ℕ}
  {events : ι → List ProgramEvent} {E : ι → Execution}

/-- The profile has what some process has recorded for a function name and an id. -/
def Covers (fault_map : FaultMap) (E : ι → Execution) : Prop :=
  ∀ (funcName : String) (id : ℕ), (fault_map.site? funcName id).isSome ↔
    ∃ k, ∃ s ∈ (E k).handler.faultSet.elems, s.funcName = funcName ∧ s.localID.toInt = id

/-- **A site on record in one of the runs** has its call on the list. -/
theorem count_of_recorded (hM : M.Source) (hfree : M.NoHookCalls)
    (hp₀ : ProvsanPost.run P₀ env₀ localSlot₀ Compiler.fresh (hookModule T names M) = some p₀)
    (hprocessed : p₀.processed = [⟨M', total⟩]) {P : ProvsanPost} (hpath : P.MPKProfilePath ≠ "")
    {fault_map : FaultMap} (hcovers : Covers fault_map E) {k : ι} {s : AllocSite}
    (hs : s ∈ (E k).handler.faultSet.elems) {hook : CallSite} (hhook : hook ∈ M'.calls)
    (hnum : hook.isNumbered = true) (hlaid : hook.hookSite? = some s.siteId.hookSite) :
    ∃ CS ∈ M.calls, HookOf T hook CS ∧
      ((hookModule T names M).patchCalls P fault_map).count CS.id = 1 :=
  count_of_told hM hfree hp₀ hprocessed hhook hnum hlaid hpath fun id hid =>
    (hcovers _ id).2 ⟨k, s, hs, rfl, hid⟩

/-- **A block that faulted in one of the runs** has its call on the list. -/
theorem count_of_faultIn (hM : M.Source) (hfree : M.NoHookCalls)
    (hp₀ : ProvsanPost.run P₀ env₀ localSlot₀ Compiler.fresh (hookModule T names M) = some p₀)
    (hprocessed : p₀.processed = [⟨M', total⟩]) {P : ProvsanPost} (hpath : P.MPKProfilePath ≠ "")
    {fault_map : FaultMap} (hcovers : Covers fault_map E) {k : ι} {E₁ : Execution} {b : Block}
    (hfault : FaultIn M' total (events k) (E k) E₁ b) :
    ∃ hook ∈ M'.calls, ∃ CS ∈ M.calls, E₁.creator b.base = some hook ∧ HookOf T hook CS ∧
      ((hookModule T names M).patchCalls P fault_map).count CS.id = 1 := by
  obtain ⟨-, hbefore, hfault, hafter, hb, hptr⟩ := hfault
  obtain ⟨s, hs, hcontains⟩ := hfault.contains_of_fault (Execution.tracks hbefore) hb hptr
  obtain ⟨t, ht, hbeq⟩ := UnorderedSet.contains_iff.1 (Execution.contains_of_run hafter hcontains)
  have hsite : t.siteId = b.site := (AllocSite.beq_iff.1 hbeq).trans hs
  obtain ⟨hook, hhook, hcreator, hnum, hlaid⟩ := Execution.creatorsTold hbefore b hb
  rw [← hsite] at hlaid
  obtain ⟨CS, hCS, hof, hcount⟩ :=
    count_of_recorded hM hfree hp₀ hprocessed hpath hcovers ht hhook hnum hlaid
  exact ⟨hook, hhook, CS, hCS, hcreator, hof, hcount⟩

/-- **A call on the list** has been recorded in one of the runs. -/
theorem exists_of_mem_patchCalls (hM : M.Source) (hfree : M.NoHookCalls)
    (hp₀ : ProvsanPost.run P₀ env₀ localSlot₀ Compiler.fresh (hookModule T names M) = some p₀)
    (hprocessed : p₀.processed = [⟨M', total⟩])
    (htells : ∀ k, ∀ s ∈ (E k).handler.faultSet.elems, M'.Tells s.siteId) {P : ProvsanPost}
    {fault_map : FaultMap} (hcovers : Covers fault_map E) {i : InstId}
    (hi : i ∈ (hookModule T names M).patchCalls P fault_map) :
    ∃ k, ∃ F ∈ M'.functions, ∃ hook ∈ F.calls, hook.args[0]? = some (.call i) ∧
      ∃ s ∈ (E k).handler.faultSet.elems, s.funcName = F.name ∧
        hook.hookID? = some (.int64 s.localID.toInt) := by
  obtain ⟨-, ⟨G, BB, hook⟩, hv, hrefers, hfound⟩ := mem_patchCalls_iff.1 hi
  obtain ⟨hG, hBB, hhook, hnum⟩ := mem_visitedHooks.1 hv
  have hhook := Function.mem_calls_of_mem_visited (List.mem_flatMap_of_mem hBB hhook)
  obtain ⟨k, s, hs, hfunc, hlocal⟩ := (hcovers G.name (G.localID hook.id)).1 hfound
  obtain ⟨-, hnone | hfunctions⟩ := sited_of_processed hM hfree hp₀ hprocessed
  · -- without hooks nothing would have been recorded
    obtain ⟨-, hook', hhook', hnum', -⟩ := htells k s hs
    rw [hnone hook' hhook'] at hnum'
    exact absurd hnum' (by simp)
  · obtain ⟨F, hF, hname, hcalls⟩ := exists_of_mem_left hfunctions hG
    obtain ⟨hook', hhook', hsited⟩ := exists_of_mem_left hcalls hhook
    obtain ⟨BB, -, hlaid⟩ := hsited.site hnum
    refine ⟨k, F, hF, hook', hhook', hsited.refers.trans hrefers, s, hs, hfunc.trans hname.symm, ?_⟩
    rw [hookID?_of_hookSite? hlaid, hlocal]

/-- The sites that are read for the processes of a campaign. -/
theorem covers_of_profileSites {env : Environment} {MPKProfilePath : String}
    (hid : ∀ k, ∀ s ∈ (E k).handler.faultSet.elems, 0 ≤ s.localID)
    (hsites : ∀ FS, FS ∈ profileSites env MPKProfilePath ↔
      ∃ k, ∃ s ∈ (E k).handler.faultSet.elems, s.faultingSite = FS) :
    Covers ((profileSites env MPKProfilePath).foldl addSite OrdMap.empty) E := by
  intro funcName id
  have hread : ∀ k, ∀ s ∈ (E k).handler.faultSet.elems,
      (s.localID.toInt.toNat = id ↔ s.localID.toInt = id) := fun k s hs => by
    have hpos : 0 ≤ s.localID.toInt := by simpa using Int64.le_iff_toInt_le.1 (hid k s hs)
    omega
  rw [site?_profileSites, List.find?_isSome]
  constructor
  · rintro ⟨FS, hFS, hmatch⟩
    obtain ⟨k, s, hs, rfl⟩ := (hsites FS).1 hFS
    obtain ⟨hfunc, hlocal⟩ := of_decide_eq_true hmatch
    exact ⟨k, s, hs, hfunc, (hread k s hs).1 hlocal⟩
  · rintro ⟨k, s, hs, hfunc, hlocal⟩
    exact ⟨_, (hsites _).2 ⟨k, s, hs, rfl⟩, decide_eq_true ⟨hfunc, (hread k s hs).2 hlocal⟩⟩

end

/-- **The report lists the calls of all that the runs have put on record**, and no others.  `M₁` is
the module after the first pass and `M'` what the second one makes of it; `M'` has been run by some
processes that had something to record, all of them have written their profiles to the directory, in
any interleaving, and the report build is the second pass on `M₁` again, with the directory. -/
theorem campaign_provenance {ι : Type} [DecidableEq ι] (O : PreOptions) (names : InstId → String)
    (M M₁ : Module) (hM : M.Source) (hfree : M.NoHookCalls) (hT : (O.targets M).NoHooks)
    (hloc : ∀ CS ∈ M.calls, ((O.targets M).kind? CS).isSome → CS.debugLoc.isSome)
    (hpre : DynUntrustedAllocPre.run O names M = some M₁) (hnames : M₁.PlainNames)
    (P₀ : ProvsanPost) (env₀ : Environment) (localSlot₀ : Function → BlockId → ℤ) (p₀ : Compiler)
    (M' : Module) (total : ℕ) (hp₀ : ProvsanPost.run P₀ env₀ localSlot₀ Compiler.fresh M₁ = some p₀)
    (hprocessed : p₀.processed = [⟨M', total⟩]) (events : ι → List ProgramEvent)
    (E : ι → Execution)
    (hruns : ∀ k, Run (ExecutionStep M') (Execution.start total) (events k) (E k))
    (pid : ι → ℕ) (W : ι → Writer)
    (hflush : ∀ k, flush_allocs (pid k) (E k).handler = some (W k)) (d₀ : Disk)
    (hdir : d₀.find TestDirectory = some .directory)
    (hempty : ∀ p t, ¬ ProfileFile d₀ TestDirectory p t) (es : List (ι × WriterEvent))
    (C : Campaign ι) (hcampaign : Run (CampaignStep W) (.start d₀) es C)
    (hdone : ∀ k, ∃ p, C.pc k = .done p) (P : ProvsanPost)
    (hpath : P.MPKProfilePath = TestDirectory) (env : Environment) (hshows : Shows env.fs C.disk)
    (localSlot : Function → BlockId → ℤ) :
    ∃ p, ProvsanPost.run P env localSlot Compiler.fresh M₁ = some p ∧
      CampaignReports (O.targets M) M M' total events E p.patchList := by
  obtain ⟨-, rfl⟩ := (run_pre hM hT).1 hpre
  have hsource : (declareHooks M).Source := hM.declareHooks
  have hno : (declareHooks M).NoHookCalls := hfree.declareHooks
  have htells : ∀ k, ∀ s ∈ (E k).handler.faultSet.elems, M'.Tells s.siteId := fun k =>
    (Execution.sitesIn (hruns k)).faults
  have hread : ∀ k, Readable (E k).handler := by
    intro k s hs
    obtain ⟨hfunc, hbb⟩ := plain_of_tells hsource hno hp₀ hprocessed hnames (htells k s hs)
    exact ⟨⟨(htells k s hs).id_nonneg, hbb.1, hfunc.1⟩, hbb.2, hfunc.2⟩
  have hover : ∀ k, (C.pc k).isActive = false := by
    intro k
    obtain ⟨p, hp⟩ := hdone k
    rw [hp]
    rfl
  -- the directory has the sites of all runs, and nothing else
  have hobjects := profileObjects_campaign hflush hread hdir hcampaign hover hshows
    fun p t hold => absurd hold (hempty p t)
  have hsites : ∀ FS, FS ∈ profileSites env TestDirectory ↔
      ∃ k, ∃ s ∈ (E k).handler.faultSet.elems, s.faultingSite = FS := by
    intro FS
    rw [mem_profileSites_campaign hflush hread hdir hcampaign hover hshows]
    constructor
    · rintro (⟨p, t, hold, -⟩ | ⟨k, p, -, hs⟩)
      · exact absurd hold (hempty p t)
      · exact ⟨k, hs⟩
    · rintro ⟨k, hs⟩
      obtain ⟨p, hp⟩ := hdone k
      exact Or.inr ⟨k, p, hp, hs⟩
  rw [← hpath] at hobjects hsites
  have hpath_ne : P.MPKProfilePath ≠ "" := by rw [hpath]; decide
  have hcovers := covers_of_profileSites (fun k s hs => (htells k s hs).id_nonneg) hsites
  obtain ⟨p, -, hp, hlist, -⟩ := exists_run_hookModule (O.targets M) names hsource hno
    (by rwa [calls_declareHooks]) ((getFaultingAllocMap_eq_some hpath_ne).2 ⟨hobjects, rfl⟩)
    localSlot
  refine ⟨p, hp, fun k E₁ b hfault => ?_, fun k s hs => ?_, fun i hi => ?_⟩
  · obtain ⟨hook, hhook, CS, hCS, hcreator, hof, hcount⟩ :=
      count_of_faultIn hsource hno hp₀ hprocessed hpath_ne hcovers hfault
    rw [hlist]
    exact ⟨hook, hhook, CS, calls_declareHooks M ▸ hCS, hcreator, hof, hcount⟩
  · obtain ⟨-, hook, hhook, hnum, hlaid⟩ := htells k s hs
    obtain ⟨CS, hCS, hof, hcount⟩ :=
      count_of_recorded hsource hno hp₀ hprocessed hpath_ne hcovers hs hhook hnum hlaid
    rw [hlist]
    exact ⟨hook, hhook, CS, calls_declareHooks M ▸ hCS, hlaid, hof, hcount⟩
  · rw [hlist] at hi
    exact exists_of_mem_patchCalls hsource hno hp₀ hprocessed htells hcovers hi

/-- A process with a block that faulted has something to write. -/
theorem exists_flush_allocs {M' : Module} {total : ℕ} {events : List ProgramEvent}
    {E E₁ : Execution} {b : Block} (hfault : FaultIn M' total events E E₁ b) (pid : ℕ) :
    ∃ W, flush_allocs pid E.handler = some W := by
  obtain ⟨-, hbefore, hstep, hafter, hb, hptr⟩ := hfault
  obtain ⟨s, -, hs⟩ := hstep.contains_of_fault (Execution.tracks hbefore) hb hptr
  obtain ⟨t, ht, -⟩ := UnorderedSet.contains_iff.1 (Execution.contains_of_run hafter hs)
  exact ⟨_, if_neg (List.ne_nil_of_mem ht)⟩

/-- A campaign of one process. -/
theorem exists_campaign_single (W : Writer) :
    ∃ (es : List (Unit × WriterEvent)) (C : Campaign Unit), Run (CampaignStep fun _ => W)
      (.start emptyProfile) es C ∧ ∀ k, ∃ p, C.pc k = .done p := by
  obtain ⟨es, d, hes, -⟩ := WriterPc.exists_runAlone_idle W
    ((find_emptyProfile _).trans (if_pos rfl)) (find_uniqueName_emptyProfile _ _ 0#64)
  have hpid : ∀ j, ((Campaign.start emptyProfile : Campaign Unit).pc j).isActive = true → j ≠ () →
      W.pid ≠ W.pid := fun j _ hj => absurd rfl hj
  refine ⟨_, _, Campaign.run_alone hpid hes, fun k => ?_⟩
  refine ⟨uniqueName TestDirectory W.kind W.pid 0#64, ?_⟩
  cases k
  exact Function.update_self () (WriterPc.done _) (Campaign.start emptyProfile : Campaign Unit).pc

theorem not_profileFile_emptyProfile (p : String) (t : List Char) :
    ¬ ProfileFile emptyProfile TestDirectory p t := by
  rintro ⟨hfind, -, -⟩
  rw [find_emptyProfile] at hfind
  split_ifs at hfind
  exact absurd hfind (by simp)

/-- One run of the module with the second allocation, whose block faults. -/
theorem campaign_provenance_static : ∃ (M₁ : Module) (C : Campaign Unit) (p : Compiler),
    DynUntrustedAllocPre.run sampleOptions (fun _ => "") staticModule = some M₁ ∧
      ProvsanPost.run ⟨TestDirectory, true⟩ ⟨C.disk.fileSystem, fun _ => none, fun _ => 0⟩
        (fun _ _ => 0) Compiler.fresh M₁ = some p ∧ p.patchList.count (.src 1) = 1 := by
  obtain ⟨E, E₁, hrun, hfault, hcreator⟩ := faultIn_staticEvents
  have hplain : ∀ M₁ ∈ DynUntrustedAllocPre.run sampleOptions (fun _ => "") staticModule,
      M₁.PlainNames ∧ ∃ p₀ ∈ ProvsanPost.run ⟨"", false⟩ (profileOf "[]") (fun _ _ => 0)
        Compiler.fresh M₁, p₀.processed = [⟨staticModule', 0⟩] := by decide
  obtain ⟨M₁, hM₁⟩ := Option.isSome_iff_exists.1 (show (DynUntrustedAllocPre.run sampleOptions
    (fun _ => "") staticModule).isSome from by decide)
  obtain ⟨hnames, p₀, hp₀, hprocessed⟩ := hplain M₁ hM₁
  obtain ⟨W, hW⟩ := exists_flush_allocs hfault 7
  obtain ⟨es, C, hcampaign, hdone⟩ := exists_campaign_single W
  obtain ⟨p, hp, hreports⟩ := campaign_provenance sampleOptions (fun _ => "") staticModule M₁
    staticModule_source staticModule_hookFree.calls (noHooks_targets _ staticModule_hookFree)
    (by decide) hM₁ hnames ⟨"", false⟩ (profileOf "[]") (fun _ _ => 0) p₀ staticModule' 0 hp₀
    hprocessed (fun _ => staticEvents) (fun _ => E) (fun _ => hrun) (fun _ => 7) (fun _ => W)
    (fun _ => hW) emptyProfile ((find_emptyProfile _).trans (if_pos rfl))
    not_profileFile_emptyProfile es C hcampaign hdone ⟨TestDirectory, true⟩ rfl
    ⟨C.disk.fileSystem, fun _ => none, fun _ => 0⟩ C.disk.shows_fileSystem fun _ _ => 0
  obtain ⟨hook, -, CS, -, hhook, hof, hcount⟩ := hreports.faults () E₁ staticBlock hfault
  obtain rfl := Option.some_inj.1 (hcreator.symm.trans hhook)
  have hrefers : some (Value.call (.src 1)) = some (.call CS.id) := hof.refers
  obtain heq := Value.call.inj (Option.some_inj.1 hrefers)
  exact ⟨M₁, C, p, hM₁, hp, heq ▸ hcount⟩

end Provsan
