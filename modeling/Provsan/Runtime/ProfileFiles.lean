/-
**The files of a campaign.**

At its exit a process writes its profile to a new file of the directory `TestResults`
(`Runtime/provsan_formatter.cpp`).  Many processes do so, some of them at the same time, on the same
disk: each one asks for the directory, draws names until one is free, opens the file and writes
its text piece by piece, and between any two of these calls the others may run.  No call is atomic
with the next one, so that what keeps the files apart are the names.

Main definitions:

* `Provsan.Disk` — directories and files;
* `Provsan.uniqueName` — the names that `makeUniqueFilename` tries;
* `Provsan.Writer`, `Provsan.WriterPc`, `Provsan.WriterPc.step` — a file to be written, and the
  system calls of `writeUniqueFile` one by one;
* `Provsan.Campaign`, `Provsan.CampaignStep` — writers that run in any interleaving.

Main results:

* `Provsan.uniqueName_inj` — processes that run at the same time never try the same name;
* `Provsan.CampaignInv.step` — the invariant of the files;
* `Provsan.campaign_files` — **no profile is overwritten, none is mixed with another, and with the
  directory in place none is lost while names are free**.
-/

import Provsan.Lib.OrdMap
import Provsan.Lib.Run
import Mathlib.Data.String.Basic
import Mathlib.Logic.Function.Basic

set_option relaxedAutoImplicit false
set_option autoImplicit false

namespace Provsan

/-! ### The disk -/

inductive Node
  | directory
  | file (text : List Char)
  deriving DecidableEq

abbrev Disk := OrdMap String Node

namespace Disk

/-- The disk after a change at one path. -/
def set (d : Disk) (path : String) (n : Node) : Disk :=
  OrdMap.emplace (OrdMap.erase d path) path n

theorem find_set (d : Disk) (path p : String) (n : Node) :
    (d.set path n).find p = if p = path then some n else d.find p := by
  have hnone : (OrdMap.erase d path).find path = none := by
    rw [OrdMap.find_erase, if_pos rfl]
  rw [set, OrdMap.find_emplace_of_none hnone, OrdMap.find_erase]
  split_ifs <;> rfl

def is_directory (d : Disk) (path : String) : Bool := d.find path = some .directory

/-- `mkdir`, which fails when there is something already. -/
def mkdir (d : Disk) (path : String) : Option Disk :=
  if d.find path = none then some (d.set path .directory) else none

/-- `open` of an output stream for a path in a directory: the file is created, or emptied. -/
def openStream (d : Disk) (dir path : String) : Option Disk :=
  if d.is_directory dir = true ∧ d.find path ≠ some .directory then some (d.set path (.file []))
  else none

end Disk

/-- The text of a file after a piece has been written at an offset. -/
def writeAt (text : List Char) (off : ℕ) (piece : List Char) : List Char :=
  text.take off ++ List.replicate (off - text.length) '\x00' ++ piece ++
    text.drop (off + piece.length)

/-- Writing at the end appends. -/
theorem writeAt_end (text : List Char) (off n : ℕ) (hoff : off ≤ text.length) :
    writeAt (text.take off) off ((text.drop off).take n) = text.take (off + n) := by
  have hlength : (text.take off).length = off := List.length_take_of_le hoff
  have hbefore : (text.take off).take off = text.take off :=
    List.take_of_length_le (Nat.le_of_eq hlength)
  have hafter : (text.take off).drop (off + ((text.drop off).take n).length) = [] :=
    List.drop_eq_nil_of_le (by omega)
  rw [writeAt, hbefore, hafter, hlength, Nat.sub_self, List.replicate_zero, List.append_nil,
    List.append_nil, ← List.take_add]

/-! ### Names -/

def hexDigits (r : BitVec 64) : String :=
  String.ofList (List.leftpad 16 '0' (Nat.toDigits 16 r.toNat))

def TestDirectory : String := "TestResults"

inductive OutputKind
  | faultingAllocs
  | runtimeStats
  deriving DecidableEq

def OutputKind.base_name : OutputKind → String
  | faultingAllocs => "faulting-allocs"
  | runtimeStats => "runtime-stats"

def OutputKind.extension : OutputKind → String
  | faultingAllocs => "json"
  | runtimeStats => "stat"

/-- A name that `makeUniqueFilename` tries, with the number that it has drawn. -/
def uniqueName (path : String) (kind : OutputKind) (pid : ℕ) (r : BitVec 64) : String :=
  path ++ "/" ++ kind.base_name ++ "-" ++ toString pid ++ "-" ++ hexDigits r ++ "." ++
    kind.extension

theorem toList_toString_nat (n : ℕ) : (toString n).toList = Nat.toDigits 10 n := by simp

theorem dash_notMem_toString (n : ℕ) : '-' ∉ (toString n).toList := by
  intro h
  rw [toList_toString_nat] at h
  exact absurd (Nat.isDigit_of_mem_toDigits (by decide) (by decide) h) (by decide)

/-- What comes before the first dash is determined by the text. -/
theorem eq_of_append_dash {x y u v : List Char} (hx : '-' ∉ x) (hy : '-' ∉ y)
    (h : x ++ '-' :: u = y ++ '-' :: v) : x = y := by
  induction x generalizing y with
  | nil =>
      cases y with
      | nil => rfl
      | cons c y =>
          obtain ⟨rfl, -⟩ := List.cons.inj h
          exact absurd (List.mem_cons_self ..) hy
  | cons c x ih =>
      cases y with
      | nil =>
          obtain ⟨rfl, -⟩ := List.cons.inj h
          exact absurd (List.mem_cons_self ..) hx
      | cons c' y =>
          obtain ⟨rfl, htail⟩ := List.cons.inj h
          rw [ih (fun hc => hx (List.mem_cons_of_mem _ hc))
            (fun hc => hy (List.mem_cons_of_mem _ hc)) htail]

/-- **A name tells the process that tries it**, whatever numbers are drawn. -/
theorem uniqueName_inj {path : String} {kind kind' : OutputKind} {pid pid' : ℕ} {r r' : BitVec 64}
    (h : uniqueName path kind pid r = uniqueName path kind' pid' r') : pid = pid' := by
  have htext := congrArg String.toList h
  simp only [uniqueName, String.toList_append, List.append_assoc] at htext
  have hrest := List.append_cancel_left (List.append_cancel_left htext)
  have hkind : kind = kind' := by
    cases kind <;> cases kind' <;> simp [OutputKind.base_name] at hrest ⊢
  subst hkind
  have hpid := List.append_cancel_left (List.append_cancel_left hrest)
  have htoString : (toString pid).toList = (toString pid').toList :=
    eq_of_append_dash (dash_notMem_toString pid) (dash_notMem_toString pid') hpid
  rw [toList_toString_nat, toList_toString_nat] at htoString
  have hread := congrArg (fun ds => Nat.ofDigitChars 10 ds 0) htoString
  rwa [Nat.ofDigitChars_ten_toDigits, Nat.ofDigitChars_ten_toDigits] at hread

theorem uniqueName_ne (path : String) (kind : OutputKind) (pid : ℕ) (r : BitVec 64) :
    uniqueName path kind pid r ≠ path := by
  intro h
  have hlength := congrArg String.length h
  simp only [uniqueName, String.length_append] at hlength
  have hslash : "/".length = 1 := rfl
  omega

/-! ### Writers -/

/-- A file that a process writes.  In the build with `MPK_STATS` a process writes two, one after the
other, and the second one when the directory is there. -/
structure Writer where
  pid : ℕ
  kind : OutputKind
  text : List Char

inductive WriteFailure
  | mkdir
  | noName
  | notOpened
  deriving DecidableEq

/-- Where a writer is in `writeUniqueFile`. -/
inductive WriterPc
  | idle
  | checking
  | making
  /-- In the loop of `makeUniqueFilename`. -/
  | naming (attempt : ℕ)
  /-- A free name has been returned. -/
  | opening (path : String)
  /-- So much of the text has been written. -/
  | writing (path : String) (off : ℕ)
  | done (path : String)
  | failed (why : WriteFailure)
  deriving DecidableEq

/-- What is left open by the code: the number that is drawn, and the size of the next piece. -/
inductive WriterEvent
  | next
  | draw (r : BitVec 64)
  | write (n : ℕ)
  deriving DecidableEq

def ATTEMPTS : ℕ := 128

/-- One system call of a writer; `none` when the event does not fit. -/
def WriterPc.step (W : Writer) (d : Disk) : WriterPc → WriterEvent → Option (Disk × WriterPc)
  | idle, .next =>
      match W.kind with
      | .faultingAllocs => some (d, checking)
      | .runtimeStats => some (d, naming 0)
  | checking, .next => some (d, if d.is_directory TestDirectory then naming 0 else making)
  | making, .next =>
      match d.mkdir TestDirectory with
      | some d => some (d, naming 0)
      | none => some (d, failed .mkdir)
  | naming attempt, .draw r =>
      if attempt ≠ ATTEMPTS then
        let unique := uniqueName TestDirectory W.kind W.pid r
        if d.find unique = none then some (d, opening unique)
        else some (d, naming (attempt + 1))
      else none
  | naming attempt, .next => if attempt = ATTEMPTS then some (d, failed .noName) else none
  | opening path, .next =>
      match d.openStream TestDirectory path with
      | some d => some (d, writing path 0)
      | none => some (d, failed .notOpened)
  | writing path off, .write n =>
      if 0 < n ∧ off + n ≤ W.text.length then
        match d.find path with
        | some (.file text) =>
            some (d.set path (.file (writeAt text off ((W.text.drop off).take n))),
              writing path (off + n))
        | _ => none
      else none
  | writing path off, .next => if off = W.text.length then some (d, done path) else none
  | _, _ => none

/-- The writer is between its first call and its last one. -/
def WriterPc.isActive : WriterPc → Bool
  | idle | done _ | failed _ => false
  | _ => true

/-- The file that a writer has created, with as much as it has written. -/
def WriterPc.owned? (W : Writer) : WriterPc → Option (String × List Char)
  | writing path off => some (path, W.text.take off)
  | done path => some (path, W.text)
  | _ => none

/-! ### Campaigns -/

structure Campaign (ι : Type) where
  disk : Disk
  pc : ι → WriterPc

variable {ι : Type} [DecidableEq ι]

/-- One call of one writer.  Of the processes that run at the same time no two have one id. -/
inductive CampaignStep (W : ι → Writer) : Campaign ι → ι × WriterEvent → Campaign ι → Prop
  | intro {C : Campaign ι} {i : ι} {e : WriterEvent} {d : Disk} {pc : WriterPc}
      (hpid : ∀ j, (C.pc j).isActive = true → j ≠ i → (W j).pid ≠ (W i).pid)
      (hstep : (C.pc i).step (W i) C.disk e = some (d, pc)) :
      CampaignStep W C (i, e) ⟨d, Function.update C.pc i pc⟩

/-! ### What a call does -/

def WriterPc.path? : WriterPc → Option String
  | opening path | writing path _ | done path => some path
  | _ => none

/-- A call that leaves the disk as it is. -/
structure QuietCall (W : Writer) (d : Disk) (pc pc' : WriterPc) : Prop where
  owned : pc'.owned? W = pc.owned? W
  path : ∀ p, pc'.path? = some p → pc.path? = some p ∨
    pc' = .opening p ∧ d.find p = none ∧ ∃ r, p = uniqueName TestDirectory W.kind W.pid r
  opening : ∀ p, pc' = .opening p → d.find p = none
  making : pc' = .making → d.is_directory TestDirectory = false
  failed : ∀ why, pc' = .failed why → why = .noName ∨ pc = .making ∨
    why = .notOpened ∧ ∃ p, pc = .opening p ∧ d.openStream TestDirectory p = none
  bounded : ∀ p off, pc' ≠ .writing p off

theorem QuietCall.of_path_eq_none {W : Writer} {d : Disk} {pc pc' : WriterPc}
    (hpath : pc'.path? = none) (howned : pc.owned? W = none)
    (hmaking : pc' = .making → d.is_directory TestDirectory = false)
    (hfailed : ∀ why, pc' = .failed why → why = .noName ∨ pc = .making ∨
      why = .notOpened ∧ ∃ p, pc = .opening p ∧ d.openStream TestDirectory p = none) :
    QuietCall W d pc pc' where
  owned := by
    rw [howned]
    cases pc' with
    | writing p off => exact absurd hpath (by simp [WriterPc.path?])
    | done p => exact absurd hpath (by simp [WriterPc.path?])
    | _ => rfl
  path p hp := absurd (hpath.symm.trans hp) (by simp)
  opening p hp := absurd (hp ▸ hpath) (by simp [WriterPc.path?])
  making := hmaking
  failed := hfailed
  bounded p off hp := absurd (hp ▸ hpath) (by simp [WriterPc.path?])

namespace WriterPc

variable {W : Writer} {d d' : Disk} {pc' : WriterPc} {e : WriterEvent}

theorem quiet_of_step_idle (h : idle.step W d e = some (d', pc')) :
    d' = d ∧ QuietCall W d idle pc' := by
  cases e with
  | next =>
      cases hk : W.kind with
      | faultingAllocs =>
          simp only [step, hk, Option.some_inj, Prod.mk.injEq] at h
          obtain ⟨rfl, rfl⟩ := h
          exact ⟨rfl, .of_path_eq_none rfl rfl (by simp) (by simp)⟩
      | runtimeStats =>
          simp only [step, hk, Option.some_inj, Prod.mk.injEq] at h
          obtain ⟨rfl, rfl⟩ := h
          exact ⟨rfl, .of_path_eq_none rfl rfl (by simp) (by simp)⟩
  | draw | write => exact absurd h (by simp [step])

theorem quiet_of_step_checking (h : checking.step W d e = some (d', pc')) :
    d' = d ∧ QuietCall W d checking pc' := by
  cases e with
  | next =>
      simp only [step, Option.some_inj, Prod.mk.injEq] at h
      obtain ⟨rfl, rfl⟩ := h
      refine ⟨rfl, ?_⟩
      split_ifs with hdir
      · exact .of_path_eq_none rfl rfl (by simp) (by simp)
      · exact .of_path_eq_none rfl rfl (fun _ => by simpa using hdir) (by simp)
  | draw | write => exact absurd h (by simp [step])

theorem step_making_cases (h : making.step W d e = some (d', pc')) :
    (d' = d ∧ QuietCall W d making pc') ∨
      (pc' = naming 0 ∧ d.find TestDirectory = none ∧ d' = d.set TestDirectory .directory) := by
  cases e with
  | next =>
      cases hmk : d.mkdir TestDirectory with
      | none =>
          simp only [step, hmk, Option.some_inj, Prod.mk.injEq] at h
          obtain ⟨rfl, rfl⟩ := h
          exact Or.inl ⟨rfl, .of_path_eq_none rfl rfl (by simp) (by simp)⟩
      | some d₁ =>
          simp only [step, hmk, Option.some_inj, Prod.mk.injEq] at h
          obtain ⟨rfl, rfl⟩ := h
          unfold Disk.mkdir at hmk
          split_ifs at hmk with hnone
          exact Or.inr ⟨rfl, hnone, (Option.some_inj.1 hmk).symm⟩
  | draw | write => exact absurd h (by simp [step])

theorem quiet_of_step_naming {attempt : ℕ} (h : (naming attempt).step W d e = some (d', pc')) :
    d' = d ∧ QuietCall W d (naming attempt) pc' := by
  cases e with
  | next =>
      simp only [step] at h
      split_ifs at h
      obtain ⟨rfl, rfl⟩ := Prod.mk.inj (Option.some_inj.1 h)
      exact ⟨rfl, .of_path_eq_none rfl rfl (by simp) (by simp)⟩
  | draw r =>
      simp only [step] at h
      split_ifs at h with hattempt hfree
      · obtain ⟨rfl, rfl⟩ := Prod.mk.inj (Option.some_inj.1 h)
        refine ⟨rfl, ?_⟩
        constructor
        · rfl
        · intro p hp
          obtain rfl := Option.some_inj.1 hp
          exact Or.inr ⟨rfl, hfree, r, rfl⟩
        · intro p hp
          obtain rfl := WriterPc.opening.inj hp
          exact hfree
        · exact fun hp => absurd hp (by simp)
        · exact fun why hp => absurd hp (by simp)
        · exact fun p off hp => absurd hp (by simp)
      · obtain ⟨rfl, rfl⟩ := Prod.mk.inj (Option.some_inj.1 h)
        exact ⟨rfl, .of_path_eq_none rfl rfl (by simp) (by simp)⟩
  | write => exact absurd h (by simp [step])

theorem step_opening_cases {path : String} (h : (opening path).step W d e = some (d', pc')) :
    (d' = d ∧ QuietCall W d (opening path) pc') ∨
      (pc' = writing path 0 ∧ d' = d.set path (.file [])) := by
  cases e with
  | next =>
      cases hopen : d.openStream TestDirectory path with
      | none =>
          simp only [step, hopen, Option.some_inj, Prod.mk.injEq] at h
          obtain ⟨rfl, rfl⟩ := h
          refine Or.inl ⟨rfl, .of_path_eq_none rfl rfl (by simp) fun why hwhy => ?_⟩
          exact Or.inr (Or.inr ⟨(WriterPc.failed.inj hwhy).symm, path, rfl, hopen⟩)
      | some d₁ =>
          simp only [step, hopen, Option.some_inj, Prod.mk.injEq] at h
          obtain ⟨rfl, rfl⟩ := h
          unfold Disk.openStream at hopen
          split_ifs at hopen
          exact Or.inr ⟨rfl, (Option.some_inj.1 hopen).symm⟩
  | draw | write => exact absurd h (by simp [step])

theorem step_writing_cases {path : String} {off : ℕ}
    (h : (writing path off).step W d e = some (d', pc')) :
    (d' = d ∧ QuietCall W d (writing path off) pc') ∨
      ∃ n text, pc' = writing path (off + n) ∧ off + n ≤ W.text.length ∧
        d.find path = some (.file text) ∧
        d' = d.set path (.file (writeAt text off ((W.text.drop off).take n))) := by
  cases e with
  | next =>
      simp only [step] at h
      split_ifs at h with hoff
      obtain ⟨rfl, rfl⟩ := Prod.mk.inj (Option.some_inj.1 h)
      refine Or.inl ⟨rfl, ?_⟩
      constructor
      · rw [WriterPc.owned?, WriterPc.owned?, hoff, List.take_length]
      · exact fun p hp => Or.inl hp
      · exact fun p hp => absurd hp (by simp)
      · exact fun hp => absurd hp (by simp)
      · exact fun why hp => absurd hp (by simp)
      · exact fun p off hp => absurd hp (by simp)
  | write n =>
      simp only [step] at h
      split_ifs at h with hn
      cases hfind : d.find path with
      | none => exact absurd h (by simp [hfind])
      | some node =>
          cases node with
          | directory => exact absurd h (by simp [hfind])
          | file text =>
              simp only [hfind, Option.some_inj, Prod.mk.injEq] at h
              obtain ⟨rfl, rfl⟩ := h
              exact Or.inr ⟨n, text, rfl, hn.2, rfl, rfl⟩
  | draw => exact absurd h (by simp [step])

/-- **What a call does**: it is quiet, makes the directory, creates the file, or writes the next
piece of it. -/
theorem step_cases {pc : WriterPc} (h : pc.step W d e = some (d', pc')) :
    (d' = d ∧ QuietCall W d pc pc') ∨
    (pc = .making ∧ pc' = .naming 0 ∧ d.find TestDirectory = none ∧
      d' = d.set TestDirectory .directory) ∨
    (∃ p, pc = .opening p ∧ pc' = .writing p 0 ∧ d' = d.set p (.file [])) ∨
    ∃ p off n text, pc = .writing p off ∧ pc' = .writing p (off + n) ∧ off + n ≤ W.text.length ∧
      d.find p = some (.file text) ∧
      d' = d.set p (.file (writeAt text off ((W.text.drop off).take n))) := by
  cases pc with
  | idle => exact Or.inl (quiet_of_step_idle h)
  | checking => exact Or.inl (quiet_of_step_checking h)
  | making =>
      rcases step_making_cases h with hquiet | hmade
      · exact Or.inl hquiet
      · exact Or.inr (Or.inl ⟨rfl, hmade⟩)
  | naming attempt => exact Or.inl (quiet_of_step_naming h)
  | opening path =>
      rcases step_opening_cases h with hquiet | hopened
      · exact Or.inl hquiet
      · exact Or.inr (Or.inr (Or.inl ⟨path, rfl, hopened⟩))
  | writing path off =>
      rcases step_writing_cases h with hquiet | ⟨n, text, hwritten⟩
      · exact Or.inl hquiet
      · exact Or.inr (Or.inr (Or.inr ⟨path, off, n, text, rfl, hwritten⟩))
  | done path => exact absurd h (by cases e <;> simp [step])
  | failed why => exact absurd h (by cases e <;> simp [step])

end WriterPc

/-! ### The invariant -/

/-- What holds of one writer, in a campaign that has begun with the disk `d₀`. -/
structure WriterInv (W : Writer) (d₀ d : Disk) (pc : WriterPc) : Prop where
  named : ∀ p, pc.path? = some p → ∃ r, p = uniqueName TestDirectory W.kind W.pid r
  fresh : ∀ p, pc = .opening p → d.find p = none
  /-- A writer finds in its file what it has written. -/
  owned : ∀ p t, pc.owned? W = some (p, t) → d.find p = some (.file t) ∧ d₀.find p = none
  making : pc = .making → d₀.find TestDirectory ≠ some .directory
  failed : ∀ why, pc = .failed why → why = .noName ∨ d₀.find TestDirectory ≠ some .directory
  bounded : ∀ p off, pc = .writing p off → off ≤ W.text.length

/-- **The invariant of the files** of a campaign. -/
structure CampaignInv (W : ι → Writer) (d₀ : Disk) (C : Campaign ι) : Prop where
  /-- What was on the disk is still there. -/
  kept : ∀ p n, d₀.find p = some n → C.disk.find p = some n
  writers : ∀ i, WriterInv (W i) d₀ C.disk (C.pc i)
  apart : ∀ i j p t t', i ≠ j → (C.pc i).owned? (W i) = some (p, t) →
    (C.pc j).owned? (W j) ≠ some (p, t')
  /-- All files are old ones or those of writers. -/
  files : ∀ p t, C.disk.find p = some (.file t) →
    d₀.find p = some (.file t) ∨ ∃ i, (C.pc i).owned? (W i) = some (p, t)

/-- A file that is owned is the one of the writer's path. -/
theorem WriterPc.path?_of_owned? {W : Writer} {pc : WriterPc} {p : String} {t : List Char}
    (h : pc.owned? W = some (p, t)) : pc.path? = some p := by
  cases pc with
  | writing | done => exact congrArg some (Prod.mk.inj (Option.some_inj.1 h)).1
  | _ => exact absurd h (by simp [owned?])

/-- A path that a writer has been given is free, or leads to its file. -/
theorem WriterPc.path?_cases (W : Writer) {pc : WriterPc} {p : String} (h : pc.path? = some p) :
    pc = .opening p ∨ ∃ t, pc.owned? W = some (p, t) := by
  cases pc with
  | opening q => exact Or.inl (congrArg WriterPc.opening (Option.some_inj.1 h))
  | writing q off =>
      obtain rfl := Option.some_inj.1 h
      exact Or.inr ⟨_, rfl⟩
  | done q =>
      obtain rfl := Option.some_inj.1 h
      exact Or.inr ⟨_, rfl⟩
  | _ => exact absurd h (by simp [path?])

/-- A path that is not on the disk was not on it before. -/
theorem Disk.find_eq_none_of_kept {d₀ d : Disk}
    (hkept : ∀ p n, d₀.find p = some n → d.find p = some n) {p : String} (hp : d.find p = none) :
    d₀.find p = none := by
  cases h : d₀.find p with
  | none => rfl
  | some n => exact absurd (hp.symm.trans (hkept p n h)) (by simp)

/-- What a writer has in a new file, and after each piece. -/
theorem WriterInv.writing {W : Writer} {d₀ d : Disk} {p : String} {off : ℕ}
    (hnamed : ∃ r, p = uniqueName TestDirectory W.kind W.pid r)
    (hfind : d.find p = some (.file (W.text.take off))) (hold : d₀.find p = none)
    (hle : off ≤ W.text.length) : WriterInv W d₀ d (.writing p off) where
  named q hq := Option.some_inj.1 hq ▸ hnamed
  fresh q hq := absurd hq (by simp)
  owned q t ht := by
    obtain ⟨rfl, rfl⟩ := Prod.mk.inj (Option.some_inj.1 ht)
    exact ⟨hfind, hold⟩
  making hq := absurd hq (by simp)
  failed why hq := absurd hq (by simp)
  bounded q off' hq := by
    obtain ⟨-, rfl⟩ := WriterPc.writing.inj hq
    exact hle

/-- A writer does not notice changes at other paths. -/
theorem WriterInv.frame {W : Writer} {d₀ d d' : Disk} {pc : WriterPc} (h : WriterInv W d₀ d pc)
    (hframe : ∀ p, pc.path? = some p → d'.find p = d.find p) : WriterInv W d₀ d' pc where
  named := h.named
  fresh p hp := (hframe p (by rw [hp]; rfl)).trans (h.fresh p hp)
  owned p t ht :=
    ⟨(hframe p (WriterPc.path?_of_owned? ht)).trans (h.owned p t ht).1, (h.owned p t ht).2⟩
  making := h.making
  failed := h.failed
  bounded := h.bounded

theorem WriterInv.quiet {W : Writer} {d₀ d : Disk} {pc pc' : WriterPc} (h : WriterInv W d₀ d pc)
    (hkept : ∀ p n, d₀.find p = some n → d.find p = some n) (hq : QuietCall W d pc pc') :
    WriterInv W d₀ d pc' where
  named p hp := by
    rcases hq.path p hp with hold | ⟨-, -, hr⟩
    · exact h.named p hold
    · exact hr
  fresh := hq.opening
  owned p t ht := h.owned p t (hq.owned ▸ ht)
  making hp hdir := by
    have hno := hq.making hp
    rw [Disk.is_directory, hkept _ _ hdir] at hno
    exact absurd hno (by simp)
  failed why hp := by
    rcases hq.failed why hp with hnone | hmaking | ⟨-, p, hopening, hopen⟩
    · exact Or.inl hnone
    · exact Or.inr (h.making hmaking)
    · refine Or.inr fun hdir => ?_
      rw [Disk.openStream, if_pos] at hopen
      · exact absurd hopen (by simp)
      · rw [Disk.is_directory, hkept _ _ hdir, h.fresh p hopening]
        simp
  bounded p off hp := absurd hp (hq.bounded p off)

namespace CampaignInv

variable {W : ι → Writer} {d₀ : Disk} {C : Campaign ι}

theorem quiet (hinv : CampaignInv W d₀ C) {i : ι} {pc : WriterPc}
    (hq : QuietCall (W i) C.disk (C.pc i) pc) :
    CampaignInv W d₀ ⟨C.disk, Function.update C.pc i pc⟩ := by
  have howned : ∀ j, (Function.update C.pc i pc j).owned? (W j) = (C.pc j).owned? (W j) := by
    intro j
    by_cases hj : j = i
    · subst hj
      rw [Function.update_self]
      exact hq.owned
    · rw [Function.update_of_ne hj]
  refine ⟨hinv.kept, fun j => ?_, fun j k p t t' hjk hj => ?_, fun p t hp => ?_⟩
  · change WriterInv (W j) d₀ C.disk (Function.update C.pc i pc j)
    by_cases hj : j = i
    · subst hj
      rw [Function.update_self]
      exact (hinv.writers j).quiet hinv.kept hq
    · rw [Function.update_of_ne hj]
      exact hinv.writers j
  · change (Function.update C.pc i pc k).owned? (W k) ≠ _
    change (Function.update C.pc i pc j).owned? (W j) = _ at hj
    rw [howned] at hj ⊢
    exact hinv.apart j k p t t' hjk hj
  · rcases hinv.files p t hp with hold | ⟨j, hj⟩
    · exact Or.inl hold
    · exact Or.inr ⟨j, (howned j).trans hj⟩

/-- **A change at one path keeps the invariant**, when the path was nobody else's. -/
theorem change (hinv : CampaignInv W d₀ C) {i : ι} {pc : WriterPc} {p : String} {n : Node}
    (hnew : d₀.find p = none) (hothers : ∀ j, j ≠ i → (C.pc j).path? ≠ some p)
    (hwriter : WriterInv (W i) d₀ (C.disk.set p n) pc)
    (hbefore : ∀ q t, (C.pc i).owned? (W i) = some (q, t) → q = p)
    (hafter : ∀ q t, pc.owned? (W i) = some (q, t) → q = p)
    (hfile : ∀ t, n = .file t → pc.owned? (W i) = some (p, t)) :
    CampaignInv W d₀ ⟨C.disk.set p n, Function.update C.pc i pc⟩ := by
  refine ⟨fun q m hq => ?_, fun j => ?_, fun j k q t t' hjk hj hk => ?_, fun q t hq => ?_⟩
  · have hne : q ≠ p := by
      rintro rfl
      exact absurd (hnew.symm.trans hq) (by simp)
    change (C.disk.set p n).find q = _
    rw [Disk.find_set, if_neg hne]
    exact hinv.kept q m hq
  · change WriterInv (W j) d₀ (C.disk.set p n) (Function.update C.pc i pc j)
    by_cases hj : j = i
    · subst hj
      rw [Function.update_self]
      exact hwriter
    · rw [Function.update_of_ne hj]
      refine (hinv.writers j).frame fun q hq => ?_
      rw [Disk.find_set, if_neg]
      rintro rfl
      exact hothers j hj hq
  · change (Function.update C.pc i pc j).owned? (W j) = _ at hj
    change (Function.update C.pc i pc k).owned? (W k) = _ at hk
    by_cases hji : j = i
    · subst hji
      rw [Function.update_self] at hj
      rw [Function.update_of_ne (Ne.symm hjk)] at hk
      exact hothers k (Ne.symm hjk) (hafter q t hj ▸ WriterPc.path?_of_owned? hk)
    · rw [Function.update_of_ne hji] at hj
      by_cases hki : k = i
      · subst hki
        rw [Function.update_self] at hk
        exact hothers j hji (hafter q t' hk ▸ WriterPc.path?_of_owned? hj)
      · rw [Function.update_of_ne hki] at hk
        exact hinv.apart j k q t t' hjk hj hk
  · change (C.disk.set p n).find q = _ at hq
    rw [Disk.find_set] at hq
    split_ifs at hq with hqp
    · refine Or.inr ⟨i, ?_⟩
      change (Function.update C.pc i pc i).owned? (W i) = _
      rw [Function.update_self, hqp]
      exact hfile t (Option.some_inj.1 hq)
    · rcases hinv.files q t hq with hold | ⟨j, hj⟩
      · exact Or.inl hold
      · have hji : j ≠ i := by
          rintro rfl
          exact hqp (hbefore q t hj)
        refine Or.inr ⟨j, ?_⟩
        change (Function.update C.pc i pc j).owned? (W j) = _
        rw [Function.update_of_ne hji]
        exact hj

theorem step (hinv : CampaignInv W d₀ C) {C' : Campaign ι} {e : ι × WriterEvent}
    (hstep : CampaignStep W C e C') : CampaignInv W d₀ C' := by
  cases hstep with
  | @intro i e d pc hpid hcall =>
      have hi := hinv.writers i
      rcases WriterPc.step_cases hcall with ⟨rfl, hq⟩ | ⟨hpc, rfl, hnone, rfl⟩ |
        ⟨p, hpc, rfl, rfl⟩ | ⟨p, off, n, text, hpc, rfl, hle, hfind, rfl⟩
      · exact hinv.quiet hq
      · -- the directory is made
        have hold := Disk.find_eq_none_of_kept hinv.kept hnone
        refine hinv.change hold (fun j _ hj => ?_) ?_ ?_ ?_ ?_
        · obtain ⟨r, hr⟩ := (hinv.writers j).named _ hj
          exact uniqueName_ne _ _ _ _ hr.symm
        · constructor
          · exact fun q hq => absurd hq (by simp [WriterPc.path?])
          · exact fun q hq => absurd hq (by simp)
          · exact fun q t hq => absurd hq (by simp [WriterPc.owned?])
          · exact fun hq => absurd hq (by simp)
          · exact fun why hq => absurd hq (by simp)
          · exact fun q off hq => absurd hq (by simp)
        · exact fun q t hq => absurd hq (by simp [hpc, WriterPc.owned?])
        · exact fun q t hq => absurd hq (by simp [WriterPc.owned?])
        · exact fun t ht => absurd ht (by simp)
      · -- the file is created: nobody else that is active can have the name
        have hfresh := hi.fresh p hpc
        have hnamed := hi.named p (by rw [hpc]; rfl)
        have hold := Disk.find_eq_none_of_kept hinv.kept hfresh
        refine hinv.change hold (fun j hji hj => ?_) ?_ ?_ ?_ ?_
        · rcases WriterPc.path?_cases (W j) hj with hopening | ⟨t, howned⟩
          · obtain ⟨r, hr⟩ := (hinv.writers j).named p hj
            obtain ⟨r', hr'⟩ := hnamed
            exact hpid j (by rw [hopening]; rfl) hji (uniqueName_inj (hr.symm.trans hr'))
          · exact absurd (hfresh.symm.trans ((hinv.writers j).owned p t howned).1) (by simp)
        · refine .writing hnamed ?_ hold (Nat.zero_le _)
          rw [Disk.find_set, if_pos rfl, List.take_zero]
        · exact fun q t hq => absurd hq (by simp [hpc, WriterPc.owned?])
        · exact fun q t hq => (Prod.mk.inj (Option.some_inj.1 hq)).1.symm
        · intro t ht
          rw [← Node.file.inj ht]
          rfl
      · -- the next piece is written
        have howned : (C.pc i).owned? (W i) = some (p, (W i).text.take off) := by rw [hpc]; rfl
        obtain ⟨hfile, hold⟩ := hi.owned p _ howned
        obtain rfl := Node.file.inj (Option.some_inj.1 (hfind.symm.trans hfile))
        rw [writeAt_end _ _ _ (hi.bounded p off hpc)]
        refine hinv.change hold (fun j hji hj => ?_) ?_ ?_ ?_ ?_
        · rcases WriterPc.path?_cases (W j) hj with hopening | ⟨t, hj⟩
          · exact absurd (((hinv.writers j).fresh p hopening).symm.trans hfind) (by simp)
          · exact hinv.apart j i p _ _ hji hj howned
        · refine .writing (hi.named p (by rw [hpc]; rfl)) ?_ hold hle
          rw [Disk.find_set, if_pos rfl]
        · exact fun q t hq => (Prod.mk.inj (Option.some_inj.1 (howned.symm.trans hq))).1.symm
        · exact fun q t hq => (Prod.mk.inj (Option.some_inj.1 hq)).1.symm
        · intro t ht
          rw [← Node.file.inj ht]
          rfl

end CampaignInv

def Campaign.start (d₀ : Disk) : Campaign ι := ⟨d₀, fun _ => .idle⟩

omit [DecidableEq ι] in
theorem CampaignInv.start (W : ι → Writer) (d₀ : Disk) : CampaignInv W d₀ (.start d₀) := by
  refine ⟨fun p n h => h, fun i => ?_, fun i j p t t' _ h => absurd h (by simp [Campaign.start,
    WriterPc.owned?]), fun p t h => Or.inl h⟩
  constructor
  · exact fun q hq => absurd hq (by simp [Campaign.start, WriterPc.path?])
  · exact fun q hq => absurd hq (by simp [Campaign.start])
  · exact fun q t hq => absurd hq (by simp [Campaign.start, WriterPc.owned?])
  · exact fun hq => absurd hq (by simp [Campaign.start])
  · exact fun why hq => absurd hq (by simp [Campaign.start])
  · exact fun q off hq => absurd hq (by simp [Campaign.start])

theorem CampaignInv.run {W : ι → Writer} {d₀ : Disk} {es : List (ι × WriterEvent)}
    {C : Campaign ι} (hrun : Run (CampaignStep W) (.start d₀) es C) : CampaignInv W d₀ C :=
  hrun.invariant (CampaignInv.start W d₀) fun _ _ _ hinv hstep => hinv.step hstep

/-! ### Writing alone -/

/-- The calls of a writer that nobody interrupts. -/
def WriterPc.runAlone (W : Writer) (s : Disk × WriterPc) (es : List WriterEvent) :
    Option (Disk × WriterPc) :=
  es.foldlM (fun s e => s.2.step W s.1 e) s

/-- They are calls of the campaign, when nobody that is active has the id of the process. -/
theorem Campaign.run_alone {W : ι → Writer} {C : Campaign ι} {i : ι}
    (hpid : ∀ j, (C.pc j).isActive = true → j ≠ i → (W j).pid ≠ (W i).pid)
    {es : List WriterEvent} {d : Disk} {pc : WriterPc}
    (h : WriterPc.runAlone (W i) (C.disk, C.pc i) es = some (d, pc)) :
    Run (CampaignStep W) C (es.map (Prod.mk i)) ⟨d, Function.update C.pc i pc⟩ := by
  induction es using List.reverseRecOn generalizing d pc with
  | nil =>
      obtain ⟨rfl, rfl⟩ := Prod.mk.inj (Option.some_inj.1 h)
      rw [Function.update_eq_self]
      exact .nil
  | append_singleton es e ih =>
      unfold WriterPc.runAlone at h ih
      rw [List.foldlM_append] at h
      obtain ⟨⟨d₁, pc₁⟩, hfirst, hlast⟩ := Option.bind_eq_some_iff.1 h
      obtain ⟨s, hs, hend⟩ := Option.bind_eq_some_iff.1 hlast
      obtain rfl := Option.some_inj.1 hend
      rw [List.map_append, List.map_singleton]
      refine (ih hfirst).snoc ?_
      have hstep : CampaignStep W ⟨d₁, Function.update C.pc i pc₁⟩ (i, e)
          ⟨d, Function.update (Function.update C.pc i pc₁) i pc⟩ := by
        refine .intro (fun j hj hji => ?_) ?_
        · change (Function.update C.pc i pc₁ j).isActive = true at hj
          rw [Function.update_of_ne hji] at hj
          exact hpid j hj hji
        · change (Function.update C.pc i pc₁ i).step (W i) d₁ e = _
          rw [Function.update_self]
          exact hs
      rwa [Function.update_idem] at hstep

theorem WriterPc.runAlone_append {W : Writer} {s : Disk × WriterPc} {es es' : List WriterEvent} :
    runAlone W s (es ++ es') = (runAlone W s es).bind fun s => runAlone W s es' :=
  List.foldlM_append

/-- A writer with a new file writes its text, in one piece unless it has none. -/
theorem WriterPc.exists_runAlone_writing (W : Writer) (d : Disk) {u : String}
    (hfile : d.find u = some (.file [])) : ∃ es d',
    runAlone W (d, .writing u 0) es = some (d', .done u) ∧
      d'.find u = some (.file W.text) := by
  by_cases htext : W.text = []
  · refine ⟨[.next], d, ?_, by rw [htext, hfile]⟩
    simp [runAlone, step, htext]
  · have hpos : 0 < W.text.length := List.length_pos_iff.2 htext
    refine ⟨[.write W.text.length, .next], d.set u (.file W.text), ?_, ?_⟩
    · have hwritten : writeAt [] 0 ((W.text.drop 0).take W.text.length) = W.text := by
        simp [writeAt]
      simp only [runAlone, List.foldlM_cons, List.foldlM_nil, step]
      rw [if_pos ⟨hpos, by omega⟩, hfile]
      simp only [hwritten, Option.bind_eq_bind, Option.bind_some, Nat.zero_add, if_pos]
      rfl
    · rw [Disk.find_set, if_pos rfl]

/-- A writer in the directory, with a number whose name is free. -/
theorem WriterPc.exists_runAlone_naming (W : Writer) {d : Disk}
    (hdir : d.find TestDirectory = some .directory) {r : BitVec 64}
    (hfree : d.find (uniqueName TestDirectory W.kind W.pid r) = none) : ∃ es d',
    runAlone W (d, .naming 0) es = some (d', .done (uniqueName TestDirectory W.kind W.pid r)) ∧
      d'.find (uniqueName TestDirectory W.kind W.pid r) = some (.file W.text) := by
  obtain ⟨es, d', hes, hfind⟩ := exists_runAlone_writing W
    (d.set (uniqueName TestDirectory W.kind W.pid r) (.file []))
    ((Disk.find_set ..).trans (if_pos rfl))
  refine ⟨[.draw r, .next] ++ es, d', ?_, hfind⟩
  rw [runAlone_append]
  have hopen : d.openStream TestDirectory (uniqueName TestDirectory W.kind W.pid r) =
      some (d.set (uniqueName TestDirectory W.kind W.pid r) (.file [])) := by
    rw [Disk.openStream, if_pos ⟨by rw [Disk.is_directory, hdir]; rfl, by rw [hfree]; simp⟩]
  have hfirst : runAlone W (d, .naming 0) [.draw r, .next] = some
      (d.set (uniqueName TestDirectory W.kind W.pid r) (.file []),
        .writing (uniqueName TestDirectory W.kind W.pid r) 0) := by
    simp only [runAlone, List.foldlM_cons, List.foldlM_nil, step]
    rw [if_pos (by decide), if_pos hfree]
    simp only [Option.bind_eq_bind, Option.bind_some, hopen]
    rfl
  rw [hfirst]
  exact hes

theorem WriterPc.exists_runAlone_idle (W : Writer) {d : Disk}
    (hdir : d.find TestDirectory = some .directory) {r : BitVec 64}
    (hfree : d.find (uniqueName TestDirectory W.kind W.pid r) = none) : ∃ es d',
    runAlone W (d, .idle) es = some (d', .done (uniqueName TestDirectory W.kind W.pid r)) ∧
      d'.find (uniqueName TestDirectory W.kind W.pid r) = some (.file W.text) := by
  obtain ⟨es, d', hes, hfind⟩ := exists_runAlone_naming W hdir hfree
  obtain ⟨es₀, hes₀⟩ : ∃ es₀, runAlone W (d, .idle) es₀ = some (d, .naming 0) := by
    cases hk : W.kind with
    | faultingAllocs =>
        refine ⟨[.next, .next], ?_⟩
        simp [runAlone, step, hk, Disk.is_directory, hdir]
    | runtimeStats => exact ⟨[.next], by simp [runAlone, step, hk]⟩
  refine ⟨es₀ ++ es, d', ?_, hfind⟩
  rw [runAlone_append, hes₀]
  exact hes

/-! ### Whole campaigns -/

def emptyProfile : Disk := Disk.set OrdMap.empty TestDirectory .directory

theorem find_emptyProfile (p : String) :
    emptyProfile.find p = if p = TestDirectory then some .directory else none :=
  Disk.find_set ..

theorem find_uniqueName_emptyProfile (kind : OutputKind) (pid : ℕ) (r : BitVec 64) :
    emptyProfile.find (uniqueName TestDirectory kind pid r) = none := by
  rw [find_emptyProfile, if_neg (uniqueName_ne TestDirectory kind pid r)]

def twoWriters (i : Bool) : Writer := ⟨if i then 7 else 8, .faultingAllocs, "[1]\n".toList⟩

/-- **No profile is overwritten, and none is mixed with another**, in any interleaving: what was on
the disk before is still there, a writer that is done has a file of its own with the whole of its
text, and there are no other files than the old ones and those of the writers, as far as they have
got.  When the directory is there at the beginning, a writer fails only if it runs out of names. -/
theorem campaign_files (W : ι → Writer) (d₀ : Disk) (es : List (ι × WriterEvent)) (C : Campaign ι)
    (hrun : Run (CampaignStep W) (.start d₀) es C) :
    (∀ p n, d₀.find p = some n → C.disk.find p = some n) ∧
    (∀ i p, C.pc i = .done p → C.disk.find p = some (.file (W i).text) ∧ d₀.find p = none ∧
      ∀ j, j ≠ i → C.pc j ≠ .done p) ∧
    (∀ p t, C.disk.find p = some (.file t) → d₀.find p = some (.file t) ∨
      ∃ i, (C.pc i = .done p ∧ t = (W i).text) ∨
        ∃ off, C.pc i = .writing p off ∧ t = (W i).text.take off) ∧
    (d₀.find TestDirectory = some .directory → ∀ i why, C.pc i = .failed why → why = .noName) := by
  have hinv := CampaignInv.run hrun
  refine ⟨hinv.kept, fun i p hp => ?_, fun p t hp => ?_, fun hdir i why hwhy => ?_⟩
  · have howned : (C.pc i).owned? (W i) = some (p, (W i).text) := by rw [hp]; rfl
    obtain ⟨hfile, hold⟩ := (hinv.writers i).owned p _ howned
    refine ⟨hfile, hold, fun j hji hj => ?_⟩
    exact hinv.apart i j p _ (W j).text (Ne.symm hji) howned (by rw [hj]; rfl)
  · rcases hinv.files p t hp with hold | ⟨i, hi⟩
    · exact Or.inl hold
    · refine Or.inr ⟨i, ?_⟩
      cases hpc : C.pc i with
      | done q =>
          rw [hpc] at hi
          obtain ⟨rfl, rfl⟩ := Prod.mk.inj (Option.some_inj.1 hi)
          exact Or.inl ⟨rfl, rfl⟩
      | writing q off =>
          rw [hpc] at hi
          obtain ⟨rfl, rfl⟩ := Prod.mk.inj (Option.some_inj.1 hi)
          exact Or.inr ⟨off, rfl, rfl⟩
      | _ =>
          rw [hpc] at hi
          exact absurd hi (by simp [WriterPc.owned?])
  · exact ((hinv.writers i).failed why hwhy).resolve_right fun hno => hno hdir

/-- One of the two writes its file. -/
theorem campaign_files_one : ∃ (C : Campaign Bool) (p : String), C.pc true = .done p ∧
    C.disk.find p = some (.file "[1]\n".toList) ∧
      C.disk.find TestDirectory = some .directory := by
  have hdir : emptyProfile.find TestDirectory = some .directory :=
    (find_emptyProfile _).trans (if_pos rfl)
  obtain ⟨es, d, hes, -⟩ := WriterPc.exists_runAlone_idle (twoWriters true) hdir
    (find_uniqueName_emptyProfile _ _ 0#64)
  have hpid : ∀ j, ((Campaign.start emptyProfile : Campaign Bool).pc j).isActive = true → j ≠ true →
      (twoWriters j).pid ≠ (twoWriters true).pid := fun j hj =>
    absurd hj (by simp [Campaign.start, WriterPc.isActive])
  have hrun : Run (CampaignStep twoWriters) (.start emptyProfile) _ _ := Campaign.run_alone hpid hes
  obtain ⟨hkept, hdone, -⟩ := campaign_files twoWriters emptyProfile _ _ hrun
  have hpc := Function.update_self true (WriterPc.done (uniqueName TestDirectory .faultingAllocs 7
    0#64)) (Campaign.start emptyProfile : Campaign Bool).pc
  exact ⟨_, _, hpc, (hdone true _ hpc).1, hkept _ _ hdir⟩

/-- **A process that draws a free name writes its whole file**, whatever has happened before it. -/
theorem exists_run_done (W : ι → Writer) (C : Campaign ι) (i : ι) (hidle : C.pc i = .idle)
    (hpid : ∀ j, (C.pc j).isActive = true → j ≠ i → (W j).pid ≠ (W i).pid)
    (hdir : C.disk.find TestDirectory = some .directory) (r : BitVec 64)
    (hfree : C.disk.find (uniqueName TestDirectory (W i).kind (W i).pid r) = none) :
    ∃ (es : List WriterEvent) (C' : Campaign ι), Run (CampaignStep W) C (es.map (Prod.mk i)) C' ∧
      C'.pc i = .done (uniqueName TestDirectory (W i).kind (W i).pid r) ∧
        C'.disk.find (uniqueName TestDirectory (W i).kind (W i).pid r) =
          some (.file (W i).text) := by
  obtain ⟨es, d, hes, hfind⟩ := WriterPc.exists_runAlone_idle (W i) hdir hfree
  rw [← hidle] at hes
  exact ⟨es, _, Campaign.run_alone hpid hes, Function.update_self .., hfind⟩

theorem exists_run_done_alone : ∃ (es : List WriterEvent) (C : Campaign Bool),
    Run (CampaignStep twoWriters) (.start emptyProfile) (es.map (Prod.mk true)) C ∧
      C.pc true = .done (uniqueName TestDirectory .faultingAllocs 7 0) := by
  obtain ⟨es, C, hrun, hdone, -⟩ := exists_run_done twoWriters (.start emptyProfile) true rfl
    (fun j hj => absurd hj (by simp [Campaign.start, WriterPc.isActive]))
    ((find_emptyProfile _).trans (if_pos rfl)) 0#64 (find_uniqueName_emptyProfile ..)
  exact ⟨es, C, hrun, hdone⟩

end Provsan
