/-
**The names of the allocator functions.**

The instrumenting pass takes the names of the functions it looks for from the environment
(`Passes/DynUntrustedAllocPre/DynUntrustedAllocPre.cpp`).  A variable holds them in one string, kept
apart by commas, and `str_to_vec` takes it apart: it looks for the next character that is no comma,
and for the next comma after that.  After the last name there may be none, and then the search
answers `npos`, from which a length is computed and the next search starts.

Main definitions:

* `Provsan.strToVecLoop`, `Provsan.strToVec` — the splitter, with a bound on the turns of its loop;
* `Provsan.populateFromEnv`, `Provsan.PreOptions.fromEnv` — the options of the pass.

Main results:

* `Provsan.strToVecLoop_eq_some` — the loop ends, and appends the words of the rest;
* `Provsan.strToVec_exact` — **the splitter is exact and ends**;
* `Provsan.populateFromEnv_eq` — what a variable adds to an option.
-/

import Provsan.Lib.CxxString
import Provsan.Passes.Pre

set_option relaxedAutoImplicit false
set_option autoImplicit false

namespace Provsan

section

variable {α : Type} [DecidableEq α]

/-- The loop of `str_to_vec`, with `fuel` turns at most; a search that starts at `npos` or a
position after the end of the string finds nothing. -/
def strToVecLoop (str : CxxString α) (delim : α) :
    ℕ → BitVec 64 → List (CxxString α) → Option (List (CxxString α))
  | 0, _, _ => none
  | fuel + 1, pos, ret =>
      let start := str.findFirstNotOf delim pos
      if start ≠ CxxString.npos then do
        let stop := str.find delim start
        let piece ← str.substr start (stop - start)
        strToVecLoop str delim fuel stop (ret ++ [piece])
      else some ret

def strToVec (fuel : ℕ) (str : CxxString α) (delim : α) : Option (List (CxxString α)) :=
  strToVecLoop str delim fuel 0 []

/-! ### The loop -/

variable {str : CxxString α} {delim : α} {pos : BitVec 64}

theorem findFirstNotOf_skip {t : List α} (hdrop : str.chars.drop pos.toNat = delim :: t) :
    str.findFirstNotOf delim pos = str.findFirstNotOf delim (pos + 1) :=
  CxxString.findIf_skip hdrop (by simp)

theorem findFirstNotOf_word {w t : List α} (hne : w ≠ []) (hfree : delim ∉ w)
    (hdrop : str.chars.drop pos.toNat = w ++ t) : str.findFirstNotOf delim pos = pos := by
  cases w with
  | nil => exact absurd rfl hne
  | cons a w =>
      have ha : a ≠ delim := fun h => hfree (h ▸ List.mem_cons_self ..)
      have hfirst := CxxString.findIf_of_drop (p := fun c => decide (c ≠ delim)) (w := [])
        (show str.chars.drop pos.toNat = [] ++ a :: (w ++ t) from hdrop) (by simp)
        (by simpa using ha)
      rw [CxxString.findFirstNotOf, hfirst]
      simp

/-- After the start of a word, the end is where the word ends: at a delimiter, or nowhere. -/
theorem find_word {w t : List α} (hfree : delim ∉ w)
    (hdrop : str.chars.drop pos.toNat = w ++ t) (hend : t = [] ∨ t.head? = some delim) :
    str.find delim pos = if t = [] then CxxString.npos else pos + BitVec.ofNat 64 w.length := by
  have hw : ∀ a ∈ w, decide (a = delim) = false := by
    intro a ha
    rw [decide_eq_false_iff_not]
    rintro rfl
    exact hfree ha
  cases t with
  | nil =>
      rw [List.append_nil] at hdrop
      exact CxxString.findIf_of_forall (hdrop ▸ hw)
  | cons a t =>
      rcases hend with h | h
      · exact absurd h (by simp)
      · obtain rfl : a = delim := Option.some_inj.1 h
        exact CxxString.findIf_of_drop hdrop hw (by simp)

theorem substr_word {w t : List α} (hfree : delim ∉ w)
    (hdrop : str.chars.drop pos.toNat = w ++ t) (hend : t = [] ∨ t.head? = some delim)
    (hpos : pos.toNat ≤ str.chars.length) :
    (∃ piece, str.substr pos (str.find delim pos - pos) = some piece ∧ piece.chars = w) ∧
      str.chars.drop (str.find delim pos).toNat = t := by
  have hlen := str.length_lt
  have hsum : str.chars.length - pos.toNat = w.length + t.length := by
    rw [← List.length_drop, hdrop, List.length_append]
  rw [find_word hfree hdrop hend, CxxString.substr, if_pos hpos]
  refine ⟨⟨_, rfl, ?_⟩, ?_⟩
  · change (str.chars.drop pos.toNat).take _ = w
    rw [hdrop]
    split_ifs with ht
    · -- the length that is computed from `npos` is larger than that of the rest
      subst ht
      have hcount : w.length ≤ (CxxString.npos - pos).toNat := by
        rw [List.length_nil] at hsum
        rw [BitVec.toNat_sub, CxxString.toNat_npos]
        omega
      rw [List.append_nil, List.take_of_length_le hcount]
    · have hcount : (pos + BitVec.ofNat 64 w.length - pos).toNat = w.length := by
        rw [BitVec.add_comm, BitVec.add_sub_cancel, BitVec.toNat_ofNat]
        omega
      rw [hcount, List.take_left]
  · split_ifs with ht
    · rw [CxxString.drop_npos, ht]
    · rw [CxxString.toNat_add_ofNat (s := str) (by omega), ← List.drop_drop, hdrop, List.drop_left]

/-- **The loop ends and appends the words of the rest**, when it has a turn for every character of
it and one more.  The induction is on how the rest is made of its words. -/
theorem strToVecLoop_eq_some {ws : List (List α)} {t : List α} (h : Split.Joined delim ws t)
    (hdrop : str.chars.drop pos.toNat = t) (hpos : t = [] ∨ pos.toNat ≤ str.chars.length)
    (fuel : ℕ) (hfuel : t.length < fuel) (ret : List (CxxString α)) :
    ∃ pieces, strToVecLoop str delim fuel pos ret = some (ret ++ pieces) ∧
      pieces.map CxxString.chars = ws := by
  induction h generalizing pos fuel ret with
  | nil =>
      obtain ⟨fuel, rfl⟩ : ∃ n, fuel = n + 1 := ⟨fuel - 1, by omega⟩
      have hstart : str.findFirstNotOf delim pos = CxxString.npos :=
        CxxString.findIf_of_forall (by simp [hdrop])
      refine ⟨[], ?_, rfl⟩
      rw [strToVecLoop, hstart, List.append_nil]
      simp
  | @delim ws t _ ih =>
      have hlt := CxxString.lt_length_of_drop hdrop
      have hnext : (pos + 1).toNat = pos.toNat + 1 := CxxString.toNat_add_ofNat (i := 1) hlt
      have hdrop' : str.chars.drop (pos + 1).toNat = t := by
        rw [hnext, ← List.drop_drop, hdrop]
        rfl
      rw [List.length_cons] at hfuel
      obtain ⟨fuel, rfl⟩ : ∃ n, fuel = n + 1 := ⟨fuel - 1, by omega⟩
      obtain ⟨pieces, hloop, hws⟩ := ih hdrop' (Or.inr (by omega)) (fuel + 1) (by omega) ret
      refine ⟨pieces, ?_, hws⟩
      -- the turn from the delimiter is the turn from the character after it
      rw [strToVecLoop] at hloop ⊢
      rwa [findFirstNotOf_skip hdrop]
  | @word ws w t hne hfree hend _ ih =>
      have hwlen : 0 < w.length := List.length_pos_iff.2 hne
      have hle : pos.toNat ≤ str.chars.length := by
        refine hpos.resolve_left fun hnil => ?_
        exact hne (List.append_eq_nil_iff.1 hnil).1
      obtain ⟨⟨piece, hpiece, hw⟩, hrest⟩ := substr_word hfree hdrop hend hle
      have hnpos := CxxString.ne_npos hle
      have hstop : t = [] ∨ (str.find delim pos).toNat ≤ str.chars.length := by
        by_contra hno
        rw [not_or, not_le] at hno
        rw [List.drop_eq_nil_of_le (Nat.le_of_lt hno.2)] at hrest
        exact hno.1 hrest.symm
      obtain ⟨fuel, rfl⟩ : ∃ n, fuel = n + 1 := ⟨fuel - 1, by omega⟩
      rw [List.length_append] at hfuel
      obtain ⟨pieces, hloop, hws⟩ := ih hrest hstop fuel (by omega) (ret ++ [piece])
      refine ⟨piece :: pieces, ?_, by rw [List.map_cons, hw, hws]⟩
      rw [strToVecLoop, findFirstNotOf_word hne hfree hdrop]
      simp only [ne_eq, hnpos, not_false_eq_true, if_true]
      rw [hpiece]
      rw [List.append_assoc] at hloop
      exact hloop

theorem strToVec_eq_some {ws : List (List α)} (h : Split.Joined delim ws str.chars) {fuel : ℕ}
    (hfuel : str.chars.length < fuel) :
    ∃ pieces, strToVec fuel str delim = some pieces ∧ pieces.map CxxString.chars = ws :=
  strToVecLoop_eq_some h (show str.chars.drop (0#64).toNat = str.chars from rfl)
    (Or.inr (Nat.zero_le _)) fuel hfuel []

/-- **The splitter is exact and ends.**  With a turn for every character and one more, the loop
comes to its end.  The pieces are the longest runs of characters that are no delimiters, all of them
and in their order, so that none is empty or holds a delimiter, and together they are the string
without its delimiters.  When the string is made of words, with any number of delimiters before and
after them and at least one between two, the pieces are these words. -/
theorem strToVec_exact (str : CxxString α) (delim : α) : ∃ pieces : List (CxxString α),
    (∀ fuel, str.chars.length < fuel → strToVec fuel str delim = some pieces) ∧
    (∃ runs : List (ℕ × ℕ), runs.Pairwise Split.Before ∧
      (∀ i j, (i, j) ∈ runs ↔ Split.IsRun delim str.chars i j) ∧
      pieces.map CxxString.chars = runs.map (Split.slice str.chars)) ∧
    (∀ piece ∈ pieces, piece.chars ≠ [] ∧ delim ∉ piece.chars) ∧
    (pieces.map CxxString.chars).flatten = str.chars.filter (· ≠ delim) ∧
    ∀ (before : ℕ) (ws : List (List α × ℕ)), (∀ w ∈ ws, w.1 ≠ [] ∧ delim ∉ w.1) →
      str.chars = Split.joinWith delim before ws →
        pieces.map CxxString.chars = ws.map Prod.fst := by
  obtain ⟨ws, hws⟩ := Split.exists_joined delim str.chars
  obtain ⟨pieces, hret, rfl⟩ := strToVec_eq_some hws (Nat.lt_succ_self _)
  refine ⟨pieces, ?_, ?_, ?_, hws.flatten_eq, ?_⟩
  · intro fuel hfuel
    obtain ⟨pieces', hret', hchars⟩ := strToVec_eq_some hws hfuel
    rw [hret', CxxString.map_chars_injective hchars]
  · obtain ⟨runs, hord, hmem, hpieces⟩ := hws.runs
    exact ⟨runs, hord, hmem, hpieces⟩
  · intro piece hpiece
    exact hws.proper (List.mem_map_of_mem hpiece)
  · intro before ws' hws' htext
    have hjoined : Split.Joined delim (ws'.map Prod.fst) str.chars :=
      htext ▸ Split.joined_joinWith hws' before
    obtain ⟨pieces', hret', hchars⟩ := strToVec_eq_some hjoined (Nat.lt_succ_self _)
    obtain rfl := Option.some_inj.1 (hret'.symm.trans hret)
    exact hchars

end

/-! ### The options -/

section

variable (getenv : String → Option (CxxString Char))

/-- `populateFromEnv`: the names in a variable are added to an option, or `fallback` is when the
variable is not set or empty. -/
def populateFromEnv (ins : List String) (envVar fallback : String) : Option (List String) :=
  let a := (getenv envVar).getD ⟨[], by decide⟩
  if a.chars = [] then some (ins ++ [fallback])
  else do
    let v ← strToVec (a.chars.length + 1) a ','
    some (ins ++ v.map fun s => String.ofList s.chars)

/-- The options of the pass: what the command line gives, and what the environment adds. -/
def PreOptions.fromEnv (O : PreOptions) : Option PreOptions := do
  let ProvSanAlloc ← populateFromEnv getenv O.ProvSanAlloc "PROVSAN_ALLOC" "trusted_malloc"
  let ProvSanRealloc ← populateFromEnv getenv O.ProvSanRealloc "PROVSAN_REALLOC" "trusted_realloc"
  let ProvSanFree ← populateFromEnv getenv O.ProvSanFree "PROVSAN_FREE" "trusted_free"
  some ⟨ProvSanAlloc, ProvSanRealloc, ProvSanFree⟩

/-- What the environment says the names are: the words of the variable, kept apart by commas. -/
def NamesIn (envVar fallback : String) (names : List String) : Prop :=
  match getenv envVar with
  | none => names = [fallback]
  | some a =>
      if a.chars = [] then names = [fallback]
      else Split.Joined ',' (names.map String.toList) a.chars

/-- **A variable adds the names that it holds**, or the fallback. -/
theorem populateFromEnv_eq (ins : List String) (envVar fallback : String) :
    ∃ names, populateFromEnv getenv ins envVar fallback = some (ins ++ names) ∧
      NamesIn getenv envVar fallback names := by
  rw [populateFromEnv]
  simp only [NamesIn]
  cases getenv envVar with
  | none => exact ⟨[fallback], by simp, rfl⟩
  | some a =>
      simp only [Option.getD_some]
      by_cases hempty : a.chars = []
      · rw [if_pos hempty]
        exact ⟨[fallback], rfl, by rw [if_pos hempty]⟩
      · obtain ⟨ws, hws⟩ := Split.exists_joined ',' a.chars
        obtain ⟨pieces, hret, rfl⟩ := strToVec_eq_some hws (Nat.lt_succ_self _)
        rw [if_neg hempty, hret]
        refine ⟨pieces.map fun s => String.ofList s.chars, rfl, ?_⟩
        rw [if_neg hempty, List.map_map]
        have hchars : pieces.map (String.toList ∘ fun s => String.ofList s.chars) =
            pieces.map CxxString.chars :=
          List.map_congr_left fun s _ => String.toList_ofList
        rwa [hchars]

/-- **The pass always gets its options.** -/
theorem PreOptions.fromEnv_eq (O : PreOptions) : ∃ allocs reallocs frees,
    O.fromEnv getenv =
      some ⟨O.ProvSanAlloc ++ allocs, O.ProvSanRealloc ++ reallocs, O.ProvSanFree ++ frees⟩ ∧
    NamesIn getenv "PROVSAN_ALLOC" "trusted_malloc" allocs ∧
    NamesIn getenv "PROVSAN_REALLOC" "trusted_realloc" reallocs ∧
    NamesIn getenv "PROVSAN_FREE" "trusted_free" frees := by
  obtain ⟨allocs, halloc, hallocs⟩ :=
    populateFromEnv_eq getenv O.ProvSanAlloc "PROVSAN_ALLOC" "trusted_malloc"
  obtain ⟨reallocs, hrealloc, hreallocs⟩ :=
    populateFromEnv_eq getenv O.ProvSanRealloc "PROVSAN_REALLOC" "trusted_realloc"
  obtain ⟨frees, hfree, hfrees⟩ :=
    populateFromEnv_eq getenv O.ProvSanFree "PROVSAN_FREE" "trusted_free"
  refine ⟨allocs, reallocs, frees, ?_, hallocs, hreallocs, hfrees⟩
  rw [PreOptions.fromEnv, halloc, hrealloc, hfree]
  rfl

end

-- A comma before the first name, two between it and the second one, and none at the end.
example : populateFromEnv (fun _ => some ⟨",my_alloc,,malloc".toList, by decide⟩) []
    "PROVSAN_ALLOC" "trusted_malloc" = some ["my_alloc", "malloc"] := by decide

end Provsan
