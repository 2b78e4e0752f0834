/-
**Strings with positions, and the words of a text.**

The strings of the C++ library are searched with positions of 64 bits: a search that finds nothing
answers with the largest one, which is never the position of a character, and which may be used as a
length or as the place to search from like any other.  The first part of this module models a string
of that kind; the second part says what the words of a text are that are kept apart by a delimiter,
as a relation between the words and the text, and as the longest runs of other characters.

Main definitions:

* `CxxString`, `CxxString.find`, `CxxString.findFirstNotOf`, `CxxString.substr` — strings, and the
  operations on positions;
* `Split.Joined` — a text is made of words, kept apart and surrounded by delimiters;
* `Split.IsRun` — a longest run of characters that are no delimiters;
* `Split.joinWith` — the words of a list with any number of delimiters between them.

Main results:

* `CxxString.findIf_of_drop`, `CxxString.findIf_skip` — what a search finds;
* `Split.exists_joined` — every text has words;
* `Split.Joined.runs` — **the words of a text are its longest runs**, in order;
* `Split.joined_joinWith` — joining words makes a text of these words.
-/

import Mathlib.Data.List.Basic
import Mathlib.Algebra.Group.Nat.Defs
import Mathlib.Data.Nat.Basic

set_option relaxedAutoImplicit false
set_option autoImplicit false

/-! ### Strings -/

/-- A string, which is shorter than the largest position. -/
structure CxxString (α : Type) where
  chars : List α
  length_lt : chars.length < 2 ^ 64 - 1

namespace CxxString

variable {α : Type}

instance [DecidableEq α] : DecidableEq (CxxString α) := fun s s' =>
  decidable_of_iff (s.chars = s'.chars) (by cases s; cases s'; simp)

/-- Strings with the same characters are the same, and so are lists of strings. -/
theorem map_chars_injective : Function.Injective (List.map (chars : CxxString α → List α)) := by
  refine List.map_injective_iff.2 fun s s' h => ?_
  cases s
  cases s'
  subst h
  rfl

/-- What a search answers that finds nothing. -/
def npos : BitVec 64 := -1

theorem toNat_npos : npos.toNat = 2 ^ 64 - 1 := rfl

/-- The position of the first character from `pos` on that meets a condition. -/
def findIf (s : CxxString α) (p : α → Bool) (pos : BitVec 64) : BitVec 64 :=
  match (s.chars.drop pos.toNat).findIdx? p with
  | some i => pos + BitVec.ofNat 64 i
  | none => npos

section

variable [DecidableEq α]

/-- `find`: the next place of a character. -/
def find (s : CxxString α) (c : α) (pos : BitVec 64) : BitVec 64 := s.findIf (· = c) pos

/-- `find_first_not_of`: the next place of another character. -/
def findFirstNotOf (s : CxxString α) (c : α) (pos : BitVec 64) : BitVec 64 := s.findIf (· ≠ c) pos

end

/-- `substr`: at most `count` characters from `pos` on; a position after the end throws. -/
def substr (s : CxxString α) (pos count : BitVec 64) : Option (CxxString α) :=
  if pos.toNat ≤ s.chars.length then
    some ⟨(s.chars.drop pos.toNat).take count.toNat, by
      have hlen := s.length_lt
      rw [List.length_take, List.length_drop]
      omega⟩
  else none

variable {s : CxxString α} {p : α → Bool} {pos : BitVec 64}

/-- The rest of the string after a position that is not the end. -/
theorem lt_length_of_drop {a : α} {t : List α} (hdrop : s.chars.drop pos.toNat = a :: t) :
    pos.toNat < s.chars.length := by
  by_contra hge
  rw [List.drop_eq_nil_of_le (not_lt.1 hge)] at hdrop
  exact absurd hdrop (by simp)

/-- Positions within the string are added without overflow. -/
theorem toNat_add_ofNat {i : ℕ} (h : pos.toNat + i ≤ s.chars.length) :
    (pos + BitVec.ofNat 64 i).toNat = pos.toNat + i := by
  have hlen := s.length_lt
  rw [BitVec.toNat_add, BitVec.toNat_ofNat]
  omega

/-- A search that meets no character that it looks for. -/
theorem findIf_of_forall (h : ∀ a ∈ s.chars.drop pos.toNat, p a = false) :
    s.findIf p pos = npos := by
  rw [findIf, List.findIdx?_eq_none_iff.2 h]

/-- **A search finds the first character** that it looks for, after some that it does not. -/
theorem findIf_of_drop {w t : List α} {a : α} (hdrop : s.chars.drop pos.toNat = w ++ a :: t)
    (hw : ∀ b ∈ w, p b = false) (ha : p a = true) :
    s.findIf p pos = pos + BitVec.ofNat 64 w.length := by
  have hidx : (s.chars.drop pos.toNat).findIdx? p = some w.length := by
    rw [hdrop, List.findIdx?_append, List.findIdx?_eq_none_iff.2 hw, List.findIdx?_cons, ha]
    simp
  rw [findIf, hidx]

/-- A search goes past a character that it does not look for. -/
theorem findIf_skip {a : α} {t : List α} (hdrop : s.chars.drop pos.toNat = a :: t)
    (ha : p a = false) : s.findIf p pos = s.findIf p (pos + 1) := by
  have hpos : (pos + 1).toNat = pos.toNat + 1 :=
    toNat_add_ofNat (i := 1) (lt_length_of_drop hdrop)
  have hdrop' : s.chars.drop (pos + 1).toNat = t := by
    rw [hpos, ← List.drop_drop, hdrop]
    rfl
  rw [findIf, findIf, hdrop, hdrop', List.findIdx?_cons, ha]
  cases t.findIdx? p with
  | none => rfl
  | some i =>
      change pos + BitVec.ofNat 64 (i + 1) = pos + 1 + BitVec.ofNat 64 i
      rw [BitVec.ofNat_add, BitVec.add_assoc, BitVec.add_comm (BitVec.ofNat 64 i)]
      rfl

/-- A position of the string is not the largest one. -/
theorem ne_npos (h : pos.toNat ≤ s.chars.length) : pos ≠ npos := by
  have hlen := s.length_lt
  rintro rfl
  rw [toNat_npos] at h
  omega

/-- From the largest position on there is nothing. -/
theorem drop_npos : s.chars.drop npos.toNat = [] :=
  List.drop_eq_nil_of_le (toNat_npos ▸ Nat.le_of_lt s.length_lt)

end CxxString

/-! ### The words of a text -/

namespace Split

variable {α : Type}

/-- **A text is made of words** that are not empty and hold no delimiter: each of them ends where
the text does, or at a delimiter, and any number of delimiters may stand around them. -/
inductive Joined (d : α) : List (List α) → List α → Prop
  | nil : Joined d [] []
  | delim {ws : List (List α)} {t : List α} : Joined d ws t → Joined d ws (d :: t)
  | word {ws : List (List α)} {w t : List α} (hne : w ≠ []) (hfree : d ∉ w)
      (hend : t = [] ∨ t.head? = some d) : Joined d ws t → Joined d (w :: ws) (w ++ t)

/-- A longest run of characters that are no delimiters: those from the position `i` up to `j`. -/
structure IsRun (d : α) (t : List α) (i j : ℕ) : Prop where
  lt : i < j
  le_length : j ≤ t.length
  free : ∀ k, i ≤ k → k < j → t[k]? ≠ some d
  left : i = 0 ∨ t[i - 1]? = some d
  right : j = t.length ∨ t[j]? = some d

/-- The words of a list with delimiters around them: `before` of them at the beginning, one between
two words, and as many more after every word as stand beside it. -/
def joinWith (d : α) (before : ℕ) : List (List α × ℕ) → List α
  | [] => List.replicate before d
  | (w, after) :: ws =>
      List.replicate before d ++ (w ++ joinWith d (if ws.isEmpty then after else after + 1) ws)

variable {d : α} {ws : List (List α)} {t : List α}

/-- **Every text has words.** -/
theorem exists_joined [DecidableEq α] (d : α) (t : List α) : ∃ ws, Joined d ws t := by
  induction t with
  | nil => exact ⟨[], Joined.nil⟩
  | cons c t ih =>
      obtain ⟨ws, hws⟩ := ih
      by_cases hc : c = d
      · exact ⟨ws, hc ▸ hws.delim⟩
      · have hfree : d ∉ [c] := fun hd => hc (List.mem_singleton.1 hd).symm
        cases hws with
        | nil => exact ⟨[[c]], Joined.word (by simp) hfree (Or.inl rfl) Joined.nil⟩
        | @delim ws t hws =>
            exact ⟨[c] :: ws, Joined.word (by simp) hfree (Or.inr rfl) hws.delim⟩
        | @word ws w t hne hw hend hws =>
            -- the character belongs to the word that begins after it
            refine ⟨(c :: w) :: ws, Joined.word (by simp) ?_ hend hws⟩
            rw [List.mem_cons, not_or]
            exact ⟨Ne.symm hc, hw⟩

/-- No word is empty, and none holds a delimiter. -/
theorem Joined.proper (h : Joined d ws t) {w : List α} (hw : w ∈ ws) : w ≠ [] ∧ d ∉ w := by
  induction h with
  | nil => exact absurd hw (by simp)
  | delim _ ih => exact ih hw
  | word hne hfree _ _ ih =>
      rcases List.mem_cons.1 hw with rfl | hw
      · exact ⟨hne, hfree⟩
      · exact ih hw

/-- Together, the words are the text without its delimiters. -/
theorem Joined.flatten_eq [DecidableEq α] (h : Joined d ws t) : ws.flatten = t.filter (· ≠ d) := by
  induction h with
  | nil => rfl
  | delim _ ih => rw [List.filter_cons_of_neg (by simp), ih]
  | @word ws w t _ hfree _ _ ih =>
      have hw : w.filter (· ≠ d) = w := by
        refine List.filter_eq_self.2 fun a ha => ?_
        rw [decide_eq_true_eq]
        rintro rfl
        exact hfree ha
      rw [List.flatten_cons, List.filter_append, hw, ih]

theorem Joined.replicate (h : Joined d ws t) (n : ℕ) :
    Joined d ws (List.replicate n d ++ t) := by
  induction n with
  | zero => exact h
  | succ n ih => exact ih.delim

/-- **Joining words makes a text of these words.** -/
theorem joined_joinWith {ws : List (List α × ℕ)} (hws : ∀ w ∈ ws, w.1 ≠ [] ∧ d ∉ w.1)
    (before : ℕ) : Joined d (ws.map Prod.fst) (joinWith d before ws) := by
  induction ws generalizing before with
  | nil =>
      have hrest := Joined.nil.replicate (d := d) before
      rwa [List.append_nil] at hrest
  | cons w ws ih =>
      obtain ⟨w, after⟩ := w
      obtain ⟨hne, hfree⟩ := hws _ (List.mem_cons_self ..)
      have hrest := ih (fun w hw => hws w (List.mem_cons_of_mem _ hw))
      refine (Joined.word hne hfree ?_ (hrest _)).replicate before
      cases ws with
      | nil =>
          cases after with
          | zero => exact Or.inl rfl
          | succ n => exact Or.inr rfl
      | cons w' ws => exact Or.inr rfl

/-! ### Words and runs -/

/-- Two runs in the order of the text do not touch. -/
def Before (r r' : ℕ × ℕ) : Prop := r.2 < r'.1

/-- No run begins where a text does that is empty or begins with a delimiter. -/
theorem IsRun.ne_zero {i j : ℕ} (h : IsRun d t i j) (hend : t = [] ∨ t.head? = some d) :
    i ≠ 0 := by
  rintro rfl
  rcases hend with rfl | ht
  · have hlt := h.lt
    have hle := h.le_length
    rw [List.length_nil] at hle
    omega
  · rw [List.head?_eq_getElem?] at ht
    exact h.free 0 (Nat.le_refl 0) h.lt ht

/-- The runs of a text stay runs when something is put before it, except for one at its beginning
that would go on to the left. -/
theorem isRun_append {w : List α} {i j : ℕ} (hleft : i = 0 → w.getLast? = some d) :
    IsRun d (w ++ t) (i + w.length) (j + w.length) ↔ IsRun d t i j := by
  have hlen : (w ++ t).length = w.length + t.length := List.length_append
  have hafter : ∀ k, (w ++ t)[k + w.length]? = t[k]? := by
    intro k
    rw [List.getElem?_append_right (by omega), Nat.add_sub_cancel]
  have hbefore : i ≠ 0 → (w ++ t)[i + w.length - 1]? = t[i - 1]? := by
    intro hi
    rw [← hafter, show i + w.length - 1 = i - 1 + w.length by omega]
  constructor
  · intro h
    have hlt := h.lt
    have hle := h.le_length
    refine ⟨by omega, by omega, ?_, ?_, ?_⟩
    · intro k hik hkj
      rw [← hafter]
      exact h.free _ (by omega) (by omega)
    · by_cases hi : i = 0
      · exact Or.inl hi
      · exact Or.inr (hbefore hi ▸ h.left.resolve_left (by omega))
    · exact h.right.imp (fun hj => by omega) fun hj => hafter j ▸ hj
  · intro h
    have hlt := h.lt
    have hle := h.le_length
    refine ⟨by omega, by omega, ?_, ?_, ?_⟩
    · intro k hik hkj
      obtain ⟨k, rfl⟩ : ∃ k', k = k' + w.length := ⟨k - w.length, by omega⟩
      rw [hafter]
      exact h.free k (by omega) (by omega)
    · by_cases hi : i = 0
      · have hlast := hleft hi
        have hpos : w.length - 1 < w.length := by
          have hne : w ≠ [] := by
            rintro rfl
            exact absurd hlast (by simp)
          have := List.length_pos_iff.2 hne
          omega
        rw [List.getLast?_eq_getElem?] at hlast
        right
        rw [hi, Nat.zero_add, List.getElem?_append_left hpos]
        exact hlast
      · exact Or.inr ((hbefore hi).trans (h.left.resolve_left hi))
    · exact h.right.imp (fun hj => by omega) fun hj => (hafter j).trans hj

/-- The runs after a delimiter are those of the rest. -/
theorem isRun_delim {i j : ℕ} :
    IsRun d (d :: t) i j ↔ ∃ i' j', IsRun d t i' j' ∧ i = i' + 1 ∧ j = j' + 1 := by
  have hshift : ∀ i' j', IsRun d (d :: t) (i' + 1) (j' + 1) ↔ IsRun d t i' j' := fun i' j' =>
    isRun_append (w := [d]) fun _ => rfl
  constructor
  · intro h
    have hlt := h.lt
    have hi : i ≠ 0 := h.ne_zero (Or.inr rfl)
    obtain ⟨i', rfl⟩ : ∃ i', i = i' + 1 := ⟨i - 1, by omega⟩
    obtain ⟨j', rfl⟩ : ∃ j', j = j' + 1 := ⟨j - 1, by omega⟩
    exact ⟨i', j', (hshift i' j').1 h, rfl, rfl⟩
  · rintro ⟨i', j', h, rfl, rfl⟩
    exact (hshift i' j').2 h

/-- The runs of a text that begins with a word are the word and those of the rest. -/
theorem isRun_word {w : List α} (hne : w ≠ []) (hfree : d ∉ w)
    (hend : t = [] ∨ t.head? = some d) {i j : ℕ} : IsRun d (w ++ t) i j ↔
      (i = 0 ∧ j = w.length) ∨
        ∃ i' j', IsRun d t i' j' ∧ i = i' + w.length ∧ j = j' + w.length := by
  have hpos : 0 < w.length := List.length_pos_iff.2 hne
  have hlen : (w ++ t).length = w.length + t.length := List.length_append
  have hin : ∀ k, k < w.length → (w ++ t)[k]? ≠ some d := by
    intro k hk hd
    rw [List.getElem?_append_left hk] at hd
    exact hfree (List.mem_of_getElem? hd)
  have hstop : w.length = (w ++ t).length ∨ (w ++ t)[w.length]? = some d := by
    refine hend.imp (fun ht => by rw [ht, List.append_nil]) fun ht => ?_
    rw [List.getElem?_append_right (Nat.le_refl _), Nat.sub_self, ← List.head?_eq_getElem?, ht]
  constructor
  · intro h
    have hlt := h.lt
    have hle := h.le_length
    have hthrough : ¬ (i ≤ w.length ∧ w.length < j) := by
      rintro ⟨hi, hj⟩
      rcases hstop with hstop | hstop
      · omega
      · exact h.free w.length hi hj hstop
    by_cases hi : i < w.length
    · -- the run begins in the word, so that it is the word
      left
      have hzero : i = 0 := by
        by_contra hi0
        exact hin (i - 1) (by omega) (h.left.resolve_left hi0)
      have hjge : w.length ≤ j := by
        by_contra hj
        rcases h.right with hright | hright
        · omega
        · exact hin j (by omega) hright
      exact ⟨hzero, by omega⟩
    · right
      obtain ⟨i', rfl⟩ : ∃ i', i = i' + w.length := ⟨i - w.length, by omega⟩
      obtain ⟨j', rfl⟩ : ∃ j', j = j' + w.length := ⟨j - w.length, by omega⟩
      exact ⟨i', j', (isRun_append fun hi0 => absurd ⟨by omega, by omega⟩ hthrough).1 h, rfl, rfl⟩
  · rintro (⟨rfl, rfl⟩ | ⟨i', j', h, rfl, rfl⟩)
    · exact ⟨hpos, by omega, fun k _ hk => hin k hk, Or.inl rfl, hstop⟩
    · exact (isRun_append fun hi0 => absurd hi0 (h.ne_zero hend)).2 h

/-- The part of a text between two positions. -/
def slice (t : List α) (r : ℕ × ℕ) : List α := (t.drop r.1).take (r.2 - r.1)

/-- Positions of a text in a longer one. -/
def shift (n : ℕ) (r : ℕ × ℕ) : ℕ × ℕ := (r.1 + n, r.2 + n)

theorem mem_map_shift {n : ℕ} {runs : List (ℕ × ℕ)} {i j : ℕ} :
    (i, j) ∈ runs.map (shift n) ↔ ∃ i' j', (i', j') ∈ runs ∧ i = i' + n ∧ j = j' + n := by
  simp only [List.mem_map, Prod.exists, shift, Prod.mk.injEq, eq_comm]

theorem pairwise_map_shift {n : ℕ} {runs : List (ℕ × ℕ)} (h : runs.Pairwise Before) :
    (runs.map (shift n)).Pairwise Before :=
  List.pairwise_map.2 (h.imp fun hlt => Nat.add_lt_add_right hlt n)

theorem slice_shift (w t : List α) (r : ℕ × ℕ) : slice (w ++ t) (shift w.length r) = slice t r := by
  rw [slice, slice, shift, Nat.add_sub_add_right, Nat.add_comm, ← List.drop_drop, List.drop_left]

/-- **The words of a text are its longest runs**, in the order of the text. -/
theorem Joined.runs (h : Joined d ws t) : ∃ runs : List (ℕ × ℕ),
    runs.Pairwise Before ∧ (∀ i j, (i, j) ∈ runs ↔ IsRun d t i j) ∧ ws = runs.map (slice t) := by
  induction h with
  | nil =>
      refine ⟨[], List.Pairwise.nil, fun i j => iff_of_false (by simp) fun h => ?_, rfl⟩
      have hlt := h.lt
      have hle := h.le_length
      rw [List.length_nil] at hle
      omega
  | @delim ws t _ ih =>
      obtain ⟨runs, hord, hmem, rfl⟩ := ih
      refine ⟨runs.map (shift 1), pairwise_map_shift hord, fun i j => ?_, ?_⟩
      · rw [isRun_delim, mem_map_shift]
        simp only [hmem]
      · rw [List.map_map]
        exact List.map_congr_left fun r _ => (slice_shift [d] t r).symm
  | @word ws w t hne hfree hend _ ih =>
      obtain ⟨runs, hord, hmem, rfl⟩ := ih
      refine ⟨(0, w.length) :: runs.map (shift w.length), ?_, fun i j => ?_, ?_⟩
      · refine List.pairwise_cons.2 ⟨fun r hr => ?_, pairwise_map_shift hord⟩
        obtain ⟨⟨i', j'⟩, hr', rfl⟩ := List.mem_map.1 hr
        have hi0 := ((hmem i' j').1 hr').ne_zero hend
        change w.length < i' + w.length
        omega
      · rw [isRun_word hne hfree hend, List.mem_cons, mem_map_shift, Prod.mk.injEq]
        simp only [hmem]
      · rw [List.map_cons, List.map_map]
        refine congrArg₂ List.cons ?_ (List.map_congr_left fun r _ => (slice_shift w t r).symm)
        rw [slice, List.drop_zero, Nat.sub_zero, List.take_left]

end Split
