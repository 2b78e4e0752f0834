/-
**Which strings a text can hold.**

A string that a parser finds in a text stands there between two quotes, and what follows can be cut
into tokens.  So if some string cannot be read at any quote of a text, no value of the text
mentions it.  The lemmas here go through a text from its end, quote by quote.  They are about
strings with a character that needs an escape, which makes the string shorter than its text.

Main definitions:

* `Json.Begins`, `Json.Holds` — a string begins after a quote, or stands somewhere in a text.

Main results:

* `Json.not_holds_quoted` — between two quotes with plain text there is no such string;
* `Json.not_holds_pasted` — **nor where a text that is not longer has been pasted between quotes**;
* `Json.Mentions.holds` — the strings of a value are held by its text.
-/

import Provsan.Lib.Json

set_option relaxedAutoImplicit false
set_option autoImplicit false

namespace Json

/-- The string `w` can be read from here, where a quote has just been. -/
def Begins (strtod : List Char → Option (Option Int64)) (w l : List Char) : Prop :=
  ∃ raw us rest ts, l = raw ++ '"' :: rest ∧ Raw raw us ∧ decode us = w ∧ Lexes strtod rest ts

/-- The string `w` can be read after some quote of a text. -/
def Holds (strtod : List Char → Option (Option Int64)) (w l : List Char) : Prop :=
  ∃ pre l', l = pre ++ '"' :: l' ∧ Begins strtod w l'

section

variable {strtod : List Char → Option (Option Int64)} {w : List Char}

theorem Mentions.holds {text : List Char} {v : Value} (h : parse strtod text = some v) {s : String}
    (hs : Mentions s v) : Holds strtod s.toList text := by
  obtain ⟨ts, hts, hmem⟩ := hs.of_parse h
  obtain ⟨pre, raw, us, rest, ts', rfl, hraw, rfl, hrest⟩ := hts.exists_of_string hmem
  exact ⟨pre, raw ++ '"' :: rest, by simp, raw, us, rest, ts', rfl, hraw, by simp, hrest⟩

/-! ### Going through a text -/

theorem not_holds_nil : ¬ Holds strtod w [] := by
  rintro ⟨pre, l', h, -⟩
  exact absurd h.symm (by simp)

theorem not_holds_cons {c : Char} {l : List Char} (hc : c ≠ '"') (h : ¬ Holds strtod w l) :
    ¬ Holds strtod w (c :: l) := by
  rintro ⟨pre, l', heq, hl'⟩
  cases pre with
  | nil => exact hc (List.cons.inj heq).1
  | cons d pre => exact h ⟨pre, l', (List.cons.inj heq).2, hl'⟩

theorem not_holds_quote {l : List Char} (hl : ¬ Begins strtod w l) (h : ¬ Holds strtod w l) :
    ¬ Holds strtod w ('"' :: l) := by
  rintro ⟨pre, l', heq, hl'⟩
  cases pre with
  | nil => exact hl ((List.cons.inj heq).2 ▸ hl')
  | cons d pre => exact h ⟨pre, l', (List.cons.inj heq).2, hl'⟩

/-- Text without quotes holds nothing. -/
theorem not_holds_append {p l : List Char} (hp : '"' ∉ p) (h : ¬ Holds strtod w l) :
    ¬ Holds strtod w (p ++ l) := by
  induction p with
  | nil => exact h
  | cons c p ih =>
      rw [List.mem_cons, not_or] at hp
      exact not_holds_cons (Ne.symm hp.1) (ih hp.2)

/-! ### Plain text -/

/-- Text that stands for itself in a string. -/
def Plain (p : List Char) : Prop := ∀ c ∈ p, isSpecial c = false

instance (p : List Char) : Decidable (Plain p) :=
  List.decidableBAll (fun c => isSpecial c = false) p

theorem Plain.ne {p : List Char} (hp : Plain p) : ∀ c ∈ p, c ≠ '"' ∧ c ≠ '\\' := by
  intro c hc
  have h := hp c hc
  simp only [isSpecial, Bool.or_eq_false_iff, decide_eq_false_iff_not] at h
  exact h.1

theorem Plain.quote_notMem {p : List Char} (hp : Plain p) : '"' ∉ p :=
  fun h => (hp.ne _ h).1 rfl

/-- Plain text between quotes is read as it stands. -/
theorem Lexes.quoted {k : String} (hk : Plain k.toList) {l : List Char} {ts : List Token}
    (h : Lexes strtod l ts) : Lexes strtod ('"' :: (k.toList ++ '"' :: l)) (.string k :: ts) := by
  have hraw := Lexes.string (raw_of_not_special hk) h
  rwa [decode_map_char, String.ofList_toList] at hraw

/-- No character of the text of a string is a control character. -/
theorem Raw.not_control {raw : List Char} {us : List CodeUnit} (h : Raw raw us) :
    ∀ c ∈ raw, isControl c = false := by
  induction h with
  | nil => exact fun c hc => absurd hc (by simp)
  | plain _ _ hcontrol _ ih => exact List.forall_mem_cons.2 ⟨hcontrol, ih⟩
  | @escape e c raw us he _ ih =>
      refine List.forall_mem_cons.2 ⟨by decide, List.forall_mem_cons.2 ⟨?_, ih⟩⟩
      by_contra hcontrol
      unfold escape? at he
      split at he
      case h_9 => exact absurd he (by simp)
      all_goals exact hcontrol (by decide)
  | @unicode a b c d u raw us hu _ ih =>
      have hdigit : ∀ x n, hexDigit? x = some n → isControl x = false := by
        intro x n hx
        rw [isControl, decide_eq_false_iff_not]
        unfold hexDigit? at hx
        split_ifs at hx with h h h
        · have hle : 48 ≤ x.toNat := h.1
          omega
        · have hle : 97 ≤ x.toNat := h.1
          omega
        · have hle : 65 ≤ x.toNat := h.1
          omega
      simp only [hex4?, Option.bind_eq_bind, Option.bind_eq_some_iff] at hu
      obtain ⟨a', ha, b', hb, c', hc, d', hd, -⟩ := hu
      simp only [List.forall_mem_cons]
      exact ⟨by decide, by decide, hdigit a a' ha, hdigit b b' hb, hdigit c c' hc,
        hdigit d d' hd, ih⟩

/-- Up to the next quote, plain text is a string without special characters. -/
theorem not_begins_plain (hw : ∃ c ∈ w, isSpecial c = true) {p q : List Char} (hp : Plain p) :
    ¬ Begins strtod w (p ++ '"' :: q) := by
  rintro ⟨raw, us, rest, ts, heq, hraw, hdecode, -⟩
  obtain ⟨rfl, rfl⟩ := hraw.eq_of_append hp.ne heq.symm
  obtain ⟨c, hc, hspecial⟩ := hw
  obtain ⟨hslash, -⟩ := hraw.length_decode_lt (hdecode ▸ hc) hspecial
  exact (hp.ne _ hslash).2 rfl

/-- A string does not go over the end of a line. -/
theorem not_begins_line {p q : List Char} (hp : Plain p) : ¬ Begins strtod w (p ++ '\n' :: q) := by
  rintro ⟨raw, us, rest, ts, heq, hraw, -, -⟩
  rcases List.append_eq_append_iff.1 heq with ⟨a, hpre, hrest⟩ | ⟨a, hpre, hrest⟩
  · cases a with
    | nil => exact absurd (List.cons.inj hrest).1 (by decide)
    | cons c a =>
        obtain ⟨rfl, -⟩ := List.cons.inj hrest
        have hmem : '\n' ∈ raw := by simp [hpre]
        exact absurd (hraw.not_control _ hmem) (by decide)
  · cases a with
    | nil => exact absurd (List.cons.inj hrest).1 (by decide)
    | cons c a =>
        obtain ⟨rfl, -⟩ := List.cons.inj hrest
        exact hp.quote_notMem (by simp [hpre])

/-- **Between two quotes with plain text** there is no special string. -/
theorem not_holds_quoted (hw : ∃ c ∈ w, isSpecial c = true) {p q : List Char} (hp : Plain p)
    (hq : ¬ Holds strtod w ('"' :: q)) : ¬ Holds strtod w ('"' :: (p ++ '"' :: q)) :=
  not_holds_quote (not_begins_plain hw hp) (not_holds_append hp.quote_notMem hq)

/-- After the last quote of a line there is no string. -/
theorem not_holds_line {p q : List Char} (hp : Plain p) (hq : ¬ Holds strtod w q) :
    ¬ Holds strtod w ('"' :: (p ++ '\n' :: q)) := by
  refine not_holds_quote (not_begins_line hp) (not_holds_append hp.quote_notMem ?_)
  exact not_holds_cons (by decide) hq

/-! ### Text that has been pasted -/

/-- A text that is as long as `w` at most, if it has special characters. -/
def NotLonger (w v : List Char) : Prop := (∃ c ∈ v, isSpecial c = true) → v.length ≤ w.length

theorem NotLonger.of_cons {c : Char} {v : List Char} (h : NotLonger w (c :: v)) :
    NotLonger w v := by
  rintro ⟨d, hd, hspecial⟩
  have hle := h ⟨d, List.mem_cons_of_mem _ hd, hspecial⟩
  rw [List.length_cons] at hle
  omega

/-- A special string does not begin in a text that is not longer: it would end in it, or the rest
of the line would be no tokens. -/
theorem not_begins_pasted (hw : ∃ c ∈ w, isSpecial c = true) {v p x : List Char}
    (hv : NotLonger w v) (hp : Plain p) (hx : ∀ ts, ¬ Lexes strtod x ts) :
    ¬ Begins strtod w (v ++ '"' :: (p ++ '"' :: x)) := by
  rintro ⟨raw, us, rest, ts, heq, hraw, hdecode, hrest⟩
  obtain ⟨c, hc, hspecial⟩ := hw
  obtain ⟨hslash, hlt⟩ := hraw.length_decode_lt (hdecode ▸ hc) hspecial
  rw [hdecode] at hlt
  have hne : raw ≠ v := by
    rintro rfl
    have hle := hv ⟨'\\', hslash, by decide⟩
    omega
  rcases List.append_eq_append_iff.1 heq with ⟨a, hpre, htail⟩ | ⟨a, hpre, htail⟩
  · -- the string ends after the text
    cases a with
    | nil => exact hne (by simpa using hpre)
    | cons d a =>
        obtain ⟨rfl, htail'⟩ := List.cons.inj htail
        have hclose : a ++ '"' :: rest = p ++ '"' :: x := htail'.symm
        obtain ⟨us', hraw'⟩ := (hpre ▸ hraw).of_append
        obtain ⟨-, rfl⟩ := hraw'.eq_of_append hp.ne hclose
        exact hx ts hrest
  · -- the string ends in the text
    cases a with
    | nil => exact hne (by simpa using hpre.symm)
    | cons d a =>
        obtain ⟨rfl, -⟩ := List.cons.inj htail
        have hle := hv ⟨'"', by simp [hpre], by decide⟩
        rw [hpre, List.length_append, List.length_cons] at hle
        omega

/-- Nor does it stand anywhere in such a text. -/
theorem not_holds_of_notLonger (hw : ∃ c ∈ w, isSpecial c = true) {v p x : List Char}
    (hv : NotLonger w v) (hp : Plain p) (hx : ∀ ts, ¬ Lexes strtod x ts)
    (h : ¬ Holds strtod w ('"' :: (p ++ '"' :: x))) :
    ¬ Holds strtod w (v ++ '"' :: (p ++ '"' :: x)) := by
  induction v with
  | nil => exact h
  | cons c v ih =>
      by_cases hc : c = '"'
      · subst hc
        exact not_holds_quote (not_begins_pasted hw hv.of_cons hp hx) (ih hv.of_cons)
      · exact not_holds_cons hc (ih hv.of_cons)

/-- **A text that is not longer has been pasted between quotes**, and a name without quotes comes
after it: no special string is held there. -/
theorem not_holds_pasted (hw : ∃ c ∈ w, isSpecial c = true) {v p x : List Char}
    (hv : NotLonger w v) (hp : Plain p) (hx : ∀ ts, ¬ Lexes strtod x ts)
    (h : ¬ Holds strtod w ('"' :: (p ++ '"' :: x))) :
    ¬ Holds strtod w ('"' :: (v ++ '"' :: (p ++ '"' :: x))) :=
  not_holds_quote (not_begins_pasted hw hv hp hx) (not_holds_of_notLonger hw hv hp hx h)

/-- How the tokens of a text can begin. -/
theorem Lexes.head {c : Char} {l : List Char} {ts : List Token} (h : Lexes strtod (c :: l) ts) :
    isSpace c = true ∨ (punct? c).isSome ∨ isNumber c = true ∨ c = '"' ∨
      ∃ t ∈ words, t.1 <+: c :: l := by
  generalize hl : c :: l = l' at h
  cases h with
  | nil => exact absurd hl (by simp)
  | space hspace _ =>
      obtain ⟨rfl, -⟩ := List.cons.inj hl
      exact Or.inl hspace
  | punct hp _ =>
      obtain ⟨rfl, -⟩ := List.cons.inj hl
      exact Or.inr (Or.inl (by simp [hp]))
  | @word w t l ts hw _ =>
      exact Or.inr (Or.inr (Or.inr (Or.inr ⟨(w, t), hw, l, rfl⟩)))
  | @number lit t l ts hne hlit _ _ _ =>
      cases lit with
      | nil => exact absurd rfl hne
      | cons d lit =>
          obtain ⟨rfl, -⟩ := List.cons.inj hl
          exact Or.inr (Or.inr (Or.inl (hlit c (List.mem_cons_self ..))))
  | string _ _ =>
      obtain ⟨rfl, -⟩ := List.cons.inj hl
      exact Or.inr (Or.inr (Or.inr (Or.inl rfl)))

end

end Json
