/-
**Writing the profile.**

At the end of a run the sites that have faulted are written to a file as JSON, by hand
(`Runtime/provsan_formatter.cpp`).  The names of blocks and functions are pasted between quotes as
they are.  So the text can be read as long as they have no character that a JSON string has to
escape; when one has, the longest such name is nowhere in the text as a string.

Main definitions:

* `Provsan.writeFault`, `Provsan.writeJSON` — the text of a site and of a set of sites;
* `Provsan.AllocSite.fields` — the members of the object for a site;
* `Provsan.AllocSite.Clean` — a site whose names need no escapes.

Main results:

* `Provsan.parse_writeJSON` — **the text of clean sites is read as the array of their objects**;
* `Provsan.not_holds_writeJSON` — **the longest name that needs an escape is not in the text**.
-/

import Provsan.Lib.JsonStrings
import Provsan.Lib.Unordered
import Provsan.Runtime.AllocSite

set_option relaxedAutoImplicit false
set_option autoImplicit false

namespace Provsan

open Json

/-! ### The writer -/

/-- What the loop of `writeJSON` writes for a site, when so many are left after it. -/
def writeFault (items_remaining : ℤ) (fault : AllocSite) : String :=
  "\x7b \"id\": " ++ toString fault.localID.toInt ++
    ", \"pkey\": " ++ toString fault.pkey.toNat ++
    ", \"bbName\": \"" ++ fault.bbName ++ "\", \"funcName\": \"" ++ fault.funcName ++ "\"" ++
    ", \"isRealloc\": " ++ (if fault.isRealloc then "true" else "false") ++ " \x7d" ++
    (if items_remaining ≠ 0 then "," else "") ++ "\n"

/-- The loop of `writeJSON`. -/
def writeFaults : ℤ → List AllocSite → String
  | _, [] => ""
  | items_remaining, fault :: rest =>
      writeFault (items_remaining - 1) fault ++ writeFaults (items_remaining - 1) rest

/-- `writeJSON`: the sites in the order in which the set gives them. -/
def writeJSON (faultSet : UnorderedSet AllocSite) : String :=
  if faultSet.elems.length ≤ 0 then ""
  else "[\n" ++ writeFaults faultSet.elems.length faultSet.elems ++ "]\n"

/-! ### The text of a site -/

namespace AllocSite

/-- The members of the object for a site. -/
def fields (s : AllocSite) : List (String × Json.Value) :=
  [("id", .integer s.localID), ("pkey", .integer (Int64.ofInt s.pkey.toNat)),
    ("bbName", .string s.bbName), ("funcName", .string s.funcName),
    ("isRealloc", .bool s.isRealloc)]

/-- The tokens of the object for a site. -/
def tokens (s : AllocSite) : List Token :=
  [.beginObject, .string "id", .colon, .integer s.localID, .comma,
    .string "pkey", .colon, .integer (Int64.ofInt s.pkey.toNat), .comma,
    .string "bbName", .colon, .string s.bbName, .comma,
    .string "funcName", .colon, .string s.funcName, .comma,
    .string "isRealloc", .colon, .bool s.isRealloc, .endObject]

/-- The names of the site need no escapes. -/
def Clean (s : AllocSite) : Prop := Plain s.bbName.toList ∧ Plain s.funcName.toList

end AllocSite

/-- A digit needs no escape. -/
theorem not_special_of_isDigit {c : Char} (h : c.isDigit = true) : isSpecial c = false := by
  have hrange : 48 ≤ c.toNat ∧ c.toNat ≤ 57 := by
    simpa [Char.isDigit, UInt32.le_iff_toNat_le] using h
  simp only [isSpecial, isControl, Bool.or_eq_false_iff, decide_eq_false_iff_not]
  refine ⟨⟨?_, ?_⟩, by omega⟩
  · rintro rfl
    exact absurd h (by decide)
  · rintro rfl
    exact absurd h (by decide)

theorem plain_toString (n : ℕ) : Plain (toString n).toList := by
  intro c hc
  have hlist : (toString n).toList = Nat.toDigits 10 n := by simp
  rw [hlist] at hc
  exact not_special_of_isDigit (Nat.isDigit_of_mem_toDigits (by decide) (by decide) hc)

theorem plain_append {p q : List Char} (hp : Plain p) (hq : Plain q) : Plain (p ++ q) := by
  intro c hc
  rcases List.mem_append.1 hc with hc | hc
  · exact hp c hc
  · exact hq c hc

/-- The end of the text of a site, after the name of the function. -/
def writeEnd (items_remaining : ℤ) (fault : AllocSite) : List Char :=
  (": " ++ (if fault.isRealloc then "true" else "false") ++ " \x7d" ++
    (if items_remaining ≠ 0 then "," else "")).toList

/-- **The text of a site**, quote by quote. -/
theorem toList_writeFault (items_remaining : ℤ) (s : AllocSite) (l : List Char) :
    (writeFault items_remaining s).toList ++ l =
      "\x7b ".toList ++ '"' :: ("id".toList ++ '"' ::
        ((": " ++ toString s.localID.toInt ++ ", ").toList ++ '"' :: ("pkey".toList ++ '"' ::
          ((": " ++ toString s.pkey.toNat ++ ", ").toList ++ '"' :: ("bbName".toList ++ '"' ::
            (": ".toList ++ '"' :: (s.bbName.toList ++ '"' ::
              (", ".toList ++ '"' :: ("funcName".toList ++ '"' ::
                (": ".toList ++ '"' :: (s.funcName.toList ++ '"' ::
                  (", ".toList ++ '"' :: ("isRealloc".toList ++ '"' ::
                    (writeEnd items_remaining s ++ '\n' :: l)))))))))))))) := by
  have hid : "\x7b \"id\": ".toList =
      "\x7b ".toList ++ '"' :: ("id".toList ++ '"' :: ": ".toList) := rfl
  have hpkey : ", \"pkey\": ".toList =
      ", ".toList ++ '"' :: ("pkey".toList ++ '"' :: ": ".toList) := rfl
  have hbb : ", \"bbName\": \"".toList =
      ", ".toList ++ '"' :: ("bbName".toList ++ '"' :: (": ".toList ++ ['"'])) := rfl
  have hfunc : "\", \"funcName\": \"".toList =
      '"' :: (", ".toList ++ '"' :: ("funcName".toList ++ '"' :: (": ".toList ++ ['"']))) := rfl
  have hreal : ", \"isRealloc\": ".toList =
      ", ".toList ++ '"' :: ("isRealloc".toList ++ '"' :: ": ".toList) := rfl
  have hquote : "\"".toList = ['"'] := rfl
  have hline : "\n".toList = ['\n'] := rfl
  unfold writeFault writeEnd
  simp only [String.toList_append]
  rw [hid, hpkey, hbb, hfunc, hreal, hquote, hline]
  simp only [List.append_assoc, List.cons_append, List.nil_append]

/-- An id that is not negative is written as a natural number. -/
theorem toString_localID {s : AllocSite} (hid : 0 ≤ s.localID) :
    toString s.localID.toInt = toString s.localID.toInt.toNat ∧
      Int64.ofInt s.localID.toInt.toNat = s.localID ∧ s.localID.toInt.toNat < 2 ^ 63 := by
  have hnn : 0 ≤ s.localID.toInt := by simpa using Int64.le_iff_toInt_le.1 hid
  have hlt : s.localID.toInt < 2 ^ 63 := Int64.toInt_lt s.localID
  obtain ⟨k, hk⟩ := Int.eq_ofNat_of_zero_le hnn
  refine ⟨by rw [hk]; rfl, ?_, by omega⟩
  rw [Int.toNat_of_nonneg hnn, Int64.ofInt_toInt]

/-! ### Sites that need no escapes -/

section

variable {strtod : List Char → Option (Option Int64)}

theorem lexes_writeEnd {items_remaining : ℤ} (s : AllocSite) {l : List Char} {ts : List Token}
    (h : Lexes strtod l ts) : Lexes strtod (writeEnd items_remaining s ++ '\n' :: l)
      (.colon :: .bool s.isRealloc :: .endObject ::
        ((if items_remaining ≠ 0 then [.comma] else []) ++ ts)) := by
  have hcolon : ": ".toList = [':', ' '] := rfl
  have hclose : " \x7d".toList = [' ', '}'] := rfl
  have hline : Lexes strtod ('\n' :: l) ts := .space rfl h
  unfold writeEnd
  simp only [String.toList_append]
  rw [hcolon, hclose]
  simp only [List.append_assoc, List.cons_append, List.nil_append]
  have hend : Lexes strtod ((if items_remaining ≠ 0 then "," else "").toList ++ '\n' :: l)
      ((if items_remaining ≠ 0 then [.comma] else []) ++ ts) := by
    split_ifs
    · exact .punct rfl hline
    · exact hline
  refine .punct rfl (.space rfl ?_)
  cases s.isRealloc with
  | true => exact .word (by simp [words]) (.space rfl (.punct rfl hend))
  | false => exact .word (by simp [words]) (.space rfl (.punct rfl hend))

/-- **The text of a clean site is the tokens of its object.** -/
theorem lexes_writeFault {items_remaining : ℤ} {s : AllocSite} (hid : 0 ≤ s.localID)
    (hs : s.Clean) {l : List Char} {ts : List Token} (h : Lexes strtod l ts) :
    Lexes strtod ((writeFault items_remaining s).toList ++ l)
      (s.tokens ++ ((if items_remaining ≠ 0 then [.comma] else []) ++ ts)) := by
  obtain ⟨htext, hback, hlt⟩ := toString_localID hid
  have hopen : "\x7b ".toList = ['{', ' '] := rfl
  have hcolon : ": ".toList = [':', ' '] := rfl
  have hcomma : ", ".toList = [',', ' '] := rfl
  have hpkey : s.pkey.toNat < 2 ^ 63 := by
    have hlt := s.pkey.isLt
    omega
  rw [toList_writeFault, htext]
  simp only [String.toList_append]
  rw [hopen, hcolon, hcomma]
  simp only [List.append_assoc, List.cons_append, List.nil_append]
  have htokens : s.tokens = [.beginObject, .string "id", .colon,
      .integer (Int64.ofInt s.localID.toInt.toNat), .comma, .string "pkey", .colon,
      .integer (Int64.ofInt s.pkey.toNat), .comma, .string "bbName", .colon, .string s.bbName,
      .comma, .string "funcName", .colon, .string s.funcName, .comma, .string "isRealloc", .colon,
      .bool s.isRealloc, .endObject] := by
    rw [hback]
    rfl
  rw [htokens]
  refine .punct rfl (.space rfl (.quoted (by decide) (.punct rfl (.space rfl ?_))))
  refine .natural hlt (by simp [isNumber]) (.punct rfl (.space rfl ?_))
  refine .quoted (by decide) (.punct rfl (.space rfl ?_))
  refine .natural hpkey (by simp [isNumber]) (.punct rfl (.space rfl ?_))
  refine .quoted (by decide) (.punct rfl (.space rfl (.quoted hs.1 (.punct rfl (.space rfl ?_)))))
  refine .quoted (by decide) (.punct rfl (.space rfl (.quoted hs.2 (.punct rfl (.space rfl ?_)))))
  exact .quoted (by decide) (lexes_writeEnd s h)

/-- The tokens of the objects for some sites. -/
def faultTokens : List AllocSite → List Token
  | [] => []
  | s :: rest =>
      s.tokens ++ ((if (rest.length : ℤ) ≠ 0 then [.comma] else []) ++ faultTokens rest)

theorem lexes_writeFaults {l : List AllocSite} (hid : ∀ s ∈ l, 0 ≤ s.localID)
    (hl : ∀ s ∈ l, s.Clean) {text : List Char} {ts : List Token} (h : Lexes strtod text ts) :
    Lexes strtod ((writeFaults l.length l).toList ++ text) (faultTokens l ++ ts) := by
  induction l with
  | nil => exact h
  | cons s l ih =>
      have hrest := ih (fun t ht => hid t (List.mem_cons_of_mem _ ht))
        fun t ht => hl t (List.mem_cons_of_mem _ ht)
      have hcount : ((s :: l).length : ℤ) - 1 = l.length := by
        rw [List.length_cons]
        omega
      rw [writeFaults, hcount, String.toList_append, List.append_assoc, faultTokens,
        List.append_assoc, List.append_assoc]
      exact lexes_writeFault (hid s (List.mem_cons_self ..)) (hl s (List.mem_cons_self ..)) hrest

/-- The machine reads the object for a site. -/
theorem foldlM_tokens (s : AllocSite) (ts : List Token) (stack : List Frame) :
    (s.tokens ++ ts).foldlM State.step (.value stack) =
      ts.foldlM State.step (.after (.object s.fields) stack) := rfl

theorem foldlM_tokens_opened (s : AllocSite) (ts : List Token) (stack : List Frame) :
    (s.tokens ++ ts).foldlM State.step (.arrayOpened stack) =
      ts.foldlM State.step (.after (.object s.fields) (.array [] :: stack)) := rfl

/-- The machine reads the objects for some sites, up to the end of their array. -/
theorem foldlM_faultTokens (s : AllocSite) (l : List AllocSite) (items : List Json.Value) :
    (faultTokens (s :: l) ++ [Token.endArray]).foldlM State.step (.value [.array items]) =
      some (.after (.array (items ++ (s :: l).map fun s => Json.Value.object s.fields)) []) := by
  induction l generalizing s items with
  | nil =>
      rw [faultTokens, List.append_assoc, foldlM_tokens, if_neg (by simp)]
      rfl
  | cons s' l ih =>
      have hcount : ((s' :: l).length : ℤ) ≠ 0 := by
        rw [List.length_cons]
        omega
      have hcomma : State.step (.after (.object s.fields) [.array items]) .comma =
          some (.value [.array (items ++ [.object s.fields])]) := rfl
      rw [faultTokens, List.append_assoc, foldlM_tokens, if_pos hcount, List.append_assoc,
        List.singleton_append, List.foldlM_cons, hcomma, Option.bind_eq_bind, Option.bind_some, ih,
        List.append_assoc, List.singleton_append]
      rfl

/-- **The text of clean sites is read as the array of their objects.** -/
theorem parse_writeJSON {S : UnorderedSet AllocSite} (hne : S.elems ≠ [])
    (hid : ∀ s ∈ S.elems, 0 ≤ s.localID) (hS : ∀ s ∈ S.elems, s.Clean) :
    Json.parse strtod (writeJSON S).toList =
      some (.array (S.elems.map fun s => Json.Value.object s.fields)) := by
  have hopen : "[\n".toList = ['[', '\n'] := rfl
  have hclose : "]\n".toList = [']', '\n'] := rfl
  have hlex : Lexes strtod (writeJSON S).toList
      (.beginArray :: (faultTokens S.elems ++ [Token.endArray])) := by
    rw [writeJSON, if_neg (by simpa using hne)]
    simp only [String.toList_append]
    rw [hopen, hclose]
    simp only [List.cons_append, List.nil_append]
    exact .punct rfl (.space rfl (lexes_writeFaults hid hS (.punct rfl (.space rfl .nil))))
  refine parse_eq_some.2 ⟨_, hlex, ?_⟩
  obtain ⟨s, l, hl⟩ := List.exists_cons_of_ne_nil hne
  have hfirst : (faultTokens (s :: l) ++ [Token.endArray]).foldlM State.step (.arrayOpened []) =
      (faultTokens (s :: l) ++ [Token.endArray]).foldlM State.step (.value [.array []]) := by
    rw [faultTokens, List.append_assoc, foldlM_tokens_opened, foldlM_tokens]
  have hopened : State.step (.value []) .beginArray = some (.arrayOpened []) := rfl
  rw [hl, List.foldlM_cons, hopened, Option.bind_eq_bind, Option.bind_some, hfirst,
    foldlM_faultTokens, List.nil_append]

/-! ### Names that need escapes -/

variable {w : List Char}

/-- A name without quotes is no token. -/
theorem not_lexes_of_head {c : Char} {l : List Char} (hc : isSpace c = false ∧ punct? c = none ∧
    isNumber c = false ∧ c ≠ '"') (hwords : ∀ t ∈ words, ¬ t.1 <+: c :: l) (ts : List Token) :
    ¬ Lexes strtod (c :: l) ts := by
  intro h
  rcases h.head with h | h | h | h | ⟨t, ht, hpre⟩
  · exact absurd h (by simp [hc.1])
  · exact absurd h (by simp [hc.2.1])
  · exact absurd h (by simp [hc.2.2.1])
  · exact hc.2.2.2 h
  · exact hwords t ht hpre

theorem not_lexes_funcName (l : List Char) (ts : List Token) :
    ¬ Lexes strtod ("funcName".toList ++ l) ts := by
  have hname : "funcName".toList = ['f', 'u', 'n', 'c', 'N', 'a', 'm', 'e'] := rfl
  rw [hname, List.cons_append]
  exact not_lexes_of_head (by decide) (by simp [words]) ts

theorem not_lexes_isRealloc (l : List Char) (ts : List Token) :
    ¬ Lexes strtod ("isRealloc".toList ++ l) ts := by
  have hname : "isRealloc".toList = ['i', 's', 'R', 'e', 'a', 'l', 'l', 'o', 'c'] := rfl
  rw [hname, List.cons_append]
  exact not_lexes_of_head (by decide) (by simp [words]) ts

/-- **The text of a site holds no special string that is as long as its names.** -/
theorem not_holds_writeFault (hw : ∃ c ∈ w, isSpecial c = true) {items_remaining : ℤ}
    {s : AllocSite} (hid : 0 ≤ s.localID) (hbb : NotLonger w s.bbName.toList)
    (hfunc : NotLonger w s.funcName.toList) {l : List Char} (h : ¬ Holds strtod w l) :
    ¬ Holds strtod w ((writeFault items_remaining s).toList ++ l) := by
  have hend : Plain (writeEnd items_remaining s) := by
    unfold writeEnd
    split_ifs <;> decide
  rw [toList_writeFault, (toString_localID hid).1]
  -- from the end of the line to its head, quote by quote
  have h₁ := not_holds_line hend h
  have h₂ := not_holds_quoted hw (by decide : Plain "isRealloc".toList) h₁
  have h₃ := not_holds_quoted hw (by decide : Plain ", ".toList) h₂
  have h₄ := not_holds_pasted hw hfunc (by decide) (not_lexes_isRealloc _) h₃
  have h₅ := not_holds_quoted hw (by decide : Plain ": ".toList) h₄
  have h₆ := not_holds_quoted hw (by decide : Plain "funcName".toList) h₅
  have h₇ := not_holds_quoted hw (by decide : Plain ", ".toList) h₆
  have h₈ := not_holds_pasted hw hbb (by decide) (not_lexes_funcName _) h₇
  have h₉ := not_holds_quoted hw (by decide : Plain ": ".toList) h₈
  have h₁₀ := not_holds_quoted hw (by decide : Plain "bbName".toList) h₉
  have hpkey : Plain (": " ++ toString s.pkey.toNat ++ ", ").toList := by
    simp only [String.toList_append]
    exact plain_append (plain_append (by decide) (plain_toString _)) (by decide)
  have h₁₁ := not_holds_quoted hw hpkey h₁₀
  have h₁₂ := not_holds_quoted hw (by decide : Plain "pkey".toList) h₁₁
  have hlocal : Plain (": " ++ toString s.localID.toInt.toNat ++ ", ").toList := by
    simp only [String.toList_append]
    exact plain_append (plain_append (by decide) (plain_toString _)) (by decide)
  have h₁₃ := not_holds_quoted hw hlocal h₁₂
  have h₁₄ := not_holds_quoted hw (by decide : Plain "id".toList) h₁₃
  exact not_holds_append (by decide) h₁₄

theorem not_holds_writeFaults (hw : ∃ c ∈ w, isSpecial c = true) {n : ℤ} {l : List AllocSite}
    (hid : ∀ s ∈ l, 0 ≤ s.localID)
    (hl : ∀ s ∈ l, NotLonger w s.bbName.toList ∧ NotLonger w s.funcName.toList) {text : List Char}
    (h : ¬ Holds strtod w text) : ¬ Holds strtod w ((writeFaults n l).toList ++ text) := by
  induction l generalizing n with
  | nil => exact h
  | cons s l ih =>
      have hrest := ih (n := n - 1) (fun t ht => hid t (List.mem_cons_of_mem _ ht))
        fun t ht => hl t (List.mem_cons_of_mem _ ht)
      obtain ⟨hbb, hfunc⟩ := hl s (List.mem_cons_self ..)
      rw [writeFaults, String.toList_append, List.append_assoc]
      exact not_holds_writeFault hw (hid s (List.mem_cons_self ..)) hbb hfunc hrest

/-- **The longest name that needs an escape is not in the text.** -/
theorem not_holds_writeJSON (hw : ∃ c ∈ w, isSpecial c = true) {S : UnorderedSet AllocSite}
    (hid : ∀ s ∈ S.elems, 0 ≤ s.localID)
    (hS : ∀ s ∈ S.elems, NotLonger w s.bbName.toList ∧ NotLonger w s.funcName.toList) :
    ¬ Holds strtod w (writeJSON S).toList := by
  unfold writeJSON
  split_ifs
  · exact not_holds_nil
  · simp only [String.toList_append, List.append_assoc]
    refine not_holds_append (by decide) (not_holds_writeFaults hw hid hS ?_)
    rw [← List.append_nil "]\n".toList]
    exact not_holds_append (by decide) not_holds_nil

end

end Provsan
