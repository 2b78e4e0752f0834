/-
**A JSON parser.**

The text is cut into tokens, and the tokens are read by a machine with a stack of the arrays and
objects that are open.  Strings may have escapes and no control characters; a surrogate that is
not paired becomes U+FFFD.  Literals of integers that fit into 64 bits are read as such; how any
other number is read is a parameter.  An object keeps its members in the order of the text, and
the last one of a name is the one that is found.

Main definitions:

* `Json.Value`, `Json.Value.get` — values;
* `Json.Raw`, `Json.decode` — the text between the quotes of a string, and the string;
* `Json.Lexes` — the lexical grammar; `Json.lex` — the lexer;
* `Json.State`, `Json.State.step` — the machine that reads tokens;
* `Json.parse` — the parser.

Main results:

* `Json.lex_eq_some` — the lexer follows the grammar;
* `Json.parse_eq_some` — **when a text is parsed**;
* `Json.Lexes.exists_of_string` — every string of a text stands in it between quotes;
* `Json.Mentions.of_parse` — every string of a value is one of its text.
-/

import Mathlib.Algebra.Group.Nat.Defs
import Mathlib.Data.List.TakeWhile
import Mathlib.Data.Nat.Notation
import Mathlib.Data.Int.Notation
import Mathlib.Tactic.Tauto

set_option relaxedAutoImplicit false
set_option autoImplicit false

namespace Json

/-! ### Values -/

/-- A JSON value.  `double` is a number that is no literal of a 64-bit integer; what is kept of it
is the 64-bit integer it equals, if it does. -/
inductive Value
  | null
  | bool (b : Bool)
  | integer (n : Int64)
  | double (asInteger : Option Int64)
  | string (s : String)
  | array (items : List Value)
  | object (fields : List (String × Value))

namespace Value

/-- The last member of an object with a name. -/
def get (fields : List (String × Value)) (key : String) : Option Value :=
  (fields.reverse.find? (·.1 = key)).map Prod.snd

def getAsInteger : Value → Option Int64
  | integer n => some n
  | double asInteger => asInteger
  | _ => none

def getAsString : Value → Option String
  | string s => some s
  | _ => none

def getAsObject : Value → Option (List (String × Value))
  | object fields => some fields
  | _ => none

def getAsArray : Value → Option (List Value)
  | array items => some items
  | _ => none

theorem eq_object {v : Value} {fields : List (String × Value)} (h : v.getAsObject = some fields) :
    v = object fields := by
  cases v with
  | object fields' => exact congrArg object (Option.some_inj.1 h)
  | null | bool | integer | double | string | array => exact absurd h (by simp [getAsObject])

end Value

/-! ### Strings -/

/-- What a character or an escape of a string stands for. -/
inductive CodeUnit
  | char (c : Char)
  | utf16 (u : ℕ)

/-- The escapes of one character. -/
def escape? : Char → Option Char
  | '"' => some '"'
  | '\\' => some '\\'
  | '/' => some '/'
  | 'b' => some '\x08'
  | 'f' => some '\x0c'
  | 'n' => some '\n'
  | 'r' => some '\r'
  | 't' => some '\t'
  | _ => none

def hexDigit? (c : Char) : Option ℕ :=
  if '0' ≤ c ∧ c ≤ '9' then some (c.toNat - '0'.toNat)
  else if 'a' ≤ c ∧ c ≤ 'f' then some (c.toNat - 'a'.toNat + 10)
  else if 'A' ≤ c ∧ c ≤ 'F' then some (c.toNat - 'A'.toNat + 10)
  else none

/-- The number of four hexadecimal digits. -/
def hex4? (a b c d : Char) : Option ℕ := do
  let a ← hexDigit? a
  let b ← hexDigit? b
  let c ← hexDigit? c
  let d ← hexDigit? d
  some (((a * 16 + b) * 16 + c) * 16 + d)

/-- Whether a character is a control character, which strings may not contain. -/
def isControl (c : Char) : Bool := c.toNat < 32

/-- The text between the quotes of a string, and what its characters and escapes stand for. -/
inductive Raw : List Char → List CodeUnit → Prop
  | nil : Raw [] []
  | plain {c : Char} {raw : List Char} {us : List CodeUnit} : c ≠ '"' → c ≠ '\\' →
      isControl c = false → Raw raw us → Raw (c :: raw) (.char c :: us)
  | escape {e c : Char} {raw : List Char} {us : List CodeUnit} : escape? e = some c →
      Raw raw us → Raw ('\\' :: e :: raw) (.char c :: us)
  | unicode {a b c d : Char} {u : ℕ} {raw : List Char} {us : List CodeUnit} :
      hex4? a b c d = some u → Raw raw us →
        Raw ('\\' :: 'u' :: a :: b :: c :: d :: raw) (.utf16 u :: us)

/-- Reading a string up to its closing quote. -/
def scanString : List Char → Option (List CodeUnit × List Char)
  | [] => none
  | '"' :: l => some ([], l)
  | '\\' :: 'u' :: a :: b :: c :: d :: l => do
      let u ← hex4? a b c d
      let (us, rest) ← scanString l
      some (.utf16 u :: us, rest)
  | '\\' :: e :: l => do
      let c ← escape? e
      let (us, rest) ← scanString l
      some (.char c :: us, rest)
  | c :: l =>
      if c = '\\' ∨ isControl c = true then none
      else do
        let (us, rest) ← scanString l
        some (.char c :: us, rest)

/-- The character that stands for a surrogate that is not paired. -/
def replacement : Char := Char.ofNat 0xFFFD

/-- What a leading surrogate becomes when no trailing one follows. -/
def unpaired (high : Option ℕ) : List Char := (high.map fun _ => replacement).toList

/-- The string of its code units, after a leading surrogate that has been read. -/
def decodeFrom : Option ℕ → List CodeUnit → List Char
  | high, [] => unpaired high
  | high, .char c :: us => unpaired high ++ c :: decodeFrom none us
  | high, .utf16 u :: us =>
      if u < 0xD800 ∨ 0xE000 ≤ u then unpaired high ++ Char.ofNat u :: decodeFrom none us
      else if u < 0xDC00 then unpaired high ++ decodeFrom (some u) us
      else match high with
      | some h => Char.ofNat (0x10000 + (h - 0xD800) * 0x400 + (u - 0xDC00)) :: decodeFrom none us
      | none => replacement :: decodeFrom none us

/-- The string of its code units. -/
def decode (us : List CodeUnit) : List Char := decodeFrom none us

/-! ### Tokens -/

inductive Token
  | beginArray
  | endArray
  | beginObject
  | endObject
  | colon
  | comma
  | null
  | bool (b : Bool)
  | integer (n : Int64)
  | double (asInteger : Option Int64)
  | string (s : String)

def isSpace (c : Char) : Bool := c = ' ' || c = '\t' || c = '\n' || c = '\r'

def punct? : Char → Option Token
  | '[' => some .beginArray
  | ']' => some .endArray
  | '{' => some .beginObject
  | '}' => some .endObject
  | ':' => some .colon
  | ',' => some .comma
  | _ => none

def words : List (List Char × Token) :=
  [("null".toList, .null), ("true".toList, .bool true), ("false".toList, .bool false)]

/-- The characters that literals of numbers are made of. -/
def isNumber (c : Char) : Bool :=
  c.isDigit || c = 'e' || c = 'E' || c = '+' || c = '-' || c = '.'

/-- The number of a row of digits, when it is below a bound. -/
def readDigits (bound : ℕ) (ds : List Char) : Option ℕ :=
  if ds ≠ [] ∧ ds.all Char.isDigit = true ∧ Nat.ofDigitChars 10 ds 0 < bound then
    some (Nat.ofDigitChars 10 ds 0)
  else none

/-- The literals of integers of 64 bits. -/
def readInteger : List Char → Option Int64
  | '-' :: ds => (readDigits (2 ^ 63 + 1) ds).map fun n : ℕ => Int64.ofInt (-n)
  | '+' :: ds => (readDigits (2 ^ 63) ds).map fun n : ℕ => Int64.ofInt n
  | ds => (readDigits (2 ^ 63) ds).map fun n : ℕ => Int64.ofInt n

/-- The token of the literal of a number. -/
def readNumber (strtod : List Char → Option (Option Int64)) (lit : List Char) : Option Token :=
  match readInteger lit with
  | some n => some (.integer n)
  | none => (strtod lit).map .double

/-- **The lexical grammar**: a text and its tokens. -/
inductive Lexes (strtod : List Char → Option (Option Int64)) : List Char → List Token → Prop
  | nil : Lexes strtod [] []
  | space {c : Char} {l : List Char} {ts : List Token} : isSpace c = true → Lexes strtod l ts →
      Lexes strtod (c :: l) ts
  | punct {c : Char} {t : Token} {l : List Char} {ts : List Token} : punct? c = some t →
      Lexes strtod l ts → Lexes strtod (c :: l) (t :: ts)
  | word {w : List Char} {t : Token} {l : List Char} {ts : List Token} : (w, t) ∈ words →
      Lexes strtod l ts → Lexes strtod (w ++ l) (t :: ts)
  | number {lit : List Char} {t : Token} {l : List Char} {ts : List Token} : lit ≠ [] →
      (∀ c ∈ lit, isNumber c = true) → (∀ c ∈ l.head?, isNumber c = false) →
      readNumber strtod lit = some t → Lexes strtod l ts → Lexes strtod (lit ++ l) (t :: ts)
  | string {raw : List Char} {us : List CodeUnit} {l : List Char} {ts : List Token} : Raw raw us →
      Lexes strtod l ts →
      Lexes strtod ('"' :: raw ++ '"' :: l) (.string (String.ofList (decode us)) :: ts)

/-- The lexer.  The fuel is used up by one for each token and each space. -/
def lex (strtod : List Char → Option (Option Int64)) : ℕ → List Char → Option (List Token)
  | _, [] => some []
  | 0, _ :: _ => none
  | fuel + 1, c :: l =>
      if isSpace c = true then lex strtod fuel l
      else if c = '"' then
        (scanString l).bind fun r =>
          (lex strtod fuel r.2).map (.string (String.ofList (decode r.1)) :: ·)
      else if isNumber c = true then
        (readNumber strtod (c :: l.takeWhile isNumber)).bind fun t =>
          (lex strtod fuel (l.dropWhile isNumber)).map (t :: ·)
      else match punct? c with
      | some t => (lex strtod fuel l).map (t :: ·)
      | none =>
          (words.find? fun w => w.1.isPrefixOf (c :: l)).bind fun w =>
            (lex strtod fuel ((c :: l).drop w.1.length)).map (w.2 :: ·)

/-! ### Values from tokens -/

/-- An array or an object that is open: the items before, or the members before and the name of
the one to come. -/
inductive Frame
  | array (items : List Value)
  | member (fields : List (String × Value)) (key : String)

/-- What has been read, and what may come next. -/
inductive State
  /-- A value. -/
  | value (stack : List Frame)
  /-- A value, or the end of the array that has just been opened. -/
  | arrayOpened (stack : List Frame)
  /-- A name, or the end of the object that has just been opened. -/
  | objectOpened (stack : List Frame)
  /-- A name. -/
  | key (fields : List (String × Value)) (stack : List Frame)
  /-- A colon. -/
  | colon (fields : List (String × Value)) (key : String) (stack : List Frame)
  /-- A comma, or the end of what is open; the end of the text when nothing is. -/
  | after (v : Value) (stack : List Frame)

namespace State

/-- A token where a value is due. -/
def open? (stack : List Frame) : Token → Option State
  | .null => some (after .null stack)
  | .bool b => some (after (.bool b) stack)
  | .integer n => some (after (.integer n) stack)
  | .double asInteger => some (after (.double asInteger) stack)
  | .string s => some (after (.string s) stack)
  | .beginArray => some (arrayOpened stack)
  | .beginObject => some (objectOpened stack)
  | _ => none

/-- Reading one token. -/
def step : State → Token → Option State
  | value stack, t => open? stack t
  | arrayOpened stack, .endArray => some (after (.array []) stack)
  | arrayOpened stack, t => open? (.array [] :: stack) t
  | objectOpened stack, .endObject => some (after (.object []) stack)
  | objectOpened stack, .string k => some (colon [] k stack)
  | key fields stack, .string k => some (colon fields k stack)
  | colon fields k stack, .colon => some (value (.member fields k :: stack))
  | after v (.array items :: stack), .comma => some (value (.array (items ++ [v]) :: stack))
  | after v (.array items :: stack), .endArray => some (after (.array (items ++ [v])) stack)
  | after v (.member fields k :: stack), .comma => some (key (fields ++ [(k, v)]) stack)
  | after v (.member fields k :: stack), .endObject =>
      some (after (.object (fields ++ [(k, v)])) stack)
  | _, _ => none

/-- The value that has been read, when nothing is open. -/
def result? : State → Option Value
  | after v [] => some v
  | _ => none

end State

/-- **The parser.** -/
def parse (strtod : List Char → Option (Option Int64)) (text : List Char) : Option Value := do
  let ts ← lex strtod text.length text
  let s ← ts.foldlM State.step (.value [])
  s.result?

/-! ### Strings between quotes -/

/-- **Reading a string** up to its closing quote. -/
theorem scanString_eq_some {l rest : List Char} {us : List CodeUnit} :
    scanString l = some (us, rest) ↔ ∃ raw, l = raw ++ '"' :: rest ∧ Raw raw us := by
  constructor
  · intro h
    fun_induction scanString l generalizing us with
    | case1 => exact absurd h (by simp)
    | case2 l =>
        obtain ⟨rfl, rfl⟩ := Prod.mk.inj (Option.some_inj.1 h)
        exact ⟨[], rfl, .nil⟩
    | case3 a b c d l ih =>
        simp only [Option.bind_eq_bind, Option.bind_eq_some_iff, Option.some_inj,
          Prod.mk.injEq] at h
        obtain ⟨u, hu, ⟨us', rest'⟩, hl, rfl, rfl⟩ := h
        obtain ⟨raw, rfl, hraw⟩ := ih hl
        exact ⟨'\\' :: 'u' :: a :: b :: c :: d :: raw, rfl, .unicode hu hraw⟩
    | case4 e l _ ih =>
        simp only [Option.bind_eq_bind, Option.bind_eq_some_iff, Option.some_inj,
          Prod.mk.injEq] at h
        obtain ⟨c, hc, ⟨us', rest'⟩, hl, rfl, rfl⟩ := h
        obtain ⟨raw, rfl, hraw⟩ := ih hl
        exact ⟨'\\' :: e :: raw, rfl, .escape hc hraw⟩
    | case5 => exact absurd h (by simp)
    | case6 c l hquote _ _ hc ih =>
        simp only [Option.bind_eq_bind, Option.bind_eq_some_iff, Option.some_inj,
          Prod.mk.injEq] at h
        obtain ⟨⟨us', rest'⟩, hl, rfl, rfl⟩ := h
        obtain ⟨raw, rfl, hraw⟩ := ih hl
        rw [not_or, Bool.not_eq_true] at hc
        exact ⟨c :: raw, rfl, .plain hquote hc.1 hc.2 hraw⟩
  · rintro ⟨raw, rfl, hraw⟩
    induction hraw with
    | nil => rfl
    | @plain c raw us hquote hslash hcontrol _ ih =>
        rw [List.cons_append, scanString, if_neg (by simp [hslash, hcontrol]), ih]
        · rfl
        · exact fun h => hquote h
        · exact fun _ _ _ _ _ h _ => hslash h
        · exact fun _ _ h _ => hslash h
    | @escape e c raw us he _ ih =>
        rw [List.cons_append, List.cons_append, scanString, he, Option.bind_eq_bind,
          Option.bind_some, ih]
        · rfl
        · rintro a b d f l rfl -
          exact absurd he (by simp [escape?])
    | @unicode a b c d u raw us hu _ ih =>
        simp only [List.cons_append, scanString, hu, ih]
        rfl

/-! ### The lexer -/

section

variable {strtod : List Char → Option (Option Int64)}

/-- A character of a number is no space and no quote. -/
theorem isNumber_eq_true {c : Char} (h : isNumber c = true) : isSpace c = false ∧ c ≠ '"' := by
  constructor
  · by_contra hspace
    have hcases : c = ' ' ∨ c = '\t' ∨ c = '\n' ∨ c = '\r' := by
      simpa only [isSpace, Bool.not_eq_false, Bool.or_eq_true, decide_eq_true_eq, or_assoc]
        using hspace
    rcases hcases with rfl | rfl | rfl | rfl <;> exact absurd h (by decide)
  · rintro rfl
    exact absurd h (by decide)

/-- A character of punctuation starts nothing else. -/
theorem punct?_eq_some {c : Char} {t : Token} (h : punct? c = some t) :
    isSpace c = false ∧ c ≠ '"' ∧ isNumber c = false := by
  unfold punct? at h
  split at h
  case h_7 => exact absurd h (by simp)
  all_goals decide

/-- A word is read as such. -/
theorem lex_word {w : List Char} {t : Token} (h : (w, t) ∈ words) (fuel : ℕ) (l : List Char) :
    0 < w.length ∧ lex strtod (fuel + 1) (w ++ l) = (lex strtod fuel l).map (t :: ·) := by
  have hcases : (w, t) = ("null".toList, .null) ∨ (w, t) = ("true".toList, .bool true) ∨
      (w, t) = ("false".toList, .bool false) := by
    simpa [words] using h
  rcases hcases with h | h | h <;> obtain ⟨rfl, rfl⟩ := Prod.mk.inj h <;> exact ⟨by decide, rfl⟩

/-- What the lexer reads is in the grammar. -/
theorem lexes_of_lex {fuel : ℕ} {l : List Char} {ts : List Token}
    (h : lex strtod fuel l = some ts) : Lexes strtod l ts := by
  induction fuel generalizing l ts with
  | zero =>
      cases l with
      | nil =>
          obtain rfl := Option.some_inj.1 h
          exact .nil
      | cons c l => exact absurd h (by simp [lex])
  | succ fuel ih =>
      cases l with
      | nil =>
          obtain rfl := Option.some_inj.1 h
          exact .nil
      | cons c l =>
          rw [lex] at h
          split_ifs at h with hspace hquote hnumber
          · exact .space hspace (ih h)
          · obtain ⟨⟨us, rest⟩, hscan, h⟩ := Option.bind_eq_some_iff.1 h
            obtain ⟨ts', hts', rfl⟩ := Option.map_eq_some_iff.1 h
            obtain ⟨raw, rfl, hraw⟩ := scanString_eq_some.1 hscan
            rw [hquote]
            exact .string hraw (ih hts')
          · obtain ⟨t, ht, h⟩ := Option.bind_eq_some_iff.1 h
            obtain ⟨ts', hts', rfl⟩ := Option.map_eq_some_iff.1 h
            rw [← List.takeWhile_append_dropWhile (p := isNumber) (l := l), ← List.cons_append]
            refine .number (by simp) ?_ ?_ ht (ih hts')
            · intro d hd
              rcases List.mem_cons.1 hd with rfl | hd
              · exact hnumber
              · exact List.mem_takeWhile_imp hd
            · intro d hd
              have hhead := List.head?_dropWhile_not isNumber l
              rw [hd] at hhead
              simpa using hhead
          · cases hp : punct? c with
            | some t =>
                rw [hp] at h
                obtain ⟨ts', hts', rfl⟩ := Option.map_eq_some_iff.1 h
                exact .punct hp (ih hts')
            | none =>
                rw [hp] at h
                obtain ⟨⟨w, t⟩, hw, h⟩ := Option.bind_eq_some_iff.1 h
                obtain ⟨ts', hts', rfl⟩ := Option.map_eq_some_iff.1 h
                have hpre : w.isPrefixOf (c :: l) = true := by simpa using List.find?_some hw
                obtain ⟨rest, hrest⟩ := List.isPrefixOf_iff_prefix.1 hpre
                rw [← hrest, List.drop_left] at hts'
                rw [← hrest]
                exact .word (List.mem_of_find?_eq_some hw) (ih hts')

/-- With enough fuel the lexer reads whatever is in the grammar. -/
theorem lex_of_lexes {fuel : ℕ} {l : List Char} {ts : List Token} (h : Lexes strtod l ts)
    (hfuel : l.length ≤ fuel) : lex strtod fuel l = some ts := by
  induction h generalizing fuel with
  | nil => cases fuel <;> rfl
  | @space c l ts hspace _ ih =>
      obtain ⟨fuel, rfl⟩ : ∃ n, fuel = n + 1 := ⟨fuel - 1, by simp at hfuel; omega⟩
      rw [lex, if_pos hspace]
      exact ih (by simpa using hfuel)
  | @punct c t l ts hp _ ih =>
      obtain ⟨fuel, rfl⟩ : ∃ n, fuel = n + 1 := ⟨fuel - 1, by simp at hfuel; omega⟩
      obtain ⟨hspace, hquote, hnumber⟩ := punct?_eq_some hp
      rw [lex, if_neg (by simp [hspace]), if_neg hquote, if_neg (by simp [hnumber]), hp]
      dsimp only
      rw [ih (by simpa using hfuel), Option.map_some]
  | @word w t l ts hw _ ih =>
      obtain ⟨hpos, -⟩ : 0 < w.length ∧ lex strtod 1 (w ++ l) = (lex strtod 0 l).map (t :: ·) :=
        lex_word hw 0 l
      rw [List.length_append] at hfuel
      obtain ⟨fuel, rfl⟩ : ∃ n, fuel = n + 1 := ⟨fuel - 1, by omega⟩
      rw [(lex_word hw fuel l).2, ih (by omega), Option.map_some]
  | @number lit t l ts hne hlit hl ht _ ih =>
      cases lit with
      | nil => exact absurd rfl hne
      | cons c lit =>
          obtain ⟨fuel, rfl⟩ : ∃ n, fuel = n + 1 := ⟨fuel - 1, by simp at hfuel; omega⟩
          have hc := hlit c (List.mem_cons_self ..)
          obtain ⟨hspace, hquote⟩ := isNumber_eq_true hc
          have hall : ∀ d ∈ lit, isNumber d = true := fun d hd =>
            hlit d (List.mem_cons_of_mem _ hd)
          have hspan : (lit ++ l).takeWhile isNumber = lit ∧
              (lit ++ l).dropWhile isNumber = l := by
            rw [List.takeWhile_append_of_pos hall, List.dropWhile_append_of_pos hall]
            cases l with
            | nil => simp
            | cons d l =>
                have hd := hl d rfl
                simp [hd]
          rw [List.cons_append, lex, if_neg (by simp [hspace]), if_neg hquote, if_pos hc,
            hspan.1, hspan.2, ht, Option.bind_some, ih (by simp at hfuel; omega), Option.map_some]
  | @string raw us l ts hraw _ ih =>
      obtain ⟨fuel, rfl⟩ : ∃ n, fuel = n + 1 := ⟨fuel - 1, by simp at hfuel; omega⟩
      have hscan : scanString (raw ++ '"' :: l) = some (us, l) :=
        scanString_eq_some.2 ⟨raw, rfl, hraw⟩
      rw [List.cons_append, lex, if_neg (by decide), if_pos rfl, hscan, Option.bind_some]
      dsimp only
      rw [ih (by simp at hfuel; omega), Option.map_some]

/-- **The lexer follows the grammar.** -/
theorem lex_eq_some {fuel : ℕ} {l : List Char} {ts : List Token} (hfuel : l.length ≤ fuel) :
    lex strtod fuel l = some ts ↔ Lexes strtod l ts :=
  ⟨lexes_of_lex, fun h => lex_of_lexes h hfuel⟩

/-- **When a text is parsed**: its tokens make up one value. -/
theorem parse_eq_some {text : List Char} {v : Value} : parse strtod text = some v ↔
    ∃ ts, Lexes strtod text ts ∧ ts.foldlM State.step (.value []) = some (.after v []) := by
  have hresult : ∀ s : State, s.result? = some v ↔ s = .after v [] := by
    intro s
    unfold State.result?
    split
    · simp
    · rename_i hne
      exact ⟨fun h => absurd h (by simp), fun h => absurd h (hne v)⟩
  simp only [parse, Option.bind_eq_bind, Option.bind_eq_some_iff, lex_eq_some (le_refl _), hresult]
  constructor
  · rintro ⟨ts, hts, s, hs, rfl⟩
    exact ⟨ts, hts, hs⟩
  · rintro ⟨ts, hts, hs⟩
    exact ⟨ts, hts, _, hs, rfl⟩

/-- A row of digits is the literal of its number. -/
theorem readInteger_of_digits {ds : List Char} (hne : ds ≠ []) (hds : ds.all Char.isDigit = true)
    (hlt : Nat.ofDigitChars 10 ds 0 < 2 ^ 63) :
    readInteger ds = some (Int64.ofInt (Nat.ofDigitChars 10 ds 0)) := by
  have hdigits : readDigits (2 ^ 63) ds = some (Nat.ofDigitChars 10 ds 0) :=
    if_pos ⟨hne, hds, hlt⟩
  unfold readInteger
  split
  · exact absurd (List.all_eq_true.1 hds '-' (List.mem_cons_self ..)) (by decide)
  · exact absurd (List.all_eq_true.1 hds '+' (List.mem_cons_self ..)) (by decide)
  · rw [hdigits, Option.map_some]

/-- **A natural number below `2 ^ 63`** is read back from its digits. -/
theorem Lexes.natural {n : ℕ} (hn : n < 2 ^ 63) {l : List Char} {ts : List Token}
    (hl : ∀ c ∈ l.head?, isNumber c = false) (h : Lexes strtod l ts) :
    Lexes strtod ((toString n).toList ++ l) (.integer (Int64.ofInt n) :: ts) := by
  have hlist : (toString n).toList = Nat.toDigits 10 n := by simp
  have hdigit : ∀ c ∈ Nat.toDigits 10 n, c.isDigit = true := fun c hc =>
    Nat.isDigit_of_mem_toDigits (by decide) (by decide) hc
  have hread := readInteger_of_digits Nat.toDigits_ne_nil (List.all_eq_true.2 hdigit)
    (by rwa [Nat.ofDigitChars_ten_toDigits])
  rw [Nat.ofDigitChars_ten_toDigits] at hread
  rw [hlist]
  refine .number Nat.toDigits_ne_nil (fun c hc => ?_) hl (by rw [readNumber, hread]) h
  simp [isNumber, hdigit c hc]

/-- **Every string of a text stands in it between quotes**, with more tokens behind it. -/
theorem Lexes.exists_of_string {l : List Char} {ts : List Token} (h : Lexes strtod l ts)
    {s : String} (hs : .string s ∈ ts) :
    ∃ pre raw us rest ts', l = pre ++ '"' :: raw ++ '"' :: rest ∧
      Raw raw us ∧ s = String.ofList (decode us) ∧ Lexes strtod rest ts' := by
  induction h with
  | nil => exact absurd hs (by simp)
  | @space c l ts _ _ ih =>
      obtain ⟨pre, raw, us, rest, ts', rfl, h⟩ := ih hs
      exact ⟨c :: pre, raw, us, rest, ts', by simp, h⟩
  | @punct c t l ts hp _ ih =>
      rcases List.mem_cons.1 hs with rfl | hs
      · unfold punct? at hp
        split at hp <;> exact absurd hp (by simp)
      · obtain ⟨pre, raw, us, rest, ts', rfl, h⟩ := ih hs
        exact ⟨c :: pre, raw, us, rest, ts', by simp, h⟩
  | @word w t l ts hw _ ih =>
      rcases List.mem_cons.1 hs with rfl | hs
      · exact absurd hw (by simp [words])
      · obtain ⟨pre, raw, us, rest, ts', rfl, h⟩ := ih hs
        exact ⟨w ++ pre, raw, us, rest, ts', by simp, h⟩
  | @number lit t l ts _ _ _ ht _ ih =>
      rcases List.mem_cons.1 hs with rfl | hs
      · unfold readNumber at ht
        split at ht
        · exact absurd ht (by simp)
        · exact absurd ht (by simp)
      · obtain ⟨pre, raw, us, rest, ts', rfl, h⟩ := ih hs
        exact ⟨lit ++ pre, raw, us, rest, ts', by simp, h⟩
  | @string raw us l ts hraw hl ih =>
      rcases List.mem_cons.1 hs with hs | hs
      · exact ⟨[], raw, us, l, ts, by simp, hraw, Token.string.inj hs, hl⟩
      · obtain ⟨pre, raw', us', rest, ts', rfl, h⟩ := ih hs
        exact ⟨'"' :: raw ++ '"' :: pre, raw', us', rest, ts', by simp, h⟩

end

/-! ### Escapes -/

/-- Whether a character cannot stand for itself in a string. -/
def isSpecial (c : Char) : Bool := c = '"' || c = '\\' || isControl c

/-- Characters that are not special stand for themselves. -/
theorem raw_of_not_special {l : List Char} (h : ∀ c ∈ l, isSpecial c = false) :
    Raw l (l.map .char) := by
  induction l with
  | nil => exact .nil
  | cons c l ih =>
      have hc := h c (List.mem_cons_self ..)
      simp only [isSpecial, Bool.or_eq_false_iff, decide_eq_false_iff_not] at hc
      exact .plain hc.1.1 hc.1.2 hc.2 (ih fun d hd => h d (List.mem_cons_of_mem _ hd))

theorem decode_map_char (l : List Char) : decode (l.map .char) = l := by
  unfold decode
  induction l with
  | nil => rfl
  | cons c l ih => rw [List.map_cons, decodeFrom, ih]; rfl

theorem length_decodeFrom_le (high : Option ℕ) (us : List CodeUnit) :
    (decodeFrom high us).length ≤ (unpaired high).length + us.length := by
  induction us generalizing high with
  | nil => simp [decodeFrom]
  | cons u us ih =>
      have hnone := ih none
      cases u with
      | char c =>
          rw [decodeFrom, List.length_append, List.length_cons, List.length_cons]
          simp only [unpaired, Option.map_none, Option.toList_none, List.length_nil] at hnone
          omega
      | utf16 u =>
          have hhigh := ih (some u)
          simp only [unpaired, Option.map_none, Option.map_some, Option.toList_none,
            Option.toList_some, List.length_nil, List.length_singleton] at hnone hhigh
          rw [decodeFrom.eq_def, List.length_cons]
          dsimp only
          split_ifs
          · rw [List.length_append, List.length_cons]
            omega
          · rw [List.length_append]
            omega
          · cases high with
            | none =>
                rw [List.length_cons]
                omega
            | some h =>
                rw [List.length_cons]
                omega

/-- A string is at most as long as its text. -/
theorem Raw.length_le {raw : List Char} {us : List CodeUnit} (h : Raw raw us) :
    us.length ≤ raw.length := by
  induction h with
  | nil => exact le_refl _
  | plain _ _ _ _ ih =>
      rw [List.length_cons, List.length_cons]
      omega
  | escape _ _ ih =>
      simp only [List.length_cons]
      omega
  | unicode _ _ ih =>
      simp only [List.length_cons]
      omega

/-- **An escape makes the text longer than the string.** -/
theorem Raw.length_lt {raw : List Char} {us : List CodeUnit} (h : Raw raw us) (hmem : '\\' ∈ raw) :
    us.length < raw.length := by
  induction h with
  | nil => exact absurd hmem (by simp)
  | @plain c raw us _ hslash _ _ ih =>
      rcases List.mem_cons.1 hmem with rfl | hmem
      · exact absurd rfl hslash
      · have hlt := ih hmem
        rw [List.length_cons, List.length_cons]
        omega
  | escape _ hraw _ =>
      have hle := hraw.length_le
      simp only [List.length_cons]
      omega
  | unicode _ hraw _ =>
      have hle := hraw.length_le
      simp only [List.length_cons]
      omega

/-- Without escapes, a string is its text. -/
theorem Raw.decode_eq {raw : List Char} {us : List CodeUnit} (h : Raw raw us) (hmem : '\\' ∉ raw) :
    decode us = raw ∧ ∀ c ∈ raw, isSpecial c = false := by
  induction h with
  | nil => exact ⟨rfl, fun c hc => absurd hc (by simp)⟩
  | @plain c raw us hquote hslash hcontrol _ ih =>
      obtain ⟨hdecode, hall⟩ := ih fun hm => hmem (List.mem_cons_of_mem _ hm)
      refine ⟨congrArg (c :: ·) hdecode, fun d hd => ?_⟩
      rcases List.mem_cons.1 hd with rfl | hd
      · simp [isSpecial, hquote, hslash, hcontrol]
      · exact hall d hd
  | escape _ _ _ => exact absurd (List.mem_cons_self ..) hmem
  | unicode _ _ _ => exact absurd (List.mem_cons_self ..) hmem

/-- **A string that is special somewhere is shorter than its text.** -/
theorem Raw.length_decode_lt {raw : List Char} {us : List CodeUnit} (h : Raw raw us) {c : Char}
    (hc : c ∈ decode us) (hspecial : isSpecial c = true) :
    '\\' ∈ raw ∧ (decode us).length < raw.length := by
  have hmem : '\\' ∈ raw := by
    by_contra hmem
    obtain ⟨hdecode, hall⟩ := h.decode_eq hmem
    rw [hall c (hdecode ▸ hc)] at hspecial
    exact absurd hspecial (by simp)
  have hle := length_decodeFrom_le none us
  have hlt := h.length_lt hmem
  simp only [unpaired, Option.map_none, Option.toList_none, List.length_nil] at hle
  refine ⟨hmem, ?_⟩
  rw [decode]
  omega

/-- A quote is no hexadecimal digit. -/
theorem hex4?_ne_quote {a b c d : Char} {u : ℕ} (h : hex4? a b c d = some u) :
    a ≠ '"' ∧ b ≠ '"' ∧ c ≠ '"' ∧ d ≠ '"' := by
  have hquote : hexDigit? '"' = none := by decide
  simp only [hex4?, Option.bind_eq_bind, Option.bind_eq_some_iff] at h
  obtain ⟨a', ha, b', hb, c', hc, d', hd, -⟩ := h
  refine ⟨?_, ?_, ?_, ?_⟩ <;> rintro rfl <;> simp_all

/-- A quote inside a text is escaped, so that the text could as well begin after it. -/
theorem Raw.of_append {v m : List Char} {us : List CodeUnit} (h : Raw (v ++ '"' :: m) us) :
    ∃ us', Raw m us' := by
  generalize hl : v ++ '"' :: m = l at h
  induction h generalizing v with
  | nil => exact absurd hl (by simp)
  | @plain c raw us hquote _ _ _ ih =>
      cases v with
      | nil => exact absurd (List.cons.inj hl).1.symm hquote
      | cons a v => exact ih (List.cons.inj hl).2
  | @escape e c raw us _ hraw ih =>
      match v, hl with
      | [], hl => exact absurd (List.cons.inj hl).1 (by decide)
      | [_], hl =>
          obtain ⟨-, hl⟩ := List.cons.inj hl
          obtain ⟨-, rfl⟩ := List.cons.inj hl
          exact ⟨us, hraw⟩
      | _ :: _ :: v, hl =>
          exact ih (List.cons.inj (List.cons.inj hl).2).2
  | @unicode a b c d u raw us hu hraw ih =>
      obtain ⟨ha, hb, hc, hd⟩ := hex4?_ne_quote hu
      match v, hl with
      | [], hl => exact absurd (List.cons.inj hl).1 (by decide)
      | [_], hl => exact absurd (List.cons.inj (List.cons.inj hl).2).1 (by decide)
      | [_, _], hl => exact absurd (Option.some_inj.1 (congrArg (·[2]?) hl)).symm ha
      | [_, _, _], hl => exact absurd (Option.some_inj.1 (congrArg (·[3]?) hl)).symm hb
      | [_, _, _, _], hl => exact absurd (Option.some_inj.1 (congrArg (·[4]?) hl)).symm hc
      | [_, _, _, _, _], hl => exact absurd (Option.some_inj.1 (congrArg (·[5]?) hl)).symm hd
      | _ :: _ :: _ :: _ :: _ :: _ :: v, hl =>
          simp only [List.cons_append, List.cons.injEq] at hl
          obtain ⟨-, -, -, -, -, -, hl⟩ := hl
          exact ih hl

/-- The text of a string ends at the first quote that no escape comes before. -/
theorem Raw.eq_of_append {m rest p q : List Char} {us : List CodeUnit} (h : Raw m us)
    (hp : ∀ c ∈ p, c ≠ '"' ∧ c ≠ '\\') (heq : m ++ '"' :: rest = p ++ '"' :: q) :
    m = p ∧ rest = q := by
  induction p generalizing m us with
  | nil =>
      cases h with
      | nil => exact ⟨rfl, (List.cons.inj heq).2⟩
      | plain hquote _ _ _ => exact absurd (List.cons.inj heq).1 hquote
      | escape _ _ => exact absurd (List.cons.inj heq).1 (by decide)
      | unicode _ _ => exact absurd (List.cons.inj heq).1 (by decide)
  | cons a p ih =>
      obtain ⟨hquote, hslash⟩ := hp a (List.mem_cons_self ..)
      have hp' : ∀ c ∈ p, c ≠ '"' ∧ c ≠ '\\' := fun c hc => hp c (List.mem_cons_of_mem _ hc)
      cases h with
      | nil => exact absurd (List.cons.inj heq).1.symm hquote
      | plain _ _ _ hraw =>
          obtain ⟨rfl, heq'⟩ := List.cons.inj heq
          obtain ⟨rfl, rfl⟩ := ih hraw hp' heq'
          exact ⟨rfl, rfl⟩
      | escape _ _ => exact absurd (List.cons.inj heq).1.symm hslash
      | unicode _ _ => exact absurd (List.cons.inj heq).1.symm hslash

/-! ### Strings of a value -/

/-- A string is a value, or one that it holds. -/
inductive Mentions (w : String) : Value → Prop
  | string : Mentions w (.string w)
  | item {v : Value} {items : List Value} : v ∈ items → Mentions w v → Mentions w (.array items)
  | field {k : String} {v : Value} {fields : List (String × Value)} : (k, v) ∈ fields →
      Mentions w v → Mentions w (.object fields)

/-- The values in an open array or object. -/
def Frame.values : Frame → List Value
  | array items => items
  | member fields _ => fields.map Prod.snd

/-- The values that have been read. -/
def State.values : State → List Value
  | value stack => stack.flatMap Frame.values
  | arrayOpened stack => stack.flatMap Frame.values
  | objectOpened stack => stack.flatMap Frame.values
  | key fields stack => fields.map Prod.snd ++ stack.flatMap Frame.values
  | colon fields _ stack => fields.map Prod.snd ++ stack.flatMap Frame.values
  | after v stack => v :: stack.flatMap Frame.values

theorem State.mem_values_value {items : List Value} {stack : List Frame} {v : Value} :
    v ∈ (value (.array items :: stack)).values ↔ v ∈ items ∨ v ∈ stack.flatMap Frame.values := by
  rw [values, List.flatMap_cons, List.mem_append, Frame.values]

theorem State.mem_values_key {fields : List (String × Value)} {stack : List Frame} {v : Value} :
    v ∈ (key fields stack).values ↔
      v ∈ fields.map Prod.snd ∨ v ∈ stack.flatMap Frame.values := by
  rw [values, List.mem_append]

theorem State.mem_values_after_array {u : Value} {items : List Value} {stack : List Frame}
    {v : Value} : v ∈ (after u (.array items :: stack)).values ↔
      v = u ∨ v ∈ items ∨ v ∈ stack.flatMap Frame.values := by
  rw [values, List.mem_cons, List.flatMap_cons, List.mem_append, Frame.values]

theorem State.mem_values_after_member {u : Value} {fields : List (String × Value)} {k : String}
    {stack : List Frame} {v : Value} : v ∈ (after u (.member fields k :: stack)).values ↔
      v = u ∨ v ∈ fields.map Prod.snd ∨ v ∈ stack.flatMap Frame.values := by
  rw [values, List.mem_cons, List.flatMap_cons, List.mem_append, Frame.values]

/-- Where a value is due, only a string token brings a string. -/
theorem State.mem_values_open? {stack : List Frame} {t : Token} {s : State} {w : String}
    (h : open? stack t = some s) {v : Value} (hv : v ∈ s.values) (hw : Mentions w v) :
    t = .string w ∨ v ∈ stack.flatMap Frame.values := by
  cases t with
  | string s' =>
      obtain rfl := Option.some_inj.1 h
      rcases List.mem_cons.1 hv with rfl | hv
      · cases hw
        exact Or.inl rfl
      · exact Or.inr hv
  | null | bool _ | integer _ | double _ =>
      obtain rfl := Option.some_inj.1 h
      rcases List.mem_cons.1 hv with rfl | hv
      · exact absurd hw (by rintro ⟨⟩)
      · exact Or.inr hv
  | beginArray | beginObject =>
      obtain rfl := Option.some_inj.1 h
      exact Or.inr hv
  | _ => exact absurd h (by simp [open?])

/-- **One token brings one string**, and only a string token does. -/
theorem State.mentions_step {s s' : State} {t : Token} {w : String} (h : s.step t = some s')
    {v : Value} (hv : v ∈ s'.values) (hw : Mentions w v) :
    t = .string w ∨ ∃ v' ∈ s.values, Mentions w v' := by
  unfold step at h
  split at h
  · rcases mem_values_open? h hv hw with ht | hv
    · exact Or.inl ht
    · exact Or.inr ⟨v, hv, hw⟩
  · obtain rfl := Option.some_inj.1 h
    rcases List.mem_cons.1 hv with rfl | hv
    · cases hw with
      | item hv _ => exact absurd hv (by simp)
    · exact Or.inr ⟨v, hv, hw⟩
  · rcases mem_values_open? h hv hw with ht | hv
    · exact Or.inl ht
    · exact Or.inr ⟨v, hv, hw⟩
  · obtain rfl := Option.some_inj.1 h
    rcases List.mem_cons.1 hv with rfl | hv
    · cases hw with
      | field hv _ => exact absurd hv (by simp)
    · exact Or.inr ⟨v, hv, hw⟩
  · obtain rfl := Option.some_inj.1 h
    exact Or.inr ⟨v, hv, hw⟩
  · obtain rfl := Option.some_inj.1 h
    exact Or.inr ⟨v, hv, hw⟩
  · obtain rfl := Option.some_inj.1 h
    exact Or.inr ⟨v, hv, hw⟩
  · obtain rfl := Option.some_inj.1 h
    refine Or.inr ⟨v, ?_, hw⟩
    rw [mem_values_value, List.mem_append, List.mem_singleton] at hv
    rw [mem_values_after_array]
    tauto
  · obtain rfl := Option.some_inj.1 h
    rcases List.mem_cons.1 hv with rfl | hv
    · cases hw with
      | @item v' _ hv' hw' =>
          rw [List.mem_append, List.mem_singleton] at hv'
          exact Or.inr ⟨v', mem_values_after_array.2 (by tauto), hw'⟩
    · exact Or.inr ⟨v, mem_values_after_array.2 (Or.inr (Or.inr hv)), hw⟩
  · obtain rfl := Option.some_inj.1 h
    refine Or.inr ⟨v, ?_, hw⟩
    rw [mem_values_key, List.map_append, List.mem_append, List.map_singleton,
      List.mem_singleton] at hv
    rw [mem_values_after_member]
    tauto
  · obtain rfl := Option.some_inj.1 h
    rcases List.mem_cons.1 hv with rfl | hv
    · cases hw with
      | @field k' v' _ hv' hw' =>
          have hmem := List.mem_map_of_mem (f := Prod.snd) hv'
          rw [List.map_append, List.mem_append, List.map_singleton, List.mem_singleton] at hmem
          exact Or.inr ⟨v', mem_values_after_member.2 (by tauto), hw'⟩
    · exact Or.inr ⟨v, mem_values_after_member.2 (Or.inr (Or.inr hv)), hw⟩
  · exact absurd h (by simp)

/-- The strings of what the machine holds are those of the tokens. -/
theorem State.mem_of_mentions {ts : List Token} {s s' : State} {w : String}
    (h : ts.foldlM step s = some s') {v : Value} (hv : v ∈ s'.values) (hw : Mentions w v) :
    .string w ∈ ts ∨ ∃ v' ∈ s.values, Mentions w v' := by
  induction ts generalizing s with
  | nil =>
      obtain rfl := Option.some_inj.1 h
      exact Or.inr ⟨v, hv, hw⟩
  | cons t ts ih =>
      rw [List.foldlM_cons] at h
      obtain ⟨s₁, hs₁, h⟩ := Option.bind_eq_some_iff.1 h
      rcases ih h with hmem | ⟨v₁, hv₁, hw₁⟩
      · exact Or.inl (List.mem_cons_of_mem _ hmem)
      · rcases mentions_step hs₁ hv₁ hw₁ with rfl | hex
        · exact Or.inl (List.mem_cons_self ..)
        · exact Or.inr hex

/-- **Every string of a value is one of its text.** -/
theorem Mentions.of_parse {strtod : List Char → Option (Option Int64)} {text : List Char}
    {v : Value} (h : parse strtod text = some v) {w : String} (hw : Mentions w v) :
    ∃ ts, Lexes strtod text ts ∧ .string w ∈ ts := by
  obtain ⟨ts, hts, hfold⟩ := parse_eq_some.1 h
  rcases State.mem_of_mentions hfold (List.mem_cons_self ..) hw with hmem | ⟨v', hv', -⟩
  · exact ⟨ts, hts, hmem⟩
  · exact absurd hv' (by simp [State.values])

end Json
