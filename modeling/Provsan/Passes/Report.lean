/-
**The trail of a report.**

A call that was inlined has a chain of locations: its own, and for every frame it was inlined into
the location of the call there.  `getDiagMessage` writes the first one and, for each of the others,
a bracket around it; the bracket of a frame is closed by the call that writes the next one, or by
the outermost call when there is no next one.  What is written is taken apart into places and
brackets here, and followed with the bracket that is pending.

Main definitions:

* `Provsan.DebugFrame`, `Provsan.DebugLoc.frame`, `Provsan.DebugLoc.outer` — the frames of a
  location;
* `Provsan.Piece`, `Provsan.pieces` — what `getDiagMessage` writes, piece by piece;
* `Provsan.pending` — whether a bracket is open after some pieces.

Main results:

* `Provsan.join_pieces` — the pieces are the text;
* `Provsan.pending_pieces` — a call leaves the pending bracket as it found it;
* `Provsan.getDiagMessage_trail` — **the trail is complete and well bracketed**.
-/

import Provsan.Passes.Post

set_option relaxedAutoImplicit false
set_option autoImplicit false

namespace Provsan

/-! ### Frames -/

/-- The place of one frame. -/
structure DebugFrame where
  filename : String
  line : ℕ
  col : ℕ
  deriving DecidableEq

def DebugFrame.text (F : DebugFrame) : String := position F.filename F.line F.col

/-- The innermost frame of a location. -/
def DebugLoc.frame : DebugLoc → DebugFrame
  | .loc filename line col => ⟨filename, line, col⟩
  | .inlinedAt filename line col _ => ⟨filename, line, col⟩

/-- The frames a location was inlined into, from the inside out. -/
def DebugLoc.outer : DebugLoc → List DebugFrame
  | .loc _ _ _ => []
  | .inlinedAt _ _ _ outer => outer.frame :: outer.outer

section

variable (filename : String) (line col : ℕ) (outer : DebugLoc)

@[simp] theorem DebugLoc.frame_loc : (loc filename line col).frame = ⟨filename, line, col⟩ := rfl

@[simp] theorem DebugLoc.frame_inlinedAt :
    (inlinedAt filename line col outer).frame = ⟨filename, line, col⟩ := rfl

@[simp] theorem DebugLoc.outer_loc : (loc filename line col).outer = [] := rfl

@[simp] theorem DebugLoc.outer_inlinedAt :
    (inlinedAt filename line col outer).outer = outer.frame :: outer.outer := rfl

end

/-! ### Pieces -/

/-- What is written at one time. -/
inductive Piece
  | place (F : DebugFrame)
  | opening
  | closing
  deriving DecidableEq

def Piece.text : Piece → String
  | place F => F.text
  | opening => "\n\tInlined @[ "
  | closing => " ]"

def Piece.frame? : Piece → Option DebugFrame
  | place F => some F
  | _ => none

/-- The pieces that `getDiagMessage` writes. -/
def pieces : DebugLoc → Bool → List Piece
  | .loc filename line col, _ => [.place ⟨filename, line, col⟩]
  | .inlinedAt filename line col outer, first =>
      [.place ⟨filename, line, col⟩] ++ (if first then [] else [.closing]) ++ [.opening] ++
        pieces outer false ++ if first then [.closing] else []

/-- Whether a bracket is open after some pieces, when one was open before them or not; `none` when a
bracket opens inside another one, or one closes that was not open. -/
def pending : List Piece → Bool → Option Bool
  | [], isOpen => some isOpen
  | .place _ :: l, isOpen => pending l isOpen
  | .opening :: l, isOpen => if isOpen then none else pending l true
  | .closing :: l, isOpen => if isOpen then pending l false else none

/-- The pieces are the text. -/
theorem join_pieces (Loc : DebugLoc) (first : Bool) :
    String.join ((pieces Loc first).map Piece.text) = getDiagMessage Loc first := by
  induction Loc generalizing first with
  | loc filename line col => simp [pieces, getDiagMessage, Piece.text, DebugFrame.text]
  | inlinedAt filename line col outer ih =>
      have hrest := ih false
      cases first with
      | true =>
          simp [pieces, getDiagMessage, Piece.text, DebugFrame.text, hrest, String.append_assoc]
      | false =>
          simp [-String.reduceAppend, pieces, getDiagMessage, Piece.text, DebugFrame.text, hrest,
            String.append_assoc]

theorem pending_append (l l' : List Piece) (isOpen : Bool) :
    pending (l ++ l') isOpen = (pending l isOpen).bind (pending l') := by
  induction l generalizing isOpen with
  | nil => rfl
  | cons p l ih =>
      cases p with
      | place F => exact ih isOpen
      | opening => cases isOpen <;> simp [pending, ih]
      | closing => cases isOpen <;> simp [pending, ih]

/-- **A call leaves the pending bracket as it found it**: only the outermost call finds none. -/
theorem pending_pieces (Loc : DebugLoc) (first : Bool) :
    pending (pieces Loc first) (!first) = some (!first) := by
  induction Loc generalizing first with
  | loc filename line col => rfl
  | inlinedAt filename line col outer ih =>
      have hrest : pending (pieces outer false) true = some true := ih false
      cases first with
      | true => simp [pieces, pending, pending_append, hrest]
      | false => simp [pieces, pending, hrest]

/-- The frames of the pieces are those of the location. -/
theorem frames_pieces (Loc : DebugLoc) (first : Bool) :
    (pieces Loc first).filterMap Piece.frame? = Loc.frame :: Loc.outer := by
  induction Loc generalizing first with
  | loc filename line col => rfl
  | inlinedAt filename line col outer ih =>
      have hrest := ih false
      cases first with
      | true => simp [pieces, List.filterMap_cons, Piece.frame?, hrest]
      | false => simp [pieces, List.filterMap_cons, Piece.frame?, hrest]

/-! ### The trail -/

/-- A frame in its bracket. -/
def bracketed (F : DebugFrame) : String := "\n\tInlined @[ " ++ F.text ++ " ]"

/-- The bracket of the first frame of a call that is not the outermost one is closed by the caller,
or by the next call. -/
theorem getDiagMessage_false (Loc : DebugLoc) : getDiagMessage Loc false ++ " ]" =
    Loc.frame.text ++ " ]" ++ String.join (Loc.outer.map bracketed) := by
  induction Loc with
  | loc filename line col =>
      simp [getDiagMessage, DebugFrame.text]
  | inlinedAt filename line col outer ih =>
      calc getDiagMessage (.inlinedAt filename line col outer) false ++ " ]"
          = position filename line col ++ " ]" ++ "\n\tInlined @[ " ++
              (getDiagMessage outer false ++ " ]") := by
            simp [getDiagMessage, String.append_assoc]
        _ = position filename line col ++ " ]" ++ "\n\tInlined @[ " ++
              (outer.frame.text ++ " ]" ++ String.join (outer.outer.map bracketed)) := by
            rw [ih]
        _ = _ := by
            simp [-String.reduceAppend, DebugFrame.text, bracketed, String.append_assoc]

/-- The innermost frame, and the others in their brackets. -/
theorem getDiagMessage_true (Loc : DebugLoc) : getDiagMessage Loc true =
    Loc.frame.text ++ String.join (Loc.outer.map bracketed) := by
  cases Loc with
  | loc filename line col =>
      simp [getDiagMessage, DebugFrame.text]
  | inlinedAt filename line col outer =>
      calc getDiagMessage (.inlinedAt filename line col outer) true
          = position filename line col ++ "\n\tInlined @[ " ++
              (getDiagMessage outer false ++ " ]") := by
            simp [getDiagMessage, String.append_assoc]
        _ = position filename line col ++ "\n\tInlined @[ " ++
              (outer.frame.text ++ " ]" ++ String.join (outer.outer.map bracketed)) := by
            rw [getDiagMessage_false]
        _ = _ := by
            simp [-String.reduceAppend, DebugFrame.text, bracketed, String.append_assoc]

/-- **The trail of a report is complete and well bracketed.**  The text is the place of the
innermost frame, and then for each of the others, from the inside out, its place in one bracket.
Piece by piece, every bracket that opens is closed before the next one opens and none is left open,
and the places are those of the frames, each once and in their order. -/
theorem getDiagMessage_trail (Loc : DebugLoc) :
    getDiagMessage Loc true = Loc.frame.text ++ String.join
      (Loc.outer.map fun F => "\n\tInlined @[ " ++ F.text ++ " ]") ∧
    String.join ((pieces Loc true).map Piece.text) = getDiagMessage Loc true ∧
    pending (pieces Loc true) false = some false ∧
    (pieces Loc true).filterMap Piece.frame? = Loc.frame :: Loc.outer :=
  ⟨getDiagMessage_true Loc, join_pieces Loc true, pending_pieces Loc true, frames_pieces Loc true⟩

example : getDiagMessage (.inlinedAt "a.rs" 3 7 (.inlinedAt "b.rs" 20 0 (.loc "c.rs" 1 1))) true =
    "a.rs:3:7\n\tInlined @[ b.rs:20 ]\n\tInlined @[ c.rs:1:1 ]" := by rfl

end Provsan
