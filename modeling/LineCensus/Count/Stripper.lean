import LineCensus.Count.Marker
import LineCensus.Language.Definition

/-!
# Removing the literals of a line

A literal is an opening token, a body and a closing token on one line. In the body a
backslash takes the next character with it, and no other character of the closing
token may stand there. A line is cut from left to right into literals and single
characters; at each place the first enclosure that fits takes its longest literal.
What is left of the line are the characters outside all literals.
-/
namespace LineCensus.Count

open LineCensus.Text

/-- A literal's opening token, which is never empty, and its closing token. -/
structure Enclosure where
  opening : Marker
  closing : List Char
deriving DecidableEq

namespace Enclosure

/-- The text after `closing`, if that begins here, else what was found before. -/
def closedHere (closing s : List Char) (found : Option (List Char)) : Option (List Char) :=
  if closing.isPrefixOf s then some (s.drop closing.length) else found

/-- The text after the last place where the body that starts here may be closed.
The last place wins, since a later one makes a longer literal. -/
def afterClosing (closing : List Char) (found : Option (List Char)) :
    List Char → Option (List Char)
  | [] => closedHere closing [] found
  | [c] =>
    let found := closedHere closing [c] found
    if c = '\\' ∨ c ∈ closing then found else afterClosing closing found []
  | c :: d :: rest =>
    let found := closedHere closing (c :: d :: rest) found
    if c = '\\' then afterClosing closing found rest
    else if c ∈ closing then found
    else afterClosing closing found (d :: rest)

theorem suffix_of_closedHere {closing s t u : List Char} {found : Option (List Char)}
    (hs : s <:+ u) (hf : ∀ v, found = some v → v <:+ u)
    (h : closedHere closing s found = some t) : t <:+ u := by
  unfold closedHere at h
  split at h
  · cases h; exact (List.drop_suffix _ _).trans hs
  · exact hf t h

/-- What follows a literal is an end of the text in which the body was sought. -/
theorem suffix_of_afterClosing {closing s t u : List Char} {found : Option (List Char)}
    (hs : s <:+ u) (hf : ∀ v, found = some v → v <:+ u)
    (h : afterClosing closing found s = some t) : t <:+ u := by
  fun_induction afterClosing closing found s with
  | case1 found => exact suffix_of_closedHere hs hf h
  | case2 found c found' _ => exact suffix_of_closedHere hs hf h
  | case3 found c found' _ ih =>
    exact ih (List.nil_suffix) (fun v hv => suffix_of_closedHere hs hf hv) h
  | case4 found d rest found' ih =>
    have hr : rest <:+ '\\' :: d :: rest :=
      (List.suffix_cons d rest).trans (List.suffix_cons _ _)
    exact ih (hr.trans hs) (fun v hv => suffix_of_closedHere hs hf hv) h
  | case5 found c d rest found' _ _ => exact suffix_of_closedHere hs hf h
  | case6 found c d rest found' _ _ ih =>
    exact ih ((List.suffix_cons c _).trans hs) (fun v hv => suffix_of_closedHere hs hf hv) h

/-- The text after the longest literal at the start of `s`. -/
def rest? (e : Enclosure) (s : List Char) : Option (List Char) :=
  if e.opening.begins s then afterClosing e.closing none (s.drop e.opening.chars.length)
  else none

theorem suffix_of_rest? {e : Enclosure} {s t : List Char} (h : e.rest? s = some t) :
    t <:+ s.drop e.opening.chars.length := by
  unfold rest? at h
  split at h
  · exact suffix_of_afterClosing (List.suffix_refl _) (by simp) h
  · cases h

theorem length_of_rest? {e : Enclosure} {s t : List Char} (h : e.rest? s = some t) :
    t.length < s.length := by
  have hpos : 0 < e.opening.chars.length := List.length_pos_iff.2 e.opening.chars_ne_nil
  have hlen := (suffix_of_rest? h).length_le
  have hs : s ≠ [] := by
    rintro rfl
    obtain ⟨a, l, hal⟩ := List.exists_cons_of_ne_nil e.opening.chars_ne_nil
    simp [rest?, Marker.begins, hal] at h
  have := List.length_pos_iff.2 hs
  simp only [List.length_drop] at hlen
  omega

end Enclosure

/-- A piece of a line: a literal, or a character outside all literals. -/
inductive Piece
  | literal (text : List Char)
  | plain (c : Char)
deriving DecidableEq, Repr

namespace Piece

/-- The part of the line that the piece stands for. -/
def text : Piece → List Char
  | literal text => text
  | plain c => [c]

/-- What is left of the piece. -/
def kept : Piece → List Char
  | literal _ => []
  | plain c => [c]

end Piece

/-- The enclosures of a language's literals, in the order in which they are tried. -/
structure Stripper where
  enclosures : List Enclosure := []
deriving DecidableEq

namespace Stripper

/-- The stripper that leaves every line as it is. -/
def identity : Stripper := {}

/-- The text after the literal at the start of `s`. -/
def rest? (p : Stripper) (s : List Char) : Option (List Char) :=
  p.enclosures.findSome? (·.rest? s)

theorem length_of_rest? {p : Stripper} {s t : List Char} (h : p.rest? s = some t) :
    t.length < s.length := by
  obtain ⟨e, -, he⟩ := List.exists_of_findSome?_eq_some h
  exact Enclosure.length_of_rest? he

theorem suffix_of_rest? {p : Stripper} {s t : List Char} (h : p.rest? s = some t) :
    t <:+ s := by
  obtain ⟨e, -, he⟩ := List.exists_of_findSome?_eq_some h
  exact (Enclosure.suffix_of_rest? he).trans (List.drop_suffix _ _)

/-- Cuts the line; the pieces already cut come last one first. -/
def piecesFrom (p : Stripper) (done : List Piece) : List Char → List Piece
  | [] => done.reverse
  | c :: s =>
    match h : p.rest? (c :: s) with
    | some t =>
      have : t.length < s.length + 1 := length_of_rest? h
      p.piecesFrom (.literal ((c :: s).take ((c :: s).length - t.length)) :: done) t
    | none => p.piecesFrom (.plain c :: done) s
termination_by s => s.length

/-- The line, cut into literals and the characters between them. -/
def pieces (p : Stripper) (line : List Char) : List Piece := p.piecesFrom [] line

theorem piecesFrom_eq (p : Stripper) (done : List Piece) (s : List Char) :
    p.piecesFrom done s = done.reverse ++ p.pieces s := by
  suffices ∀ n, ∀ s : List Char, s.length ≤ n → ∀ done,
      p.piecesFrom done s = done.reverse ++ p.pieces s from this _ s (Nat.le_refl _) done
  intro n
  induction n with
  | zero => intro s hs done; obtain rfl := List.eq_nil_of_length_eq_zero (Nat.le_zero.1 hs)
            simp [pieces, piecesFrom]
  | succ n ih =>
    intro s hs done
    cases s with
    | nil => simp [pieces, piecesFrom]
    | cons c s =>
      rw [pieces, piecesFrom, piecesFrom]
      split
      · rename_i t h
        have := length_of_rest? h
        have hle : t.length ≤ n := by omega
        rw [ih t hle, ih t hle]; simp
      · have hle : s.length ≤ n := by simp at hs; omega
        rw [ih s hle, ih s hle]; simp

@[simp] theorem pieces_nil (p : Stripper) : p.pieces [] = [] := by simp [pieces, piecesFrom]

theorem pieces_of_rest? {p : Stripper} {s t : List Char} (h : p.rest? s = some t) :
    p.pieces s = .literal (s.take (s.length - t.length)) :: p.pieces t := by
  cases s with
  | nil => exact absurd (length_of_rest? h) (by simp)
  | cons c s =>
    conv => lhs; rw [pieces, piecesFrom]
    split
    · rename_i u hu; cases hu.symm.trans h; simp [piecesFrom_eq]
    · rename_i hu; cases hu.symm.trans h

theorem pieces_of_no_rest {p : Stripper} {c : Char} {s : List Char}
    (h : p.rest? (c :: s) = none) : p.pieces (c :: s) = .plain c :: p.pieces s := by
  conv => lhs; rw [pieces, piecesFrom]
  split
  · rename_i u hu; cases hu.symm.trans h
  · simp [piecesFrom_eq]

/-- The pieces make up the line. -/
theorem flatMap_text_pieces (p : Stripper) (s : List Char) :
    (p.pieces s).flatMap Piece.text = s := by
  suffices ∀ n, ∀ s : List Char, s.length ≤ n → (p.pieces s).flatMap Piece.text = s from
    this _ s (Nat.le_refl _)
  intro n
  induction n with
  | zero => intro s hs; obtain rfl := List.eq_nil_of_length_eq_zero (Nat.le_zero.1 hs); simp
  | succ n ih =>
    intro s hs
    cases s with
    | nil => simp
    | cons c s =>
      cases h : p.rest? (c :: s) with
      | some t =>
        have := length_of_rest? h
        obtain ⟨u, hu⟩ := suffix_of_rest? h
        rw [pieces_of_rest? h, List.flatMap_cons, ih t (by omega), ← hu]
        simp [Piece.text]
      | none =>
        rw [pieces_of_no_rest h, List.flatMap_cons, ih s (by simp at hs; omega)]
        rfl

/-- The characters outside all literals; those already found come last one first. -/
def keptFrom (p : Stripper) (done : List Char) : List Char → List Char
  | [] => done.reverse
  | c :: s =>
    match h : p.rest? (c :: s) with
    | some t =>
      have : t.length < s.length + 1 := length_of_rest? h
      p.keptFrom done t
    | none => p.keptFrom (c :: done) s
termination_by s => s.length

/-- The line without its literals. -/
def strip (p : Stripper) (line : List Char) : List Char := p.keptFrom [] line

theorem keptFrom_eq (p : Stripper) (done s : List Char) :
    p.keptFrom done s = done.reverse ++ (p.pieces s).flatMap Piece.kept := by
  suffices ∀ n, ∀ s : List Char, s.length ≤ n → ∀ done,
      p.keptFrom done s = done.reverse ++ (p.pieces s).flatMap Piece.kept from
    this _ s (Nat.le_refl _) done
  intro n
  induction n with
  | zero => intro s hs done; obtain rfl := List.eq_nil_of_length_eq_zero (Nat.le_zero.1 hs)
            simp [keptFrom]
  | succ n ih =>
    intro s hs done
    cases s with
    | nil => simp [keptFrom]
    | cons c s =>
      rw [keptFrom]
      split
      · rename_i t h
        have := length_of_rest? h
        rw [ih t (by omega), pieces_of_rest? h]; simp [Piece.kept]
      · rename_i h
        rw [ih s (by simp at hs; omega), pieces_of_no_rest h]; simp [Piece.kept]

/-- What is left of a line is what is left of its pieces. -/
theorem strip_eq_flatMap_kept (p : Stripper) (line : List Char) :
    p.strip line = (p.pieces line).flatMap Piece.kept := by simp [strip, keptFrom_eq]

@[simp] theorem strip_nil (p : Stripper) : p.strip [] = [] := by simp [strip_eq_flatMap_kept]

theorem byteLength_flatMap_kept_le (ps : List Piece) :
    byteLength (ps.flatMap Piece.kept) ≤ byteLength (ps.flatMap Piece.text) := by
  induction ps with
  | nil => simp
  | cons q ps ih => cases q <;> simp [Piece.kept, Piece.text] <;> omega

/-- Stripping never makes a line longer. -/
theorem byteLength_strip_le (p : Stripper) (s : List Char) :
    byteLength (p.strip s) ≤ byteLength s := by
  have h := byteLength_flatMap_kept_le (p.pieces s)
  rwa [flatMap_text_pieces, ← strip_eq_flatMap_kept] at h

/-- Why a language's literals cannot be removed. -/
inductive Fault
  /-- The pair at this position, counted from zero, has an empty opening token. -/
  | emptyStart (index : Nat)
deriving DecidableEq, Repr

def Fault.message : Fault → String
  | .emptyStart index => "line string #" ++ toString index ++ " has an empty start token"

/-- The enclosures of the pairs, the first of which has the given index. -/
def compileFrom (index : Nat) : List Delimiters → Except Fault (List Enclosure)
  | [] => .ok []
  | d :: ds =>
    match Marker.ofString? d.start with
    | none => .error (.emptyStart index)
    | some opening => (compileFrom (index + 1) ds).map (⟨opening, d.stop.toList⟩ :: ·)

def compile (pairs : List Delimiters) : Except Fault Stripper :=
  (compileFrom 0 pairs).map (⟨·⟩)

end Stripper

end LineCensus.Count
