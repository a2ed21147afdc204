import LineCensus.Language.Catalog
import LineCensus.Proofs.Count.ScanRun
import LineCensus.Proofs.Text.Lines

/-!
# Counting joined texts

A text can be counted in parts. Where the first part ends a line, its lines come first,
and all that the second part needs to know of them is the block they leave open: its lines
have the kinds that they have behind that block.
-/
namespace LineCensus

/-- How many lines there are of each of the given kinds. -/
def Tally.ofKinds (kinds : List LineKind) : Tally :=
  ⟨kinds.count .code, kinds.count .comment, kinds.count .blank⟩

theorem Tally.ofKinds_cons (kind : LineKind) (kinds : List LineKind) :
    ofKinds (kind :: kinds) = ofKind kind + ofKinds kinds := by
  cases kind <;> simp [ofKinds, ofKind, Tally.ext_iff, Nat.add_comm]

namespace Count

open LineCensus.Text

theorem countedLines_of_ne_nil {text : List Char} (h : text ≠ []) (incomplete : Bool) :
    countedLines text incomplete =
      if incomplete then splitLines text else (splitLines text).dropLast := by
  rw [countedLines, if_neg h]

/-- Without incomplete lines all lines but the last one count. -/
theorem countedLines_false (text : List Char) :
    countedLines text false = (splitLines text).dropLast := by
  by_cases h : text = []
  · rw [h]
    rfl
  · rw [countedLines_of_ne_nil h, if_neg Bool.false_ne_true]

/-- The lines that count in a joined text are those of its parts, when the first part
ends a line and the second one is not empty. -/
theorem countedLines_append {a b : List Char} (hb : b ≠ []) (hends : EndsLine a b)
    (incomplete : Bool) :
    countedLines (a ++ b) incomplete = countedLines a false ++ countedLines b incomplete := by
  have ha : a ≠ [] := by
    rintro rfl
    simp [EndsLine] at hends
  rw [countedLines_of_ne_nil (by simp [ha]), countedLines_of_ne_nil ha,
    countedLines_of_ne_nil hb, splitLines_append hends]
  cases incomplete with
  | true => rfl
  | false =>
    simp only [Bool.false_eq_true, if_false]
    rw [List.dropLast_append_of_ne_nil (splitLines_ne_nil b)]

namespace Classifier

/-- The kinds of some lines, each without its margins, where `carry` is open at the first. -/
def kinds (k : Classifier) (carry : Carry) : List (List Char) → List LineKind
  | [] => []
  | line :: lines =>
    let (kind, next) := k.classifyLine carry (trimMargin line)
    kind :: k.kinds next lines

/-- The block that some lines leave open, where `carry` is open at the first. -/
def carryBehind (k : Classifier) (carry : Carry) : List (List Char) → Carry
  | [] => carry
  | line :: lines => k.carryBehind (k.classifyLine carry (trimMargin line)).2 lines

/-- Reading lines adds their kinds to the tally. Of the lines before they see only the block
left open. -/
theorem readLines_eq (k : Classifier) (r : Reading) (lines : List (List Char)) :
    k.readLines r lines =
      ⟨r.tally + .ofKinds (k.kinds r.carry lines), k.carryBehind r.carry lines⟩ := by
  induction lines generalizing r with
  | nil => exact congrArg (Reading.mk · r.carry) (Tally.add_zero r.tally).symm
  | cons line lines ih =>
    rw [readLines_cons, ih, kinds, carryBehind, Tally.ofKinds_cons, ← Tally.add_assoc]
    rfl

theorem read_eq (k : Classifier) (text : List Char) (incomplete : Bool) :
    k.read text incomplete =
      ⟨.ofKinds (k.kinds .nothing (countedLines text incomplete)),
        k.carryBehind .nothing (countedLines text incomplete)⟩ := by
  rw [read, readLines_eq, Tally.zero_add]

/-- A text whose first part ends a line has the tally of that part and that of the second
part's lines, classified without their margins one after the other, from the block on that
the first part leaves open. If it leaves none open, this is the sum of the two parts' own
tallies. -/
theorem count_append (k : Classifier) (incomplete : Bool) (a b : List Char) (hb : b ≠ [])
    (hends : EndsLine a b) :
    let before := (splitLines a).dropLast
    let behind := if incomplete then splitLines b else (splitLines b).dropLast
    k.count a false = .ofKinds (k.kinds .nothing before) ∧
      k.count (a ++ b) incomplete =
        k.count a false + .ofKinds (k.kinds (k.carryBehind .nothing before) behind) ∧
      (k.carryBehind .nothing before = .nothing →
        k.count (a ++ b) incomplete = k.count a false + k.count b incomplete) := by
  intro before behind
  have hbehind : countedLines b incomplete = behind := countedLines_of_ne_nil hb incomplete
  have ha : k.read a false =
      ⟨.ofKinds (k.kinds .nothing before), k.carryBehind .nothing before⟩ := by
    rw [read_eq, countedLines_false]
  have hsum : k.count (a ++ b) incomplete =
      k.count a false + .ofKinds (k.kinds (k.carryBehind .nothing before) behind) := by
    rw [count, read, countedLines_append hb hends, readLines_append, hbehind, readLines_eq, count,
      ← read, ha]
  have hown : k.count b incomplete = .ofKinds (k.kinds .nothing behind) := by
    rw [count, read_eq, hbehind]
  refine ⟨congrArg Reading.tally ha, hsum, fun hclosed => ?_⟩
  rw [hsum, hclosed, hown]

/-- A comment that a carriage return cuts is read on behind it, and a text that leaves
nothing open is counted on its own. -/
theorem count_append_at_return :
    (ofDefinition Catalog.definitions[0]).count ("x /* y\r".toList ++ "z */\nw".toList) true =
        (ofDefinition Catalog.definitions[0]).count "x /* y\r".toList false + ⟨1, 1, 0⟩ ∧
      (ofDefinition Catalog.definitions[0]).count ("// x\r".toList ++ "y\n".toList) false =
        (ofDefinition Catalog.definitions[0]).count "// x\r".toList false +
          (ofDefinition Catalog.definitions[0]).count "y\n".toList false := by
  constructor
  · have hcomment := (count_append (ofDefinition Catalog.definitions[0]) true "x /* y\r".toList
      "z */\nw".toList (by decide) (by decide)).2.1
    refine hcomment.trans (congrArg (_ + ·) ?_)
    decide +kernel
  · exact (count_append _ false "// x\r".toList "y\n".toList (by decide) (by decide)).2.2
      (by decide +kernel)

end Classifier

end Count

end LineCensus
