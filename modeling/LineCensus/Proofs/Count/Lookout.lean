import LineCensus.Proofs.Count.ScanRun
import LineCensus.Proofs.Loop

/-!
# Scans with two cells

A scan may keep what it waits for in two cells, one for the closing token of a block comment and
one for that of a block string, each empty while no such block is open. The cells could both be
filled; but a turn fills one only when it finds both empty, and what it puts there is the closing
token of the block that it opens. With at most one token awaited, such a scan comes to what the
scan with one open block comes to.
-/
namespace LineCensus.Count

open LineCensus.Text

/-- The closing tokens of the block comment and of the block string that are open, empty where
none is. -/
structure Awaited where
  comment : List Char := []
  string : List Char := []
deriving DecidableEq, Repr

namespace Awaited

/-- What a line counts as before any of it has been read. -/
def kind (a : Awaited) : LineKind :=
  if a.comment ≠ [] then .comment else if a.string ≠ [] then .code else .blank

def ofCarry : Carry → Awaited
  | .nothing => {}
  | .comment m => { comment := m.chars }
  | .string m => { string := m.chars }

theorem kind_ofCarry (carry : Carry) : (ofCarry carry).kind = carry.kind := by
  cases carry with
  | nothing => rfl
  | comment m => simp [ofCarry, kind, Carry.kind, m.chars_ne_nil]
  | string m => simp [ofCarry, kind, Carry.kind, m.chars_ne_nil]

theorem kind_eq_blank_iff {a : Awaited} : a.kind = .blank ↔ a = {} := by
  obtain ⟨comment, string⟩ := a
  unfold kind
  by_cases hcomment : comment = [] <;> by_cases hstring : string = [] <;>
    simp [hcomment, hstring]

end Awaited

/-- At most one of the two tokens is awaited. -/
def Awaited.Exclusive (a : Awaited) : Prop := a.comment = [] ∨ a.string = []

/-- The token awaited behind a block's opening, empty if it has no closing token. -/
def Block.awaited (b : Block) : List Char := b.closing.elim [] Marker.chars

theorem Awaited.ofCarry_ofComment (b : Block) :
    ofCarry (.ofComment b) = { comment := b.awaited } := by
  rcases b with ⟨opening, _ | closing⟩ <;> rfl

theorem Awaited.ofCarry_ofString (b : Block) :
    ofCarry (.ofString b) = { string := b.awaited } := by
  rcases b with ⟨opening, _ | closing⟩ <;> rfl

/-- A block that is opened, as a comment or as a string. -/
inductive Opening
  | comment (block : Block)
  | string (block : Block)
deriving DecidableEq

namespace Opening

def block : Opening → Block
  | comment b | string b => b

/-- What is awaited behind the opening. -/
def awaited : Opening → Awaited
  | comment b => { comment := b.awaited }
  | string b => { string := b.awaited }

theorem exclusive_awaited (o : Opening) : o.awaited.Exclusive := by
  cases o with
  | comment b => exact Or.inr rfl
  | string b => exact Or.inl rfl

end Opening

/-- A line being scanned: what is left of its text, the byte column reached, the kind found so
far and the tokens that are awaited there. -/
structure Lookout where
  buffer : List Char
  column : ℕ := 0
  kind : LineKind
  awaited : Awaited
deriving DecidableEq

namespace Lookout

/-- A scan at the head of a line. -/
def start (a : Awaited) (line : List Char) : Lookout :=
  { buffer := line, kind := a.kind, awaited := a }

/-- A turn goes on behind the token that is awaited, that of a comment before that of a string,
or else behind the first opening token of the line without its literals. -/
def turn (k : Classifier) (s : Lookout) : Turn Lookout (LineKind × Awaited) :=
  if s.awaited.comment ≠ [] then
    match occurrenceFrom s.awaited.comment s.column s.buffer with
    | some place =>
      .next { s with
        column := place + byteLength s.awaited.comment
        awaited := { s.awaited with comment := [] } }
    | none => .last (s.kind, s.awaited)
  else if s.awaited.string ≠ [] then
    match occurrenceFrom s.awaited.string s.column s.buffer with
    | some place =>
      .next { s with
        column := place + byteLength s.awaited.string
        awaited := { s.awaited with string := [] } }
    | none => .last (s.kind, s.awaited)
  else if k.startsComment s.buffer then .last (.comment, s.awaited)
  else
    let buffer := k.stripper.strip s.buffer
    match Block.first? s.column buffer k.blockComments with
    | some (place, b) =>
      .next
        { buffer
          column := place + b.opening.width
          kind := if place = 0 then .comment else .code
          awaited := { s.awaited with comment := b.awaited } }
    | none =>
      match Block.first? s.column buffer k.blockStrings with
      | some (place, b) =>
        .next
          { buffer
            column := place + b.opening.width
            kind := .code
            awaited := { s.awaited with string := b.awaited } }
      | none => .last (.code, s.awaited)

/-- The block that a turn opens, if it opens one. -/
def opening? (k : Classifier) (s : Lookout) : Option Opening :=
  if s.awaited = {} ∧ k.startsComment s.buffer = false then
    match Block.first? s.column (k.stripper.strip s.buffer) k.blockComments with
    | some (_, b) => some (.comment b)
    | none =>
      (Block.first? s.column (k.stripper.strip s.buffer) k.blockStrings).map fun p => .string p.2
  else none

/-- What a turn that does not end the scan can do: it takes the awaited token out of its cell,
or puts one into a cell when both are empty. -/
inductive Goes (k : Classifier) (s : Lookout) : Lookout → Prop
  | endComment (place : ℕ) (hopen : s.awaited.comment ≠ []) (hplace : s.column ≤ place) :
      Goes k s { s with
        column := place + byteLength s.awaited.comment
        awaited := { s.awaited with comment := [] } }
  | endString (place : ℕ) (hcomment : s.awaited.comment = []) (hopen : s.awaited.string ≠ [])
      (hplace : s.column ≤ place) :
      Goes k s { s with
        column := place + byteLength s.awaited.string
        awaited := {} }
  | opens (o : Opening) (place : ℕ) (kind : LineKind) (hnone : s.awaited = {})
      (hopening : s.opening? k = some o) (hplace : s.column ≤ place) (hkind : kind ≠ .blank) :
      Goes k s ⟨k.stripper.strip s.buffer, place + o.block.opening.width, kind, o.awaited⟩

/-- How a turn can end the scan: the block that is open goes on behind the line, or nothing
opens on the rest of it. -/
inductive Halts (k : Classifier) (s : Lookout) : LineKind × Awaited → Prop
  | unclosed (hopen : s.awaited ≠ {}) : Halts k s (s.kind, s.awaited)
  | outside (kind : LineKind) (hnone : s.awaited = {}) (hopening : s.opening? k = none)
      (hkind : kind ≠ .blank) : Halts k s (kind, {})

variable {k : Classifier} {s t : Lookout}

theorem opening?_of_ne (h : s.awaited ≠ {}) : s.opening? k = none := if_neg fun hs => h hs.1

/-- A turn does one of the things that it can do. -/
theorem turn_cases (k : Classifier) (s : Lookout) :
    (∃ r, s.turn k = .last r ∧ s.Halts k r) ∨ ∃ t, s.turn k = .next t ∧ s.Goes k t := by
  obtain ⟨buffer, column, kind, comment, string⟩ := s
  unfold turn
  dsimp only
  by_cases hcomment : comment = []
  · subst hcomment
    rw [if_neg (not_not.2 rfl)]
    by_cases hstring : string = []
    · subst hstring
      rw [if_neg (not_not.2 rfl)]
      by_cases hline : k.startsComment buffer = true
      · rw [if_pos hline]
        exact Or.inl ⟨_, rfl, .outside .comment rfl (by simp [opening?, hline]) (by simp)⟩
      · rw [if_neg hline]
        cases hcomments : Block.first? column (k.stripper.strip buffer) k.blockComments with
        | some p =>
          refine Or.inr ⟨_, rfl, .opens (.comment p.2) p.1 _ rfl ?_
            (Block.le_of_first? hcomments) (by split <;> simp)⟩
          simp [opening?, hline, hcomments]
        | none =>
          cases hstrings : Block.first? column (k.stripper.strip buffer) k.blockStrings with
          | some p =>
            refine Or.inr ⟨_, rfl, .opens (.string p.2) p.1 _ rfl ?_
              (Block.le_of_first? hstrings) (by simp)⟩
            simp [opening?, hline, hcomments, hstrings]
          | none =>
            refine Or.inl ⟨_, rfl, .outside .code rfl ?_ (by simp)⟩
            simp [opening?, hline, hcomments, hstrings]
    · rw [if_pos hstring]
      cases hfound : occurrenceFrom string column buffer with
      | some place =>
        exact Or.inr ⟨_, rfl, .endString place rfl hstring (le_of_occurrenceFrom hstring hfound)⟩
      | none => exact Or.inl ⟨_, rfl, .unclosed (by simp [hstring])⟩
  · rw [if_pos hcomment]
    cases hfound : occurrenceFrom comment column buffer with
    | some place =>
      exact Or.inr ⟨_, rfl, .endComment place hcomment (le_of_occurrenceFrom hcomment hfound)⟩
    | none => exact Or.inl ⟨_, rfl, .unclosed (by simp [hcomment])⟩

theorem goes_of_turn (h : s.turn k = .next t) : s.Goes k t := by
  rcases turn_cases k s with ⟨r, hr, -⟩ | ⟨u, hu, hgoes⟩
  · cases hr.symm.trans h
  · cases hu.symm.trans h
    exact hgoes

theorem halts_of_turn {r : LineKind × Awaited} (h : s.turn k = .last r) : s.Halts k r := by
  rcases turn_cases k s with ⟨u, hu, hhalts⟩ | ⟨t, ht, -⟩
  · cases hu.symm.trans h
    exact hhalts
  · cases ht.symm.trans h

/-- A turn that does not end the scan leaves less of the line, since it moves on over a text
that has not grown. -/
theorem Goes.remaining_lt (h : s.Goes k t) (hs : s.column < byteLength s.buffer) :
    byteLength t.buffer - t.column < byteLength s.buffer - s.column := by
  cases h with
  | endComment place hopen hplace =>
    have hpos := byteLength_pos hopen
    dsimp only
    omega
  | endString place hcomment hopen hplace =>
    have hpos := byteLength_pos hopen
    dsimp only
    omega
  | opens o place kind hnone hopening hplace hkind =>
    have hpos := o.block.opening.width_pos
    have hstrip := k.stripper.byteLength_strip_le s.buffer
    dsimp only
    omega

/-- Scans to the end of the line. -/
def scan (k : Classifier) (s : Lookout) : LineKind × Awaited :=
  if hs : s.column < byteLength s.buffer then
    match h : s.turn k with
    | .last r => r
    | .next t =>
      have := (goes_of_turn h).remaining_lt hs
      t.scan k
  else (s.kind, s.awaited)
termination_by byteLength s.buffer - s.column

/-- The places at which the turns of a scan begin. -/
def places (k : Classifier) (s : Lookout) : List Lookout :=
  if hs : s.column < byteLength s.buffer then
    s :: match h : s.turn k with
      | .last _ => []
      | .next t =>
        have := (goes_of_turn h).remaining_lt hs
        t.places k
  else []
termination_by byteLength s.buffer - s.column

/-- The blocks that the turns of a scan open. -/
def openings (k : Classifier) (s : Lookout) : List Opening := (s.places k).filterMap (opening? k)

theorem scan_of_end (hs : ¬ s.column < byteLength s.buffer) :
    s.scan k = (s.kind, s.awaited) := by
  rw [scan, dif_neg hs]

theorem scan_of_last {r : LineKind × Awaited} (hs : s.column < byteLength s.buffer)
    (h : s.turn k = .last r) : s.scan k = r := by
  rw [scan, dif_pos hs]
  split
  · rename_i hl
    cases hl.symm.trans h
    rfl
  · rename_i hn
    cases hn.symm.trans h

theorem scan_of_next (hs : s.column < byteLength s.buffer) (h : s.turn k = .next t) :
    s.scan k = t.scan k := by
  rw [scan, dif_pos hs]
  split
  · rename_i hl
    cases hl.symm.trans h
  · rename_i hn
    cases hn.symm.trans h
    rfl

theorem places_of_end (hs : ¬ s.column < byteLength s.buffer) : s.places k = [] := by
  rw [places, dif_neg hs]

theorem places_of_last {r : LineKind × Awaited} (hs : s.column < byteLength s.buffer)
    (h : s.turn k = .last r) : s.places k = [s] := by
  rw [places, dif_pos hs]
  split
  · rfl
  · rename_i hn
    cases hn.symm.trans h

theorem places_of_next (hs : s.column < byteLength s.buffer) (h : s.turn k = .next t) :
    s.places k = s :: t.places k := by
  rw [places, dif_pos hs]
  split
  · rename_i hl
    cases hl.symm.trans h
  · rename_i hn
    cases hn.symm.trans h
    rfl

theorem openings_of_end (hs : ¬ s.column < byteLength s.buffer) : s.openings k = [] := by
  rw [openings, places_of_end hs, List.filterMap_nil]

theorem openings_of_next (hs : s.column < byteLength s.buffer) (h : s.turn k = .next t) :
    s.openings k = (s.opening? k).toList ++ t.openings k := by
  rw [openings, places_of_next hs h, List.filterMap_cons, openings]
  cases s.opening? k <;> rfl

/-- Whatever every end of a scan has and every turn hands back, a whole scan has. -/
theorem scan_induction {P : Lookout → LineKind × Awaited → Prop}
    (ended : ∀ s, ¬ s.column < byteLength s.buffer → P s (s.kind, s.awaited))
    (halts : ∀ s r, s.column < byteLength s.buffer → s.turn k = .last r → P s r)
    (goes : ∀ s t, s.column < byteLength s.buffer → s.turn k = .next t → P t (t.scan k) →
      P s (t.scan k)) (s : Lookout) : P s (s.scan k) := by
  fun_induction scan k s with
  | case1 s hs r h => exact halts s r hs h
  | case2 s hs t h _ ih => exact goes s t hs h ih
  | case3 s hs => exact ended s hs

/-! ## What the turns keep -/

/-- What the head of a line has and every turn hands on, each place of the line's scan has, and
so has the place whose awaited tokens the line hands on. -/
theorem forall_mem_places {Q : Lookout → Prop} (hstep : ∀ s t, Q s → s.Goes k t → Q t)
    (hs : Q s) : (∀ u ∈ s.places k, Q u) ∧ ∃ u, Q u ∧ (s.scan k).2 = u.awaited := by
  refine scan_induction (k := k)
    (P := fun s r => Q s → (∀ u ∈ s.places k, Q u) ∧ ∃ u, Q u ∧ r.2 = u.awaited) ?_ ?_ ?_ s hs
  · intro s hend hq
    rw [places_of_end hend]
    exact ⟨by simp, s, hq, rfl⟩
  · intro s r hreach hturn hq
    rw [places_of_last hreach hturn]
    refine ⟨by simpa using hq, s, hq, ?_⟩
    cases halts_of_turn hturn with
    | unclosed hopen => rfl
    | outside kind hnone hopening hkind => exact hnone.symm
  · intro s t hreach hturn ih hq
    obtain ⟨hplaces, hlast⟩ := ih (hstep s t hq (goes_of_turn hturn))
    rw [places_of_next hreach hturn]
    exact ⟨List.forall_mem_cons.2 ⟨hq, hplaces⟩, hlast⟩

/-- Behind a turn only the block that it has opened is waited for. -/
theorem Goes.awaited_eq (h : s.Goes k t) (hs : s.awaited.Exclusive) :
    t.awaited = ((s.opening? k).map Opening.awaited).getD {} := by
  cases h with
  | endComment place hopen hplace =>
    have hne : s.awaited ≠ {} := fun heq => hopen (by rw [heq])
    have hstring : s.awaited.string = [] := hs.resolve_left hopen
    rw [opening?_of_ne hne]
    dsimp only
    rw [hstring]
    rfl
  | endString place hcomment hopen hplace =>
    have hne : s.awaited ≠ {} := fun heq => hopen (by rw [heq])
    rw [opening?_of_ne hne]
    rfl
  | opens o place kind hnone hopening hplace hkind =>
    rw [hopening]
    rfl

/-- No turn fills one cell while the other holds a token. -/
theorem Goes.exclusive (h : s.Goes k t) (hs : s.awaited.Exclusive) : t.awaited.Exclusive := by
  rw [h.awaited_eq hs]
  cases s.opening? k with
  | none => exact Or.inl rfl
  | some o => exact o.exclusive_awaited

/-- A line hands on nothing, or what the last block that it opens awaits, or, if it opens none,
what was awaited at its head. -/
theorem awaited_scan (hs : s.awaited.Exclusive) :
    (s.scan k).2 = {} ∨
      (s.scan k).2 = ((s.openings k).getLast?.map Opening.awaited).getD s.awaited := by
  refine scan_induction (k := k) (P := fun s r => s.awaited.Exclusive → r.2 = {} ∨
    r.2 = ((s.openings k).getLast?.map Opening.awaited).getD s.awaited) ?_ ?_ ?_ s hs
  · intro s hend _
    exact Or.inr (by rw [openings_of_end hend]; rfl)
  · intro s r hreach hturn _
    cases halts_of_turn hturn with
    | unclosed hopen =>
      refine Or.inr ?_
      rw [openings, places_of_last hreach hturn, List.filterMap_cons, opening?_of_ne hopen]
      rfl
    | outside kind hnone hopening hkind => exact Or.inl rfl
  · intro s t hreach hturn ih hexclusive
    have hgoes := goes_of_turn hturn
    rw [openings_of_next hreach hturn, List.getLast?_append]
    rcases ih (hgoes.exclusive hexclusive) with hnone | hlast
    · exact Or.inl hnone
    · rw [hgoes.awaited_eq hexclusive] at hlast
      rw [hlast]
      cases (t.openings k).getLast? with
      | some o => exact Or.inr rfl
      | none =>
        -- nothing opens any more: what the turn leaves awaited is handed on
        cases s.opening? k with
        | some o => exact Or.inr rfl
        | none => exact Or.inl rfl

end Lookout

/-! ## The scan with one open block -/

/-- A scan with its open block's token in the cell of its sort. -/
def Lookout.ofScan (s : Scan) : Lookout := ⟨s.buffer, s.column, s.kind, .ofCarry s.carry⟩

/-- A step as a turn. -/
def Step.lookout : Step → Turn Lookout (LineKind × Awaited)
  | .done kind carry => .last (kind, .ofCarry carry)
  | .next s => .next (.ofScan s)

namespace Lookout

variable {k : Classifier}

theorem start_ofCarry (carry : Carry) (line : List Char) :
    start (.ofCarry carry) line = ofScan (.start carry line) := by
  rw [start, Awaited.kind_ofCarry]
  rfl

/-- With at most one token awaited, a turn does what the step of the scan does. -/
theorem turn_ofScan {s : Scan} (h : k.Sound s) : (ofScan s).turn k = (k.step s).lookout := by
  cases hcarry : s.carry with
  | comment m =>
    simp only [turn, ofScan, hcarry, Awaited.ofCarry, Classifier.step, Classifier.stepInside]
    rw [if_pos m.chars_ne_nil]
    cases occurrenceFrom m.chars s.column s.buffer <;> rfl
  | string m =>
    simp only [turn, ofScan, hcarry, Awaited.ofCarry, Classifier.step, Classifier.stepInside]
    rw [if_neg (not_not.2 rfl), if_pos m.chars_ne_nil]
    cases occurrenceFrom m.chars s.column s.buffer <;> rfl
  | nothing =>
    simp only [turn, ofScan, hcarry, Awaited.ofCarry, Classifier.step, Classifier.stepOutside]
    rw [if_neg (not_not.2 rfl), if_neg (not_not.2 rfl)]
    by_cases hline : k.startsComment s.buffer = true
    · rw [if_pos hline, if_pos hline]
      rfl
    · rw [if_neg hline, if_neg hline, Classifier.buffer_strip h, Classifier.column_strip]
      cases Block.first? s.column (k.stripper.strip s.buffer) k.blockComments with
      | some p =>
        simp [Step.lookout, ofScan, Awaited.ofCarry_ofComment]
      | none =>
        cases Block.first? s.column (k.stripper.strip s.buffer) k.blockStrings with
        | some p =>
          simp [Step.lookout, ofScan, Awaited.ofCarry_ofString]
        | none => rfl

/-- With at most one token awaited, a scan with two cells comes to what the scan with one open
block comes to. -/
theorem scan_ofScan {s : Scan} (h : k.Sound s) :
    (ofScan s).scan k = ((k.scan s).1, .ofCarry (k.scan s).2) := by
  fun_induction Classifier.scan k s with
  | case1 s hs kind carry hstep =>
    exact scan_of_last (reaches_iff.1 hs) (by rw [turn_ofScan h, hstep]; rfl)
  | case2 s hs t hstep _ _ ih =>
    have hturn : (ofScan s).turn k = .next (ofScan t) := by
      rw [turn_ofScan h, hstep]
      rfl
    rw [scan_of_next (reaches_iff.1 hs) hturn]
    exact ih (Classifier.sound_of_moves h (Classifier.step_eq_next_iff.1 hstep))
  | case3 s hs => exact scan_of_end (mt reaches_iff.2 hs)

theorem scan_start_ofCarry (k : Classifier) (carry : Carry) (line : List Char) :
    (start (.ofCarry carry) line).scan k =
      ((k.classifyLine carry line).1, .ofCarry (k.classifyLine carry line).2) := by
  rw [start_ofCarry, scan_ofScan (k.sound_start carry line)]
  rfl

end Lookout

end LineCensus.Count
