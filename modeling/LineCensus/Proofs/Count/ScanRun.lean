import LineCensus.Count.Classifier
import LineCensus.Proofs.Count.Stripping
import LineCensus.Proofs.Text.Occurrence

/-!
# Runs of a scan

What one step of a scan can do, in terms of the text that lies ahead of it, and from
that what a whole scan keeps. A step is a closing or an opening that moves the scan on,
or one of three ends.
-/
namespace LineCensus.Count

open LineCensus.Text

namespace Scan

/-- A scan at the head of a line. -/
def start (carry : Carry) (line : List Char) : Scan :=
  { buffer := line, kind := carry.kind, carry }

/-- The text that a search from the column reached can see. -/
def ahead (s : Scan) : List Char := Text.ahead s.column s.buffer

/-- The column of the text ahead. -/
def boundary (s : Scan) : ℕ := (seek s.column 0 s.buffer).1

/-- The scan behind some of the text that lay ahead of it, with a new kind and block. -/
def past (s : Scan) (read : List Char) (kind : LineKind) (carry : Carry) : Scan :=
  { s with column := s.boundary + byteLength read, kind, carry }

section Past

variable (s : Scan) (read : List Char) (kind : LineKind) (carry : Carry)

@[simp] theorem buffer_past : (s.past read kind carry).buffer = s.buffer := rfl
@[simp] theorem column_past :
    (s.past read kind carry).column = s.boundary + byteLength read := rfl
@[simp] theorem kind_past : (s.past read kind carry).kind = kind := rfl
@[simp] theorem carry_past : (s.past read kind carry).carry = carry := rfl

end Past

@[simp] theorem ahead_start (carry : Carry) (line : List Char) :
    (start carry line).ahead = line := ahead_zero line

@[simp] theorem boundary_start (carry : Carry) (line : List Char) :
    (start carry line).boundary = 0 := by
  rw [boundary, start, seek_of_le (Nat.le_refl 0)]

@[simp] theorem buffer_start (carry : Carry) (line : List Char) :
    (start carry line).buffer = line := rfl
@[simp] theorem column_start (carry : Carry) (line : List Char) :
    (start carry line).column = 0 := rfl
@[simp] theorem kind_start (carry : Carry) (line : List Char) :
    (start carry line).kind = carry.kind := rfl
@[simp] theorem carry_start (carry : Carry) (line : List Char) :
    (start carry line).carry = carry := rfl

theorem exists_behind (s : Scan) : ∃ q, s.buffer = q ++ s.ahead ∧ s.boundary = byteLength q :=
  Text.exists_behind s.column s.buffer

theorem ahead_past {s : Scan} {read rest : List Char} (h : s.ahead = read ++ rest)
    (kind : LineKind) (carry : Carry) : (s.past read kind carry).ahead = rest := by
  obtain ⟨q, hq, hb⟩ := s.exists_behind
  rw [ahead, column_past, buffer_past, hq, h, hb, ← byteLength_append, ← List.append_assoc,
    ahead_byteLength]

/-- Behind what it has read, a scan stands at a boundary. -/
theorem boundary_past {s : Scan} {read rest : List Char} (h : s.ahead = read ++ rest)
    (kind : LineKind) (carry : Carry) :
    (s.past read kind carry).boundary = (s.past read kind carry).column := by
  obtain ⟨q, hq, hb⟩ := s.exists_behind
  rw [boundary, column_past, buffer_past, hq, h, hb, ← byteLength_append, ← List.append_assoc,
    seek_byteLength]

/-- Where the column is the column of the text ahead, the loop goes on exactly as long
as there is such text. -/
theorem reaches_iff_ahead {s : Scan} (h : s.boundary = s.column) :
    reaches s.column s.buffer = true ↔ s.ahead ≠ [] := by
  obtain ⟨q, hq, hb⟩ := s.exists_behind
  conv_lhs => rw [← h, hb, hq]
  exact reaches_byteLength q s.ahead

theorem reaches_past_iff {s : Scan} {read rest : List Char} (h : s.ahead = read ++ rest)
    (kind : LineKind) (carry : Carry) :
    reaches (s.past read kind carry).column (s.past read kind carry).buffer = true ↔
      rest ≠ [] := by
  rw [reaches_iff_ahead (boundary_past h kind carry), ahead_past h]

theorem reaches_start {carry : Carry} {line : List Char} :
    reaches (start carry line).column (start carry line).buffer = true ↔ line ≠ [] := by
  rw [reaches_iff_ahead (by simp), ahead_start]

end Scan

namespace Block

def openingChars (b : Block) : List Char := b.opening.chars

theorem openingChars_ne_nil (b : Block) : b.openingChars ≠ [] := b.opening.chars_ne_nil

/-- The first opening is the earliest opening token of the text ahead. -/
theorem first?_eq (column : ℕ) (line : List Char) (bs : List Block) :
    first? column line bs =
      (earliest? openingChars bs (Text.ahead column line)).map
        fun p => ((seek column 0 line).1 + byteLength p.1, p.2.1) := by
  induction bs with
  | nil => simp [first?]
  | cons b bs ih =>
    have hcons := earliest?_cons b.openingChars_ne_nil bs (Text.ahead column line)
    rw [first?, ih, occurrenceFrom_eq, hcons, show b.opening.chars = b.openingChars from rfl]
    cases cut b.openingChars (Text.ahead column line) with
    | none => rfl
    | some p =>
      cases earliest? openingChars bs (Text.ahead column line) with
      | none => rfl
      | some q =>
        simp only [Option.map_some, Nat.add_le_add_iff_left]
        split <;> rfl

end Block

namespace Classifier

variable {k : Classifier} {s t : Scan}

/-- A scan's note that its buffer has no literals left is true. -/
def Sound (k : Classifier) (s : Scan) : Prop :=
  s.settled = true → k.stripper.strip s.buffer = s.buffer

theorem classifyLine_eq (k : Classifier) (carry : Carry) (line : List Char) :
    k.classifyLine carry line = k.scan (.start carry line) := rfl

theorem sound_start (k : Classifier) (carry : Carry) (line : List Char) :
    k.Sound (.start carry line) := fun h => by cases h

@[simp] theorem kind_strip (k : Classifier) (s : Scan) : (k.strip s).kind = s.kind := by
  unfold strip; split <;> rfl

@[simp] theorem carry_strip (k : Classifier) (s : Scan) : (k.strip s).carry = s.carry := by
  unfold strip; split <;> rfl

theorem buffer_strip (h : k.Sound s) : (k.strip s).buffer = k.stripper.strip s.buffer := by
  unfold strip
  split
  · rename_i hs; exact (h hs).symm
  · rfl

theorem sound_strip (h : k.Sound s) : k.Sound (k.strip s) := by
  unfold strip
  split
  · exact h
  · intro hs
    have hlen : (k.stripper.strip s.buffer).length = s.buffer.length := by simpa using hs
    have hself := Stripper.strip_eq_self_of_length hlen
    simp only [hself]

/-- What a step that does not end the scan can do: close the open block, or open a block
at the earliest opening token, block comments being asked first. -/
inductive Moves (k : Classifier) (s : Scan) : Scan → Prop
  | close (m : Marker) (before rest : List Char)
      (hcarry : s.carry = .comment m ∨ s.carry = .string m)
      (hcut : cut m.chars s.ahead = some (before, rest)) :
      Moves k s (s.past (before ++ m.chars) s.kind .nothing)
  | openComment (b : Block) (before rest : List Char)
      (hcarry : s.carry = .nothing) (hline : k.startsComment s.buffer = false)
      (hopen : earliest? Block.openingChars k.blockComments (k.strip s).ahead =
        some (before, b, rest)) :
      Moves k s ((k.strip s).past (before ++ b.openingChars)
        (if (k.strip s).boundary + byteLength before = 0 then .comment else .code)
        (.ofComment b))
  | openString (b : Block) (before rest : List Char)
      (hcarry : s.carry = .nothing) (hline : k.startsComment s.buffer = false)
      (hnone : earliest? Block.openingChars k.blockComments (k.strip s).ahead = none)
      (hopen : earliest? Block.openingChars k.blockStrings (k.strip s).ahead =
        some (before, b, rest)) :
      Moves k s ((k.strip s).past (before ++ b.openingChars) .code (.ofString b))

/-- How a step can end the scan: the open block goes on behind the line, the line starts
with a line comment, or nothing opens on the rest of the line. -/
inductive Stops (k : Classifier) (s : Scan) : LineKind → Carry → Prop
  | unclosed (m : Marker) (hcarry : s.carry = .comment m ∨ s.carry = .string m)
      (hcut : cut m.chars s.ahead = none) : Stops k s s.kind s.carry
  | lineComment (hcarry : s.carry = .nothing) (hline : k.startsComment s.buffer = true) :
      Stops k s .comment .nothing
  | code (hcarry : s.carry = .nothing) (hline : k.startsComment s.buffer = false)
      (hcomments : earliest? Block.openingChars k.blockComments (k.strip s).ahead = none)
      (hstrings : earliest? Block.openingChars k.blockStrings (k.strip s).ahead = none) :
      Stops k s .code .nothing

theorem step_eq_of_inside {m : Marker} (h : s.carry = .comment m ∨ s.carry = .string m) :
    k.step s = stepInside s m := by
  rcases h with h | h <;> simp [step, h]

theorem step_eq_of_outside (h : s.carry = .nothing) : k.step s = k.stepOutside s := by
  simp [step, h]

theorem stepInside_eq (s : Scan) (m : Marker) :
    stepInside s m =
      (cut m.chars s.ahead).elim (.done s.kind s.carry) fun p =>
        .next (s.past (p.1 ++ m.chars) s.kind .nothing) := by
  rw [stepInside, occurrenceFrom_eq, show Text.ahead s.column s.buffer = s.ahead from rfl]
  cases cut m.chars s.ahead with
  | none => rfl
  | some p => simp [Scan.past, Scan.boundary, Marker.width, Nat.add_assoc]

theorem stepOutside_eq (k : Classifier) (s : Scan) :
    k.stepOutside s =
      if k.startsComment s.buffer then .done .comment .nothing
      else
        (earliest? Block.openingChars k.blockComments (k.strip s).ahead).elim
          ((earliest? Block.openingChars k.blockStrings (k.strip s).ahead).elim
            (.done .code .nothing) fun p =>
              .next ((k.strip s).past (p.1 ++ p.2.1.openingChars) .code (.ofString p.2.1)))
          fun p =>
            .next ((k.strip s).past (p.1 ++ p.2.1.openingChars)
              (if (k.strip s).boundary + byteLength p.1 = 0 then .comment else .code)
              (.ofComment p.2.1)) := by
  rw [stepOutside]
  split
  · rfl
  · simp only [Block.first?_eq]
    rw [show Text.ahead (k.strip s).column (k.strip s).buffer = (k.strip s).ahead from rfl]
    cases earliest? Block.openingChars k.blockComments (k.strip s).ahead with
    | some p => simp [Scan.past, Scan.boundary, Marker.width, Block.openingChars, Nat.add_assoc]
    | none =>
      cases earliest? Block.openingChars k.blockStrings (k.strip s).ahead with
      | some p => simp [Scan.past, Scan.boundary, Marker.width, Block.openingChars, Nat.add_assoc]
      | none => rfl

theorem step_eq_next_iff : k.step s = .next t ↔ k.Moves s t := by
  constructor
  · intro h
    cases hcarry : s.carry with
    | comment m | string m =>
      rw [step_eq_of_inside (m := m) (by simp [hcarry]), stepInside_eq] at h
      cases hcut : cut m.chars s.ahead with
      | none => rw [hcut] at h; cases h
      | some p =>
        rw [hcut] at h
        cases h
        exact .close m p.1 p.2 (by simp [hcarry]) hcut
    | nothing =>
      rw [step_eq_of_outside hcarry, stepOutside_eq] at h
      split at h
      · cases h
      · rename_i hline
        have hline := Bool.eq_false_iff.2 hline
        cases hc : earliest? Block.openingChars k.blockComments (k.strip s).ahead with
        | some p =>
          rw [hc] at h
          cases h
          exact .openComment p.2.1 p.1 p.2.2 hcarry hline hc
        | none =>
          rw [hc] at h
          cases hs : earliest? Block.openingChars k.blockStrings (k.strip s).ahead with
          | some p =>
            rw [hs] at h
            cases h
            exact .openString p.2.1 p.1 p.2.2 hcarry hline hc hs
          | none => rw [hs] at h; cases h
  · intro h
    cases h with
    | close m before rest hcarry hcut =>
      rw [step_eq_of_inside hcarry, stepInside_eq, hcut]
      rfl
    | openComment b before rest hcarry hline hopen =>
      rw [step_eq_of_outside hcarry, stepOutside_eq, if_neg (by simp [hline]), hopen]
      rfl
    | openString b before rest hcarry hline hnone hopen =>
      rw [step_eq_of_outside hcarry, stepOutside_eq, if_neg (by simp [hline]), hnone, hopen]
      rfl

theorem step_eq_done_iff {kind : LineKind} {carry : Carry} :
    k.step s = .done kind carry ↔ k.Stops s kind carry := by
  constructor
  · intro h
    cases hcarry : s.carry with
    | comment m | string m =>
      have hinside : s.carry = .comment m ∨ s.carry = .string m := by simp [hcarry]
      rw [step_eq_of_inside hinside, stepInside_eq] at h
      cases hcut : cut m.chars s.ahead with
      | none =>
        rw [hcut] at h
        cases h
        exact .unclosed m hinside hcut
      | some p => rw [hcut] at h; cases h
    | nothing =>
      rw [step_eq_of_outside hcarry, stepOutside_eq] at h
      split at h
      · rename_i hline
        cases h
        exact .lineComment hcarry hline
      · rename_i hline
        have hline := Bool.eq_false_iff.2 hline
        cases hc : earliest? Block.openingChars k.blockComments (k.strip s).ahead with
        | some p => rw [hc] at h; cases h
        | none =>
          rw [hc] at h
          cases hs : earliest? Block.openingChars k.blockStrings (k.strip s).ahead with
          | some p => rw [hs] at h; cases h
          | none =>
            rw [hs] at h
            cases h
            exact .code hcarry hline hc hs
  · intro h
    cases h with
    | unclosed m hcarry hcut =>
      rw [step_eq_of_inside hcarry, stepInside_eq, hcut]
      rfl
    | lineComment hcarry hline => rw [step_eq_of_outside hcarry, stepOutside_eq, if_pos hline]
    | code hcarry hline hcomments hstrings =>
      rw [step_eq_of_outside hcarry, stepOutside_eq, if_neg (by simp [hline]), hcomments,
        hstrings]
      rfl

/-! ## Whole scans -/

theorem scan_of_end (h : reaches s.column s.buffer = false) : k.scan s = (s.kind, s.carry) := by
  rw [scan, dif_neg (by simp [h])]

theorem scan_of_stops {kind : LineKind} {carry : Carry}
    (hs : reaches s.column s.buffer = true) (h : k.Stops s kind carry) :
    k.scan s = (kind, carry) := by
  rw [scan, dif_pos hs]
  split
  · rename_i hd
    cases hd.symm.trans (step_eq_done_iff.2 h)
    rfl
  · rename_i hd
    cases hd.symm.trans (step_eq_done_iff.2 h)

theorem scan_of_moves (hs : reaches s.column s.buffer = true) (h : k.Moves s t) :
    k.scan s = k.scan t := by
  rw [scan, dif_pos hs]
  split
  · rename_i hd
    cases hd.symm.trans (step_eq_next_iff.2 h)
  · rename_i hd
    cases hd.symm.trans (step_eq_next_iff.2 h)
    rfl

/-- Behind the closing token of the block that was open at the head of a line, the scan
is outside, with the rest of the line ahead. -/
theorem moves_start {m : Marker} {carry : Carry} {line before rest : List Char}
    (hcarry : carry = .comment m ∨ carry = .string m)
    (hcut : cut m.chars line = some (before, rest)) :
    k.Moves (.start carry line)
      ((Scan.start carry line).past (before ++ m.chars) carry.kind .nothing) :=
  .close m before rest hcarry (by rw [Scan.ahead_start, hcut])

theorem line_ne_nil_of_cut {m : Marker} {line : List Char} {p : List Char × List Char}
    (hcut : cut m.chars line = some p) : line ≠ [] := by
  have hlen := length_of_cut hcut
  have hpos := List.length_pos_iff.2 m.chars_ne_nil
  exact List.length_pos_iff.1 (by omega)

theorem classifyLine_of_cut {m : Marker} {carry : Carry} {line before rest : List Char}
    (hcarry : carry = .comment m ∨ carry = .string m)
    (hcut : cut m.chars line = some (before, rest)) :
    k.classifyLine carry line =
      k.scan ((Scan.start carry line).past (before ++ m.chars) carry.kind .nothing) := by
  rw [classifyLine_eq]
  exact scan_of_moves (Scan.reaches_start.2 (line_ne_nil_of_cut hcut)) (moves_start hcarry hcut)

/-- Whatever every end of a scan has and every step hands back, a whole scan has. -/
theorem scan_induction {P : Scan → LineKind × Carry → Prop}
    (ended : ∀ s, reaches s.column s.buffer = false → P s (s.kind, s.carry))
    (stops : ∀ s kind carry, reaches s.column s.buffer = true → k.Stops s kind carry →
      P s (kind, carry))
    (moves : ∀ s t, reaches s.column s.buffer = true → k.Moves s t → P t (k.scan t) →
      P s (k.scan t)) (s : Scan) : P s (k.scan s) := by
  fun_induction scan k s with
  | case1 s hs kind carry h => exact stops s kind carry hs (step_eq_done_iff.1 h)
  | case2 s hs t h _ _ ih => exact moves s t hs (step_eq_next_iff.1 h) ih
  | case3 s hs => exact ended s (by simpa using hs)

theorem sound_of_moves (h : k.Sound s) (hm : k.Moves s t) : k.Sound t := by
  cases hm with
  | close m before rest hcarry hcut => exact h
  | openComment b before rest hcarry hline hopen => exact sound_strip h
  | openString b before rest hcarry hline hnone hopen => exact sound_strip h

/-- A step outside strips the buffer once, and a step inside leaves it. -/
theorem buffer_of_moves (h : k.Sound s) (hm : k.Moves s t) :
    t.buffer = if s.carry = .nothing then k.stripper.strip s.buffer else s.buffer := by
  cases hm with
  | close m before rest hcarry hcut =>
    have hne : s.carry ≠ .nothing := by rcases hcarry with h | h <;> simp [h]
    rw [if_neg hne, Scan.buffer_past]
  | openComment b before rest hcarry hline hopen =>
    rw [if_pos hcarry, Scan.buffer_past, buffer_strip h]
  | openString b before rest hcarry hline hnone hopen =>
    rw [if_pos hcarry, Scan.buffer_past, buffer_strip h]

theorem column_lt_of_moves (hm : k.Moves s t) : s.column < t.column :=
  (step_next (step_eq_next_iff.2 hm)).1

end Classifier

end LineCensus.Count
