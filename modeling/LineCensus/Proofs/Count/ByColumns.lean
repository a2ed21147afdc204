import LineCensus.Proofs.Count.LiteralWords
import LineCensus.Proofs.Count.ScanRun
import LineCensus.Proofs.Text.Slices

/-!
# Counting by byte columns

A line can be stripped and scanned with nothing in hand but columns of it. Whatever is looked
at is then a slice, which a column inside a character or behind the end would leave without a
value, and the turns of a loop need not come to an end. Counting that way has a value for every
language and every text, and it is the count: no slice is missing and no loop goes on for ever,
since each turn moves on over a text that does not grow.
-/
namespace LineCensus.Count

open LineCensus.Text

/-! ## Literals -/

/-- The columns at which the bodies that start at a column end, the empty body first. -/
def bodyColumns (closing : List Char) (here : ℕ) : List Char → List ℕ
  | [] => [here]
  | [c] =>
    here :: if c = '\\' ∨ c ∈ closing then [] else bodyColumns closing (here + c.utf8Size) []
  | c :: d :: rest =>
    here ::
      if c = '\\' then bodyColumns closing (here + c.utf8Size + d.utf8Size) rest
      else if c ∈ closing then []
      else bodyColumns closing (here + c.utf8Size) (d :: rest)

/-- The column behind the closing token, at the first of some columns where it stands. -/
def firstClosed? (closing line : List Char) : List ℕ → Option (Option ℕ)
  | [] => some none
  | stop :: stops => do
    let ahead ← from? stop line
    if closing.isPrefixOf ahead then some (some (stop + byteLength closing))
    else firstClosed? closing line stops

/-- The column behind the literal that starts at a column, if one does. -/
def Enclosure.endAt? (e : Enclosure) (line : List Char) (column : ℕ) : Option (Option ℕ) := do
  let ahead ← from? column line
  if e.opening.begins ahead then
    let start := column + e.opening.width
    let body ← from? start line
    firstClosed? e.closing line (bodyColumns e.closing start body).reverse
  else some none

/-- The column behind the literal of the first enclosure that fits at a column. -/
def firstEnd? (line : List Char) (column : ℕ) : List Enclosure → Option (Option ℕ)
  | [] => some none
  | e :: es => do
    match ← e.endAt? line column with
    | some stop => some (some stop)
    | none => firstEnd? line column es

/-- Where a pass over a line has come to: what is left of it, the column behind the last
literal, and the column looked at. -/
structure Copying where
  kept : List Char := []
  copied : ℕ := 0
  column : ℕ := 0
deriving DecidableEq, Repr

/-- A pass goes on behind a literal, after taking over what stands in front of it, or behind
one character. -/
def Stripper.turn? (p : Stripper) (line : List Char) (c : Copying) :
    Option (Turn Copying (List Char)) := do
  match ← from? c.column line with
  | [] =>
    if c.copied = 0 then return .last line
    else
      let rest ← from? c.copied line
      return .last (c.kept ++ rest)
  | char :: _ =>
    match ← firstEnd? line c.column p.enclosures with
    | some stop =>
      let part ← slice? c.copied c.column line
      return .next ⟨c.kept ++ part, stop, stop⟩
    | none => return .next { c with column := c.column + char.utf8Size }

/-- The line without its literals. -/
noncomputable def Stripper.stripByColumns? (p : Stripper) (line : List Char) : Option (List Char) :=
  if p.enclosures = [] then some line else loop (p.turn? line) {}

theorem bodyColumns_eq {closing line s : List Char} (h : s <:+ line) :
    bodyColumns closing (columnOf line s) s = (bodyEnds closing s).map (columnOf line) := by
  have hbehind : ∀ {c s}, c :: s <:+ line →
      s <:+ line ∧ columnOf line (c :: s) + c.utf8Size = columnOf line s := by
    intro c s hs
    refine ⟨(List.suffix_cons c s).trans hs, ?_⟩
    rw [columnOf_of_append (q := [c]) hs]
    simp
  fun_induction bodyEnds closing s with
  | case1 => rfl
  | case2 c ih =>
    rw [bodyColumns, List.map_cons]
    congr 1
    split
    · rfl
    · rw [(hbehind h).2]
      exact ih (hbehind h).1
  | case3 c d rest ihEscaped ihPlain =>
    obtain ⟨hplain, hcolumn⟩ := hbehind h
    obtain ⟨hescaped, hcolumn'⟩ := hbehind hplain
    rw [bodyColumns, List.map_cons, hcolumn, hcolumn']
    congr 1
    split
    · exact ihEscaped hescaped
    · split
      · rfl
      · exact ihPlain hplain

/-- Each of the columns has its slice. -/
theorem firstClosed?_map_columnOf {closing line : List Char} {ts : List (List Char)}
    (h : ∀ t ∈ ts, t <:+ line) :
    firstClosed? closing line (ts.map (columnOf line)) =
      some ((ts.find? closing.isPrefixOf).map
        fun t => columnOf line (t.drop closing.length)) := by
  induction ts with
  | nil => rfl
  | cons t ts ih =>
    obtain ⟨ht, hts⟩ := List.forall_mem_cons.1 h
    rw [List.map_cons, firstClosed?, from?_columnOf ht, Option.bind_eq_bind, Option.bind_some]
    by_cases hclosing : closing.isPrefixOf t = true
    · obtain ⟨u, rfl⟩ := List.isPrefixOf_iff_prefix.1 hclosing
      rw [if_pos hclosing, List.find?_cons_of_pos hclosing, Option.map_some, List.drop_left,
        columnOf_of_append ht]
    · rw [if_neg hclosing, List.find?_cons_of_neg hclosing, ih hts]

/-- At a boundary all slices that the search for a literal takes exist. -/
theorem Enclosure.endAt?_columnOf (e : Enclosure) {line s : List Char} (h : s <:+ line) :
    e.endAt? line (columnOf line s) = some ((e.rest? s).map (columnOf line)) := by
  rw [endAt?, from?_columnOf h, rest?]
  by_cases hopening : e.opening.begins s = true
  · obtain ⟨body, rfl⟩ := List.isPrefixOf_iff_prefix.1 hopening
    have hbody : body <:+ line := (List.suffix_append _ _).trans h
    have hends : ∀ t ∈ (bodyEnds e.closing body).reverse, t <:+ line := by
      intro t ht
      obtain ⟨b, -, rfl⟩ := mem_bodyEnds.1 (List.mem_reverse.1 ht)
      exact (List.suffix_append b t).trans hbody
    have hstart : columnOf line (e.opening.chars ++ body) + e.opening.width =
        columnOf line body := (columnOf_of_append h).symm
    simp only [Option.bind_eq_bind, Option.bind_some, if_pos hopening, hstart,
      from?_columnOf hbody, List.drop_left, bodyColumns_eq hbody, ← List.map_reverse,
      firstClosed?_map_columnOf hends, afterClosing_eq, Option.or_none, Option.map_map]
    rfl
  · simp [hopening]

theorem firstEnd?_columnOf (es : List Enclosure) {line s : List Char} (h : s <:+ line) :
    firstEnd? line (columnOf line s) es =
      some ((es.findSome? (·.rest? s)).map (columnOf line)) := by
  induction es with
  | nil => rfl
  | cons e es ih =>
    rw [firstEnd?, e.endAt?_columnOf h, List.findSome?_cons]
    cases e.rest? s with
    | some t => rfl
    | none => exact ih

namespace Stripper

variable {p : Stripper}

/-- A literal has at least one character. -/
theorem exists_literal_of_rest? {s t : List Char} (h : p.rest? s = some t) :
    ∃ w, w ≠ [] ∧ s = w ++ t := by
  obtain ⟨w, rfl⟩ := suffix_of_rest? h
  refine ⟨w, ?_, rfl⟩
  rintro rfl
  exact Nat.lt_irrefl _ (length_of_rest? h)

theorem turn?_of_end (p : Stripper) (q m kept : List Char) (hkept : q = [] → kept = []) :
    p.turn? (q ++ m) ⟨kept, byteLength q, byteLength (q ++ m)⟩ = some (.last (kept ++ m)) := by
  have hahead : from? (byteLength (q ++ m)) (q ++ m) = some [] := by
    simpa using from?_byteLength (q ++ m) []
  rw [turn?, hahead]
  by_cases hq : q = []
  · rw [hq, hkept hq]
    rfl
  · have hcopied : byteLength q ≠ 0 := fun h => hq (byteLength_eq_zero.1 h)
    simp [hcopied, from?_byteLength]

theorem turn?_of_rest? {q m w t kept : List Char} (hw : w ≠ []) (h : p.rest? (w ++ t) = some t) :
    p.turn? (q ++ m ++ (w ++ t)) ⟨kept, byteLength q, byteLength (q ++ m)⟩ =
      some (.next ⟨kept ++ m, byteLength (q ++ m ++ w), byteLength (q ++ m ++ w)⟩) := by
  obtain ⟨c, w, rfl⟩ := List.exists_cons_of_ne_nil hw
  have hend : firstEnd? (q ++ m ++ (c :: w ++ t)) (byteLength (q ++ m)) p.enclosures =
      some (some (byteLength (q ++ m ++ c :: w))) := by
    have hfirst := firstEnd?_columnOf p.enclosures
      (List.suffix_append (q ++ m) (c :: w ++ t))
    rw [columnOf_append] at hfirst
    rw [hfirst, show p.enclosures.findSome? (·.rest? (c :: w ++ t)) = some t from h,
      Option.map_some, ← List.append_assoc, columnOf_append]
  rw [turn?, from?_byteLength, List.cons_append, ← List.cons_append]
  simp only [Option.bind_eq_bind, Option.bind_some, hend, slice?_byteLength]
  rfl

theorem turn?_of_no_rest {q m s kept : List Char} {c : Char} (h : p.rest? (c :: s) = none) :
    p.turn? (q ++ m ++ c :: s) ⟨kept, byteLength q, byteLength (q ++ m)⟩ =
      some (.next ⟨kept, byteLength q, byteLength (q ++ (m ++ [c]))⟩) := by
  have hend : firstEnd? (q ++ m ++ c :: s) (byteLength (q ++ m)) p.enclosures = some none := by
    have hfirst := firstEnd?_columnOf p.enclosures (List.suffix_append (q ++ m) (c :: s))
    rw [columnOf_append] at hfirst
    rw [hfirst, show p.enclosures.findSome? (·.rest? (c :: s)) = none from h]
    rfl
  have hcolumn : byteLength (q ++ m) + c.utf8Size = byteLength (q ++ (m ++ [c])) := by
    simp [Nat.add_assoc]
  rw [turn?, from?_byteLength, ← hcolumn]
  simp only [Option.bind_eq_bind, Option.bind_some, hend]
  rfl

/-- A pass takes no slice that is missing, ends, and leaves the line without its literals. -/
theorem loop_turn? (p : Stripper) (q m s kept : List Char) (hkept : q = [] → kept = []) :
    loop (p.turn? (q ++ m ++ s)) ⟨kept, byteLength q, byteLength (q ++ m)⟩ =
      some (kept ++ m ++ p.strip s) := by
  induction hn : s.length using Nat.strongRecOn generalizing q m s kept with
  | ind n ih =>
    cases s with
    | nil =>
      rw [List.append_nil, loop_of_last (turn?_of_end p q m kept hkept), strip_nil,
        List.append_nil]
    | cons c s =>
      cases hrest : p.rest? (c :: s) with
      | some t =>
        have hlen := length_of_rest? hrest
        obtain ⟨w, hne, hw⟩ := exists_literal_of_rest? hrest
        rw [hw] at hrest ⊢
        have hpass := ih t.length (hn ▸ hlen) (q ++ m ++ w) [] t (kept ++ m) (by simp [hne]) rfl
        rw [List.append_nil, List.append_assoc, List.append_nil] at hpass
        rw [loop_of_next (turn?_of_rest? hne hrest), strip_of_rest? hrest]
        exact hpass
      | none =>
        have hpass := ih s.length (hn ▸ Nat.lt_succ_self _) q (m ++ [c]) s kept hkept rfl
        rw [List.append_assoc, List.append_assoc, List.singleton_append, ← List.append_assoc]
          at hpass
        rw [loop_of_next (turn?_of_no_rest hrest), hpass, strip_of_no_rest hrest]
        simp

theorem stripByColumns?_eq (p : Stripper) (line : List Char) :
    p.stripByColumns? line = some (p.strip line) := by
  rw [stripByColumns?]
  split
  · rename_i hnil
    have hrest : ∀ s, p.rest? s = none := fun s => by simp [rest?, hnil]
    have hstrip : p.strip line = line := by
      induction line with
      | nil => exact strip_nil p
      | cons c s ih => rw [strip_of_no_rest (hrest _), ih]
    rw [hstrip]
  · exact loop_turn? p [] [] line [] fun _ => rfl

/-- Every turn of a pass but the last looks at a column further on. -/
theorem column_lt_of_turn? {line : List Char} {c d : Copying}
    (h : p.turn? line c = some (.next d)) : c.column < d.column := by
  obtain ⟨ahead, hahead, h⟩ := Option.bind_eq_some_iff.1 h
  obtain ⟨hsuffix, hcolumn⟩ := from?_eq_some_iff_suffix.1 hahead
  cases ahead with
  | nil =>
    dsimp only at h
    split at h
    · cases h
    · obtain ⟨rest, -, h⟩ := Option.bind_eq_some_iff.1 h
      cases h
  | cons char ahead =>
    obtain ⟨stop?, hstop, h⟩ := Option.bind_eq_some_iff.1 h
    cases stop? with
    | some stop =>
      obtain ⟨part, -, h⟩ := Option.bind_eq_some_iff.1 h
      cases h
      rw [← hcolumn, firstEnd?_columnOf p.enclosures hsuffix, Option.some_inj] at hstop
      obtain ⟨t, hrest, rfl⟩ := Option.map_eq_some_iff.1 hstop
      obtain ⟨w, hne, hw⟩ := exists_literal_of_rest? hrest
      rw [hw] at hsuffix hcolumn
      have hpos := byteLength_pos hne
      have hbehind := columnOf_of_append hsuffix
      dsimp only
      omega
    | none =>
      cases h
      exact Nat.lt_add_of_pos_right char.utf8Size_pos

end Stripper

/-! ## Lines -/

/-- The first opening at or after a column, with the block it opens. -/
def firstOpening? (column : ℕ) (line : List Char) : List Block → Option (Option (ℕ × Block))
  | [] => some none
  | b :: bs => do
    let here ← findFrom? b.opening.chars column line
    let later ← firstOpening? column line bs
    return match here, later with
      | none, later => later
      | some place, none => some (place, b)
      | some place, some (other, c) => if place ≤ other then some (place, b) else some (other, c)

/-- A line being scanned: what is left of its text, the column reached, the kind found so far
and the block that is open there. -/
structure Cursor where
  buffer : List Char
  column : ℕ := 0
  kind : LineKind
  carry : Carry
deriving DecidableEq

namespace Classifier

/-- A turn goes on behind the closing token of the block that is open, or behind the first
opening token of the line without its literals. -/
noncomputable def turn? (k : Classifier) (c : Cursor) : Option (Turn Cursor (LineKind × Carry)) :=
  if c.column < byteLength c.buffer then
    match c.carry with
    | .comment closing | .string closing => do
      match ← findFrom? closing.chars c.column c.buffer with
      | some place => return .next { c with column := place + closing.width, carry := .nothing }
      | none => return .last (c.kind, c.carry)
    | .nothing =>
      if k.startsComment c.buffer then return .last (.comment, .nothing)
      else do
        let buffer ← k.stripper.stripByColumns? c.buffer
        match ← firstOpening? c.column buffer k.blockComments with
        | some (place, b) =>
          return .next ⟨buffer, place + b.opening.width,
            if place = 0 then .comment else .code, .ofComment b⟩
        | none =>
          match ← firstOpening? c.column buffer k.blockStrings with
          | some (place, b) =>
            return .next ⟨buffer, place + b.opening.width, .code, .ofString b⟩
          | none => return .last (.code, .nothing)
  else return .last (c.kind, c.carry)

/-- The kind of a line without margins, and the block it leaves open. -/
noncomputable def classifyByColumns? (k : Classifier) (carry : Carry) (line : List Char) :
    Option (LineKind × Carry) :=
  loop k.turn? { buffer := line, kind := carry.kind, carry }

/-- Reads a line, whose margins do not matter. -/
noncomputable def readByColumns? (k : Classifier) (r : Reading) (line : List Char) :
    Option Reading := do
  let (kind, carry) ← k.classifyByColumns? r.carry (trimMargin line)
  return ⟨r.tally.record kind, carry⟩

/-- The tally of a text. -/
noncomputable def countByColumns? (k : Classifier) (text : List Char) (incomplete : Bool) :
    Option Tally :=
  if text = [] then some 0
  else do
    let lines ← linesByBytes? text
    let counted := if incomplete then lines else lines.dropLast
    let reading ← counted.foldlM k.readByColumns? {}
    return reading.tally

end Classifier

theorem firstOpening?_eq (column : ℕ) (line : List Char) (bs : List Block) :
    firstOpening? column line bs = some (Block.first? column line bs) := by
  induction bs with
  | nil => rfl
  | cons b bs ih =>
    rw [firstOpening?, findFrom?_eq, ih]
    rfl

/-- A scan without the note on its buffer. -/
def Scan.cursor (s : Scan) : Cursor := ⟨s.buffer, s.column, s.kind, s.carry⟩

/-- A scan that knows nothing of its buffer. -/
def Cursor.scan (c : Cursor) : Scan := ⟨c.buffer, false, c.column, c.kind, c.carry⟩

/-- A step as a turn. -/
def Step.turn : Step → Turn Cursor (LineKind × Carry)
  | .done kind carry => .last (kind, carry)
  | .next s => .next s.cursor

namespace Classifier

variable {k : Classifier} {s : Scan}

theorem turn?_of_end (h : reaches s.column s.buffer = false) :
    k.turn? s.cursor = some (.last (s.kind, s.carry)) := by
  have hend : ¬ s.cursor.column < byteLength s.cursor.buffer := fun hlt =>
    Bool.false_ne_true (h.symm.trans (reaches_iff.2 hlt))
  rw [turn?, if_neg hend]
  rfl

/-- A turn has every slice that it takes, wherever its column may stand, and does what the step
of the scan does. -/
theorem turn?_of_reaches (hs : reaches s.column s.buffer = true) (h : k.Sound s) :
    k.turn? s.cursor = some (k.step s).turn := by
  have hreach : s.cursor.column < byteLength s.cursor.buffer := reaches_iff.1 hs
  rw [turn?, if_pos hreach]
  cases hcarry : s.carry with
  | comment closing | string closing =>
    simp only [Scan.cursor, hcarry, step, stepInside, findFrom?_eq]
    cases occurrenceFrom closing.chars s.column s.buffer <;> rfl
  | nothing =>
    simp only [Scan.cursor, hcarry, step, stepOutside]
    by_cases hline : k.startsComment s.buffer = true
    · rw [if_pos hline, if_pos hline]
      rfl
    · rw [if_neg hline, if_neg hline, Stripper.stripByColumns?_eq]
      simp only [Option.bind_eq_bind, Option.bind_some, firstOpening?_eq, buffer_strip h,
        column_strip]
      cases Block.first? s.column (k.stripper.strip s.buffer) k.blockComments with
      | some p => simp [Step.turn, Scan.cursor]
      | none =>
        cases Block.first? s.column (k.stripper.strip s.buffer) k.blockStrings with
        | some p => simp [Step.turn, Scan.cursor]
        | none => rfl

theorem turn?_eq (k : Classifier) (c : Cursor) :
    k.turn? c =
      some (if reaches c.column c.buffer then (k.step c.scan).turn
        else .last (c.kind, c.carry)) := by
  have hsound : k.Sound c.scan := fun hsettled => by cases hsettled
  cases hreach : reaches c.column c.buffer with
  | false => exact turn?_of_end (s := c.scan) hreach
  | true => exact turn?_of_reaches (s := c.scan) hreach hsound

/-- Every turn of a scan but the last looks at a column further on, over a text that has not
grown. -/
theorem turn?_next {c d : Cursor} (h : k.turn? c = some (.next d)) :
    c.column < d.column ∧ byteLength d.buffer ≤ byteLength c.buffer := by
  rw [turn?_eq, Option.some_inj] at h
  split at h
  · cases hstep : k.step c.scan with
    | done kind carry => rw [hstep] at h; cases h
    | next t =>
      rw [hstep] at h
      cases h
      exact step_next hstep
  · cases h

/-- The turns of a scan come to an end, and to the kind that the scan finds. -/
theorem loop_turn? (h : k.Sound s) : loop k.turn? s.cursor = some (k.scan s) := by
  fun_induction scan k s with
  | case1 s hs kind carry hstep =>
    refine loop_of_last ?_
    rw [turn?_of_reaches hs h, hstep]
    rfl
  | case2 s hs t hstep _ _ ih =>
    have hturn : k.turn? s.cursor = some (.next t.cursor) := by
      rw [turn?_of_reaches hs h, hstep]
      rfl
    rw [loop_of_next hturn]
    exact ih (sound_of_moves h (step_eq_next_iff.1 hstep))
  | case3 s hs => exact loop_of_last (turn?_of_end (by simpa using hs))

theorem classifyByColumns?_eq (k : Classifier) (carry : Carry) (line : List Char) :
    k.classifyByColumns? carry line = some (k.classifyLine carry line) :=
  loop_turn? (sound_start k carry line)

theorem countByColumns?_eq (k : Classifier) (text : List Char) (incomplete : Bool) :
    k.countByColumns? text incomplete = some (k.count text incomplete) := by
  have hread : k.readByColumns? = fun r line => some (k.readLine r line) := by
    funext r line
    rw [readByColumns?, classifyByColumns?_eq]
    rfl
  have hfold : ∀ lines : List (List Char),
      lines.foldlM (fun r line => some (k.readLine r line)) {} = some (k.readLines {} lines) :=
    fun lines => List.foldlM_pure
  rw [countByColumns?, count, read, countedLines]
  by_cases htext : text = []
  · rw [if_pos htext, if_pos htext]
    rfl
  · rw [if_neg htext, if_neg htext, linesByBytes?_eq, hread]
    simp only [Option.bind_eq_bind, Option.bind_some, hfold]
    rfl

/-- Counting by columns gives the count of every text, for every language definition: no slice
is missing and no loop goes on for ever, and the same holds of a pass over any line. No turn of
a scan lacks a slice, wherever its column stands in whatever buffer; every turn but the last
goes to a column further on, over a buffer that is no longer than before; and every turn of a
pass over a line but the last goes to a column further on. -/
theorem countByColumns?_ofDefinition (d : LanguageDefinition) (text : List Char)
    (incomplete : Bool) :
    let k := ofDefinition d
    k.countByColumns? text incomplete = some (k.count text incomplete) ∧
      (∀ line, k.stripper.stripByColumns? line = some (k.stripper.strip line)) ∧
      (∀ c, ∃ turn, k.turn? c = some turn) ∧
      (∀ c c', k.turn? c = some (.next c') →
        c.column < c'.column ∧ byteLength c'.buffer ≤ byteLength c.buffer) ∧
      ∀ line c c', k.stripper.turn? line c = some (.next c') → c.column < c'.column :=
  ⟨countByColumns?_eq _ text incomplete, Stripper.stripByColumns?_eq _,
    fun c => ⟨_, turn?_eq _ c⟩, fun _ _ => turn?_next,
    fun _ _ _ => Stripper.column_lt_of_turn?⟩

end Classifier

end LineCensus.Count
