import LineCensus.Language.Catalog
import LineCensus.Proofs.Count.Compiled

/-!
# The plain scanner

Without literals to strip, a scan needs no columns: it reads a line from what is left of
it. The plain scanner does so with the tokens as the definition declares them. A scan
with its buffer and column stands for a suffix of the line, and on a line that stripping
leaves as it is every step keeps that so.
-/
namespace LineCensus.Count

open LineCensus.Text

/-- The earliest pair whose opening token is not empty, with the text on both sides of
that token. Of the pairs that open at one place the first is taken. -/
def earliestPair? (ds : List Delimiters) (s : List Char) :
    Option (List Char × Delimiters × List Char) :=
  earliest? (fun d : Delimiters => d.start.toList) ds s

/-- What is open behind the opening token of a pair: nothing if it has no closing token. -/
def openedBy (block : Marker → Carry) (d : Delimiters) : Carry :=
  (Marker.ofString? d.stop).elim .nothing block

/-- The kind of a line in which a block comment opens behind `before`: comment at the
first character of the line, code further on. -/
def kindAt (line before s : List Char) : LineKind :=
  if before = [] ∧ s = line then .comment else .code

/-- The kind of a line and the block it leaves open, read from what is left of the line
with the kind found so far and the block that is open there. -/
def plainScan (d : LanguageDefinition) (line : List Char) (kind : LineKind) (carry : Carry)
    (s : List Char) : LineKind × Carry :=
  if s = [] then (kind, carry)
  else
    match carry with
    | .comment m | .string m =>
      match h : cut m.chars s with
      | none => (kind, carry)
      | some (before, rest) =>
        have := length_of_cut h
        have := List.length_pos_iff.2 m.chars_ne_nil
        plainScan d line kind .nothing rest
    | .nothing =>
      if d.lineComments.any (·.toList.isPrefixOf line) then (.comment, .nothing)
      else
        match hc : earliestPair? d.blockComments s with
        | some (before, b, rest) =>
          have := length_of_earliest? hc
          plainScan d line (kindAt line before s) (openedBy .comment b) rest
        | none =>
          match hs : earliestPair? d.blockStrings s with
          | some (before, b, rest) =>
            have := length_of_earliest? hs
            plainScan d line .code (openedBy .string b) rest
          | none => (.code, .nothing)
termination_by s.length

namespace Block

theorem earliest?_of_earliestPair?_eq_none {ds : List Delimiters} {s : List Char}
    (h : earliestPair? ds s = none) :
    earliest? openingChars (ds.filterMap ofDelimiters?) s = none := by
  unfold earliestPair? at h
  rw [earliest?_filterMap_ofDelimiters?, h, Option.bind_none]

/-- The pair that opens first has been compiled into the block that opens first. -/
theorem earliest?_of_earliestPair?_eq_some {ds : List Delimiters} {d : Delimiters}
    {s before rest : List Char} (h : earliestPair? ds s = some (before, d, rest)) :
    ∃ b, earliest? openingChars (ds.filterMap ofDelimiters?) s = some (before, b, rest) ∧
      Carry.ofComment b = openedBy .comment d ∧ Carry.ofString b = openedBy .string d ∧
      s = (before ++ b.openingChars) ++ rest := by
  unfold earliestPair? at h
  obtain ⟨-, hne, hs⟩ := earliest?_eq_some h
  cases hb : ofDelimiters? d with
  | none => exact absurd (ofDelimiters?_eq_none hb) hne
  | some b =>
    have hopen : earliest? openingChars (ds.filterMap ofDelimiters?) s =
        some (before, b, rest) := by
      rw [earliest?_filterMap_ofDelimiters?, h, Option.bind_some, hb, Option.map_some]
    refine ⟨b, hopen, ?_⟩
    rw [openingChars_of_ofDelimiters? hb]
    obtain ⟨m, -, rfl⟩ := Option.map_eq_some_iff.1 hb
    exact ⟨rfl, rfl, hs⟩

end Block

namespace Classifier

variable {k : Classifier} {line s : List Char} {kind : LineKind} {carry : Carry} {u : Scan}

/-- A scan of the whole line that stands before a suffix of it. -/
structure StandsBefore (k : Classifier) (line : List Char) (kind : LineKind) (carry : Carry)
    (s : List Char) (u : Scan) : Prop where
  sound : k.Sound u
  buffer_eq : u.buffer = line
  boundary_eq : u.boundary = u.column
  ahead_eq : u.ahead = s
  kind_eq : u.kind = kind
  carry_eq : u.carry = carry

namespace StandsBefore

theorem start (k : Classifier) (carry : Carry) (line : List Char) :
    k.StandsBefore line carry.kind carry line (.start carry line) where
  sound := k.sound_start carry line
  buffer_eq := rfl
  boundary_eq := by simp
  ahead_eq := by simp
  kind_eq := rfl
  carry_eq := rfl

theorem reaches_iff (h : k.StandsBefore line kind carry s u) :
    reaches u.column u.buffer = true ↔ s ≠ [] := by
  rw [Scan.reaches_iff_ahead h.boundary_eq, h.ahead_eq]

theorem startsComment_eq {d : LanguageDefinition}
    (h : (ofDefinition d).StandsBefore line kind carry s u) :
    (ofDefinition d).startsComment u.buffer = d.lineComments.any (·.toList.isPrefixOf line) := by
  rw [h.buffer_eq, startsComment_ofDefinition_eq]

/-- On a line that stripping leaves as it is, a scan stands where it stood. -/
theorem strip (hstrip : k.stripper.strip line = line)
    (h : k.StandsBefore line kind carry s u) :
    k.StandsBefore line kind carry s (k.strip u) := by
  have hbuffer : (k.strip u).buffer = u.buffer := by
    rw [buffer_strip h.sound, h.buffer_eq, hstrip]
  have hboundary : (k.strip u).boundary = u.boundary := by
    rw [Scan.boundary, hbuffer, column_strip, Scan.boundary]
  have hahead : (k.strip u).ahead = u.ahead := by
    rw [Scan.ahead, hbuffer, column_strip, Scan.ahead]
  exact {
    sound := sound_strip h.sound
    buffer_eq := hbuffer.trans h.buffer_eq
    boundary_eq := by rw [hboundary, h.boundary_eq, column_strip]
    ahead_eq := hahead.trans h.ahead_eq
    kind_eq := (kind_strip k u).trans h.kind_eq
    carry_eq := (carry_strip k u).trans h.carry_eq }

theorem past {read rest : List Char} (h : k.StandsBefore line kind carry s u)
    (hs : s = read ++ rest) (kind' : LineKind) (carry' : Carry) :
    k.StandsBefore line kind' carry' rest (u.past read kind' carry') where
  sound := h.sound
  buffer_eq := h.buffer_eq
  boundary_eq := Scan.boundary_past (h.ahead_eq.trans hs) _ _
  ahead_eq := Scan.ahead_past (h.ahead_eq.trans hs) _ _
  kind_eq := rfl
  carry_eq := rfl

/-- Column zero is the first character of the line. -/
theorem kindAt_eq (h : k.StandsBefore line kind carry s u) (before : List Char) :
    (if u.boundary + byteLength before = 0 then LineKind.comment else .code) =
      kindAt line before s := by
  obtain ⟨q, hq, hb⟩ := u.exists_behind
  rw [h.buffer_eq, h.ahead_eq] at hq
  have hzero : u.boundary + byteLength before = 0 ↔ before = [] ∧ s = line := by
    rw [hb, ← byteLength_append, byteLength_eq_zero, List.append_eq_nil_iff, hq]
    simp [and_comm]
  rw [kindAt]
  exact if_congr hzero rfl rfl

end StandsBefore

/-- From where it stands, the scan comes to what the plain scanner reads. -/
theorem scan_eq_plainScan {d : LanguageDefinition}
    (hstrip : (ofDefinition d).stripper.strip line = line) (kind : LineKind) (carry : Carry)
    (s : List Char) (u : Scan) (hu : (ofDefinition d).StandsBefore line kind carry s u) :
    (ofDefinition d).scan u = plainScan d line kind carry s := by
  fun_induction plainScan d line kind carry s generalizing u with
  | case1 kind carry =>
    have hend : reaches u.column u.buffer = false :=
      Bool.eq_false_iff.2 (mt hu.reaches_iff.1 (by simp))
    rw [scan_of_end hend, hu.kind_eq, hu.carry_eq]
  | case2 kind s hs m hcut | case4 kind s hs m hcut =>
    have hinside : u.carry = .comment m ∨ u.carry = .string m := by simp [hu.carry_eq]
    have hstops := Stops.unclosed (k := ofDefinition d) m hinside (by rw [hu.ahead_eq, hcut])
    rw [scan_of_stops (hu.reaches_iff.2 hs) hstops, hu.kind_eq, hu.carry_eq]
  | case3 kind s hs m before rest hcut _ _ ih | case5 kind s hs m before rest hcut _ _ ih =>
    have hinside : u.carry = .comment m ∨ u.carry = .string m := by simp [hu.carry_eq]
    have hmoves := Moves.close (k := ofDefinition d) m before rest hinside
      (by rw [hu.ahead_eq, hcut])
    rw [scan_of_moves (hu.reaches_iff.2 hs) hmoves, hu.kind_eq]
    exact ih _ (hu.past (eq_append_of_cut hcut) kind .nothing)
  | case6 kind s hs hline =>
    have hstarts := hu.startsComment_eq.trans hline
    exact scan_of_stops (hu.reaches_iff.2 hs) (.lineComment hu.carry_eq hstarts)
  | case7 kind s hs hline before pair rest hc _ ih =>
    have hstarts := hu.startsComment_eq.trans (Bool.eq_false_iff.2 hline)
    have hstands := hu.strip hstrip
    obtain ⟨b, hopen, hcarry, -, hsplit⟩ := Block.earliest?_of_earliestPair?_eq_some hc
    have hmoves := Moves.openComment (k := ofDefinition d) b before rest hu.carry_eq hstarts
      (by rw [hstands.ahead_eq]; exact hopen)
    rw [scan_of_moves (hu.reaches_iff.2 hs) hmoves, hstands.kindAt_eq, hcarry]
    exact ih _ (hstands.past hsplit _ _)
  | case8 kind s hs hline hc before pair rest hstring _ ih =>
    have hstarts := hu.startsComment_eq.trans (Bool.eq_false_iff.2 hline)
    have hstands := hu.strip hstrip
    obtain ⟨b, hopen, -, hcarry, hsplit⟩ := Block.earliest?_of_earliestPair?_eq_some hstring
    have hmoves := Moves.openString (k := ofDefinition d) b before rest hu.carry_eq hstarts
      (by rw [hstands.ahead_eq]; exact Block.earliest?_of_earliestPair?_eq_none hc)
      (by rw [hstands.ahead_eq]; exact hopen)
    rw [scan_of_moves (hu.reaches_iff.2 hs) hmoves, hcarry]
    exact ih _ (hstands.past hsplit _ _)
  | case9 kind s hs hline hc hstring =>
    have hstarts := hu.startsComment_eq.trans (Bool.eq_false_iff.2 hline)
    have hstands := hu.strip hstrip
    have hstops := Stops.code (k := ofDefinition d) hu.carry_eq hstarts
      (by rw [hstands.ahead_eq]; exact Block.earliest?_of_earliestPair?_eq_none hc)
      (by rw [hstands.ahead_eq]; exact Block.earliest?_of_earliestPair?_eq_none hstring)
    exact scan_of_stops (hu.reaches_iff.2 hs) hstops

/-- On a line that stripping leaves as it is, the scan over columns is the plain scanner. -/
theorem classifyLine_eq_plainScan (d : LanguageDefinition) (carry : Carry) (line : List Char)
    (hstrip : (ofDefinition d).stripper.strip line = line) :
    (ofDefinition d).classifyLine carry line = plainScan d line carry.kind carry line :=
  scan_eq_plainScan hstrip _ _ _ _ (.start _ carry line)

/-- A comment that ends, a template string and a comment that stays open leave nothing to
strip. -/
theorem classifyLine_of_template :
    (ofDefinition Catalog.definitions[1]).stripper.strip "a */ x = `b` /* c".toList =
        "a */ x = `b` /* c".toList ∧
      (ofDefinition Catalog.definitions[1]).classifyLine (.comment ⟨"*/".toList, by decide⟩)
          "a */ x = `b` /* c".toList =
        plainScan Catalog.definitions[1] "a */ x = `b` /* c".toList .comment
          (.comment ⟨"*/".toList, by decide⟩) "a */ x = `b` /* c".toList := by
  have hstrip : (ofDefinition Catalog.definitions[1]).stripper.strip
      "a */ x = `b` /* c".toList = "a */ x = `b` /* c".toList := by decide +kernel
  exact ⟨hstrip, classifyLine_eq_plainScan _ (.comment ⟨"*/".toList, by decide⟩) _ hstrip⟩

end Classifier

end LineCensus.Count
