import LineCensus.Proofs.Count.ScanRun

/-!
# What decides the kind of a line

A step inside a block leaves the kind of the line as it is, and a step outside all
blocks sets it anew. So the last step outside decides, and a line without such a step
keeps the kind it began with.
-/
namespace LineCensus.Count.Classifier

open LineCensus.Text

variable {k : Classifier} {s t : Scan}

/-- The places outside all blocks, with a byte ahead, that a scan goes through. -/
def outsides (k : Classifier) (s : Scan) : List Scan :=
  if hs : reaches s.column s.buffer then
    (if s.carry = .nothing then [s] else []) ++
      match h : k.step s with
      | .done _ _ => []
      | .next t =>
        have := step_next h
        have := reaches_iff.1 hs
        k.outsides t
  else []
termination_by byteLength s.buffer - s.column

theorem outsides_of_end (h : reaches s.column s.buffer = false) : k.outsides s = [] := by
  rw [outsides, dif_neg (by simp [h])]

theorem outsides_of_stops {kind : LineKind} {carry : Carry}
    (hs : reaches s.column s.buffer = true) (h : k.Stops s kind carry) :
    k.outsides s = if s.carry = .nothing then [s] else [] := by
  rw [outsides, dif_pos hs]
  refine List.append_right_eq_self.2 ?_
  split
  · rfl
  · rename_i hd
    cases hd.symm.trans (step_eq_done_iff.2 h)

theorem outsides_of_moves (hs : reaches s.column s.buffer = true) (h : k.Moves s t) :
    k.outsides s = (if s.carry = .nothing then [s] else []) ++ k.outsides t := by
  rw [outsides, dif_pos hs]
  congr 1
  split
  · rename_i hd
    cases hd.symm.trans (step_eq_next_iff.2 h)
  · rename_i hd
    cases hd.symm.trans (step_eq_next_iff.2 h)
    rfl

/-- What a scan has and every step hands on, each place outside has. -/
theorem mem_outsides {Q : Scan → Prop} (hstep : ∀ s t, Q s → k.Moves s t → Q t)
    (hs : Q s) {u : Scan} (hu : u ∈ k.outsides s) : Q u ∧ u.carry = .nothing := by
  have run : ∀ s, Q s → u ∈ k.outsides s → Q u ∧ u.carry = .nothing := by
    intro s
    refine scan_induction (k := k)
      (P := fun s _ => Q s → u ∈ k.outsides s → Q u ∧ u.carry = .nothing) ?_ ?_ ?_ s
    · intro s hend _ hu
      simp [outsides_of_end hend] at hu
    · intro s kind carry hreach hstops hq hu
      rw [outsides_of_stops hreach hstops] at hu
      split at hu
      · obtain rfl := List.mem_singleton.1 hu
        exact ⟨hq, by assumption⟩
      · cases hu
    · intro s t hreach hmoves ih hq hu
      rw [outsides_of_moves hreach hmoves, List.mem_append] at hu
      rcases hu with hu | hu
      · split at hu
        · obtain rfl := List.mem_singleton.1 hu
          exact ⟨hq, by assumption⟩
        · cases hu
      · exact ih (hstep s t hq hmoves) hu
  exact run s hs hu

/-- Every place outside finds the buffer stripped once more than the one before. -/
theorem buffer_outsides (h : k.Sound s) {i : ℕ} {u : Scan} (hu : (k.outsides s)[i]? = some u) :
    u.buffer = k.stripper.strip^[i] s.buffer := by
  have run : ∀ s, k.Sound s → ∀ i, (k.outsides s)[i]? = some u →
      u.buffer = k.stripper.strip^[i] s.buffer := by
    intro s
    refine scan_induction (k := k) (P := fun s _ => k.Sound s → ∀ i,
      (k.outsides s)[i]? = some u → u.buffer = k.stripper.strip^[i] s.buffer) ?_ ?_ ?_ s
    · intro s hend _ i hu
      simp [outsides_of_end hend] at hu
    · intro s kind carry hreach hstops _ i hu
      rw [outsides_of_stops hreach hstops] at hu
      split at hu
      · obtain ⟨rfl, rfl⟩ : i = 0 ∧ s = u := by simpa [List.getElem?_singleton] using hu
        rfl
      · simp at hu
    · intro s t hreach hmoves ih hsound i hu
      have hbuf := buffer_of_moves hsound hmoves
      rw [outsides_of_moves hreach hmoves] at hu
      split at hu
      · rename_i hcarry
        rw [if_pos hcarry] at hbuf
        cases i with
        | zero =>
          obtain rfl : s = u := by simpa using hu
          rfl
        | succ i =>
          rw [ih (sound_of_moves hsound hmoves) i (by simpa using hu), hbuf,
            Function.iterate_succ_apply]
      · rename_i hcarry
        rw [if_neg hcarry] at hbuf
        rw [ih (sound_of_moves hsound hmoves) i (by simpa using hu), hbuf]
  exact run s h i hu

/-- How often a scan of the line is outside all blocks with a byte ahead. -/
def turns (k : Classifier) (carry : Carry) (line : List Char) : ℕ :=
  (k.outsides (.start carry line)).length

theorem buffer_last_outside {carry : Carry} {line : List Char} {u : Scan}
    (hu : (k.outsides (.start carry line)).getLast? = some u) :
    u.buffer = k.stripper.strip^[k.turns carry line - 1] line := by
  rw [List.getLast?_eq_getElem?] at hu
  exact buffer_outsides (k.sound_start carry line) hu

/-- Whether a block comment opens at the head of a text. -/
def opensComment (k : Classifier) (line : List Char) : Bool :=
  k.blockComments.any (·.opening.begins line)

theorem opensComment_iff {line : List Char} :
    k.opensComment line = true ↔
      ∃ b rest, earliest? Block.openingChars k.blockComments line = some ([], b, rest) := by
  rw [earliest?_head, opensComment, List.any_eq_true]
  constructor
  · rintro ⟨b, hb, hbegins⟩
    exact ⟨b, hb, b.openingChars_ne_nil, List.isPrefixOf_iff_prefix.1 hbegins⟩
  · rintro ⟨b, hb, -, hprefix⟩
    exact ⟨b, hb, List.isPrefixOf_iff_prefix.2 hprefix⟩

/-- The kind that a step outside all blocks gives to the line. -/
def verdict (k : Classifier) (s : Scan) : LineKind :=
  if k.startsComment s.buffer || (s.column == 0 && k.opensComment (k.strip s).buffer) then
    .comment
  else .code

theorem verdict_eq_comment_iff :
    k.verdict s = .comment ↔
      k.startsComment s.buffer = true ∨
        s.column = 0 ∧ k.opensComment (k.strip s).buffer = true := by
  unfold verdict
  split <;> simp_all

theorem ahead_of_column_zero (h : s.column = 0) : s.ahead = s.buffer ∧ s.boundary = 0 := by
  rw [Scan.ahead, Scan.boundary, h]
  exact ⟨ahead_zero _, by rw [seek_of_le (Nat.le_refl 0)]⟩

/-- The earliest opening stands at column zero exactly when the scan is there and a block
comment opens at the head of the buffer. -/
theorem place_eq_zero_iff {b : Block} {before rest : List Char}
    (h : earliest? Block.openingChars k.blockComments s.ahead = some (before, b, rest)) :
    s.boundary + byteLength before = 0 ↔ s.column = 0 ∧ k.opensComment s.buffer = true := by
  constructor
  · intro hzero
    have hahead : s.ahead ≠ [] := by
      intro hnil
      rw [hnil] at h
      cases h
    have hle : s.column ≤ s.boundary := le_seek hahead
    have hcol : s.column = 0 := by omega
    have hbefore : before = [] := by
      by_contra hne
      have := byteLength_pos hne
      omega
    rw [hbefore, (ahead_of_column_zero hcol).1] at h
    exact ⟨hcol, opensComment_iff.2 ⟨b, rest, h⟩⟩
  · rintro ⟨hcol, hopens⟩
    obtain ⟨c, r, hc⟩ := opensComment_iff.1 hopens
    rw [(ahead_of_column_zero hcol).1, hc] at h
    cases h
    simp [(ahead_of_column_zero hcol).2]

theorem verdict_of_stops {kind : LineKind} {carry : Carry} (h : k.Stops s kind carry)
    (hcarry : s.carry = .nothing) : kind = k.verdict s := by
  cases h with
  | unclosed m hblock hcut => simp [hcarry] at hblock
  | lineComment _ hline => exact (verdict_eq_comment_iff.2 (Or.inl hline)).symm
  | code _ hline hcomments hstrings =>
    have hno : ¬ (s.column = 0 ∧ k.opensComment (k.strip s).buffer = true) := by
      rintro ⟨hcol, hopens⟩
      obtain ⟨b, rest, hb⟩ := opensComment_iff.1 hopens
      rw [← column_strip k s] at hcol
      rw [(ahead_of_column_zero hcol).1, hb] at hcomments
      cases hcomments
    unfold verdict
    rw [if_neg (by simpa [hline] using hno)]

theorem verdict_of_moves (h : k.Moves s t) (hcarry : s.carry = .nothing) :
    t.kind = k.verdict s := by
  cases h with
  | close m before rest hblock hcut => simp [hcarry] at hblock
  | openComment b before rest _ hline hopen =>
    have hplace := place_eq_zero_iff hopen
    rw [column_strip] at hplace
    unfold verdict
    by_cases hhead : s.column = 0 ∧ k.opensComment (k.strip s).buffer = true
    · simp only [hplace.2 hhead, if_true]
      rw [if_pos (by simp [hhead]), Scan.kind_past]
    · simp only [mt hplace.1 hhead, if_false]
      rw [if_neg (by simpa [hline] using hhead), Scan.kind_past]
  | openString b before rest _ hline hnone hopen =>
    have hno : ¬ (s.column = 0 ∧ k.opensComment (k.strip s).buffer = true) := by
      rintro ⟨hcol, hopens⟩
      obtain ⟨c, r, hc⟩ := opensComment_iff.1 hopens
      rw [← column_strip k s] at hcol
      rw [(ahead_of_column_zero hcol).1, hc] at hnone
      cases hnone
    unfold verdict
    rw [if_neg (by simpa [hline] using hno), Scan.kind_past]

/-- The last place outside decides the kind of the line. -/
theorem kind_scan (k : Classifier) (s : Scan) :
    (k.scan s).1 = ((k.outsides s).getLast?.map k.verdict).getD s.kind := by
  refine scan_induction (k := k)
    (P := fun s r => r.1 = ((k.outsides s).getLast?.map k.verdict).getD s.kind) ?_ ?_ ?_ s
  · intro s hend
    simp [outsides_of_end hend]
  · intro s kind carry hreach hstops
    rw [outsides_of_stops hreach hstops]
    split
    · rename_i hcarry
      simpa using verdict_of_stops hstops hcarry
    · rename_i hcarry
      cases hstops with
      | unclosed m hblock hcut => simp
      | lineComment h hline => exact absurd h hcarry
      | code h hline hcomments hstrings => exact absurd h hcarry
  · intro s t hreach hmoves ih
    rw [ih, outsides_of_moves hreach hmoves, List.getLast?_append]
    cases hlast : (k.outsides t).getLast? with
    | some u => simp
    | none =>
      split
      · rename_i hcarry
        simpa using verdict_of_moves hmoves hcarry
      · rename_i hcarry
        cases hmoves with
        | close m before rest hblock hcut => simp
        | openComment b before rest h hline hopen => exact absurd h hcarry
        | openString b before rest h hline hnone hopen => exact absurd h hcarry

end LineCensus.Count.Classifier
