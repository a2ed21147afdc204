import LineCensus.Language.Catalog
import LineCensus.Proofs.Count.Compiled

/-!
# The text of an open comment

Two lines that end the same open comment and go on alike are scanned in lockstep behind
it. The comments themselves come in only where stripping starts over at the head of the
line: a quote in the comment can take text out of the rest, and what is taken out of the
comment moves the rest away from the column reached. Where neither happens, the two
lines come to the same.
-/
namespace LineCensus.Count

open LineCensus.Text

/-- Texts that show the same from every distance behind two columns have their boundaries
at the same distances. -/
theorem boundary_sub_le {c₁ c₂ j : ℕ} {b₁ b₂ : List Char}
    (h : ∀ j, ahead (c₁ + j) b₁ = ahead (c₂ + j) b₂) (hne : ahead (c₁ + j) b₁ ≠ []) :
    (seek (c₂ + j) 0 b₂).1 - c₂ ≤ (seek (c₁ + j) 0 b₁).1 - c₁ := by
  by_contra hlt
  obtain ⟨q, hq, hb⟩ := exists_behind (c₁ + j) b₁
  obtain ⟨c, t, ht⟩ := List.exists_cons_of_ne_nil hne
  have hle : c₁ + j ≤ (seek (c₁ + j) 0 b₁).1 := le_seek hne
  -- one byte behind its boundary the first text shows less, and the second not yet
  let i := (seek (c₁ + j) 0 b₁).1 - c₁ + 1
  have hcol : c₁ + i = byteLength q + 1 := by omega
  have hless : ahead (c₁ + i) b₁ = t := by
    rw [hcol, hq, ht, ahead_append, ahead_one_cons]
  have hmore : ahead (c₂ + i) b₂ = ahead (c₂ + j) b₂ :=
    ahead_of_le_boundary (by omega) (by omega)
  rw [h, hmore, ← h, ht] at hless
  simp at hless

theorem exists_distance {c₁ c₂ j : ℕ} {b₁ b₂ : List Char}
    (h : ∀ j, ahead (c₁ + j) b₁ = ahead (c₂ + j) b₂) (hne : ahead (c₁ + j) b₁ ≠ []) :
    ∃ i, (seek (c₁ + j) 0 b₁).1 = c₁ + i ∧ (seek (c₂ + j) 0 b₂).1 = c₂ + i := by
  have hne' : ahead (c₂ + j) b₂ ≠ [] := by rwa [← h]
  have h₁ : c₁ + j ≤ (seek (c₁ + j) 0 b₁).1 := le_seek hne
  have h₂ : c₂ + j ≤ (seek (c₂ + j) 0 b₂).1 := le_seek hne'
  have hle := boundary_sub_le h hne
  have hge := boundary_sub_le (fun j => (h j).symm) hne'
  exact ⟨(seek (c₁ + j) 0 b₁).1 - c₁, by omega, by omega⟩

namespace Classifier

variable {k : Classifier} {N c₁ c₂ : ℕ} {l₁ l₂ : List Char} {s₁ s₂ : Scan}

/-- Over a number of passes of stripping, the same text lies ahead at every distance
behind two columns of two lines, and before each pass both lines start with a line
comment or neither does. -/
structure ShowSame (k : Classifier) (N c₁ : ℕ) (l₁ : List Char) (c₂ : ℕ) (l₂ : List Char) :
    Prop where
  ahead_eq : ∀ n ≤ N, ∀ j : ℕ,
    ahead (c₁ + j) (k.stripper.strip^[n] l₁) = ahead (c₂ + j) (k.stripper.strip^[n] l₂)
  startsComment_eq : ∀ n < N,
    k.startsComment (k.stripper.strip^[n] l₁) = k.startsComment (k.stripper.strip^[n] l₂)

/-- Scans of the two lines after the same number of passes, with enough passes left for
the first of them, at the same distance behind the two columns. -/
structure Aligned (k : Classifier) (N c₁ : ℕ) (l₁ : List Char) (c₂ : ℕ) (l₂ : List Char)
    (s₁ s₂ : Scan) : Prop where
  sound₁ : k.Sound s₁
  sound₂ : k.Sound s₂
  boundary₁ : s₁.boundary = s₁.column
  boundary₂ : s₂.boundary = s₂.column
  passes : ∃ n : ℕ, n + (k.outsides s₁).length ≤ N ∧
    s₁.buffer = k.stripper.strip^[n] l₁ ∧ s₂.buffer = k.stripper.strip^[n] l₂
  distance : ∃ j : ℕ, s₁.column = c₁ + j ∧ s₂.column = c₂ + j
  kind_eq : s₁.kind = s₂.kind
  carry_eq : s₁.carry = s₂.carry

theorem Aligned.ahead_eq (ha : Aligned k N c₁ l₁ c₂ l₂ s₁ s₂) (h : k.ShowSame N c₁ l₁ c₂ l₂) :
    s₁.ahead = s₂.ahead := by
  obtain ⟨n, hn, hn₁, hn₂⟩ := ha.passes
  obtain ⟨j, hj₁, hj₂⟩ := ha.distance
  rw [Scan.ahead, Scan.ahead, hn₁, hn₂, hj₁, hj₂, h.ahead_eq n (by omega)]

theorem Aligned.reaches_eq (ha : Aligned k N c₁ l₁ c₂ l₂ s₁ s₂)
    (h : k.ShowSame N c₁ l₁ c₂ l₂) :
    reaches s₁.column s₁.buffer = reaches s₂.column s₂.buffer := by
  apply Bool.eq_iff_iff.2
  rw [Scan.reaches_iff_ahead ha.boundary₁, Scan.reaches_iff_ahead ha.boundary₂, ha.ahead_eq h]

section Outside

variable (ha : Aligned k N c₁ l₁ c₂ l₂ s₁ s₂) (h : k.ShowSame N c₁ l₁ c₂ l₂)
  (hout : k.outsides s₁ ≠ [])

include ha hout

/-- Outside, one more pass is left to make. -/
theorem Aligned.passes_strip : ∃ n ≤ N, (k.strip s₁).buffer = k.stripper.strip^[n] l₁ ∧
    (k.strip s₂).buffer = k.stripper.strip^[n] l₂ := by
  obtain ⟨n, hn, hn₁, hn₂⟩ := ha.passes
  have hpos := List.length_pos_iff.2 hout
  refine ⟨n + 1, by omega, ?_, ?_⟩
  · rw [buffer_strip ha.sound₁, hn₁, Function.iterate_succ_apply']
  · rw [buffer_strip ha.sound₂, hn₂, Function.iterate_succ_apply']

include h

theorem Aligned.startsComment_eq :
    k.startsComment s₁.buffer = k.startsComment s₂.buffer := by
  obtain ⟨n, hn, hn₁, hn₂⟩ := ha.passes
  have hpos := List.length_pos_iff.2 hout
  rw [hn₁, hn₂, h.startsComment_eq n (by omega)]

theorem Aligned.ahead_strip_eq : (k.strip s₁).ahead = (k.strip s₂).ahead := by
  obtain ⟨n, hn, hn₁, hn₂⟩ := ha.passes_strip hout
  obtain ⟨j, hj₁, hj₂⟩ := ha.distance
  rw [Scan.ahead, Scan.ahead, hn₁, hn₂, column_strip, column_strip, hj₁, hj₂, h.ahead_eq n hn]

theorem Aligned.distance_strip (hne : (k.strip s₁).ahead ≠ []) :
    ∃ i, (k.strip s₁).boundary = c₁ + i ∧ (k.strip s₂).boundary = c₂ + i := by
  obtain ⟨n, hn, hn₁, hn₂⟩ := ha.passes_strip hout
  obtain ⟨j, hj₁, hj₂⟩ := ha.distance
  rw [Scan.ahead, hn₁, column_strip, hj₁] at hne
  rw [Scan.boundary, Scan.boundary, hn₁, hn₂, column_strip, column_strip, hj₁, hj₂]
  exact exists_distance (h.ahead_eq n hn) hne

end Outside

/-- Aligned scans close the open block at the same place. -/
theorem Aligned.close {read rest : List Char} (ha : Aligned k N c₁ l₁ c₂ l₂ s₁ s₂)
    (h₁ : s₁.ahead = read ++ rest) (h₂ : s₂.ahead = read ++ rest)
    (hleft : k.outsides s₁ = k.outsides (s₁.past read s₁.kind .nothing)) :
    Aligned k N c₁ l₁ c₂ l₂ (s₁.past read s₁.kind .nothing) (s₂.past read s₂.kind .nothing) where
  sound₁ := ha.sound₁
  sound₂ := ha.sound₂
  boundary₁ := Scan.boundary_past h₁ _ _
  boundary₂ := Scan.boundary_past h₂ _ _
  passes := by
    obtain ⟨n, hn, hn₁, hn₂⟩ := ha.passes
    exact ⟨n, by rwa [← hleft], hn₁, hn₂⟩
  distance := by
    obtain ⟨j, hj₁, hj₂⟩ := ha.distance
    refine ⟨j + byteLength read, ?_, ?_⟩
    · rw [Scan.column_past, ha.boundary₁, hj₁, Nat.add_assoc]
    · rw [Scan.column_past, ha.boundary₂, hj₂, Nat.add_assoc]
  kind_eq := ha.kind_eq
  carry_eq := rfl

/-- Aligned scans open a block at the same place. -/
theorem Aligned.open {read rest : List Char} {kind : LineKind} {carry : Carry}
    (ha : Aligned k N c₁ l₁ c₂ l₂ s₁ s₂) (h : k.ShowSame N c₁ l₁ c₂ l₂) (hread : read ≠ [])
    (h₁ : (k.strip s₁).ahead = read ++ rest) (h₂ : (k.strip s₂).ahead = read ++ rest)
    (hleft : k.outsides s₁ = s₁ :: k.outsides ((k.strip s₁).past read kind carry)) :
    Aligned k N c₁ l₁ c₂ l₂ ((k.strip s₁).past read kind carry)
      ((k.strip s₂).past read kind carry) where
  sound₁ := sound_strip ha.sound₁
  sound₂ := sound_strip ha.sound₂
  boundary₁ := Scan.boundary_past h₁ _ _
  boundary₂ := Scan.boundary_past h₂ _ _
  passes := by
    obtain ⟨n, hn, hn₁, hn₂⟩ := ha.passes
    rw [hleft, List.length_cons] at hn
    refine ⟨n + 1, by omega, ?_, ?_⟩
    · rw [Scan.buffer_past, buffer_strip ha.sound₁, hn₁, Function.iterate_succ_apply']
    · rw [Scan.buffer_past, buffer_strip ha.sound₂, hn₂, Function.iterate_succ_apply']
  distance := by
    obtain ⟨i, hi₁, hi₂⟩ := ha.distance_strip h (by simp [hleft]) (by simp [h₁, hread])
    refine ⟨i + byteLength read, ?_, ?_⟩
    · rw [Scan.column_past, hi₁, Nat.add_assoc]
    · rw [Scan.column_past, hi₂, Nat.add_assoc]
  kind_eq := rfl
  carry_eq := rfl

/-- Behind the head of the line, an opening is never at column zero. -/
theorem boundary_strip_pos {s : Scan} (hs : 0 < s.column) (hne : (k.strip s).ahead ≠ [])
    (before : List Char) : (k.strip s).boundary + byteLength before ≠ 0 := by
  have hle : (k.strip s).column ≤ (k.strip s).boundary := le_seek hne
  rw [column_strip] at hle
  omega

/-- One step of a scan is matched by one of a scan aligned with it. -/
theorem Aligned.exists_moves (ha : Aligned k N c₁ l₁ c₂ l₂ s₁ s₂)
    (h : k.ShowSame N c₁ l₁ c₂ l₂) (h₁ : 0 < c₁) (h₂ : 0 < c₂)
    (hs : reaches s₁.column s₁.buffer = true) {t₁ : Scan} (hm : k.Moves s₁ t₁) :
    ∃ t₂, k.Moves s₂ t₂ ∧ Aligned k N c₁ l₁ c₂ l₂ t₁ t₂ := by
  obtain ⟨j, hj₁, hj₂⟩ := ha.distance
  have hcol₁ : 0 < s₁.column := by omega
  have hcol₂ : 0 < s₂.column := by omega
  have hleft := outsides_of_moves hs hm
  cases hm with
  | close m before rest hcarry hcut =>
    have hahead := eq_append_of_cut hcut
    have hne : s₁.carry ≠ .nothing := by rcases hcarry with h | h <;> simp [h]
    rw [if_neg hne, List.nil_append] at hleft
    rw [ha.ahead_eq h] at hcut
    refine ⟨_, .close m before rest (by rwa [← ha.carry_eq]) hcut, ?_⟩
    exact ha.close hahead (eq_append_of_cut hcut) hleft
  | openComment b before rest hcarry hline hopen =>
    rw [if_pos hcarry, List.singleton_append] at hleft
    have hout : k.outsides s₁ ≠ [] := by simp [hleft]
    obtain ⟨-, hne, hahead₁⟩ := earliest?_eq_some hopen
    rw [ha.ahead_strip_eq h hout] at hopen
    obtain ⟨-, -, hahead₂⟩ := earliest?_eq_some hopen
    refine ⟨_, .openComment b before rest (by rwa [← ha.carry_eq])
      (by rwa [← ha.startsComment_eq h hout]) hopen, ?_⟩
    rw [if_neg (boundary_strip_pos hcol₁ (by simp [hahead₁, hne]) before)] at hleft ⊢
    rw [if_neg (boundary_strip_pos hcol₂ (by simp [hahead₂, hne]) before)]
    exact ha.open h (by simp [hne]) hahead₁ hahead₂ hleft
  | openString b before rest hcarry hline hnone hopen =>
    rw [if_pos hcarry, List.singleton_append] at hleft
    have hout : k.outsides s₁ ≠ [] := by simp [hleft]
    obtain ⟨-, hne, hahead₁⟩ := earliest?_eq_some hopen
    rw [ha.ahead_strip_eq h hout] at hnone hopen
    obtain ⟨-, -, hahead₂⟩ := earliest?_eq_some hopen
    refine ⟨_, .openString b before rest (by rwa [← ha.carry_eq])
      (by rwa [← ha.startsComment_eq h hout]) hnone hopen, ?_⟩
    exact ha.open h (by simp [hne]) hahead₁ hahead₂ hleft

/-- A scan ends the way a scan aligned with it does. -/
theorem Aligned.stops (ha : Aligned k N c₁ l₁ c₂ l₂ s₁ s₂) (h : k.ShowSame N c₁ l₁ c₂ l₂)
    (hs : reaches s₁.column s₁.buffer = true) {kind : LineKind} {carry : Carry}
    (hstops : k.Stops s₁ kind carry) : k.Stops s₂ kind carry := by
  have hleft := outsides_of_stops hs hstops
  cases hstops with
  | unclosed m hcarry hcut =>
    rw [ha.ahead_eq h] at hcut
    rw [ha.carry_eq] at hcarry
    rw [ha.kind_eq, ha.carry_eq]
    exact .unclosed m hcarry hcut
  | lineComment hcarry hline =>
    have hout : k.outsides s₁ ≠ [] := by simp [hleft, hcarry]
    exact .lineComment (by rwa [← ha.carry_eq]) (by rwa [← ha.startsComment_eq h hout])
  | code hcarry hline hcomments hstrings =>
    have hout : k.outsides s₁ ≠ [] := by simp [hleft, hcarry]
    rw [ha.ahead_strip_eq h hout] at hcomments hstrings
    exact .code (by rwa [← ha.carry_eq]) (by rwa [← ha.startsComment_eq h hout]) hcomments
      hstrings

/-- Aligned scans come to the same, by steps in lockstep. -/
theorem Aligned.scan_eq (ha : Aligned k N c₁ l₁ c₂ l₂ s₁ s₂) (h : k.ShowSame N c₁ l₁ c₂ l₂)
    (h₁ : 0 < c₁) (h₂ : 0 < c₂) : k.scan s₁ = k.scan s₂ := by
  refine scan_induction (P := fun s r => ∀ s', Aligned k N c₁ l₁ c₂ l₂ s s' → r = k.scan s')
    ?_ ?_ ?_ s₁ s₂ ha
  · intro s hend s' ha
    rw [ha.reaches_eq h] at hend
    rw [scan_of_end hend, ha.kind_eq, ha.carry_eq]
  · intro s kind carry hs hstops s' ha
    have hs' : reaches s'.column s'.buffer = true := by rwa [← ha.reaches_eq h]
    rw [scan_of_stops hs' (ha.stops h hs hstops)]
  · intro s t hs hmoves ih s' ha
    have hs' : reaches s'.column s'.buffer = true := by rwa [← ha.reaches_eq h]
    obtain ⟨t', hmoves', ha'⟩ := ha.exists_moves h h₁ h₂ hs hmoves
    rw [ih t' ha', scan_of_moves hs' hmoves']

/-- Lines that have a rest in common show the same behind what stands before it if they do
so after every pass. -/
theorem ShowSame.of_append {q₁ q₂ r : List Char}
    (hline : k.startsComment (q₁ ++ r) = k.startsComment (q₂ ++ r))
    (hahead : ∀ n j, 1 ≤ n → n ≤ N →
      ahead (byteLength q₁ + j) (k.stripper.strip^[n] (q₁ ++ r)) =
        ahead (byteLength q₂ + j) (k.stripper.strip^[n] (q₂ ++ r)))
    (hstarts : ∀ n, 1 ≤ n → n < N →
      k.startsComment (k.stripper.strip^[n] (q₁ ++ r)) =
        k.startsComment (k.stripper.strip^[n] (q₂ ++ r))) :
    k.ShowSame N (byteLength q₁) (q₁ ++ r) (byteLength q₂) (q₂ ++ r) where
  ahead_eq
    | 0, _, j => by
      rw [Function.iterate_zero_apply, Function.iterate_zero_apply, ahead_append, ahead_append]
    | n + 1, hn, j => hahead (n + 1) j (by omega) hn
  startsComment_eq
    | 0, _ => hline
    | n + 1, hn => hstarts (n + 1) (by omega) hn

/-- Two lines that end the open comment at its first closing token, go on alike and do not
start with a line comment come to the same kind and leave the same block open, if they
still show the same behind the token, and still agree on starting with a line comment,
after each pass of stripping that the scan of the first makes. -/
theorem classifyLine_of_ended_comment (k : Classifier) (e : Marker) (p₁ p₂ r : List Char)
    (hfirst₁ : ∀ q, q ++ e.chars <+: p₁ ++ e.chars ++ r → p₁.length ≤ q.length)
    (hfirst₂ : ∀ q, q ++ e.chars <+: p₂ ++ e.chars ++ r → p₂.length ≤ q.length)
    (hline₁ : k.startsComment (p₁ ++ e.chars ++ r) = false)
    (hline₂ : k.startsComment (p₂ ++ e.chars ++ r) = false)
    (hahead : ∀ n j, 1 ≤ n → n ≤ k.turns (.comment e) (p₁ ++ e.chars ++ r) →
      ahead (byteLength (p₁ ++ e.chars) + j) (k.stripper.strip^[n] (p₁ ++ e.chars ++ r)) =
        ahead (byteLength (p₂ ++ e.chars) + j) (k.stripper.strip^[n] (p₂ ++ e.chars ++ r)))
    (hstarts : ∀ n, 1 ≤ n → n < k.turns (.comment e) (p₁ ++ e.chars ++ r) →
      k.startsComment (k.stripper.strip^[n] (p₁ ++ e.chars ++ r)) =
        k.startsComment (k.stripper.strip^[n] (p₂ ++ e.chars ++ r))) :
    k.classifyLine (.comment e) (p₁ ++ e.chars ++ r) =
      k.classifyLine (.comment e) (p₂ ++ e.chars ++ r) := by
  have hcut₁ : cut e.chars (p₁ ++ e.chars ++ r) = some (p₁, r) := cut_eq_some_iff.2 ⟨rfl, hfirst₁⟩
  have hcut₂ : cut e.chars (p₂ ++ e.chars ++ r) = some (p₂, r) := cut_eq_some_iff.2 ⟨rfl, hfirst₂⟩
  have hsame := ShowSame.of_append (hline₁.trans hline₂.symm) hahead hstarts
  have hpos : ∀ p : List Char, 0 < byteLength (p ++ e.chars) := fun p =>
    byteLength_pos (by simp [e.chars_ne_nil])
  -- the step that closes the comment is inside, and leaves every turn to come
  have hleft := outsides_of_moves (Scan.reaches_start.2 (line_ne_nil_of_cut hcut₁))
    (moves_start (k := k) (Or.inl rfl) hcut₁)
  rw [Scan.carry_start, if_neg (by simp), List.nil_append] at hleft
  rw [classifyLine_of_cut (Or.inl rfl) hcut₁, classifyLine_of_cut (Or.inl rfl) hcut₂]
  refine Aligned.scan_eq ?_ hsame (hpos p₁) (hpos p₂)
  exact {
    sound₁ := k.sound_start (.comment e) _
    sound₂ := k.sound_start (.comment e) _
    boundary₁ := Scan.boundary_past (Scan.ahead_start _ _) _ _
    boundary₂ := Scan.boundary_past (Scan.ahead_start _ _) _ _
    passes := ⟨0, by rw [← hleft, Nat.zero_add, turns], rfl, rfl⟩
    distance := ⟨0, by simp, by simp⟩
    kind_eq := rfl
    carry_eq := rfl }

/-- A word of comment text changes nothing for the call and the comment behind it. -/
theorem classifyLine_of_ended_remark :
    (ofDefinition Catalog.definitions[0]).classifyLine (.comment ⟨"*/".toList, by decide⟩)
        ("a ".toList ++ "*/".toList ++ " x(\"s\"); /* y".toList) =
      (ofDefinition Catalog.definitions[0]).classifyLine (.comment ⟨"*/".toList, by decide⟩)
        ([] ++ "*/".toList ++ " x(\"s\"); /* y".toList) := by
  have hfirst : ∀ q, q ++ "*/".toList <+: "a ".toList ++ "*/".toList ++
      " x(\"s\"); /* y".toList → "a ".toList.length ≤ q.length :=
    (cut_eq_some_iff.1 (show cut _ _ = some (_, " x(\"s\"); /* y".toList) by decide +kernel)).2
  have hstrip₁ : (ofDefinition Catalog.definitions[0]).stripper.strip
      ("a ".toList ++ "*/".toList ++ " x(\"s\"); /* y".toList) =
        "a ".toList ++ "*/".toList ++ " x(); /* y".toList := by decide +kernel
  have hstrip₂ : (ofDefinition Catalog.definitions[0]).stripper.strip
      ([] ++ "*/".toList ++ " x(\"s\"); /* y".toList) =
        [] ++ "*/".toList ++ " x(); /* y".toList := by decide +kernel
  refine classifyLine_of_ended_comment _ ⟨"*/".toList, by decide⟩ _ _ _ hfirst
    (fun q _ => Nat.zero_le q.length) (by decide +kernel) (by decide +kernel) ?_ ?_
  · intro n j hn _
    rw [Stripper.iterate_strip_eq_strip (by rw [hstrip₁]; decide +kernel) hn,
      Stripper.iterate_strip_eq_strip (by rw [hstrip₂]; decide +kernel) hn, hstrip₁, hstrip₂,
      ahead_append, ahead_append]
  · intro n hn _
    rw [Stripper.iterate_strip_eq_strip (by rw [hstrip₁]; decide +kernel) hn,
      Stripper.iterate_strip_eq_strip (by rw [hstrip₂]; decide +kernel) hn]
    decide +kernel

/-- A quoted letter in a comment takes the comment behind it out of sight. -/
theorem not_all_comment_text_inert :
    ¬ ∀ d ∈ Catalog.definitions, ∀ (e : Marker) (p₁ p₂ r : List Char),
      (∀ q, q ++ e.chars <+: p₁ ++ e.chars ++ r → p₁.length ≤ q.length) →
      (∀ q, q ++ e.chars <+: p₂ ++ e.chars ++ r → p₂.length ≤ q.length) →
      (ofDefinition d).startsComment (p₁ ++ e.chars ++ r) = false →
      (ofDefinition d).startsComment (p₂ ++ e.chars ++ r) = false →
      (ofDefinition d).classifyLine (.comment e) (p₁ ++ e.chars ++ r) =
        (ofDefinition d).classifyLine (.comment e) (p₂ ++ e.chars ++ r) := by
  intro h
  have hcpp : Catalog.definitions[0] ∈ Catalog.definitions := List.getElem_mem _
  have hfirst : ∀ q, q ++ "*/".toList <+: "\"a\"".toList ++ "*/".toList ++ " /* x".toList →
      "\"a\"".toList.length ≤ q.length :=
    (cut_eq_some_iff.1 (show cut _ _ = some (_, " /* x".toList) by decide +kernel)).2
  have hsame := h _ hcpp ⟨"*/".toList, by decide⟩ [] "\"a\"".toList " /* x".toList
    (fun q _ => Nat.zero_le q.length) hfirst (by decide +kernel) (by decide +kernel)
  revert hsame
  decide +kernel

end Classifier

end LineCensus.Count
