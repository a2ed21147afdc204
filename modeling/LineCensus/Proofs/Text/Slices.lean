import LineCensus.Proofs.Loop
import LineCensus.Proofs.Text.Occurrence
import LineCensus.Proofs.Text.Terminators
import LineCensus.Text.Utf8

/-!
# Slices by byte columns

A slice of a text begins and ends at columns. It exists only where both are boundaries between
characters and stand in this order within the text, so what is computed from slices has a
result only where every slice that it takes exists. The searches from a column and the lines
of a text come out of slices: none of those that they take is missing.
-/
namespace LineCensus.Text

/-! ## Slices -/

/-- The text before a column and the text from there on, if the column is a boundary. -/
def splitColumn? : ℕ → List Char → Option (List Char × List Char)
  | 0, s => some ([], s)
  | _ + 1, [] => none
  | column + 1, c :: s =>
    if c.utf8Size ≤ column + 1 then
      (splitColumn? (column + 1 - c.utf8Size) s).map fun p => (c :: p.1, p.2)
    else none

/-- The slice from a column on. -/
def from? (column : ℕ) (s : List Char) : Option (List Char) :=
  (splitColumn? column s).map Prod.snd

/-- The slice from one column to another. -/
def slice? (start stop : ℕ) (s : List Char) : Option (List Char) := do
  let (before, _) ← splitColumn? stop s
  from? start before

theorem splitColumn?_eq_some_iff {column : ℕ} {s q t : List Char} :
    splitColumn? column s = some (q, t) ↔ s = q ++ t ∧ byteLength q = column := by
  fun_induction splitColumn? column s generalizing q t with
  | case1 s =>
    rw [byteLength_eq_zero, Option.some_inj, Prod.mk.injEq]
    constructor
    · rintro ⟨rfl, rfl⟩
      exact ⟨rfl, rfl⟩
    · rintro ⟨rfl, rfl⟩
      exact ⟨rfl, rfl⟩
  | case2 column =>
    refine iff_of_false (by simp) ?_
    rintro ⟨hs, hlen⟩
    obtain ⟨rfl, rfl⟩ := List.append_eq_nil_iff.1 hs.symm
    cases hlen
  | case3 column c s hc ih =>
    rw [Option.map_eq_some_iff]
    constructor
    · rintro ⟨⟨q', t'⟩, hsplit, hp⟩
      cases hp
      obtain ⟨rfl, hlen⟩ := ih.1 hsplit
      refine ⟨rfl, ?_⟩
      rw [byteLength_cons, hlen]
      omega
    · rintro ⟨hs, hlen⟩
      cases q with
      | nil => cases hlen
      | cons d q =>
        obtain ⟨rfl, rfl⟩ := List.cons.inj hs
        rw [byteLength_cons] at hlen
        exact ⟨(q, t), ih.2 ⟨rfl, by omega⟩, rfl⟩
  | case4 column c s hc =>
    refine iff_of_false (by simp) ?_
    rintro ⟨hs, hlen⟩
    cases q with
    | nil => cases hlen
    | cons d q =>
      obtain ⟨rfl, -⟩ := List.cons.inj hs
      rw [byteLength_cons] at hlen
      omega

theorem from?_eq_some_iff {column : ℕ} {s t : List Char} :
    from? column s = some t ↔ ∃ q, s = q ++ t ∧ byteLength q = column := by
  simp [from?, splitColumn?_eq_some_iff]

/-- No slice starts inside a character. -/
example : from? 1 ['é', 'a'] = none ∧ from? 2 ['é', 'a'] = some ['a'] := by decide

theorem slice?_eq_some_iff {start stop : ℕ} {s m : List Char} :
    slice? start stop s = some m ↔
      ∃ q t, s = q ++ m ++ t ∧ byteLength q = start ∧ byteLength (q ++ m) = stop := by
  rw [slice?, Option.bind_eq_bind, Option.bind_eq_some_iff]
  constructor
  · rintro ⟨⟨before, t⟩, hsplit, hm⟩
    obtain ⟨rfl, hstop⟩ := splitColumn?_eq_some_iff.1 hsplit
    obtain ⟨q, rfl, hstart⟩ := from?_eq_some_iff.1 hm
    exact ⟨q, t, rfl, hstart, hstop⟩
  · rintro ⟨q, t, rfl, hstart, hstop⟩
    exact ⟨(q ++ m, t), splitColumn?_eq_some_iff.2 ⟨rfl, hstop⟩,
      from?_eq_some_iff.2 ⟨q, rfl, hstart⟩⟩

theorem from?_byteLength (q t : List Char) : from? (byteLength q) (q ++ t) = some t :=
  from?_eq_some_iff.2 ⟨q, rfl, rfl⟩

theorem slice?_byteLength (q m t : List Char) :
    slice? (byteLength q) (byteLength (q ++ m)) (q ++ m ++ t) = some m :=
  slice?_eq_some_iff.2 ⟨q, t, rfl, rfl, rfl⟩

/-- The column at which an end of a text starts. -/
def columnOf (s t : List Char) : ℕ := byteLength s - byteLength t

@[simp] theorem columnOf_append (q t : List Char) : columnOf (q ++ t) t = byteLength q := by
  rw [columnOf, byteLength_append, Nat.add_sub_cancel_right]

theorem from?_eq_some_iff_suffix {column : ℕ} {s t : List Char} :
    from? column s = some t ↔ t <:+ s ∧ columnOf s t = column := by
  rw [from?_eq_some_iff]
  constructor
  · rintro ⟨q, rfl, hlen⟩
    exact ⟨List.suffix_append q t, by rw [columnOf_append, hlen]⟩
  · rintro ⟨⟨q, rfl⟩, hcolumn⟩
    exact ⟨q, rfl, by rw [← hcolumn, columnOf_append]⟩

theorem from?_columnOf {s t : List Char} (h : t <:+ s) : from? (columnOf s t) s = some t :=
  from?_eq_some_iff_suffix.2 ⟨h, rfl⟩

/-- Behind a beginning of an end of the text, the column is further on by its length. -/
theorem columnOf_of_append {s q t : List Char} (h : q ++ t <:+ s) :
    columnOf s t = columnOf s (q ++ t) + byteLength q := by
  obtain ⟨before, rfl⟩ := h
  rw [columnOf_append, ← List.append_assoc, columnOf_append, byteLength_append]

/-! ## Searches from a column -/

def isBoundary (column : ℕ) (s : List Char) : Bool := (splitColumn? column s).isSome

/-- The first boundary at or after a column, or the end of the text. -/
def ceilBoundary (column : ℕ) (s : List Char) : ℕ :=
  ((List.range' column (byteLength s - column)).find? fun i => isBoundary i s).getD (byteLength s)

/-- The column where a token first begins in the slice from the next boundary on. -/
def findFrom? (needle : List Char) (column : ℕ) (s : List Char) : Option (Option ℕ) := do
  let start := ceilBoundary column s
  let ahead ← from? start s
  return (occurrenceAt needle 0 ahead).map (· + start)

theorem isBoundary_iff {column : ℕ} {s : List Char} :
    isBoundary column s = true ↔ ∃ q t, s = q ++ t ∧ byteLength q = column := by
  simp [isBoundary, Option.isSome_iff_exists, splitColumn?_eq_some_iff]

theorem le_fst_seek (column here : ℕ) (s : List Char) : here ≤ (seek column here s).1 := by
  induction s generalizing here with
  | nil => exact Nat.le_refl _
  | cons c s ih =>
    rw [seek]
    split
    · exact Nat.le_refl _
    · exact (Nat.le_add_right _ _).trans (ih _)

/-- No boundary stands between a column and the one that is found from it. -/
theorem fst_seek_le_of_isBoundary {column j : ℕ} {s : List Char} (hj : column ≤ j)
    (h : isBoundary j s = true) : (seek column 0 s).1 ≤ j := by
  obtain ⟨q, t, rfl, rfl⟩ := isBoundary_iff.1 h
  have hseek := seek_seek hj 0 (q ++ t)
  rw [seek_byteLength] at hseek
  calc (seek column 0 (q ++ t)).1
      ≤ (seek (byteLength q) (seek column 0 (q ++ t)).1 (seek column 0 (q ++ t)).2).1 :=
        le_fst_seek _ _ _
    _ = byteLength q := by rw [hseek]

theorem ceilBoundary_eq (column : ℕ) (s : List Char) :
    ceilBoundary column s = (seek column 0 s).1 := by
  obtain ⟨q, hq, hb⟩ := exists_behind column s
  have hlength : byteLength s = (seek column 0 s).1 + byteLength (ahead column s) := by
    rw [hb, ← byteLength_append, ← hq]
  have hboundary : isBoundary (seek column 0 s).1 s = true :=
    isBoundary_iff.2 ⟨q, ahead column s, hq, hb.symm⟩
  have hfirst : ∀ j, column ≤ j → j < (seek column 0 s).1 → ¬ isBoundary j s = true :=
    fun j hj hlt h => absurd (fst_seek_le_of_isBoundary hj h) (by omega)
  by_cases hend : ahead column s = []
  · have hnone : (List.range' column (byteLength s - column)).find?
        (fun i => isBoundary i s) = none := by
      rw [hend, byteLength_nil, Nat.add_zero] at hlength
      refine List.find?_eq_none.2 fun j hj => ?_
      rw [List.mem_range'_1] at hj
      exact hfirst j hj.1 (by omega)
    rw [ceilBoundary, hnone, hlength, hend]
    rfl
  · have hle : column ≤ (seek column 0 s).1 := le_seek hend
    have hpos := byteLength_pos hend
    have hfound : (List.range' column (byteLength s - column)).find?
        (fun i => isBoundary i s) = some (seek column 0 s).1 := by
      refine List.find?_range'_eq_some.2 ⟨hboundary, ?_, fun j hj hlt => ?_⟩
      · rw [List.mem_range'_1]
        omega
      · simpa using hfirst j hj hlt
    rw [ceilBoundary, hfound]
    rfl

/-- The slice that a search from a column looks at exists, and what is found in it is the first
occurrence at or after the column. -/
theorem findFrom?_eq (needle : List Char) (column : ℕ) (s : List Char) :
    findFrom? needle column s = some (occurrenceFrom needle column s) := by
  obtain ⟨q, hq, hb⟩ := exists_behind column s
  have hahead : from? (ceilBoundary column s) s = some (ahead column s) :=
    from?_eq_some_iff.2 ⟨q, hq, by rw [ceilBoundary_eq, hb]⟩
  have hfound : (occurrenceAt needle 0 (ahead column s)).map (· + ceilBoundary column s) =
      occurrenceFrom needle column s := by
    rw [occurrenceFrom_eq, occurrenceAt_eq, ceilBoundary_eq, Option.map_map]
    congr 1
    funext p
    simp [Nat.add_comm]
  rw [findFrom?, hahead, ← hfound]
  rfl

/-- A search from inside a character starts behind it. -/
example : findFrom? ['a'] 1 ['é', 'a'] = some (some 2) := by decide

/-! ## Lines -/

/-- Where a search for the ends of lines has come to: the lines found so far, the column where
the next one starts, and the column of the byte looked at. -/
structure LineCursor where
  lines : List (List Char) := []
  start : ℕ := 0
  index : ℕ := 0
deriving DecidableEq, Repr

/-- A line ends at a line feed and at a carriage return, and the next one starts behind these
and behind a line feed after the carriage return. The last line starts there too. -/
def lineTurn? (text : List Char) (c : LineCursor) :
    Option (Turn LineCursor (List (List Char))) :=
  let bytes := Utf8.encode text
  match bytes[c.index]? with
  | none => do
    let line ← from? c.start text
    return .last (c.lines ++ [line])
  | some byte =>
    if byte = 0x0A then do
      let line ← slice? c.start c.index text
      return .next ⟨c.lines ++ [line], c.index + 1, c.index + 1⟩
    else if byte = 0x0D then do
      let line ← slice? c.start c.index text
      let index := if bytes[c.index + 1]? = some 0x0A then c.index + 1 else c.index
      return .next ⟨c.lines ++ [line], index + 1, index + 1⟩
    else return .next { c with index := c.index + 1 }

/-- The lines of a text, found by its bytes. -/
noncomputable def linesByBytes? (text : List Char) : Option (List (List Char)) :=
  loop (lineTurn? text) {}

theorem length_encode (s : List Char) : (Utf8.encode s).length = byteLength s := by
  induction s with
  | nil => rfl
  | cons c s ih =>
    rw [byteLength_cons, ← ih, ← String.length_utf8EncodeChar, ← List.length_append]
    rfl

/-- A byte below 128 is a character by itself. -/
theorem toNat_of_mem_utf8EncodeChar {c : Char} {b : UInt8} (h : b ∈ String.utf8EncodeChar c)
    (hb : b.toNat < 128) : c.toNat = b.toNat := by
  rw [String.utf8EncodeChar] at h
  split at h
  · obtain rfl := List.mem_singleton.1 h
    rw [UInt8.toNat_ofNat', Nat.mod_eq_of_lt (by omega)]
    rfl
  · -- all bytes of a longer character have their highest bit set
    exfalso
    split at h
    · simp only [List.mem_cons, List.not_mem_nil, or_false] at h
      rcases h with rfl | rfl <;> rw [UInt8.toNat_ofNat'] at hb <;> omega
    · split at h
      · simp only [List.mem_cons, List.not_mem_nil, or_false] at h
        rcases h with rfl | rfl | rfl <;> rw [UInt8.toNat_ofNat'] at hb <;> omega
      · simp only [List.mem_cons, List.not_mem_nil, or_false] at h
        rcases h with rfl | rfl | rfl | rfl <;> rw [UInt8.toNat_ofNat'] at hb <;> omega

theorem eq_feed_of_mem_utf8EncodeChar {c : Char} (h : 0x0A ∈ String.utf8EncodeChar c) :
    c = '\n' :=
  Char.toNat_inj.1 (toNat_of_mem_utf8EncodeChar h (by decide))

theorem eq_return_of_mem_utf8EncodeChar {c : Char} (h : 0x0D ∈ String.utf8EncodeChar c) :
    c = '\r' :=
  Char.toNat_inj.1 (toNat_of_mem_utf8EncodeChar h (by decide))

/-- A text whose first byte is a line feed starts with one. -/
theorem head?_encode_eq_feed_iff {s : List Char} :
    (Utf8.encode s).head? = some 0x0A ↔ s.head? = some '\n' := by
  cases s with
  | nil => simp [Utf8.encode]
  | cons c s =>
    have hhead : (Utf8.encode (c :: s)).head? = (String.utf8EncodeChar c).head? :=
      List.head?_append_of_ne_nil _ String.utf8EncodeChar_ne_nil
    rw [hhead, List.head?_cons, Option.some_inj]
    constructor
    · intro h
      exact eq_feed_of_mem_utf8EncodeChar (List.mem_of_head? h)
    · rintro rfl
      rfl

/-- What stands behind a beginning of the text starts at the byte of its column. -/
theorem getElem?_encode (q s : List Char) (j : ℕ) :
    (Utf8.encode (q ++ s))[byteLength q + j]? = (Utf8.encode s)[j]? := by
  rw [Utf8.encode_append, ← length_encode, List.getElem?_append_right (Nat.le_add_right _ _),
    Nat.add_sub_cancel_left]

/-- Bytes that end no line are passed. -/
theorem loop_lineTurn?_of_plain {text : List Char} {before bytes behind : List UInt8}
    (htext : Utf8.encode text = before ++ bytes ++ behind)
    (hplain : ∀ b ∈ bytes, b ≠ 0x0A ∧ b ≠ 0x0D) (lines : List (List Char)) (start : ℕ) :
    loop (lineTurn? text) ⟨lines, start, before.length⟩ =
      loop (lineTurn? text) ⟨lines, start, (before ++ bytes).length⟩ := by
  induction bytes generalizing before with
  | nil => rw [List.append_nil]
  | cons b bytes ih =>
    obtain ⟨⟨hn, hr⟩, hplain⟩ := List.forall_mem_cons.1 hplain
    have hbyte : (Utf8.encode text)[before.length]? = some b := by simp [htext]
    have hturn : lineTurn? text ⟨lines, start, before.length⟩ =
        some (.next ⟨lines, start, (before ++ [b]).length⟩) := by
      simp [lineTurn?, hbyte, hn, hr]
    rw [loop_of_next hturn, ih (by simpa using htext) hplain, List.append_assoc]
    rfl

theorem byte_behind (q m t : List Char) :
    (Utf8.encode (q ++ m ++ t))[byteLength (q ++ m)]? = (Utf8.encode t)[0]? :=
  getElem?_encode (q ++ m) t 0

/-- A turn at a line feed takes the line in front of it. -/
theorem lineTurn?_feed (q m t : List Char) (lines : List (List Char)) :
    lineTurn? (q ++ m ++ '\n' :: t) ⟨lines, byteLength q, byteLength (q ++ m)⟩ =
      some (.next ⟨lines ++ [m], byteLength (q ++ m ++ ['\n']),
        byteLength (q ++ m ++ ['\n'])⟩) := by
  have hbyte : (Utf8.encode ('\n' :: t))[0]? = some 0x0A := rfl
  rw [lineTurn?, byte_behind, hbyte, slice?_byteLength, byteLength_append (q ++ m)]
  rfl

/-- A turn at a carriage return takes the line in front of it, and a line feed behind it. -/
theorem lineTurn?_return (q m t : List Char) (lines : List (List Char)) :
    lineTurn? (q ++ m ++ '\r' :: t) ⟨lines, byteLength q, byteLength (q ++ m)⟩ =
      some (.next
        (if t.head? = some '\n' then
          ⟨lines ++ [m], byteLength (q ++ m ++ ['\r', '\n']),
            byteLength (q ++ m ++ ['\r', '\n'])⟩
        else
          ⟨lines ++ [m], byteLength (q ++ m ++ ['\r']), byteLength (q ++ m ++ ['\r'])⟩)) := by
  have hbyte : (Utf8.encode ('\r' :: t))[0]? = some 0x0D := rfl
  have hnext : (Utf8.encode (q ++ m ++ '\r' :: t))[byteLength (q ++ m) + 1]? =
      (Utf8.encode t).head? := by
    rw [getElem?_encode, List.head?_eq_getElem?]
    rfl
  have hfeed : (Utf8.encode t).head? = some 0x0A ↔ t.head? = some '\n' := head?_encode_eq_feed_iff
  rw [lineTurn?, byte_behind, hbyte, slice?_byteLength, byteLength_append (q ++ m),
    byteLength_append (q ++ m)]
  by_cases hhead : t.head? = some '\n'
  · rw [hnext, hfeed.2 hhead, if_pos hhead]
    rfl
  · rw [hnext, if_neg hhead]
    simp only [hfeed, if_neg hhead]
    rfl

/-- A character that ends no line belongs to the line that has been started. -/
theorem loop_lineTurn?_of_character {q m t : List Char} {c : Char} (hn : c ≠ '\n')
    (hr : c ≠ '\r') (lines : List (List Char)) :
    loop (lineTurn? (q ++ m ++ c :: t)) ⟨lines, byteLength q, byteLength (q ++ m)⟩ =
      loop (lineTurn? (q ++ (m ++ [c]) ++ t))
        ⟨lines, byteLength q, byteLength (q ++ (m ++ [c]))⟩ := by
  have hplain : ∀ b ∈ String.utf8EncodeChar c, b ≠ 0x0A ∧ b ≠ 0x0D := fun b hb =>
    ⟨fun h => hn (eq_feed_of_mem_utf8EncodeChar (h ▸ hb)),
      fun h => hr (eq_return_of_mem_utf8EncodeChar (h ▸ hb))⟩
  have hbytes : Utf8.encode (q ++ m ++ c :: t) =
      Utf8.encode (q ++ m) ++ String.utf8EncodeChar c ++ Utf8.encode t := by
    rw [Utf8.encode_append, List.append_assoc]
    rfl
  have htext : q ++ m ++ c :: t = q ++ (m ++ [c]) ++ t := by simp
  have hcolumn : byteLength (q ++ m) + c.utf8Size = byteLength (q ++ (m ++ [c])) := by
    simp [Nat.add_assoc]
  have hpass := loop_lineTurn?_of_plain hbytes hplain lines (byteLength q)
  rw [List.length_append, length_encode, String.length_utf8EncodeChar, hcolumn] at hpass
  rw [← htext, hpass]

/-- Every slice that a line is exists, and the search comes to the end of the text. -/
theorem loop_lineTurn? (q m t : List Char) (lines : List (List Char)) :
    loop (lineTurn? (q ++ m ++ t)) ⟨lines, byteLength q, byteLength (q ++ m)⟩ =
      some (lines ++ (m ++ (LineSplit.ofText t).line) :: (LineSplit.ofText t).rest) := by
  induction t using terminators.induct generalizing q m lines with
  | case1 =>
    have hfrom : from? (byteLength q) (q ++ m ++ []) = some m := by
      rw [List.append_nil]
      exact from?_byteLength q m
    refine loop_of_last ?_
    rw [lineTurn?, byte_behind, hfrom]
    simp [Utf8.encode, LineSplit.start]
  | case2 s ih =>
    have hrest := ih (q ++ m ++ ['\r', '\n']) [] (lines ++ [m])
    rw [List.append_nil, List.append_assoc] at hrest
    rw [loop_of_next (lineTurn?_return q m ('\n' :: s) lines), if_pos List.head?_cons]
    refine hrest.trans ?_
    simp [LineSplit.cons]
  | case3 c s hpair ih =>
    by_cases hn : c = '\n'
    · subst hn
      have hrest := ih (q ++ m ++ ['\n']) [] (lines ++ [m])
      rw [List.append_nil, List.append_assoc] at hrest
      rw [loop_of_next (lineTurn?_feed q m s lines)]
      refine hrest.trans ?_
      simp [LineSplit.cons]
    · by_cases hr : c = '\r'
      · subst hr
        have hfeed : s.head? ≠ some '\n' := by
          intro hhead
          obtain ⟨t, ht⟩ := List.head?_eq_some_iff.1 hhead
          exact hpair t rfl ht
        have hrest := ih (q ++ m ++ ['\r']) [] (lines ++ [m])
        rw [List.append_nil, List.append_assoc] at hrest
        rw [loop_of_next (lineTurn?_return q m s lines), if_neg hfeed]
        refine hrest.trans ?_
        have hstarts : (LineSplit.ofText s).startsFeed = false := by
          rw [LineSplit.startsFeed_ofText, beq_eq_false_iff_ne]
          exact hfeed
        simp [LineSplit.cons, hstarts]
      · rw [loop_lineTurn?_of_character hn hr, ih q (m ++ [c]) lines]
        simp [LineSplit.cons, hn, hr]

/-- Cutting a text at its bytes takes no slice that is missing, ends, and gives its lines. -/
theorem linesByBytes?_eq (text : List Char) : linesByBytes? text = some (splitLines text) :=
  loop_lineTurn? [] [] text []

end LineCensus.Text
