import LineCensus.Glob.Filter
import Mathlib.Data.List.Basic

/-!
# Patterns of plain text

A plain text is read as a pattern of its own characters. With a slash and two stars behind
it, the pattern fits the paths that begin with the text and a slash.
-/
namespace LineCensus.Glob

open LineCensus.Text

/-! ## Reading plain text -/

/-- The characters that are more than themselves in a pattern. -/
def metaCharacters : List Char := ['?', '*', '[', '\x7b', '\x7d', '\\']

def IsPlain (s : List Char) : Prop := ∀ c ∈ s, c ∉ metaCharacters

instance (s : List Char) : Decidable (IsPlain s) := List.decidableBAll _ _

namespace Draft

theorem run_cons_plain {lenient : Bool} {d : Draft} (hgroups : d.groups = []) {c : Char}
    (hc : c ∉ metaCharacters) (prev : Option Char) (s : List Char) :
    d.run lenient prev (c :: s) = (d.push (.literal c)).run lenient (some c) s := by
  simp only [metaCharacters, List.mem_cons, List.not_mem_nil, or_false, not_or] at hc
  obtain ⟨hany, hstar, hclass, hopen, hclose, hescape⟩ := hc
  rw [run.eq_def]
  simp only [hany, hstar, hclass, hopen, hclose, hescape, if_false, false_and]
  split
  · rename_i hcomma
    rw [comma, hgroups, hcomma]
  · rfl

/-- Plain text is read character by character, and leaves its last one behind. -/
theorem run_plain {lenient : Bool} {d : Draft} (hgroups : d.groups = []) {s : List Char}
    (hs : IsPlain s) (prev : Option Char) (rest : List Char) :
    d.run lenient prev (s ++ rest) =
      { d with tokens := (s.map Token.literal).reverse ++ d.tokens }.run lenient
        (s.getLast?.or prev) rest := by
  induction s generalizing d prev with
  | nil => rfl
  | cons c s ih =>
    obtain ⟨hc, hs⟩ := List.forall_mem_cons.1 hs
    rw [List.cons_append, run_cons_plain hgroups hc, ih (by exact hgroups) hs]
    congr 1
    · simp [push]
    · rw [List.getLast?_cons]
      cases s.getLast? <;> rfl

/-- Two stars at the end take the place of the slash before them. -/
theorem doubleStar_of_slash (ts : List Token) :
    doubleStar { tokens := .literal '/' :: ts } (some '/') [] =
      ({ tokens := .everythingBelow :: ts }, []) := rfl

end Draft

/-- The pattern for all that lies below a plain text. -/
def patternBelow (text : String) : Pattern :=
  ⟨text ++ "/**", text.toList.map Token.literal ++ [.everythingBelow], false⟩

theorem compile_below {text : String} (h : IsPlain text.toList) :
    Pattern.compile (text ++ "/**") false false = .ok (patternBelow text) := by
  have hplain : IsPlain (text.toList ++ ['/']) := by
    intro c hc
    rcases List.mem_append.1 hc with hc | hc
    · exact h c hc
    · rw [List.mem_singleton.1 hc]
      decide
  have hchars : (text ++ "/**").toList = (text.toList ++ ['/']) ++ ['*', '*'] := by simp
  have hrun : Draft.run false {} none (text ++ "/**").toList =
      .ok { tokens := .everythingBelow :: (text.toList.map Token.literal).reverse } := by
    rw [hchars, Draft.run_plain rfl hplain]
    simp [Draft.run, Draft.doubleStar_of_slash]
  rw [Pattern.compile, hrun]
  simp [patternBelow]

/-! ## Marks -/

variable {bytes text : List UInt8} {row : Row}

/-- A mark moves over a byte of the set, to the place behind it. -/
theorem getElem?_overOne (p : UInt8 → Bool) (k : ℕ) :
    (overOne p bytes row)[k]? = some true ↔
      ∃ i b, k = i + 1 ∧ bytes[i]? = some b ∧ row[i]? = some true ∧ p b = true := by
  cases k with
  | zero => simp [overOne]
  | succ i =>
    rw [overOne, List.getElem?_cons_succ, List.getElem?_zipWith]
    constructor
    · intro h
      cases hb : bytes[i]? with
      | none => simp [hb] at h
      | some b =>
        cases hmark : row[i]? with
        | none => simp [hb, hmark] at h
        | some mark =>
          rw [hb, hmark] at h
          obtain ⟨rfl, hp⟩ := Bool.and_eq_true_iff.1 (Option.some.inj h)
          exact ⟨i, b, rfl, hb, hmark, hp⟩
    · rintro ⟨j, b, hij, hb, hmark, hp⟩
      obtain rfl := Nat.succ.inj hij
      simp [hb, hmark, hp]

theorem cons_prefix_drop_iff {b : UInt8} {i : ℕ} :
    b :: text <+: bytes.drop i ↔ bytes[i]? = some b ∧ text <+: bytes.drop (i + 1) := by
  rw [List.drop_eq_getElem?_toList_append]
  cases hb : bytes[i]? with
  | none => simp [List.drop_eq_nil_of_le (Nat.le_succ_of_le (List.getElem?_eq_none_iff.1 hb))]
  | some c => simp [List.cons_prefix_cons, eq_comm]

/-- A mark moves over a text, to the place behind it. -/
theorem getElem?_overBytes (k : ℕ) :
    (overBytes text bytes row)[k]? = some true ↔
      ∃ i, k = i + text.length ∧ row[i]? = some true ∧ text <+: bytes.drop i := by
  -- The first byte changes the row, so the statement is for all rows.
  induction text generalizing row with
  | nil => simp [overBytes]
  | cons b text ih =>
    rw [overBytes, List.foldl_cons, ← overBytes, ih]
    constructor
    · rintro ⟨j, rfl, hplace, htext⟩
      obtain ⟨i, c, rfl, hc, hmark, heq⟩ := (getElem?_overOne _ _).1 hplace
      obtain rfl := beq_iff_eq.1 heq
      exact ⟨i, by simp only [List.length_cons]; omega, hmark, cons_prefix_drop_iff.2 ⟨hc, htext⟩⟩
    · rintro ⟨i, rfl, hmark, htext⟩
      obtain ⟨hb, htext⟩ := cons_prefix_drop_iff.1 htext
      exact ⟨i + 1, by simp only [List.length_cons]; omega,
        (getElem?_overOne _ _).2 ⟨i, b, rfl, hb, hmark, beq_self_eq_true b⟩, htext⟩

theorem getElem?_startRow (i : ℕ) : (startRow bytes)[i]? = some true ↔ i = 0 := by
  cases i with
  | zero => simp [startRow]
  | succ i => simp [startRow, List.getElem?_replicate]

theorem length_overOne (p : UInt8 → Bool) (h : row.length = bytes.length + 1) :
    (overOne p bytes row).length = bytes.length + 1 := by
  simp [overOne, h]

theorem length_overBytes (h : row.length = bytes.length + 1) :
    (overBytes text bytes row).length = bytes.length + 1 := by
  induction text generalizing row with
  | nil => exact h
  | cons b text ih =>
    rw [overBytes, List.foldl_cons, ← overBytes]
    exact ih (length_overOne _ h)

theorem getLastD_overManyFrom {reached last : Bool} (h : row.length = bytes.length)
    (hlast : row = [] → last = reached) :
    (overManyFrom (fun _ => true) reached bytes row).getLastD last = (reached || row.any id) := by
  induction bytes generalizing row reached last with
  | nil => simp_all [overManyFrom]
  | cons b bytes ih =>
    obtain ⟨mark, row, rfl⟩ := List.exists_cons_of_length_eq_add_one h
    rw [overManyFrom, List.getLastD_cons, ih (Nat.succ.inj h) (fun _ => rfl)]
    simp [Bool.or_assoc]

/-- Over anything, a mark at any place reaches the end. -/
theorem getLastD_overAnything (h : row.length = bytes.length + 1) :
    (overAnything bytes row).getLastD false = row.any id := by
  obtain ⟨mark, row, rfl⟩ := List.exists_cons_of_length_eq_add_one h
  rw [overAnything, overMany, List.getLastD_cons,
    getLastD_overManyFrom (Nat.succ.inj h) (fun _ => rfl)]
  rfl

/-! ## Bytes of characters -/

/-- The bytes of a text tell where its first character ends. -/
theorem eq_of_utf8EncodeChar_append {c d : Char} {bytes bytes' : List UInt8}
    (h : String.utf8EncodeChar c ++ bytes = String.utf8EncodeChar d ++ bytes') : c = d := by
  have hfirst := ByteArray.utf8DecodeChar?_utf8EncodeChar_append (b := bytes.toByteArray) (c := c)
  have hsecond := ByteArray.utf8DecodeChar?_utf8EncodeChar_append (b := bytes'.toByteArray) (c := d)
  rw [← List.toByteArray_append] at hfirst hsecond
  rw [h, hsecond] at hfirst
  exact (Option.some.inj hfirst).symm

theorem encode_prefix_encode_iff {s t : List Char} : Utf8.encode s <+: Utf8.encode t ↔ s <+: t := by
  constructor
  · intro h
    induction s generalizing t with
    | nil => exact List.nil_prefix
    | cons c s ih =>
      obtain ⟨rest, hrest⟩ := h
      cases t with
      | nil =>
        have hnil := String.utf8EncodeChar_ne_nil (c := c)
        simp [Utf8.encode, hnil] at hrest
      | cons d t =>
        simp only [Utf8.encode, List.flatMap_cons, List.append_assoc] at hrest
        obtain rfl := eq_of_utf8EncodeChar_append hrest
        exact List.cons_prefix_cons.2 ⟨rfl, ih ⟨rest, List.append_cancel_left hrest⟩⟩
  · rintro ⟨rest, rfl⟩
    rw [Utf8.encode_append]
    exact List.prefix_append _ _

/-! ## What a pattern for a directory fits -/

theorem followTokens_literals (slashSeparates : Bool) (s : List Char) (ts : List Token) :
    followTokens slashSeparates bytes row (s.map Token.literal ++ ts) =
      followTokens slashSeparates bytes (overBytes (Utf8.encode s) bytes row) ts := by
  induction s generalizing row with
  | nil => rfl
  | cons c s ih =>
    rw [List.map_cons, List.cons_append, followTokens, followToken, ih]
    simp [overBytes, Utf8.encode]

/-- Some place is marked behind a text just where the path begins with it. -/
theorem any_overBytes_startRow :
    (overBytes text bytes (startRow bytes)).any id = true ↔ text <+: bytes := by
  rw [List.any_eq_true]
  constructor
  · rintro ⟨mark, hmem, hmark⟩
    obtain ⟨k, hk⟩ := List.mem_iff_getElem?.1 hmem
    obtain ⟨i, -, hi, htext⟩ := (getElem?_overBytes k).1 (hk.trans (congrArg some hmark))
    rw [getElem?_startRow] at hi
    simpa [hi] using htext
  · intro htext
    have hend : (overBytes text bytes (startRow bytes))[text.length]? = some true :=
      (getElem?_overBytes _).2 ⟨0, by simp, (getElem?_startRow 0).2 rfl, by simpa using htext⟩
    exact ⟨true, List.mem_of_getElem? hend, rfl⟩

theorem matchesBytes_patternBelow (text : String) :
    (patternBelow text).matchesBytes bytes = true ↔
      Utf8.encode (text.toList ++ ['/']) <+: bytes := by
  have hrow : followTokens false bytes (startRow bytes) (patternBelow text).tokens =
      overAnything bytes (overBytes (Utf8.encode (text.toList ++ ['/'])) bytes (startRow bytes)) := by
    rw [Utf8.encode_append, overBytes, List.foldl_append, ← overBytes]
    exact followTokens_literals false text.toList [.everythingBelow]
  have hlength : (overBytes (Utf8.encode (text.toList ++ ['/'])) bytes (startRow bytes)).length =
      bytes.length + 1 := length_overBytes (by simp [startRow])
  have hlast := getLastD_overAnything hlength
  rw [← any_overBytes_startRow, ← hlast, ← hrow]
  unfold Pattern.matchesBytes
  split
  · rename_i htokens
    cases hchars : text.toList <;> simp [patternBelow, hchars] at htokens
  · rfl

/-- The pattern fits the paths that lead on from the text by a slash. -/
theorem isMatch_patternBelow {text path : String} :
    (patternBelow text).isMatch path = true ↔ ∃ rest, path.toList = text.toList ++ '/' :: rest := by
  have hname : (patternBelow text).asksFileName = false := by
    cases hchars : text.toList <;>
      simp [patternBelow, Pattern.asksFileName, Pattern.isFileName, Pattern.isSuffix, withoutDirs,
        Pattern.endsWithSuffix, Token.isSuffixPart, Token.isDot, hchars]
  rw [Pattern.isMatch, hname, Bool.false_and, Bool.not_false, Bool.true_and,
    matchesBytes_patternBelow, encode_prefix_encode_iff]
  constructor
  · rintro ⟨rest, hrest⟩
    exact ⟨rest, by simp [← hrest]⟩
  · rintro ⟨rest, hrest⟩
    exact ⟨rest, by simp [hrest]⟩

end LineCensus.Glob
