import LineCensus.Proofs.Report.Directories
import LineCensus.Proofs.Text.Lines
import LineCensus.Proofs.Text.Numeral
import LineCensus.Report.Markdown

/-!
# Reading Markdown tables

A row stands between bars. A backslash takes the backslash or the bar behind it for a
character of its cell; in front of any other character it is one itself. A cell has a space
on each side that does not belong to it. A name is read back whatever it holds, since both of
the characters that could be mistaken are guarded. A language in the table of its files has
only its bars guarded: it is read back unless a backslash in it stands in front of another or
of a bar.
-/
namespace LineCensus.Report

open LineCensus.Text

namespace MarkdownTable

/-- Puts a character in front of the first of some parts. -/
def push (c : Char) : List (List Char) → List (List Char)
  | [] => [[c]]
  | part :: parts => (c :: part) :: parts

/-- The parts of a row between the bars that stand for themselves. -/
def parts : List Char → List (List Char)
  | [] => [[]]
  | '\\' :: '\\' :: s => push '\\' (parts s)
  | '\\' :: '|' :: s => push '|' (parts s)
  | '|' :: s => [] :: parts s
  | c :: s => push c (parts s)

/-- A cell's text with the space on each side. -/
def padded (s : String) : List Char := ' ' :: s.toList ++ [' ']

/-- A part without the space on each side. -/
def unpadded? (s : List Char) : Option String :=
  if s.head? = some ' ' ∧ s.tail.getLast? = some ' ' then some (String.ofList s.tail.dropLast)
  else none

/-- The cells of a row, which begins and ends with a bar. -/
def readRow? (row : List Char) : Option (List String) :=
  match parts row with
  | [] :: cells => if cells.getLast? = some [] then cells.dropLast.mapM unpadded? else none
  | _ => none

/-! ## Parts -/

theorem parts_ne_nil (s : List Char) : parts s ≠ [] := by
  have hpush : ∀ c ps, push c ps ≠ [] := by
    intro c ps
    cases ps <;> simp [push]
  fun_cases parts s <;> simp [hpush]

theorem push_inj {c : Char} {ps qs : List (List Char)} (hp : ps ≠ []) (hq : qs ≠ []) :
    push c ps = push c qs ↔ ps = qs := by
  obtain ⟨p, ps, rfl⟩ := List.exists_cons_of_ne_nil hp
  obtain ⟨q, qs, rfl⟩ := List.exists_cons_of_ne_nil hq
  simp [push]

theorem foldr_push_ne_nil {ps : List (List Char)} (h : ps ≠ []) (s : List Char) :
    s.foldr push ps ≠ [] := by
  cases s with
  | nil => exact h
  | cons c s =>
    rw [List.foldr_cons]
    cases s.foldr push ps <;> simp [push]

theorem foldr_push_cons (s part : List Char) (ps : List (List Char)) :
    s.foldr push (part :: ps) = (s ++ part) :: ps := by
  induction s with
  | nil => rfl
  | cons c s ih =>
    rw [List.foldr_cons, ih]
    rfl

theorem parts_bar (s : List Char) : parts ('|' :: s) = [] :: parts s := rfl

theorem parts_guarded_backslash (s : List Char) : parts ('\\' :: '\\' :: s) = push '\\' (parts s) :=
  rfl

theorem parts_guarded_bar (s : List Char) : parts ('\\' :: '|' :: s) = push '|' (parts s) := rfl

/-- A backslash in front of anything else stands for itself. -/
theorem parts_free_backslash {c : Char} (hbackslash : c ≠ '\\') (hbar : c ≠ '|') (s : List Char) :
    parts ('\\' :: c :: s) = push '\\' (parts (c :: s)) := by
  rw [parts] <;> simp [hbackslash, hbar]

theorem parts_plain {c : Char} (hbackslash : c ≠ '\\') (hbar : c ≠ '|') (s : List Char) :
    parts (c :: s) = push c (parts s) := by
  rw [parts] <;> simp [hbackslash, hbar]

/-! ## Cells -/

/-- In front of a space, the text is read as the value. -/
def Shows (text value : List Char) : Prop :=
  ∀ rest, parts (text ++ ' ' :: rest) = value.foldr push (parts (' ' :: rest))

/-- A text in which no character can be taken for another one. -/
def Free (s : List Char) : Prop := ∀ c ∈ s, c ≠ '\\' ∧ c ≠ '|'

instance (s : List Char) : Decidable (Free s) := List.decidableBAll _ _

theorem Free.shows {s : List Char} (h : Free s) : Shows s s := by
  intro rest
  induction s with
  | nil => rfl
  | cons c s ih =>
    obtain ⟨⟨hbackslash, hbar⟩, hs⟩ := List.forall_mem_cons.1 h
    rw [List.cons_append, parts_plain hbackslash hbar, ih hs, List.foldr_cons]

/-- A character with a backslash in front if it could be taken for another one. -/
def guarded (c : Char) : List Char :=
  if c = '\\' then ['\\', '\\'] else if c = '|' then ['\\', '|'] else [c]

/-- A text with only its bars guarded. -/
def barsGuarded (s : List Char) : List Char :=
  s.flatMap fun c => if c = '|' then ['\\', '|'] else [c]

@[simp] theorem barsGuarded_bar (s : List Char) :
    barsGuarded ('|' :: s) = '\\' :: '|' :: barsGuarded s := rfl

theorem barsGuarded_cons {c : Char} (hc : c ≠ '|') (s : List Char) :
    barsGuarded (c :: s) = c :: barsGuarded s := by
  simp [barsGuarded, hc]

theorem toList_guardBars (s : String) :
    (guardBars s).toList = barsGuarded s.toList :=
  String.toList_ofList

/-- With backslashes and then bars guarded, each character is guarded once. -/
theorem toList_guardBars_guardBackslashes (s : String) :
    (guardBars (MarkdownReport.guardBackslashes s)).toList = s.toList.flatMap guarded := by
  rw [toList_guardBars, barsGuarded, MarkdownReport.guardBackslashes, String.toList_ofList,
    List.flatMap_assoc]
  refine List.flatMap_congr fun c _ => ?_
  by_cases hc : c = '\\'
  · simp [guarded, hc]
  · simp [guarded, hc]

theorem shows_guarded (s : List Char) : Shows (s.flatMap guarded) s := by
  intro rest
  induction s with
  | nil => rfl
  | cons c s ih =>
    rw [List.flatMap_cons, List.append_assoc, List.foldr_cons, ← ih]
    by_cases hbackslash : c = '\\'
    · rw [hbackslash]
      exact parts_guarded_backslash _
    · by_cases hbar : c = '|'
      · rw [hbar]
        exact parts_guarded_bar _
      · have hguarded : guarded c = [c] := by simp [guarded, hbackslash, hbar]
        rw [hguarded]
        exact parts_plain hbackslash hbar _

/-! ## Rows -/

theorem unpadded?_eq_some_iff {s : List Char} {t : String} :
    unpadded? s = some t ↔ s = padded t := by
  constructor
  · intro h
    rw [unpadded?] at h
    split at h
    · rename_i hspaces
      cases h
      obtain ⟨tail, rfl⟩ := List.head?_eq_some_iff.1 hspaces.1
      obtain ⟨front, rfl⟩ := List.getLast?_eq_some_iff.1 hspaces.2
      simp [padded]
    · cases h
  · rintro rfl
    simp [unpadded?, padded]

theorem mapM_unpadded?_eq_some_iff {cells : List (List Char)} {values : List String} :
    cells.mapM unpadded? = some values ↔ cells = values.map padded := by
  induction cells generalizing values with
  | nil => simp [eq_comm]
  | cons cell cells ih =>
    rw [List.mapM_cons]
    constructor
    · intro h
      obtain ⟨value, hvalue, h⟩ := Option.bind_eq_some_iff.1 h
      obtain ⟨rest, hrest, h⟩ := Option.bind_eq_some_iff.1 h
      cases h
      rw [List.map_cons, ih.1 hrest, unpadded?_eq_some_iff.1 hvalue]
    · intro h
      cases values with
      | nil => cases h
      | cons value values =>
        obtain ⟨rfl, rfl⟩ := List.cons.inj h
        rw [unpadded?_eq_some_iff.2 rfl, ih.2 rfl]
        rfl

/-- A row has the cells that stand between its bars. -/
theorem readRow?_eq_some_iff {row : List Char} {values : List String} :
    readRow? row = some values ↔ parts row = [] :: (values.map padded ++ [[]]) := by
  constructor
  · intro h
    rw [readRow?] at h
    split at h
    · rename_i cells hcells
      split at h
      · rename_i hlast
        obtain ⟨front, rfl⟩ := List.getLast?_eq_some_iff.1 hlast
        rw [List.dropLast_concat, mapM_unpadded?_eq_some_iff] at h
        rw [hcells, h]
      · cases h
    · cases h
  · intro h
    have hlast : (values.map padded ++ [[]]).getLast? = some [] := List.getLast?_concat
    rw [readRow?, h]
    dsimp only
    rw [if_pos hlast, List.dropLast_concat, mapM_unpadded?_eq_some_iff]

/-- A cell, and the bar behind it. -/
def cellChars (text : List Char) : List Char := ' ' :: text ++ [' ', '|']

theorem toList_bar {cells : List String} (h : cells ≠ []) :
    (TextTable.bar cells).toList = '|' :: cells.flatMap fun cell => cellChars cell.toList := by
  suffices ' ' :: (" | ".intercalate cells).toList ++ [' ', '|'] =
      cells.flatMap fun cell => cellChars cell.toList by
    rw [← this]
    simp [TextTable.bar]
  induction cells with
  | nil => exact absurd rfl h
  | cons cell cells ih =>
    by_cases hcells : cells = []
    · simp [hcells, cellChars]
    · rw [List.flatMap_cons, ← ih hcells, String.intercalate_cons_of_ne_nil hcells]
      simp [cellChars]

/-- A cell is read as a value exactly when its text is, in front of the space behind it. -/
theorem parts_cellChars_iff {text : List Char} {value : String} {rest : List Char} :
    parts (cellChars text ++ rest) = padded value :: parts rest ↔
      parts (text ++ ' ' :: '|' :: rest) =
        value.toList.foldr push (parts (' ' :: '|' :: rest)) := by
  have hspace : ∀ s, parts (' ' :: s) = push ' ' (parts s) :=
    parts_plain (by decide) (by decide)
  have hbehind : parts (' ' :: '|' :: rest) = [' '] :: parts rest := by
    rw [hspace, parts_bar]
    rfl
  have hcell : cellChars text ++ rest = ' ' :: (text ++ ' ' :: '|' :: rest) := by
    simp [cellChars]
  have hpadded : padded value :: parts rest =
      push ' ' (value.toList.foldr push (parts (' ' :: '|' :: rest))) := by
    rw [hbehind, foldr_push_cons]
    rfl
  rw [hcell, hspace, hpadded, push_inj (parts_ne_nil _) (foldr_push_ne_nil (parts_ne_nil _) _)]

theorem parts_cellChars {text : List Char} {value : String} (h : Shows text value.toList)
    (rest : List Char) : parts (cellChars text ++ rest) = padded value :: parts rest :=
  parts_cellChars_iff.2 (h ('|' :: rest))

theorem parts_cells {texts values : List String}
    (h : List.Forall₂ (fun t v : String => Shows t.toList v.toList) texts values) :
    parts (texts.flatMap fun cell => cellChars cell.toList) = values.map padded ++ [[]] := by
  induction h with
  | nil => rfl
  | cons hcell _ ih => rw [List.flatMap_cons, parts_cellChars hcell, ih, List.map_cons]; rfl

/-- A row of texts that are read as some values is read as these. -/
theorem readRow?_bar {texts values : List String} (hne : texts ≠ [])
    (h : List.Forall₂ (fun t v : String => Shows t.toList v.toList) texts values) :
    readRow? (TextTable.bar texts).toList = some values := by
  rw [readRow?_eq_some_iff, toList_bar hne, parts_bar, parts_cells h]

/-! ## Cells with bars guarded alone -/

/-- No backslash of the text stands in front of another or of a bar. -/
def Unmistakable (s : List Char) : Prop := ¬ ['\\', '\\'] <:+: s ∧ ¬ ['\\', '|'] <:+: s

instance (s : List Char) : Decidable (Unmistakable s) := inferInstanceAs (Decidable (_ ∧ _))

theorem unmistakable_cons_iff {c : Char} {s : List Char} :
    Unmistakable (c :: s) ↔
      (c = '\\' → s.head? ≠ some '\\' ∧ s.head? ≠ some '|') ∧ Unmistakable s := by
  have hpair : ∀ d, ['\\', d] <+: c :: s ↔ c = '\\' ∧ s.head? = some d := by
    intro d
    rw [List.cons_prefix_cons, eq_comm]
    cases s with
    | nil => simp
    | cons e s => simp [eq_comm]
  simp only [Unmistakable, List.infix_cons_iff, hpair]
  tauto

/-- How much a reader has taken in: the characters of all parts and the bars between them. -/
def weight (ps : List (List Char)) : ℕ := ps.flatten.length + ps.length

theorem weight_push {ps : List (List Char)} (h : ps ≠ []) (c : Char) :
    weight (push c ps) = weight ps + 1 := by
  obtain ⟨p, ps, rfl⟩ := List.exists_cons_of_ne_nil h
  simp only [push, weight, List.flatten_cons, List.length_append, List.length_cons]
  omega

theorem weight_foldr_push {ps : List (List Char)} (h : ps ≠ []) (s : List Char) :
    weight (s.foldr push ps) = weight ps + s.length := by
  induction s with
  | nil => rfl
  | cons c s ih =>
    rw [List.foldr_cons, weight_push (foldr_push_ne_nil h s), ih, List.length_cons, Nat.add_assoc]

theorem weight_parts_bar (s : List Char) : weight (parts ('|' :: s)) = weight (parts s) + 1 := by
  simp only [parts_bar, weight, List.flatten_cons, List.length_append, List.length_cons,
    List.length_nil]
  omega

/-- One more character is at most one more to take in, and takes nothing away. -/
theorem weight_parts_cons (c : Char) (s : List Char) :
    weight (parts s) ≤ weight (parts (c :: s)) ∧
      weight (parts (c :: s)) ≤ weight (parts s) + 1 := by
  induction s generalizing c with
  | nil =>
    by_cases hbar : c = '|'
    · rw [hbar, weight_parts_bar]
      omega
    · have hsingle : parts [c] = push c (parts []) := by
        by_cases hbackslash : c = '\\'
        · rw [hbackslash]
          rfl
        · exact parts_plain hbackslash hbar []
      rw [hsingle, weight_push (parts_ne_nil _)]
      omega
  | cons d s ih =>
    by_cases hbar : c = '|'
    · rw [hbar, weight_parts_bar]
      omega
    · by_cases hbackslash : c = '\\'
      · subst hbackslash
        have hd := ih d
        by_cases hd' : d = '\\'
        · rw [hd'] at hd ⊢
          rw [parts_guarded_backslash, weight_push (parts_ne_nil _)]
          omega
        · by_cases hdbar : d = '|'
          · rw [hdbar, parts_guarded_bar, weight_push (parts_ne_nil _), weight_parts_bar]
            omega
          · rw [parts_free_backslash hd' hdbar, weight_push (parts_ne_nil _)]
            omega
      · rw [parts_plain hbackslash hbar, weight_push (parts_ne_nil _)]
        omega

theorem weight_parts_barsGuarded_le (s rest : List Char) :
    weight (parts (barsGuarded s ++ rest)) ≤ weight (parts rest) + s.length := by
  induction s with
  | nil => exact Nat.le_refl _
  | cons c s ih =>
    have hstep : weight (parts (barsGuarded (c :: s) ++ rest)) ≤
        weight (parts (barsGuarded s ++ rest)) + 1 := by
      by_cases hc : c = '|'
      · rw [hc, barsGuarded_bar, List.cons_append, List.cons_append, parts_guarded_bar,
          weight_push (parts_ne_nil _)]
      · rw [barsGuarded_cons hc, List.cons_append]
        exact (weight_parts_cons c _).2
    rw [List.length_cons]
    omega

/-- With only its bars guarded a text is read as itself exactly when it is unmistakable. -/
theorem parts_barsGuarded_iff (s rest : List Char) :
    parts (barsGuarded s ++ ' ' :: rest) = s.foldr push (parts (' ' :: rest)) ↔ Unmistakable s := by
  have hne : ∀ t, parts t ≠ [] := parts_ne_nil
  have hfold : ∀ t : List Char, t.foldr push (parts (' ' :: rest)) ≠ [] :=
    foldr_push_ne_nil (hne _)
  induction s with
  | nil => exact iff_of_true rfl (by decide)
  | cons c s ih =>
    rw [unmistakable_cons_iff, List.foldr_cons]
    by_cases hbar : c = '|'
    · rw [hbar, barsGuarded_bar, List.cons_append, List.cons_append, parts_guarded_bar,
        push_inj (hne _) (hfold s)]
      exact ih.trans (by simp)
    · rw [barsGuarded_cons hbar, List.cons_append]
      by_cases hbackslash : c = '\\'
      · subst hbackslash
        cases s with
        | nil =>
          rw [show barsGuarded [] = [] from rfl, List.nil_append,
            parts_free_backslash (by decide) (by decide)]
          exact iff_of_true rfl (by decide)
        | cons d s =>
          by_cases hd : d = '\\'
          · -- the two are taken for one, so something is missing
            subst hd
            refine iff_of_false (fun h => ?_) (by simp)
            have hweight := congrArg weight h
            have hle := weight_parts_barsGuarded_le s (' ' :: rest)
            rw [barsGuarded_cons (by decide), List.cons_append, parts_guarded_backslash,
              weight_push (hne _), weight_push (hfold _), weight_foldr_push (hne _),
              List.length_cons] at hweight
            omega
          · by_cases hdbar : d = '|'
            · -- the backslash that should guard the bar is guarded itself
              subst hdbar
              refine iff_of_false (fun h => ?_) (by simp)
              obtain ⟨p, ps, hps⟩ := List.exists_cons_of_ne_nil (hfold s)
              rw [barsGuarded_bar, List.cons_append, List.cons_append, parts_guarded_backslash,
                parts_bar, List.foldr_cons, hps] at h
              simp [push] at h
            · rw [barsGuarded_cons hdbar, List.cons_append, parts_free_backslash hd hdbar,
                push_inj (hne _) (hfold _), ← List.cons_append, ← barsGuarded_cons hdbar]
              exact ih.trans (by simp [hd, hdbar])
      · rw [parts_plain hbackslash hbar, push_inj (hne _) (hfold s)]
        exact ih.trans (by simp [hbackslash])

end MarkdownTable

/-! ## Numbers -/

theorem mem_groupDigits {c : Char} {ds : List Char} (h : c ∈ groupDigits ds) :
    c = ',' ∨ c ∈ ds := by
  induction ds with
  | nil => cases h
  | cons d ds ih =>
    rw [groupDigits] at h
    split at h <;> simp only [List.mem_cons] at h ⊢ <;> tauto

theorem mem_toList_render {f : NumberFormat} {n : ℕ} {c : Char} (h : c ∈ (f.render n).toList) :
    c = ',' ∨ c.isDigit = true := by
  have hdigits : ∀ d ∈ Nat.toDigits 10 n, d.isDigit = true := fun d hd =>
    Nat.isDigit_of_mem_toDigits (by decide) (by decide) hd
  rw [NumberFormat.render, String.toList_ofList] at h
  split at h
  · exact (mem_groupDigits h).imp_right (hdigits c)
  · exact Or.inr (hdigits c h)

theorem free_render (f : NumberFormat) (n : ℕ) : MarkdownTable.Free (f.render n).toList := by
  intro c hc
  rcases mem_toList_render hc with rfl | hdigit
  · decide
  · constructor <;> rintro rfl <;> cases hdigit

theorem oneLine_render (f : NumberFormat) (n : ℕ) : OneLine (f.render n).toList := by
  constructor <;> intro hc <;> rcases mem_toList_render hc with h | h <;> cases h

namespace MarkdownReport

open MarkdownTable

/-! ## The rows of a report -/

def tallyValues (f : NumberFormat) (t : Tally) (tokens : ℕ) : List String :=
  [t.code, t.comment, t.blank, t.total, tokens].map f.render

/-- What a row about a language or a directory is meant to show. -/
def groupValues (f : NumberFormat) (g : Group) : List String :=
  g.name :: f.render g.files :: tallyValues f g.tally g.tokens

/-- What a row about a file is meant to show. -/
def fileValues (f : NumberFormat) (r : FileRecord) : List String :=
  r.path :: r.language :: tallyValues f r.tally r.tokens

theorem shows_name (s : String) : Shows (guardBars (guardBackslashes s)).toList s.toList := by
  rw [toList_guardBars_guardBackslashes]
  exact shows_guarded s.toList

theorem shows_numbers (t : MarkdownTable) (ns : List ℕ) :
    List.Forall₂ (fun t v : String => Shows t.toList v.toList)
      ((ns.map Cell.number).map t.renderCell) (ns.map t.numbers.render) := by
  rw [List.map_map, List.forall₂_map_left_iff, List.forall₂_map_right_iff, List.forall₂_same]
  exact fun n _ => (free_render t.numbers n).shows

theorem readRow?_groupRow (t : MarkdownTable) (g : Group) :
    readRow? (groupRow t g).toList = some (groupValues t.numbers g) := by
  have hnumbers := shows_numbers t
    [g.files, g.tally.code, g.tally.comment, g.tally.blank, g.tally.total, g.tokens]
  exact readRow?_bar (List.cons_ne_nil _ _) (.cons (shows_name g.name) hnumbers)

/-- A row about a file is read as what it is meant to show exactly when its language is
unmistakable. -/
theorem readRow?_fileRow_iff (t : MarkdownTable) (f : FileRecord) :
    readRow? (fileRow t f).toList = some (fileValues t.numbers f) ↔
      Unmistakable f.language.toList := by
  have hnumbers := parts_cells (shows_numbers t
    [f.tally.code, f.tally.comment, f.tally.blank, f.tally.total, f.tokens])
  have hpath := parts_cellChars (shows_name f.path)
  have hvalues : (fileValues t.numbers f).map padded ++ [[]] =
      padded f.path :: padded f.language ::
        ((tallyValues t.numbers f.tally f.tokens).map padded ++ [[]]) := rfl
  rw [readRow?_eq_some_iff, hvalues, tallyValues, ← hnumbers, fileRow, MarkdownTable.line,
    toList_bar (by simp), parts_bar, List.map_cons, List.flatMap_cons, renderCell, hpath,
    List.map_cons, List.flatMap_cons, renderCell, List.cons_inj_right, List.cons_inj_right]
  exact parts_cellChars_iff.trans
    (by rw [toList_guardBars]; exact parts_barsGuarded_iff f.language.toList _)

/-! ## Lines without line breaks -/

theorem oneLine_guardBars {s : String} (h : OneLine s.toList) : OneLine (guardBars s).toList := by
  rw [toList_guardBars]
  refine oneLine_flatMap fun c hc => ?_
  split
  · decide
  · exact oneLine_singleton h hc

theorem oneLine_name {s : String} (h : OneLine s.toList) :
    OneLine (guardBars (guardBackslashes s)).toList := by
  refine oneLine_guardBars ?_
  rw [guardBackslashes, String.toList_ofList]
  refine oneLine_flatMap fun c hc => ?_
  split
  · decide
  · exact oneLine_singleton h hc

theorem oneLine_bar {cells : List String} (hne : cells ≠ [])
    (h : ∀ cell ∈ cells, OneLine cell.toList) : OneLine (TextTable.bar cells).toList := by
  have hcells : OneLine (cells.flatMap fun cell => cellChars cell.toList) := by
    refine oneLine_flatMap fun cell hcell => ?_
    have hfront : OneLine (' ' :: cell.toList) :=
      oneLine_append (s := [' ']) (by decide) (h cell hcell)
    exact oneLine_append (t := [' ', '|']) hfront (by decide)
  rw [toList_bar hne]
  exact oneLine_append (s := ['|']) (by decide) hcells

theorem oneLine_headerLines {t : MarkdownTable} (hne : t.columns ≠ [])
    (h : ∀ column ∈ t.columns, OneLine column.title.toList) :
    ∀ line ∈ t.headerLines, OneLine line.toList := by
  have hnil : ∀ f : MarkdownColumn → String, t.columns.map f ≠ [] := fun f => by simpa using hne
  have htitles := oneLine_bar (hnil (·.title)) fun cell hcell => by
    obtain ⟨column, hcolumn, rfl⟩ := List.mem_map.1 hcell
    exact h column hcolumn
  have halignments := oneLine_bar (hnil fun c => if c.numeric then "---:" else ":---")
    fun cell hcell => by
      obtain ⟨column, -, rfl⟩ := List.mem_map.1 hcell
      split <;> decide
  exact List.forall_mem_cons.2 ⟨htitles, List.forall_mem_cons.2 ⟨halignments, by simp⟩⟩

theorem oneLine_numbers (t : MarkdownTable) (ns : List ℕ) :
    ∀ cell ∈ (ns.map Cell.number).map t.renderCell, OneLine cell.toList := by
  intro cell hcell
  rw [List.map_map] at hcell
  obtain ⟨n, -, rfl⟩ := List.mem_map.1 hcell
  exact oneLine_render t.numbers n

theorem oneLine_groupRow (t : MarkdownTable) {g : Group} (h : OneLine g.name.toList) :
    OneLine (groupRow t g).toList :=
  oneLine_bar (List.cons_ne_nil _ _) (List.forall_mem_cons.2 ⟨oneLine_name h,
    oneLine_numbers t [g.files, g.tally.code, g.tally.comment, g.tally.blank, g.tally.total,
      g.tokens]⟩)

theorem oneLine_fileRow (t : MarkdownTable) {f : FileRecord} (hpath : OneLine f.path.toList)
    (hlanguage : OneLine f.language.toList) : OneLine (fileRow t f).toList :=
  oneLine_bar (List.cons_ne_nil _ _) (List.forall_mem_cons.2 ⟨oneLine_name hpath,
    List.forall_mem_cons.2 ⟨oneLine_guardBars hlanguage,
      oneLine_numbers t [f.tally.code, f.tally.comment, f.tally.blank, f.tally.total, f.tokens]⟩⟩)

/-! ## The tables of a report -/

/-- Some lines are a table below a heading and an empty line: a header that shows the titles,
the alignments of the columns, and a row for each item. -/
def ShowsTable {α : Type} (row : α → List Char → Prop) (heading : String) (titles : List String)
    (items : List α) (lines : List (List Char)) : Prop :=
  ∃ header alignments rows, lines = heading.toList :: [] :: header :: alignments :: rows ∧
    readRow? header = some titles ∧ List.Forall₂ row items rows

/-- The titles behind the first ones. -/
def tallyTitles : List String := ["Code", "Comments", "Blanks", "Total", "Tokens"]

/-- The row of a language or a directory. -/
def ShowsGroup (f : NumberFormat) (g : Group) (row : List Char) : Prop :=
  readRow? row = some (groupValues f g)

/-- The row of a file, whose language may be mistaken. -/
def ShowsFile (f : NumberFormat) (r : FileRecord) (row : List Char) : Prop :=
  readRow? row = some (fileValues f r) ↔ Unmistakable r.language.toList

theorem readRow?_titles {titles : List String} (hne : titles ≠ [])
    (h : ∀ title ∈ titles, Free title.toList) :
    readRow? (TextTable.bar titles).toList = some titles :=
  readRow?_bar hne (List.forall₂_same.2 fun title htitle => (h title htitle).shows)

theorem free_tallyTitles : ∀ title ∈ tallyTitles, Free title.toList := by decide

theorem showsTable_groupLines (r : MarkdownReport) (heading : String) {title : String}
    (htitle : Free title.toList) (gs : List Group) :
    ShowsTable (ShowsGroup r.numbers) heading (title :: "Files" :: tallyTitles) gs
      ((r.groupLines heading title gs).map String.toList) := by
  have htitles : ∀ t ∈ title :: "Files" :: tallyTitles, Free t.toList :=
    List.forall_mem_cons.2 ⟨htitle, List.forall_mem_cons.2 ⟨by decide, free_tallyTitles⟩⟩
  refine ⟨_, _, (gs.map (groupRow (r.groupTable title))).map String.toList, rfl,
    readRow?_titles (List.cons_ne_nil _ _) htitles, ?_⟩
  rw [List.map_map, List.forall₂_map_right_iff, List.forall₂_same]
  exact fun g _ => readRow?_groupRow _ g

/-- The lines of a language's files, below the empty line in front of their heading. -/
def languageTable (r : MarkdownReport) (e : String × List FileRecord) : List String :=
  ("### " ++ e.1) :: "" :: r.fileTable.headerLines ++ e.2.map (fileRow r.fileTable)

theorem showsTable_languageTable (r : MarkdownReport) (e : String × List FileRecord) :
    ShowsTable (ShowsFile r.numbers) ("### " ++ e.1) ("Filename" :: "Language" :: tallyTitles)
      e.2 ((r.languageTable e).map String.toList) := by
  have htitles : ∀ t ∈ "Filename" :: "Language" :: tallyTitles, Free t.toList :=
    List.forall_mem_cons.2 ⟨by decide, List.forall_mem_cons.2 ⟨by decide, free_tallyTitles⟩⟩
  refine ⟨_, _, (e.2.map (fileRow r.fileTable)).map String.toList, rfl,
    readRow?_titles (List.cons_ne_nil _ _) htitles, ?_⟩
  rw [List.map_map, List.forall₂_map_right_iff, List.forall₂_same]
  exact fun f _ => readRow?_fileRow_iff _ f

/-! ## The lines of a report -/

theorem oneLine_groupLines (r : MarkdownReport) {heading title : String} {gs : List Group}
    (hheading : OneLine heading.toList) (htitle : OneLine title.toList)
    (hgs : ∀ g ∈ gs, OneLine g.name.toList) :
    ∀ line ∈ r.groupLines heading title gs, OneLine line.toList := by
  have hcolumns : ∀ column ∈ (r.groupTable title).columns, OneLine column.title.toList :=
    List.forall_mem_cons.2 ⟨htitle, by decide⟩
  have hheader := oneLine_headerLines (t := r.groupTable title) (List.cons_ne_nil _ _) hcolumns
  have hrows : ∀ line ∈ gs.map (groupRow (r.groupTable title)), OneLine line.toList := by
    intro line hline
    obtain ⟨g, hg, rfl⟩ := List.mem_map.1 hline
    exact oneLine_groupRow _ (hgs g hg)
  exact List.forall_mem_append.2 ⟨List.forall_mem_cons.2 ⟨hheading,
    List.forall_mem_cons.2 ⟨by decide, hheader⟩⟩, hrows⟩

theorem oneLine_languageSection (r : MarkdownReport) {e : String × List FileRecord}
    (hlanguage : OneLine e.1.toList)
    (hfiles : ∀ f ∈ e.2, OneLine f.path.toList ∧ OneLine f.language.toList) :
    ∀ line ∈ r.languageSection e, OneLine line.toList := by
  have hheading : OneLine ("### " ++ e.1).toList := by
    rw [String.toList_append]
    exact oneLine_append (by decide) hlanguage
  have hcolumns : ∀ column ∈ r.fileTable.columns, OneLine column.title.toList :=
    show ∀ column ∈ ⟨"Filename", false⟩ :: ⟨"Language", false⟩ :: tallyColumns, _ by decide
  have hheader := oneLine_headerLines (t := r.fileTable) (List.cons_ne_nil _ _) hcolumns
  have hrows : ∀ line ∈ e.2.map (fileRow r.fileTable), OneLine line.toList := by
    intro line hline
    obtain ⟨f, hf, rfl⟩ := List.mem_map.1 hline
    exact oneLine_fileRow _ (hfiles f hf).1 (hfiles f hf).2
  exact List.forall_mem_append.2 ⟨List.forall_mem_cons.2 ⟨by decide,
    List.forall_mem_cons.2 ⟨hheading, List.forall_mem_cons.2 ⟨by decide, hheader⟩⟩⟩, hrows⟩

/-- The last lines of a document are its last lines of text, when these have no line breaks,
and the empty one behind them. -/
theorem splitLines_document {front back : List String} (hfront : front ≠ [])
    (hback : ∀ line ∈ back, OneLine line.toList) :
    ∃ head, splitLines (document (front ++ back)).toList =
      head ++ back.map String.toList ++ [[]] := by
  have hjoin : ∀ ls : List String,
      (ls.flatMap fun line => line.toList ++ ['\n']) = joinLines (ls.map String.toList) :=
    fun ls => by rw [joinLines, List.flatMap_map]
  have hends : EndsLine (joinLines (front.map String.toList))
      (joinLines (back.map String.toList)) := by
    obtain ⟨init, last, rfl⟩ := (List.eq_nil_or_concat' front).resolve_left hfront
    exact Or.inl (by simp [joinLines])
  have hlines : ∀ line ∈ back.map String.toList, OneLine line := by
    intro line hline
    obtain ⟨l, hl, rfl⟩ := List.mem_map.1 hline
    exact hback l hl
  refine ⟨(splitLines (joinLines (front.map String.toList))).dropLast, ?_⟩
  rw [toList_document (by simp [hfront]), List.flatMap_append, hjoin, hjoin,
    splitLines_append hends, splitLines_joinLines hlines, ← List.append_assoc]

/-- The lines of a report are some that are in no table, and below these the tables: one for
languages, one for directories and, with details, one for the files of each language. -/
def ShowsTables (r : MarkdownReport) (p : Project) (lines : List (List Char)) : Prop :=
  ∃ head languages directories files,
    lines = head ++ (languages ++ [[]] ++ directories ++ files) ++ [[]] ∧
    ShowsTable (ShowsGroup r.numbers) "## Languages" ("Language" :: "Files" :: tallyTitles)
      p.languagesByCode languages ∧
    ShowsTable (ShowsGroup r.numbers) "## Directories" ("Path" :: "Files" :: tallyTitles)
      p.directories.values directories ∧
    (r.details = false → files = []) ∧
    (r.details = true → ∃ tables,
      files = [] :: "## Files".toList :: tables.flatMap ([] :: ·) ∧
      List.Forall₂ (fun e lines => ShowsTable (ShowsFile r.numbers) ("### " ++ e.1)
        ("Filename" :: "Language" :: tallyTitles) e.2 lines) p.filesByLanguage tables)

/-- Every table of a report reads back, whatever characters its names have besides line breaks.
The rows of languages and directories have seven cells: the name and the six numbers. Those of
files have the path, the language and the five numbers, unless a backslash of the language
stands in front of another or of a bar: a row of such a file, and no other row, is not read as
what it is meant to show. -/
theorem showsTables_render (r : MarkdownReport) (p : Project)
    (hlanguages : ∀ g ∈ p.languages.values, OneLine g.name.toList)
    (hdirectories : ∀ g ∈ p.directories.values, OneLine g.name.toList)
    (hfiles : ∀ f ∈ p.files, OneLine f.path.toList ∧ OneLine f.language.toList) :
    r.ShowsTables p (splitLines (r.render p).toList) := by
  have hgroups : ∀ g ∈ p.languagesByCode, OneLine g.name.toList := fun g hg =>
    hlanguages g (List.mem_mergeSort.1 hg)
  set back := r.groupLines "## Languages" "Language" p.languagesByCode ++ [""] ++
    r.groupLines "## Directories" "Path" p.directories.values ++
    (if r.details then r.fileLines p else []) with hback
  have hlines : r.lines p = r.headLines p ++ back := by
    simp only [lines, hback, List.append_assoc]
  have hsections : ∀ line ∈ r.fileLines p, OneLine line.toList := by
    refine List.forall_mem_cons.2 ⟨by decide, List.forall_mem_cons.2 ⟨by decide, ?_⟩⟩
    intro line hline
    obtain ⟨e, he, hline⟩ := List.mem_flatMap.1 hline
    obtain ⟨g, hg, rfl⟩ := List.mem_map.1 he
    exact oneLine_languageSection r (hgroups g hg)
      (fun f hf => hfiles f (List.mem_of_mem_filter hf)) line hline
  have honeLine : ∀ line ∈ back, OneLine line.toList := by
    refine List.forall_mem_append.2 ⟨List.forall_mem_append.2 ⟨List.forall_mem_append.2
      ⟨oneLine_groupLines r (by decide) (by decide) hgroups, by decide⟩,
      oneLine_groupLines r (by decide) (by decide) hdirectories⟩, ?_⟩
    split
    · exact hsections
    · simp
  have hfront : r.headLines p ≠ [] := List.cons_ne_nil _ _
  obtain ⟨head, hhead⟩ := splitLines_document hfront honeLine
  refine ⟨head, _, _, (if r.details then r.fileLines p else []).map String.toList, ?_,
    showsTable_groupLines r "## Languages" (by decide) _,
    showsTable_groupLines r "## Directories" (by decide) _, ?_, ?_⟩
  · rw [render, hlines, hhead, hback]
    simp only [List.map_append, List.map_cons, List.map_nil]
    rfl
  · intro h
    rw [h]
    rfl
  · intro h
    refine ⟨p.filesByLanguage.map fun e => (r.languageTable e).map String.toList, ?_, ?_⟩
    · rw [if_pos h, fileLines, List.map_cons, List.map_cons, List.map_flatMap, List.flatMap_map]
      rfl
    · rw [List.forall₂_map_right_iff, List.forall₂_same]
      exact fun e _ => showsTable_languageTable r e

/-! ## Projects of one file -/

theorem ofRecords_singleton (root : String) (f : FileRecord) :
    Project.ofRecords root [f] =
      { root
        files := [f]
        total := (Gathering.addFile {} f).total
        languages := (Gathering.addFile {} f).languages
        directories :=
          (Gathering.addFile {} f).own.entries.foldl Gathering.addOwn
            (Gathering.addFile {} f).directories } := by
  unfold Project.ofRecords
  rw [List.mergeSort_singleton]
  rfl

theorem filesByLanguage_ofRecords_singleton (root : String) (f : FileRecord) :
    (Project.ofRecords root [f]).filesByLanguage = [(f.language, [f])] := by
  have hlanguages : (Project.ofRecords root [f]).languagesByCode =
      [({ name := f.language } : Group).add f] := by
    rw [Project.languagesByCode, byCode, ofRecords_singleton]
    exact List.mergeSort_singleton _
  rw [Project.filesByLanguage, hlanguages, ofRecords_singleton]
  simp [Group.add]

/-- A path and a language with bars and backslashes. -/
theorem showsTables_render_names_with_bars :
    (⟨⟨true⟩, "2024-01-02", true⟩ : MarkdownReport).ShowsTables
        (.ofRecords "demo" [⟨"src/a\\|b.c", "C|C\\x", ⟨4, 2, 1⟩, 1234⟩])
        (splitLines ((⟨⟨true⟩, "2024-01-02", true⟩ : MarkdownReport).render
          (.ofRecords "demo" [⟨"src/a\\|b.c", "C|C\\x", ⟨4, 2, 1⟩, 1234⟩])).toList) ∧
      Unmistakable "C|C\\x".toList := by
  refine ⟨showsTables_render _ _ ?_ ?_ ?_, by decide⟩ <;> rw [ofRecords_singleton] <;>
    decide +kernel

/-- In the table of its files a language with a backslash in front of a bar is mistaken. -/
theorem not_all_rows_read_back :
    ¬ ∀ (r : MarkdownReport) (p : Project), r.details = true →
      (∀ g ∈ p.languages.values, OneLine g.name.toList) →
      (∀ g ∈ p.directories.values, OneLine g.name.toList) →
      (∀ f ∈ p.files, OneLine f.path.toList ∧ OneLine f.language.toList) →
        ∀ e ∈ p.filesByLanguage, ∀ f ∈ e.2,
          readRow? (fileRow r.fileTable f).toList = some (fileValues r.numbers f) := by
  intro h
  have hrow := h ⟨⟨true⟩, "2024-01-02", true⟩
    (.ofRecords "demo" [⟨"a.x", "A\\|B", ⟨1, 0, 0⟩, 0⟩]) rfl
    (by rw [ofRecords_singleton]; decide +kernel) (by rw [ofRecords_singleton]; decide +kernel)
    (by rw [ofRecords_singleton]; decide +kernel)
  rw [filesByLanguage_ofRecords_singleton] at hrow
  have hread := hrow _ (List.mem_singleton_self _) _ (List.mem_singleton_self _)
  exact absurd ((readRow?_fileRow_iff _ _).1 hread) (by decide)

end MarkdownReport

end LineCensus.Report
