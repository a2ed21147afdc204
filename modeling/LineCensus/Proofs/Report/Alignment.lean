import LineCensus.Proofs.Report.DigitGroups
import LineCensus.Proofs.Report.Languages
import LineCensus.Proofs.Report.Shortening
import LineCensus.Report.LanguageList
import LineCensus.Report.Text

/-!
# Lines of equal length

A cell is filled up to the width of its column, so the lines of a table are as long as its
separators if every cell fits into its column. In a report the columns of names are as wide as
the longest name, or as the bound to which names are shortened, and the columns of numbers have
room for ten characters. The list of languages asks for the width of its longest cell in every
column.
-/
namespace LineCensus.Report

/-- Lines that all have the same number of characters. -/
def Aligned (lines : List String) : Prop := ∃ width, ∀ line ∈ lines, line.length = width

/-! ## Tables -/

theorem length_intercalate (mark : String) (texts : List String) :
    (mark.intercalate texts).length =
      (texts.map String.length).sum + mark.length * (texts.length - 1) := by
  induction texts with
  | nil => simp
  | cons s texts ih =>
    cases texts with
    | nil => simp
    | cons s' texts =>
      rw [String.intercalate_cons_cons, String.length_append, String.length_append, ih]
      simp only [List.map_cons, List.sum_cons, List.length_cons, Nat.add_sub_cancel, Nat.mul_add]
      omega

namespace TextTable

variable {t : TextTable}

/-- What a cell holds, before it is filled up. -/
def cellText (t : TextTable) : Cell → String
  | .text s => s
  | .number n => t.numbers.render n

/-- A cell is no longer than its column is wide. -/
def Fits (t : TextTable) (c : Column) (cell : Cell) : Prop :=
  (t.cellText cell).length ≤ c.actualWidth

theorem length_renderCell {c : Column} {cell : Cell} (h : t.Fits c cell) :
    (t.renderCell c cell).length = c.actualWidth := by
  cases cell with
  | text s => exact (length_padRight _ _).trans (Nat.max_eq_left h)
  | number n => exact (length_padLeft _ _).trans (Nat.max_eq_left h)

/-- The length of a line whose cells fit: the columns, what stands between them, and the ends. -/
def lineWidth (t : TextTable) : ℕ :=
  (t.columns.map Column.actualWidth).sum + 3 * (t.columns.length - 1) + 4

theorem length_bar {cells : List String}
    (h : cells.map String.length = t.columns.map Column.actualWidth) :
    (bar cells).length = t.lineWidth := by
  have hcount : cells.length = t.columns.length := by simpa using congrArg List.length h
  have hstart : "| ".length = 2 := rfl
  have hstop : " |".length = 2 := rfl
  have hmark : " | ".length = 3 := rfl
  rw [bar, String.length_append, String.length_append, length_intercalate, h, hcount, lineWidth,
    hstart, hstop, hmark]
  omega

theorem length_separator (t : TextTable) : t.separator.length = t.lineWidth := by
  have hdashes : (t.columns.map fun c => String.ofList (List.replicate c.actualWidth '-')).map
      String.length = t.columns.map Column.actualWidth := by
    simp [Function.comp_def]
  have hstart : "+-".length = 2 := rfl
  have hstop : "-+".length = 2 := rfl
  have hmark : "-+-".length = 3 := rfl
  rw [separator, String.length_append, String.length_append, length_intercalate, hdashes,
    List.length_map, lineWidth, hstart, hstop, hmark]
  omega

theorem length_line {cells : List Cell} (h : List.Forall₂ t.Fits t.columns cells) :
    (t.line cells).length = t.lineWidth := by
  refine length_bar ?_
  generalize t.columns = columns at h ⊢
  induction h with
  | nil => rfl
  | cons hcell _ ih =>
    rw [List.zipWith_cons_cons, List.map_cons, List.map_cons, ih, length_renderCell hcell]

theorem length_of_mem_headerLines {line : String} (h : line ∈ t.headerLines) :
    line.length = t.lineWidth := by
  have htitles : (t.columns.map fun c => padRight c.actualWidth c.title).map String.length =
      t.columns.map Column.actualWidth := by
    rw [List.map_map]
    refine List.map_congr_left fun c _ => ?_
    exact (length_padRight _ _).trans (Nat.max_eq_left (Nat.le_max_right _ _))
  rw [headerLines] at h
  simp only [List.mem_cons, List.not_mem_nil, or_false] at h
  rcases h with rfl | rfl | rfl
  · exact length_separator t
  · exact length_bar htitles
  · exact length_separator t

/-- A table as it is printed: the titles between two separators, the rows, and a separator
below them. -/
def box (t : TextTable) (rows : List (List Cell)) : List String :=
  t.separator :: bar (t.columns.map fun c => padRight c.actualWidth c.title) :: t.separator ::
    (rows.map t.line ++ [t.separator])

theorem box_eq (t : TextTable) (rows : List (List Cell)) :
    t.box rows = t.headerLines ++ rows.map t.line ++ [t.separator] := rfl

/-- A table is aligned if all cells of its rows fit. -/
theorem aligned_box {rows : List (List Cell)}
    (h : ∀ cells ∈ rows, List.Forall₂ t.Fits t.columns cells) : Aligned (t.box rows) := by
  refine ⟨t.lineWidth, fun line hline => ?_⟩
  rw [box_eq, List.append_assoc, List.mem_append, List.mem_append, List.mem_singleton] at hline
  rcases hline with hheader | hrow | rfl
  · exact length_of_mem_headerLines hheader
  · obtain ⟨cells, hcells, rfl⟩ := List.mem_map.1 hrow
    exact length_line (h cells hcells)
  · exact length_separator t

end TextTable

theorem le_foldl_max {texts : List String} {s : String} (h : s ∈ texts) (n : ℕ) :
    s.length ≤ texts.foldl (fun n s => max n s.length) n := by
  have hstart : ∀ (texts : List String) (n : ℕ),
      n ≤ texts.foldl (fun n s => max n s.length) n := by
    intro texts
    induction texts with
    | nil => exact Nat.le_refl
    | cons s texts ih => exact fun n => Nat.le_trans (Nat.le_max_left n s.length) (ih _)
  induction texts generalizing n with
  | nil => cases h
  | cons t texts ih =>
    rcases List.mem_cons.1 h with rfl | h
    · exact Nat.le_trans (Nat.le_max_right n s.length) (hstart texts _)
    · exact ih h _

/-- The numbers in some cells. -/
def numbersIn (cells : List Cell) : List ℕ :=
  cells.filterMap fun
    | .number n => some n
    | .text _ => none

/-- The numbers in some cells can be written in columns of numbers. -/
def HasRoom (f : NumberFormat) (cells : List Cell) : Prop :=
  ∀ n ∈ numbersIn cells, (f.render n).length ≤ TextReport.numberWidth

/-! ## Rows -/

namespace TextReport

variable {r : TextReport} {t : TextTable}

/-- A name is shown in no more characters than its column is wide. -/
theorem length_fit_le {s : String} {longest bound : ℕ} (h : s.length ≤ longest)
    (hbound : 5 ≤ bound) : (r.fit s bound).length ≤ r.width longest bound := by
  unfold fit width
  split
  · exact h
  · rcases Nat.lt_or_ge bound s.length with hlong | hshort
    · have hfits := length_truncateMiddle_le_iff (s := s) |>.2 (Or.inr hbound)
      exact Nat.le_min.2 ⟨by omega, hfits⟩
    · rw [truncateMiddle_of_le hshort]
      exact Nat.le_min.2 ⟨h, hshort⟩

theorem fits_name {s title : String} {longest bound : ℕ} (h : s.length ≤ longest)
    (hbound : 5 ≤ bound) : t.Fits ⟨title, r.width longest bound⟩ (.text (r.fit s bound)) :=
  Nat.le_trans (length_fit_le h hbound) (Nat.le_max_left _ _)

theorem fits_number {title : String} {n : ℕ} (h : (t.numbers.render n).length ≤ numberWidth) :
    t.Fits ⟨title, numberWidth⟩ (.number n) :=
  Nat.le_trans h (Nat.le_max_left _ _)

theorem fits_tallyCells {tally : Tally} {tokens : ℕ}
    (h : HasRoom t.numbers (tallyCells tally tokens)) :
    List.Forall₂ t.Fits tallyColumns (tallyCells tally tokens) := by
  simp only [HasRoom, numbersIn, tallyCells, List.filterMap_cons, List.filterMap_nil,
    List.forall_mem_cons] at h
  obtain ⟨hcode, hcomment, hblank, htotal, htokens, -⟩ := h
  exact .cons (fits_number hcode) (.cons (fits_number hcomment) (.cons (fits_number hblank)
    (.cons (fits_number htotal) (.cons (fits_number htokens) .nil))))

theorem length_le_longestOf {texts : List String} {s : String} (h : s ∈ texts) :
    s.length ≤ longestOf texts := le_foldl_max h 0

/-! ## Rows of groups -/

/-- The cells of a group's row. -/
def groupCells (r : TextReport) (bound : ℕ) (g : Group) : List Cell :=
  .text (r.fit g.name bound) :: .number g.files :: tallyCells g.tally g.tokens

/-- The cells of a group fit if the table has room for its name and its numbers. -/
theorem fits_groupCells {title : String} {longest bound : ℕ} {g : Group} (hbound : 5 ≤ bound)
    (hname : g.name.length ≤ longest) (hroom : HasRoom r.numbers (r.groupCells bound g)) :
    List.Forall₂ (r.groupTable title (r.width longest bound)).Fits
      (r.groupTable title (r.width longest bound)).columns (r.groupCells bound g) := by
  obtain ⟨hfiles, htally⟩ := List.forall_mem_cons.1 hroom
  exact .cons (fits_name hname hbound) (.cons (fits_number hfiles) (fits_tallyCells htally))

/-- A table of groups is aligned if it has room for the longest of their names and for their
numbers. -/
theorem aligned_groupBox {title : String} {longest bound : ℕ} {gs : List Group}
    (hbound : 5 ≤ bound) (hnames : ∀ g ∈ gs, g.name.length ≤ longest)
    (hroom : ∀ cells ∈ gs.map (r.groupCells bound), HasRoom r.numbers cells) :
    Aligned ((r.groupTable title (r.width longest bound)).box (gs.map (r.groupCells bound))) := by
  refine TextTable.aligned_box fun cells hcells => ?_
  have hcellsRoom := hroom cells hcells
  obtain ⟨g, hg, rfl⟩ := List.mem_map.1 hcells
  exact fits_groupCells hbound (hnames g hg) hcellsRoom

/-! ## Rows of files -/

/-- The cells of a file's row. -/
def fileCells (r : TextReport) (f : FileRecord) : List Cell :=
  .text (r.fit f.path maxPathWidth) :: .text (r.fit f.language maxLanguageWidth) ::
    tallyCells f.tally f.tokens

/-- The cells of the last row of the files. -/
def totalCells (g : Group) : List Cell :=
  .text "Total" :: .text "" :: tallyCells g.tally g.tokens

theorem fits_fileCells {p : Project} {f : FileRecord} (hfile : f ∈ p.files)
    (hlanguage : f.language ∈ p.languages.keys) (hroom : HasRoom r.numbers (r.fileCells f)) :
    List.Forall₂ (r.fileTable p).Fits (r.fileTable p).columns (r.fileCells f) := by
  have hpath : f.path ∈ p.files.map (·.path) ++ p.directories.keys :=
    List.mem_append_left _ (List.mem_map_of_mem hfile)
  exact .cons (fits_name (length_le_longestOf hpath) (by decide))
    (.cons (fits_name (length_le_longestOf hlanguage) (by decide)) (fits_tallyCells hroom))

theorem fits_totalCells {p : Project} {g : Group} (hroom : HasRoom r.numbers (totalCells g)) :
    List.Forall₂ (r.fileTable p).Fits (r.fileTable p).columns (totalCells g) := by
  have hword : (r.fileTable p).Fits ⟨"filename", r.pathWidth p⟩ (.text "Total") :=
    Nat.le_trans (by decide : "Total".length ≤ "filename".length) (Nat.le_max_right _ _)
  exact .cons hword (.cons (Nat.zero_le _) (fits_tallyCells hroom))

/-! ## Reports -/

/-- The rows of the languages. -/
def languageRows (r : TextReport) (p : Project) : List (List Cell) :=
  p.languagesByCode.map (r.groupCells maxLanguageWidth)

/-- The rows of the directories, in a summary of those with the most code. -/
def directoryRows (r : TextReport) (p : Project) : List (List Cell) :=
  (if r.full then p.directories.values else p.topDirectories topCount).map
    (r.groupCells maxPathWidth)

/-- The rows of the files, in a summary of those with the most code, and that of the total. -/
def fileRows (r : TextReport) (p : Project) : List (List Cell) :=
  (if r.full then p.files else p.topFiles topCount).map r.fileCells ++ [totalCells p.total]

/-- The boxed table of the languages. -/
def languageBox (r : TextReport) (p : Project) : List String :=
  (r.groupTable "language" (r.languageWidth p)).box (r.languageRows p)

/-- The boxed table of the directories. -/
def directoryBox (r : TextReport) (p : Project) : List String :=
  (r.groupTable "path" (r.pathWidth p)).box (r.directoryRows p)

/-- The boxed table of the files. -/
def fileBox (r : TextReport) (p : Project) : List String := (r.fileTable p).box (r.fileRows p)

/-- The numbers in the tables of a report. -/
def shownNumbers (r : TextReport) (p : Project) : List ℕ :=
  (r.languageRows p ++ r.directoryRows p ++ r.fileRows p).flatMap numbersIn

/-- A report is its head and the three tables, each below its caption. -/
theorem render_eq (r : TextReport) (p : Project) :
    r.render p = document (r.headLines p ++ "Languages" :: r.languageBox p ++
      "" :: r.title "Directories" :: r.directoryBox p ++
      "" :: r.title "Files" :: r.fileBox p) := by
  have hlanguages : r.languageLines p = "Languages" :: r.languageBox p := by
    rw [languageBox, TextTable.box_eq, languageRows, List.map_map]
    rfl
  have hdirectories : r.directoryLines p = r.title "Directories" :: r.directoryBox p := by
    rw [directoryBox, TextTable.box_eq, directoryRows, List.map_map]
    rfl
  have hfiles : r.fileLines p = r.title "Files" :: r.fileBox p := by
    rw [fileBox, TextTable.box_eq, fileRows, List.map_append, List.map_map, List.append_assoc,
      List.append_assoc, fileLines]
    rfl
  rw [render, lines, hlanguages, hdirectories, hfiles]
  simp

section Report

open Project (ofRecords)

variable {root : String} {records : List FileRecord}

theorem aligned_languageBox
    (hroom : ∀ cells ∈ r.languageRows (ofRecords root records), HasRoom r.numbers cells) :
    Aligned (r.languageBox (ofRecords root records)) := by
  refine aligned_groupBox (by decide) (fun g hg => length_le_longestOf ?_) hroom
  have hmem : g ∈ (ofRecords root records).languages.values := List.mem_mergeSort.1 hg
  rw [Project.values_languages] at hmem
  obtain ⟨l, hl, rfl⟩ := List.mem_map.1 hmem
  exact hl

theorem aligned_directoryBox
    (hroom : ∀ cells ∈ r.directoryRows (ofRecords root records), HasRoom r.numbers cells) :
    Aligned (r.directoryBox (ofRecords root records)) := by
  refine aligned_groupBox (by decide) (fun g hg => length_le_longestOf ?_) hroom
  have hmem : g ∈ (ofRecords root records).directories.values := by
    split at hg
    · exact hg
    · exact List.mem_mergeSort.1 (List.mem_of_mem_take hg)
  obtain ⟨e, he, rfl⟩ := List.mem_map.1 hmem
  rw [Project.name_of_mem_directories he]
  exact List.mem_append_right _ (List.mem_map_of_mem he)

theorem aligned_fileBox
    (hroom : ∀ cells ∈ r.fileRows (ofRecords root records), HasRoom r.numbers cells) :
    Aligned (r.fileBox (ofRecords root records)) := by
  refine TextTable.aligned_box fun cells hcells => ?_
  have hcellsRoom := hroom cells hcells
  rcases List.mem_append.1 hcells with hmem | hmem
  · obtain ⟨f, hf, rfl⟩ := List.mem_map.1 hmem
    have hfile : f ∈ (ofRecords root records).files := by
      split at hf
      · exact hf
      · exact List.mem_mergeSort.1 (List.mem_of_mem_take hf)
    have hrecord := (Project.files_perm root records).mem_iff.1 hfile
    have hlanguage := (Project.mem_keys_languages_iff root records).2 ⟨f, hrecord, rfl⟩
    exact fits_fileCells hfile hlanguage hcellsRoom
  · rw [List.mem_singleton.1 hmem] at hcellsRoom ⊢
    exact fits_totalCells hcellsRoom

end Report

end TextReport

/-! ## The list of languages -/

theorem length_le_longest {texts : List String} {s : String} (h : s ∈ texts) :
    s.length ≤ longest texts := le_foldl_max h 0

/-- The boxed lines of the list: all but the last one, which counts the languages. -/
def languageBox (reg : Registry) : List String :=
  let rows := reg.toList.map LanguageRow.ofDefinition
  (languageTable rows).box (rows.map LanguageRow.cells)

theorem languageList_eq (reg : Registry) :
    languageList reg = document (languageBox reg ++ [toString reg.size ++ " languages"]) := by
  dsimp only [languageBox]
  rw [TextTable.box_eq, List.map_map, List.append_assoc]
  rfl

theorem aligned_languageBox (reg : Registry) : Aligned (languageBox reg) := by
  let rows := reg.toList.map LanguageRow.ofDefinition
  refine TextTable.aligned_box fun cells hcells => ?_
  obtain ⟨row, hrow, rfl⟩ := List.mem_map.1 hcells
  have hfits : ∀ (title : String) (text : LanguageRow → String),
      (languageTable rows).Fits ⟨title, longest (rows.map text)⟩ (.text (text row)) := by
    intro title text
    have hlongest : (text row).length ≤ longest (rows.map text) :=
      length_le_longest (List.mem_map_of_mem hrow)
    exact Nat.le_trans hlongest (Nat.le_max_left _ _)
  exact .cons (hfits _ _) (.cons (hfits _ _) (.cons (hfits _ _) (.cons (hfits _ _) .nil)))

/-- A report is its head and three tables, each below its caption. If the numbers in the tables
take at most ten characters, then in each of them the titles, the rows, that of the total
included, and the separators are equally long. In the list of languages the boxed lines are
equally long in any case. -/
theorem aligned_tables (r : TextReport) (root : String) (records : List FileRecord)
    (reg : Registry) :
    let p := Project.ofRecords root records
    r.render p = document (r.headLines p ++ "Languages" :: r.languageBox p ++
        "" :: r.title "Directories" :: r.directoryBox p ++
        "" :: r.title "Files" :: r.fileBox p) ∧
      ((∀ n ∈ r.shownNumbers p, (r.numbers.render n).length ≤ 10) →
        Aligned (r.languageBox p) ∧ Aligned (r.directoryBox p) ∧ Aligned (r.fileBox p)) ∧
      languageList reg = document (languageBox reg ++ [toString reg.size ++ " languages"]) ∧
      Aligned (languageBox reg) := by
  intro p
  refine ⟨r.render_eq p, fun hshown => ?_, languageList_eq reg, aligned_languageBox reg⟩
  have hroom : ∀ cells ∈ r.languageRows p ++ r.directoryRows p ++ r.fileRows p,
      HasRoom r.numbers cells := fun cells hcells n hn =>
    hshown n (List.mem_flatMap.2 ⟨cells, hcells, hn⟩)
  simp only [List.forall_mem_append] at hroom
  obtain ⟨⟨hlanguages, hdirectories⟩, hfiles⟩ := hroom
  exact ⟨TextReport.aligned_languageBox hlanguages, TextReport.aligned_directoryBox hdirectories,
    TextReport.aligned_fileBox hfiles⟩

/-- A name that is too long for its column, in a directory that lists its own files apart. All
stand in the order of their names, and in that of their code as well. -/
def longNames : List FileRecord :=
  [⟨"größe/" ++ String.ofList (List.replicate 56 'x') ++ ".rs", "Rust (all the editions)",
      ⟨1234567, 20, 3⟩, 4⟩,
    ⟨"größe/zu/b.rs", "Rust", ⟨7, 0, 0⟩, 0⟩]

theorem hasRoom_longNames :
    ∀ n ∈ TextReport.shownNumbers ⟨⟨true⟩, false⟩ (Project.ofRecords "p" longNames),
      ((NumberFormat.mk true).render n).length ≤ 10 := by
  have hfiles : (Project.ofRecords "p" longNames).files = longNames :=
    Project.files_of_sorted "p" (by decide +kernel)
  have hgathering : Project.gathering "p" longNames = longNames.foldl Gathering.addFile {} := by
    rw [Project.gathering, hfiles]
  have hlanguages : (Project.ofRecords "p" longNames).languagesByCode =
      (longNames.foldl Gathering.addFile {}).languages.values := by
    have hvalues : (Project.ofRecords "p" longNames).languages.values =
        (longNames.foldl Gathering.addFile {}).languages.values := by
      rw [← hgathering]
      rfl
    rw [Project.languagesByCode, hvalues]
    exact byCode_of_pairwise (by decide +kernel)
  have hdirectories : (Project.ofRecords "p" longNames).topDirectories TextReport.topCount =
      ((longNames.foldl Gathering.addFile {}).own.entries.foldl Gathering.addOwn
        (longNames.foldl Gathering.addFile {}).directories).values := by
    rw [Project.topDirectories, Project.directories_ofRecords, hgathering,
      byCode_of_pairwise]
    all_goals decide +kernel
  have hshown : (Project.ofRecords "p" longNames).topFiles TextReport.topCount = longNames := by
    rw [Project.topFiles, hfiles, byCode_of_pairwise]
    all_goals decide +kernel
  simp only [TextReport.shownNumbers, TextReport.languageRows, TextReport.directoryRows,
    TextReport.fileRows, Bool.false_eq_true, if_false, hlanguages, hdirectories, hshown,
    Project.total_ofRecords]
  decide +kernel

theorem aligned_tables_longNames :
    (∀ n ∈ TextReport.shownNumbers ⟨⟨true⟩, false⟩ (Project.ofRecords "p" longNames),
        ((NumberFormat.mk true).render n).length ≤ 10) ∧
      Aligned (TextReport.languageBox ⟨⟨true⟩, false⟩ (Project.ofRecords "p" longNames)) ∧
      Aligned (TextReport.directoryBox ⟨⟨true⟩, false⟩ (Project.ofRecords "p" longNames)) ∧
      Aligned (TextReport.fileBox ⟨⟨true⟩, false⟩ (Project.ofRecords "p" longNames)) :=
  ⟨hasRoom_longNames,
    (aligned_tables ⟨⟨true⟩, false⟩ "p" longNames .builtin).2.1 hasRoom_longNames⟩

end LineCensus.Report
