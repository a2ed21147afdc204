import LineCensus.Proofs.Report.CsvText
import LineCensus.Proofs.Report.Languages
import Mathlib.Data.List.GetD
import Std.Data.String.ToNat

/-!
# The sums in a summary

A summary has a column for each language, and a file's lines of code stand in one of them.
Whoever reads the text can check it: the numbers of a row come to its total, and those of the
last row are the sums of the columns, although they are taken from the entries of the languages
and from the total of the project.
-/
namespace LineCensus.Report.Csv

/-! ## Reading a summary -/

/-- A row of a summary below its header. -/
structure SummaryRow where
  name : String
  language : String
  /-- The lines of code by language, in the order of the header. -/
  code : List ℕ
  comment : ℕ
  blank : ℕ
  total : ℕ
deriving DecidableEq

namespace SummaryRow

/-- All numbers of a row, column by column. -/
def numbers (row : SummaryRow) : List ℕ := row.code ++ [row.comment, row.blank, row.total]

/-- Reads a row with so many languages. -/
def ofRecord? (languages : ℕ) : List String → Option SummaryRow
  | name :: language :: fields => do
    let numbers ← fields.mapM String.toNat?
    match numbers.drop languages with
    | [comment, blank, total] =>
      some { name, language, code := numbers.take languages, comment, blank, total }
    | _ => none
  | _ => none

end SummaryRow

/-- What a reader finds in a summary. -/
structure Summary where
  languages : List String
  rows : List SummaryRow
  /-- The last row. -/
  total : SummaryRow
deriving DecidableEq

namespace Summary

def header (languages : List String) : List String :=
  "filename" :: "language" :: languages ++ ["comment", "blank", "total"]

/-- Reads a header, which names the languages, and the rows below it. -/
def ofRecords? : List (List String) → Option Summary
  | [] => none
  | names :: records => do
    let languages := (names.drop 2).take (names.length - 5)
    if names = header languages then
      let rows ← records.mapM (SummaryRow.ofRecord? languages.length)
      let total ← rows.getLast?
      return { languages, rows := rows.dropLast, total }
    else none

end Summary

def readSummary? (text : String) : Option Summary := (read? text).bind Summary.ofRecords?

/-! ## What is put into it -/

theorem mapM_map_eq_some {α β : Type} {read : β → Option α} {write : α → β} {xs : List α}
    (h : ∀ x ∈ xs, read (write x) = some x) : (xs.map write).mapM read = some xs := by
  induction xs with
  | nil => rfl
  | cons x xs ih =>
    rw [List.map_cons, List.mapM_cons, h x List.mem_cons_self,
      ih fun y hy => h y (List.mem_cons_of_mem _ hy)]
    rfl

namespace SummaryRow

def cells (row : SummaryRow) : List Cell :=
  .text row.name :: .text row.language :: row.numbers.map .number

theorem ofRecord?_cells (row : SummaryRow) :
    ofRecord? row.code.length (row.cells.map content) = some row := by
  have hnumbers : ((row.numbers.map Cell.number).map content).mapM String.toNat? =
      some row.numbers := by
    rw [List.map_map]
    exact mapM_map_eq_some fun n _ => Nat.toNat?_repr n
  rw [cells, List.map_cons, List.map_cons, ofRecord?, hnumbers]
  simp [numbers, content]

/-- The row of a file. -/
def ofFile (languages : List String) (f : FileRecord) : SummaryRow where
  name := f.path
  language := f.language
  code := languages.map fun l => if l = f.language then f.tally.code else 0
  comment := f.tally.comment
  blank := f.tally.blank
  total := f.tally.total

theorem cells_ofFile (languages : List String) (f : FileRecord) :
    (ofFile languages f).cells = summaryRow languages f := by
  simp [cells, numbers, ofFile, summaryRow, restCells]

end SummaryRow

namespace Summary

def cells (s : Summary) : List (List Cell) :=
  (header s.languages).map .text :: (s.rows ++ [s.total]).map SummaryRow.cells

/-- A summary is found again if each of its rows has a number for every language. -/
theorem ofRecords?_cells {s : Summary}
    (h : ∀ row ∈ s.rows ++ [s.total], row.code.length = s.languages.length) :
    ofRecords? (s.cells.map (·.map content)) = some s := by
  have hheader : ((header s.languages).map Cell.text).map content = header s.languages := by
    rw [List.map_map]
    exact List.map_id _
  have hlanguages : ((header s.languages).drop 2).take ((header s.languages).length - 5) =
      s.languages := by
    simp [header]
  have hrows : (((s.rows ++ [s.total]).map SummaryRow.cells).map (·.map content)).mapM
      (SummaryRow.ofRecord? s.languages.length) = some (s.rows ++ [s.total]) := by
    rw [List.map_map]
    refine mapM_map_eq_some fun row hrow => ?_
    rw [← h row hrow]
    exact row.ofRecord?_cells
  rw [cells, List.map_cons, hheader, ofRecords?]
  simp only [hlanguages, if_true, hrows]
  simp

/-- The summary of a project. -/
def ofProject (p : Project) : Summary where
  languages := p.languages.keys
  rows := p.files.map (.ofFile p.languages.keys)
  total :=
    { name := "Total"
      language := "-"
      code := p.languages.values.map (·.tally.code)
      comment := p.total.tally.comment
      blank := p.total.tally.blank
      total := p.total.tally.total }

theorem cells_ofProject (p : Project) : (ofProject p).cells = summaryRows p := by
  have hfiles : SummaryRow.cells ∘ SummaryRow.ofFile p.languages.keys =
      summaryRow p.languages.keys := funext (SummaryRow.cells_ofFile p.languages.keys)
  have htotal : (ofProject p).total.cells = summaryTotal p := by
    simp [SummaryRow.cells, SummaryRow.numbers, ofProject, summaryTotal, restCells]
  rw [cells, List.map_append, List.map_singleton, htotal, ofProject, List.map_map, hfiles]
  rfl

theorem length_code_ofProject (p : Project) :
    ∀ row ∈ (ofProject p).rows ++ [(ofProject p).total],
      row.code.length = (ofProject p).languages.length := by
  intro row hrow
  simp only [ofProject, List.mem_append, List.mem_map, List.mem_singleton] at hrow ⊢
  rcases hrow with ⟨f, -, rfl⟩ | rfl
  · exact List.length_map _
  · simp [OrderedMap.keys, OrderedMap.values]

end Summary

/-- A reader finds in a summary what is put into it. -/
theorem readSummary?_summary (p : Project) : readSummary? (summary p) = some (.ofProject p) := by
  have htext : read? (summary p) = some ((summaryRows p).map (·.map content)) :=
    read?_render (List.cons_ne_nil _ _) (summaryRows_ne_nil p)
  rw [readSummary?, htext, Option.bind_some, ← Summary.cells_ofProject]
  exact Summary.ofRecords?_cells (Summary.length_code_ofProject p)

/-! ## Sums over the files -/

/-- A number that stands under one key only is the sum of its row. -/
theorem sum_map_ite_of_mem {keys : List String} (hnodup : keys.Nodup) {key : String}
    (hkey : key ∈ keys) (n : ℕ) : (keys.map fun k => if k = key then n else 0).sum = n := by
  rw [List.sum_map_ite, List.filter_eq, List.count_eq_one_of_mem hnodup hkey]
  simp

/-- The numbers that a file has in the columns of some languages and behind them. -/
def columns (languages : List String) : List (FileRecord → ℕ) :=
  (languages.map fun l f => if l = f.language then f.tally.code else 0) ++
    [(·.tally.comment), (·.tally.blank), (·.tally.total)]

theorem numbers_ofFile (languages : List String) (f : FileRecord) :
    (SummaryRow.ofFile languages f).numbers = (columns languages).map (· f) := by
  simp [SummaryRow.numbers, SummaryRow.ofFile, columns]

variable (root : String) (records : List FileRecord)

/-- The code of a language is that of the files under it. -/
theorem code_languages :
    (Project.ofRecords root records).languages.values.map (·.tally.code) =
      (Project.ofRecords root records).languages.keys.map fun l =>
        ((Project.ofRecords root records).files.map fun f =>
          if l = f.language then f.tally.code else 0).sum := by
  rw [Project.values_languages, List.map_map]
  refine List.map_congr_left fun l _ => ?_
  rw [Function.comp_apply, Group.count_tally_ofFiles Tally.code_zero Tally.code_add,
    List.sum_map_ite]
  simp [Project.filesOf, eq_comm]

/-- The last row has the sums over all files, column by column. -/
theorem numbers_total :
    (Summary.ofProject (Project.ofRecords root records)).total.numbers =
      (columns (Project.ofRecords root records).languages.keys).map fun column =>
        ((Project.ofRecords root records).files.map column).sum := by
  have htotal : (Project.ofRecords root records).total =
      .ofFiles "Total" (Project.ofRecords root records).files := by
    rw [Project.total_ofRecords, Group.ofFiles_perm _ (Project.files_perm root records)]
  rw [SummaryRow.numbers, Summary.ofProject, columns, code_languages, htotal,
    Group.count_tally_ofFiles Tally.comment_zero Tally.comment_add,
    Group.count_tally_ofFiles Tally.blank_zero Tally.blank_add,
    Group.count_tally_ofFiles Tally.total_zero Tally.total_add]
  simp

/-! ## Adding up -/

/-- The numbers of a summary go together. -/
structure Summary.AddsUp (s : Summary) : Prop where
  nodup_languages : s.languages.Nodup
  /-- The code of a file stands in the column of its language. -/
  language_of_ne_zero : ∀ row ∈ s.rows, ∀ e ∈ s.languages.zip row.code,
    e.2 ≠ 0 → e.1 = row.language
  /-- Every row has a number for each language, and its numbers come to its total. -/
  across : ∀ row ∈ s.rows ++ [s.total], row.code.length = s.languages.length ∧
    row.code.sum + row.comment + row.blank = row.total
  /-- The last row has the sums of the columns. -/
  down : ∀ i, s.total.numbers.getD i 0 = (s.rows.map (·.numbers.getD i 0)).sum

namespace SummaryRow

theorem language_of_ne_zero {languages : List String} {f : FileRecord} {e : String × ℕ}
    (he : e ∈ languages.zip (ofFile languages f).code) (hne : e.2 ≠ 0) : e.1 = f.language := by
  have hzip : languages.zip (ofFile languages f).code =
      languages.map fun l => (l, if l = f.language then f.tally.code else 0) := by
    simpa [ofFile] using List.zip_map' (f := id) (l := languages)
  rw [hzip] at he
  obtain ⟨l, -, rfl⟩ := List.mem_map.1 he
  by_contra hl
  exact hne (if_neg hl)

theorem sum_ofFile {languages : List String} (hnodup : languages.Nodup) {f : FileRecord}
    (hf : f.language ∈ languages) :
    (ofFile languages f).code.sum + (ofFile languages f).comment + (ofFile languages f).blank =
      (ofFile languages f).total := by
  have hcode : (ofFile languages f).code.sum = f.tally.code := sum_map_ite_of_mem hnodup hf _
  rw [hcode]
  rfl

end SummaryRow

/-- The code of the languages and what else there is in the project come to its total. -/
theorem sum_total :
    let total := (Summary.ofProject (Project.ofRecords root records)).total
    total.code.sum + total.comment + total.blank = total.total := by
  intro total
  have hcode : total.code.sum = (Project.ofRecords root records).total.tally.code := by
    rw [← Project.ofGroups_languages, Group.ofGroups, Tally.map_sum Tally.code_zero Tally.code_add,
      List.map_map]
    rfl
  rw [hcode]
  rfl

/-- What stands in a column of the last row is the sum over the column. -/
theorem getD_numbers_total (i : ℕ) :
    let s := Summary.ofProject (Project.ofRecords root records)
    s.total.numbers.getD i 0 = (s.rows.map (·.numbers.getD i 0)).sum := by
  intro s
  let languages := (Project.ofRecords root records).languages.keys
  let files := (Project.ofRecords root records).files
  -- Behind the last column there are no numbers, as if a column of zeros stood there.
  let column := (columns languages).getD i fun _ => 0
  have htotal : s.total.numbers.getD i 0 = (files.map column).sum := by
    have hzero : (files.map fun _ => 0).sum = 0 := List.sum_map_zero
    rw [numbers_total, ← hzero]
    exact List.getD_map _ (fun _ => 0) fun column => (files.map column).sum
  have hfile : ∀ f, (SummaryRow.ofFile languages f).numbers.getD i 0 = column f := by
    intro f
    rw [numbers_ofFile]
    exact List.getD_map _ (fun _ => 0) fun column => column f
  have hrows : s.rows = files.map (.ofFile languages) := rfl
  rw [htotal, hrows, List.map_map]
  exact congrArg List.sum (List.map_congr_left fun f _ => (hfile f).symm)

theorem addsUp_ofProject : (Summary.ofProject (Project.ofRecords root records)).AddsUp where
  nodup_languages := (Project.ofRecords root records).languages.nodup_keys
  language_of_ne_zero := by
    intro row hrow e he hne
    obtain ⟨f, -, rfl⟩ := List.mem_map.1 hrow
    exact SummaryRow.language_of_ne_zero he hne
  across := by
    intro row hrow
    refine ⟨Summary.length_code_ofProject _ row hrow, ?_⟩
    rcases List.mem_append.1 hrow with hrow | hrow
    · obtain ⟨f, hf, rfl⟩ := List.mem_map.1 hrow
      refine SummaryRow.sum_ofFile (Project.ofRecords root records).languages.nodup_keys ?_
      exact (Project.mem_keys_languages_iff root records).2
        ⟨f, (Project.files_perm root records).mem_iff.1 hf, rfl⟩
    · rw [List.mem_singleton.1 hrow]
      exact sum_total root records
  down := getD_numbers_total root records

theorem le_total_of_mem_columns {languages : List String} {column : FileRecord → ℕ}
    (h : column ∈ columns languages) (f : FileRecord) : column f ≤ f.tally.total := by
  have htotal : f.tally.total = f.tally.code + f.tally.comment + f.tally.blank := rfl
  simp only [columns, List.mem_append, List.mem_map, List.mem_cons, List.not_mem_nil,
    or_false] at h
  rcases h with ⟨l, -, rfl⟩ | rfl | rfl | rfl
  · dsimp only
    split <;> omega
  · dsimp only
    omega
  · dsimp only
    omega
  · exact Nat.le_refl _

/-- No number of a summary is greater than the number of all lines, so all fit into words. -/
theorem lt_size_of_mem_numbers {records : List FileRecord} (hsums : SumsFit records) :
    let s := Summary.ofProject (Project.ofRecords root records)
    ∀ row ∈ s.rows ++ [s.total], ∀ n ∈ row.numbers, n < USize.size := by
  intro s row hrow n hn
  let files := (Project.ofRecords root records).files
  have hlines : (files.map (·.tally.total)).sum < USize.size := by
    rw [← linesIn_eq_sum, linesIn_perm (Project.files_perm root records)]
    exact hsums.lines
  refine Nat.lt_of_le_of_lt ?_ hlines
  rcases List.mem_append.1 hrow with hrow | hrow
  · obtain ⟨f, hf, rfl⟩ := List.mem_map.1 hrow
    rw [numbers_ofFile] at hn
    obtain ⟨column, hcolumn, rfl⟩ := List.mem_map.1 hn
    have hfile : f.tally.total ≤ (files.map (·.tally.total)).sum :=
      List.le_sum_of_mem (List.mem_map_of_mem hf)
    exact Nat.le_trans (le_total_of_mem_columns hcolumn f) hfile
  · rw [List.mem_singleton.1 hrow, numbers_total] at hn
    obtain ⟨column, hcolumn, rfl⟩ := List.mem_map.1 hn
    exact List.sum_le_sum fun f _ => le_total_of_mem_columns hcolumn f

/-- The summary of a project, read as CSV, adds up: there is a column for each language, a row
for each file in their order, in which the code stands under the language of the file and
nowhere else, and a row of totals; every row comes to its total and every column to its sum.
With room for the sums over all files all these numbers fit into words. -/
theorem readSummary?_adds_up (root : String) {records : List FileRecord}
    (hsums : SumsFit records) :
    let p := Project.ofRecords root records
    p.NeverOverflows ∧
      ∃ s, readSummary? (summary p) = some s ∧ s.languages = p.languages.keys ∧
        s.rows.map (fun row => (row.name, row.language)) =
          p.files.map (fun f => (f.path, f.language)) ∧
        s.total.name = "Total" ∧ s.AddsUp ∧
        ∀ row ∈ s.rows ++ [s.total], ∀ n ∈ row.numbers, n < USize.size := by
  intro p
  refine ⟨Project.neverOverflows_iff.2 hsums, _, readSummary?_summary p, rfl, ?_, rfl,
    addsUp_ofProject root records, lt_size_of_mem_numbers root hsums⟩
  rw [Summary.ofProject, List.map_map]
  rfl

/-- The file between those of the other language has nothing in the column of that language. -/
theorem readSummary?_adds_up_twoLanguages :
    SumsFit Project.twoLanguages ∧
      ∃ s, readSummary? (summary (Project.ofRecords "p" Project.twoLanguages)) = some s ∧
        s.rows.map (·.name) = ["a.rs", "b/c.py", "b/d.rs"] ∧ s.AddsUp := by
  have hsums : SumsFit Project.twoLanguages := .of_lt (by decide)
  obtain ⟨-, s, hread, -, hrows, -, hadds, -⟩ := readSummary?_adds_up "p" hsums
  refine ⟨hsums, s, hread, ?_, hadds⟩
  have hnames := congrArg (List.map Prod.fst) hrows
  rw [List.map_map, List.map_map, Project.files_of_sorted "p" (by decide +kernel)] at hnames
  exact hnames

end LineCensus.Report.Csv
