import LineCensus.Proofs.Report.Directories
import LineCensus.Proofs.Text.Numeral
import LineCensus.Report.Csv

/-!
# Reading CSV

A reader of comma-separated values goes through a text character by character. A field may
stand in quotes: then a quote in it is written twice, and commas and line ends in it are
characters like others. Outside quotes a comma ends a field and a line end, a line feed with
or without a carriage return in front, ends a record. The last record may do without a line
end.
-/
namespace LineCensus.Report.Csv

/-- Where in a record a reader stands. -/
inductive Place
  /-- At the head of a field. -/
  | head
  /-- In a field without quotes. -/
  | bare
  /-- Between quotes. -/
  | quoted
  /-- Behind a quote that ends the field or is the first of two. -/
  | closed
  /-- Behind a carriage return, which a line feed must follow. -/
  | atReturn
deriving DecidableEq

/-- What has been read, all of it last one first. -/
structure Reader where
  place : Place := .head
  /-- The characters of the field. -/
  chars : List Char := []
  /-- The fields before it in the record. -/
  fields : List String := []
  records : List (List String) := []

namespace Reader

def push (r : Reader) (place : Place) (c : Char) : Reader := { r with place, chars := c :: r.chars }

def endField (r : Reader) : Reader :=
  { r with place := .head, chars := [], fields := String.ofList r.chars.reverse :: r.fields }

def endRecord (r : Reader) : Reader := { records := r.endField.fields.reverse :: r.records }

/-- Reads what ends a field; nothing else does. -/
def separate (r : Reader) (c : Char) : Option Reader :=
  if c = ',' then some r.endField
  else if c = '\n' then some r.endRecord
  else if c = '\r' then some { r with place := .atReturn }
  else none

def read (r : Reader) (c : Char) : Option Reader :=
  match r.place with
  | .head =>
    if c = '"' then some { r with place := .quoted }
    else (r.separate c).or (r.push .bare c)
  | .bare => if c = '"' then none else (r.separate c).or (r.push .bare c)
  | .quoted => if c = '"' then some { r with place := .closed } else some (r.push .quoted c)
  | .closed => if c = '"' then some (r.push .quoted c) else r.separate c
  | .atReturn => if c = '\n' then some r.endRecord else none

def readAll (r : Reader) (s : List Char) : Option Reader := s.foldlM read r

/-- The records of a whole text. Behind a line end no further record begins. -/
def finish? (r : Reader) : Option (List (List String)) :=
  match r.place with
  | .head => if r.fields = [] then some r.records.reverse else some r.endRecord.records.reverse
  | .bare | .closed => some r.endRecord.records.reverse
  | .quoted | .atReturn => none

end Reader

/-- The records of a text, and their fields. -/
def read? (s : String) : Option (List (List String)) :=
  (Reader.readAll {} s.toList).bind Reader.finish?

/-! ## Fields -/

/-- A character that neither ends a field nor stands for something else in one. -/
def IsPlain (c : Char) : Prop := c ≠ '"' ∧ c ≠ ',' ∧ c ≠ '\n' ∧ c ≠ '\r'

theorem isPlain_of_isDigit {c : Char} (h : c.isDigit = true) : IsPlain c := by
  refine ⟨?_, ?_, ?_, ?_⟩ <;> rintro rfl <;> cases h

/-- What a reader makes of a cell. -/
def content : Cell → String
  | .text s => s
  | .number n => toString n

namespace Reader

@[simp] theorem readAll_nil (r : Reader) : r.readAll [] = some r := rfl

@[simp] theorem readAll_cons (r : Reader) (c : Char) (s : List Char) :
    r.readAll (c :: s) = (r.read c).bind (·.readAll s) := rfl

theorem readAll_append (r : Reader) (s t : List Char) :
    r.readAll (s ++ t) = (r.readAll s).bind (·.readAll t) := List.foldlM_append

variable (fields : List String) (records : List (List String))

/-- Between quotes a text with its quotes doubled is read as itself. -/
theorem readAll_doubled (s chars : List Char) :
    (Reader.mk .quoted chars fields records).readAll
        (s.flatMap fun c => if c = '"' then ['"', '"'] else [c]) =
      some ⟨.quoted, s.reverse ++ chars, fields, records⟩ := by
  induction s generalizing chars with
  | nil => rfl
  | cons c s ih =>
    have hchar : (Reader.mk .quoted chars fields records).readAll
        (if c = '"' then ['"', '"'] else [c]) = some ⟨.quoted, c :: chars, fields, records⟩ := by
      by_cases hc : c = '"'
      · rw [hc]
        rfl
      · simp [hc, read, push]
    rw [List.flatMap_cons, readAll_append, hchar, Option.bind_some, ih]
    simp

theorem readAll_quote (s : String) :
    (Reader.mk .head [] fields records).readAll (quote s).toList =
      some ⟨.closed, s.toList.reverse, fields, records⟩ := by
  have hopen : (Reader.mk .head [] fields records).read '"' =
      some ⟨.quoted, [], fields, records⟩ := rfl
  rw [quote, String.toList_ofList, List.cons_append, readAll_cons, hopen, Option.bind_some,
    readAll_append, readAll_doubled, List.append_nil]
  rfl

theorem read_plain {r : Reader} {c : Char} (hplace : r.place = .head ∨ r.place = .bare)
    (hc : IsPlain c) : r.read c = some (r.push .bare c) := by
  obtain ⟨hquote, hcomma, hfeed, hreturn⟩ := hc
  rcases hplace with hplace | hplace <;>
    simp [read, hplace, separate, hquote, hcomma, hfeed, hreturn]

theorem readAll_bare {s : List Char} (hs : ∀ c ∈ s, IsPlain c) (chars : List Char) :
    (Reader.mk .bare chars fields records).readAll s =
      some ⟨.bare, s.reverse ++ chars, fields, records⟩ := by
  induction s generalizing chars with
  | nil => rfl
  | cons c s ih =>
    rw [readAll_cons, read_plain (Or.inr rfl) (hs c List.mem_cons_self), Option.bind_some, push,
      ih fun d hd => hs d (List.mem_cons_of_mem _ hd)]
    simp

theorem readAll_number (n : ℕ) :
    (Reader.mk .head [] fields records).readAll (toString n).toList =
      some ⟨.bare, (toString n).toList.reverse, fields, records⟩ := by
  have hplain : ∀ c ∈ (toString n).toList, IsPlain c := fun c hc =>
    isPlain_of_isDigit (Text.isDigit_of_mem_toString hc)
  obtain ⟨c, s, hs⟩ := Text.exists_toString_eq_cons n
  rw [hs] at hplain ⊢
  rw [readAll_cons, read_plain (Or.inl rfl) (hplain c List.mem_cons_self), Option.bind_some, push,
    readAll_bare _ _ fun d hd => hplain d (List.mem_cons_of_mem _ hd), List.reverse_cons]

/-- Behind the text of a cell the reader holds its content, and the field can end. -/
theorem exists_readAll_field (cell : Cell) :
    ∃ place, (place = .bare ∨ place = .closed) ∧
      (Reader.mk .head [] fields records).readAll (field cell).toList =
        some ⟨place, (content cell).toList.reverse, fields, records⟩ := by
  cases cell with
  | text s => exact ⟨.closed, Or.inr rfl, readAll_quote fields records s⟩
  | number n => exact ⟨.bare, Or.inl rfl, readAll_number fields records n⟩

/-! ## Records -/

theorem readAll_field_comma (cell : Cell) :
    (Reader.mk .head [] fields records).readAll ((field cell).toList ++ [',']) =
      some ⟨.head, [], content cell :: fields, records⟩ := by
  obtain ⟨place, hplace, hread⟩ := exists_readAll_field fields records cell
  rw [readAll_append, hread]
  rcases hplace with rfl | rfl <;> simp [read, separate, endField]

theorem readAll_field_feed (cell : Cell) :
    (Reader.mk .head [] fields records).readAll ((field cell).toList ++ ['\n']) =
      some ⟨.head, [], [], (content cell :: fields).reverse :: records⟩ := by
  obtain ⟨place, hplace, hread⟩ := exists_readAll_field fields records cell
  rw [readAll_append, hread]
  rcases hplace with rfl | rfl <;> simp [read, separate, endField, endRecord]

/-- A row and its line end are read as a record of its cells. -/
theorem readAll_row {cells : List Cell} (hne : cells ≠ []) :
    (Reader.mk .head [] fields records).readAll ((row cells).toList ++ ['\n']) =
      some ⟨.head, [], [], (fields.reverse ++ cells.map content) :: records⟩ := by
  induction cells generalizing fields with
  | nil => exact absurd rfl hne
  | cons cell cells ih =>
    by_cases hcells : cells = []
    · have hrow : (row [cell]).toList = (field cell).toList := by simp [row]
      rw [hcells, hrow, readAll_field_feed]
      simp
    · have hrow : (row (cell :: cells)).toList =
          ((field cell).toList ++ [',']) ++ (row cells).toList := by
        obtain ⟨cell', cells', rfl⟩ := List.exists_cons_of_ne_nil hcells
        simp [row]
      rw [hrow, List.append_assoc, readAll_append, readAll_field_comma, Option.bind_some,
        ih _ hcells]
      simp

end Reader

/-- The text of a row ends with its line, and so does that of all rows. -/
theorem toList_render {rows : List (List Cell)} (hne : rows ≠ []) :
    (render rows).toList = rows.flatMap fun cells => (row cells).toList ++ ['\n'] := by
  rw [render, toList_document (by simpa using hne), List.flatMap_map]

/-- A text of rows that are not empty is read as their contents. -/
theorem read?_render {rows : List (List Cell)} (hne : rows ≠ [])
    (hrows : ∀ cells ∈ rows, cells ≠ []) :
    read? (render rows) = some (rows.map (·.map content)) := by
  have hall : ∀ records, (Reader.mk .head [] [] records).readAll
      (rows.flatMap fun cells => (row cells).toList ++ ['\n']) =
        some ⟨.head, [], [], (rows.map (·.map content)).reverse ++ records⟩ := by
    clear hne
    induction rows with
    | nil => exact fun records => rfl
    | cons cells rows ih =>
      intro records
      rw [List.flatMap_cons, Reader.readAll_append,
        Reader.readAll_row _ _ (hrows cells List.mem_cons_self), Option.bind_some,
        ih fun c hc => hrows c (List.mem_cons_of_mem _ hc)]
      simp
  rw [read?, toList_render hne]
  rw [show ({} : Reader) = ⟨.head, [], [], []⟩ from rfl, hall []]
  simp [Reader.finish?]

/-! ## The three reports -/

theorem summaryRows_ne_nil (p : Project) : ∀ cells ∈ summaryRows p, cells ≠ [] := by
  intro cells hcells
  simp only [summaryRows, List.cons_append, List.mem_cons, List.mem_append, List.mem_map,
    List.not_mem_nil, or_false] at hcells
  rcases hcells with rfl | ⟨f, -, rfl⟩ | rfl <;> exact List.cons_ne_nil _ _

/-- All rows of a summary have as many cells as its header. -/
theorem length_of_mem_summaryRows {p : Project} {cells : List Cell} (h : cells ∈ summaryRows p) :
    cells.length = (summaryHeader p).length := by
  simp only [summaryRows, List.cons_append, List.mem_cons, List.mem_append, List.mem_map,
    List.not_mem_nil, or_false] at h
  rcases h with rfl | ⟨f, -, rfl⟩ | rfl <;>
    simp [summaryHeader, summaryRow, summaryTotal, restCells, OrderedMap.keys, OrderedMap.values]

/-- The three reports of a project are read as what was put into them, whatever characters
its paths and languages have: a header and a row for every file in their order, a header and
a row for every entry of a directory in the order of their names, and a header, a row for
every file and one with the totals. In each of them all rows have as many fields as the
header. -/
theorem read?_reports (root : String) (records : List FileRecord) :
    let p := Project.ofRecords root records
    read? (files p) =
        some (["path", "language", "code", "comment", "blank", "total", "tokens"] ::
          p.files.map fun f =>
            [f.path, f.language, toString f.tally.code, toString f.tally.comment,
              toString f.tally.blank, toString f.tally.total, toString f.tokens]) ∧
      read? (directories p) =
        some (["path", "files", "code", "comment", "blank", "total", "tokens"] ::
          p.directories.entries.map fun e =>
            [e.1, toString e.2.files, toString e.2.tally.code, toString e.2.tally.comment,
              toString e.2.tally.blank, toString e.2.tally.total, toString e.2.tokens]) ∧
      p.directories.entries.Pairwise (fun a b => a.1 < b.1) ∧
      read? (summary p) =
        some (("filename" :: "language" :: p.languages.keys ++ ["comment", "blank", "total"]) ::
          (p.files.map fun f =>
            f.path :: f.language ::
              p.languages.keys.map
                (fun l => toString (if l = f.language then f.tally.code else 0)) ++
              [toString f.tally.comment, toString f.tally.blank, toString f.tally.total]) ++
          ["Total" :: "-" :: p.languages.values.map (fun g => toString g.tally.code) ++
            [toString p.total.tally.comment, toString p.total.tally.blank,
              toString p.total.tally.total]]) ∧
      ∀ report ∈ [files p, directories p, summary p], ∃ header rows,
        read? report = some (header :: rows) ∧ ∀ row ∈ rows, row.length = header.length := by
  intro p
  have hnames : ∀ e ∈ p.directories.entries, e.2.name = e.1 := fun e he =>
    Project.name_of_mem_directories he
  have hfiles : read? (files p) = some ((fileRows p).map (·.map content)) :=
    read?_render (by simp [fileRows]) (by simp [fileRows])
  have hdirectories : read? (directories p) = some ((directoryRows p).map (·.map content)) :=
    read?_render (by simp [directoryRows]) (by simp [directoryRows])
  have hsummary : read? (summary p) = some ((summaryRows p).map (·.map content)) :=
    read?_render (List.cons_ne_nil _ _) (summaryRows_ne_nil p)
  refine ⟨hfiles.trans ?_, hdirectories.trans ?_, p.directories.ordered, hsummary.trans ?_, ?_⟩
  · simp [fileRows, tallyCells, content]
  · simpa [directoryRows, SortedMap.values, tallyCells, content] using hnames
  · simp [summaryRows, summaryHeader, summaryRow, summaryTotal, restCells, content,
      Function.comp_def]
  · intro report hreport
    simp only [List.mem_cons, List.not_mem_nil, or_false] at hreport
    rcases hreport with rfl | rfl | rfl
    · exact ⟨_, _, hfiles, by simp [tallyCells]⟩
    · exact ⟨_, _, hdirectories, by simp [tallyCells]⟩
    · refine ⟨_, _, hsummary, fun row hrow => ?_⟩
      obtain ⟨cells, hcells, rfl⟩ := List.mem_map.1 hrow
      rw [List.length_map, List.length_map]
      exact length_of_mem_summaryRows (List.mem_cons_of_mem _ hcells)

end LineCensus.Report.Csv
