import LineCensus.Proofs.Document.JsonGrammar
import LineCensus.Proofs.OrderedMap
import LineCensus.Proofs.Report.FileOrder
import LineCensus.Report.Json

/-!
# Reading a report back

A report in JSON says all there is to say of a project. What it says is looked up by the names
of its fields, and an entry whose total is not the sum of its lines is refused. From the root
and the files alone the project can be made again: its files are in order already.
-/
namespace LineCensus.Report

/-- The entry of a language is called by its key. -/
theorem Project.name_of_mem_languages {root : String} {records : List FileRecord}
    {e : String × Group} (he : e ∈ (ofRecords root records).languages.entries) :
    e.2.name = e.1 := by
  have hget : ((ofRecords root records).files.foldl Gathering.addFile {}).languages.get? e.1 =
      some e.2 :=
    OrderedMap.mem_entries_iff.1 he
  rw [Gathering.get?_languages_foldl] at hget
  exact Gathering.name_of_gathered? hget

/-- A project can be made again from its files. -/
theorem Project.ofRecords_files (root : String) (records : List FileRecord) :
    ofRecords root (ofRecords root records).files = ofRecords root records := by
  refine ofRecords_eq_of_files_eq (files_of_sorted root ?_)
  exact pairwise_mergeSort_key FileRecord.path records

namespace JsonReport

open Document (Value)

/-! ## What a report says -/

/-- The sums and the files of a project, in the order of a report. -/
structure Contents where
  root : String
  total : Group
  languages : List (String × Group)
  directories : List (String × Group)
  files : List FileRecord
deriving DecidableEq

def Contents.ofProject (p : Project) : Contents where
  root := p.root
  total := p.total
  languages := p.languages.entries
  directories := p.directories.entries
  files := p.files

def fieldOf? (name : String) : Value → Option Value
  | .table fields => fields.lookup name
  | _ => none

def textOf? (name : String) (v : Value) : Option String :=
  match fieldOf? name v with
  | some (.string text) => some text
  | _ => none

def countOf? (name : String) (v : Value) : Option ℕ :=
  match fieldOf? name v with
  | some (.integer (.ofNat n)) => some n
  | _ => none

/-- The lines and the tokens of an entry, if its total is that of its lines. -/
def tallyOf? (v : Value) : Option (Tally × ℕ) := do
  let code ← countOf? "code" v
  let comment ← countOf? "comment" v
  let blank ← countOf? "blank" v
  let total ← countOf? "total" v
  let tokens ← countOf? "tokens" v
  if total = code + comment + blank then some (⟨code, comment, blank⟩, tokens) else none

def groupOf? (name : String) (v : Value) : Option Group := do
  let files ← countOf? "files" v
  let (tally, tokens) ← tallyOf? v
  return { name, files, tally, tokens }

def fileOf? (v : Value) : Option FileRecord := do
  let path ← textOf? "path" v
  let language ← textOf? "language" v
  let (tally, tokens) ← tallyOf? v
  return { path, language, tally, tokens }

/-- Groups by name, in their order. -/
def groupsOf? (name : String) (v : Value) : Option (List (String × Group)) :=
  match fieldOf? name v with
  | some (.table fields) => fields.mapM fun f => (groupOf? f.1 f.2).map (f.1, ·)
  | _ => none

def filesOf? (v : Value) : Option (List FileRecord) :=
  match fieldOf? "files" v with
  | some (.list items) => items.mapM fileOf?
  | _ => none

def contents? (v : Value) : Option Contents := do
  let root ← textOf? "directory" v
  let total ← (fieldOf? "total" v).bind (groupOf? "Total")
  let languages ← groupsOf? "languages" v
  let directories ← groupsOf? "directories" v
  let files ← filesOf? v
  return { root, total, languages, directories, files }

/-! ## What is put into it -/

theorem exact_tallyFields (t : Tally) (tokens : ℕ) : ∀ f ∈ tallyFields t tokens, f.2.Exact := by
  simp [tallyFields, Value.Exact.count]

theorem exact_groupValue (g : Group) : (groupValue g).Exact :=
  .table (List.forall_mem_cons.2 ⟨.count _, exact_tallyFields _ _⟩)

theorem exact_fileValue (f : FileRecord) : (fileValue f).Exact :=
  .table (List.forall_mem_cons.2 ⟨.string _,
    List.forall_mem_cons.2 ⟨.string _, exact_tallyFields _ _⟩⟩)

theorem exact_groupsValue (groups : List (String × Group)) : (groupsValue groups).Exact := by
  refine .table fun f hf => ?_
  obtain ⟨e, -, rfl⟩ := List.mem_map.1 hf
  exact exact_groupValue e.2

theorem exact_value (p : Project) : (value p).Exact := by
  have hfiles : (Value.list (p.files.map fileValue)).Exact := by
    refine .list fun v hv => ?_
    obtain ⟨f, -, rfl⟩ := List.mem_map.1 hv
    exact exact_fileValue f
  refine .table ?_
  simp [Value.Exact.string, exact_groupValue, exact_groupsValue, hfiles]

/-! ## What is looked up in it -/

theorem tallyOf?_groupValue (g : Group) : tallyOf? (groupValue g) = some (g.tally, g.tokens) :=
  if_pos rfl

theorem tallyOf?_fileValue (f : FileRecord) :
    tallyOf? (fileValue f) = some (f.tally, f.tokens) :=
  if_pos rfl

theorem groupOf?_groupValue (name : String) (g : Group) :
    groupOf? name (groupValue g) = some { g with name } := by
  have hfiles : countOf? "files" (groupValue g) = some g.files := rfl
  rw [groupOf?, hfiles, tallyOf?_groupValue]
  rfl

theorem fileOf?_fileValue (f : FileRecord) : fileOf? (fileValue f) = some f := by
  have hpath : textOf? "path" (fileValue f) = some f.path := rfl
  have hlanguage : textOf? "language" (fileValue f) = some f.language := rfl
  rw [fileOf?, hpath, hlanguage, tallyOf?_fileValue]
  rfl

theorem groupsOf?_of_fieldOf? {name : String} {v : Value} {groups : List (String × Group)}
    (hnames : ∀ e ∈ groups, e.2.name = e.1)
    (hfield : fieldOf? name v = some (groupsValue groups)) :
    groupsOf? name v = some groups := by
  have hread : (fun f : String × Value => (groupOf? f.1 f.2).map (f.1, ·)) ∘
      (fun e : String × Group => (e.1, groupValue e.2)) =
        fun e => pure (e.1, { e.2 with name := e.1 }) := by
    funext e
    simp only [Function.comp_apply, groupOf?_groupValue]
    rfl
  have hsame : groups.map (fun e => (e.1, { e.2 with name := e.1 })) = groups := by
    have hentry : ∀ e ∈ groups, (e.1, { e.2 with name := e.1 }) = id e := by
      rintro ⟨name, g⟩ he
      obtain rfl : g.name = name := hnames _ he
      rfl
    rw [List.map_congr_left hentry, List.map_id]
  rw [groupsOf?, hfield]
  simp only [groupsValue]
  rw [List.mapM_map, hread, List.mapM_pure, hsame]
  rfl

theorem filesOf?_of_fieldOf? {v : Value} {files : List FileRecord}
    (hfield : fieldOf? "files" v = some (.list (files.map fileValue))) :
    filesOf? v = some files := by
  have hread : fileOf? ∘ fileValue = pure := funext fileOf?_fileValue
  rw [filesOf?, hfield]
  simp only
  rw [List.mapM_map, hread, List.mapM_pure, List.map_id']
  rfl

/-- All that a report says is found in it, if its entries are called by their keys. -/
theorem contents?_value {p : Project} (htotal : p.total.name = "Total")
    (hlanguages : ∀ e ∈ p.languages.entries, e.2.name = e.1)
    (hdirectories : ∀ e ∈ p.directories.entries, e.2.name = e.1) :
    contents? (value p) = some (.ofProject p) := by
  have hroot : textOf? "directory" (value p) = some p.root := rfl
  have hsum : (fieldOf? "total" (value p)).bind (groupOf? "Total") = some p.total := by
    have hfield : fieldOf? "total" (value p) = some (groupValue p.total) := rfl
    rw [hfield, Option.bind_some, groupOf?_groupValue, ← htotal]
  have hfiles : filesOf? (value p) = some p.files := filesOf?_of_fieldOf? rfl
  rw [contents?, hroot, hsum, groupsOf?_of_fieldOf? hlanguages rfl,
    groupsOf?_of_fieldOf? hdirectories rfl, hfiles]
  rfl

/-- Nothing is lost in a report: the root, the sums of the whole, of the languages and of the
directories and the files are read from it, in the order that the project has them in, no
language twice and the directories in the order of their names, and the root and the files
make the project again. -/
theorem read_render_ofRecords (root : String) (records : List FileRecord) :
    (Document.Json.read? (render (.ofRecords root records))).bind contents? =
        some (.ofProject (.ofRecords root records)) ∧
      (Project.ofRecords root records).languages.keys.Nodup ∧
      (Project.ofRecords root records).directories.entries.Pairwise (fun a b => a.1 < b.1) ∧
      Project.ofRecords root (Project.ofRecords root records).files =
        .ofRecords root records := by
  refine ⟨?_, OrderedMap.nodup_keys _, SortedMap.ordered _, Project.ofRecords_files root records⟩
  have htotal : (Project.ofRecords root records).total.name = "Total" := by
    rw [Project.total_ofRecords]
    rfl
  rw [render, Document.Json.read?_pretty (exact_value _), Option.bind_some]
  exact contents?_value htotal (fun _ => Project.name_of_mem_languages)
    fun _ => Project.name_of_mem_directories

end JsonReport

end LineCensus.Report
