import LineCensus.Proofs.Document.TomlText
import LineCensus.Proofs.Language.IdOrder
import LineCensus.Proofs.Settings.EntryFields
import LineCensus.Settings.OverrideFile

/-!
# Overrides in two notations

The same overrides are written in JSON as a table of tables and in TOML as one table behind the
other. Both texts are read as the same definitions. From JSON they come in the order in which
they were written, from TOML in the order of their ids.
-/
namespace LineCensus.Settings

open Document (Value)
open Document.Toml (Line Table Writes bracketed dateField sortFields quote whole? whole?_list
  whole?_string writes_bracketed writes_quote)

/-! ## Texts -/

/-- The entries as a table of tables. -/
def jsonText (o : Overrides) : String :=
  Document.Json.pretty (.table (o.entries.map fun e => (e.1, .table (entryFields e.2))))

namespace Content

/-- The lists on one line. -/
def inline : Content → List Char
  | texts ts => bracketed (ts.map quote)
  | pairs ps => bracketed (ps.map fun p => bracketed [quote p.start, quote p.stop])

theorem forall₂_map {α β γ : Type} {R : β → γ → Prop} {f : α → β} {g : α → γ}
    (h : ∀ a, R (f a) (g a)) (as : List α) : List.Forall₂ R (as.map f) (as.map g) := by
  rw [List.forall₂_map_left_iff, List.forall₂_map_right_iff]
  exact List.forall₂_same.2 fun a _ => h a

theorem writes_inline (c : Content) : Writes Document.Toml.maxDepth c.inline c.value := by
  cases c with
  | texts ts => exact writes_bracketed (forall₂_map (writes_quote _) ts)
  | pairs ps =>
    refine writes_bracketed (forall₂_map (fun p => ?_) ps)
    exact writes_bracketed (.cons (writes_quote _ p.start) (.cons (writes_quote _ p.stop) .nil))

theorem whole?_value (c : Content) : whole? c.value = some c.value := by
  cases c with
  | texts ts =>
    refine whole?_list fun v hv => ?_
    obtain ⟨s, -, rfl⟩ := List.mem_map.1 hv
    exact whole?_string s
  | pairs ps =>
    refine whole?_list fun v hv => ?_
    obtain ⟨p, -, rfl⟩ := List.mem_map.1 hv
    refine whole?_list fun v hv => ?_
    rcases List.mem_pair.1 hv with rfl | rfl <;> exact whole?_string _

theorem plain_value {depth : ℕ} (c : Content) : c.value.Plain (depth + 2) := by
  cases c with
  | texts ts =>
    refine .list fun v hv => ?_
    obtain ⟨s, -, rfl⟩ := List.mem_map.1 hv
    exact .string s
  | pairs ps =>
    refine .list fun v hv => ?_
    obtain ⟨p, -, rfl⟩ := List.mem_map.1 hv
    refine .list fun v hv => ?_
    rcases List.mem_pair.1 hv with rfl | rfl <;> exact .string _

end Content

/-- The line of a field. -/
def fieldLine (d : LanguageDefinition) (f : Field) : Line where
  name := f.name
  text := (f.content d).inline
  value := (f.content d).value
  bare := by cases f <;> exact ⟨by decide, List.all_eq_true.1 (by decide)⟩
  writes := (f.content d).writes_inline

/-- The table of an entry, one field a line. -/
def entryTable (e : String × LanguageDefinition) : Table where
  name := e.1
  lines := Field.all.map (fieldLine e.2)
  nodup_names := by
    rw [List.map_map]
    exact Field.nodup_names

/-- The entries as one table behind the other. -/
def tomlText (o : Overrides) : String :=
  String.ofList ((o.entries.map entryTable).flatMap Table.chars)

/-! ## Reading the texts -/

theorem readEntries_map {v : LanguageDefinition → Value} {es : List (String × LanguageDefinition)}
    (h : ∀ e ∈ es, readEntry .overrides e.1 (v e.2) = .ok e.2) :
    readEntries (es.map fun e => (e.1, v e.2)) = .ok es := by
  induction es with
  | nil => rfl
  | cons e es ih =>
    rw [List.map_cons, readEntries, h e List.mem_cons_self,
      ih fun e he => h e (List.mem_cons_of_mem _ he)]
    rfl

/-- Overrides are read if the document has an entry for each of them in its place. -/
theorem readOverrides_of_readTable {path : Path} {content : String} {o : Overrides}
    {v : LanguageDefinition → Value}
    (htable : (Notation.ofPath path).readTable content =
      .ok (o.entries.map fun e => (e.1, v e.2)))
    (hentry : ∀ e ∈ o.entries, readEntry .overrides e.1 (v e.2) = .ok e.2) :
    readOverrides path content = .ok o := by
  have hkeys : ((o.entries.map fun e => (e.1, v e.2)).map Prod.fst).Nodup := by
    simpa [Function.comp_def] using o.nodup_keys
  rw [readOverrides, htable]
  simp only [OrderedMap.ofList_eq hkeys, readEntries_map hentry, OrderedMap.ofList_eq o.nodup_keys]

theorem readTable_jsonText (o : Overrides) :
    Notation.json.readTable (jsonText o) =
      .ok (o.entries.map fun e => (e.1, .table (entryFields e.2))) := by
  have hplain : (Value.table (o.entries.map fun e => (e.1, .table (entryFields e.2)))).Plain
      Document.Json.maxDepth := by
    refine .table fun f hf => ?_
    obtain ⟨e, -, rfl⟩ := List.mem_map.1 hf
    refine .table fun g hg => ?_
    obtain ⟨field, -, rfl⟩ := List.mem_map.1 hg
    exact (field.content e.2).plain_value
  rw [Notation.readTable, jsonText, Document.Json.parse?_pretty hplain]

theorem readTable_tomlText (o : Overrides) :
    Notation.toml.readTable (tomlText o) =
      .ok (o.sorted.entries.map fun e => (e.1, .table (sortFields (entryFields e.2)))) := by
  have hnames : ((o.entries.map entryTable).map Table.name).Nodup := by
    rw [List.map_map]
    exact o.nodup_keys
  have hname : ∀ f : Field, f.name ≠ dateField := by
    intro f
    cases f <;> decide
  have hlines : ∀ t ∈ o.entries.map entryTable, ∀ l ∈ t.lines,
      l.name ≠ dateField ∧ whole? l.value = some l.value := by
    intro t ht l hl
    obtain ⟨e, -, rfl⟩ := List.mem_map.1 ht
    obtain ⟨f, -, rfl⟩ := List.mem_map.1 hl
    exact ⟨hname f, (f.content e.2).whole?_value⟩
  have hfield : ∀ e, (entryTable e).field = (e.1, .table (sortFields (entryFields e.2))) := by
    intro e
    simp [Table.field, entryTable, entryFields, fieldLine, Function.comp_def]
  have hsorted : o.sorted.entries.map (fun e => (entryTable e).field) =
      sortFields (o.entries.map fun e => (entryTable e).field) :=
    List.map_mergeSort fun _ _ _ _ => rfl
  simp only [hfield] at hsorted
  rw [Notation.readTable, tomlText, Document.Toml.parseFields?_tables hnames hlines, List.map_map,
    Function.comp_def]
  simp only [hfield, hsorted]

theorem readEntry_of_keyed {o : Overrides} (h : Registry.Keyed o.entries)
    (fields : LanguageDefinition → List (String × Value))
    (hfields : ∀ d, (fields d).Perm (entryFields d)) :
    ∀ e ∈ o.entries, readEntry .overrides e.1 (.table (fields e.2)) = .ok e.2 := by
  intro e he
  rw [readEntry_of_perm .overrides e.1 (hfields e.2), ← h e he]

theorem readOverrides_jsonText {o : Overrides} (h : Registry.Keyed o.entries) {path : Path}
    (hpath : Notation.ofPath path = .json) : readOverrides path (jsonText o) = .ok o := by
  refine readOverrides_of_readTable (v := fun d => .table (entryFields d)) ?_ ?_
  · rw [hpath, readTable_jsonText]
  · exact readEntry_of_keyed h entryFields fun d => List.Perm.refl _

theorem readOverrides_tomlText {o : Overrides} (h : Registry.Keyed o.entries) {path : Path}
    (hpath : Notation.ofPath path = .toml) : readOverrides path (tomlText o) = .ok o.sorted := by
  refine readOverrides_of_readTable (v := fun d => .table (sortFields (entryFields d))) ?_ ?_
  · rw [hpath, readTable_tomlText]
  · have hkeyed : Registry.Keyed o.sorted.entries := fun e he =>
      h e (OrderedMap.mem_entries_sorted.1 he)
    exact readEntry_of_keyed hkeyed (fun d => sortFields (entryFields d)) fun d =>
      List.mergeSort_perm _ _

/-- Overrides that are written in JSON and in TOML are read with equal definitions, from JSON in
the order in which they were declared and from TOML in the order of their ids; so the two agree
exactly if the ids had been declared in that order. What one registry takes up of them, it takes
up of both, with the same definition under each id and the new languages in these two orders.
The registries are the same exactly if the new ids had been declared in order. Otherwise a file
may go to different languages, but only to new ones, and with TOML to the one whose id is
before. -/
theorem readOverrides_jsonText_tomlText {o : Overrides} (hkeyed : Registry.Keyed o.entries)
    {json toml : Path} (hjson : Notation.ofPath json = .json)
    (htoml : Notation.ofPath toml = .toml) :
    readOverrides json (jsonText o) = .ok o ∧
      readOverrides toml (tomlText o) = .ok o.sorted ∧
      (o.sorted = o ↔ o.keys.Pairwise (· < ·)) ∧
      ∀ r : Registry, ((∃ r'', r.load o.sorted = .ok r'') ↔ ∃ r', r.load o = .ok r') ∧
        ∀ r' r'', r.load o = .ok r' → r.load o.sorted = .ok r'' →
          (∀ id, r''.get? id = r'.get? id) ∧
          r'.ids = r.ids ++ o.keys.filter (· ∉ r.ids) ∧
          r''.ids = r.ids ++ o.sorted.keys.filter (· ∉ r.ids) ∧
          (r'' = r' ↔ (o.keys.filter (· ∉ r.ids)).Pairwise (· < ·)) ∧
          ∀ path, r'.resolve? path = r''.resolve? path ∨
            ∃ d d', r'.resolve? path = some d ∧ r''.resolve? path = some d' ∧
              (d.id ∉ r.ids ∧ d'.id ∉ r.ids ∧ d'.id < d.id) := by
  refine ⟨readOverrides_jsonText hkeyed hjson, readOverrides_tomlText hkeyed htoml,
    OrderedMap.sorted_eq_self_iff, fun r => ⟨Registry.exists_load_sorted_iff, ?_⟩⟩
  intro r' r'' h h'
  exact ⟨Registry.get?_load_sorted h h', Registry.ids_of_load h, Registry.ids_of_load h',
    Registry.load_sorted_eq_iff h h', Registry.resolve?_load_sorted h h'⟩

/-- Two languages that contend for a suffix, the one whose id is before declared last. -/
def contenders : Overrides :=
  ⟨[("zeta", { id := "zeta", extensions := [".x"] }),
    ("alpha", { id := "alpha", extensions := [".x"] })], by decide⟩

theorem keyed_contenders : Registry.Keyed contenders.entries := by
  simp [Registry.Keyed, contenders]

theorem readOverrides_contenders :
    readOverrides ⟨"langs.json"⟩ (jsonText contenders) = .ok contenders ∧
      readOverrides ⟨"langs.toml"⟩ (tomlText contenders) = .ok contenders.sorted ∧
      contenders.sorted ≠ contenders ∧
      ∃ r' r'', Registry.builtin.load contenders = .ok r' ∧
        Registry.builtin.load contenders.sorted = .ok r'' ∧ r'' ≠ r' := by
  have hjson : Notation.ofPath ⟨"langs.json"⟩ = .json := by decide
  have htoml : Notation.ofPath ⟨"langs.toml"⟩ = .toml := by decide
  obtain ⟨hread, hread', hsorted, hload⟩ :=
    readOverrides_jsonText_tomlText keyed_contenders hjson htoml
  obtain ⟨hexists, hloaded⟩ := hload Registry.builtin
  obtain ⟨r', hr'⟩ : ∃ r', Registry.builtin.load contenders = .ok r' := ⟨_, rfl⟩
  obtain ⟨r'', hr''⟩ := hexists.2 ⟨r', hr'⟩
  obtain ⟨-, -, -, hsame, -⟩ := hloaded r' r'' hr' hr''
  have hdeclared : ¬ contenders.keys.Pairwise (· < ·) := by decide
  have hnew : ¬ (contenders.keys.filter (· ∉ Registry.builtin.ids)).Pairwise (· < ·) := by
    decide +kernel
  exact ⟨hread, hread', mt hsorted.1 hdeclared, r', r'', hr', hr'', mt hsame.1 hnew⟩

/-- The two notations do not give the same ids in the same order. -/
theorem not_all_notations_agree :
    ¬ ∀ (o : Overrides) (json toml : Path), Registry.Keyed o.entries →
      Notation.ofPath json = .json → Notation.ofPath toml = .toml →
      ∃ o₁ o₂, readOverrides json (jsonText o) = .ok o₁ ∧
        readOverrides toml (tomlText o) = .ok o₂ ∧ o₁.keys = o₂.keys := by
  intro h
  have hjson : Notation.ofPath ⟨"langs.json"⟩ = .json := by decide
  have htoml : Notation.ofPath ⟨"langs.toml"⟩ = .toml := by decide
  obtain ⟨o₁, o₂, h₁, h₂, hkeys⟩ := h contenders _ _ keyed_contenders hjson htoml
  rw [readOverrides_jsonText keyed_contenders hjson] at h₁
  rw [readOverrides_tomlText keyed_contenders htoml] at h₂
  cases h₁
  cases h₂
  have horder : contenders.keys.Pairwise (· < ·) := hkeys ▸ contenders.pairwise_keys_sorted
  exact absurd horder (by decide)

end LineCensus.Settings
