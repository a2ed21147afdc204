import LineCensus.Proofs.Document.JsonText
import LineCensus.Proofs.Settings.EntryShape
import LineCensus.Settings.OverrideFile

/-!
# Override documents

A JSON document declares overrides if every entry that counts is well formed. A repeated id
counts in its first place and with its last value. The overrides are then those that the entries
describe, in their order; otherwise the first entry that is not well formed is the fault of the
whole document.
-/
namespace LineCensus.Settings

open Document (Value)

/-! ## Entries of a document -/

/-- The entries that count: each id in its first place, with its last value. -/
def entriesOf (fields : List (String × Value)) : List (String × Value) :=
  (fields.map Prod.fst).eraseDups.filterMap fun id => (fields.reverse.lookup id).map (id, ·)

theorem entriesOf_eq (fields : List (String × Value)) :
    entriesOf fields = (OrderedMap.ofList fields).entries := by
  rw [OrderedMap.entries_eq_filterMap, OrderedMap.keys_ofList, entriesOf]
  simp only [OrderedMap.get?_ofList]

theorem isJson_of_mem_entriesOf {fields : List (String × Value)}
    (h : (Value.table fields).IsJson) : ∀ e ∈ entriesOf fields, e.2.IsJson := by
  intro e he
  rw [entriesOf_eq] at he
  exact h.of_mem_table e (OrderedMap.mem_of_mem_ofList he)

/-! ## Reading entry by entry -/

theorem readEntries_eq_ok_iff {es : List (String × Value)}
    {xs : List (String × LanguageDefinition)} :
    readEntries es = .ok xs ↔
      List.Forall₂ (fun e x => x.1 = e.1 ∧ readEntry .overrides e.1 e.2 = .ok x.2) es xs := by
  induction es generalizing xs with
  | nil => cases xs <;> simp [readEntries]
  | cons e es ih =>
    rw [readEntries, List.forall₂_cons_left_iff]
    cases hread : readEntry .overrides e.1 e.2 with
    | error fault => simp
    | ok d =>
      simp only [map_eq_ok_iff, ih, Except.ok.injEq]
      constructor
      · rintro ⟨xs, hxs, rfl⟩
        exact ⟨_, xs, ⟨rfl, rfl⟩, hxs, rfl⟩
      · rintro ⟨⟨id, d⟩, xs, ⟨rfl, rfl⟩, hxs, rfl⟩
        exact ⟨xs, hxs, rfl⟩

/-- Entries that are read are well formed, and each describes its definition. -/
theorem describes_of_readEntries {es : List (String × Value)}
    {xs : List (String × LanguageDefinition)} (hjson : ∀ e ∈ es, e.2.IsJson)
    (h : readEntries es = .ok xs) :
    (∀ e ∈ es, WellFormed e.2) ∧
      List.Forall₂ (fun e x => x.1 = e.1 ∧ x.2.id = e.1 ∧ Describes e.2 x.2) es xs := by
  have hread := (List.forall₂_and_left _ _).2 ⟨hjson, readEntries_eq_ok_iff.1 h⟩
  refine (List.forall₂_and_left _ _).1 (hread.imp fun e x hx => ?_)
  obtain ⟨hv, hid, hentry⟩ := hx
  exact ⟨(exists_readEntry_iff e.1 hv).1 ⟨_, hentry⟩, hid, ((readEntry_eq_ok_iff hv).1 hentry).2⟩

/-- Entries that are not read have a first one that is not well formed. -/
theorem exists_of_readEntries_eq_error {es : List (String × Value)} {refusal : LanguageRefusal}
    (hjson : ∀ e ∈ es, e.2.IsJson) (h : readEntries es = .error refusal) :
    ∃ front e back fault, es = front ++ e :: back ∧ (∀ x ∈ front, WellFormed x.2) ∧
      ¬ WellFormed e.2 ∧ refusal = ⟨e.1, .shape fault⟩ := by
  induction es with
  | nil => cases h
  | cons e es ih =>
    obtain ⟨hv, hjson⟩ := List.forall_mem_cons.1 hjson
    rw [readEntries] at h
    cases hread : readEntry .overrides e.1 e.2 with
    | error fault =>
      have hill : ¬ WellFormed e.2 := by
        rw [← exists_readEntry_iff e.1 hv, hread]
        rintro ⟨d, hd⟩
        cases hd
      rw [hread] at h
      cases h
      exact ⟨[], e, es, fault, rfl, fun _ hx => absurd hx List.not_mem_nil, hill, rfl⟩
    | ok d =>
      have hwell : WellFormed e.2 := (exists_readEntry_iff e.1 hv).1 ⟨d, hread⟩
      cases hrest : readEntries es with
      | ok xs => simp [hread, hrest, Except.map] at h
      | error refusal' =>
        simp only [hread, hrest, Except.map, Except.error.injEq] at h
        obtain ⟨front, x, back, fault, rfl, hfront, hill, hrefusal⟩ := ih hjson (h ▸ hrest)
        exact ⟨e :: front, x, back, fault, rfl, List.forall_mem_cons.2 ⟨hwell, hfront⟩, hill,
          hrefusal⟩

section

variable {path : Path} {content : String} {fields : List (String × Value)}

/-- The overrides of a document are what its entries are read as. -/
theorem readOverrides_eq_ok_iff (hpath : Notation.ofPath path = .json)
    (hdoc : Document.Json.parse? content = some (.table fields)) {o : Overrides} :
    readOverrides path content = .ok o ↔ readEntries (entriesOf fields) = .ok o.entries := by
  rw [readOverrides, hpath, Notation.readTable, hdoc, entriesOf_eq]
  cases hread : readEntries (OrderedMap.ofList fields).entries with
  | error refusal => simp [hread]
  | ok xs =>
    have hkeys : (xs.map Prod.fst).Nodup := by
      rw [OrderedMap.map_fst_eq_of_forall₂ (readEntries_eq_ok_iff.1 hread)]
      exact (OrderedMap.ofList fields).nodup_keys
    simp only [hread, OrderedMap.ofList_eq hkeys, Except.ok.injEq]
    exact ⟨fun h => h ▸ rfl, fun h => OrderedMap.eq_of_entries_eq h⟩

theorem readOverrides_eq_error_iff (hpath : Notation.ofPath path = .json)
    (hdoc : Document.Json.parse? content = some (.table fields)) {failure : Failure} :
    readOverrides path content = .error failure ↔
      ∃ refusal, readEntries (entriesOf fields) = .error refusal ∧
        failure = .language path.text refusal := by
  rw [readOverrides, hpath, Notation.readTable, hdoc, entriesOf_eq]
  cases hread : readEntries (OrderedMap.ofList fields).entries with
  | error refusal => simp [hread, eq_comm]
  | ok xs => simp [hread]

/-- A document that is not read has a first entry that is not well formed, which is its fault. -/
theorem exists_of_readOverrides_eq_error (hpath : Notation.ofPath path = .json)
    (hdoc : Document.Json.parse? content = some (.table fields)) {failure : Failure}
    (h : readOverrides path content = .error failure) :
    ∃ front e back fault, entriesOf fields = front ++ e :: back ∧
      (∀ x ∈ front, WellFormed x.2) ∧ ¬ WellFormed e.2 ∧
      failure = .language path.text ⟨e.1, .shape fault⟩ := by
  obtain ⟨refusal, hrefusal, rfl⟩ := (readOverrides_eq_error_iff hpath hdoc).1 h
  have hjson := isJson_of_mem_entriesOf (Document.Json.isJson_of_parse? hdoc)
  obtain ⟨front, e, back, fault, hsplit, hfront, hill, rfl⟩ :=
    exists_of_readEntries_eq_error hjson hrefusal
  exact ⟨front, e, back, fault, hsplit, hfront, hill, rfl⟩

end

/-! ## Documents with other spellings -/

/-- An entry with other spellings of its keys. -/
def Respelled (v v' : Value) : Prop := ∃ s, Respells s ∧ v' = respell s v

theorem readEntries_respelled {es es' : List (String × Value)}
    {xs : List (String × LanguageDefinition)}
    (h : List.Forall₂ (fun e e' => e'.1 = e.1 ∧ e.2.IsJson ∧ Respelled e.2 e'.2) es es')
    (hread : readEntries es = .ok xs) : readEntries es' = .ok xs := by
  rw [readEntries_eq_ok_iff] at hread ⊢
  induction h generalizing xs with
  | nil => exact hread
  | @cons e e' es es' hhead _ ih =>
    obtain ⟨x, xs, ⟨hid, hx⟩, hxs, rfl⟩ := List.forall₂_cons_left_iff.1 hread
    obtain ⟨hsame, hjson, s, hs, hspelled⟩ := hhead
    refine .cons ⟨hid.trans hsame.symm, ?_⟩ (ih hxs)
    rw [hsame, hspelled]
    exact readEntry_respell hs hjson hx

theorem forall₂_entriesOf {fields fields' : List (String × Value)}
    (hjson : (Value.table fields).IsJson)
    (h : List.Forall₂ (fun e e' => e'.1 = e.1 ∧ Respelled e.2 e'.2) fields fields') :
    List.Forall₂ (fun e e' => e'.1 = e.1 ∧ e.2.IsJson ∧ Respelled e.2 e'.2) (entriesOf fields)
      (entriesOf fields') := by
  have hfields := (List.forall₂_and_left _ _).2 ⟨hjson.of_mem_table, h⟩
  rw [entriesOf_eq, entriesOf_eq]
  refine OrderedMap.forall₂_ofList (R := fun v v' => v.IsJson ∧ Respelled v v')
    (hfields.imp fun e e' he => ?_)
  exact ⟨he.2.1, he.1, he.2.2⟩

/-! ## The whole document -/

/-- A JSON document is read exactly if each of its entries is well formed. The overrides have its
ids in the order of their first places, and under each of them a definition with that id, which
holds what the last value gives and nothing else; a document that only spells its fields in other
ways is read as the same overrides. If an entry is not well formed, the first such entry is the
fault, under the name of the file. -/
theorem readOverrides_json {path : Path} {content : String} {fields : List (String × Value)}
    (hpath : Notation.ofPath path = .json)
    (hdoc : Document.Json.parse? content = some (.table fields)) :
    ((∃ o, readOverrides path content = .ok o) ↔ ∀ e ∈ entriesOf fields, WellFormed e.2) ∧
      (∀ o, readOverrides path content = .ok o →
        List.Forall₂ (fun e x => x.1 = e.1 ∧ x.2.id = e.1 ∧ Describes e.2 x.2)
          (entriesOf fields) o.entries ∧
        ∀ content' fields', Document.Json.parse? content' = some (.table fields') →
          List.Forall₂ (fun e e' => e'.1 = e.1 ∧ Respelled e.2 e'.2) fields fields' →
          readOverrides path content' = .ok o) ∧
      ∀ failure, readOverrides path content = .error failure →
        ∃ front e back fault, entriesOf fields = front ++ e :: back ∧
          (∀ x ∈ front, WellFormed x.2) ∧ ¬ WellFormed e.2 ∧
          failure = .language path.text ⟨e.1, .shape fault⟩ := by
  have htable := Document.Json.isJson_of_parse? hdoc
  have hjson := isJson_of_mem_entriesOf htable
  refine ⟨⟨?_, fun hwell => ?_⟩, fun o ho => ?_, fun failure hfailure => ?_⟩
  · rintro ⟨o, ho⟩
    exact (describes_of_readEntries hjson ((readOverrides_eq_ok_iff hpath hdoc).1 ho)).1
  · cases hread : readOverrides path content with
    | ok o => exact ⟨o, rfl⟩
    | error failure =>
      obtain ⟨front, e, back, fault, hsplit, -, hill, -⟩ :=
        exists_of_readOverrides_eq_error hpath hdoc hread
      exact absurd (hwell e (hsplit ▸ List.mem_append_right _ List.mem_cons_self)) hill
  · have hentries := (readOverrides_eq_ok_iff hpath hdoc).1 ho
    refine ⟨(describes_of_readEntries hjson hentries).2, fun content' fields' hdoc' hspelled => ?_⟩
    exact (readOverrides_eq_ok_iff hpath hdoc').2
      (readEntries_respelled (forall₂_entriesOf htable hspelled) hentries)
  · exact exists_of_readOverrides_eq_error hpath hdoc hfailure

/-- An id with two values, of which the first is no entry. -/
def declaredTwice : List (String × Value) :=
  [("sh", .string "#"), ("sh", .table [("line_comments", .list [.string "#"])])]

/-- An entry with a field in both spellings. -/
def spelledTwice : List (String × Value) :=
  [("sh", .table [("line_comments", .list [.string "#"]), ("lineComments", .list [])])]

theorem readOverrides_json_twice :
    (∃ o, readOverrides ⟨"langs.json"⟩ (Document.Json.pretty (.table declaredTwice)) = .ok o) ∧
      ¬ ∃ o, readOverrides ⟨"langs.json"⟩ (Document.Json.pretty (.table spelledTwice)) = .ok o := by
  have hpath : Notation.ofPath ⟨"langs.json"⟩ = .json := by decide
  have hcomments : (Value.list [.string "#"]).Plain 125 :=
    .list (List.forall_mem_singleton.2 (.string _))
  have hdeclared : (Value.table declaredTwice).Plain Document.Json.maxDepth :=
    .table (List.forall_mem_cons.2 ⟨.string _,
      List.forall_mem_singleton.2 (.table (List.forall_mem_singleton.2 hcomments))⟩)
  have hspelled : (Value.table spelledTwice).Plain Document.Json.maxDepth := by
    have hnone : (Value.list []).Plain 125 := .list fun _ hv => absurd hv List.not_mem_nil
    exact .table (List.forall_mem_singleton.2
      (.table (List.forall_mem_cons.2 ⟨hcomments, List.forall_mem_singleton.2 hnone⟩)))
  refine ⟨(readOverrides_json hpath (Document.Json.parse?_pretty hdeclared)).1.2 ?_, fun h => ?_⟩
  · have hentries : entriesOf declaredTwice =
        [("sh", .table [("line_comments", .list [.string "#"])])] := rfl
    rw [hentries, List.forall_mem_singleton]
    have honce : SpelledOnce ["line_comments"] := by simp [SpelledOnce]
    refine ⟨⟨List.forall_mem_singleton.2 ⟨.lineComments, .inr rfl⟩, honce⟩, fun f w hw => ?_⟩
    cases f <;> cases hw
    exact ⟨["#"], rfl⟩
  · have hwell := (readOverrides_json hpath (Document.Json.parse?_pretty hspelled)).1.1 h
    have hentries : entriesOf spelledTwice = spelledTwice := rfl
    rw [hentries, spelledTwice, List.forall_mem_singleton] at hwell
    have hsame : "line_comments" = "lineComments" :=
      hwell.1.2 .lineComments _ (.head _) _ (.tail _ (.head _)) (.inr rfl) (.inl rfl)
    exact absurd hsame (by decide)

end LineCensus.Settings
