import LineCensus.Proofs.Settings.FieldShapes
import LineCensus.SortedMap
import Mathlib.Data.List.Induction
import Mathlib.Data.List.Nodup
import Mathlib.Data.List.Pairwise

/-!
# Well-formed entries

An entry of a JSON document is well formed if it tells which fields it gives and each of them
has the shape that the field asks for. A table names its fields, each in one of its two
spellings; a list gives them by position. Such an entry, and no other, is read as a definition,
which holds what the entry gives and nothing for the fields that it leaves out.
-/
namespace LineCensus.Settings

open Document (Value)
open OrderedMap (exists_lookup_eq_some_iff lookup_cons_eq_ite mem_iff_lookup_eq_some
  mem_of_lookup_eq_some)

namespace Field

/-- The key is one of the two spellings of the field. -/
def IsSpelled (f : Field) (key : String) : Prop := key = f.name ∨ key = f.spacedName

instance (f : Field) (key : String) : Decidable (f.IsSpelled key) :=
  inferInstanceAs (Decidable (_ ∨ _))

theorem ofName?_eq_some_iff {key : String} {f : Field} :
    ofName? key = some f ↔ f.IsSpelled key := by
  constructor
  · intro h
    have hspelled := List.find?_some h
    simp only [Bool.or_eq_true, beq_iff_eq] at hspelled
    exact hspelled.imp Eq.symm Eq.symm
  · rintro (rfl | rfl)
    · exact ofName?_name f
    · exact ofName?_spacedName f

theorem mem_all (f : Field) : f ∈ all := by
  cases f <;> decide

end Field

/-- What an entry gives for a field: the last value under one of its spellings, or the item in
its place. -/
def given? : Value → Field → Option Value
  | .table fields, f => (fields.reverse.find? fun e => decide (f.IsSpelled e.1)).map Prod.snd
  | .list items, f => items[Field.all.idxOf f]?
  | _, _ => none

/-- No field is there in two spellings. -/
def SpelledOnce (keys : List String) : Prop :=
  ∀ f : Field, ∀ key ∈ keys, ∀ key' ∈ keys, f.IsSpelled key → f.IsSpelled key' → key = key'

/-- Every key is a spelling of a field, and no field is there in two spellings. -/
def SpellFields (keys : List String) : Prop :=
  (∀ key ∈ keys, ∃ f : Field, f.IsSpelled key) ∧ SpelledOnce keys

/-- An entry that tells which fields it gives: by their names, or by their places, of which there
are seven. -/
def TellsFields : Value → Prop
  | .table fields => SpellFields (fields.map Prod.fst)
  | .list items => items.length ≤ 7
  | _ => False

/-- An entry that tells which fields it gives, and gives what they ask for. -/
def WellFormed (v : Value) : Prop :=
  TellsFields v ∧ ∀ f w, given? v f = some w → f.Admits w

/-- The definition holds what the entry gives, and empty lists for the other fields. -/
def Describes (v : Value) (d : LanguageDefinition) : Prop :=
  ∀ f : Field, (f.content d).value = (given? v f).getD (.list [])

/-! ## Fields by position -/

theorem nodup_map_fst_zip {α β : Type} {as : List α} (h : as.Nodup) (bs : List β) :
    ((as.zip bs).map Prod.fst).Nodup := by
  induction as generalizing bs with
  | nil => exact List.nodup_nil
  | cons a as ih =>
    obtain ⟨ha, has⟩ := List.nodup_cons.1 h
    cases bs with
    | nil => exact List.nodup_nil
    | cons b bs =>
      refine List.nodup_cons.2 ⟨fun hmem => ?_, ih has bs⟩
      obtain ⟨⟨a', b'⟩, hpair, rfl⟩ := List.mem_map.1 hmem
      exact ha (List.of_mem_zip hpair).1

theorem lookup_zip {α β : Type} [DecidableEq α] {as : List α} {a : α} (h : a ∈ as) (bs : List β) :
    (as.zip bs).lookup a = bs[as.idxOf a]? := by
  induction as generalizing bs with
  | nil => cases h
  | cons a' as ih =>
    cases bs with
    | nil => rfl
    | cons b bs =>
      rw [List.zip_cons_cons, lookup_cons_eq_ite]
      by_cases ha : a = a'
      · rw [if_pos ha, ha, List.idxOf_cons_self, List.getElem?_cons_zero]
      · rw [if_neg ha, ih ((List.mem_cons.1 h).resolve_left ha), List.idxOf_cons_ne _ (Ne.symm ha),
          List.getElem?_cons_succ]

namespace Strictness

theorem readItems_eq_ok_iff {total : ℕ} {fs : List Field} {vs : List Value}
    {d d' : LanguageDefinition} :
    overrides.readItems total d fs vs = .ok d' ↔
      vs.length ≤ fs.length ∧ overrides.setFields d (fs.zip vs) = .ok d' := by
  induction fs generalizing vs d with
  | nil => cases vs <;> simp [readItems, setFields, overrides, pure, Except.pure]
  | cons f fs ih =>
    cases vs with
    | nil => simp [readItems, setFields, pure, Except.pure]
    | cons v vs =>
      rw [readItems, List.zip_cons_cons, setFields_cons_eq_ok_iff]
      cases overrides.setField d v f with
      | error fault => simp
      | ok d₁ => simp [ih]

/-! ## Fields by name -/

/-- What is given for fields, under the names that they have. -/
def assignments (fs : List (String × Value)) : List (Field × Value) :=
  fs.filterMap fun e => (Field.ofName? e.1).map (·, e.2)

theorem mem_assignments_iff {fs : List (String × Value)} {g : Field × Value} :
    g ∈ assignments fs ↔ ∃ key, (key, g.2) ∈ fs ∧ g.1.IsSpelled key := by
  simp only [assignments, List.mem_filterMap, Option.map_eq_some_iff, Field.ofName?_eq_some_iff]
  constructor
  · rintro ⟨⟨key, v⟩, hmem, f, hf, rfl⟩
    exact ⟨key, hmem, hf⟩
  · rintro ⟨key, hmem, hf⟩
    exact ⟨(key, g.2), hmem, g.1, hf, rfl⟩

theorem map_fst_assignments (fs : List (String × Value)) :
    (assignments fs).map Prod.fst = (fs.map Prod.fst).filterMap Field.ofName? := by
  simp [assignments, List.map_filterMap, List.filterMap_map, Function.comp_def]

theorem readFields_eq_ok_iff {fs : List (String × Value)} {seen : List Field}
    {d d' : LanguageDefinition} :
    overrides.readFields d seen fs = .ok d' ↔
      (∀ key ∈ fs.map Prod.fst, ∃ f : Field, f.IsSpelled key) ∧
        ((assignments fs).map Prod.fst).Nodup ∧ (∀ g ∈ assignments fs, g.1 ∉ seen) ∧
          overrides.setFields d (assignments fs) = .ok d' := by
  induction fs generalizing seen d with
  | nil => simp [readFields, assignments, setFields, pure, Except.pure]
  | cons e fs ih =>
    obtain ⟨key, v⟩ := e
    rw [readFields]
    cases hname : Field.ofName? key with
    | none =>
      have hunknown : ¬ ∃ f : Field, f.IsSpelled key := by
        simp [← Field.ofName?_eq_some_iff, hname]
      simp [hunknown]
    | some f =>
      have hknown : ∃ f : Field, f.IsSpelled key := ⟨f, Field.ofName?_eq_some_iff.1 hname⟩
      have hcons : assignments ((key, v) :: fs) = (f, v) :: assignments fs := by
        simp [assignments, hname]
      rw [hcons]
      simp only [List.map_cons, List.forall_mem_cons, hknown, true_and, List.nodup_cons,
        setFields_cons_eq_ok_iff]
      by_cases hseen : f ∈ seen
      · simp [hseen]
      · rw [if_neg hseen]
        cases overrides.setField d v f with
        | error fault => simp
        | ok d₁ =>
          -- from here on the field at the head has been seen as well
          have hfresh : (∀ g ∈ assignments fs, g.1 ∉ f :: seen) ↔
              f ∉ (assignments fs).map Prod.fst ∧ ∀ g ∈ assignments fs, g.1 ∉ seen := by
            simp only [List.mem_cons, not_or, List.mem_map, not_exists, not_and, ← forall_and]
          simp only [ih, hfresh, hseen, not_false_eq_true, true_and, Except.ok.injEq,
            exists_eq_left']
          tauto

end Strictness

/-! ## Fields in order -/

theorem putField_eq_put (f : String × Value) (gs : List (String × Value)) :
    putField f gs = SortedMap.put f.1 f.2 gs := by
  induction gs with
  | nil => rfl
  | cons g gs ih => rw [putField, SortedMap.put, ih]

theorem ofList_concat (fs : List (String × Value)) (f : String × Value) :
    SortedMap.ofList (fs ++ [f]) = (SortedMap.ofList fs).insert f.1 f.2 :=
  List.foldl_append

theorem orderFields_eq (fs : List (String × Value)) :
    orderFields fs = (SortedMap.ofList fs).entries := by
  induction fs using List.reverseRecOn with
  | nil => rfl
  | append_singleton fs f ih =>
    have hlast : orderFields (fs ++ [f]) = putField f (orderFields fs) := List.foldl_append
    rw [hlast, ih, putField_eq_put, ofList_concat]
    rfl

theorem get?_ofList (fs : List (String × Value)) (key : String) :
    (SortedMap.ofList fs).get? key = fs.reverse.lookup key := by
  induction fs using List.reverseRecOn with
  | nil => rfl
  | append_singleton fs f ih =>
    rw [ofList_concat, SortedMap.get?_insert, ih, List.reverse_append, List.reverse_singleton,
      List.singleton_append, lookup_cons_eq_ite]

/-- Of the fields of one name the last is there. -/
theorem mem_orderFields_iff {fs : List (String × Value)} {e : String × Value} :
    e ∈ orderFields fs ↔ fs.reverse.lookup e.1 = some e.2 := by
  rw [orderFields_eq, ← get?_ofList]
  exact SortedMap.mem_entries_iff

theorem nodup_names_orderFields (fs : List (String × Value)) :
    ((orderFields fs).map Prod.fst).Nodup := by
  rw [orderFields_eq]
  exact List.pairwise_map.2 ((SortedMap.ofList fs).ordered.imp String.ne_of_lt)

theorem mem_names_orderFields_iff {fs : List (String × Value)} {key : String} :
    key ∈ (orderFields fs).map Prod.fst ↔ key ∈ fs.map Prod.fst := by
  rw [orderFields_eq]
  refine SortedMap.mem_keys_iff.trans ?_
  simp only [get?_ofList, exists_lookup_eq_some_iff, List.map_reverse, List.mem_reverse]

open Strictness (assignments mem_assignments_iff map_fst_assignments)

/-- Names that differ are those of different fields exactly if no field is there in two
spellings. -/
theorem nodup_filterMap_ofName?_iff {keys : List String} (h : keys.Nodup) :
    (keys.filterMap Field.ofName?).Nodup ↔ SpelledOnce keys := by
  rw [List.Nodup, List.pairwise_filterMap]
  simp only [Field.ofName?_eq_some_iff]
  constructor
  · intro hpair f key hkey key' hkey' hf hf'
    have hsymm : Std.Symm fun key key' : String =>
        ∀ g : Field, g.IsSpelled key → ∀ g' : Field, g'.IsSpelled key' → g ≠ g' :=
      ⟨fun _ _ hne g hg g' hg' => (hne g' hg' g hg).symm⟩
    by_contra hne
    exact hpair.forall hkey hkey' hne f hf f hf' rfl
  · intro hone
    refine h.pairwise_of_forall_ne fun key hkey key' hkey' hne => ?_
    rintro f hf _ hf' rfl
    exact hne (hone f key hkey key' hkey' hf hf')

/-- What a table gives for a field stands under the one spelling that it uses. -/
theorem given?_eq_some_iff {fs : List (String × Value)} (h : TellsFields (.table fs)) {f : Field}
    {v : Value} :
    given? (.table fs) f = some v ↔ ∃ key, fs.reverse.lookup key = some v ∧ f.IsSpelled key := by
  simp only [given?, Option.map_eq_some_iff, List.find?_eq_some_iff_append, List.lookup_eq_some_iff,
    decide_eq_true_eq]
  constructor
  · rintro ⟨⟨key, w⟩, ⟨hkey, front, back, hsplit, hfront⟩, rfl⟩
    refine ⟨key, ⟨front, back, hsplit, fun e he => ?_⟩, hkey⟩
    have hother := hfront e he
    rw [bne_iff_ne]
    rintro rfl
    simp [hkey] at hother
  · rintro ⟨key, ⟨front, back, hsplit, hfront⟩, hkey⟩
    refine ⟨(key, v), ⟨hkey, front, back, hsplit, fun e he => ?_⟩, rfl⟩
    have hmem : ∀ x ∈ front ++ (key, v) :: back, x.1 ∈ fs.map Prod.fst := fun x hx =>
      List.mem_map_of_mem (List.mem_reverse.1 (hsplit ▸ hx))
    have hthere : key ∈ fs.map Prod.fst := hmem (key, v) (by simp)
    have hother : ¬ f.IsSpelled e.1 := fun hf =>
      bne_iff_ne.1 (hfront e he) (h.2 f _ hthere _ (hmem e (by simp [he])) hkey hf)
    simp [hother]

theorem nodup_assignments_orderFields_iff (fs : List (String × Value)) :
    ((assignments (orderFields fs)).map Prod.fst).Nodup ↔ SpelledOnce (fs.map Prod.fst) := by
  rw [map_fst_assignments, nodup_filterMap_ofName?_iff (nodup_names_orderFields fs)]
  simp only [SpelledOnce, mem_names_orderFields_iff]

theorem lookup_assignments {fs : List (String × Value)} (h : TellsFields (.table fs)) (f : Field) :
    (assignments (orderFields fs)).lookup f = given? (.table fs) f := by
  have hnodup := (nodup_assignments_orderFields_iff fs).2 h.2
  refine Option.ext fun v => ?_
  rw [given?_eq_some_iff h, ← mem_iff_lookup_eq_some (e := (f, v)) hnodup, mem_assignments_iff]
  simp only [mem_orderFields_iff]

/-! ## Entries -/

/-- What an entry gives, in the order in which it is taken in. -/
def givenFields : Value → List (Field × Value)
  | .table fields => assignments (orderFields fields)
  | .list items => Field.all.zip items
  | _ => []

theorem nodup_givenFields {v : Value} (h : TellsFields v) :
    ((givenFields v).map Prod.fst).Nodup := by
  cases v with
  | table fields => exact (nodup_assignments_orderFields_iff fields).2 h.2
  | list items => exact nodup_map_fst_zip (by decide) items
  | _ => cases h

theorem lookup_givenFields {v : Value} (h : TellsFields v) (f : Field) :
    (givenFields v).lookup f = given? v f := by
  cases v with
  | table fields => exact lookup_assignments h f
  | list items => exact lookup_zip f.mem_all items
  | _ => cases h

theorem isJson_of_mem_givenFields {v : Value} (hv : v.IsJson) :
    ∀ g ∈ givenFields v, g.2.IsJson := by
  intro g hg
  cases v with
  | table fields =>
    obtain ⟨key, hmem, -⟩ := mem_assignments_iff.1 hg
    have hfield := mem_of_lookup_eq_some (mem_orderFields_iff.1 hmem)
    exact hv.of_mem_table _ (List.mem_reverse.1 hfield)
  | list items => exact hv.of_mem_list _ (List.of_mem_zip hg).2
  | _ => cases hg

theorem readEntry_eq_setFields {id : String} {v : Value} {d : LanguageDefinition} :
    readEntry .overrides id v = .ok d ↔
      TellsFields v ∧ Strictness.overrides.setFields { id } (givenFields v) = .ok d := by
  cases v with
  | table fields =>
    have hspelled : (∀ key ∈ (orderFields fields).map Prod.fst, ∃ f : Field, f.IsSpelled key) ↔
        ∀ key ∈ fields.map Prod.fst, ∃ f : Field, f.IsSpelled key := by
      simp only [mem_names_orderFields_iff]
    have hunseen : ∀ g ∈ assignments (orderFields fields), g.1 ∉ [] := fun _ _ => List.not_mem_nil
    simp only [readEntry, Strictness.readFields_eq_ok_iff, hspelled,
      nodup_assignments_orderFields_iff, TellsFields, SpellFields, givenFields, and_assoc]
    tauto
  | list items => exact Strictness.readItems_eq_ok_iff
  | _ => simp [readEntry, TellsFields]

/-- An entry is read as the definition that it describes, if it tells its fields. -/
theorem readEntry_eq_ok_iff {id : String} {v : Value} (hv : v.IsJson) {d : LanguageDefinition} :
    readEntry .overrides id v = .ok d ↔ TellsFields v ∧ d.id = id ∧ Describes v d := by
  rw [readEntry_eq_setFields]
  refine and_congr_right fun h => ?_
  rw [Strictness.setFields_eq_ok_iff (nodup_givenFields h) (isJson_of_mem_givenFields hv)]
  simp only [lookup_givenFields h, Field.value_content_empty, Describes]

/-- The entries that are read are the well-formed ones. -/
theorem exists_readEntry_iff (id : String) {v : Value} (hv : v.IsJson) :
    (∃ d, readEntry .overrides id v = .ok d) ↔ WellFormed v := by
  simp only [readEntry_eq_setFields, exists_and_left, WellFormed]
  refine and_congr_right fun h => ?_
  rw [Strictness.exists_setFields_iff (isJson_of_mem_givenFields hv), Prod.forall]
  simp only [mem_iff_lookup_eq_some (nodup_givenFields h), lookup_givenFields h]

/-! ## Spellings -/

/-- The same entry with other spellings of its keys. -/
def respell (s : String → String) : Value → Value
  | .table fields => .table (fields.map fun e => (s e.1, e.2))
  | v => v

/-- Every key stays or turns into another spelling of the same field. -/
def Respells (s : String → String) : Prop :=
  ∀ key, s key = key ∨ ∃ f : Field, f.IsSpelled key ∧ f.IsSpelled (s key)

theorem Field.IsSpelled.unique {f g : Field} {key : String} (hf : f.IsSpelled key)
    (hg : g.IsSpelled key) : f = g :=
  Option.some.inj ((ofName?_eq_some_iff.2 hf).symm.trans (ofName?_eq_some_iff.2 hg))

theorem Respells.isSpelled_iff {s : String → String} (h : Respells s) {f : Field} {key : String} :
    f.IsSpelled (s key) ↔ f.IsSpelled key := by
  rcases h key with heq | ⟨g, hkey, hs⟩
  · rw [heq]
  · constructor
    · intro hf
      rwa [hf.unique hs]
    · intro hf
      rwa [hf.unique hkey]

/-- Other spellings give the same for each field. -/
theorem given?_respell {s : String → String} (h : Respells s) (v : Value) (f : Field) :
    given? (respell s v) f = given? v f := by
  cases v with
  | table fields =>
    simp only [respell, given?, ← List.map_reverse, List.find?_map, Option.map_map,
      Function.comp_def, h.isSpelled_iff]
  | _ => rfl

theorem SpellFields.map {s : String → String} (h : Respells s) {keys : List String}
    (hkeys : SpellFields keys) : SpellFields (keys.map s) := by
  obtain ⟨hspelled, hone⟩ := hkeys
  simp only [SpellFields, SpelledOnce, List.forall_mem_map, h.isSpelled_iff]
  refine ⟨hspelled, fun f key hkey key' hkey' hf hf' => ?_⟩
  rw [hone f key hkey key' hkey' hf hf']

theorem TellsFields.respell {s : String → String} (h : Respells s) {v : Value}
    (hv : TellsFields v) : TellsFields (respell s v) := by
  cases v with
  | table fields =>
    have hkeys : (fields.map fun e => (s e.1, e.2)).map Prod.fst = (fields.map Prod.fst).map s := by
      simp
    have hmap := SpellFields.map h hv
    rwa [← hkeys] at hmap
  | _ => exact hv

theorem isJson_respell {v : Value} (hv : v.IsJson) (s : String → String) :
    (respell s v).IsJson := by
  cases v with
  | table fields =>
    refine .table fun f hf => ?_
    obtain ⟨e, he, rfl⟩ := List.mem_map.1 hf
    exact hv.of_mem_table e he
  | _ => exact hv

/-- A well-formed entry is read as the same definition in other spellings. -/
theorem readEntry_respell {s : String → String} (h : Respells s) {id : String} {v : Value}
    (hv : v.IsJson) {d : LanguageDefinition} (hread : readEntry .overrides id v = .ok d) :
    readEntry .overrides id (respell s v) = .ok d := by
  obtain ⟨htells, hid, hdescribes⟩ := (readEntry_eq_ok_iff hv).1 hread
  refine (readEntry_eq_ok_iff (isJson_respell hv s)).2 ⟨htells.respell h, hid, fun f => ?_⟩
  rw [given?_respell h, hdescribes f]

end LineCensus.Settings
