import LineCensus.Proofs.Document.JsonValues
import LineCensus.Proofs.OrderedMap
import LineCensus.Proofs.Settings.EntryFields

/-!
# Values of fields

A field asks for a list of texts or for a list of pairs of texts, and takes in a value exactly
if it is one. What the field holds afterwards is that value, and the other fields hold what they
held before; so fields that differ are all taken in or one of their values is not in shape.
-/
namespace LineCensus.Settings

open Document (Value)
open OrderedMap (lookup_cons_eq_ite lookup_eq_none_of_not_mem)

/-! ## Shapes -/

/-- A list of texts. -/
def IsTexts (v : Value) : Prop := ∃ ts : List String, v = .list (ts.map .string)

/-- A list of lists of two texts. -/
def IsPairs (v : Value) : Prop :=
  ∃ ps : List (String × String), v = .list (ps.map fun p => .list [.string p.1, .string p.2])

namespace Field

/-- The value has the shape that the field asks for. -/
def Admits : Field → Value → Prop
  | aliases | extensions | filenames | lineComments => IsTexts
  | blockComments | blockStrings | lineStrings => IsPairs

end Field

/-! ## Fields of a definition -/

namespace Content

theorem isTexts_iff {v : Value} : IsTexts v ↔ ∃ ts, v = (texts ts).value := Iff.rfl

theorem isPairs_iff {v : Value} : IsPairs v ↔ ∃ ps, v = (pairs ps).value := by
  constructor
  · rintro ⟨ps, rfl⟩
    exact ⟨ps.map fun p => ⟨p.1, p.2⟩, by simp [value, Function.comp_def]⟩
  · rintro ⟨ps, rfl⟩
    exact ⟨ps.map fun p => (p.start, p.stop), by simp [value, Function.comp_def]⟩

theorem value_texts_inj {ts ts' : List String} :
    (texts ts).value = (texts ts').value ↔ ts = ts' := by
  have hstring : Function.Injective Value.string := fun s t h => by cases h; rfl
  rw [value, value, Value.list.injEq, (List.map_injective_iff.2 hstring).eq_iff]

theorem value_pairs_inj {ps ps' : List Delimiters} :
    (pairs ps).value = (pairs ps').value ↔ ps = ps' := by
  have hpair : Function.Injective fun p : Delimiters =>
      Value.list [.string p.start, .string p.stop] := by
    rintro ⟨s, t⟩ ⟨s', t'⟩ h
    cases h
    rfl
  rw [value, value, Value.list.injEq, (List.map_injective_iff.2 hpair).eq_iff]

end Content

namespace Field

@[simp] theorem content_copy (source d : LanguageDefinition) (f g : Field) :
    g.content (f.copy source d) = if g = f then g.content source else g.content d := by
  cases f <;> cases g <;> rfl

theorem copy_copy_self (source d : LanguageDefinition) (f : Field) :
    f.copy (f.copy source d) d = f.copy source d := by
  cases f <;> rfl

@[simp] theorem id_copy (source d : LanguageDefinition) (f : Field) :
    (f.copy source d).id = d.id := by
  cases f <;> rfl

theorem value_content_empty (id : String) (f : Field) : (f.content { id }).value = .list [] := by
  cases f <;> rfl

end Field

/-- A definition is told by its id and what its fields hold. -/
theorem eq_of_contents {d d' : LanguageDefinition} (hid : d.id = d'.id)
    (h : ∀ f : Field, (f.content d).value = (f.content d').value) : d = d' := by
  cases d
  cases d'
  simp only [LanguageDefinition.mk.injEq]
  exact ⟨hid, Content.value_texts_inj.1 (h .aliases), Content.value_texts_inj.1 (h .extensions),
    Content.value_texts_inj.1 (h .filenames), Content.value_texts_inj.1 (h .lineComments),
    Content.value_pairs_inj.1 (h .blockComments), Content.value_pairs_inj.1 (h .blockStrings),
    Content.value_pairs_inj.1 (h .lineStrings)⟩

namespace Strictness

/-! ## Taking in fields -/

theorem text_eq_ok_iff {v : Value} (hv : v.IsJson) {s : String} :
    overrides.text v = .ok s ↔ v = .string s := by
  cases hv <;> simp [text]

theorem texts_eq_ok_iff {v : Value} (hv : v.IsJson) {ts : List String} :
    overrides.texts v = .ok ts ↔ v = (Content.texts ts).value := by
  cases hv with
  | @list items h =>
    have hitems : items.mapM overrides.text = .ok ts ↔ items = ts.map .string :=
      mapM_eq_ok_iff fun v hv _ => text_eq_ok_iff (h v hv)
    simp only [texts, hitems, Content.value, Value.list.injEq]
  | _ => simp [texts, Content.value]

theorem delimiters_eq_ok_iff {v : Value} (hv : v.IsJson) {p : Delimiters} :
    overrides.delimiters v = .ok p ↔ v = .list [.string p.start, .string p.stop] := by
  cases hv with
  | @list items h =>
    match items with
    | [] => simp [delimiters]
    | [a] => simp [delimiters, bind_eq_ok_iff]
    | a :: b :: more =>
      have ha := @text_eq_ok_iff a (h a (by simp))
      have hb := @text_eq_ok_iff b (h b (by simp))
      cases more with
      | nil =>
        cases p
        simp [delimiters, bind_eq_ok_iff, ha, hb]
      | cons c more => simp [delimiters, bind_eq_ok_iff, overrides]
  | _ => simp [delimiters]

theorem pairs_eq_ok_iff {v : Value} (hv : v.IsJson) {ps : List Delimiters} :
    overrides.pairs v = .ok ps ↔ v = (Content.pairs ps).value := by
  cases hv with
  | @list items h =>
    have hitems : items.mapM overrides.delimiters = .ok ps ↔
        items = ps.map fun p => .list [.string p.start, .string p.stop] :=
      mapM_eq_ok_iff fun v hv _ => delimiters_eq_ok_iff (h v hv)
    simp only [pairs, hitems, Content.value, Value.list.injEq]
  | _ => simp [pairs, Content.value]

/-- A field is taken in exactly if what it holds afterwards is what was given for it. -/
theorem setField_eq_ok_iff {v : Value} (hv : v.IsJson) {d d' : LanguageDefinition} {f : Field} :
    overrides.setField d v f = .ok d' ↔ (f.content d').value = v ∧ f.copy d' d = d' := by
  cases f <;>
    simp only [setField, map_eq_ok_iff, texts_eq_ok_iff hv, pairs_eq_ok_iff hv, Field.content,
      Field.copy]
  all_goals
    constructor
    · rintro ⟨x, rfl, rfl⟩
      exact ⟨rfl, rfl⟩
    · rintro ⟨hgiven, hsame⟩
      exact ⟨_, hgiven.symm, hsame⟩

/-- A field is taken in if what is given for it has its shape. -/
theorem exists_setField_iff {v : Value} (hv : v.IsJson) (d : LanguageDefinition) (f : Field) :
    (∃ d', overrides.setField d v f = .ok d') ↔ f.Admits v := by
  cases f <;>
    simp only [setField, map_eq_ok_iff, texts_eq_ok_iff hv, pairs_eq_ok_iff hv, Field.Admits,
      Content.isTexts_iff, Content.isPairs_iff]
  all_goals
    constructor
    · rintro ⟨-, x, hx, -⟩
      exact ⟨x, hx⟩
    · rintro ⟨x, hx⟩
      exact ⟨_, x, hx, rfl⟩

/-- Takes in one field after the other. -/
def setFields (rules : Strictness) (d : LanguageDefinition) (gs : List (Field × Value)) :
    Except ShapeFault LanguageDefinition :=
  gs.foldlM (fun d g => rules.setField d g.2 g.1) d

theorem setFields_cons_eq_ok_iff {rules : Strictness} {d d' : LanguageDefinition}
    {g : Field × Value} {gs : List (Field × Value)} :
    rules.setFields d (g :: gs) = .ok d' ↔
      ∃ d₁, rules.setField d g.2 g.1 = .ok d₁ ∧ rules.setFields d₁ gs = .ok d' := by
  rw [setFields, List.foldlM_cons, bind_eq_ok_iff]
  rfl

/-- Fields that differ are taken in exactly if they hold afterwards what was given for them, and
the other fields what they held before. -/
theorem setFields_eq_ok_iff {gs : List (Field × Value)} (hgs : (gs.map Prod.fst).Nodup)
    (hjson : ∀ g ∈ gs, g.2.IsJson) {d d' : LanguageDefinition} :
    overrides.setFields d gs = .ok d' ↔
      d'.id = d.id ∧ ∀ f, (f.content d').value = (gs.lookup f).getD (f.content d).value := by
  induction gs generalizing d with
  | nil =>
    constructor
    · intro h
      cases h
      exact ⟨rfl, fun _ => rfl⟩
    · rintro ⟨hid, h⟩
      rw [eq_of_contents hid h]
      rfl
  | cons g gs ih =>
    obtain ⟨hg, hgs⟩ := List.nodup_cons.1 hgs
    obtain ⟨hv, hjson⟩ := List.forall_mem_cons.1 hjson
    have hlookup : gs.lookup g.1 = none := lookup_eq_none_of_not_mem hg
    simp only [setFields_cons_eq_ok_iff, setField_eq_ok_iff hv, ih hgs hjson, lookup_cons_eq_ite]
    constructor
    · rintro ⟨d₁, ⟨hgiven, hsame⟩, hid, hrest⟩
      refine ⟨?_, fun f => ?_⟩
      · rw [hid, ← hsame, Field.id_copy]
      · rw [hrest f]
        split_ifs with hf
        · rw [hf, hlookup, Option.getD_none, hgiven, Option.getD_some]
        · rw [← hsame, Field.content_copy, if_neg hf]
    · rintro ⟨hid, hall⟩
      have hgiven : (g.1.content d').value = g.2 := by
        rw [hall g.1, if_pos rfl, Option.getD_some]
      refine ⟨g.1.copy d' d, ⟨?_, ?_⟩, ?_, fun f => ?_⟩
      · rw [Field.content_copy, if_pos rfl, hgiven]
      · exact Field.copy_copy_self d' d g.1
      · rw [hid, Field.id_copy]
      · rw [Field.content_copy]
        split_ifs with hf
        · rw [hf, hlookup, Option.getD_none]
        · rw [hall f, if_neg hf]

theorem exists_setFields_iff {gs : List (Field × Value)} (hjson : ∀ g ∈ gs, g.2.IsJson)
    (d : LanguageDefinition) :
    (∃ d', overrides.setFields d gs = .ok d') ↔ ∀ g ∈ gs, g.1.Admits g.2 := by
  induction gs generalizing d with
  | nil => exact ⟨fun _ g hg => absurd hg List.not_mem_nil, fun _ => ⟨d, rfl⟩⟩
  | cons g gs ih =>
    obtain ⟨hv, hjson⟩ := List.forall_mem_cons.1 hjson
    simp only [setFields_cons_eq_ok_iff, List.forall_mem_cons, ← exists_setField_iff hv d]
    constructor
    · rintro ⟨d', d₁, hfirst, hrest⟩
      exact ⟨⟨d₁, hfirst⟩, (ih hjson d₁).1 ⟨d', hrest⟩⟩
    · rintro ⟨⟨d₁, hfirst⟩, hrest⟩
      obtain ⟨d', hd'⟩ := (ih hjson d₁).2 hrest
      exact ⟨d', d₁, hfirst, hd'⟩

end Strictness

end LineCensus.Settings
