import LineCensus.Proofs.Answers
import LineCensus.Settings.Entry
import Mathlib.Data.List.Perm.Basic

/-!
# Entries with all their fields

An entry that has every field of a definition describes that definition, in whatever order
its fields stand: each field is taken in on its own, and the order in which they are taken
in does not show.
-/
namespace LineCensus.Settings

open Document (Value)

/-! ## Fields in the order of their names -/

theorem putField_perm (f : String × Value) {gs : List (String × Value)}
    (h : f.1 ∉ gs.map Prod.fst) : (putField f gs).Perm (f :: gs) := by
  induction gs with
  | nil => exact List.Perm.refl _
  | cons g gs ih =>
    rw [List.map_cons, List.mem_cons, not_or] at h
    rw [putField]
    split_ifs with hlt heq
    · exact List.Perm.refl _
    · exact absurd heq h.1
    · exact ((ih h.2).cons g).trans (List.Perm.swap f g gs)

theorem foldl_putField_perm (fs sorted : List (String × Value))
    (h : ((fs ++ sorted).map Prod.fst).Nodup) :
    (fs.foldl (fun sorted f => putField f sorted) sorted).Perm (fs ++ sorted) := by
  induction fs generalizing sorted with
  | nil => exact List.Perm.refl _
  | cons f fs ih =>
    have hf : f.1 ∉ sorted.map Prod.fst := fun hmem =>
      (List.nodup_cons.1 h).1 (List.map_append ▸ List.mem_append_right _ hmem)
    have hmoved : (fs ++ putField f sorted).Perm (f :: fs ++ sorted) :=
      ((putField_perm f hf).append_left fs).trans List.perm_middle
    exact (ih _ ((hmoved.map Prod.fst).nodup_iff.2 h)).trans hmoved

/-- Ordering loses no field where each name occurs once. -/
theorem orderFields_perm {fs : List (String × Value)} (h : (fs.map Prod.fst).Nodup) :
    (orderFields fs).Perm fs := by
  have hperm := foldl_putField_perm fs [] (by rwa [List.append_nil])
  rwa [List.append_nil] at hperm

/-! ## Contents of fields -/

/-- What a field holds: texts or pairs of texts. -/
inductive Content
  | texts (texts : List String)
  | pairs (pairs : List Delimiters)

/-- The texts are in a list, and the two of a pair are in a list of their own. -/
def Content.value : Content → Value
  | texts ts => .list (ts.map .string)
  | pairs ps => .list (ps.map fun p => .list [.string p.start, .string p.stop])

namespace Field

def content (d : LanguageDefinition) : Field → Content
  | aliases => .texts d.aliases
  | extensions => .texts d.extensions
  | filenames => .texts d.filenames
  | lineComments => .texts d.lineComments
  | blockComments => .pairs d.blockComments
  | blockStrings => .pairs d.blockStrings
  | lineStrings => .pairs d.lineStrings

/-- Takes a field over from another definition. -/
def copy (source d : LanguageDefinition) : Field → LanguageDefinition
  | aliases => { d with aliases := source.aliases }
  | extensions => { d with extensions := source.extensions }
  | filenames => { d with filenames := source.filenames }
  | lineComments => { d with lineComments := source.lineComments }
  | blockComments => { d with blockComments := source.blockComments }
  | blockStrings => { d with blockStrings := source.blockStrings }
  | lineStrings => { d with lineStrings := source.lineStrings }

theorem copy_copy_comm (source d : LanguageDefinition) (f g : Field) :
    f.copy source (g.copy source d) = g.copy source (f.copy source d) := by
  cases f <;> cases g <;> rfl

theorem foldl_copy_of_perm {fs : List Field} (h : fs.Perm all) (source d : LanguageDefinition) :
    fs.foldl (fun d f => f.copy source d) d = { source with id := d.id } := by
  rw [h.foldl_eq' fun f _ g _ d => copy_copy_comm source d g f]
  rfl

end Field

theorem Field.nodup_names : (Field.all.map Field.name).Nodup := by
  decide

/-- The fields of an entry that has all of them. -/
def entryFields (d : LanguageDefinition) : List (String × Value) :=
  Field.all.map fun f => (f.name, (f.content d).value)

theorem nodup_names_entryFields (d : LanguageDefinition) :
    ((entryFields d).map Prod.fst).Nodup := by
  rw [entryFields, List.map_map]
  exact Field.nodup_names

namespace Strictness

variable (rules : Strictness)

theorem setField_content (source d : LanguageDefinition) (f : Field) :
    rules.setField d (f.content source).value f = .ok (f.copy source d) := by
  have htexts : ∀ ts, rules.texts (Content.texts ts).value = .ok ts :=
    mapM_map_eq_ok fun _ => rfl
  have hpairs : ∀ ps, rules.pairs (Content.pairs ps).value = .ok ps :=
    mapM_map_eq_ok fun p => by simp [delimiters, text, bind, Except.bind]
  cases f <;> simp only [setField, Field.content, htexts, hpairs, Except.map, Field.copy]

/-- Fields that differ are taken in one after the other. -/
theorem readFields_contents (source d : LanguageDefinition) {fs seen : List Field} (hfs : fs.Nodup)
    (hseen : ∀ f ∈ fs, f ∉ seen) :
    rules.readFields d seen (fs.map fun f => (f.name, (f.content source).value)) =
      .ok (fs.foldl (fun d f => f.copy source d) d) := by
  induction fs generalizing d seen with
  | nil => rfl
  | cons f fs ih =>
    obtain ⟨hf, hfs⟩ := List.nodup_cons.1 hfs
    have hrest : ∀ g ∈ fs, g ∉ f :: seen := fun g hg hmem =>
      (List.mem_cons.1 hmem).elim (fun heq => hf (heq ▸ hg)) (hseen g (List.mem_cons_of_mem f hg))
    simp only [List.map_cons, readFields, Field.ofName?_name,
      if_neg (hseen f List.mem_cons_self), setField_content, List.foldl_cons]
    exact ih _ hfs hrest

end Strictness

/-- An entry that has all fields of a definition is read as that definition, under its id. -/
theorem readEntry_of_perm (rules : Strictness) (id : String) {d : LanguageDefinition}
    {fields : List (String × Value)} (h : fields.Perm (entryFields d)) :
    readEntry rules id (.table fields) = .ok { d with id := id } := by
  have hordered : (orderFields fields).Perm (entryFields d) :=
    (orderFields_perm ((h.map _).nodup_iff.2 (nodup_names_entryFields d))).trans h
  obtain ⟨fs, hfields, hfs⟩ : ∃ fs : List Field,
      orderFields fields = fs.map (fun f => (f.name, (f.content d).value)) ∧ fs.Perm Field.all := by
    have hcomp := List.eq_map_comp_perm fun f : Field => (f.name, (f.content d).value)
    exact (congrFun₂ hcomp _ _).mpr hordered
  have hnodup : fs.Nodup := hfs.nodup_iff.2 (by decide)
  rw [readEntry, hfields, rules.readFields_contents d _ hnodup fun _ _ => List.not_mem_nil,
    Field.foldl_copy_of_perm hfs]

end LineCensus.Settings
