import LineCensus.Proofs.Language.Lookup
import LineCensus.Proofs.Language.Overrides
import LineCensus.Proofs.Names
import LineCensus.Proofs.Text.Lowercase

/-!
# Languages that a file can belong to

A definition is found by the name of a file, which is one component of a path, or by its
extension, which is what stands behind the last dot of that name. So a file can belong to a
language exactly when one of its file names is a name or one of its suffixes has no other
dot, and no slash, behind its first character. The rules for entries ask for less.
-/
namespace LineCensus

open LanguageDefinition EntryRule

/-- A suffix that the end of a name can be: its first character is its only dot. -/
def IsNameEnd (suffix : String) : Prop := ∀ c ∈ suffix.toList.tail, c ≠ '.' ∧ c ≠ '/'

instance (suffix : String) : Decidable (IsNameEnd suffix) :=
  List.decidableBAll (fun c => c ≠ '.' ∧ c ≠ '/') suffix.toList.tail

namespace Registry

/-- A registry of one definition has no other to find. -/
theorem resolve?_ofDefinitions_singleton (d : LanguageDefinition) (path : Path) :
    (ofDefinitions [d]).resolve? path = some d ↔ d.ListsName path ∨ d.HasSuffix path := by
  have hlist : (ofDefinitions [d]).toList = [d] := rfl
  rw [resolve?, byName_eq_find?, bySuffix_eq_find?, hlist]
  by_cases hname : d.ListsName path <;> by_cases hsuffix : d.HasSuffix path <;>
    simp [hname, hsuffix]

end Registry

namespace LanguageDefinition

theorem exists_listsName_iff {d : LanguageDefinition} :
    (∃ path, d.ListsName path) ↔ ∃ name ∈ d.filenames, IsName name := by
  constructor
  · rintro ⟨path, name, hname, hlisted⟩
    exact ⟨name, hlisted, Path.isName_of_fileName? hname⟩
  · rintro ⟨name, hlisted, hname⟩
    exact ⟨⟨name⟩, name, Path.fileName?_of_isName hname, hlisted⟩

/-- The extension of a path has neither a dot nor a slash in it, and lower case neither
makes one nor takes one away. -/
theorem isNameEnd_of_hasSuffix {path : Path} {ext suffix : String}
    (hext : path.extension? = some ext) (hsuffix : IsSuffix suffix)
    (hlower : Text.lowercase suffix = "." ++ Text.lowercase ext) : IsNameEnd suffix := by
  have hrest := List.eq_cons_of_mem_head? hsuffix.1
  generalize suffix.toList.tail = rest at hrest
  have hsame : (Text.lowercase (String.ofList rest)).toList = (Text.lowercase ext).toList := by
    rw [← String.ofList_toList (s := suffix), hrest] at hlower
    have hchars := congrArg String.toList hlower
    rw [Text.toList_lowercase_dot_append, String.toList_append] at hchars
    simpa using hchars
  have hmark : ∀ {c : Char}, 0 < c.toNat → c.toNat < 0x40 → c ∈ rest → c ∈ ext.toList := by
    intro c hpos hlt hc
    rw [← Text.mem_lowercase_iff hpos hlt, ← hsame, Text.mem_lowercase_iff hpos hlt]
    simpa using hc
  have hfree := Path.ne_of_mem_extension? hext
  intro c hc
  rw [hrest, List.tail_cons] at hc
  constructor
  · rintro rfl
    exact (hfree _ (hmark (by decide) (by decide) hc)).1 rfl
  · rintro rfl
    exact (hfree _ (hmark (by decide) (by decide) hc)).2 rfl

/-- A letter in front of a suffix makes the name of a file that has it. -/
theorem hasSuffix_of_isNameEnd {d : LanguageDefinition} {suffix : String}
    (hmem : suffix ∈ d.extensions) (hsuffix : IsSuffix suffix) (hend : IsNameEnd suffix) :
    d.HasSuffix ⟨"a" ++ suffix⟩ := by
  have hrest := List.eq_cons_of_mem_head? hsuffix.1
  unfold IsNameEnd at hend
  generalize suffix.toList.tail = rest at hrest hend
  have hchars : ("a" ++ suffix).toList = 'a' :: '.' :: rest := by
    simp [String.toList_append, hrest]
  have hname : IsName ("a" ++ suffix) := by
    have hne : ∀ s : String, s.toList.head? ≠ some 'a' → "a" ++ suffix ≠ s := by
      rintro s hs rfl
      exact hs (by rw [hchars]; rfl)
    refine ⟨hne _ (by decide), hne _ (by decide), hne _ (by decide), ?_⟩
    rw [hchars]
    simpa using fun h => (hend _ h).2 rfl
  have hext : (⟨"a" ++ suffix⟩ : Path).extension? = some (String.ofList rest) := by
    have hlast : Path.extensionOf? ('a' :: '.' :: rest) = some rest :=
      Path.extensionOf?_append (List.cons_ne_nil 'a' []) fun h => (hend _ h).1 rfl
    rw [Path.extension?, Path.fileName?_of_isName hname, Option.bind_some, hchars, hlast]
    rfl
  refine ⟨_, hext, suffix, hmem, ?_⟩
  rw [← String.toList_inj, ← String.ofList_toList (s := suffix), hrest,
    Text.toList_lowercase_dot_append, String.toList_append]
  rfl

theorem exists_hasSuffix_iff {d : LanguageDefinition}
    (h : ∀ suffix ∈ d.extensions, IsSuffix suffix) :
    (∃ path, d.HasSuffix path) ↔ ∃ suffix ∈ d.extensions, IsNameEnd suffix := by
  constructor
  · rintro ⟨path, ext, hext, suffix, hmem, hlower⟩
    exact ⟨suffix, hmem, isNameEnd_of_hasSuffix hext (h suffix hmem) hlower⟩
  · rintro ⟨suffix, hmem, hend⟩
    exact ⟨_, hasSuffix_of_isNameEnd hmem (h suffix hmem) hend⟩

/-- A definition whose extensions are suffixes can be found if and only if it lists a name or
has a suffix that the end of a name can be. -/
theorem exists_resolve?_iff {d : LanguageDefinition}
    (h : ∀ suffix ∈ d.extensions, IsSuffix suffix) :
    (∃ path, (Registry.ofDefinitions [d]).resolve? path = some d) ↔
      (∃ name ∈ d.filenames, IsName name) ∨ ∃ suffix ∈ d.extensions, IsNameEnd suffix := by
  simp only [Registry.resolve?_ofDefinitions_singleton, exists_or, exists_listsName_iff,
    exists_hasSuffix_iff h]

end LanguageDefinition

namespace Settings

open Registry

theorem isSuffix_of_loadOverrides {r r' : Registry} {source : String} {o : Overrides}
    (h : loadOverrides r source o = .ok r') {e : String × LanguageDefinition} (he : e ∈ o.entries) :
    ∀ suffix ∈ e.2.extensions, IsSuffix suffix := by
  have hnone := (load_eq_ok_iff.1 (loadOverrides_eq_ok_iff.1 h)).1
  intro suffix hmem
  by_contra hbad
  exact firstRefusal?_eq_none_iff.1 hnone e he .extensionsAreSuffixes ⟨suffix, hmem, hbad⟩

/-- An entry that was taken up, alone in a registry, can be found by some path if and only
if one of its file names is a name or one of its extensions has its only dot in front and
no slash. -/
theorem exists_resolve?_of_loadOverrides_iff {r r' : Registry} {source : String} {o : Overrides}
    (h : loadOverrides r source o = .ok r') {e : String × LanguageDefinition} (he : e ∈ o.entries) :
    (∃ path, (ofDefinitions [{ e.2 with id := e.1 }]).resolve? path = some { e.2 with id := e.1 }) ↔
      (∃ name ∈ e.2.filenames, IsName name) ∨ ∃ suffix ∈ e.2.extensions, IsNameEnd suffix :=
  exists_resolve?_iff (d := { e.2 with id := e.1 }) (isSuffix_of_loadOverrides h he)

/-- An extension of two parts does not keep an entry from being found by its other one. -/
theorem exists_resolve?_of_second_extension :
    ∃ r', loadOverrides .builtin "languages.json"
        (.ofList [("archive", { id := "archive", extensions := [".tar.gz", ".TGZ"] })]) = .ok r' ∧
      ∃ path,
        (ofDefinitions [{ id := "archive", extensions := [".tar.gz", ".TGZ"] }]).resolve? path =
          some { id := "archive", extensions := [".tar.gz", ".TGZ"] } := by
  obtain ⟨r', h⟩ : ∃ r', loadOverrides .builtin "languages.json"
      (.ofList [("archive", { id := "archive", extensions := [".tar.gz", ".TGZ"] })]) = .ok r' :=
    ⟨_, rfl⟩
  refine ⟨r', h, (exists_resolve?_of_loadOverrides_iff h (.head _)).2 (Or.inr ?_)⟩
  exact ⟨".TGZ", by decide, by decide⟩

/-- An entry whose only extension has two parts is taken up, and no path leads to it. -/
theorem not_all_loaded_can_be_found :
    ¬ ∀ (r r' : Registry) (source : String) (o : Overrides),
      loadOverrides r source o = .ok r' → ∀ e ∈ o.entries,
        ∃ path, (ofDefinitions [{ e.2 with id := e.1 }]).resolve? path =
          some { e.2 with id := e.1 } := by
  intro h
  obtain ⟨path, hpath⟩ := h .builtin _ "languages.json"
    (.ofList [("archive", { id := "archive", extensions := [".tar.gz"] })]) rfl _ (.head _)
  have hreach := (exists_resolve?_iff (by decide)).1 ⟨path, hpath⟩
  revert hreach
  decide

end Settings

end LineCensus
