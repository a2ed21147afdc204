import LineCensus.Proofs.Answers
import LineCensus.Proofs.Language.Overrides

/-!
# Layers of overrides

Overrides that are taken up one after the other could have been joined before: the later
ones on top of the earlier ones, taken up at once, make the same registry. So the languages
of a run are those of the catalog with one map on top.
-/
namespace LineCensus

namespace Registry

theorem load_empty (r : Registry) : r.load .empty = .ok r := load_eq_ok_iff.2 ⟨rfl, rfl⟩

/-- Joined overrides have no entry that neither of them has. -/
theorem firstRefusal?_extend {a b : Overrides} (ha : firstRefusal? a = none)
    (hb : firstRefusal? b = none) : firstRefusal? (a.extend b) = none := by
  rw [firstRefusal?_eq_none_iff] at *
  intro e he
  exact (OrderedMap.mem_entries_extend he).elim (hb e) (ha e)

theorem load_extend {r r₁ r₂ : Registry} {a b : Overrides} (ha : r.load a = .ok r₁)
    (hb : r₁.load b = .ok r₂) : r.load (a.extend b) = .ok r₂ := by
  obtain ⟨hacceptA, hdefs₁⟩ := load_eq_ok_iff.1 ha
  obtain ⟨hacceptB, hdefs₂⟩ := load_eq_ok_iff.1 hb
  refine load_eq_ok_iff.2 ⟨firstRefusal?_extend hacceptA hacceptB, ?_⟩
  rw [hdefs₂, hdefs₁, OrderedMap.extend_extend, OrderedMap.mapWithKey_extend]

end Registry

namespace Settings

open Registry

/-- The overrides of the file that is named; none if no file is. -/
def FileSource.namedOverrides (files : FileSource) : Option Path → Except Failure Overrides
  | none => .ok .empty
  | some path => files.read path >>= readOverrides path

/-- A registry of a run is made in two layers, the second of which may be empty. -/
theorem FileSource.exists_layers {files : FileSource} {loaded : Loaded} {overrideFile : Option Path}
    {r : Registry} (h : files.loadRegistry loaded overrideFile = .ok r) :
    ∃ r₁ o, Registry.builtin.load loaded.configuration.languages = .ok r₁ ∧
      files.namedOverrides overrideFile = .ok o ∧ r₁.load o = .ok r := by
  obtain ⟨r₁, hfirst, h⟩ := bind_eq_ok_iff.1 h
  rw [loadOverrides_eq_ok_iff] at hfirst
  cases overrideFile with
  | none =>
    cases h
    exact ⟨r, .empty, hfirst, rfl, load_empty r⟩
  | some path =>
    obtain ⟨content, hread, h⟩ := bind_eq_ok_iff.1 h
    obtain ⟨o, hoverrides, h⟩ := bind_eq_ok_iff.1 h
    exact ⟨r₁, o, hfirst, bind_eq_ok_iff.2 ⟨content, hread, hoverrides⟩,
      loadOverrides_eq_ok_iff.1 h⟩

/-- Two layers of overrides make the registry that the second on top of the first makes at
once, under the name of any source. So the languages of a run are those of the catalog with
one map on top: the languages of its configuration with those of the override file on
top of them. -/
theorem loadOverrides_layered :
    (∀ (r r₁ r₂ : Registry) (s₁ s₂ : String) (a b : Overrides),
      loadOverrides r s₁ a = .ok r₁ → loadOverrides r₁ s₂ b = .ok r₂ →
        ∀ s, loadOverrides r s (a.extend b) = .ok r₂) ∧
      ∀ (files : FileSource) (loaded : Loaded) (overrideFile : Option Path) (r : Registry),
        files.loadRegistry loaded overrideFile = .ok r →
          ∃ o, files.namedOverrides overrideFile = .ok o ∧
            ∀ s, loadOverrides .builtin s (loaded.configuration.languages.extend o) = .ok r := by
  constructor
  · intro r r₁ r₂ s₁ s₂ a b ha hb s
    rw [loadOverrides_eq_ok_iff] at *
    exact load_extend ha hb
  · intro files loaded overrideFile r h
    obtain ⟨r₁, o, hfirst, ho, hsecond⟩ := FileSource.exists_layers h
    exact ⟨o, ho, fun s => loadOverrides_eq_ok_iff.2 (load_extend hfirst hsecond)⟩

/-- A new language and one of the catalog. -/
def lowerLayer : Overrides :=
  .ofList [("b", { id := "", extensions := [".x"] }), ("rust", { id := "", filenames := ["R"] })]

/-- A language with the suffix of one below it, which is given another. -/
def upperLayer : Overrides :=
  .ofList [("a", { id := "", extensions := [".x"] }), ("b", { id := "", extensions := [".y"] })]

/-- An id of both layers keeps the place that the first gives it and has the definition that
the second gives it. -/
theorem loadOverrides_layered_shared_id :
    ∃ r₁ r₂,
      loadOverrides .builtin "first" lowerLayer = .ok r₁ ∧
      loadOverrides r₁ "second" upperLayer = .ok r₂ ∧
      loadOverrides .builtin "both"
        (.ofList [("b", { id := "", extensions := [".y"] }),
          ("rust", { id := "", filenames := ["R"] }),
          ("a", { id := "", extensions := [".x"] })]) = .ok r₂ := by
  obtain ⟨r₁, h₁⟩ : ∃ r₁, loadOverrides .builtin "first" lowerLayer = .ok r₁ := ⟨_, rfl⟩
  obtain ⟨r₂, h₂⟩ : ∃ r₂, loadOverrides r₁ "second" upperLayer = .ok r₂ := ⟨_, rfl⟩
  exact ⟨r₁, r₂, h₁, h₂, loadOverrides_layered.1 _ r₁ r₂ _ _ _ _ h₁ h₂ "both"⟩

end Settings

end LineCensus
