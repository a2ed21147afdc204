import LineCensus.Proofs.Glob.PlainText

/-!
# Filters with one more exclude

Where all patterns are valid there is a filter, and one more exclude takes away just the
paths that it fits.
-/
namespace LineCensus.Glob

/-- A text that is a pattern. -/
def IsValid (text : String) : Prop := ∃ p, Pattern.compile text false false = .ok p

theorem compileAll_of_forall_isValid {texts : List String} (h : ∀ s ∈ texts, IsValid s) :
    ∃ ps, compileAll texts = .ok ps := by
  induction texts with
  | nil => exact ⟨[], rfl⟩
  | cons text texts ih =>
    obtain ⟨⟨p, hp⟩, htexts⟩ := List.forall_mem_cons.1 h
    obtain ⟨ps, hps⟩ := ih htexts
    exact ⟨p :: ps, by simp [compileAll, hp, hps]⟩

theorem compileAll_append {texts more : List String} {ps qs : List Pattern}
    (hps : compileAll texts = .ok ps) (hqs : compileAll more = .ok qs) :
    compileAll (texts ++ more) = .ok (ps ++ qs) := by
  induction texts generalizing ps with
  | nil =>
    cases hps
    exact hqs
  | cons text texts ih =>
    rw [compileAll] at hps
    split at hps
    · cases hps
    · rename_i p hp
      split at hps
      · cases hps
      · rename_i rest hrest
        cases hps
        simp [compileAll, hp, ih hrest]

theorem forall_isValid_defaultExcludes : ∀ s ∈ defaultExcludes, IsValid s := by
  have hall : defaultExcludes.all fun s => (Pattern.compile s false false).isOk := by decide +kernel
  intro s hs
  have hok := List.all_eq_true.1 hall s hs
  cases hcompile : Pattern.compile s false false with
  | error fault => simp [hcompile, Except.isOk, Except.toBool] at hok
  | ok p => exact ⟨p, hcompile⟩

namespace Filter

/-- A filter that leaves out what one more pattern fits. -/
def exclude (f : Filter) (p : Pattern) : Filter := { f with excluded := f.excluded ++ [p] }

theorem accepts_exclude (f : Filter) (p : Pattern) (path : String) :
    (f.exclude p).accepts path = (f.accepts path && !p.isMatch path) := by
  simp [exclude, accepts, Bool.and_assoc]

/-- Valid includes come to the same whatever the excludes are. -/
theorem compile_of_isValid {includes : List String} (h : ∀ s ∈ includes, IsValid s) :
    ∃ included?, ∀ excludes ps, compileAll excludes = .ok ps →
      compile includes excludes = .ok ⟨included?, ps⟩ := by
  by_cases hempty : includes.isEmpty = true
  · refine ⟨none, fun excludes ps hps => ?_⟩
    rw [compile, if_pos hempty, hps]
    rfl
  · obtain ⟨qs, hqs⟩ := compileAll_of_forall_isValid h
    refine ⟨some qs, fun excludes ps hps => ?_⟩
    rw [compile, if_neg hempty, hqs, hps]
    rfl

theorem withDefaults_of_isValid {includes excludes : List String}
    (hincludes : ∀ s ∈ includes, IsValid s) (hexcludes : ∀ s ∈ excludes, IsValid s) :
    ∃ f, withDefaults includes excludes = .ok f ∧
      ∀ text p, Pattern.compile text false false = .ok p →
        withDefaults includes (excludes ++ [text]) = .ok (f.exclude p) := by
  obtain ⟨included?, hcompile⟩ := compile_of_isValid hincludes
  obtain ⟨ps, hps⟩ := compileAll_of_forall_isValid
    (List.forall_mem_append.2 ⟨forall_isValid_defaultExcludes, hexcludes⟩)
  refine ⟨⟨included?, ps⟩, hcompile _ _ hps, fun text p hp => ?_⟩
  have hlast : compileAll [text] = .ok [p] := by simp [compileAll, hp]
  rw [withDefaults, ← List.append_assoc]
  exact hcompile _ _ (compileAll_append hps hlast)

end Filter

end LineCensus.Glob
