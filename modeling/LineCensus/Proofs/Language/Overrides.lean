import LineCensus.Proofs.OrderedMap
import LineCensus.Settings.Loader
import Mathlib.Data.List.TakeWhile

/-!
# Putting overrides on top of a registry

Overrides are taken up all together or not at all. The first entry that breaks a rule is
the one that is refused, for the first of the rules that it breaks. If there is none, every
override replaces the whole definition under its id or stands behind those that were there.
-/
namespace LineCensus

/-! ## The rules for entries -/

/-- What an entry must be, in the order in which it is looked at. -/
inductive EntryRule
  | idNotBlank
  /-- Some file can belong to the language. -/
  | findable
  | extensionsAreSuffixes
  | lineCommentsNotEmpty
  | blocksHaveStarts
deriving DecidableEq, Repr

namespace EntryRule

def all : List EntryRule :=
  [idNotBlank, findable, extensionsAreSuffixes, lineCommentsNotEmpty, blocksHaveStarts]

theorem mem_all (rule : EntryRule) : rule ∈ all := by
  cases rule <;> decide

/-- A dot and something behind it. -/
def IsSuffix (text : String) : Prop := text.toList.head? = some '.' ∧ 2 ≤ text.utf8ByteSize

instance (text : String) : Decidable (IsSuffix text) := inferInstanceAs (Decidable (_ ∧ _))

/-- An entry breaks a rule. -/
def BrokenBy (id : String) (d : LanguageDefinition) : EntryRule → Prop
  | idNotBlank => ∀ c ∈ id.toList, Text.isBlank c = true
  | findable => d.extensions = [] ∧ d.filenames = []
  | extensionsAreSuffixes => ∃ text ∈ d.extensions, ¬ IsSuffix text
  | lineCommentsNotEmpty => "" ∈ d.lineComments
  | blocksHaveStarts => ∃ pair ∈ d.blockComments ++ d.blockStrings, pair.start = ""

instance (id : String) (d : LanguageDefinition) : DecidablePred (BrokenBy id d)
  | idNotBlank => inferInstanceAs (Decidable (∀ c ∈ id.toList, _))
  | findable => inferInstanceAs (Decidable (_ ∧ _))
  | extensionsAreSuffixes => inferInstanceAs (Decidable (∃ text ∈ d.extensions, _))
  | lineCommentsNotEmpty => inferInstanceAs (Decidable (_ ∈ _))
  | blocksHaveStarts => inferInstanceAs (Decidable (∃ pair ∈ _, _))

/-- The first extension that is no suffix. -/
def badExtension? (d : LanguageDefinition) : Option String :=
  d.extensions.find? fun text => ¬ IsSuffix text

/-- What is said of an entry that breaks a rule. -/
def fault (d : LanguageDefinition) : EntryRule → LanguageFault
  | idNotBlank => .blankId
  | findable => .unnamed
  | extensionsAreSuffixes => .badExtension ((badExtension? d).getD "")
  | lineCommentsNotEmpty => .emptyLineComment
  | blocksHaveStarts => .emptyBlockStart

end EntryRule

namespace Registry

open EntryRule

theorem isSuffix_iff {text : String} : isSuffix text = true ↔ IsSuffix text := by
  unfold isSuffix IsSuffix
  cases htext : text.toList with
  | nil => simp
  | cons c rest =>
    have hbytes : text.utf8ByteSize = c.utf8Size + (String.ofList rest).utf8ByteSize := by
      rw [← String.utf8ByteSize_singleton, ← String.utf8ByteSize_append]
      congr 1
      rw [← String.toList_inj, htext]
      simp
    by_cases hc : c = '.'
    · subst hc
      cases rest with
      | nil => simp [hbytes]; decide
      | cons c' rest =>
        have hpos : (String.ofList (c' :: rest)).utf8ByteSize ≠ 0 := by
          rw [Ne, String.utf8ByteSize_eq_zero_iff, ← String.toList_inj]
          simp
        have hdot : '.'.utf8Size = 1 := by decide
        simp only [List.head?_cons, hbytes, hdot, true_and, true_iff]
        omega
    · simp [hc]

theorem trimBlank_isEmpty_iff {s : List Char} :
    (Text.trimBlank s).isEmpty = true ↔ ∀ c ∈ s, Text.isBlank c = true := by
  have hback : (∀ c ∈ s.dropWhile Text.isBlank, Text.isBlank c = true) ↔
      ∀ c ∈ s, Text.isBlank c = true := by
    constructor
    · intro h c hc
      rw [← List.takeWhile_append_dropWhile (p := Text.isBlank) (l := s)] at hc
      exact (List.mem_append.1 hc).elim List.mem_takeWhile_imp (h c)
    · exact fun h c hc => h c ((List.dropWhile_suffix _).subset hc)
  rw [← hback, Text.trimBlank, Text.trimBy, List.isEmpty_iff, List.reverse_eq_nil_iff,
    List.dropWhile_eq_nil_iff]
  simp only [List.mem_reverse]

/-- An entry is refused for the first rule that it breaks. -/
theorem refusal?_eq (id : String) (d : LanguageDefinition) :
    refusal? id d = (EntryRule.all.find? (BrokenBy id d ·)).map (fault d) := by
  have hblank : (Text.trimBlank id.toList).isEmpty = true ↔ BrokenBy id d .idNotBlank :=
    trimBlank_isEmpty_iff
  have hfindable : (d.extensions.isEmpty && d.filenames.isEmpty) = true ↔
      BrokenBy id d .findable := by
    simp [BrokenBy]
  have hsuffix : d.extensions.find? (!isSuffix ·) = badExtension? d := by
    rw [badExtension?]
    congr 1
    funext text
    rw [Bool.eq_iff_iff]
    simp [← isSuffix_iff]
  have hline : d.lineComments.any String.isEmpty = true ↔ BrokenBy id d .lineCommentsNotEmpty := by
    simp [BrokenBy]
  have hstart : (d.blockComments ++ d.blockStrings).any (·.start.isEmpty) = true ↔
      BrokenBy id d .blocksHaveStarts := by
    simp only [List.any_eq_true, String.isEmpty_iff, BrokenBy]
  have hextensions : BrokenBy id d .extensionsAreSuffixes ↔ ∃ text, badExtension? d = some text := by
    rw [← Option.isSome_iff_exists, badExtension?, List.find?_isSome]
    simp [BrokenBy]
  unfold refusal?
  by_cases h₁ : BrokenBy id d .idNotBlank
  · rw [if_pos (hblank.2 h₁)]
    simp [EntryRule.all, h₁, fault]
  rw [if_neg (mt hblank.1 h₁)]
  by_cases h₂ : BrokenBy id d .findable
  · rw [if_pos (hfindable.2 h₂)]
    simp [EntryRule.all, h₁, h₂, fault]
  rw [if_neg (mt hfindable.1 h₂), hsuffix]
  by_cases h₃ : BrokenBy id d .extensionsAreSuffixes
  · obtain ⟨text, htext⟩ := hextensions.1 h₃
    simp [EntryRule.all, h₁, h₂, h₃, fault, htext]
  rw [Option.eq_none_iff_forall_ne_some.2 fun text h => h₃ (hextensions.2 ⟨text, h⟩)]
  dsimp only
  by_cases h₄ : BrokenBy id d .lineCommentsNotEmpty
  · rw [if_pos (hline.2 h₄)]
    simp [EntryRule.all, h₁, h₂, h₃, h₄, fault]
  rw [if_neg (mt hline.1 h₄)]
  by_cases h₅ : BrokenBy id d .blocksHaveStarts
  · rw [if_pos (hstart.2 h₅)]
    simp [EntryRule.all, h₁, h₂, h₃, h₄, h₅, fault]
  · rw [if_neg (mt hstart.1 h₅)]
    simp [EntryRule.all, h₁, h₂, h₃, h₄, h₅]

theorem refusal?_eq_none_iff {id : String} {d : LanguageDefinition} :
    refusal? id d = none ↔ ∀ rule, ¬ BrokenBy id d rule := by
  rw [refusal?_eq, Option.map_eq_none_iff, List.find?_eq_none]
  exact ⟨fun h rule => by simpa using h rule (mem_all rule), fun h rule _ => by simpa using h rule⟩

/-! ## Loading -/

/-- Some entry is refused if and only if some entry breaks a rule. -/
theorem firstRefusal?_eq_none_iff {o : Overrides} :
    firstRefusal? o = none ↔ ∀ e ∈ o.entries, ∀ rule, ¬ BrokenBy e.1 e.2 rule := by
  simp only [firstRefusal?, List.findSome?_eq_none_iff, Option.map_eq_none_iff,
    refusal?_eq_none_iff]

/-- The refused entry is the first that breaks a rule. -/
theorem exists_of_firstRefusal? {o : Overrides} {refusal : LanguageRefusal}
    (h : firstRefusal? o = some refusal) :
    ∃ front id d back rule, o.entries = front ++ (id, d) :: back ∧
      (∀ e ∈ front, ∀ rule, ¬ BrokenBy e.1 e.2 rule) ∧
      EntryRule.all.find? (BrokenBy id d ·) = some rule ∧ refusal = ⟨id, fault d rule⟩ := by
  obtain ⟨front, e, back, hsplit, he, hfront⟩ := List.findSome?_eq_some_iff.1 h
  obtain ⟨f, hf, rfl⟩ := Option.map_eq_some_iff.1 he
  obtain ⟨rule, hrule, rfl⟩ := Option.map_eq_some_iff.1 ((refusal?_eq e.1 e.2).symm.trans hf)
  refine ⟨front, e.1, e.2, back, rule, hsplit, fun x hx => ?_, hrule, rfl⟩
  exact refusal?_eq_none_iff.1 (Option.map_eq_none_iff.1 (hfront x hx))

/-- The definitions are put in as the entries of a map. -/
theorem putAll_rekeyed (m : OrderedMap LanguageDefinition) (o : Overrides) :
    putAll m (rekeyed o) = m.extend (o.mapWithKey fun id d => { d with id }) := by
  simp only [putAll, rekeyed, OrderedMap.extend, OrderedMap.insertAll, OrderedMap.mapWithKey,
    List.foldl_map]

theorem definitions_of_load {r r' : Registry} {o : Overrides} (h : r.load o = .ok r') :
    r'.definitions = r.definitions.extend (o.mapWithKey fun id d => { d with id }) := by
  unfold load at h
  split at h
  · cases h
  · cases h
    exact putAll_rekeyed r.definitions o

theorem ids_of_load {r r' : Registry} {o : Overrides} (h : r.load o = .ok r') :
    r'.ids = r.ids ++ o.keys.filter (· ∉ r.ids) := by
  rw [ids, definitions_of_load h, OrderedMap.keys_extend, OrderedMap.keys_mapWithKey]
  rfl

theorem get?_of_load {r r' : Registry} {o : Overrides} (h : r.load o = .ok r') (id : String) :
    r'.get? id = ((o.get? id).map ({ · with id })).or (r.get? id) := by
  rw [get?, definitions_of_load h, OrderedMap.get?_extend, OrderedMap.get?_mapWithKey]
  rfl

/-- The indexes are made from the definitions, and nothing else is in a registry. -/
theorem eq_of_definitions_eq {r r' : Registry} (h : r.definitions = r'.definitions) : r = r' := by
  obtain ⟨m, _, byName, hname, bySuffix, hsuffix⟩ := r
  obtain ⟨m', _, byName', hname', bySuffix', hsuffix'⟩ := r'
  obtain rfl : m = m' := h
  rw [← hname'] at hname
  rw [← hsuffix'] at hsuffix
  subst hname hsuffix
  rfl

theorem load_eq_ok_iff {r r' : Registry} {o : Overrides} :
    r.load o = .ok r' ↔ firstRefusal? o = none ∧
      r'.definitions = r.definitions.extend (o.mapWithKey fun id d => { d with id }) := by
  constructor
  · intro h
    refine ⟨?_, definitions_of_load h⟩
    unfold load at h
    split at h
    · cases h
    · assumption
  · rintro ⟨hnone, hdefs⟩
    unfold load
    rw [hnone]
    refine congrArg Except.ok (eq_of_definitions_eq ?_)
    rw [hdefs]
    exact putAll_rekeyed r.definitions o

theorem id_of_get? {r : Registry} {id : String} {d : LanguageDefinition}
    (h : r.get? id = some d) : d.id = id := by
  obtain ⟨front, back, hsplit, -⟩ := List.lookup_eq_some_iff.1 h
  exact r.id_eq_key (id, d) (by simp [hsplit])

end Registry

namespace Settings

open EntryRule Registry

theorem loadOverrides_eq_error_iff {r : Registry} {source : String} {o : Overrides}
    {failure : Failure} :
    loadOverrides r source o = .error failure ↔
      ∃ refusal, firstRefusal? o = some refusal ∧ failure = .language source refusal := by
  unfold loadOverrides load
  cases firstRefusal? o <;> simp [eq_comm]

theorem loadOverrides_eq_ok_iff {r r' : Registry} {source : String} {o : Overrides} :
    loadOverrides r source o = .ok r' ↔ r.load o = .ok r' := by
  unfold loadOverrides
  cases r.load o <;> simp

/-- Overrides fail if and only if some entry breaks a rule. The failure then names the
source, the first such entry and the first rule that it breaks. Otherwise the ids keep
their order, with the new ones behind them; the definition under an id is that of the
overrides, with the id as its own, or the one that was there; and no definition stands under
an id other than its own. -/
theorem loadOverrides_all_or_none (r : Registry) (source : String) (o : Overrides) :
    ((∃ failure, loadOverrides r source o = .error failure) ↔
        ∃ e ∈ o.entries, ∃ rule, BrokenBy e.1 e.2 rule) ∧
      (∀ failure, loadOverrides r source o = .error failure →
        ∃ front id d back rule, o.entries = front ++ (id, d) :: back ∧
          (∀ e ∈ front, ∀ rule, ¬ BrokenBy e.1 e.2 rule) ∧
          EntryRule.all.find? (BrokenBy id d ·) = some rule ∧
          failure = .language source ⟨id, fault d rule⟩) ∧
      ∀ r', loadOverrides r source o = .ok r' →
        r'.ids = r.ids ++ o.keys.filter (· ∉ r.ids) ∧
        (∀ id, r'.get? id = ((o.get? id).map ({ · with id })).or (r.get? id)) ∧
        ∀ id d, r'.get? id = some d → d.id = id := by
  refine ⟨?_, ?_, ?_⟩
  · have hrefused : (∃ failure, loadOverrides r source o = .error failure) ↔
        firstRefusal? o ≠ none := by
      simp only [loadOverrides_eq_error_iff, Option.ne_none_iff_exists']
      exact ⟨fun ⟨_, refusal, h, _⟩ => ⟨refusal, h⟩, fun ⟨refusal, h⟩ => ⟨_, refusal, h, rfl⟩⟩
    rw [hrefused, Ne, firstRefusal?_eq_none_iff]
    simp only [not_forall, not_not, exists_prop]
  · intro failure h
    obtain ⟨refusal, hrefusal, rfl⟩ := loadOverrides_eq_error_iff.1 h
    obtain ⟨front, id, d, back, rule, hsplit, hfront, hrule, rfl⟩ :=
      exists_of_firstRefusal? hrefusal
    exact ⟨front, id, d, back, rule, hsplit, hfront, hrule, rfl⟩
  · intro r' h
    have hdefs := definitions_of_load (loadOverrides_eq_ok_iff.1 h)
    refine ⟨?_, fun id => ?_, fun id d => id_of_get?⟩
    · rw [ids, hdefs, OrderedMap.keys_extend, OrderedMap.keys_mapWithKey]
      rfl
    · rw [Registry.get?, hdefs, OrderedMap.get?_extend, OrderedMap.get?_mapWithKey]
      rfl

end Settings

end LineCensus
