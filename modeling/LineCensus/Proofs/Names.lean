import LineCensus.Disk
import Mathlib.Data.List.Basic
import Mathlib.Data.List.TakeWhile

/-!
# Paths made of names

A name is what an entry of a directory is called. Names that are put behind a path come out
again as its last components, whatever the path looks like, and are what the path shows
relative to that root. The name of a file is always one of them, and its extension a part of
that.
-/
namespace LineCensus

/-- A text that can be the name of an entry of a directory. -/
structure IsName (s : String) : Prop where
  ne_empty : s ≠ ""
  ne_dot : s ≠ "."
  ne_dots : s ≠ ".."
  no_slash : '/' ∉ s.toList

instance (s : String) : Decidable (IsName s) :=
  decidable_of_iff (s ≠ "" ∧ s ≠ "." ∧ s ≠ ".." ∧ '/' ∉ s.toList)
    ⟨fun h => ⟨h.1, h.2.1, h.2.2.1, h.2.2.2⟩, fun h => ⟨h.1, h.2, h.3, h.4⟩⟩

/-! ## Segments -/

theorem splitSlash_cons {c : Char} (hc : c ≠ '/') (s : List Char) :
    splitSlash (c :: s) = (c :: (splitSlash s).headD []) :: (splitSlash s).tail := by
  rw [splitSlash]
  · cases splitSlash s <;> rfl
  · exact fun h => hc h

theorem splitSlash_ne_nil (s : List Char) : splitSlash s ≠ [] := by
  cases s with
  | nil => simp [splitSlash]
  | cons c s =>
    by_cases hc : c = '/'
    · subst hc
      simp [splitSlash]
    · simp [splitSlash_cons hc]

/-- A slash cuts what stands in front of it from what stands behind it. -/
theorem splitSlash_append (s t : List Char) :
    splitSlash (s ++ '/' :: t) = splitSlash s ++ splitSlash t := by
  induction s with
  | nil => rfl
  | cons c s ih =>
    by_cases hc : c = '/'
    · subst hc
      simp [splitSlash, ih]
    · obtain ⟨seg, segs, hsplit⟩ := List.exists_cons_of_ne_nil (splitSlash_ne_nil s)
      simp [splitSlash_cons hc, ih, hsplit]

theorem splitSlash_eq_singleton {s : List Char} (h : '/' ∉ s) : splitSlash s = [s] := by
  induction s with
  | nil => rfl
  | cons c s ih =>
    rw [List.mem_cons, not_or] at h
    simp [splitSlash_cons (Ne.symm h.1), ih h.2]

theorem toList_joinSlash_cons {name : String} {names : List String} (h : names ≠ []) :
    (joinSlash (name :: names)).toList = name.toList ++ '/' :: (joinSlash names).toList := by
  rw [joinSlash, String.intercalate_cons_of_ne_nil h]
  simp [joinSlash]

/-- Joined names are cut apart again. -/
theorem splitSlash_joinSlash {names : List String} (hne : names ≠ [])
    (h : ∀ s ∈ names, '/' ∉ s.toList) :
    splitSlash (joinSlash names).toList = names.map String.toList := by
  induction names with
  | nil => exact absurd rfl hne
  | cons name names ih =>
    have hname := splitSlash_eq_singleton (h name List.mem_cons_self)
    by_cases hnil : names = []
    · simp [hnil, joinSlash, hname]
    · rw [toList_joinSlash_cons hnil, splitSlash_append, hname,
        ih hnil fun s hs => h s (List.mem_cons_of_mem _ hs)]
      rfl

theorem toList_joinSlash_concat {names : List String} (h : names ≠ []) (name : String) :
    (joinSlash (names ++ [name])).toList = (joinSlash names).toList ++ '/' :: name.toList := by
  rw [joinSlash, String.intercalate_append_of_ne_nil h (List.cons_ne_nil _ _)]
  simp [joinSlash]

/-- Only a text itself makes up that text, if there is no slash in it. -/
theorem eq_singleton_of_joinSlash_eq {names : List String} {s : String} (hne : names ≠ [])
    (h : ∀ s ∈ names, '/' ∉ s.toList) (hs : '/' ∉ s.toList) (heq : joinSlash names = s) :
    names = [s] := by
  have hsplit := splitSlash_joinSlash hne h
  rw [heq, splitSlash_eq_singleton hs] at hsplit
  obtain ⟨name, rfl, hname⟩ := List.map_eq_singleton_iff.1 hsplit.symm
  rw [String.toList_inj.1 hname]

theorem joinSlash_ne_empty {names : List String} (hne : names ≠ []) (h : ∀ s ∈ names, IsName s) :
    joinSlash names ≠ "" := by
  intro heq
  obtain rfl := eq_singleton_of_joinSlash_eq hne (fun s hs => (h s hs).no_slash) (by simp) heq
  exact (h "" (List.mem_singleton_self _)).ne_empty rfl

theorem joinSlash_ne_dot {names : List String} (hne : names ≠ []) (h : ∀ s ∈ names, IsName s) :
    joinSlash names ≠ "." := by
  intro heq
  obtain rfl := eq_singleton_of_joinSlash_eq hne (fun s hs => (h s hs).no_slash) (by decide) heq
  exact (h "." (List.mem_singleton_self _)).ne_dot rfl

theorem no_slash_of_mem_splitSlash {s seg : List Char} (h : seg ∈ splitSlash s) : '/' ∉ seg := by
  induction s generalizing seg with
  | nil => simp_all [splitSlash]
  | cons c s ih =>
    by_cases hc : c = '/'
    · subst hc
      rw [splitSlash, List.mem_cons] at h
      rcases h with rfl | h
      · simp
      · exact ih h
    · obtain ⟨seg', segs, hsplit⟩ := List.exists_cons_of_ne_nil (splitSlash_ne_nil s)
      rw [splitSlash_cons hc, hsplit] at h
      rw [hsplit] at ih
      rcases List.mem_cons.1 h with rfl | h
      · simpa [Ne.symm hc] using ih List.mem_cons_self
      · exact ih (List.mem_cons_of_mem _ h)

/-- Joined names begin with other joined names and a slash if and only if these are the
first of them, and not all. -/
theorem joinSlash_eq_append_slash_iff {names front : List String} (hne : names ≠ [])
    (hfrontNe : front ≠ []) (h : ∀ s ∈ names, '/' ∉ s.toList)
    (hfront : ∀ s ∈ front, '/' ∉ s.toList) :
    (∃ rest, (joinSlash names).toList = (joinSlash front).toList ++ '/' :: rest) ↔
      ∃ back, back ≠ [] ∧ names = front ++ back := by
  constructor
  · rintro ⟨rest, hrest⟩
    have hsplit := congrArg splitSlash hrest
    rw [splitSlash_append, splitSlash_joinSlash hne h, splitSlash_joinSlash hfrontNe hfront]
      at hsplit
    refine ⟨(splitSlash rest).map String.ofList, by simpa using splitSlash_ne_nil rest, ?_⟩
    have hnames := congrArg (List.map String.ofList) hsplit
    simpa [Function.comp_def] using hnames
  · rintro ⟨back, hback, rfl⟩
    refine ⟨(joinSlash back).toList, ?_⟩
    rw [joinSlash, String.intercalate_append_of_ne_nil hfrontNe hback]
    simp [joinSlash]

namespace Path

/-! ## Components -/

theorem map_name_injective : Function.Injective (List.map Component.name) :=
  List.map_injective_iff.2 fun _ _ => Component.name.inj

theorem ofSegment?_name {s : String} (h : IsName s) :
    Component.ofSegment? s = some (.name s) := by
  simp [Component.ofSegment?, h.ne_empty, h.ne_dot, h.ne_dots]

theorem filterMap_ofSegment? {names : List String} (h : ∀ s ∈ names, IsName s) :
    names.filterMap Component.ofSegment? = names.map .name := by
  induction names with
  | nil => rfl
  | cons name names ih =>
    rw [List.filterMap_cons, ofSegment?_name (h name List.mem_cons_self),
      ih fun s hs => h s (List.mem_cons_of_mem _ hs)]
    rfl

/-- A slash and names behind a text, which may end in a slash itself, are the names behind
the components of the text. -/
theorem components_append {p q : Path} {t : List Char} {names : List String}
    (hp : p.text.toList = t ++ '/' :: (joinSlash names).toList)
    (hq : q.text.toList = t ∨ q.text.toList = t ++ ['/']) (hqne : q.text.toList ≠ [])
    (hne : names ≠ []) (h : ∀ s ∈ names, IsName s) :
    p.components = q.components ++ names.map .name := by
  have habsolute : p.isAbsolute = q.isAbsolute := by
    rw [isAbsolute, isAbsolute, hp]
    rcases hq with hq | hq
    · rw [hq] at hqne
      obtain ⟨c, t, rfl⟩ := List.exists_cons_of_ne_nil hqne
      rw [hq]
      rfl
    · rw [hq]
      cases t <;> rfl
  have hsegments : p.segments = (splitSlash t).map String.ofList ++ names := by
    rw [segments, hp, splitSlash_append, splitSlash_joinSlash hne fun s hs => (h s hs).no_slash,
      List.map_append, List.map_map]
    congr 1
    simp [Function.comp_def]
  have hfront : ∃ back, q.segments = (splitSlash t).map String.ofList ++ back ∧
      back.filterMap Component.ofSegment? = [] := by
    rcases hq with hq | hq
    · exact ⟨[], by simp [segments, hq], rfl⟩
    · exact ⟨[""], by simp [segments, hq, splitSlash_append, splitSlash], by decide⟩
  obtain ⟨back, hfront, hback⟩ := hfront
  have hhead : p.segments.head? = q.segments.head? := by
    obtain ⟨seg, segs, hsplit⟩ := List.exists_cons_of_ne_nil (splitSlash_ne_nil t)
    simp [hsegments, hfront, hsplit]
  simp only [components, habsolute, hhead]
  rw [hsegments, hfront, List.filterMap_append, List.filterMap_append, hback, List.append_nil,
    filterMap_ofSegment? h]
  split
  · rfl
  · split <;> rfl

theorem head?_joinSlash_ne_slash {names : List String} (h : ∀ s ∈ names, IsName s) :
    (joinSlash names).toList.head? ≠ some '/' := by
  cases names with
  | nil => simp [joinSlash]
  | cons name names =>
    have hname := h name List.mem_cons_self
    obtain ⟨c, s, hchars⟩ := List.exists_cons_of_ne_nil (mt String.toList_eq_nil_iff.1 hname.ne_empty)
    have hc : c ≠ '/' := by
      rintro rfl
      exact hname.no_slash (by simp [hchars])
    by_cases hnil : names = []
    · simp [hnil, joinSlash, hchars, hc]
    · simp [toList_joinSlash_cons hnil, hchars, hc]

/-- Names that are joined to a path are its last components. -/
theorem components_join {root : Path} {names : List String} (hroot : root.text ≠ "")
    (hne : names ≠ []) (h : ∀ s ∈ names, IsName s) :
    (root.join ⟨joinSlash names⟩).components = root.components ++ names.map .name := by
  have hrelative : (⟨joinSlash names⟩ : Path).isAbsolute = false :=
    beq_false_of_ne (head?_joinSlash_ne_slash h)
  have hchars : root.text.toList ≠ [] := mt String.toList_eq_nil_iff.1 hroot
  rw [join, hrelative, Bool.false_or, if_neg (by simpa using hroot)]
  split
  · rename_i hlast
    obtain ⟨t, ht⟩ := List.getLast?_eq_some_iff.1 (beq_iff_eq.1 hlast)
    exact components_append (by simp [ht]) (Or.inr ht) hchars hne h
  · exact components_append (by simp) (Or.inl rfl) hchars hne h

theorem below?_eq_some_iff {p dir : Path} {cs : List Component} :
    p.below? dir = some cs ↔ p.components = dir.components ++ cs := by
  unfold below?
  split
  · rename_i hfront
    obtain ⟨back, hback⟩ := List.isPrefixOf_iff_prefix.1 hfront
    rw [← hback, List.drop_left]
    simp
  · rename_i hfront
    exact iff_of_false (fun h => by cases h) fun h => hfront (by simp [h])

theorem below?_join {root : Path} {names : List String} (hroot : root.text ≠ "")
    (hne : names ≠ []) (h : ∀ s ∈ names, IsName s) :
    (root.join ⟨joinSlash names⟩).below? root = some (names.map .name) :=
  below?_eq_some_iff.2 (components_join hroot hne h)

/-- The absolute path of names. -/
theorem components_absolute {names : List String} (h : ∀ s ∈ names, IsName s) :
    (Disk.absolute names).components = .root :: names.map .name := by
  by_cases hnil : names = []
  · subst hnil
    decide
  · exact components_append (q := ⟨"/"⟩) (t := []) (by simp [Disk.absolute]) (Or.inr (by simp)) (by simp) hnil h

/-! ## File names and extensions -/

theorem ofSegment?_eq_name_iff {s name : String} :
    Component.ofSegment? s = some (.name name) ↔ (s ≠ "" ∧ s ≠ "." ∧ s ≠ "..") ∧ s = name := by
  unfold Component.ofSegment?
  by_cases hplain : s = "" ∨ s = "."
  · rw [if_pos (by simpa using hplain)]
    tauto
  · rw [if_neg (by simpa using hplain)]
    rw [not_or] at hplain
    by_cases hdots : s = ".." <;> simp [hplain, hdots]

theorem mem_segments_of_mem_components {p : Path} {c : Component}
    (h : c ∈ p.components) (hroot : c ≠ .root) (hcurrent : c ≠ .current) :
    ∃ s ∈ p.segments, Component.ofSegment? s = some c := by
  rw [← List.mem_filterMap]
  rw [components] at h
  split at h
  · exact (List.mem_cons.1 h).resolve_left hroot
  · split at h
    · exact (List.mem_cons.1 h).resolve_left hcurrent
    · exact h

/-- Only a name is a component that is called something. -/
theorem isName_of_mem_components {p : Path} {name : String}
    (h : Component.name name ∈ p.components) : IsName name := by
  obtain ⟨s, hs, hname⟩ := mem_segments_of_mem_components h nofun nofun
  obtain ⟨⟨hempty, hdot, hdots⟩, rfl⟩ := ofSegment?_eq_name_iff.1 hname
  obtain ⟨seg, hseg, rfl⟩ := List.mem_map.1 hs
  refine ⟨hempty, hdot, hdots, ?_⟩
  rw [String.toList_ofList]
  exact no_slash_of_mem_splitSlash hseg

/-- Only a name is the last component of a path. -/
theorem isName_of_fileName? {p : Path} {name : String} (h : p.fileName? = some name) :
    IsName name := by
  refine isName_of_mem_components (p := p) ?_
  unfold fileName? at h
  split at h
  · rename_i hlast
    cases h
    exact List.mem_of_getLast? hlast
  · cases h

/-- Every name is the last component of a path. -/
theorem fileName?_of_isName {name : String} (h : IsName name) :
    (⟨name⟩ : Path).fileName? = some name := by
  have hsegments : (⟨name⟩ : Path).segments = [name] := by
    rw [segments, splitSlash_eq_singleton h.no_slash]
    simp
  have hrelative : (⟨name⟩ : Path).isAbsolute = false := by
    refine beq_false_of_ne fun hhead => h.no_slash ?_
    exact List.mem_of_mem_head? hhead
  have hcomponents : (⟨name⟩ : Path).components = [.name name] := by
    simp [components, hsegments, hrelative, ofSegment?_name h, h.ne_dot]
  rw [fileName?, hcomponents]
  rfl

theorem extensionOf?_append {stem ext : List Char} (hstem : stem ≠ []) (hext : '.' ∉ ext) :
    extensionOf? (stem ++ '.' :: ext) = some ext := by
  obtain ⟨c, back, hback⟩ := List.exists_cons_of_ne_nil (mt List.reverse_eq_nil_iff.1 hstem)
  have hends : ∀ c ∈ ext.reverse, (c != '.') = true := fun c hc =>
    bne_iff_ne.2 fun heq => hext (heq ▸ List.mem_reverse.1 hc)
  have hreverse : (stem ++ '.' :: ext).reverse = ext.reverse ++ '.' :: c :: back := by
    simp [hback]
  rw [extensionOf?, hreverse, List.dropWhile_append_of_pos hends,
    List.takeWhile_append_of_pos hends]
  simp

/-- An extension is a part of the name without dots. -/
theorem mem_name_of_mem_extensionOf? {name ext : List Char} (h : extensionOf? name = some ext) :
    ∀ c ∈ ext, c ≠ '.' ∧ c ∈ name := by
  unfold extensionOf? at h
  dsimp only at h
  split at h
  · cases h
    intro c hc
    rw [List.mem_reverse] at hc
    have hdot := List.mem_takeWhile_imp hc
    exact ⟨bne_iff_ne.1 hdot, List.mem_reverse.1 ((List.takeWhile_prefix _).subset hc)⟩
  · cases h

/-- There is neither a dot nor a slash in an extension. -/
theorem ne_of_mem_extension? {p : Path} {ext : String} (h : p.extension? = some ext) :
    ∀ c ∈ ext.toList, c ≠ '.' ∧ c ≠ '/' := by
  obtain ⟨name, hname, hext⟩ := Option.bind_eq_some_iff.1 h
  obtain ⟨chars, hchars, rfl⟩ := Option.map_eq_some_iff.1 hext
  intro c hc
  rw [String.toList_ofList] at hc
  obtain ⟨hdot, hmem⟩ := mem_name_of_mem_extensionOf? hchars c hc
  exact ⟨hdot, fun heq => (isName_of_fileName? hname).no_slash (heq ▸ hmem)⟩

/-! ## What is shown -/

theorem mem_joinSlash {c : Char} {names : List String} (h : c ∈ (joinSlash names).toList) :
    c = '/' ∨ ∃ s ∈ names, c ∈ s.toList := by
  induction names with
  | nil => simp [joinSlash] at h
  | cons name names ih =>
    by_cases hnil : names = []
    · exact Or.inr ⟨name, List.mem_cons_self, by simpa [hnil, joinSlash] using h⟩
    · rw [toList_joinSlash_cons hnil, List.mem_append, List.mem_cons] at h
      rcases h with h | h | h
      · exact Or.inr ⟨name, List.mem_cons_self, h⟩
      · exact Or.inl h
      · exact (ih h).imp_right fun ⟨s, hs, hc⟩ => ⟨s, List.mem_cons_of_mem _ hs, hc⟩

/-- Names without backslashes are shown as they are. -/
theorem slashed_names {names : List String} (hne : names ≠ []) (h : ∀ s ∈ names, IsName s)
    (hback : ∀ s ∈ names, '\\' ∉ s.toList) : slashed (names.map .name) = joinSlash names := by
  have htexts : ((names.map Component.name).map Component.text).filter (· != ".") = names := by
    rw [List.map_map, List.filter_eq_self.2]
    · simp [Function.comp_def, Component.text]
    · intro text htext
      obtain ⟨s, hs, rfl⟩ := List.mem_map.1 htext
      exact bne_iff_ne.2 (h s hs).ne_dot
  have hempty : (joinSlash names).isEmpty = false := by
    rw [← Bool.not_eq_true, String.isEmpty_iff]
    exact joinSlash_ne_empty hne h
  have hturned : (joinSlash names).toList.map (fun c => if c == '\\' then '/' else c) =
      (joinSlash names).toList := by
    refine (List.map_congr_left fun c hc => ?_).trans (List.map_id _)
    rcases mem_joinSlash hc with rfl | ⟨s, hs, hcs⟩
    · rfl
    · have hne : c ≠ '\\' := fun heq => hback s hs (heq ▸ hcs)
      exact if_neg (mt beq_iff_eq.1 hne)
  rw [slashed, htexts, hempty, hturned]
  exact String.ofList_toList

/-- Names below a root are what the path shows relative to it. -/
theorem relativeTo_of_components {p root : Path} {names : List String} (hne : names ≠ [])
    (h : p.components = root.components ++ names.map .name)
    (hslashes : ∀ s ∈ names, '\\' ∉ s.toList) : p.relativeTo root = joinSlash names := by
  have hnames : ∀ s ∈ names, IsName s := fun s hs =>
    isName_of_mem_components (p := p) (by simp [h, hs])
  rw [relativeTo, below?_eq_some_iff.2 h, Option.getD_some, slashed_names hne hnames hslashes]

theorem relativeTo_join {root : Path} {names : List String} (hroot : root.text ≠ "")
    (hne : names ≠ []) (h : ∀ s ∈ names, IsName s) (hslashes : ∀ s ∈ names, '\\' ∉ s.toList) :
    (root.join ⟨joinSlash names⟩).relativeTo root = joinSlash names :=
  relativeTo_of_components hne (components_join hroot hne h) hslashes

/-! ## The order of paths -/

theorem Component.le_trans {a b c : Component} (hab : a.le b) (hbc : b.le c) : a.le c := by
  cases a <;> cases b <;> cases c <;> simp_all [Component.le, Component.rank]
  exact String.le_trans hab hbc

theorem Component.le_total (a b : Component) : a.le b ∨ b.le a := by
  cases a <;> cases b <;> simp [Component.le, Component.rank]
  exact String.le_total _ _

theorem Component.le_antisymm {a b : Component} (hab : a.le b) (hba : b.le a) : a = b := by
  cases a <;> cases b <;> simp_all [Component.le, Component.rank]
  exact String.le_antisymm hab hba

theorem componentsLe_cons {a b : Component} {as bs : List Component} :
    componentsLe (a :: as) (b :: bs) ↔ a = b ∧ componentsLe as bs ∨ a ≠ b ∧ a.le b := by
  by_cases hab : a = b <;> simp [componentsLe, hab]

theorem componentsLe_trans {as bs cs : List Component} (hab : componentsLe as bs)
    (hbc : componentsLe bs cs) : componentsLe as cs := by
  induction as generalizing bs cs with
  | nil => rfl
  | cons a as ih =>
    cases bs with
    | nil => simp [componentsLe] at hab
    | cons b bs =>
      cases cs with
      | nil => simp [componentsLe] at hbc
      | cons c cs =>
        rw [componentsLe_cons] at *
        rcases hab with ⟨rfl, hab⟩ | ⟨hne, hab⟩ <;> rcases hbc with ⟨rfl, hbc⟩ | ⟨hne', hbc⟩
        · exact Or.inl ⟨rfl, ih hab hbc⟩
        · exact Or.inr ⟨hne', hbc⟩
        · exact Or.inr ⟨hne, hab⟩
        · refine Or.inr ⟨?_, Component.le_trans hab hbc⟩
          rintro rfl
          exact hne (Component.le_antisymm hab hbc)

theorem componentsLe_total (as bs : List Component) : componentsLe as bs ∨ componentsLe bs as := by
  induction as generalizing bs with
  | nil => exact Or.inl rfl
  | cons a as ih =>
    cases bs with
    | nil => exact Or.inr rfl
    | cons b bs =>
      rw [componentsLe_cons, componentsLe_cons]
      by_cases hab : a = b
      · subst hab
        simpa using ih bs
      · simpa [hab, Ne.symm hab] using Component.le_total a b

theorem componentsLe_antisymm {as bs : List Component} (hab : componentsLe as bs)
    (hba : componentsLe bs as) : as = bs := by
  induction as generalizing bs with
  | nil =>
    cases bs with
    | nil => rfl
    | cons b bs => simp [componentsLe] at hba
  | cons a as ih =>
    cases bs with
    | nil => simp [componentsLe] at hab
    | cons b bs =>
      rw [componentsLe_cons] at hab hba
      rcases hab with ⟨rfl, hab⟩ | ⟨hne, hab⟩ <;> rcases hba with ⟨heq, hba⟩ | ⟨hne', hba⟩
      · rw [ih hab hba]
      · exact absurd rfl hne'
      · exact absurd heq.symm hne
      · exact absurd (Component.le_antisymm hab hba) hne

/-- Below a root, different names make different paths, also for the order. -/
theorem eq_of_join_le_join {root : Path} {names names' : List String} (hroot : root.text ≠ "") (hne : names ≠ [])
    (hne' : names' ≠ []) (h : ∀ s ∈ names, IsName s) (h' : ∀ s ∈ names', IsName s)
    (hle : (root.join ⟨joinSlash names⟩).le (root.join ⟨joinSlash names'⟩) = true)
    (hge : (root.join ⟨joinSlash names'⟩).le (root.join ⟨joinSlash names⟩) = true) :
    names = names' := by
  have heq := componentsLe_antisymm hle hge
  rw [components_join hroot hne h, components_join hroot hne' h',
    List.append_cancel_left_eq] at heq
  exact map_name_injective heq

/-- Where the order tells all paths apart, it does not matter whether some are left out
before or after they are sorted. -/
theorem filter_mergeSort {paths : List Path} (keep : Path → Bool)
    (hanti : ∀ p ∈ paths, ∀ q ∈ paths, p.le q = true → q.le p = true → p = q) :
    (paths.mergeSort Path.le).filter keep = (paths.filter keep).mergeSort Path.le := by
  have hsorted : ∀ l : List Path, (l.mergeSort Path.le).Pairwise fun p q => p.le q = true :=
    List.pairwise_mergeSort (fun _ _ _ => componentsLe_trans) fun p q => by
      simpa [Path.le] using componentsLe_total p.components q.components
  have hperm : ((paths.mergeSort Path.le).filter keep).Perm
      ((paths.filter keep).mergeSort Path.le) :=
    ((List.mergeSort_perm paths _).filter keep).trans (List.mergeSort_perm _ _).symm
  refine hperm.eq_of_pairwise (fun p q hp hq => ?_) ((hsorted paths).filter _) (hsorted _)
  rw [List.mem_filter, List.mem_mergeSort] at hp
  rw [List.mem_mergeSort, List.mem_filter] at hq
  exact hanti p hp.1 q hq.1

end Path

end LineCensus
