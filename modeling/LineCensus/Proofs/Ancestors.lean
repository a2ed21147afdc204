import LineCensus.Proofs.Names
import LineCensus.Proofs.Text.Slices
import Mathlib.Data.List.Infix

/-!
# The directories above a path

What a path shows relative to a root is the names below the root. The directories that hold
it are then the beginnings of these names, the longest first, and the dot. For any text at all
the search from slash to slash comes to an end: each directory is shorter than the one before
it, so none is listed twice, and the dot is the last.
-/
namespace LineCensus

open Text

/-! ## The last slash -/

/-- A text without slashes, or one that a last slash cuts in two. -/
theorem no_slash_or_exists_last (s : List Char) :
    '/' ∉ s ∨ ∃ t name, s = t ++ '/' :: name ∧ '/' ∉ name := by
  by_cases h : '/' ∈ s
  · obtain ⟨back, front, hs, hback⟩ := List.eq_append_cons_of_mem (List.mem_reverse.2 h)
    refine .inr ⟨front.reverse, back.reverse, ?_, by simpa using hback⟩
    rw [← List.reverse_reverse s, hs]
    simp
  · exact .inl h

theorem bne_slash_of_mem_reverse {name : List Char} (h : '/' ∉ name) :
    ∀ c ∈ name.reverse, (c != '/') = true := fun _ hc =>
  bne_iff_ne.2 fun heq => h (heq ▸ List.mem_reverse.1 hc)

theorem parentDir_of_no_slash {s : List Char} (h : '/' ∉ s) : parentDir s = ['.'] := by
  rw [parentDir, parent?, List.dropWhile_eq_nil_iff.2 (bne_slash_of_mem_reverse h)]
  rfl

/-- What stands in front of the last slash is the directory, if that is anything. -/
theorem parentDir_append {name : List Char} (h : '/' ∉ name) (s : List Char) :
    parentDir (s ++ '/' :: name) = if s = [] then ['.'] else s := by
  have hcut : (s ++ '/' :: name).reverse.dropWhile (· != '/') = '/' :: s.reverse := by
    rw [List.reverse_append, List.reverse_cons, List.append_assoc,
      List.dropWhile_append_of_pos (bne_slash_of_mem_reverse h)]
    rfl
  rw [parentDir, parent?, hcut]
  cases s using List.reverseRecOn with
  | nil => rfl
  | append_singleton s c => simp

/-! ## From one directory to the next -/

theorem parentDir_of_parent? {s t : List Char} (h : parent? s = some t) : parentDir s = t := by
  rw [parentDir, h, Option.getD_some]

theorem parentDir_of_parent?_eq_none {s : List Char} (h : parent? s = none) :
    parentDir s = ['.'] := by
  rw [parentDir, h, Option.getD_none]

theorem selfAndAncestors_of_top {s : List Char} (hs : s = [] ∨ s = ['.']) :
    selfAndAncestors s = [['.']] := by
  rw [selfAndAncestors, if_pos hs]

theorem selfAndAncestors_of_not_top {s : List Char} (hs : ¬ (s = [] ∨ s = ['.'])) :
    selfAndAncestors s = s :: selfAndAncestors (parentDir s) := by
  rw [selfAndAncestors, if_neg hs]
  split
  · rename_i hnone
    rw [parentDir_of_parent?_eq_none hnone, selfAndAncestors_of_top (.inr rfl)]
  · rename_i t ht
    rw [parentDir_of_parent? ht]

/-- What holds at the top, and of each directory if it holds of the one that holds it, holds of
every text. -/
theorem parentDir_induction {P : List Char → Prop} (top : ∀ s, s = [] ∨ s = ['.'] → P s)
    (up : ∀ s, ¬ (s = [] ∨ s = ['.']) → P (parentDir s) → P s) (s : List Char) : P s := by
  fun_induction selfAndAncestors s with
  | case1 s hs => exact top s hs
  | case2 s hs hnone =>
    exact up s hs (parentDir_of_parent?_eq_none hnone ▸ top ['.'] (.inr rfl))
  | case3 s hs t ht _ ih => exact up s hs (parentDir_of_parent? ht ▸ ih)

theorem getLast?_selfAndAncestors (s : List Char) :
    (selfAndAncestors s).getLast? = some ['.'] := by
  induction s using parentDir_induction with
  | top s hs => rw [selfAndAncestors_of_top hs, List.getLast?_singleton]
  | up s hs ih => rw [selfAndAncestors_of_not_top hs, List.getLast?_cons, ih, Option.getD_some]

/-- What holds the directory of a text is shorter than the text. -/
theorem length_lt_of_mem_selfAndAncestors {s t u : List Char} (h : parent? s = some t)
    (hu : u ∈ selfAndAncestors t) : u.length < s.length := by
  have hpos : 0 < t.length :=
    List.length_pos_iff.2 (parentDir_of_parent? h ▸ parentDir_ne_nil s)
  have hslash : t.length + 1 ≤ s.length := by simpa using (prefix_of_parent? h).length_le
  rcases length_of_mem_selfAndAncestors hu with rfl | hle
  · -- the dot is shorter than a slash with something in front of it
    rw [List.length_singleton]
    omega
  · omega

/-- Each directory is shorter than the one before it, the dot apart. -/
theorem pairwise_length_selfAndAncestors (s : List Char) :
    (selfAndAncestors s).dropLast.Pairwise fun t u => u.length < t.length := by
  induction s using parentDir_induction with
  | top s hs => simp [selfAndAncestors_of_top hs]
  | up s hs ih =>
    have hne : selfAndAncestors (parentDir s) ≠ [] :=
      List.ne_nil_of_mem (dot_mem_selfAndAncestors _)
    rw [selfAndAncestors_of_not_top hs, List.dropLast_cons_of_ne_nil hne]
    refine List.pairwise_cons.2 ⟨fun u hu => ?_, ih⟩
    cases hparent : parent? s with
    | none =>
      rw [parentDir_of_parent?_eq_none hparent, selfAndAncestors_of_top (.inr rfl)] at hu
      exact absurd hu List.not_mem_nil
    | some t =>
      rw [parentDir_of_parent? hparent] at hu
      exact length_lt_of_mem_selfAndAncestors hparent (List.mem_of_mem_dropLast hu)

/-! ## The search by columns -/

/-- The column of the last slash. -/
def lastSlash? : List Char → Option ℕ
  | [] => none
  | c :: s =>
    match lastSlash? s with
    | some column => some (c.utf8Size + column)
    | none => if c = '/' then some 0 else none

/-- The directory of a relative path, as a slice that ends at the last slash. -/
def parentByColumn? (s : List Char) : Option (List Char) :=
  match lastSlash? s with
  | some column => if 0 < column then slice? 0 column s else some ['.']
  | none => some ['.']

/-- The directories found so far, and the one looked at. -/
structure Climb where
  dirs : List (List Char) := []
  current : List Char
deriving DecidableEq, Repr

/-- A directory that is neither empty nor the dot is listed, and the one that holds it comes
next. -/
def climbTurn? (c : Climb) : Option (Turn Climb (List (List Char))) :=
  if c.current ≠ ['.'] ∧ c.current ≠ [] then do
    let parent ← parentByColumn? c.current
    return .next ⟨c.dirs ++ [c.current], parent⟩
  else return .last (c.dirs ++ [['.']])

/-- A directory and all those that hold it, found from slash to slash. -/
noncomputable def ancestorsByColumns? (s : List Char) : Option (List (List Char)) :=
  loop climbTurn? { current := s }

theorem lastSlash?_of_no_slash {s : List Char} (h : '/' ∉ s) : lastSlash? s = none := by
  induction s with
  | nil => rfl
  | cons c s ih =>
    rw [List.mem_cons, not_or] at h
    rw [lastSlash?, ih h.2]
    exact if_neg (Ne.symm h.1)

theorem lastSlash?_append {name : List Char} (h : '/' ∉ name) (s : List Char) :
    lastSlash? (s ++ '/' :: name) = some (byteLength s) := by
  induction s with
  | nil =>
    rw [List.nil_append, lastSlash?, lastSlash?_of_no_slash h]
    rfl
  | cons c s ih =>
    rw [List.cons_append, lastSlash?, ih, byteLength_cons]

/-- The slice that a directory is exists. -/
theorem parentByColumn?_eq (s : List Char) : parentByColumn? s = some (parentDir s) := by
  rcases no_slash_or_exists_last s with h | ⟨t, name, rfl, h⟩
  · rw [parentByColumn?, lastSlash?_of_no_slash h, parentDir_of_no_slash h]
  · have hslice : slice? 0 (byteLength t) (t ++ '/' :: name) = some t :=
      slice?_byteLength [] t ('/' :: name)
    rw [parentByColumn?, lastSlash?_append h, parentDir_append h]
    by_cases ht : t = []
    · simp [ht]
    · simp only [byteLength_pos ht, if_true, if_neg ht, hslice]

theorem climbTurn?_next {s : List Char} (hs : ¬ (s = [] ∨ s = ['.'])) (dirs : List (List Char)) :
    climbTurn? ⟨dirs, s⟩ = some (.next ⟨dirs ++ [s], parentDir s⟩) := by
  rw [not_or] at hs
  rw [climbTurn?, if_pos ⟨hs.2, hs.1⟩, parentByColumn?_eq]
  rfl

theorem climbTurn?_last {s : List Char} (hs : s = [] ∨ s = ['.']) (dirs : List (List Char)) :
    climbTurn? ⟨dirs, s⟩ = some (.last (dirs ++ [['.']])) := by
  rcases hs with rfl | rfl <;> rfl

/-- From any directory on the search comes to an end. -/
theorem loop_climbTurn? (dirs : List (List Char)) (s : List Char) :
    loop climbTurn? ⟨dirs, s⟩ = some (dirs ++ selfAndAncestors s) := by
  induction s using parentDir_induction generalizing dirs with
  | top s hs => rw [loop_of_last (climbTurn?_last hs dirs), selfAndAncestors_of_top hs]
  | up s hs ih =>
    rw [loop_of_next (climbTurn?_next hs dirs), ih, selfAndAncestors_of_not_top hs,
      List.append_assoc]
    rfl

/-! ## The directories of names -/

theorem parentDir_joinSlash {dirs : List String} {file : String} (hdirs : ∀ s ∈ dirs, IsName s)
    (hfile : IsName file) :
    parentDir (joinSlash (dirs ++ [file])).toList =
      if dirs = [] then ['.'] else (joinSlash dirs).toList := by
  by_cases hne : dirs = []
  · subst hne
    rw [if_pos rfl, parentDir_of_no_slash]
    simpa [joinSlash] using hfile.no_slash
  · have hchars := mt String.toList_eq_nil_iff.1 (joinSlash_ne_empty hne hdirs)
    rw [toList_joinSlash_concat hne, parentDir_append hfile.no_slash, if_neg hchars, if_neg hne]

/-- The directories that hold names are the beginnings of the names in front. -/
theorem selfAndAncestors_parentDir {dirs : List String} {file : String}
    (hdirs : ∀ s ∈ dirs, IsName s) (hfile : IsName file) :
    selfAndAncestors (parentDir (joinSlash (dirs ++ [file])).toList) =
      dirs.inits.tail.reverse.map (fun front => (joinSlash front).toList) ++ [['.']] := by
  rw [parentDir_joinSlash hdirs hfile]
  -- the search takes the names off from the back
  induction dirs using List.reverseRecOn generalizing file with
  | nil => simp [selfAndAncestors]
  | append_singleton dirs dir ih =>
    obtain ⟨hfront, hdir⟩ := List.forall_mem_append.1 hdirs
    have hlast : IsName dir := hdir dir (List.mem_singleton_self dir)
    have hne : dirs ++ [dir] ≠ [] := by simp
    have hnotTop : ¬ ((joinSlash (dirs ++ [dir])).toList = [] ∨
        (joinSlash (dirs ++ [dir])).toList = ['.']) := by
      rw [not_or]
      exact ⟨mt String.toList_eq_nil_iff.1 (joinSlash_ne_empty hne hdirs),
        fun heq => joinSlash_ne_dot hne hdirs (String.toList_inj.1 heq)⟩
    have hinits : (dirs ++ [dir]).inits.tail = dirs.inits.tail ++ [dirs ++ [dir]] := by
      rw [List.inits_append]
      cases dirs <;> simp
    rw [if_neg hne, selfAndAncestors_of_not_top hnotTop, parentDir_joinSlash hfront hlast,
      ih hfront hlast, hinits]
    simp

/-- A path whose components below a root are the names of some directories and of a file is
shown as these names with slashes between them. The directories that hold it are the
beginnings of the directories' names, from the longest to the shortest, and the dot. For any
text the search for its directories takes only slices that exist and ends with all of them:
none is listed twice, each but the dot is shorter than those before it, and the dot is the
last. -/
theorem ancestors_of_path_below :
    (∀ (p root : Path) (dirs : List String) (file : String),
      p.components = root.components ++ (dirs ++ [file]).map .name →
      (∀ s ∈ dirs ++ [file], '\\' ∉ s.toList) →
      p.relativeTo root = joinSlash (dirs ++ [file]) ∧
        selfAndAncestors (parentDir (p.relativeTo root).toList) =
          dirs.inits.tail.reverse.map (fun front => (joinSlash front).toList) ++ [['.']]) ∧
      ∀ s, ancestorsByColumns? s = some (selfAndAncestors s) ∧
        (selfAndAncestors s).Nodup ∧
        ((selfAndAncestors s).dropLast.Pairwise fun t u => u.length < t.length) ∧
        (selfAndAncestors s).getLast? = some ['.'] := by
  refine ⟨fun p root dirs file hbelow hslashes => ?_, fun s => ⟨loop_climbTurn? [] s,
    nodup_selfAndAncestors s, pairwise_length_selfAndAncestors s, getLast?_selfAndAncestors s⟩⟩
  have hnames : ∀ s ∈ dirs ++ [file], IsName s := fun s hs => by
    refine Path.isName_of_mem_components (p := p) ?_
    rw [hbelow]
    exact List.mem_append_right _ (List.mem_map_of_mem hs)
  obtain ⟨hdirs, hfile⟩ := List.forall_mem_append.1 hnames
  have hshown := Path.relativeTo_of_components (by simp) hbelow hslashes
  rw [hshown]
  exact ⟨rfl, selfAndAncestors_parentDir hdirs (hfile file (List.mem_singleton_self file))⟩

/-- Dots and double slashes of a path do not show. -/
theorem ancestors_of_path_below_dots :
    (⟨"./p//é/./b/a.rs"⟩ : Path).components =
        (⟨"./p/"⟩ : Path).components ++ (["é", "b"] ++ ["a.rs"]).map .name ∧
      (∀ s ∈ ["é", "b"] ++ ["a.rs"], '\\' ∉ s.toList) ∧
      (⟨"./p//é/./b/a.rs"⟩ : Path).relativeTo ⟨"./p/"⟩ = "é/b/a.rs" ∧
      selfAndAncestors "é/b".toList = ["é/b".toList, "é".toList, ".".toList] := by
  have hbelow : (⟨"./p//é/./b/a.rs"⟩ : Path).components =
      (⟨"./p/"⟩ : Path).components ++ (["é", "b"] ++ ["a.rs"]).map .name := by decide +kernel
  have hslashes : ∀ s ∈ ["é", "b"] ++ ["a.rs"], '\\' ∉ s.toList := by decide +kernel
  obtain ⟨hshown, hdirs⟩ := ancestors_of_path_below.1 _ _ _ _ hbelow hslashes
  have hjoined : joinSlash (["é", "b"] ++ ["a.rs"]) = "é/b/a.rs" := by decide +kernel
  rw [hshown, hjoined] at hdirs
  refine ⟨hbelow, hslashes, hshown.trans hjoined, ?_⟩
  have hparent : parentDir "é/b/a.rs".toList = "é/b".toList := by decide +kernel
  rw [hparent] at hdirs
  exact hdirs.trans (by decide +kernel)

end LineCensus
