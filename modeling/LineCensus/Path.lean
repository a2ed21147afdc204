/-!
# Paths

A path is a text, shown as it was given. Its meaning is a list of components: empty
segments never count, and a single dot counts only at the head of a relative path. There are
no paths here whose bytes are no text.
-/
namespace LineCensus

/-- Cuts a text at every slash; `n` slashes make `n + 1` segments. -/
def splitSlash : List Char → List (List Char)
  | [] => [[]]
  | '/' :: s => [] :: splitSlash s
  | c :: s =>
    match splitSlash s with
    | [] => [[c]]
    | seg :: segs => (c :: seg) :: segs

/-- Joins segments with slashes. -/
def joinSlash (segments : List String) : String := "/".intercalate segments

structure Path where
  text : String
deriving DecidableEq, Repr, Inhabited

namespace Path

inductive Component
  | root
  | current
  | parent
  | name (text : String)
deriving DecidableEq, Repr

namespace Component

def text : Component → String
  | root => "/"
  | current => "."
  | parent => ".."
  | name text => text

/-- Places the four sorts of component in the order in which paths are listed. -/
def rank : Component → Nat
  | root => 0
  | current => 1
  | parent => 2
  | name _ => 3

def le (a b : Component) : Bool :=
  match a, b with
  | name s, name t => decide (s ≤ t)
  | a, b => a.rank ≤ b.rank

/-- What a segment that is neither empty nor a dot stands for. -/
def ofSegment? (s : String) : Option Component :=
  if s == "" || s == "." then none
  else if s == ".." then some parent
  else some (name s)

end Component

def isAbsolute (p : Path) : Bool := p.text.toList.head? == some '/'

def segments (p : Path) : List String := (splitSlash p.text.toList).map String.ofList

def components (p : Path) : List Component :=
  let rest := p.segments.filterMap Component.ofSegment?
  if p.isAbsolute then .root :: rest
  else if p.segments.head? == some "." then .current :: rest
  else rest

/-- Component by component. -/
def componentsLe : List Component → List Component → Bool
  | [], _ => true
  | _ :: _, [] => false
  | a :: as, b :: bs => if a == b then componentsLe as bs else a.le b

/-- The order in which files are listed: component by component. -/
def le (p q : Path) : Bool := componentsLe p.components q.components

/-- The last component, if it is a name. -/
def fileName? (p : Path) : Option String :=
  match p.components.getLast? with
  | some (.name n) => some n
  | _ => none

/-- What follows the last dot of a name; a dot at its head does not count. -/
def extensionOf? (name : List Char) : Option (List Char) :=
  let fromEnd := name.reverse
  match fromEnd.dropWhile (· != '.') with
  | _ :: _ :: _ => some (fromEnd.takeWhile (· != '.')).reverse
  | _ => none

def extension? (p : Path) : Option String :=
  p.fileName?.bind fun n => (extensionOf? n.toList).map String.ofList

/-- The path of `name` seen from the directory `dir`. -/
def join (dir name : Path) : Path :=
  if name.isAbsolute || dir.text.isEmpty then name
  else if dir.text.toList.getLast? == some '/' then ⟨dir.text ++ name.text⟩
  else ⟨dir.text ++ "/" ++ name.text⟩

/-- The path of the directory that holds `p`, by its components. -/
def parentPath? (p : Path) : Option Path :=
  match p.components.reverse with
  | [] => none
  | [.root] => none
  | _ :: rest =>
    let names := (rest.reverse.filter (· != .root)).map Component.text
    some ⟨(if p.isAbsolute then "/" else "") ++ joinSlash names⟩

/-- The components of `p` below `root`, if it lies there. -/
def below? (p root : Path) : Option (List Component) :=
  if root.components.isPrefixOf p.components then
    some (p.components.drop root.components.length)
  else none

/-- Components with slashes between them, backslashes turned round; a dot for none. -/
def slashed (cs : List Component) : String :=
  let joined := joinSlash ((cs.map Component.text).filter (· != "."))
  if joined.isEmpty then "."
  else String.ofList (joined.toList.map fun c => if c == '\\' then '/' else c)

/-- The path below `root` with slashes, a dot for `root` itself. A path outside `root`
is shown whole. -/
def relativeTo (p root : Path) : String := slashed ((p.below? root).getD p.components)

end Path

/-! ## Directories of relative paths -/

/-- The part of a relative path before its last slash, unless that is its first
character. -/
def parent? (s : List Char) : Option (List Char) :=
  match s.reverse.dropWhile (· != '/') with
  | _ :: c :: before => some (c :: before).reverse
  | _ => none

theorem length_of_parent? {s t : List Char} (h : parent? s = some t) :
    t.length < s.length := by
  unfold parent? at h
  split at h
  · rename_i a c before hd
    cases h
    have hs := (List.dropWhile_suffix (l := s.reverse) (· != '/')).length_le
    rw [hd] at hs
    simp only [List.length_cons, List.length_reverse] at hs ⊢
    omega
  · cases h

/-- The part before its last slash is followed by a slash. -/
theorem prefix_of_parent? {s t : List Char} (h : parent? s = some t) : t ++ ['/'] <+: s := by
  unfold parent? at h
  split at h
  · rename_i a c before hd
    cases h
    have ha : a = '/' := by
      have hne : s.reverse.dropWhile (· != '/') ≠ [] := by simp [hd]
      simpa [hd] using List.head_dropWhile_not (· != '/') hne
    have hs := congrArg List.reverse
      (List.takeWhile_append_dropWhile (p := (· != '/')) (l := s.reverse))
    rw [hd, ha, List.reverse_append, List.reverse_reverse, List.reverse_cons] at hs
    exact ⟨_, hs⟩
  · cases h

/-- The directory of a relative path, a dot at the top. -/
def parentDir (s : List Char) : List Char := (parent? s).getD ['.']

theorem parentDir_ne_nil (s : List Char) : parentDir s ≠ [] := by
  unfold parentDir parent?
  split <;> simp

/-- A directory and all those that hold it, up to the dot. -/
def selfAndAncestors (s : List Char) : List (List Char) :=
  if s = [] ∨ s = ['.'] then [['.']]
  else match h : parent? s with
    | none => [s, ['.']]
    | some t =>
      have := length_of_parent? h
      s :: selfAndAncestors t
termination_by s.length

/-- The directories that hold another one have shorter names, the dot apart. -/
theorem length_of_mem_selfAndAncestors {s t : List Char} (h : t ∈ selfAndAncestors s) :
    t = ['.'] ∨ t.length ≤ s.length := by
  fun_induction selfAndAncestors s with
  | case1 s => exact .inl (List.mem_singleton.1 h)
  | case2 s =>
    rcases List.mem_cons.1 h with rfl | h
    · exact .inr (Nat.le_refl _)
    · exact .inl (List.mem_singleton.1 h)
  | case3 s _ u hu _ ih =>
    rcases List.mem_cons.1 h with rfl | h
    · exact .inr (Nat.le_refl _)
    · have hlt := length_of_parent? hu
      exact (ih h).imp_right fun hle => by omega

theorem mem_selfAndAncestors_self {s : List Char} (h : s ≠ []) : s ∈ selfAndAncestors s := by
  unfold selfAndAncestors
  split
  · rename_i hdot
    exact List.mem_singleton.2 (hdot.resolve_left h)
  · split <;> exact List.mem_cons_self

/-- The dot holds every directory. -/
theorem dot_mem_selfAndAncestors (s : List Char) : ['.'] ∈ selfAndAncestors s := by
  fun_induction selfAndAncestors s with
  | case1 s => exact List.mem_singleton_self _
  | case2 s => exact List.mem_cons_of_mem _ (List.mem_singleton_self _)
  | case3 s _ u _ _ ih => exact List.mem_cons_of_mem _ ih

/-- What holds a directory is the directory itself, the dot, or a part of it that a slash
follows. -/
theorem prefix_of_mem_selfAndAncestors {s t : List Char} (h : t ∈ selfAndAncestors s) :
    t = s ∨ t = ['.'] ∨ t ++ ['/'] <+: s := by
  fun_induction selfAndAncestors s with
  | case1 s => exact .inr (.inl (List.mem_singleton.1 h))
  | case2 s =>
    rcases List.mem_cons.1 h with rfl | h
    · exact .inl rfl
    · exact .inr (.inl (List.mem_singleton.1 h))
  | case3 s _ u hu _ ih =>
    have hslash := prefix_of_parent? hu
    rcases List.mem_cons.1 h with rfl | h
    · exact .inl rfl
    · rcases ih h with rfl | hdot | hbegins
      · exact .inr (.inr hslash)
      · exact .inr (.inl hdot)
      · exact .inr (.inr ((hbegins.trans (List.prefix_append u ['/'])).trans hslash))

/-- No directory is listed twice. -/
theorem nodup_selfAndAncestors (s : List Char) : (selfAndAncestors s).Nodup := by
  fun_induction selfAndAncestors s with
  | case1 s => simp
  | case2 s hs => simpa using fun h => hs (.inr h)
  | case3 s hs u hu _ ih =>
    refine List.nodup_cons.2 ⟨fun h => ?_, ih⟩
    have hlt := length_of_parent? hu
    rcases length_of_mem_selfAndAncestors h with h | h
    · exact hs (.inr h)
    · omega

end LineCensus
