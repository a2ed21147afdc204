import LineCensus.Proofs.Names

/-!
# The names of a tree

What holds of every name in a tree holds of the names on the way to each of its nodes. A
path that can be followed to its end leads to a node that is there.
-/
namespace LineCensus

namespace Node

/-- Every name in the tree below a node has a property. -/
inductive AllNames (P : String → Prop) : Node → Prop
  | file (bytes : List UInt8) : AllNames P (.file bytes)
  | link (target : String) : AllNames P (.link target)
  | locked (cause : IoFailure) : AllNames P (.locked cause)
  | sink : AllNames P .sink
  | directory {children : List (String × Node)} (names : ∀ c ∈ children, P c.1)
      (nodes : ∀ c ∈ children, AllNames P c.2) : AllNames P (.directory children)

theorem AllNames.imp {P Q : String → Prop} (h : ∀ name, P name → Q name) {n : Node}
    (hn : n.AllNames P) : n.AllNames Q := by
  induction hn with
  | file bytes => exact .file bytes
  | link target => exact .link target
  | locked cause => exact .locked cause
  | sink => exact .sink
  | directory names _ ih => exact .directory (fun c hc => h _ (names c hc)) ih

theorem mem_of_child? {name : String} {n m : Node} (h : n.child? name = some m) :
    ∃ children, n = .directory children ∧ (name, m) ∈ children := by
  cases n with
  | directory children =>
    obtain ⟨front, back, hsplit, -⟩ := List.lookup_eq_some_iff.1 h
    exact ⟨children, rfl, by simp [hsplit]⟩
  | file bytes => cases h
  | link target => cases h
  | locked cause => cases h
  | sink => cases h

theorem AllNames.get? {P : String → Prop} {n m : Node} {names : List String} (h : n.AllNames P)
    (hget : n.get? names = some m) : (∀ s ∈ names, P s) ∧ m.AllNames P := by
  induction names generalizing n with
  | nil =>
    cases hget
    exact ⟨by simp, h⟩
  | cons name names ih =>
    obtain ⟨c, hc, hrest⟩ := Option.bind_eq_some_iff.1 hget
    obtain ⟨children, rfl, hmem⟩ := mem_of_child? hc
    cases h with
    | directory hnames hnodes =>
      obtain ⟨hnamesRest, hm⟩ := ih (hnodes _ hmem) hrest
      exact ⟨List.forall_mem_cons.2 ⟨hnames _ hmem, hnamesRest⟩, hm⟩

theorem get?_append (names more : List String) (n : Node) :
    n.get? (names ++ more) = (n.get? names).bind (get? more) := by
  induction names generalizing n with
  | nil => rfl
  | cons name names ih =>
    rw [List.cons_append, get?, get?, Option.bind_assoc]
    congr 1
    funext c
    exact ih c

/-- Only a directory has something below it. -/
theorem isDirectory_of_get?_append {names more : List String} {n m : Node} (hne : more ≠ [])
    (h : n.get? (names ++ more) = some m) :
    ∃ k, n.get? names = some k ∧ k.isDirectory = true := by
  rw [get?_append] at h
  obtain ⟨k, hk, hm⟩ := Option.bind_eq_some_iff.1 h
  obtain ⟨name, more, rfl⟩ := List.exists_cons_of_ne_nil hne
  obtain ⟨c, hc, -⟩ := Option.bind_eq_some_iff.1 hm
  obtain ⟨children, rfl, -⟩ := mem_of_child? hc
  exact ⟨_, hk, rfl⟩

theorem isSome_get?_of_append {names more : List String} {n : Node}
    (h : (n.get? (names ++ more)).isSome) : (n.get? names).isSome := by
  rw [get?_append] at h
  exact Option.isSome_of_isSome_bind h

theorem get?_concat {names : List String} {name : String} {n m : Node}
    {children : List (String × Node)} (h : n.get? names = some (.directory children))
    (hm : children.lookup name = some m) : n.get? (names ++ [name]) = some m := by
  rw [get?_append, h, Option.bind_some]
  exact Option.bind_eq_some_iff.2 ⟨m, hm, rfl⟩

end Node

namespace Disk

/-- A path that is followed to its end leads to a node. -/
theorem isSome_get?_of_follow {root : Node} {purpose : Purpose} {links : ℕ}
    {place names : List String} {todo : List Segment}
    (h : follow root purpose links place todo = .ok (.taken names))
    (hplace : todo = [] → (root.get? place).isSome) : (root.get? names).isSome := by
  fun_induction follow root purpose links place todo with
  | case1 links place =>
    cases h
    exact hplace rfl
  | case2 links place rest children hdir ih => exact ih h fun _ => by simp [hdir]
  | case3 links place rest children hdir ih => exact ih h fun _ => by simp [hdir]
  | case4 links place rest children hdir ih =>
    have hplace : (root.get? (place.dropLast ++ place.drop (place.length - 1))).isSome := by
      rw [List.dropLast_eq_take, List.take_append_drop, hdir]
      rfl
    exact ih h fun _ => Node.isSome_get?_of_append hplace
  | case9 links place rest children hdir name isLast _ _ target hlink _ =>
    cases h
    rw [Node.get?_concat hdir hlink]
    rfl
  | case11 place rest children hdir name isLast _ _ target hlink _ links path ih =>
    refine ih h fun hnil => ?_
    split
    · rfl
    · simp [hdir]
  | case12 links place rest children hdir name isLast _ _ m _ hm _ =>
    cases h
    rw [Node.get?_concat hdir hm]
    rfl
  | case13 links place rest children hdir name isLast _ _ m _ hm _ ih =>
    refine ih h fun _ => ?_
    rw [Node.get?_concat hdir hm]
    rfl
  | _ => cases h

theorem trace_of_resolve {d : Disk} {p : Path} {names : List String}
    (h : d.resolve p = .ok names) : d.trace .reach p = .ok (.taken names) := by
  unfold resolve locate at h
  split at h
  · cases h
  · cases hplace : d.trace .reach p with
    | error cause =>
      rw [hplace] at h
      cases h
    | ok place =>
      rw [hplace] at h
      cases place with
      | taken found =>
        cases h
        rfl
      | free directory name => cases h

theorem text_ne_empty_of_resolve {d : Disk} {p : Path} {names : List String}
    (h : d.resolve p = .ok names) : p.text ≠ "" := by
  intro hempty
  have htrace := trace_of_resolve h
  rw [trace, hempty] at htrace
  split at htrace <;> cases htrace

/-- A path that leads to a node leads there without links too. -/
theorem canonicalize_of_resolve {d : Disk} {p : Path} {names : List String}
    (h : d.resolve p = .ok names) : d.canonicalize p = .ok (absolute names) := by
  rw [canonicalize, trace_of_resolve h]
  rfl

/-- The names that a path leads to are those of a node. -/
theorem isSome_get?_of_resolve {d : Disk} {p : Path} {names : List String}
    (h : d.resolve p = .ok names) : (d.root.get? names).isSome := by
  have htrace := trace_of_resolve h
  unfold trace at htrace
  split at htrace
  · cases htrace
  · split at htrace
    · cases htrace
    · refine isSome_get?_of_follow htrace fun hway => ?_
      have hsegments : p.segments = [] := List.map_eq_nil_iff.1 hway
      exact absurd (List.map_eq_nil_iff.1 hsegments) (splitSlash_ne_nil _)

theorem exists?_of_resolve {d : Disk} {p : Path} {names : List String}
    (h : d.resolve p = .ok names) : d.exists? p = true := by
  rw [exists?, node?, h]
  exact isSome_get?_of_resolve h

/-- The names that a path leads to have the property that all names of the tree have. -/
theorem names_of_resolve {d : Disk} {P : String → Prop} (hd : d.root.AllNames P) {p : Path}
    {names : List String} (h : d.resolve p = .ok names) : ∀ s ∈ names, P s := by
  obtain ⟨n, hn⟩ := Option.isSome_iff_exists.1 (isSome_get?_of_resolve h)
  exact (hd.get? hn).1

/-! ## Ways without links -/

theorem follow_into {root : Node} {links : ℕ} {place : List String} {name : String}
    {rest : List Segment} {children : List (String × Node)} {m : Node}
    (hdir : root.get? place = some (.directory children)) (hm : children.lookup name = some m)
    (hlink : ∀ target, m ≠ .link target) (hlength : name.utf8ByteSize ≤ maxName) :
    follow root .reach links place (.into name :: rest) =
      follow root .reach links (place ++ [name]) rest := by
  rw [follow, hdir]
  cases m with
  | link target => exact absurd rfl (hlink target)
  | _ => simp [hm, Nat.not_lt.2 hlength]

/-- Names that lead to a node are followed to it. -/
theorem follow_names {root m : Node} {links : ℕ} (place names : List String)
    (hm : root.get? (place ++ names) = some m) (hlink : ∀ target, m ≠ .link target)
    (hlength : ∀ s ∈ names, s.utf8ByteSize ≤ maxName) :
    follow root .reach links place (names.map .into) = .ok (.taken (place ++ names)) := by
  induction names generalizing place with
  | nil => simp [follow]
  | cons name names ih =>
    obtain ⟨hname, hnames⟩ := List.forall_mem_cons.1 hlength
    rw [Node.get?_append] at hm
    obtain ⟨n, hn, hbelow⟩ := Option.bind_eq_some_iff.1 hm
    obtain ⟨c, hc, hrest⟩ := Option.bind_eq_some_iff.1 hbelow
    obtain ⟨children, rfl, -⟩ := Node.mem_of_child? hc
    have hplace := Node.get?_concat hn hc
    have hchild : ∀ target, c ≠ .link target := by
      rintro target rfl
      cases names with
      | nil =>
        cases hrest
        exact hlink target rfl
      | cons name names => cases hrest
    rw [List.map_cons, follow_into hn hc hchild hname,
      ih _ (by rw [Node.get?_append, hplace]; exact hrest) hnames]
    simp

theorem ofText_of_isName {s : String} (h : IsName s) : Segment.ofText s = .into s := by
  simp [Segment.ofText, h.ne_empty, h.ne_dot, h.ne_dots]

/-- The absolute path of the names that lead to a node leads there. -/
theorem resolve_absolute {d : Disk} (names : List String) {m : Node}
    (hm : d.root.get? names = some m) (hlink : ∀ target, m ≠ .link target) (hne : names ≠ [])
    (h : ∀ s ∈ names, IsName s) (hlengths : ∀ s ∈ names, s.utf8ByteSize ≤ maxName)
    (hnul : (absolute names).hasNul = false)
    (hlength : (absolute names).text.utf8ByteSize ≤ maxPath) :
    d.resolve (absolute names) = .ok names := by
  have hchars : (absolute names).text.toList = '/' :: (joinSlash names).toList := by
    simp [absolute]
  have hway : (absolute names).way = .nothing :: names.map .into := by
    rw [Path.way, Path.segments, hchars, splitSlash,
      splitSlash_joinSlash hne fun s hs => (h s hs).no_slash, List.map_cons, List.map_cons,
      List.map_map, List.map_map]
    refine congrArg₂ _ rfl (List.map_congr_left fun s hs => ?_)
    simpa using ofText_of_isName (h s hs)
  have habsolute : (absolute names).isAbsolute = true := by simp [Path.isAbsolute, hchars]
  have hempty : (absolute names).text.isEmpty = false := by simp [absolute]
  have hbehind : d.root.get? ([] ++ names) = some m := hm
  obtain ⟨k, hk, hdir⟩ := Node.isDirectory_of_get?_append hne hbehind
  cases hk
  have hroot : follow d.root .reach maxLinks [] (.nothing :: names.map .into) =
      follow d.root .reach maxLinks [] (names.map .into) := by
    cases hnode : d.root with
    | directory children => rw [follow, Node.get?]
    | _ => simp [hnode, Node.isDirectory] at hdir
  rw [resolve, locate, if_neg (by simp [Nat.not_lt.2 hlength]), trace, hnul, hempty, habsolute,
    hway]
  simp only [Bool.false_eq_true, if_false, if_true]
  rw [hroot, follow_names [] names hm hlink hlengths]
  rfl

end Disk

end LineCensus
