import LineCensus.Proofs.Scan.Tree
import LineCensus.Scan.Files

/-!
# What a walk visits

A walk comes to a file by names each of which is visited, with the rules of the directories
on the way. A hidden name is visited only if a rule that says so fits it.
-/
namespace LineCensus.Scan

open Node

/-! ## The way to a file -/

/-- A walk that stands at a node, with `front` behind it, comes to a file by the names in
`rest`. -/
inductive Leads (mode : WalkMode) (d : Disk) (root : List String) :
    (front : List String) → (above : List Level) → Node → (rest : List String) → Prop
  | file {front above} (bytes : List UInt8) : Leads mode d root front above (.file bytes) []
  | locked {front above} (cause : IoFailure) : Leads mode d root front above (.locked cause) []
  | enter {front above children name n rest} (child : (name, n) ∈ children)
      (visited : visits (mode.levels d (root ++ front) above) name n.isDirectory = true)
      (onward : Leads mode d root (front ++ [name])
        ((mode.levels d (root ++ front) above).map (·.enter name)) n rest) :
      Leads mode d root front above (.directory children) (name :: rest)

variable {mode : WalkMode} {d : Disk} {root front names rest : List String} {above : List Level}
  {n : Node}

theorem mem_walkNode_of_leads (h : Leads mode d root front above n rest) :
    front ++ rest ∈ walkNode mode d root front above n := by
  induction h with
  | file bytes => simp [walkNode]
  | locked cause => simp [walkNode]
  | @enter front above children name n rest hchild hvisited _ ih =>
    rw [walkNode, walkChildren_eq_flatMap, List.mem_flatMap]
    refine ⟨(name, n), hchild, ?_⟩
    rw [walkChild, if_pos hvisited]
    simpa using ih

theorem leads_of_mem_walkNode {mode : WalkMode} {d : Disk} {root : List String} :
    ∀ (n : Node) {front names : List String} {above : List Level},
      names ∈ walkNode mode d root front above n →
        ∃ rest, names = front ++ rest ∧ Leads mode d root front above n rest
  | .file bytes, _, _, _, h => ⟨[], by simpa [walkNode] using h, .file bytes⟩
  | .locked cause, _, _, _, h => ⟨[], by simpa [walkNode] using h, .locked cause⟩
  | .link target, _, _, _, h => by simp [walkNode] at h
  | .sink, _, _, _, h => by simp [walkNode] at h
  | .directory children, _, _, _, h => by
    rw [walkNode, walkChildren_eq_flatMap] at h
    obtain ⟨⟨name, m⟩, hchild, hm⟩ := List.mem_flatMap.1 h
    rw [walkChild] at hm
    split at hm
    · rename_i hvisited
      have hsmaller : sizeOf m < sizeOf children := by
        have hpair := List.sizeOf_lt_of_mem hchild
        simp only [Prod.mk.sizeOf_spec] at hpair
        omega
      obtain ⟨rest, rfl, honward⟩ := leads_of_mem_walkNode m hm
      exact ⟨name :: rest, by simp, .enter hchild hvisited honward⟩
    · cases hm

/-- A walk lists the files that it is led to. -/
theorem mem_walk_iff :
    names ∈ walk mode d root ↔ ∃ n, d.root.get? root = some n ∧ Leads mode d root [] [] n names := by
  unfold walk
  cases hn : d.root.get? root with
  | none => simp
  | some n =>
    constructor
    · intro h
      obtain ⟨rest, rfl, hleads⟩ := leads_of_mem_walkNode n h
      exact ⟨n, rfl, hleads⟩
    · rintro ⟨m, hm, hleads⟩
      cases hm
      simpa using mem_walkNode_of_leads hleads

namespace Leads

theorem forall_names (h : Leads mode d root front above n rest) {P : String → Prop} (hn : n.AllNames P) :
    ∀ s ∈ rest, P s := by
  induction h with
  | file bytes => simp
  | locked cause => simp
  | enter hchild _ _ ih =>
    cases hn with
    | directory hnames hnodes =>
      exact List.forall_mem_cons.2 ⟨hnames _ hchild, ih (hnodes _ hchild)⟩

/-- Behind a directory there is a name, and behind a file there is none. -/
theorem isDirectory_eq (h : Leads mode d root front above n rest) :
    n.isDirectory = !rest.isEmpty := by
  cases h <;> rfl

end Leads

/-! ## The files of a scan -/

/-- The paths of the files below a directory. -/
def pathsBelow (mode : WalkMode) (d : Disk) (root : Path) (place : List String) : List Path :=
  (walk mode d place).map fun below => root.join ⟨joinSlash below⟩

theorem accepted_eq_ok_iff {mode : WalkMode} {d : Disk} {filter : Glob.Filter} {root : Path}
    {paths : List Path} :
    accepted d mode filter root = .ok paths ↔
      ∃ place, d.resolve root = .ok place ∧ (d.root.get? place).any Node.isDirectory = true ∧
        paths = ((pathsBelow mode d root place).filter fun p =>
          filter.accepts (p.relativeTo root)).mergeSort Path.le := by
  unfold accepted
  cases d.resolve root with
  | error cause => exact ⟨fun h => (by cases h), fun ⟨_, h, _⟩ => (by cases h)⟩
  | ok place =>
    dsimp only
    split
    · rename_i hdir
      constructor
      · intro h
        cases h
        exact ⟨place, rfl, hdir, rfl⟩
      · rintro ⟨_, hplace, -, rfl⟩
        cases hplace
        rfl
    · rename_i hdir
      constructor
      · intro h
        cases h
      · rintro ⟨_, hplace, hdir', -⟩
        cases hplace
        exact absurd hdir' hdir

/-- A file that the walk comes to and the filter accepts is a file of the scan. -/
theorem exists_mem_accepted {mode : WalkMode} {d : Disk} {filter : Glob.Filter} {root p : Path}
    {place : List String} (hroot : d.resolve root = .ok place)
    (hdir : (d.root.get? place).any Node.isDirectory = true) (hp : p ∈ pathsBelow mode d root place)
    (haccepts : filter.accepts (p.relativeTo root) = true) :
    ∃ paths, accepted d mode filter root = .ok paths ∧ p ∈ paths := by
  refine ⟨_, accepted_eq_ok_iff.2 ⟨place, hroot, hdir, rfl⟩, ?_⟩
  rw [List.mem_mergeSort, List.mem_filter]
  exact ⟨hp, haccepts⟩

/-- A walk through a directory finds no file in its own place. -/
theorem ne_nil_of_mem_walk {mode : WalkMode} {d : Disk} {root names : List String}
    (hdir : (d.root.get? root).any Node.isDirectory = true) (h : names ∈ walk mode d root) :
    names ≠ [] := by
  obtain ⟨n, hn, hleads⟩ := mem_walk_iff.1 h
  rw [hn, Option.any_some, hleads.isDirectory_eq] at hdir
  rintro rfl
  cases hdir

theorem forall_names_of_mem_walk {mode : WalkMode} {d : Disk} {root names : List String}
    {P : String → Prop} (hd : d.root.AllNames P) (h : names ∈ walk mode d root) :
    ∀ s ∈ names, P s := by
  obtain ⟨n, hn, hleads⟩ := mem_walk_iff.1 h
  exact hleads.forall_names (hd.get? hn).2

/-- A file of a scan is put behind the root by names that the walk lists. -/
theorem exists_join_of_mem_accepted {mode : WalkMode} {d : Disk} {filter : Glob.Filter}
    {root p : Path} {paths : List Path} (h : accepted d mode filter root = .ok paths)
    (hp : p ∈ paths) :
    ∃ place names, d.resolve root = .ok place ∧ names ∈ walk mode d place ∧ names ≠ [] ∧
      p = root.join ⟨joinSlash names⟩ := by
  obtain ⟨place, hplace, hdir, rfl⟩ := accepted_eq_ok_iff.1 h
  obtain ⟨names, hnames, rfl⟩ := List.mem_map.1 (List.mem_filter.1 (List.mem_mergeSort.1 hp)).1
  exact ⟨place, names, hplace, hnames, ne_nil_of_mem_walk hdir hnames, rfl⟩

/-- A file of a scan lies below the root. -/
theorem exists_names_of_mem_accepted {mode : WalkMode} {d : Disk} {filter : Glob.Filter}
    {root p : Path} {paths : List Path} (hd : d.root.AllNames IsName)
    (h : accepted d mode filter root = .ok paths) (hp : p ∈ paths) :
    ∃ place names, d.resolve root = .ok place ∧ names ∈ walk mode d place ∧
      p.below? root = some (names.map .name) := by
  obtain ⟨place, names, hplace, hnames, hne, rfl⟩ := exists_join_of_mem_accepted h hp
  exact ⟨place, names, hplace, hnames, Path.below?_join (Disk.text_ne_empty_of_resolve hplace) hne
    (forall_names_of_mem_walk hd hnames)⟩

end LineCensus.Scan
