import LineCensus.Proofs.Scan.Visits
import LineCensus.Proofs.Text.Utf8

/-!
# Hidden files

Without rules a walk passes over every hidden name. With rules it comes to one only if a
rule that keeps what it fits stands in a rule file of the directory or of one above it,
and fits the name from there. The name of the root does not matter. All this is about trees
whose names are texts, since bytes that are no text are not hidden.
-/
namespace LineCensus.Scan

open LineCensus.Text

/-- Bytes that are a text are hidden exactly if the text starts with a dot. -/
theorem isHidden_of_decode? {bytes : List UInt8} {s : List Char}
    (h : Utf8.decode? bytes = some s) : isHidden bytes = (s.head? == some '.') := by
  rw [isHidden, h]
  rfl

/-- The name that the system has these bytes for is hidden if they are a text and start with
the byte of the dot. -/
theorem isHidden_encode_of_head? {bytes : List UInt8} {name : String}
    (htext : Utf8.decode? bytes = some name.toList) (hdot : bytes.head? = some 0x2E) :
    isHidden (Utf8.encode name.toList) = true := by
  obtain ⟨rest, rfl⟩ := List.head?_eq_some_iff.1 hdot
  rw [isHidden_of_decode? (Utf8.decode?_encode name.toList),
    Utf8.head?_of_decode? (by decide) htext]
  decide

/-! ## Rules that keep a name -/

/-- A rule keeps a name behind `front`: it stands in a rule file of one of the directories
from the root down, and fits the name as it is seen from there. -/
def KeptByRule (d : Disk) (root front : List String) (name : String) (isDirectory : Bool) :
    Prop :=
  ∃ above below file rule, front = above ++ below ∧ (file = ".ignore" ∨ file = ".gitignore") ∧
    rule ∈ Level.rulesIn d (root ++ above) file ∧ rule.verdict = .kept ∧
    rule.fits (joinSlash (below ++ [name])) isDirectory = true

theorem exists_of_verdict? {rules : List IgnoreRule} {path : String} {isDirectory : Bool}
    {v : Verdict} (h : verdict? rules path isDirectory = some v) :
    ∃ rule ∈ rules, rule.fits path isDirectory = true ∧ rule.verdict = v := by
  obtain ⟨rule, hrule, hv⟩ := Option.map_eq_some_iff.1 h
  have hmem : rule ∈ rules := List.mem_reverse.1 (List.mem_of_find?_eq_some hrule)
  exact ⟨rule, hmem, by simpa using List.find?_some hrule, hv⟩

/-- Each level holds the rules of a directory on the way to `front`, and the names from
there on. -/
def OnTheWay (d : Disk) (root front : List String) (levels : List Level) : Prop :=
  ∀ l ∈ levels, ∃ above below, front = above ++ below ∧
    l = { Level.ofDirectory d (root ++ above) with below }

section OnTheWay

variable {d : Disk} {root front : List String} {levels : List Level}

theorem OnTheWay.down (h : OnTheWay d root front levels) (mode : WalkMode) :
    OnTheWay d root front (mode.levels d (root ++ front) levels) := by
  cases mode with
  | withRules =>
    exact List.forall_mem_cons.2 ⟨⟨front, [], by simp, rfl⟩, h⟩
  | withoutRules =>
    intro l hl
    cases hl

theorem OnTheWay.enter (h : OnTheWay d root front levels) (name : String) :
    OnTheWay d root (front ++ [name]) (levels.map (·.enter name)) := by
  intro l hl
  obtain ⟨l, hl', rfl⟩ := List.mem_map.1 hl
  obtain ⟨above, below, rfl, rfl⟩ := h l hl'
  exact ⟨above, below ++ [name], by simp, rfl⟩

theorem OnTheWay.keptByRule (h : OnTheWay d root front levels) {name : String}
    {isDirectory : Bool} (hkept : verdictOf levels name isDirectory = some .kept) :
    KeptByRule d root front name isDirectory := by
  have hask : ∀ rules : Level → List IgnoreRule, ∀ file,
      file = ".ignore" ∨ file = ".gitignore" →
      (∀ above below, rules { Level.ofDirectory d (root ++ above) with below } =
        Level.rulesIn d (root ++ above) file) →
      (levels.findSome? fun l => verdict? (rules l) (l.path name) isDirectory) = some .kept →
      KeptByRule d root front name isDirectory := by
    intro rules file hfile hrules hsome
    obtain ⟨l, hl, hverdict⟩ := List.exists_of_findSome?_eq_some hsome
    obtain ⟨above, below, rfl, rfl⟩ := h l hl
    obtain ⟨rule, hrule, hfits, hkeeps⟩ := exists_of_verdict? hverdict
    rw [hrules] at hrule
    exact ⟨above, below, file, rule, rfl, hfile, hrule, hkeeps, hfits⟩
  rcases Option.or_eq_some_iff.1 hkept with hkept | ⟨-, hkept⟩
  · exact hask Level.ignoreFile ".ignore" (Or.inl rfl) (fun _ _ => rfl) hkept
  · exact hask Level.gitignoreFile ".gitignore" (Or.inr rfl) (fun _ _ => rfl) hkept

end OnTheWay

theorem kept_of_visits {levels : List Level} {name : String} {isDirectory : Bool}
    (h : visits levels name isDirectory = true)
    (hhidden : isHidden (Utf8.encode name.toList) = true) :
    verdictOf levels name isDirectory = some .kept := by
  unfold visits at h
  split at h
  · cases h
  · assumption
  · simp [hhidden] at h

theorem Leads.keptByRule {mode : WalkMode} {d : Disk} {root front rest : List String}
    {above : List Level} {n : Node} (h : Leads mode d root front above n rest)
    (hrules : OnTheWay d root front above) {before after : List String} {name : String}
    (hsplit : rest = before ++ name :: after)
    (hhidden : isHidden (Utf8.encode name.toList) = true) :
    mode = .withRules ∧ KeptByRule d root (front ++ before) name (!after.isEmpty) := by
  induction h generalizing before with
  | file bytes => simp at hsplit
  | locked cause => simp at hsplit
  | @enter front above children child n rest hchild hvisited honward ih =>
    cases before with
    | nil =>
      obtain ⟨rfl, rfl⟩ := List.cons.inj hsplit
      have hkept := kept_of_visits hvisited hhidden
      rw [honward.isDirectory_eq] at hkept
      refine ⟨?_, by simpa using (hrules.down mode).keptByRule hkept⟩
      cases mode with
      | withRules => rfl
      | withoutRules => simp [WalkMode.levels, verdictOf] at hkept
    | cons first before =>
      obtain ⟨rfl, rfl⟩ := List.cons.inj hsplit
      simpa using ih ((hrules.down mode).enter _) rfl

/-! ## The files of a scan -/

/-- Let the bytes that the system has for the names of a tree all be texts. Then a file of a
scan has a name on its way from the root whose bytes start with a dot only where rules are read
and one of them keeps that name. -/
theorem hidden_of_mem_accepted {d : Disk} {mode : WalkMode} {filter : Glob.Filter} {root p : Path}
    {paths : List Path} {bytesOf : String → List UInt8} (hd : d.root.AllNames IsName)
    (htexts : d.root.AllNames fun name => Utf8.decode? (bytesOf name) = some name.toList)
    (h : accepted d mode filter root = .ok paths) (hp : p ∈ paths) :
    ∃ place names, d.resolve root = .ok place ∧ p.below? root = some (names.map .name) ∧
      ∀ before name after, names = before ++ name :: after →
        (bytesOf name).head? = some 0x2E →
          mode = .withRules ∧ KeptByRule d place before name (!after.isEmpty) := by
  obtain ⟨place, names, hplace, hnames, hbelow⟩ := exists_names_of_mem_accepted hd h hp
  obtain ⟨n, -, hleads⟩ := mem_walk_iff.1 hnames
  have hrules : OnTheWay d place [] [] := fun l hl => by cases hl
  refine ⟨place, names, hplace, hbelow, fun before name after hsplit hdot => ?_⟩
  have htext : Utf8.decode? (bytesOf name) = some name.toList :=
    forall_names_of_mem_walk htexts hnames name (by simp [hsplit])
  exact hleads.keptByRule hrules hsplit (isHidden_encode_of_head? htext hdot)

/-- A directory with a hidden file and a rule that keeps it. -/
def diskWithKeptFile : Disk where
  root := .directory [("p", .directory [(".env.rs", .file []),
    (".ignore", .file (Utf8.encode "!.env.rs\n".toList))])]

theorem allNames_diskWithKeptFile : diskWithKeptFile.root.AllNames IsName := by
  refine .directory (by decide) fun c hc => ?_
  obtain rfl := List.mem_singleton.1 hc
  refine .directory (by decide) fun c hc => ?_
  rcases List.mem_pair.1 hc with rfl | rfl
  · exact .file _
  · exact .file _

theorem rulesIn_diskWithKeptFile :
    Level.rulesIn diskWithKeptFile ["p"] ".ignore" =
      ignoreRules (Utf8.encode "!.env.rs\n".toList) := by
  have hresolve : diskWithKeptFile.resolve (Disk.absolute ["p", ".ignore"]) = .ok ["p", ".ignore"] :=
    Disk.resolve_absolute ["p", ".ignore"] rfl (by simp) (by decide) (by decide) (by decide)
      (by decide) (by decide)
  simp only [Level.rulesIn, Disk.readBytes, List.cons_append, List.nil_append, hresolve]
  rfl

theorem mem_walk_diskWithKeptFile : [".env.rs"] ∈ walk .withRules diskWithKeptFile ["p"] := by
  refine mem_walk_iff.2 ⟨_, rfl, .enter (n := .file []) (by simp) ?_ (.file [])⟩
  have hkept : verdictOf (WalkMode.withRules.levels diskWithKeptFile ["p"] []) ".env.rs" false =
      some .kept := by
    have hfile : (WalkMode.withRules.levels diskWithKeptFile ["p"] []).findSome? (fun l =>
        verdict? l.ignoreFile (l.path ".env.rs") false) = some .kept := by
      simp only [WalkMode.levels, Level.ofDirectory, rulesIn_diskWithKeptFile]
      decide +kernel
    dsimp only [verdictOf]
    rw [hfile]
    rfl
  show visits (WalkMode.withRules.levels diskWithKeptFile ["p"] []) ".env.rs" false = true
  rw [visits, hkept]

theorem resolve_diskWithKeptFile : diskWithKeptFile.resolve ⟨"/p"⟩ = .ok ["p"] :=
  Disk.resolve_absolute ["p"] rfl (by simp) (by decide) (by decide) (by decide)
    (by decide) (by decide)

theorem exists_mem_accepted_diskWithKeptFile :
    ∃ paths, accepted diskWithKeptFile .withRules ⟨none, []⟩ ⟨"/p"⟩ = .ok paths ∧
      ⟨"/p/.env.rs"⟩ ∈ paths :=
  exists_mem_accepted resolve_diskWithKeptFile rfl
    (List.mem_map.2 ⟨[".env.rs"], mem_walk_diskWithKeptFile, by decide⟩) rfl

/-- The scan finds the hidden file, and the rule is why. -/
theorem hidden_kept_by_rule :
    diskWithKeptFile.root.AllNames IsName ∧
      (diskWithKeptFile.root.AllNames fun name =>
        Utf8.decode? (Utf8.encode name.toList) = some name.toList) ∧
      ∃ paths, accepted diskWithKeptFile .withRules ⟨none, []⟩ ⟨"/p"⟩ = .ok paths ∧
        ⟨"/p/.env.rs"⟩ ∈ paths ∧ KeptByRule diskWithKeptFile ["p"] [] ".env.rs" false := by
  have htexts : diskWithKeptFile.root.AllNames fun name =>
      Utf8.decode? (Utf8.encode name.toList) = some name.toList :=
    allNames_diskWithKeptFile.imp fun name _ => Utf8.decode?_encode name.toList
  refine ⟨allNames_diskWithKeptFile, htexts, ?_⟩
  obtain ⟨paths, hpaths, hmem⟩ := exists_mem_accepted_diskWithKeptFile
  obtain ⟨place, names, hplace, hbelow, hhidden⟩ :=
    hidden_of_mem_accepted allNames_diskWithKeptFile htexts hpaths hmem
  have hname : [".env.rs"].map Path.Component.name = names.map .name :=
    Option.some.inj (Eq.trans (by decide +kernel) hbelow)
  obtain rfl := Path.map_name_injective hname
  obtain rfl := Except.ok.inj (resolve_diskWithKeptFile.symm.trans hplace)
  exact ⟨paths, hpaths, hmem, (hhidden [] ".env.rs" [] rfl (by decide)).2⟩

/-- A rule may keep a hidden file. -/
theorem not_all_hidden_skipped :
    ¬ ∀ (d : Disk) (mode : WalkMode) (filter : Glob.Filter) (root p : Path) (paths : List Path)
      (below : List Path.Component), d.root.AllNames IsName →
        accepted d mode filter root = .ok paths → p ∈ paths → p.below? root = some below →
          ∀ c ∈ below, c.text.toList.head? ≠ some '.' := by
  intro h
  obtain ⟨paths, hpaths, hmem⟩ := exists_mem_accepted_diskWithKeptFile
  have hshown := h _ _ _ _ _ _ [.name ".env.rs"] allNames_diskWithKeptFile hpaths hmem
    (by decide +kernel) (.name ".env.rs") (by simp)
  exact hshown (by decide)

end LineCensus.Scan
