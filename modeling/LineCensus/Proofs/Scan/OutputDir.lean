import LineCensus.Proofs.Glob.Filter
import LineCensus.Proofs.Scan.Visits

/-!
# Leaving out the output directory

An output directory with a plain name takes just the files below it from a scan. The name
becomes a part of a pattern as it is, so that other names leave out other files, or none.
-/
namespace LineCensus

namespace Path

/-! ## Below a directory -/

/-- A path leads on from another one. -/
def liesBelow (p dir : Path) : Bool := (p.below? dir).any (!·.isEmpty)

theorem liesBelow_iff {p dir : Path} :
    p.liesBelow dir = true ↔ ∃ cs, cs ≠ [] ∧ p.components = dir.components ++ cs := by
  rw [liesBelow, Option.any_eq_true]
  simp only [below?_eq_some_iff, Bool.not_eq_true', List.isEmpty_eq_false_iff]
  exact exists_congr fun cs => and_comm

variable {root : Path} {names front : List String}

/-- Below a root, names lie below others that they go on from. -/
theorem liesBelow_join_iff (hroot : root.text ≠ "") (hne : names ≠ []) (hfrontNe : front ≠ [])
    (h : ∀ s ∈ names, IsName s) (hfront : ∀ s ∈ front, IsName s) :
    (root.join ⟨joinSlash names⟩).liesBelow (root.join ⟨joinSlash front⟩) = true ↔
      ∃ back, back ≠ [] ∧ names = front ++ back := by
  rw [liesBelow_iff, components_join hroot hne h, components_join hroot hfrontNe hfront]
  constructor
  · rintro ⟨cs, hcs, heq⟩
    rw [List.append_assoc, List.append_cancel_left_eq, List.map_eq_append_iff] at heq
    obtain ⟨first, back, rfl, hfirst, rfl⟩ := heq
    obtain rfl := map_name_injective hfirst
    exact ⟨back, by simpa using hcs, rfl⟩
  · rintro ⟨back, hback, rfl⟩
    exact ⟨back.map .name, by simpa using hback, by simp⟩

end Path

namespace Scan

open LineCensus.Settings

/-! ## The pattern of an output directory -/

theorem outputPath_of_resolve {d : Disk} {p : Path} {names : List String}
    (h : d.resolve p = .ok names) : outputPath d p = Disk.absolute names := by
  rw [outputPath, if_pos (Disk.exists?_of_resolve h), Disk.canonicalize_of_resolve h]

theorem outputDirExclude?_of_outside {d : Disk} {root outputDir : Path} {place : List String}
    (hroot : d.resolve root = .ok place)
    (houtside : (outputPath d outputDir).below? (Disk.absolute place) = none) :
    outputDirExclude? d root outputDir = none := by
  simp only [outputDirExclude?, Disk.canonicalize_of_resolve hroot, houtside]

/-- The pattern of an output directory is the way to it from the root, and two stars. -/
theorem outputDirExclude?_of_below {d : Disk} {root outputDir : Path} {place below : List String}
    (hroot : d.resolve root = .ok place) (houtput : d.resolve outputDir = .ok (place ++ below))
    (hne : below ≠ []) (h : ∀ s ∈ place ++ below, IsName s)
    (hslashes : ∀ s ∈ below, '\\' ∉ s.toList) :
    outputDirExclude? d root outputDir = some (joinSlash below ++ "/**") := by
  obtain ⟨hplace, hbelow⟩ := List.forall_mem_append.1 h
  have hway : (Disk.absolute (place ++ below)).below? (Disk.absolute place) =
      some (below.map .name) := by
    rw [Path.below?_eq_some_iff, Path.components_absolute h, Path.components_absolute hplace]
    simp
  have hdot : (joinSlash below == ".") = false := beq_false_of_ne (joinSlash_ne_dot hne hbelow)
  simp only [outputDirExclude?, Disk.canonicalize_of_resolve hroot,
    outputPath_of_resolve houtput, hway, Path.slashed_names hne hbelow hslashes, hdot]
  rfl

/-! ## The files that are left -/

/-- The pattern fits the files that lie below the directory, and no others. -/
theorem isMatch_eq_liesBelow {root : Path} {names below : List String} (hroot : root.text ≠ "")
    (hne : names ≠ []) (hbelowNe : below ≠ []) (h : ∀ s ∈ names, IsName s)
    (hbelow : ∀ s ∈ below, IsName s) (hslashes : ∀ s ∈ names, '\\' ∉ s.toList) :
    (Glob.patternBelow (joinSlash below)).isMatch ((root.join ⟨joinSlash names⟩).relativeTo root) =
      (root.join ⟨joinSlash names⟩).liesBelow (root.join ⟨joinSlash below⟩) := by
  rw [Path.relativeTo_join hroot hne h hslashes, Bool.eq_iff_iff, Glob.isMatch_patternBelow,
    Path.liesBelow_join_iff hroot hne hbelowNe h hbelow]
  exact joinSlash_eq_append_slash_iff hne hbelowNe (fun s hs => (h s hs).no_slash)
    fun s hs => (hbelow s hs).no_slash

/-- One exclude more takes just what it fits from a scan. -/
theorem accepted_exclude {d : Disk} {mode : WalkMode} {f : Glob.Filter} {root : Path}
    {paths : List Path} (hd : d.root.AllNames IsName) (h : accepted d mode f root = .ok paths)
    (pattern : Glob.Pattern) :
    accepted d mode (f.exclude pattern) root =
      .ok (paths.filter fun p => !pattern.isMatch (p.relativeTo root)) := by
  obtain ⟨place, hplace, hdir, rfl⟩ := accepted_eq_ok_iff.1 h
  refine accepted_eq_ok_iff.2 ⟨place, hplace, hdir, ?_⟩
  -- The one scan sorts after the exclude and the other before it.
  rw [Path.filter_mergeSort, List.filter_filter]
  · congr 1
    refine List.filter_congr fun p _ => ?_
    rw [Glob.Filter.accepts_exclude, Bool.and_comm]
  · intro p hp q hq hle hge
    obtain ⟨names, hnames, rfl⟩ := List.mem_map.1 (List.mem_filter.1 hp).1
    obtain ⟨names', hnames', rfl⟩ := List.mem_map.1 (List.mem_filter.1 hq).1
    rw [Path.eq_of_join_le_join (Disk.text_ne_empty_of_resolve hplace)
      (ne_nil_of_mem_walk hdir hnames) (ne_nil_of_mem_walk hdir hnames')
      (forall_names_of_mem_walk hd hnames) (forall_names_of_mem_walk hd hnames') hle hge]

/-- The pattern of a directory leaves out the files that lie below it. -/
theorem accepted_exclude_below {d : Disk} {mode : WalkMode} {f : Glob.Filter} {root : Path}
    {place below : List String} {n : Node} {paths : List Path} (hd : d.root.AllNames IsName)
    (hroot : d.resolve root = .ok place) (hn : d.root.get? place = some n)
    (hslashes : n.AllNames fun s => '\\' ∉ s.toList) (hne : below ≠ [])
    (hbelow : ∀ s ∈ below, IsName s) (h : accepted d mode f root = .ok paths) :
    accepted d mode (f.exclude (Glob.patternBelow (joinSlash below))) root =
      .ok (paths.filter fun p => !p.liesBelow (root.join ⟨joinSlash below⟩)) := by
  rw [accepted_exclude hd h]
  congr 1
  refine List.filter_congr fun p hp => ?_
  obtain ⟨place', names, hplace, hnames, hnamesNe, rfl⟩ := exists_join_of_mem_accepted h hp
  obtain rfl := Except.ok.inj (hroot.symm.trans hplace)
  obtain ⟨m, hm, hleads⟩ := mem_walk_iff.1 hnames
  obtain rfl := Option.some.inj (hn.symm.trans hm)
  rw [isMatch_eq_liesBelow (Disk.text_ne_empty_of_resolve hroot) hnamesNe hne
    (forall_names_of_mem_walk hd hnames) hbelow (hleads.forall_names hslashes)]

theorem isPlain_joinSlash {names : List String} (h : ∀ s ∈ names, Glob.IsPlain s.toList) :
    Glob.IsPlain (joinSlash names).toList := by
  intro c hc
  rcases Path.mem_joinSlash hc with rfl | ⟨s, hs, hcs⟩
  · decide
  · exact h s hs c hcs

/-- A scan with an output directory below the root has the files that it has with one
outside, but for those below the output directory. The names on the way to that directory
must be plain, and no name may have a backslash. -/
theorem files_of_output_below {d : Disk} (settings : RunSettings) (root other : Path)
    {place below : List String} {n : Node} (hd : d.root.AllNames IsName)
    (hroot : d.resolve root = .ok place) (hn : d.root.get? place = some n)
    (hslashes : n.AllNames fun s => '\\' ∉ s.toList)
    (houtput : d.resolve settings.outputDir = .ok (place ++ below)) (hne : below ≠ [])
    (hplain : ∀ s ∈ below, Glob.IsPlain s.toList)
    (hother : (outputPath d other).below? (Disk.absolute place) = none)
    (hincludes : ∀ s ∈ settings.includes, Glob.IsValid s)
    (hexcludes : ∀ s ∈ settings.excludes, Glob.IsValid s) :
    ∃ paths, files d { settings with outputDir := other } root = .ok paths ∧
      files d settings root =
        .ok (paths.filter fun p => !p.liesBelow (root.join ⟨joinSlash below⟩)) := by
  have hisName := Disk.names_of_resolve hd houtput
  have hbelow := (List.forall_mem_append.1 hisName).2
  obtain ⟨m, hm⟩ := Option.isSome_iff_exists.1 (Disk.isSome_get?_of_resolve houtput)
  have hbelowSlashes : ∀ s ∈ below, '\\' ∉ s.toList := by
    rw [Node.get?_append, hn, Option.bind_some] at hm
    exact (hslashes.get? hm).1
  obtain ⟨k, hk, hdir⟩ := Node.isDirectory_of_get?_append hne hm
  obtain ⟨f, hf, hexclude⟩ := Glob.Filter.withDefaults_of_isValid hincludes hexcludes
  have hpattern := hexclude _ _ (Glob.compile_below (isPlain_joinSlash hplain))
  obtain ⟨paths, hpaths⟩ : ∃ paths, accepted d (.ofGitignore settings.gitignore) f root = .ok paths :=
    ⟨_, accepted_eq_ok_iff.2 ⟨place, hroot, by rw [hk]; exact hdir, rfl⟩⟩
  refine ⟨paths, ?_, ?_⟩
  · simp only [files, filterOf, outputDirExclude?_of_outside hroot hother, Option.toList_none,
      List.append_nil, hf, hpaths]
  · simp only [files, filterOf, outputDirExclude?_of_below hroot houtput hne hisName hbelowSlashes,
      Option.toList_some, hpattern, accepted_exclude_below hd hroot hn hslashes hne hbelow hpaths]

/-- A directory with a file, and with an output directory that has one too. -/
def diskWithOutput (name : String) : Disk where
  root := .directory [("p", .directory [(name, .directory [("a.rs", .file [])]),
    ("b.rs", .file [])]), ("q", .directory [])]

/-- Settings that name an output directory and leave out nothing else. -/
def settingsWithOutput (outputDir : Path) : RunSettings where
  includes := []
  excludes := []
  gitignore := false
  format := .text
  numbers := ⟨true⟩
  includeIncompleteLine := false
  includeUnsupported := false
  generateResults := false
  textResults := true
  markdownResults := true
  outputDir
  quiet := false

theorem allNames_diskWithOutput {P : String → Prop} {name : String} (hname : P name)
    (h : ∀ s ∈ ["p", "q", "a.rs", "b.rs"], P s) : (diskWithOutput name).root.AllNames P := by
  simp only [List.forall_mem_cons, List.not_mem_nil, false_implies, implies_true, and_true] at h
  obtain ⟨hp, hq, ha, hb⟩ := h
  refine .directory (by simp [hp, hq]) fun c hc => ?_
  rcases List.mem_pair.1 hc with rfl | rfl
  · refine .directory (by simp [hname, hb]) fun c hc => ?_
    rcases List.mem_pair.1 hc with rfl | rfl
    · refine .directory (by simp [ha]) fun c hc => ?_
      obtain rfl := List.mem_singleton.1 hc
      exact .file []
    · exact .file []
  · exact .directory (by simp) (by simp)

theorem resolve_root_diskWithOutput (name : String) :
    (diskWithOutput name).resolve ⟨"/p"⟩ = .ok ["p"] :=
  Disk.resolve_absolute ["p"] rfl (by simp) (by decide) (by decide) (by decide)
    (by decide) (by decide)

theorem outputPath_diskWithOutput (name : String) :
    outputPath (diskWithOutput name) ⟨"/q"⟩ = Disk.absolute ["q"] :=
  outputPath_of_resolve (Disk.resolve_absolute ["q"] rfl (by simp) (by decide)
    (by decide) (by decide) (by decide) (by decide))

/-- An output directory called `out` is left out. -/
theorem files_of_output_out :
    (diskWithOutput "out").resolve ⟨"/p/out"⟩ = .ok (["p"] ++ ["out"]) ∧
      (outputPath (diskWithOutput "out") ⟨"/q"⟩).below? (Disk.absolute ["p"]) = none ∧
      ∃ paths, files (diskWithOutput "out") (settingsWithOutput ⟨"/q"⟩) ⟨"/p"⟩ = .ok paths ∧
        files (diskWithOutput "out") (settingsWithOutput ⟨"/p/out"⟩) ⟨"/p"⟩ =
          .ok (paths.filter fun p => !p.liesBelow ⟨"/p/out"⟩) := by
  have houtput : (diskWithOutput "out").resolve ⟨"/p/out"⟩ = .ok (["p"] ++ ["out"]) :=
    Disk.resolve_absolute ["p", "out"] rfl (by simp) (by decide) (by decide)
      (by decide) (by decide) (by decide)
  have hroot : (diskWithOutput "out").root.get? ["p"] = some _ := rfl
  have hslashes : (diskWithOutput "out").root.AllNames fun s => '\\' ∉ s.toList :=
    allNames_diskWithOutput (by decide) (by decide)
  have hother : (outputPath (diskWithOutput "out") ⟨"/q"⟩).below? (Disk.absolute ["p"]) = none := by
    rw [outputPath_diskWithOutput]
    decide +kernel
  have hdir : (⟨"/p"⟩ : Path).join ⟨joinSlash ["out"]⟩ = ⟨"/p/out"⟩ := by decide +kernel
  have hfiles := files_of_output_below (settingsWithOutput ⟨"/p/out"⟩) ⟨"/p"⟩ ⟨"/q"⟩
    (allNames_diskWithOutput (by decide) (by decide)) (resolve_root_diskWithOutput "out") hroot
    (hslashes.get? hroot).2 houtput (by simp) (by decide) hother (by simp [settingsWithOutput])
    (by simp [settingsWithOutput])
  rw [hdir] at hfiles
  exact ⟨houtput, hother, hfiles⟩

theorem resolve_bracketed_output :
    (diskWithOutput "out[1]").resolve ⟨"/p/out[1]"⟩ = .ok (["p"] ++ ["out[1]"]) :=
  Disk.resolve_absolute ["p", "out[1]"] rfl (by simp) (by decide) (by decide)
    (by decide) (by decide) (by decide)

theorem exists_mem_files_bracketed_output :
    ∃ paths, files (diskWithOutput "out[1]") (settingsWithOutput ⟨"/p/out[1]"⟩) ⟨"/p"⟩ = .ok paths ∧
      ⟨"/p/out[1]/a.rs"⟩ ∈ paths := by
  have hpattern : outputDirExclude? (diskWithOutput "out[1]") ⟨"/p"⟩ ⟨"/p/out[1]"⟩ =
      some (joinSlash ["out[1]"] ++ "/**") :=
    outputDirExclude?_of_below (resolve_root_diskWithOutput "out[1]") resolve_bracketed_output
      (by simp) (by decide) (by decide)
  obtain ⟨f, hf, haccepts⟩ : ∃ f,
      Glob.Filter.withDefaults [] ([] ++ [joinSlash ["out[1]"] ++ "/**"]) = .ok f ∧
        f.accepts ((⟨"/p/out[1]/a.rs"⟩ : Path).relativeTo ⟨"/p"⟩) = true := by
    have hany : (Glob.Filter.withDefaults [] ([] ++ [joinSlash ["out[1]"] ++ "/**"])).toOption.any
        (·.accepts ((⟨"/p/out[1]/a.rs"⟩ : Path).relativeTo ⟨"/p"⟩)) = true := by decide +kernel
    cases hf : Glob.Filter.withDefaults [] ([] ++ [joinSlash ["out[1]"] ++ "/**"]) with
    | error refusal =>
      rw [hf] at hany
      cases hany
    | ok f =>
      rw [hf] at hany
      exact ⟨f, rfl, hany⟩
  have hwalk : ⟨"/p/out[1]/a.rs"⟩ ∈
      pathsBelow .withoutRules (diskWithOutput "out[1]") ⟨"/p"⟩ ["p"] := by decide +kernel
  obtain ⟨paths, hpaths, hmem⟩ :=
    exists_mem_accepted (resolve_root_diskWithOutput "out[1]") rfl hwalk haccepts
  refine ⟨paths, ?_, hmem⟩
  simp only [files, filterOf, settingsWithOutput, hpattern, Option.toList_some, hf]
  rw [WalkMode.ofGitignore, if_neg Bool.false_ne_true, hpaths]

/-- A directory whose name is a pattern for other names is not left out. -/
theorem not_all_outputs_excluded :
    ¬ ∀ (d : Disk) (settings : RunSettings) (root other : Path) (place below : List String),
      d.root.AllNames IsName → d.resolve root = .ok place →
        d.resolve settings.outputDir = .ok (place ++ below) → below ≠ [] →
        (outputPath d other).below? (Disk.absolute place) = none →
        (∀ s ∈ settings.includes, Glob.IsValid s) → (∀ s ∈ settings.excludes, Glob.IsValid s) →
          ∃ paths, files d { settings with outputDir := other } root = .ok paths ∧
            files d settings root =
              .ok (paths.filter fun p => !p.liesBelow (root.join ⟨joinSlash below⟩)) := by
  intro h
  have hother : (outputPath (diskWithOutput "out[1]") ⟨"/q"⟩).below? (Disk.absolute ["p"]) =
      none := by
    rw [outputPath_diskWithOutput]
    decide +kernel
  obtain ⟨paths, -, hfiles⟩ := h (diskWithOutput "out[1]") (settingsWithOutput ⟨"/p/out[1]"⟩)
    ⟨"/p"⟩ ⟨"/q"⟩ ["p"] ["out[1]"] (allNames_diskWithOutput (by decide) (by decide))
    (resolve_root_diskWithOutput "out[1]") resolve_bracketed_output (by simp) hother
    (by simp [settingsWithOutput]) (by simp [settingsWithOutput])
  obtain ⟨found, hfound, hmem⟩ := exists_mem_files_bracketed_output
  obtain rfl := Except.ok.inj (hfound.symm.trans hfiles)
  have hbelow : (⟨"/p/out[1]/a.rs"⟩ : Path).liesBelow
      ((⟨"/p"⟩ : Path).join ⟨joinSlash ["out[1]"]⟩) = true := by decide +kernel
  have hoff := (List.mem_filter.1 hmem).2
  simp [hbelow] at hoff

end Scan

end LineCensus
