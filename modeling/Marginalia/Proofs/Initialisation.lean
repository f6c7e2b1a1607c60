import Mathlib.Data.List.Sort
import Marginalia.Proofs.ConfigText
import Marginalia.Proofs.NewFile
import Marginalia.Proofs.Presentation

/-! Writing the usual configuration changes no scan. The file that is written is read back as the configuration
that counts without it, wherever the search for a configuration now ends there. It is in no known language, so
no walk lists it. And everything else is found, read and written as before. -/

namespace Marginalia

theorem LanguageTable.languageOf?_config {path : Text} (h : Path.fileName? path = some Config.fileName) :
    LanguageTable.builtin.languageOf? path = none := by
  rw [languageOf?, Path.extension?, h]
  decide +kernel

theorem Tree.exists_of_exists? {tree : Tree} {path : Text} (h : tree.exists? path = true) :
    ∃ place entry, tree.locate path = .ok place ∧ tree.get? place = some entry := by
  obtain ⟨entry, hfind⟩ := Option.isSome_iff_exists.mp h
  obtain ⟨place, hlocate, hget⟩ := exists_of_find? hfind
  exact ⟨place, entry, hlocate, hget⟩

namespace Config

theorem validate_usual : ({} : Config).validate = .ok () := by
  decide +kernel

theorem languageTable_usual (base : Text) : ({ sourceRoot := base } : Config).languageTable = .builtin := by
  have hentries : ∀ {α : Type}, (Dict.empty : Dict α).entries = [] := rfl
  rw [languageTable, hentries, hentries, List.foldl_nil, List.foldl_nil]

theorem isName_fileName : Path.isName fileName = true := by decide

/-- There is no configuration to be found where nothing has its name. -/
theorem file?_eq_none {tree : Tree} (h : ∀ e ∈ tree.entries, e.1.getLast? ≠ some fileName) (folder : Text) :
    file? tree folder = none := by
  have hnone : ∀ folder, tree.exists? (Path.join folder fileName) = false := by
    intro folder
    refine Bool.eq_false_iff.mpr fun hexists => ?_
    obtain ⟨place, entry, hlocate, hget⟩ := Tree.exists_of_exists? hexists
    obtain ⟨start, rfl, -⟩ := Tree.exists_of_locate_join isName_fileName hlocate
    refine h _ (Tree.mem_entries_of_get? (by simp) hget) ?_
    exact List.getLast?_concat
  fun_induction file? tree folder with
  | case1 folder path hexists => rw [hnone] at hexists; cases hexists
  | case2 => rfl
  | case3 folder path _ _ up hup _ ih => exact ih
  | case4 => rfl

section

variable {tree after : Tree} (h : tree.Gains after fileName ({} : Config).print)

include h

theorem loadFile_new {path : Text} (hlocate : after.locate path = .ok [fileName]) : loadFile after path = .ok {} := by
  have hread : after.read path = .ok ({} : Config).print := by
    rw [Tree.read, hlocate]
    simp only [bind, Except.bind, h.get?_new]
  have hparse : parse ({} : Config).print = .ok {} := Json.document_of_readsBack (readsBack_config {}) 0
  rw [loadFile, hread]
  simp only [Except.mapError, bind, Except.bind, hparse, validate_usual]
  rfl

theorem exists?_of_ne {path : Text} (hne : after.locate path ≠ .ok [fileName]) :
    after.exists? path = tree.exists? path := by
  rw [Tree.exists?, Tree.exists?, h.find?_of_ne hne]

theorem exists?_mark (folder : Text) :
    after.exists? (Path.join folder ".git") = tree.exists? (Path.join folder ".git") := by
  refine exists?_of_ne h fun hlocate => ?_
  obtain ⟨start, heq, -⟩ := Tree.exists_of_locate_join (by decide) hlocate
  have hlast := congrArg List.getLast? heq
  rw [List.getLast?_concat] at hlast
  revert hlast
  decide

/-- The search for a configuration that found none ends at the new file or finds none still. -/
theorem locate_of_file? {folder path : Text} (hnone : file? tree folder = none)
    (hfile : file? after folder = some path) : after.locate path = .ok [fileName] := by
  fun_induction file? after folder with
  | case1 folder found hexists =>
      rw [← Option.some.inj hfile]
      by_contra hne
      rw [exists?_of_ne h hne] at hexists
      rw [file?, if_pos hexists] at hnone
      cases hnone
  | case2 => cases hfile
  | case3 folder found hexists hmark up hup _ ih =>
      refine ih ?_ hfile
      rw [exists?_mark h] at hmark
      rw [file?] at hnone
      split at hnone
      · cases hnone
      split at hnone
      · next up' hup' =>
        cases hup.symm.trans hup'
        exact hnone
      · next hup' => cases hup.symm.trans hup'
  | case4 => cases hfile

/-- So a configuration is loaded where the usual one counted, and it is the usual one. -/
theorem load_new {folder : Text} (hnone : file? tree folder = none) :
    ∃ isFromFile, load after folder = .ok ⟨{}, isFromFile⟩ := by
  rw [load]
  cases hfile : file? after folder with
  | none => exact ⟨false, rfl⟩
  | some path =>
      refine ⟨true, ?_⟩
      simp only [loadFile_new h (locate_of_file? h hnone hfile)]
      rfl

end

end Config

namespace Discovery

theorem files_ext {a b : Discovery} (h : ∀ file, file ∈ a.files ↔ file ∈ b.files) : a.files = b.files :=
  a.ordered.eq_of_mem_iff b.ordered h

variable {tree after : Tree} (h : tree.Gains after Config.fileName ({} : Config).print)

include h

/-- The new file is in no known language. -/
theorem mem_walk_new {list : IgnoreList} {path file : Text} :
    file ∈ (walk after list .builtin path).1 ↔ file ∈ (walk tree list .builtin path).1 := by
  rw [mem_walk, mem_walk]
  refine and_congr_left fun hkept => ⟨fun hlists => ?_, h.lists_of_lists⟩
  rcases h.lists_cases hlists with hlists | hname
  · exact hlists
  · have hlanguage := hkept.2
    rw [LanguageTable.languageOf?_config hname] at hlanguage
    cases hlanguage

theorem files_belowBase_new (base : Text) (ignores : List Text) :
    (belowBase after base [] ignores .builtin).files = (belowBase tree base [] ignores .builtin).files := by
  refine files_ext fun file => ?_
  rw [belowBase, belowBase, mem_merge_map, mem_merge_map]
  exact exists_congr fun root => and_congr_right fun _ => mem_walk_new h

theorem files_ofPaths_new {base : Text} {paths ignores : List Text}
    (hpaths : ∀ p ∈ paths, after.locate (Path.join base p) ≠ .ok [Config.fileName]) :
    (ofPaths after base paths ignores .builtin).files = (ofPaths tree base paths ignores .builtin).files := by
  refine files_ext fun file => ?_
  rw [ofPaths, ofPaths, mem_merge_map, mem_merge_map]
  refine exists_congr fun p => and_congr_right fun hp => ?_
  dsimp only
  rw [Tree.isFile, Tree.isFile, h.find?_of_ne (hpaths p hp)]
  split
  · exact Iff.rfl
  · exact mem_walk_new h

omit h

/-- The files of a scan with the usual configuration, of some paths or else of the source root. -/
def usual (tree : Tree) (sourceRoot : Option Text) (paths : List Text) : Discovery :=
  if paths.isEmpty then
    belowBase tree (sourceRoot.getD ({} : Config).sourceRoot) [] ({} : Config).ignores .builtin
  else ofPaths tree ['.'] paths ({} : Config).ignores .builtin

/-- What is listed is there. -/
theorem locate_usual {sourceRoot : Option Text} {paths : List Text} {file : Text}
    (hfile : file ∈ (usual tree sourceRoot paths).files) : tree.locate file ≠ .error .notFound := by
  unfold usual at hfile
  split at hfile
  · obtain ⟨root, -, hlists, -⟩ := mem_belowBase.mp hfile
    exact Tree.locate_of_lists hlists
  obtain ⟨p, -, hfile⟩ := mem_merge_map.mp hfile
  dsimp only at hfile
  split at hfile
  · next hisFile =>
    cases List.mem_singleton.mp hfile
    intro hlocate
    rw [Tree.isFile, Tree.find?, hlocate] at hisFile
    cases hisFile
  · exact Tree.locate_of_lists (mem_walk.mp hfile).1

end Discovery

namespace ScanPlan

theorem make_usual {tree : Tree} {sourceRoot : Option Text} {isFromFile : Bool} (paths : List Text)
    (hload : Config.load tree (sourceRoot.getD ['.']) = .ok ⟨{}, isFromFile⟩) :
    make tree sourceRoot paths =
      .ok ⟨{ ({} : Config) with sourceRoot := sourceRoot.getD ({} : Config).sourceRoot }, .builtin,
        (Discovery.usual tree sourceRoot paths).files, (Discovery.usual tree sourceRoot paths).ordered⟩ := by
  rw [make, hload]
  simp only [bind, Except.bind, Config.languageTable_usual]
  rfl

theorem make_new {tree after : Tree} (h : tree.Gains after Config.fileName ({} : Config).print)
    {sourceRoot : Option Text} {paths : List Text} (hnone : Config.file? tree (sourceRoot.getD ['.']) = none)
    (hpaths : ∀ p ∈ paths, after.locate (Path.join ['.'] p) ≠ .ok [Config.fileName]) :
    ∃ plan, make tree sourceRoot paths = .ok plan ∧ make after sourceRoot paths = .ok plan ∧
      ∀ file ∈ plan.files, after.read file = tree.read file := by
  have hload : Config.load tree (sourceRoot.getD ['.']) = .ok ⟨{}, false⟩ := by
    rw [Config.load, hnone]
  obtain ⟨isFromFile, hload'⟩ := Config.load_new h hnone
  have hfiles : (Discovery.usual after sourceRoot paths).files = (Discovery.usual tree sourceRoot paths).files := by
    unfold Discovery.usual
    split
    · exact Discovery.files_belowBase_new h _ _
    · exact Discovery.files_ofPaths_new h hpaths
  rw [make_usual paths hload, make_usual paths hload']
  have hread : ∀ file ∈ (Discovery.usual tree sourceRoot paths).files, after.read file = tree.read file :=
    fun file hfile => h.read_eq (Discovery.locate_usual hfile)
  refine ⟨_, rfl, ?_, hread⟩
  simp only [hfiles]

end ScanPlan

namespace Command

variable {tree after : Tree} (h : tree.Gains after Config.fileName ({} : Config).print)

theorem reportOf_congr (options : ScanOptions) {plan : ScanPlan}
    (hread : ∀ file ∈ plan.files, after.read file = tree.read file) :
    reportOf after options plan = reportOf tree options plan := by
  have hplan : ScanOutcome.ofPlan after plan = ScanOutcome.ofPlan tree plan := by
    rw [ScanOutcome.ofPlan, ScanOutcome.ofPlan]
    congr 1
    · refine List.filterMap_congr fun file hfile => ?_
      rw [ScanOutcome.ofFile?, ScanOutcome.ofFile?, hread file hfile]
    · refine List.filterMap_congr fun file hfile => ?_
      rw [ScanOutcome.readError?, ScanOutcome.readError?, hread file hfile]
  rw [reportOf, reportOf, hplan]

/-- Two scans end alike, in a tree and in that tree with the new file. Either they write and report the same, in the
same places, or neither can write its report. -/
def EndAlike (before now : Except CommandError Effect) : Prop :=
  (∃ effect effect', before = .ok effect ∧ now = .ok effect' ∧ effect'.stdout = effect.stdout ∧
    effect'.stderr = effect.stderr ∧ effect'.status = effect.status ∧
    effect.tree.Gains effect'.tree Config.fileName ({} : Config).print) ∨
  ∃ path fault fault', before = .error (.unwritable path fault) ∧ now = .error (.unwritable path fault') ∧
    (fault' = fault ∨ (fault = .notFound ∧ fault' = .notAFolder))

include h

theorem runScan_new {options : ScanOptions} (hnone : Config.file? tree (options.sourceRoot.getD ['.']) = none)
    (hpaths : ∀ p ∈ options.paths, after.locate (Path.join ['.'] p) ≠ .ok [Config.fileName])
    (houtput : ∀ p, options.output = some p → after.locate p ≠ .ok [Config.fileName]) (inColour : Bool) :
    scanReport after options = scanReport tree options ∧
      EndAlike (runScan tree inColour options) (runScan after inColour options) := by
  obtain ⟨plan, hplan, hplan', hread⟩ := ScanPlan.make_new h hnone hpaths
  have hreport := reportOf_congr options hread
  constructor
  · rw [scanReport_eq, scanReport_eq, hplan, hplan']
    exact congrArg Except.ok hreport
  rw [runScan_eq, runScan_eq, hplan, hplan']
  dsimp only
  rw [hreport]
  cases hout : options.output with
  | none => exact .inl ⟨_, _, rfl, rfl, rfl, rfl, rfl, h⟩
  | some path =>
      dsimp only
      rcases h.alike_write (houtput path hout) (rendered options (reportOf tree options plan) false) with
        ⟨changed, changed', hwrite, hwrite', hgains⟩ | ⟨fault, fault', hwrite, hwrite', hfault⟩
      · rw [hwrite, hwrite']
        exact .inl ⟨_, _, rfl, rfl, rfl, rfl, rfl, hgains⟩
      · rw [hwrite, hwrite']
        exact .inr ⟨path, fault, fault', rfl, rfl, hfault⟩

omit h

theorem locate_config (tree : Tree) : tree.locate (Path.join ['.'] Config.fileName) =
    if (tree.get? [Config.fileName]).isSome = true then .ok [Config.fileName] else .error .notFound := by
  have hsteps : Tree.stepsOf (Path.join ['.'] Config.fileName) = .ok [['.'], Config.fileName] := by decide +kernel
  have hstep : tree.step [] Config.fileName = _ := Tree.step_of_isName Config.isName_fileName rfl
  rw [Tree.locate, hsteps]
  show [Config.fileName].foldlM tree.step [] = _
  rw [List.foldlM_cons, hstep, List.nil_append]
  split <;> rfl

theorem exists?_config (tree : Tree) :
    tree.exists? (Path.join ['.'] Config.fileName) = (tree.get? [Config.fileName]).isSome := by
  rw [Tree.exists?, Tree.find?, locate_config]
  cases hget : tree.get? [Config.fileName] with
  | none => rfl
  | some entry => exact congrArg Option.isSome hget

/-- In the working directory the configuration is now loaded from the new file. -/
theorem load_config {tree after : Tree} (h : tree.Gains after Config.fileName ({} : Config).print) :
    Config.load after ['.'] = .ok ⟨{}, true⟩ := by
  have hexists : after.exists? (Path.join ['.'] Config.fileName) = true := by
    rw [exists?_config, h.get?_new]
    rfl
  have hlocate : after.locate (Path.join ['.'] Config.fileName) = .ok [Config.fileName] := by
    rw [locate_config, h.get?_new]
    rfl
  rw [Config.load, Config.file?, if_pos hexists]
  simp only [Config.loadFile_new h hlocate]
  rfl

theorem exists_write_config {tree : Tree} (hfresh : tree.get? [Config.fileName] = none) (text : Text) :
    ∃ after, tree.write (Path.join ['.'] Config.fileName) text = .ok after ∧ tree.Gains after Config.fileName text := by
  have hroom : tree.hasRoom [] Config.fileName := by
    refine ⟨Config.isName_fileName, rfl, ?_⟩
    rw [List.nil_append, hfresh]
    nofun
  have hput : tree.put? [] Config.fileName (.text text) = some _ := dif_pos hroom
  have hwrite : tree.write (Path.join ['.'] Config.fileName) text = tree.writeIn false [] Config.fileName text := rfl
  refine ⟨_, ?_, Tree.gains_put? hfresh hput⟩
  rw [hwrite, Tree.writeIn, hput]
  rfl

/-- Where there is a configuration already, the command changes nothing and fails. Else it adds the one file, from
which the usual configuration is then loaded; and if nothing had the name of a configuration anywhere, then every
scan that does not name the new file reports what it would have reported, and ends as it would have ended. -/
theorem runInit_neutral (tree : Tree) (inColour : Bool) :
    ((tree.get? [Config.fileName]).isSome = true →
      ∃ effect, runInit tree inColour = .ok effect ∧ effect.tree = tree ∧ effect.status = .failure) ∧
    (tree.get? [Config.fileName] = none →
      ∃ effect, runInit tree inColour = .ok effect ∧ effect.status = .success ∧
        tree.Gains effect.tree Config.fileName ({} : Config).print ∧
        Config.load effect.tree ['.'] = .ok ⟨{}, true⟩ ∧
        ((∀ e ∈ tree.entries, e.1.getLast? ≠ some Config.fileName) →
          ∀ (options : ScanOptions) (scanColour : Bool),
            (∀ p ∈ options.paths, effect.tree.locate (Path.join ['.'] p) ≠ .ok [Config.fileName]) →
            (∀ p, options.output = some p → effect.tree.locate p ≠ .ok [Config.fileName]) →
            scanReport effect.tree options = scanReport tree options ∧
              EndAlike (runScan tree scanColour options) (runScan effect.tree scanColour options))) := by
  constructor
  · intro hsome
    rw [runInit]
    simp only [exists?_config, hsome, if_true]
    exact ⟨_, rfl, rfl, rfl⟩
  · intro hfresh
    obtain ⟨after, hwrite, hgains⟩ := exists_write_config hfresh ({} : Config).print
    have hinit : ∃ effect, runInit tree inColour = .ok effect ∧ effect.tree = after ∧ effect.status = .success := by
      rw [runInit]
      simp only [exists?_config, hfresh, writeFile, hwrite]
      exact ⟨_, rfl, rfl, rfl⟩
    obtain ⟨effect, hrun, rfl, hstatus⟩ := hinit
    refine ⟨effect, hrun, hstatus, hgains, load_config hgains, fun hnone options scanColour hpaths houtput => ?_⟩
    exact runScan_new hgains (Config.file?_eq_none hnone _) hpaths houtput scanColour

/-- A file with a note, scanned into a file, and a folder with the name of a configuration. -/
theorem runInit_neutral_output :
    (∃ tree effect, ∃ options : ScanOptions, runInit tree false = .ok effect ∧ effect.status = .success ∧
      options.paths = ["src/a.py"] ∧ options.output = some "report.txt" ∧
      (scanReport tree options).toOption.map (·.noteCount) = some 1 ∧
      scanReport effect.tree options = scanReport tree options ∧
      EndAlike (runScan tree true options) (runScan effect.tree true options)) ∧
    ∃ effect, runInit (Tree.empty.add [Config.fileName] .folder) true = .ok effect ∧ effect.status = .failure := by
  let tree := (Tree.empty.add ["src", "a.py"] (.text "# TODO: x\ny = 1\n")).add ["report.txt"] .binary
  let options : ScanOptions := { paths := ["src/a.py"], output := some "report.txt", denyWarnings := true }
  constructor
  · obtain ⟨effect, hrun, hstatus, hgains, -, hscan⟩ := (runInit_neutral tree false).2 (by decide +kernel)
    have hlocate : tree.locate (Path.join ['.'] "src/a.py") = .ok ["src", "a.py"] := by decide +kernel
    have hlocate' : tree.locate "report.txt" = .ok ["report.txt"] := by decide +kernel
    refine ⟨tree, effect, options, hrun, hstatus, rfl, rfl, by decide +kernel, ?_⟩
    refine hscan (by decide +kernel) options true (fun p hp heq => ?_) (fun p hp heq => ?_)
    · cases List.mem_singleton.mp hp
      rw [(hgains.locate_eq_ok hlocate).1] at heq
      revert heq
      decide
    · cases hp
      rw [(hgains.locate_eq_ok hlocate').1] at heq
      revert heq
      decide
  · obtain ⟨effect, hrun, -, hstatus⟩ :=
      (runInit_neutral (Tree.empty.add [Config.fileName] .folder) true).1 (by decide +kernel)
    exact ⟨effect, hrun, hstatus⟩

end Command
end Marginalia
