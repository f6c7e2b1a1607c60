import Marginalia.Proofs.Listing
import Marginalia.Proofs.Merging
import Marginalia.Proofs.TableEdits

/-! The language of a file, from its discovery to the report. A walk lists only files in a language that the
table knows, a scan asks the table again by the same path, and the style is looked up by the tag. The three
answers agree: a file that a walk lists is reported in the language that let the walk list it. Every built-in
extension and name leads to a language with a style, so a tag without one can only come from the extensions of
a configuration. A listed file that holds no text, or cannot be reached, is not reported in any language: it
has a read error in place of all that. -/

namespace Marginalia

open LanguageTable (Edit builtin builtinLanguages builtinFileNames builtinName? builtinEdits entryEdits lastStyle?
  lastLanguage?)

namespace LanguageTable

theorem lastStyle?_eq_none_iff {edits : List Edit} {tag : Text} :
    lastStyle? edits tag = none ↔ ∀ name style, .language name style ∈ edits → name.lower ≠ tag.lower := by
  simp only [lastStyle?, List.findSome?_eq_none_iff, List.mem_reverse]
  constructor
  · intro h name style hmem htag
    have hnone := h _ hmem
    rw [Edit.style?, if_pos htag] at hnone
    cases hnone
  · intro h edit hedit
    cases edit with
    | language name style => exact if_neg (h name style hedit)
    | extension key name => rfl

theorem exists_of_lastLanguage? {edits : List Edit} {ext tag : Text} (h : lastLanguage? edits ext = some tag) :
    ∃ key name, .extension key name ∈ edits ∧ tag = name.lower := by
  obtain ⟨edit, hmem, hedit⟩ := List.exists_of_findSome?_eq_some h
  cases edit with
  | language name style => cases hedit
  | extension key name =>
      rw [Edit.language?] at hedit
      split at hedit
      · exact ⟨key, name, List.mem_reverse.mp hmem, (Option.some.inj hedit).symm⟩
      · cases hedit

theorem language_mem_builtinEdits {name : Text} {style : CommentStyle} :
    .language name style ∈ builtinEdits ↔ ∃ entry ∈ builtinLanguages, entry.tag = name ∧ entry.style = style := by
  simp [builtinEdits, entryEdits, eq_comm]

theorem extension_mem_builtinEdits {ext tag : Text} :
    .extension ext tag ∈ builtinEdits ↔ ∃ entry ∈ builtinLanguages, ext ∈ entry.extensions ∧ entry.tag = tag := by
  simp [builtinEdits, entryEdits]

theorem lastStyle?_builtinEdits_eq_none_iff {tag : Text} :
    lastStyle? builtinEdits tag = none ↔ ∀ entry ∈ builtinLanguages, entry.tag.lower ≠ tag.lower := by
  rw [lastStyle?_eq_none_iff]
  constructor
  · intro h entry hentry
    exact h _ _ (language_mem_builtinEdits.mpr ⟨entry, hentry, rfl, rfl⟩)
  · intro h name style hmem
    obtain ⟨entry, hentry, rfl, -⟩ := language_mem_builtinEdits.mp hmem
    exact h entry hentry

/-- A built-in extension leads to a built-in language. -/
theorem exists_of_lastLanguage?_builtinEdits {ext tag : Text} (h : lastLanguage? builtinEdits ext = some tag) :
    ∃ entry ∈ builtinLanguages, tag = entry.tag.lower := by
  obtain ⟨key, name, hmem, rfl⟩ := exists_of_lastLanguage? h
  obtain ⟨entry, hentry, -, rfl⟩ := extension_mem_builtinEdits.mp hmem
  exact ⟨entry, hentry, rfl⟩

/-- So does a built-in name. -/
theorem exists_of_builtinName? {name tag : Text} (h : builtinName? name = some tag) :
    ∃ entry ∈ builtinLanguages, tag = entry.tag.lower := by
  have hall : ∀ pair ∈ builtinFileNames, ∃ entry ∈ builtinLanguages, pair.2 = entry.tag.lower := by
    decide +kernel
  obtain ⟨before, after, hnames, -⟩ := List.lookup_eq_some_iff.mp h
  exact hall (name, tag) (hnames ▸ List.mem_append_right _ List.mem_cons_self)

end LanguageTable

namespace Config

/-- The language is one of the built-in ones or one of the configuration's own, whatever the case of its
letters. -/
def KnowsLanguage (config : Config) (tag : Text) : Prop :=
  (∃ entry ∈ builtinLanguages, entry.tag.lower = tag.lower) ∨ ∃ key ∈ config.languages.keys, key.lower = tag.lower

/-- The file is in the language by an extension of the configuration. -/
def SetsLanguage (config : Config) (file tag : Text) : Prop :=
  (Path.fileName? file).bind builtinName? = none ∧
    ∃ ext, Path.extension? file = some ext ∧ lastLanguage? config.edits ext = some tag

theorem language_mem_edits {config : Config} {name : Text} {style : CommentStyle} :
    .language name style ∈ config.edits ↔ (name, style) ∈ config.languages.entries := by
  simp [edits]

theorem extension_mem_edits {config : Config} {ext tag : Text} :
    .extension ext tag ∈ config.edits ↔ (ext, tag) ∈ config.extensions.entries := by
  simp [edits]

theorem lastStyle?_edits_eq_none_iff {config : Config} {tag : Text} :
    lastStyle? config.edits tag = none ↔ ∀ key ∈ config.languages.keys, key.lower ≠ tag.lower := by
  rw [LanguageTable.lastStyle?_eq_none_iff]
  constructor
  · intro h key hkey
    obtain ⟨⟨key, style⟩, hentry, rfl⟩ := List.mem_map.mp hkey
    exact h key style (language_mem_edits.mpr hentry)
  · intro h name style hmem
    exact h name (List.mem_map_of_mem (language_mem_edits.mp hmem))

theorem isFallback_resolve_iff {config : Config} {tag : Text} :
    (config.languageTable.resolve tag).isFallback = true ↔ ¬ config.KnowsLanguage tag := by
  have hnone : (config.languageTable.resolve tag).isFallback = true ↔
      lastStyle? config.edits tag = none ∧ lastStyle? builtinEdits tag = none := by
    rw [languageTable_eq_edited, LanguageTable.resolve_edited, ← Option.or_eq_none_iff]
    cases (lastStyle? config.edits tag).or (lastStyle? builtinEdits tag) <;> simp [ResolvedStyle.ofStyle?]
  rw [hnone, lastStyle?_edits_eq_none_iff, LanguageTable.lastStyle?_builtinEdits_eq_none_iff, KnowsLanguage, not_or]
  simp only [not_exists, not_and, ne_eq]
  exact And.comm

/-- A language that the configuration's extensions do not set is a built-in one. -/
theorem setsLanguage_or_knows {config : Config} {file tag : Text}
    (h : config.languageTable.languageOf? file = some tag) :
    config.SetsLanguage file tag ∨ config.KnowsLanguage tag := by
  have hknows : (∃ entry ∈ builtinLanguages, tag = entry.tag.lower) → config.KnowsLanguage tag := by
    rintro ⟨entry, hentry, rfl⟩
    exact Or.inl ⟨entry, hentry, (Text.lower_lower _).symm⟩
  rw [languageTable_eq_edited, LanguageTable.languageOf?_edited] at h
  cases hname : (Path.fileName? file).bind builtinName? with
  | some language =>
      rw [hname, Option.some_or] at h
      obtain ⟨name, -, hbuiltin⟩ := Option.bind_eq_some_iff.mp hname
      rw [Option.some.inj h] at hbuiltin
      exact Or.inr (hknows (LanguageTable.exists_of_builtinName? hbuiltin))
  | none =>
      rw [hname, Option.none_or] at h
      obtain ⟨ext, hext, hlanguage⟩ := Option.bind_eq_some_iff.mp h
      rcases Option.or_eq_some_iff.mp hlanguage with hset | ⟨-, hbuiltin⟩
      · exact Or.inl ⟨hname, ext, hext, hset⟩
      · exact Or.inr (hknows (LanguageTable.exists_of_lastLanguage?_builtinEdits hbuiltin))

theorem not_setsLanguage_of_empty {config : Config} (h : config.extensions = .empty) (file tag : Text) :
    ¬ config.SetsLanguage file tag := by
  rintro ⟨-, ext, -, hset⟩
  obtain ⟨key, name, hmem, -⟩ := LanguageTable.exists_of_lastLanguage? hset
  have hentry := extension_mem_edits.mp hmem
  rw [h] at hentry
  cases hentry

end Config

/-- The plan for scanning what a discovery found. -/
def ScanPlan.ofDiscovery (config : Config) (found : Discovery) : ScanPlan :=
  ⟨config, config.languageTable, found.files, found.ordered⟩

/-- The discovery lists the file because a walk met it: below the base or a path that it includes, or below a
folder that was given by name. -/
inductive Discovery.Walks (tree : Tree) (table : LanguageTable) : Discovery → Text → Prop
  | below {base file : Text} {includes ignores : List Text}
      (h : file ∈ (belowBase tree base includes ignores table).files) :
      Walks tree table (belowBase tree base includes ignores table) file
  | given {base path file : Text} {paths ignores : List Text} (hpath : path ∈ paths)
      (hfolder : tree.isFile (Path.join base path) = false)
      (h : file ∈ (walk tree (.ofEntries base ignores) table (Path.join base path)).1) :
      Walks tree table (ofPaths tree base paths ignores table) file

namespace Discovery.Walks

variable {tree : Tree} {table : LanguageTable} {found : Discovery} {file : Text}

theorem mem_files (h : Walks tree table found file) : file ∈ found.files := by
  cases h with
  | below h => exact h
  | given hpath hfolder h =>
      refine mem_merge_map.mpr ⟨_, hpath, ?_⟩
      dsimp only
      rw [hfolder]
      exact h

theorem exists_language (h : Walks tree table found file) : ∃ tag, table.languageOf? file = some tag := by
  rw [← Option.isSome_iff_exists]
  cases h with
  | below h =>
      obtain ⟨root, -, -, -, hknown⟩ := mem_belowBase.mp h
      exact hknown
  | given hpath hfolder h => exact (mem_walk.mp h).2.2

/-- All that is found below given folders is met by a walk. -/
theorem of_mem_ofPaths {base : Text} {paths ignores : List Text}
    (hfolders : ∀ path ∈ paths, tree.isFile (Path.join base path) = false)
    (h : file ∈ (ofPaths tree base paths ignores table).files) :
    Walks tree table (ofPaths tree base paths ignores table) file := by
  obtain ⟨path, hpath, hfile⟩ := mem_merge_map.mp h
  dsimp only at hfile
  rw [hfolders path hpath] at hfile
  exact .given hpath (hfolders path hpath) hfile

end Discovery.Walks

/-- A scan plans for what a discovery found, and if no file is given by name, walks met all of it. -/
theorem ScanPlan.exists_of_make {tree : Tree} {sourceRoot : Option Text} {paths : List Text} {plan : ScanPlan}
    (h : make tree sourceRoot paths = .ok plan) :
    ∃ found, plan = .ofDiscovery plan.config found ∧
      ((∀ path ∈ paths, tree.isFile (Path.join ['.'] path) = false) →
        ∀ file ∈ found.files, Discovery.Walks tree plan.config.languageTable found file) := by
  obtain ⟨loaded, -, hplan⟩ := exists_of_bind_eq_ok h
  cases hplan
  refine ⟨_, rfl, fun hfolders file hfile => ?_⟩
  dsimp only at hfile ⊢
  split at hfile
  · next hempty =>
    rw [if_pos hempty]
    exact .below hfile
  · next hempty =>
    rw [if_neg hempty]
    exact .of_mem_ofPaths hfolders hfile

namespace ScanOutcome

variable {tree : Tree} {plan : ScanPlan} {file language : Text}

theorem unresolvedLanguage_mem_scan {source : Source} {table : LanguageTable} :
    .unresolvedLanguage file language ∈ (source.scan table).issues ↔
      file = source.path ∧ language = source.language ∧ (table.resolve source.language).isFallback = true := by
  have hwarnings : .unresolvedLanguage file language ∉
      (source.extract table).findings.warnings.map (Issue.ofWarning · source) := by
    intro h
    obtain ⟨warning, -, hwarning⟩ := List.mem_map.mp h
    cases hwarning
  have hfallback : (source.extract table).styleFallback = (table.resolve source.language).isFallback := rfl
  simp only [Source.scan, List.mem_append, hwarnings, false_or, hfallback]
  cases (table.resolve source.language).isFallback <;> simp

theorem isOk_read_iff : (tree.read file).isOk = true ↔ ∃ text, tree.read file = .ok text := by
  cases tree.read file with
  | ok text => simp [Except.isOk, Except.toBool]
  | error fault => simp [Except.isOk, Except.toBool]

theorem mem_files_iff {scanned : ScannedFile} :
    scanned ∈ (ofPlan tree plan).files ↔
      ∃ path ∈ plan.files, ∃ text, tree.read path = .ok text ∧
        scanned = (Source.detect path text plan.table).scan plan.table := by
  simp only [ofPlan, List.mem_filterMap, ofFile?_eq_some]

theorem mem_issues_iff {issue : Issue} :
    issue ∈ (ofPlan tree plan).issues ↔
      (∃ scanned ∈ (ofPlan tree plan).files, issue ∈ scanned.issues) ∨
        ∃ error ∈ (ofPlan tree plan).readErrors, .readError error.1 error.2 = issue := by
  rw [issues, (Issue.perm_sorted _).mem_iff, List.mem_append, List.mem_flatMap, List.mem_map]

/-- A language is reported as unresolved for the files that are read and whose language has no style. -/
theorem unresolvedLanguage_mem_issues :
    .unresolvedLanguage file language ∈ (ofPlan tree plan).issues ↔
      file ∈ plan.files ∧ (tree.read file).isOk = true ∧
        language = (plan.table.languageOf? file).getD Source.unknownLanguage ∧
        (plan.table.resolve language).isFallback = true := by
  rw [mem_issues_iff, isOk_read_iff]
  constructor
  · rintro (⟨scanned, hscanned, hissue⟩ | ⟨error, -, herror⟩)
    · obtain ⟨path, hpath, text, hread, rfl⟩ := mem_files_iff.mp hscanned
      obtain ⟨rfl, rfl, hfallback⟩ := unresolvedLanguage_mem_scan.mp hissue
      exact ⟨hpath, ⟨text, hread⟩, rfl, hfallback⟩
    · cases herror
  · rintro ⟨hfile, ⟨text, hread⟩, rfl, hfallback⟩
    refine Or.inl ⟨_, mem_files_iff.mpr ⟨file, hfile, text, hread, rfl⟩, ?_⟩
    exact unresolvedLanguage_mem_scan.mpr ⟨rfl, rfl, hfallback⟩

theorem readError_mem_issues {message : Text} :
    .readError file message ∈ (ofPlan tree plan).issues ↔
      file ∈ plan.files ∧ ∃ fault, tree.read file = .error fault ∧
        message = "Failed to read " ++ file ++ ": " ++ fault.message := by
  rw [mem_issues_iff]
  constructor
  · rintro (⟨scanned, hscanned, hissue⟩ | ⟨error, hmem, herror⟩)
    · obtain ⟨path, -, text, -, rfl⟩ := mem_files_iff.mp hscanned
      rcases List.mem_append.mp hissue with hissue | hissue
      · obtain ⟨warning, -, hwarning⟩ := List.mem_map.mp hissue
        cases hwarning
      · split at hissue
        · cases List.mem_singleton.mp hissue
        · cases hissue
    · cases herror
      obtain ⟨path, hpath, hunread⟩ := List.mem_filterMap.mp hmem
      obtain ⟨fault, hread, rfl⟩ := readError?_eq_some.mp hunread
      exact ⟨hpath, fault, hread, rfl⟩
  · rintro ⟨hfile, fault, hread, rfl⟩
    refine Or.inr ⟨(file, _), List.mem_filterMap.mpr ⟨file, hfile, ?_⟩, rfl⟩
    exact readError?_eq_some.mpr ⟨fault, hread, rfl⟩

/-- What an outcome reports about the language of a file, given the tag that the table has for it. -/
structure ReportsLanguage (outcome : ScanOutcome) (tree : Tree) (config : Config) (file tag : Text) : Prop where
  /-- The tag is what the table tells of the path. -/
  detected : config.languageTable.languageOf? file = some tag
  /-- The file is reported if it can be read. -/
  reported : (∃ scanned ∈ outcome.files, scanned.path = file) ↔ (tree.read file).isOk = true
  /-- The file has a read error if it cannot be read. -/
  unread : (∃ message, .readError file message ∈ outcome.issues) ↔ (tree.read file).isOk = false
  /-- No report of the file has another language. -/
  language : ∀ scanned ∈ outcome.files, scanned.path = file → scanned.language = tag
  /-- The language is unresolved if the extensions of the configuration set it and nothing defines it. -/
  unresolved : ∀ language, .unresolvedLanguage file language ∈ outcome.issues ↔
    language = tag ∧ (tree.read file).isOk = true ∧ config.SetsLanguage file tag ∧ ¬ config.KnowsLanguage tag

end ScanOutcome

namespace Discovery

variable {tree : Tree} {config : Config} {found : Discovery} {file : Text}

theorem reportsLanguage_of_walks (h : Walks tree config.languageTable found file) :
    ∃ tag, (ScanOutcome.ofPlan tree (.ofDiscovery config found)).ReportsLanguage tree config file tag := by
  obtain ⟨tag, htag⟩ := h.exists_language
  have hfile : file ∈ (ScanPlan.ofDiscovery config found).files := h.mem_files
  have htable : (ScanPlan.ofDiscovery config found).table = config.languageTable := rfl
  refine ⟨tag, htag, ?_, ?_, ?_, ?_⟩
  · rw [ScanOutcome.isOk_read_iff]
    constructor
    · rintro ⟨scanned, hscanned, hpath⟩
      obtain ⟨path, -, text, hread, rfl⟩ := ScanOutcome.mem_files_iff.mp hscanned
      exact ⟨text, hpath ▸ hread⟩
    · rintro ⟨text, hread⟩
      exact ⟨_, ScanOutcome.mem_files_iff.mpr ⟨file, hfile, text, hread, rfl⟩, rfl⟩
  · simp only [ScanOutcome.readError_mem_issues, hfile, true_and]
    cases hread : tree.read file with
    | ok text => simp [Except.isOk, Except.toBool]
    | error fault => simp [Except.isOk, Except.toBool]
  · rintro scanned hscanned rfl
    obtain ⟨path, -, text, -, rfl⟩ := ScanOutcome.mem_files_iff.mp hscanned
    show (config.languageTable.languageOf? path).getD Source.unknownLanguage = tag
    have hpath : config.languageTable.languageOf? path = some tag := htag
    rw [hpath, Option.getD_some]
  · intro language
    rw [ScanOutcome.unresolvedLanguage_mem_issues, htable, htag, Option.getD_some]
    constructor
    · rintro ⟨-, hread, rfl, hfallback⟩
      have hunknown := Config.isFallback_resolve_iff.mp hfallback
      exact ⟨rfl, hread, (Config.setsLanguage_or_knows htag).resolve_right hunknown, hunknown⟩
    · rintro ⟨rfl, hread, -, hunknown⟩
      exact ⟨hfile, hread, rfl, Config.isFallback_resolve_iff.mpr hunknown⟩

/-- Without extensions, no language of a file that a walk met is unresolved. -/
theorem not_unresolved_of_empty (hempty : config.extensions = .empty)
    (hwalks : ∀ file ∈ found.files, Walks tree config.languageTable found file) (file language : Text) :
    .unresolvedLanguage file language ∉ (ScanOutcome.ofPlan tree (.ofDiscovery config found)).issues := by
  intro hissue
  have hfile : file ∈ found.files := (ScanOutcome.unresolvedLanguage_mem_issues.mp hissue).1
  obtain ⟨tag, hreports⟩ := reportsLanguage_of_walks (hwalks file hfile)
  have hsets := ((hreports.unresolved language).mp hissue).2.2.1
  exact Config.not_setsLanguage_of_empty hempty file tag hsets

/-- A file that a walk lists is reported in the language that discovery found, if it can be read at all, and
that language is unresolved only by the extensions of the configuration. Where walks met all files there is no
unresolved language without extensions, and they meet all files of a scan unless some are given by name. -/
theorem walks_reportsLanguage (tree : Tree) :
    (∀ (config : Config) found file, Walks tree config.languageTable found file →
      ∃ tag, (ScanOutcome.ofPlan tree (.ofDiscovery config found)).ReportsLanguage tree config file tag) ∧
    (∀ (config : Config) found, config.extensions = .empty →
      (∀ file ∈ found.files, Walks tree config.languageTable found file) →
      ∀ file language, .unresolvedLanguage file language ∉
        (ScanOutcome.ofPlan tree (.ofDiscovery config found)).issues) ∧
    (∀ sourceRoot paths plan, ScanPlan.make tree sourceRoot paths = .ok plan →
      ∃ found, plan = .ofDiscovery plan.config found ∧
        ((∀ path ∈ paths, tree.isFile (Path.join ['.'] path) = false) →
          ∀ file ∈ found.files, Walks tree plan.config.languageTable found file)) := by
  refine ⟨fun config found file => ?_, fun config found => ?_, fun sourceRoot paths plan => ?_⟩
  · exact reportsLanguage_of_walks
  · exact not_unresolved_of_empty
  · exact ScanPlan.exists_of_make

end Discovery

/-- A configuration with an extension for a language that nothing defines. -/
def Config.squirrel : Config := { extensions := Dict.empty.insert "nut" "Squirrel" }

namespace Discovery

theorem languageOf?_squirrel : Config.squirrel.languageTable.languageOf? "./a.nut" = some "squirrel".toList := by
  rw [Config.languageTable_eq_edited, LanguageTable.languageOf?_edited]
  decide +kernel

theorem setsLanguage_squirrel : Config.squirrel.SetsLanguage "./a.nut" "squirrel" :=
  ⟨by decide +kernel, "nut", by decide +kernel, by decide +kernel⟩

theorem not_knowsLanguage_squirrel : ¬ Config.squirrel.KnowsLanguage "squirrel" := by
  have hbuiltin : ∀ entry ∈ builtinLanguages, entry.tag.lower ≠ Text.lower "squirrel" := by decide +kernel
  rintro (⟨entry, hentry, htag⟩ | ⟨key, hkey, -⟩)
  · exact hbuiltin entry hentry htag
  · cases hkey

theorem walks_squirrel {tree : Tree} (h : tree.walk? "./" = some (["./a.nut".toList], 0)) :
    Walks tree Config.squirrel.languageTable (belowBase tree "./" [] [] Config.squirrel.languageTable) "./a.nut" := by
  have hlists : tree.Lists "./" "./a.nut" := ⟨_, h, List.mem_singleton_self _⟩
  refine .below (mem_belowBase.mpr ⟨"./", List.mem_singleton_self _, hlists, rfl, ?_⟩)
  rw [languageOf?_squirrel]
  rfl

/-- A file of text whose extension leads to a language without a style is reported so; under the usual
configuration there are none of the kind. A scan of a folder meets the file in it on a walk. -/
theorem walks_reportsLanguage_squirrel :
    (∃ tree found, Walks tree Config.squirrel.languageTable found "./a.nut" ∧
      .unresolvedLanguage "./a.nut" "squirrel" ∈
        (ScanOutcome.ofPlan tree (.ofDiscovery Config.squirrel found)).issues) ∧
    (∀ tree base file language, .unresolvedLanguage file language ∉
      (ScanOutcome.ofPlan tree
        (.ofDiscovery {} (belowBase tree base [] [] ({} : Config).languageTable))).issues) ∧
    ∃ tree plan found, ScanPlan.make tree none ["src"] = .ok plan ∧ plan = .ofDiscovery plan.config found ∧
      Walks tree plan.config.languageTable found "./src/a.py" := by
  refine ⟨?_, fun tree base => ?_, ?_⟩
  · have hwalk : (Tree.empty.add ["a.nut"] (.text "# TODO: b")).walk? "./" = some (["./a.nut".toList], 0) := by
      decide +kernel
    have hwalks := walks_squirrel hwalk
    obtain ⟨tag, hreports⟩ := (walks_reportsLanguage _).1 Config.squirrel _ _ hwalks
    have htag := Option.some.inj (hreports.detected.symm.trans languageOf?_squirrel)
    refine ⟨_, _, hwalks, (hreports.unresolved _).mpr ⟨htag.symm, by decide +kernel, ?_, ?_⟩⟩
    · exact htag ▸ setsLanguage_squirrel
    · exact htag ▸ not_knowsLanguage_squirrel
  · exact (walks_reportsLanguage tree).2.1 {} _ rfl fun file hfile => .below hfile
  · let tree := Tree.empty.add ["src", "a.py"] (.text "# TODO: b")
    have hfiles : (ScanPlan.make tree none ["src"]).toOption.map (·.files) = some [("./src/a.py" : Text)] := by
      decide +kernel
    have hfolder : ∀ path ∈ [("src" : Text)], tree.isFile (Path.join ['.'] path) = false := by decide +kernel
    cases hplan : ScanPlan.make tree none ["src"] with
    | error cause =>
        rw [hplan] at hfiles
        cases hfiles
    | ok plan =>
        obtain ⟨found, hfound, hwalks⟩ := (walks_reportsLanguage tree).2.2 none ["src"] plan hplan
        refine ⟨tree, plan, found, hplan, hfound, hwalks hfolder _ ?_⟩
        have hsame : found.files = plan.files := by rw [hfound]; rfl
        rw [hplan] at hfiles
        have hlisted : plan.files = [("./src/a.py" : Text)] := Option.some.inj hfiles
        rw [hsame, hlisted]
        exact List.mem_singleton_self _

/-- A file that holds no text has no unresolved language, whatever its extension. -/
theorem not_unresolved_binary :
    ¬ ∀ tree (config : Config) found file, config.validate = .ok () →
      Walks tree config.languageTable found file → ∃ tag, config.languageTable.languageOf? file = some tag ∧
        ((∃ language, .unresolvedLanguage file language ∈
            (ScanOutcome.ofPlan tree (.ofDiscovery config found)).issues) ↔
          config.SetsLanguage file tag ∧ ¬ config.KnowsLanguage tag) := by
  intro hclaim
  have hwalk : (Tree.empty.add ["a.nut"] .binary).walk? "./" = some (["./a.nut".toList], 0) := by
    decide +kernel
  have hwalks := walks_squirrel hwalk
  obtain ⟨tag, hlanguage, hunresolved⟩ := hclaim _ _ _ _ (by decide +kernel) hwalks
  have htag := Option.some.inj (hlanguage.symm.trans languageOf?_squirrel)
  obtain ⟨language, hissue⟩ := hunresolved.mpr
    ⟨htag ▸ setsLanguage_squirrel, htag ▸ not_knowsLanguage_squirrel⟩
  have hread := (ScanOutcome.unresolvedLanguage_mem_issues.mp hissue).2.1
  revert hread
  decide +kernel

end Discovery
end Marginalia
