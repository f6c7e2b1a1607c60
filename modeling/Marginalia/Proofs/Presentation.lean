import Marginalia.Command.Run
import Marginalia.Proofs.Merging

/-! How a scan is presented and how it ends. What a scan shows of its notes is told by its options and by what
was found: of the notes of each file those of the kinds asked for, in order. Issues are taken from the outcome
after the notes are selected, but belong to its files apart from their notes, so neither the selection nor the
form of a report has a part in which issues there are, and the exit status follows from these. Issues are
counted twice, for the status and for the summary, with one severity each; the two severities agree. Even the
failure to write a report is the same for every report, since it depends on the path alone. -/

namespace Marginalia

/-- Whether a text can be written to a path, and if not then why, does not depend on the text. -/
theorem Tree.write_eq_error_or_ok (tree : Tree) (path text text' : Text) :
    (∃ fault, tree.write path text = .error fault ∧ tree.write path text' = .error fault) ∨
      ∃ after after', tree.write path text = .ok after ∧ tree.write path text' = .ok after' := by
  simp only [write, bind, Except.bind]
  cases stepsOf path with
  | error fault => exact Or.inl ⟨fault, rfl, rfl⟩
  | ok steps =>
      dsimp only
      generalize (steps.reverse.dropWhile List.isEmpty).reverse = named
      cases named.dropLast.foldlM tree.step [] with
      | error fault => exact Or.inl ⟨fault, rfl, rfl⟩
      | ok folder =>
          dsimp only
          split
          · cases tree.step folder (named.getLast?.getD []) with
            | error fault => exact Or.inl ⟨fault, rfl, rfl⟩
            | ok place => exact Or.inl ⟨.isAFolder, rfl, rfl⟩
          split
          · exact Or.inl ⟨.notAFolder, rfl, rfl⟩
          split
          · exact Or.inl ⟨.isAFolder, rfl, rfl⟩
          split
          · exact Or.inl ⟨.tooLong, rfl, rfl⟩
          -- Only here is the text used, and whether there is room for it does not depend on it.
          by_cases hroom : tree.hasRoom folder (named.getLast?.getD [])
          · simp only [put?, dif_pos hroom]
            exact Or.inr ⟨_, _, rfl, rfl⟩
          · simp only [put?, dif_neg hroom]
            exact Or.inl ⟨.isAFolder, rfl, rfl⟩

structure Listing where
  path : Text
  language : Text
  notes : List Note

def ScannedFile.listing (file : ScannedFile) : Listing := ⟨file.path, file.language, file.notes⟩

namespace Report

/-- The line that tells the numbers of errors and of warnings, unless there are none. -/
def problemLines (errors warnings : Nat) : List (List Span) :=
  if errors + warnings = 0 then []
  else [[failureMark,
    .plain (' ' :: counted (errors + warnings) "problem" "problems" ++ " (" ++ decimal errors ++ [' ']),
    .coloured .red (pluralize errors "error" "errors"),
    .plain (", " ++ decimal warnings ++ [' ']),
    .coloured .yellow (pluralize warnings "warning" "warnings"),
    .plain [')']]]

def listingJson (listing : Listing) : Json.Written :=
  .object [("path", .string listing.path), ("language", .string listing.language),
    ("annotations", .array (listing.notes.map noteJson))]

/-- What a written report consists of. As JSON: the files that have notes, each with its notes, then the issues
and the numbers. For readers: the notes file by file, the issues, a line that tells how much was found, and the
numbers of errors and of warnings. -/
def Tells (options : ScanOptions) (inColour : Bool) (text : Text) (scanned : Nat) (listings : List Listing)
    (issues : List Issue) (errors warnings : Nat) : Prop :=
  match options.format with
  | .json => text = "\x7b\n  \"files\": " ++
      Json.Written.array ((listings.filter fun listing => !listing.notes.isEmpty).map listingJson) 1 ++
      ",\n  \"issues\": " ++ Json.Written.array (issues.map issueJson) 1 ++
      ",\n  \"summary\": \x7b\n    \"files_scanned\": " ++ decimal scanned ++
      ",\n    \"annotations\": " ++ decimal (listings.flatMap Listing.notes).length ++
      ",\n    \"errors\": " ++ decimal errors ++ ",\n    \"warnings\": " ++ decimal warnings ++
      "\n  \x7d\n\x7d\n"
  | .text => ∃ (gutter : Nat) (found : List Span), found.head? = some successMark ∧
      text = renderLines inColour
        (listings.flatMap (fun listing =>
          listing.notes.flatMap (noteLines gutter (!options.noContext) listing.path)) ++
        issues.flatMap (issueLines gutter) ++ found :: problemLines errors warnings)

theorem exists_toText_eq (report : Report) (inColour : Bool) :
    ∃ (gutter : Nat) (found : List Span), found.head? = some successMark ∧
      report.toText inColour = renderLines inColour
        ((report.files.map ScannedFile.listing).flatMap (fun listing =>
          listing.notes.flatMap (noteLines gutter report.showContext listing.path)) ++
        report.issues.flatMap (issueLines gutter) ++
        found :: problemLines (report.count .error) (report.count .warning)) := by
  obtain ⟨found, hfound, hlines⟩ : ∃ found : List Span, found.head? = some successMark ∧
      report.summaryLines = found :: problemLines (report.count .error) (report.count .warning) := by
    refine ⟨_, ?_, rfl⟩
    split <;> rfl
  refine ⟨report.gutterWidth, found, hfound, ?_⟩
  rw [← hlines, toText, textLines, List.flatMap_map]
  rfl

theorem toJsonText_eq (report : Report) : report.toJsonText = "\x7b\n  \"files\": " ++
    Json.Written.array (report.filesWithNotes.map fileJson) 1 ++
    ",\n  \"issues\": " ++ Json.Written.array (report.issues.map issueJson) 1 ++
    ",\n  \"summary\": \x7b\n    \"files_scanned\": " ++ decimal report.filesScanned ++
    ",\n    \"annotations\": " ++ decimal report.noteCount ++
    ",\n    \"errors\": " ++ decimal (report.count .error) ++
    ",\n    \"warnings\": " ++ decimal (report.count .warning) ++ "\n  \x7d\n\x7d\n" := by
  -- The members of an object in the order of the text, each with the line break before it.
  let member (key : Text) (value : Json.Written) (depth : Nat) : Text :=
    Json.newline depth ++ (Json.quote key ++ ':' :: ' ' :: value depth)
  let files := member "files" (.array (report.filesWithNotes.map fileJson)) 1
  let issues := member "issues" (.array (report.issues.map issueJson)) 1
  let numbers := member "files_scanned" (.number report.filesScanned) 2 ++ [','] ++
    (member "annotations" (.number report.noteCount) 2 ++ [','] ++
    (member "errors" (.number (report.count .error)) 2 ++ [','] ++
    member "warnings" (.number (report.count .warning)) 2))
  let summary := Json.newline 1 ++ (Json.quote "summary" ++ ':' :: ' ' ::
    ('\x7b' :: numbers ++ Json.newline 1 ++ ['\x7d']))
  have hjson : report.toJsonText =
      '\x7b' :: (files ++ [','] ++ (issues ++ [','] ++ summary)) ++ Json.newline 0 ++ ['\x7d'] ++ ['\n'] := rfl
  rw [hjson]
  simp [summary, numbers, files, issues, member, Json.newline, Json.quote, Json.escape, Json.Written.number, decimal]

theorem count_eq_countP (report : Report) (severity : Severity) :
    report.count severity = report.issues.countP (·.severity == severity) := by
  simp only [count, Issue.reportSeverity_eq_severity]

theorem count_error_add_count_warning (report : Report) :
    report.count .error + report.count .warning = report.issues.length := by
  rw [count, count, List.length_eq_countP_add_countP (fun issue : Issue => issue.reportSeverity == .error)]
  congr 1
  apply List.countP_congr
  intro issue _
  cases issue.reportSeverity <;> decide

end Report

namespace Source

theorem severity_of_mem_scan {source : Source} {table : LanguageTable} {issue : Issue}
    (h : issue ∈ (source.scan table).issues) : issue.severity = .warning := by
  rcases List.mem_append.mp h with h | h
  · obtain ⟨warning, -, rfl⟩ := List.mem_map.mp h
    rfl
  · split at h
    · cases List.mem_singleton.mp h
      rfl
    · cases h

end Source

namespace ScanOutcome

variable {tree : Tree} {plan : ScanPlan}

/-- There is an error among the issues of a scan if and only if a file of it cannot be read. -/
theorem exists_error_iff :
    (∃ issue ∈ (ofPlan tree plan).issues, issue.severity = .error) ↔
      ∃ path ∈ plan.files, ∃ fault, tree.read path = .error fault := by
  have hmem : ∀ issue, issue ∈ (ofPlan tree plan).issues ↔ issue ∈ (ofPlan tree plan).unsortedIssues :=
    fun issue => (Issue.perm_sorted _).mem_iff
  constructor
  · rintro ⟨issue, hissue, hseverity⟩
    rcases List.mem_append.mp ((hmem issue).mp hissue) with h | h
    · obtain ⟨file, hfile, h⟩ := List.mem_flatMap.mp h
      obtain ⟨text, -, hscan⟩ := exists_of_mem_files hfile
      rw [hscan] at h
      rw [Source.severity_of_mem_scan h] at hseverity
      cases hseverity
    · obtain ⟨error, herror, rfl⟩ := List.mem_map.mp h
      obtain ⟨path, hpath, herror⟩ := List.mem_filterMap.mp herror
      obtain ⟨fault, hread, -⟩ := readError?_eq_some.mp herror
      exact ⟨path, hpath, fault, hread⟩
  · rintro ⟨path, hpath, fault, hread⟩
    have herror := readError?_eq_some.mpr ⟨fault, hread, rfl⟩
    have hlisted := List.mem_filterMap.mpr ⟨path, hpath, herror⟩
    exact ⟨_, (hmem _).mpr (List.mem_append_right _ (List.mem_map_of_mem hlisted)), rfl⟩

end ScanOutcome

namespace Command

def bare (note : Note) : Note := { note with anchor := none }

/-- The notes of a file that are to be shown: those of the kinds asked for, or all of them if no kind is asked
for, each with its code line unless these are not wanted. -/
def shownNotes (options : ScanOptions) (notes : List Note) : List Note :=
  (notes.filter fun note => options.filters.isEmpty || decide (note.kind ∈ options.kinds)).map fun note =>
    if options.noContext then bare note else note

theorem any_admits_eq (options : ScanOptions) (kind : NoteKind) :
    options.filters.any (·.admits kind) = decide (kind ∈ options.kinds) := by
  rw [Bool.eq_iff_iff, List.any_eq_true, decide_eq_true_iff, ScanOptions.kinds, List.mem_map]
  refine exists_congr fun filter => and_congr_right fun _ => ?_
  rw [KindFilter.admits_iff, eq_comm]

theorem map_listing_mapNotes (f : List Note → List Note) (outcome : ScanOutcome) :
    (outcome.mapNotes f).files.map ScannedFile.listing =
      (outcome.files.map ScannedFile.listing).map fun listing => { listing with notes := f listing.notes } := by
  rw [ScanOutcome.mapNotes, List.map_map, List.map_map]
  rfl

variable (tree : Tree) (inColour : Bool) (options : ScanOptions) (plan : ScanPlan)

theorem map_listing_keepKinds (outcome : ScanOutcome) :
    (outcome.keepKinds options.filters).files.map ScannedFile.listing =
      outcome.files.map fun file => { file.listing with
        notes := file.notes.filter fun note => options.filters.isEmpty || decide (note.kind ∈ options.kinds) } := by
  rw [ScanOutcome.keepKinds]
  split
  · next hempty =>
    refine List.map_congr_left fun file _ => ?_
    rw [List.filter_eq_self.mpr fun note _ => by rw [hempty, Bool.true_or]]
    rfl
  · next hsome =>
    rw [map_listing_mapNotes, List.map_map]
    simp [hsome, any_admits_eq, ScannedFile.listing, Function.comp_def]

/-- The listings of a report, in terms of what was found. -/
theorem map_listing_reportOf : (reportOf tree options plan).files.map ScannedFile.listing =
    (ScanOutcome.ofPlan tree plan).files.map fun file =>
      { file.listing with notes := shownNotes options file.notes } := by
  rw [reportOf]
  cases hcontext : options.noContext with
  | false =>
      simp [map_listing_keepKinds, shownNotes, hcontext]
  | true =>
      simp only [if_true]
      rw [ScanOutcome.withoutAnchors, map_listing_mapNotes, map_listing_keepKinds, List.map_map]
      simp [shownNotes, hcontext, Function.comp_def, bare]

theorem issues_reportOf : (reportOf tree options plan).issues = (ScanOutcome.ofPlan tree plan).issues := by
  rw [reportOf]
  dsimp only
  split <;> simp

theorem scanReport_eq : scanReport tree options =
    (ScanPlan.make tree options.sourceRoot options.paths).map (reportOf tree options) := by
  rw [scanReport]
  cases ScanPlan.make tree options.sourceRoot options.paths <;> rfl

/-- A scan fails at once for want of a plan; else it writes its report, and that may fail. -/
theorem runScan_eq : runScan tree inColour options =
    match ScanPlan.make tree options.sourceRoot options.paths with
    | .error cause => .error (.config cause)
    | .ok plan =>
      let report := reportOf tree options plan
      let status := scanStatus options report.issues
      match options.output with
      | none => .ok { tree, stdout := rendered options report inColour, status }
      | some path =>
        match tree.write path (rendered options report false) with
        | .error fault => .error (.unwritable path fault)
        | .ok after => .ok { tree := after, status } := by
  rw [runScan, scanReport_eq]
  cases ScanPlan.make tree options.sourceRoot options.paths with
  | error cause => rfl
  | ok plan =>
      cases houtput : options.output with
      | none => rfl
      | some path =>
          show (do
            let after ← writeFile tree path (rendered options (reportOf tree options plan) false)
            return ({ tree := after, status := scanStatus options (reportOf tree options plan).issues } : Effect)) = _
          rw [writeFile]
          dsimp only
          cases tree.write path (rendered options (reportOf tree options plan) false) <;> rfl

theorem tells_rendered : Report.Tells options inColour (rendered options (reportOf tree options plan) inColour)
    plan.files.length ((reportOf tree options plan).files.map ScannedFile.listing)
    (reportOf tree options plan).issues ((reportOf tree options plan).count .error)
    ((reportOf tree options plan).count .warning) := by
  rw [Report.Tells, rendered]
  cases options.format with
  | json =>
      dsimp only
      rw [Report.toJsonText_eq, Report.filesWithNotes, List.filter_map, List.map_map, List.flatMap_map]
      rfl
  | text => exact Report.exists_toText_eq (reportOf tree options plan) inColour

theorem scanStatus_eq_failure_iff (report : Report) : scanStatus options report.issues = .failure ↔
    0 < report.count .error ∨ (options.denyWarnings = true ∧ 0 < report.count .warning) := by
  rw [scanStatus, report.count_eq_countP, report.count_eq_countP]
  dsimp only
  split
  · next h => exact ⟨fun _ => h, fun _ => rfl⟩
  · next h => exact ⟨nofun, fun h' => absurd h' h⟩

variable {tree inColour options plan}

theorem count_error_pos_iff : 0 < (reportOf tree options plan).count .error ↔
    ∃ path ∈ plan.files, ∃ fault, tree.read path = .error fault := by
  rw [Report.count_eq_countP, issues_reportOf, List.countP_pos_iff, ← ScanOutcome.exists_error_iff]
  simp only [beq_iff_eq]

/-- What a scan that was carried out tells, given its plan. Its issues are those that were found, in strict
order, and its listings have of the notes that were found those that are to be shown. The text it writes is made
of these and of the numbers of errors and of warnings, which together are the number of issues; the status
follows from the two numbers. Errors are files of the plan that cannot be read. -/
structure Verdict (tree : Tree) (inColour : Bool) (options : ScanOptions) (plan : ScanPlan) (report : Report)
    (effect : Effect) : Prop where
  planned : ScanPlan.make tree options.sourceRoot options.paths = .ok plan
  reported : scanReport tree options = .ok report
  ran : runScan tree inColour options = .ok effect
  found : report.issues = (ScanOutcome.ofPlan tree plan).issues
  strict : report.issues.Pairwise fun a b => a.order b = .lt
  shown : report.files.map ScannedFile.listing = (ScanOutcome.ofPlan tree plan).files.map fun file =>
    { file.listing with notes := shownNotes options file.notes }
  told : ∃ text, Report.Tells options (inColour && options.output.isNone) text plan.files.length
    (report.files.map ScannedFile.listing) report.issues (report.count .error) (report.count .warning) ∧
    match options.output with
    | none => effect.tree = tree ∧ effect.stdout = text
    | some path => tree.write path text = .ok effect.tree
  total : report.count .error + report.count .warning = report.issues.length
  status : effect.status = .failure ↔
    0 < report.count .error ∨ (options.denyWarnings = true ∧ 0 < report.count .warning)
  unread : 0 < report.count .error ↔ ∃ path ∈ plan.files, ∃ fault, tree.read path = .error fault

/-- Where a report is written, and the status of its scan. -/
theorem written_of_ok {effect : Effect} (hplan : ScanPlan.make tree options.sourceRoot options.paths = .ok plan)
    (hrun : runScan tree inColour options = .ok effect) :
    effect.status = scanStatus options (reportOf tree options plan).issues ∧
      match options.output with
      | none => effect.tree = tree ∧ effect.stdout = rendered options (reportOf tree options plan) inColour
      | some path => tree.write path (rendered options (reportOf tree options plan) false) = .ok effect.tree := by
  rw [runScan_eq, hplan] at hrun
  cases houtput : options.output with
  | none =>
      simp only [houtput, Except.ok.injEq] at hrun
      subst hrun
      exact ⟨rfl, rfl, rfl⟩
  | some path =>
      simp only [houtput] at hrun
      split at hrun
      · cases hrun
      · next after hafter =>
        cases hrun
        exact ⟨rfl, hafter⟩

theorem verdict_of_ok {effect : Effect} (hplan : ScanPlan.make tree options.sourceRoot options.paths = .ok plan)
    (hrun : runScan tree inColour options = .ok effect) :
    Verdict tree inColour options plan (reportOf tree options plan) effect := by
  obtain ⟨hstatus, hwritten⟩ := written_of_ok hplan hrun
  exact {
    planned := hplan
    reported := by
      rw [scanReport_eq, hplan]
      rfl
    ran := hrun
    found := issues_reportOf tree options plan
    strict := by
      rw [issues_reportOf]
      exact ScanOutcome.pairwise_lt_issues tree plan
    shown := map_listing_reportOf tree options plan
    told := by
      -- A report in a file is written without colours, whatever the colours of the standard output.
      refine ⟨_, tells_rendered tree (inColour && options.output.isNone) options plan, ?_⟩
      cases houtput : options.output with
      | none => simpa [houtput] using hwritten
      | some path => simpa [houtput] using hwritten
    total := Report.count_error_add_count_warning _
    status := by
      rw [hstatus]
      exact scanStatus_eq_failure_iff options _
    unread := count_error_pos_iff }

/-- What is true of the listings of a report holds of what was found, with the same change to the notes. -/
theorem Verdict.map_notes {report : Report} {effect : Effect}
    (h : Verdict tree inColour options plan report effect) (change : List Note → List Note) :
    (report.files.map fun file => { file.listing with notes := change file.notes }) =
      (ScanOutcome.ofPlan tree plan).files.map fun file =>
        { file.listing with notes := change (shownNotes options file.notes) } := by
  have hshown := congrArg (List.map fun listing : Listing => { listing with notes := change listing.notes }) h.shown
  rw [List.map_map, List.map_map] at hshown
  exact hshown

/-- Two requests for a scan that differ at most in how its report looks and in what is shown of the notes. -/
structure SameScan (a b : ScanOptions) : Prop where
  paths : a.paths = b.paths
  sourceRoot : a.sourceRoot = b.sourceRoot
  output : a.output = b.output
  denyWarnings : a.denyWarnings = b.denyWarnings

section

variable {a b : ScanOptions}

theorem scanStatus_congr (h : SameScan a b) (tree : Tree) (plan : ScanPlan) :
    scanStatus a (reportOf tree a plan).issues = scanStatus b (reportOf tree b plan).issues := by
  rw [scanStatus, scanStatus, h.denyWarnings, issues_reportOf, issues_reportOf]

/-- Such requests fail alike, or are both carried out with the same plan and the same status. -/
theorem runScan_congr (h : SameScan a b) (tree : Tree) (inColour inColour' : Bool) :
    (∃ error, runScan tree inColour a = .error error ∧ runScan tree inColour' b = .error error) ∨
      ∃ plan effect effect', ScanPlan.make tree a.sourceRoot a.paths = .ok plan ∧
        runScan tree inColour a = .ok effect ∧ runScan tree inColour' b = .ok effect' ∧
        effect.status = effect'.status := by
  rw [runScan_eq, runScan_eq, ← h.sourceRoot, ← h.paths, ← h.output]
  cases ScanPlan.make tree a.sourceRoot a.paths with
  | error cause => exact Or.inl ⟨_, rfl, rfl⟩
  | ok plan =>
      have hstatus := scanStatus_congr h tree plan
      cases a.output with
      | none => exact Or.inr ⟨plan, _, _, rfl, rfl, rfl, hstatus⟩
      | some path =>
          dsimp only
          rcases tree.write_eq_error_or_ok path (rendered a (reportOf tree a plan) false)
              (rendered b (reportOf tree b plan) false) with
            ⟨fault, hfault, hfault'⟩ | ⟨after, after', hafter, hafter'⟩
          · rw [hfault, hfault']
            exact Or.inl ⟨_, rfl, rfl⟩
          · rw [hafter, hafter']
            exact Or.inr ⟨plan, _, _, rfl, rfl, rfl, hstatus⟩

/-- The notes of some kinds among all notes. A test of their kinds comes to the same before and after the code
lines are taken away. -/
theorem filter_shownNotes (ha : a.filters ≠ []) (hb : b.filters = []) (notes : List Note) :
    (shownNotes b notes).filter (fun note => decide (note.kind ∈ a.kinds)) =
      shownNotes { a with noContext := b.noContext } notes := by
  have hsome : a.filters.isEmpty = false := List.isEmpty_eq_false_iff.mpr ha
  have hkinds : ({ a with noContext := b.noContext } : ScanOptions).kinds = a.kinds := rfl
  have hall : (notes.filter fun note => b.filters.isEmpty || decide (note.kind ∈ b.kinds)) = notes :=
    List.filter_eq_self.mpr fun note _ => by rw [hb]; rfl
  rw [shownNotes, shownNotes, hall, hkinds, List.filter_map]
  simp only [hsome, Bool.false_or]
  congr 1
  refine List.filter_congr fun note _ => ?_
  cases b.noContext <;> rfl

theorem map_bare_shownNotes (context : Bool) (notes : List Note) :
    (shownNotes { a with noContext := context } notes).map bare = (shownNotes a notes).map bare := by
  have hbare : ∀ (context : Bool) (note : Note), bare (if context then bare note else note) = bare note := by
    intro context note
    cases context <;> rfl
  simp only [shownNotes, List.map_map, Function.comp_def, hbare]
  rfl

end

/-- Two scans that differ only in how their reports look and in what they show of the notes. They fail alike,
or they list the same issues and end with the same status. If one of them asks for kinds of notes and the other
shows all, then it lists in each file those notes of the other that are of these kinds, in the same order; with
their code lines, if both or neither of the two show these. -/
theorem runScan_sameVerdict {a b : ScanOptions} (h : SameScan a b) (tree : Tree) (inColour inColour' : Bool) :
    (∃ error, runScan tree inColour a = .error error ∧ runScan tree inColour' b = .error error) ∨
      ∃ plan report report' effect effect', Verdict tree inColour a plan report effect ∧
        Verdict tree inColour' b plan report' effect' ∧ report.issues = report'.issues ∧
        effect.status = effect'.status ∧
        (a.filters ≠ [] → b.filters = [] →
          (report.files.map fun file => { file.listing with notes := file.notes.map bare }) =
            (report'.files.map fun file => { file.listing with
              notes := (file.notes.filter fun note => note.kind ∈ a.kinds).map bare }) ∧
          (a.noContext = b.noContext → report.files.map ScannedFile.listing =
            report'.files.map fun file => { file.listing with
              notes := file.notes.filter fun note => note.kind ∈ a.kinds })) := by
  rcases runScan_congr h tree inColour inColour' with hfail | ⟨plan, effect, effect', hplan, hrun, hrun', hstatus⟩
  · exact Or.inl hfail
  have hplan' : ScanPlan.make tree b.sourceRoot b.paths = .ok plan := by
    rw [← h.sourceRoot, ← h.paths]
    exact hplan
  have hverdict := verdict_of_ok hplan hrun
  have hverdict' := verdict_of_ok hplan' hrun'
  refine Or.inr ⟨plan, _, _, effect, effect', hverdict, hverdict', hverdict.found.trans hverdict'.found.symm,
    hstatus, fun ha hb => ⟨?_, fun hcontext => ?_⟩⟩
  · rw [hverdict.map_notes (·.map bare), hverdict'.map_notes fun notes =>
      (notes.filter fun note => note.kind ∈ a.kinds).map bare]
    simp only [filter_shownNotes ha hb, map_bare_shownNotes]
  · rw [hverdict.shown, hverdict'.map_notes fun notes => notes.filter fun note => note.kind ∈ a.kinds]
    simp only [filter_shownNotes ha hb, ← hcontext]

/-- Of a file with two notes and a closing brace that closes nothing, one note is shown as JSON and with its code
line, where a report for readers shows both. Warnings are denied, so both scans fail. -/
theorem runScan_sameVerdict_fixme : ∃ (tree : Tree) (a b : ScanOptions), SameScan a b ∧
    a.filters = [.fixme] ∧ b.filters = [] ∧ a.format = .json ∧ b.format = .text ∧ a.noContext = b.noContext ∧
    ∃ plan report report' effect effect', Verdict tree false a plan report effect ∧
      Verdict tree true b plan report' effect' ∧ report.issues = report'.issues ∧
      report.issues.map Issue.rule = [("stray-closer" : Text)] ∧
      effect.status = .failure ∧ effect'.status = .failure ∧
      report'.files.map ScannedFile.notes = [[⟨.marker .todo, 1, 1, [⟨1, 8, "one"⟩], some ⟨4, "x = 1"⟩⟩,
        ⟨.marker .fixme, 2, 2, [⟨2, 9, "two"⟩], some ⟨4, "x = 1"⟩⟩]] ∧
      report.files.map ScannedFile.notes = [[⟨.marker .fixme, 2, 2, [⟨2, 9, "two"⟩], some ⟨4, "x = 1"⟩⟩]] ∧
      report.files.map ScannedFile.listing = report'.files.map fun file => { file.listing with
        notes := file.notes.filter fun note => note.kind ∈ a.kinds } := by
  let tree := Tree.empty.add ["a.py"] (.text "# TODO: one\n# FIXME: two\n# \x7d\nx = 1\n")
  let a : ScanOptions := { paths := ["a.py"], filters := [.fixme], format := .json, denyWarnings := true }
  let b : ScanOptions := { paths := ["a.py"], denyWarnings := true }
  have hsame : SameScan a b := ⟨rfl, rfl, rfl, rfl⟩
  have hstatus : (runScan tree false a).toOption.map Effect.status = some .failure := by decide +kernel
  have hall : (scanReport tree b).toOption.map (fun report =>
      (report.issues.map Issue.rule, report.files.map ScannedFile.notes)) =
      some ([("stray-closer" : Text)], [[⟨.marker .todo, 1, 1, [⟨1, 8, "one"⟩], some ⟨4, "x = 1"⟩⟩,
        ⟨.marker .fixme, 2, 2, [⟨2, 9, "two"⟩], some ⟨4, "x = 1"⟩⟩]]) := by decide +kernel
  refine ⟨tree, a, b, hsame, rfl, rfl, rfl, rfl, rfl, ?_⟩
  rcases runScan_sameVerdict hsame tree false true with
    ⟨error, herror, -⟩ | ⟨plan, report, report', effect, effect', hverdict, hverdict', hissues, hends, hkinds⟩
  · rw [herror] at hstatus
    cases hstatus
  rw [hverdict.ran] at hstatus
  rw [hverdict'.reported] at hall
  obtain ⟨hrule, hnotes'⟩ := Prod.mk.inj (Option.some.inj hall)
  have hfailure : effect.status = .failure := Option.some.inj hstatus
  have hlistings := (hkinds nofun rfl).2 rfl
  have hnotes : report.files.map ScannedFile.notes =
      (report'.files.map ScannedFile.notes).map (·.filter fun note => note.kind ∈ a.kinds) := by
    have hmap := congrArg (List.map Listing.notes) hlistings
    rw [List.map_map, List.map_map] at hmap
    rw [List.map_map]
    exact hmap
  refine ⟨plan, report, report', effect, effect', hverdict, hverdict', hissues, hissues ▸ hrule, hfailure,
    hends ▸ hfailure, hnotes', ?_, hlistings⟩
  rw [hnotes, hnotes']
  decide

end Command
end Marginalia
