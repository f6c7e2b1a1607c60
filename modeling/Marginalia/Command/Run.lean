import Marginalia.Command.Arguments
import Marginalia.Report.Json
import Marginalia.Report.Languages
import Marginalia.Report.Text
import Marginalia.Scan

/-! What commands do. A command reads the file tree, may change it, and writes to the two output
streams. -/

namespace Marginalia

inductive ExitStatus where
  | success
  | failure
  deriving DecidableEq

/-- What a command leaves: the tree as it is afterwards, what it wrote, and how it ended. -/
structure Effect where
  tree : Tree
  stdout : Text := []
  stderr : Text := []
  status : ExitStatus := .success
  deriving DecidableEq

inductive CommandError where
  | config (cause : Config.LoadError)
  | unwritable (path : Text) (fault : PathFault)
  deriving DecidableEq

namespace CommandError

def message : CommandError → Text
  | .config cause => cause.message
  | .unwritable path _ => "Failed to write " ++ path

/-- The wording of what lies behind an error, if it says more than the error. -/
def cause? : CommandError → Option Text
  | .config (.unreadable _ fault) => some fault.message
  | .config (.unparsable _ fault) => some fault.message
  | .config (.invalid (.badPattern _ _ cause)) => some cause.message
  | .config (.invalid _) => none
  | .unwritable _ fault => some fault.message

def fullMessage (e : CommandError) : Text :=
  match e.cause? with
  | some cause => e.message ++ ": " ++ cause
  | none => e.message

end CommandError

namespace ScanOutcome

def mapNotes (f : List Note → List Note) (outcome : ScanOutcome) : ScanOutcome :=
  { outcome with files := outcome.files.map (·.mapNotes f) }

/-- The outcome with only those notes that a filter admits; without filters, with all of them. -/
def keepKinds (filters : List KindFilter) (outcome : ScanOutcome) : ScanOutcome :=
  if filters.isEmpty then outcome
  else outcome.mapNotes (·.filter fun note => filters.any (·.admits note.kind))

def withoutAnchors (outcome : ScanOutcome) : ScanOutcome :=
  outcome.mapNotes (·.map fun note => { note with anchor := none })

/-- Issues are not among the things that change with the notes. -/
theorem issues_mapNotes (f : List Note → List Note) (outcome : ScanOutcome) :
    (outcome.mapNotes f).issues = outcome.issues := by
  rw [issues, mapNotes, List.flatMap_map]
  rfl

@[simp] theorem issues_keepKinds (filters : List KindFilter) (outcome : ScanOutcome) :
    (outcome.keepKinds filters).issues = outcome.issues := by
  rw [keepKinds]
  split
  · rfl
  · exact issues_mapNotes _ outcome

@[simp] theorem issues_withoutAnchors (outcome : ScanOutcome) :
    outcome.withoutAnchors.issues = outcome.issues :=
  issues_mapNotes _ outcome

end ScanOutcome

namespace Command

def help : Text :=
  "A fast CLI tool for extracting TODO, FIXME and XXX annotations from source comments\n" ++
  "\n" ++
  "Usage: todoctl [COMMAND]\n" ++
  "\n" ++
  "Commands:\n" ++
  "  scan       Extract TODO, FIXME and XXX annotations from source comments\n" ++
  "  init       Initialize a new .todoctlrc.json configuration file\n" ++
  "  languages  List built-in languages and their comment styles\n" ++
  "  help       Print this message or the help of the given subcommand(s)\n" ++
  "\n" ++
  "Options:\n" ++
  "  -h, --help     Print help\n" ++
  "  -V, --version  Print version\n"

def version : Text := "todoctl 0.1.0\n"

def writeFile (tree : Tree) (path text : Text) : Except CommandError Tree :=
  (tree.write path text).mapError (.unwritable path)

/-- The report of a planned scan. The issues are taken from the outcome as it is shown. -/
def reportOf (tree : Tree) (options : ScanOptions) (plan : ScanPlan) : Report :=
  let chosen := (ScanOutcome.ofPlan tree plan).keepKinds options.filters
  let shown := if options.noContext then chosen.withoutAnchors else chosen
  { files := shown.files
    issues := shown.issues
    filesScanned := plan.files.length
    showContext := !options.noContext }

def scanReport (tree : Tree) (options : ScanOptions) : Except Config.LoadError Report := do
  let plan ← ScanPlan.make tree options.sourceRoot options.paths
  return reportOf tree options plan

/-- A scan fails if there are errors, or warnings that are denied. -/
def scanStatus (options : ScanOptions) (issues : List Issue) : ExitStatus :=
  let count (severity : Severity) : Nat := issues.countP (·.severity == severity)
  if 0 < count .error ∨ (options.denyWarnings ∧ 0 < count .warning) then .failure
  else .success

/-- The text of a report in the form that is asked for. -/
def rendered (options : ScanOptions) (report : Report) (inColour : Bool) : Text :=
  match options.format with
  | .json => report.toJsonText
  | .text => report.toText inColour

/-- Scans and reports, to a file or to the standard output. A report for readers in a file has no
colours. -/
def runScan (tree : Tree) (inColour : Bool) (options : ScanOptions) :
    Except CommandError Effect := do
  let report ← (scanReport tree options).mapError .config
  let status := scanStatus options report.issues
  match options.output with
  | some path => return { tree := ← writeFile tree path (rendered options report false), status }
  | none => return { tree, stdout := rendered options report inColour, status }

/-- Writes the usual configuration to the working directory, unless there is one. -/
def runInit (tree : Tree) (inColour : Bool) : Except CommandError Effect := do
  let path := Path.join ['.'] Config.fileName
  if tree.exists? path then
    let line : List Span := [⟨"error:", { bold := true, colour := some .red }⟩,
      .plain (' ' :: Config.fileName ++ " already exists")]
    return { tree, stderr := renderLines inColour [line], status := .failure }
  else
    let line : List Span := [Report.successMark, .plain [' '],
      .coloured .green ("Created " ++ Config.fileName)]
    let tree ← writeFile tree path ({} : Config).print
    return { tree, stdout := renderLines inColour [line] }

/-- Carries out a command; without one, explains the commands. -/
def run (tree : Tree) (inColour : Bool) : Option Command → Except CommandError Effect
  | none => .ok { tree, stdout := help }
  | some (.scan options) => runScan tree inColour options
  | some .init => runInit tree inColour
  | some .languages => .ok { tree, stdout := LanguageTable.builtin.toText inColour }

end Command
end Marginalia
