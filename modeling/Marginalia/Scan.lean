import Marginalia.Config.Load
import Marginalia.Discovery
import Marginalia.Report.Basic

/-! Scans: from a request to the files it covers, and from those to what is found in them. -/

namespace Marginalia

/-- The files of a scan, in order and each path once, and how to read them. -/
structure ScanPlan where
  config : Config
  table : LanguageTable
  files : List Text
  ordered : files.Pairwise (· < ·)

/-- What a scan found: the files it could read, and the paths and reasons of those it could not. -/
structure ScanOutcome where
  files : List ScannedFile
  readErrors : List (Text × Text)
  deriving DecidableEq

namespace ScanPlan

/-- The plan for scanning some paths, or else the source root. A source root that is given counts
instead of the configured one, and it is also where the configuration is looked for. -/
def make (tree : Tree) (sourceRoot : Option Text) (paths : List Text) :
    Except Config.LoadError ScanPlan := do
  let loaded ← Config.load tree (sourceRoot.getD ['.'])
  let config := { loaded.config with sourceRoot := sourceRoot.getD loaded.config.sourceRoot }
  let table := config.languageTable
  let found :=
    if paths.isEmpty then
      Discovery.belowBase tree config.sourceRoot config.includes config.ignores table
    else Discovery.ofPaths tree ['.'] paths config.ignores table
  return ⟨config, table, found.files, found.ordered⟩

end ScanPlan

def PathFault.message : PathFault → Text
  | .notAPath => "file name contained an unexpected NUL byte"
  | .tooLong => "File name too long (os error 36)"
  | .notFound => "No such file or directory (os error 2)"
  | .notAFolder => "Not a directory (os error 20)"
  | .isAFolder => "Is a directory (os error 21)"
  | .notText => "stream did not contain valid UTF-8"

namespace ScanOutcome

/-- What is found in one file, if it can be read. -/
def ofFile? (tree : Tree) (table : LanguageTable) (path : Text) : Option ScannedFile :=
  match tree.read path with
  | .ok text => some ((Source.detect path text table).scan table)
  | .error _ => none

/-- Why one file cannot be read, unless it can. -/
def readError? (tree : Tree) (path : Text) : Option (Text × Text) :=
  match tree.read path with
  | .ok _ => none
  | .error fault => some (path, "Failed to read " ++ path ++ ": " ++ fault.message)

/-- The outcome of a plan: every file of it is either read or not. -/
def ofPlan (tree : Tree) (plan : ScanPlan) : ScanOutcome where
  files := plan.files.filterMap (ofFile? tree plan.table)
  readErrors := plan.files.filterMap (readError? tree)

/-- All issues of a scan, in the order of reports. -/
def issues (outcome : ScanOutcome) : List Issue :=
  Issue.sorted (outcome.files.flatMap ScannedFile.issues ++
    outcome.readErrors.map fun (path, message) => .readError path message)

def noteCount (outcome : ScanOutcome) : Nat := (outcome.files.flatMap (·.notes)).length

end ScanOutcome
end Marginalia
