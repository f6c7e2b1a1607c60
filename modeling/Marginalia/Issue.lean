import Marginalia.Source

/-! Issues: what a scan has to complain about. A malformed block, a language without a comment style
and a file that cannot be read are issues; the last is an error, the others are warnings. -/

namespace Marginalia

inductive Severity where
  | error
  | warning
  deriving DecidableEq

/-- An issue with the file it is about. An issue about a block also has the block's line and that
line's text. -/
inductive Issue where
  | block (kind : WarningKind) (file : Text) (line : Nat) (sourceLine : Text)
  | unresolvedLanguage (file language : Text)
  | readError (file error : Text)
  deriving DecidableEq

namespace Severity

def name : Severity → Text
  | .error => "error"
  | .warning => "warning"

end Severity

namespace WarningKind

/-- The name of the rule that a malformed block breaks. -/
def rule : WarningKind → Text
  | .unterminatedBlock => "unterminated-block"
  | .strayCloser => "stray-closer"
  | .emptyBlock => "empty-block"

/-- The place of a rule in reports. -/
def rank : WarningKind → Nat
  | .unterminatedBlock => 0
  | .strayCloser => 1
  | .emptyBlock => 2

def message : WarningKind → Text
  | .unterminatedBlock => "block is not terminated"
  | .strayCloser => "closer without a matching opener"
  | .emptyBlock => "block has no content"

def hint? : WarningKind → Option Text
  | .unterminatedBlock =>
    some "close the block with `\x7d` or `TODOS.END` before the next code line".toList
  | .strayCloser => some "only `TODO: \x7b` opens a brace block".toList
  | .emptyBlock => none

def details? : WarningKind → Option Text
  | .unterminatedBlock => some "the lines seen so far were still reported".toList
  | .strayCloser => none
  | .emptyBlock => none

end WarningKind

namespace Issue

/-- The issue for a warning about a source file. -/
def ofWarning (warning : Warning) (source : Source) : Issue :=
  .block warning.kind source.path warning.line ((source.line? warning.line).getD [])

def file : Issue → Text
  | .block _ file _ _ => file
  | .unresolvedLanguage file _ => file
  | .readError file _ => file

/-- The line an issue is about, unless it is about the whole file. -/
def line? : Issue → Option Nat
  | .block _ _ line _ => some line
  | .unresolvedLanguage _ _ => none
  | .readError _ _ => none

def sourceLine? : Issue → Option Text
  | .block _ _ _ sourceLine => some sourceLine
  | .unresolvedLanguage _ _ => none
  | .readError _ _ => none

/-- How grave an issue is for the way a scan ends. -/
def severity : Issue → Severity
  | .block _ _ _ _ => .warning
  | .unresolvedLanguage _ _ => .warning
  | .readError _ _ => .error

/-- How grave an issue is in a report. -/
def reportSeverity : Issue → Severity
  | .block _ _ _ _ => .warning
  | .unresolvedLanguage _ _ => .warning
  | .readError _ _ => .error

theorem reportSeverity_eq_severity (issue : Issue) : issue.reportSeverity = issue.severity := by
  cases issue <;> rfl

def rule : Issue → Text
  | .block kind _ _ _ => kind.rule
  | .unresolvedLanguage _ _ => "unresolved-language"
  | .readError _ _ => "read-error"

/-- The place of the rule in reports. -/
def rank : Issue → Nat
  | .block kind _ _ _ => kind.rank
  | .unresolvedLanguage _ _ => 3
  | .readError _ _ => 4

def message : Issue → Text
  | .block kind _ _ _ => kind.message
  | .unresolvedLanguage _ language => "no comment style for language `" ++ language ++ "`"
  | .readError _ error => error

def hint? : Issue → Option Text
  | .block kind _ _ _ => kind.hint?
  | .unresolvedLanguage _ _ =>
    some ("add the language to `languages` in .todoctlrc.json" : String).toList
  | .readError _ _ => none

def details? : Issue → Option Text
  | .block kind _ _ _ => kind.details?
  | .unresolvedLanguage _ _ => some "scanned with the fallback leaders `//` and `#`".toList
  | .readError _ _ => none

/-- The order of issues in reports: by file, by line with issues about the whole file first, by
rule, and by message. -/
def order (a b : Issue) : Ordering :=
  (compareOfLessAndEq a.file b.file).then <|
  (compare (a.line?.elim 0 Nat.succ) (b.line?.elim 0 Nat.succ)).then <|
  (compare a.rank b.rank).then <|
  compareOfLessAndEq a.message b.message

/-- Issues in the order of reports; equal ones stay in the order they come in. -/
def sorted (issues : List Issue) : List Issue := issues.mergeSort fun a b => (a.order b).isLE

end Issue
end Marginalia
