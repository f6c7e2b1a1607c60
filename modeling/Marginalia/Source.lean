import Marginalia.Language.Builtin
import Marginalia.Note.Extraction
import Marginalia.Text.Lines

/-! Source files and what is found in them. -/

namespace Marginalia

/-- A source file: its path, its language and its physical lines. -/
structure Source where
  path : Text
  language : Text
  lines : List Text
  deriving DecidableEq

/-- What was found in a file; `styleFallback` when its language has no comment style of its own. -/
structure Extraction where
  findings : Findings
  styleFallback : Bool
  deriving DecidableEq

namespace Extraction

def isEmpty (extraction : Extraction) : Bool :=
  extraction.findings.notes.isEmpty && extraction.findings.warnings.isEmpty

end Extraction

namespace Source

def new (path language text : Text) : Source := ⟨path, language, text.lines⟩

/-- The language of files that no table knows. -/
def unknownLanguage : Text := "unknown"

/-- A file in the language its path tells. -/
def detect (path text : Text) (table : LanguageTable) : Source :=
  new path ((table.languageOf? path).getD unknownLanguage) text

/-- A physical line by its number, counted from one. -/
def line? (source : Source) : (line : Nat) → Option Text
  | 0 => none
  | line + 1 => source.lines[line]?

/-- The notes and warnings of a file in a given comment style. -/
def extractWith (source : Source) (style : CommentStyle) : Extraction :=
  ⟨style.extract source.lines, false⟩

/-- The notes and warnings of a file in the comment style of its language. -/
def extract (source : Source) (table : LanguageTable) : Extraction :=
  let resolved := table.resolve source.language
  ⟨resolved.style.extract source.lines, resolved.isFallback⟩

end Source
end Marginalia
