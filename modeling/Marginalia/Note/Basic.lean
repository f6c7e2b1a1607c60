import Marginalia.Text.Basic

/-! Notes: the work items that comments hold. A note is a single line with a keyword, or a block of
comment lines between an opener and a closer. -/

namespace Marginalia

/-- The keywords that mark a single-line note. -/
inductive Keyword where
  | todo
  | fixme
  | xxx
  deriving DecidableEq

namespace Keyword

def all : List Keyword := [.todo, .fixme, .xxx]

/-- The keyword as it is written in a comment. -/
def spelling : Keyword → Text
  | .todo => "TODO"
  | .fixme => "FIXME"
  | .xxx => "XXX"

/-- The keyword with exactly this spelling. -/
def ofText? (s : Text) : Option Keyword := all.find? fun k => k.spelling = s

end Keyword

/-- The kinds of notes: a marked line, a block in braces, and a collection of lines. -/
inductive NoteKind where
  | marker (keyword : Keyword)
  | brace
  | collection
  deriving DecidableEq

namespace NoteKind

def label : NoteKind → Text
  | .marker .todo => "todo"
  | .marker .fixme => "fixme"
  | .marker .xxx => "xxx"
  | .brace => "todo block"
  | .collection => "todo list"

/-- Every kind but a marked line is a block. -/
def isBlock : NoteKind → Bool
  | .marker _ => false
  | .brace => true
  | .collection => true

end NoteKind

/-- One line of a note's body. `column` is the byte offset of `text` in the physical line. -/
structure BodyLine where
  line : Nat
  column : Nat
  text : Text
  deriving DecidableEq

/-- The code line that a note is about. -/
structure Anchor where
  line : Nat
  text : Text
  deriving DecidableEq

/-- A note with the lines it covers. The body of a marked line is the text after the keyword, and
the body of a block its comment lines without opener and closer. -/
structure Note where
  kind : NoteKind
  startLine : Nat
  endLine : Nat
  body : List BodyLine
  anchor : Option Anchor := none
  deriving DecidableEq

namespace Note

/-- The text after the keyword of a marked line; a block has none. -/
def inlineText? (note : Note) : Option Text :=
  if note.kind.isBlock then none else note.body.head?.map BodyLine.text

/-- The number of physical lines from the first to the last line of a note. -/
def lineSpan (note : Note) : Nat := note.endLine - note.startLine + 1

end Note

inductive WarningKind where
  | unterminatedBlock
  | strayCloser
  | emptyBlock
  deriving DecidableEq

/-- Something wrong at a line. -/
structure Warning where
  kind : WarningKind
  line : Nat
  deriving DecidableEq

end Marginalia
