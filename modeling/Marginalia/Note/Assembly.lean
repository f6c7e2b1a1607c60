import Marginalia.Comment.Tag
import Marginalia.Note.Role

/-! Notes from tagged lines.

Assembly is a fold over the lines of a file. Between blocks a marked line is a note of its own and
an opener starts a block; inside a block every comment line is body, up to the closer. Blank lines
change nothing. A code line, like the end of the file, cuts an open block off: what it holds so far
is still a note, and a warning says so. A block without body is a warning and no note. -/

namespace Marginalia

/-- Notes and warnings, each in the order of the lines they were found at. -/
structure Findings where
  notes : List Note := []
  warnings : List Warning := []
  deriving DecidableEq

namespace Findings

def none : Findings := {}

def note (n : Note) : Findings := { notes := [n] }

def warning (kind : WarningKind) (line : Nat) : Findings := { warnings := [⟨kind, line⟩] }

def append (a b : Findings) : Findings := ⟨a.notes ++ b.notes, a.warnings ++ b.warnings⟩

instance : Append Findings := ⟨append⟩

@[simp] theorem notes_append (a b : Findings) : (a ++ b).notes = a.notes ++ b.notes := rfl

@[simp] theorem warnings_append (a b : Findings) : (a ++ b).warnings = a.warnings ++ b.warnings := rfl

@[simp] theorem none_append (a : Findings) : none ++ a = a := rfl

@[simp] theorem append_none (a : Findings) : a ++ none = a := by
  show append a none = a
  simp [append, none]

end Findings

/-- A block whose closer has not been seen yet: its opener's line, the last comment line it took,
and its body so far. -/
structure OpenBlock where
  startLine : Nat
  lastLine : Nat
  body : Array BodyLine
  deriving DecidableEq

namespace OpenBlock

/-- The block right after its opener. -/
def start (line : Nat) : OpenBlock := ⟨line, line, #[]⟩

/-- The block with one more comment line in its body. -/
def push (block : OpenBlock) (line : Nat) (c : Comment) : OpenBlock :=
  { block with lastLine := line, body := block.body.push ⟨line, c.column, c.text⟩ }

/-- The note a block makes when it ends at `endLine`. -/
def toNote (block : OpenBlock) (kind : NoteKind) (endLine : Nat) : Note where
  kind := kind
  startLine := block.startLine
  endLine := endLine
  body := block.body.toList

/-- What a block leaves when its closer is found. -/
def close (block : OpenBlock) (kind : NoteKind) (endLine : Nat) : Findings :=
  if block.body.isEmpty then .warning .emptyBlock block.startLine
  else .note (block.toNote kind endLine)

/-- What a block leaves when it is cut off. -/
def cutOff (block : OpenBlock) (kind : NoteKind) : Findings :=
  .warning .unterminatedBlock block.startLine ++
    if block.body.isEmpty then .none else .note (block.toNote kind block.lastLine)

end OpenBlock

/-- Where assembly stands between two lines. Inside braces, `depth` counts the openers that are not
closed yet. -/
inductive BlockState where
  | idle
  | brace (block : OpenBlock) (depth : Nat)
  | collection (block : OpenBlock)
  deriving DecidableEq

namespace BlockState

/-- A comment line between blocks. -/
def stepIdle (line : Nat) (c : Comment) : BlockState × Findings :=
  match Role.ofText c.text with
  | .marker keyword text offset =>
    (.idle, .note ⟨.marker keyword, line, line, [⟨line, c.column + offset, text⟩], none⟩)
  | .braceOpen => (.brace (.start line) 1, .none)
  | .collectionOpen => (.collection (.start line), .none)
  | .braceClose => (.idle, .warning .strayCloser line)
  | .collectionClose => (.idle, .warning .strayCloser line)
  | .prose => (.idle, .none)

/-- A comment line inside braces. A line that is only `{` opens a further level; braces within
prose do not. -/
def stepBrace (block : OpenBlock) (depth line : Nat) (c : Comment) : BlockState × Findings :=
  match Role.ofText c.text with
  | .braceClose =>
    if depth = 1 then (.idle, block.close .brace line)
    else (.brace (block.push line c) (depth - 1), .none)
  | .braceOpen => (.brace (block.push line c) (depth + 1), .none)
  | .prose => (.brace (block.push line c) (if c.text = ['{'] then depth + 1 else depth), .none)
  | _ => (.brace (block.push line c) depth, .none)

/-- A comment line inside a collection. -/
def stepCollection (block : OpenBlock) (line : Nat) (c : Comment) : BlockState × Findings :=
  match Role.ofText c.text with
  | .collectionClose => (.idle, block.close .collection line)
  | _ => (.collection (block.push line c), .none)

/-- What an open block leaves when the file or the run of comments ends. -/
def finish : BlockState → Findings
  | .idle => .none
  | .brace block _ => block.cutOff .brace
  | .collection block => block.cutOff .collection

def step (state : BlockState) (tagged : TaggedLine) : BlockState × Findings :=
  match tagged.tag with
  | .blank => (state, .none)
  | .code _ => (.idle, state.finish)
  | .comment c =>
    match state with
    | .idle => stepIdle tagged.line c
    | .brace block depth => stepBrace block depth tagged.line c
    | .collection block => stepCollection block tagged.line c

/-- All lines from a state on, and then the end of the file. -/
def run (state : BlockState) : List TaggedLine → Findings
  | [] => state.finish
  | tagged :: rest =>
    let (next, found) := state.step tagged
    found ++ next.run rest

/-- The states after each line. -/
def trace (state : BlockState) : List TaggedLine → List BlockState
  | [] => []
  | tagged :: rest =>
    let next := (state.step tagged).1
    next :: next.trace rest

end BlockState

/-- The notes and warnings of a file's tagged lines, without anchors. -/
def assemble (lines : List TaggedLine) : Findings := BlockState.idle.run lines

end Marginalia
