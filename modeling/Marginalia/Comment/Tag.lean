import Marginalia.Comment.Style

/-! Telling comments from code, line by line.

A line is a comment when the first thing on it is a leader or an opening delimiter, or when a block
comment is still open from an earlier line. A leader after code does not make a comment. When a
block comment closes and another one opens later on the same line, the later one stays open for the
lines that follow; only the first comment on a line contributes text. -/

namespace Marginalia

/-- The comment found on a line. `column` is the byte offset of `text` in the line, and `leader` the
byte length of the leader or opening delimiter before it, zero inside a block comment. -/
structure Comment where
  text : Text
  column : Nat
  leader : Nat
  deriving DecidableEq

/-- What a physical line holds. -/
inductive Tag where
  | comment (c : Comment)
  | code (text : Text)
  | blank
  deriving DecidableEq

structure TaggedLine where
  line : Nat
  tag : Tag
  deriving DecidableEq

namespace Comment

/-- The comment in a segment of a line that starts at byte `start`. Its text is the segment without
surrounding white space; a segment of white space only holds the empty text, at its start. -/
def ofSegment (start leader : Nat) (segment : Text) : Comment where
  text := segment.trim
  column := if segment.trim = [] then start else start + segment.indent.bytes
  leader := leader

end Comment

namespace Delimiters

/-- After a closing delimiter: the rest of the line opens a block comment that it does not close. -/
def reopens (block : Delimiters) (rest : Text) : Bool :=
  match Text.cutLast? block.opening rest with
  | some (_, tail) => !tail.contains block.closing
  | none => false

/-- The part of a line up to the closing delimiter, and whether a block comment is open at the end
of the line, for a line (or the part of one) that starts inside a block comment. -/
def inside (block : Delimiters) (s : Text) : Text × Bool :=
  match Text.cutFirst? block.closing s with
  | some (segment, rest) => (segment, block.reopens rest)
  | none => (s, true)

end Delimiters

/-- The comment on a line inside a block comment. One `*` that stands alone before the text is
decoration and is dropped. -/
def Comment.ofInterior (segment : Text) : Comment :=
  let start := segment.indent.bytes
  match segment.trimStart with
  | '*' :: after =>
    if after.head?.all isBlank then .ofSegment (start + 1) 0 after
    else .ofSegment start 0 ('*' :: after)
  | rest => .ofSegment start 0 rest

namespace CommentStyle

/-- The tag of a line that starts outside a block comment, and whether one is open after it. -/
def tagOutside (style : CommentStyle) (raw : Text) : Tag × Bool :=
  let start := raw.indent.bytes
  let body := raw.trimStart
  if body.isEmpty then (.blank, false)
  else
    match style.block.bind fun block => (Text.after? block.opening body).map (block, ·) with
    | some (block, rest) =>
      let (segment, isOpen) := block.inside rest
      let width := block.opening.bytes
      (.comment (.ofSegment (start + width) width segment), isOpen)
    | none =>
      match style.leader? body with
      | some leader =>
        let width := leader.bytes
        (.comment (.ofSegment (start + width) width (body.drop leader.length)), false)
      | none => (.code raw, false)

/-- The tag of a line, and whether a block comment is open after it, given whether one is open
before it. -/
def tag (style : CommentStyle) (isOpen : Bool) (raw : Text) : Tag × Bool :=
  match isOpen, style.block with
  | true, some block =>
    let (segment, stillOpen) := block.inside raw
    (.comment (.ofInterior segment), stillOpen)
  | _, _ => style.tagOutside raw

/-- Tags for consecutive lines, the first of which has number `line`. -/
def tagFrom (style : CommentStyle) (isOpen : Bool) (line : Nat) : List Text → List TaggedLine
  | [] => []
  | raw :: rest =>
    let (tag, stillOpen) := style.tag isOpen raw
    ⟨line, tag⟩ :: style.tagFrom stillOpen (line + 1) rest

/-- Whether a block comment is open after consecutive lines. -/
def openAfter (style : CommentStyle) (isOpen : Bool) (lines : List Text) : Bool :=
  lines.foldl (fun isOpen raw => (style.tag isOpen raw).2) isOpen

def tagLines (style : CommentStyle) (lines : List Text) : List TaggedLine :=
  style.tagFrom false 1 lines

end CommentStyle
end Marginalia
