import Marginalia.Text.Blank
import Marginalia.Text.Search

/-! How a language writes comments: leaders that start a comment running to the end of the line,
and at most one pair of block delimiters. -/

namespace Marginalia

structure Delimiters where
  opening : Text
  closing : Text
  deriving DecidableEq

/-- The comment style of a language. Leaders are tried in the order they are listed, so a leader
that extends another one stands before it. -/
structure CommentStyle where
  leaders : List Text := []
  block : Option Delimiters := none
  deriving DecidableEq

namespace CommentStyle

/-- A style with nothing that could start a comment. -/
def isEmpty (style : CommentStyle) : Bool := style.leaders.isEmpty && style.block.isNone

/-- The first leader that starts the text. An empty leader starts nothing. -/
def leader? (style : CommentStyle) (s : Text) : Option Text :=
  style.leaders.find? fun leader => !leader.isEmpty && s.startsWith leader

/-- The style used for languages without one of their own. -/
def fallback : CommentStyle where
  leaders := ["//", "#"]

end CommentStyle
end Marginalia
