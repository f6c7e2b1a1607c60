import Marginalia.Language.Table
import Marginalia.Report.Paint

/-! The list of languages. -/

namespace Marginalia.LanguageTable

/-- What starts a comment in a style: the leaders and then the block delimiters. -/
def markers (style : CommentStyle) : Text :=
  Text.join "  " (style.leaders ++
    (style.block.map fun block => block.opening ++ ' ' :: block.closing).toList)

/-- A language in the list. The column of tags is as wide as the longest tag is in bytes, that of
the markers sixteen characters. -/
def entryLine (tagWidth : Nat) (entry : LanguageEntry) : List Span := [
  ⟨Text.padEnd tagWidth entry.tag, { bold := true }⟩,
  .plain ("  " ++ Text.padEnd 16 (markers entry.style) ++ [' ']),
  ⟨Text.join [' '] (entry.extensions.map ('.' :: ·)), { dimmed := true }⟩]

def toText (table : LanguageTable) (inColour : Bool) : Text :=
  let entries := table.languages
  let tagWidth := (entries.map fun entry => entry.tag.bytes).max?.getD 0
  renderLines inColour (entries.map (entryLine tagWidth))

end Marginalia.LanguageTable
