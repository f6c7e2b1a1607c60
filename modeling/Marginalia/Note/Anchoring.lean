import Marginalia.Comment.Tag
import Marginalia.Note.Basic

/-! The code a note is about: the first code line after the note. An index made in one pass from
the end of the file answers for every place in it. -/

namespace Marginalia

/-- The anchor a line can serve as: itself, if it is code. -/
def TaggedLine.anchor? (tagged : TaggedLine) : Option Anchor :=
  match tagged.tag with
  | .code text => some ⟨tagged.line, text⟩
  | _ => none

/-- For every place in the file, the first code line there or later. -/
def anchorIndex : List TaggedLine → List (Option Anchor)
  | [] => []
  | tagged :: rest =>
    let later := anchorIndex rest
    tagged.anchor?.or later.head?.join :: later

/-- The anchor of what ends at line `endLine`. Lines are counted from one, so the lines after it
start at place `endLine` of the index. -/
def anchorAfter (index : List (Option Anchor)) (endLine : Nat) : Option Anchor :=
  index[endLine]?.join

end Marginalia
