import Marginalia.Note.Anchoring
import Marginalia.Note.Assembly

/-! All notes and warnings of a text under a comment style. -/

namespace Marginalia

/-- Every note with the code line that follows it. -/
def Findings.anchored (found : Findings) (lines : List TaggedLine) : Findings :=
  let index := anchorIndex lines
  { found with notes := found.notes.map fun n => { n with anchor := anchorAfter index n.endLine } }

/-- The notes and warnings in the physical lines of a file. -/
def CommentStyle.extract (style : CommentStyle) (lines : List Text) : Findings :=
  let tagged := style.tagLines lines
  (assemble tagged).anchored tagged

end Marginalia
