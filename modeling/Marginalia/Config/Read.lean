import Marginalia.Config.Basic
import Marginalia.Json.Skip

/-! Reading a configuration. Every field may be left out. A field that is not known is skipped, a
known field given twice is refused; in a dictionary the last value of a key counts. -/

namespace Marginalia

open Json (Fault Reader)

namespace Config

def textsReader : Reader (List Text) := .list .text

/-- A dictionary with values of one kind. -/
def dictReader {α : Type} (value : Reader α) : Reader (Dict α) :=
  .object (fun seen key => .ok (value.map (seen.insert key))) .empty

/-- The fields of block delimiters that have been read. -/
structure DelimiterFields where
  opening : Option Text := none
  closing : Option Text := none

namespace DelimiterFields

def readOpening (seen : DelimiterFields) : Reader DelimiterFields :=
  Reader.text.map fun value => { seen with opening := some value }

def readClosing (seen : DelimiterFields) : Reader DelimiterFields :=
  Reader.text.map fun value => { seen with closing := some value }

def member : Reader.MemberReader DelimiterFields := fun seen key =>
  if key = "open" then Reader.once seen.opening seen.readOpening
  else if key = "close" then Reader.once seen.closing seen.readClosing
  else .ok (Reader.anything.map fun _ => seen)

/-- The delimiters, if both are there. -/
def finish : DelimiterFields → Except Fault Delimiters
  | ⟨some opening, some closing⟩ => .ok ⟨opening, closing⟩
  | _ => .error .mismatch

end DelimiterFields

def delimitersReader : Reader Delimiters :=
  .record DelimiterFields.member [DelimiterFields.readOpening, DelimiterFields.readClosing] {}
    DelimiterFields.finish

/-- The fields of a comment style that have been read. -/
structure StyleFields where
  leaders : Option (List Text) := none
  block : Option (Option Delimiters) := none

namespace StyleFields

def readLeaders (seen : StyleFields) : Reader StyleFields :=
  textsReader.map fun value => { seen with leaders := some value }

def readBlock (seen : StyleFields) : Reader StyleFields :=
  (Reader.nullOr delimitersReader).map fun value => { seen with block := some value }

def member : Reader.MemberReader StyleFields := fun seen key =>
  if key = "leaders" then Reader.once seen.leaders seen.readLeaders
  else if key = "block" then Reader.once seen.block seen.readBlock
  else .ok (Reader.anything.map fun _ => seen)

def finish (seen : StyleFields) : Except Fault CommentStyle :=
  .ok ⟨seen.leaders.getD [], seen.block.join⟩

end StyleFields

def styleReader : Reader CommentStyle :=
  .record StyleFields.member [StyleFields.readLeaders, StyleFields.readBlock] {} StyleFields.finish

/-- The fields of a configuration that have been read. -/
structure Fields where
  ignores : Option (List Text) := none
  includes : Option (List Text) := none
  sourceRoot : Option Text := none
  extensions : Option (Dict Text) := none
  languages : Option (Dict CommentStyle) := none

namespace Fields

def readIgnores (seen : Fields) : Reader Fields :=
  textsReader.map fun value => { seen with ignores := some value }

def readIncludes (seen : Fields) : Reader Fields :=
  textsReader.map fun value => { seen with includes := some value }

def readSourceRoot (seen : Fields) : Reader Fields :=
  Reader.text.map fun value => { seen with sourceRoot := some value }

def readExtensions (seen : Fields) : Reader Fields :=
  (dictReader .text).map fun value => { seen with extensions := some value }

def readLanguages (seen : Fields) : Reader Fields :=
  (dictReader styleReader).map fun value => { seen with languages := some value }

def member : Reader.MemberReader Fields := fun seen key =>
  if key = "ignores" then Reader.once seen.ignores seen.readIgnores
  else if key = "includes" then Reader.once seen.includes seen.readIncludes
  else if key = "sourceRoot" then Reader.once seen.sourceRoot seen.readSourceRoot
  else if key = "extensions" then Reader.once seen.extensions seen.readExtensions
  else if key = "languages" then Reader.once seen.languages seen.readLanguages
  else .ok (Reader.anything.map fun _ => seen)

/-- The configuration, with the usual values for fields that are missing. -/
def finish (seen : Fields) : Except Fault Config :=
  let usual : Config := {}
  .ok {
    ignores := seen.ignores.getD usual.ignores
    includes := seen.includes.getD usual.includes
    sourceRoot := seen.sourceRoot.getD usual.sourceRoot
    extensions := seen.extensions.getD usual.extensions
    languages := seen.languages.getD usual.languages }

end Fields

def reader : Reader Config :=
  .record Fields.member
    [Fields.readIgnores, Fields.readIncludes, Fields.readSourceRoot, Fields.readExtensions,
      Fields.readLanguages] {} Fields.finish

/-- The configuration in the text of a file. -/
def parse (s : Text) : Except Fault Config := Reader.document reader s

end Config
end Marginalia
