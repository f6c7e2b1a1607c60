import Marginalia.Comment.Style
import Marginalia.Dict
import Marginalia.Path

/-! The language table: comment styles by language tag, and language tags by file name and by file
extension. Tags and extensions are compared without regard to the case of ASCII letters, file names
exactly. -/

namespace Marginalia

/-- The languages the tool knows. Tags and extensions are in lower case. -/
structure LanguageTable where
  styles : Dict CommentStyle
  extensions : Dict Text
  fileNames : Dict Text
  deriving DecidableEq

/-- The style found for a language tag; `isFallback` when the tag has none of its own. -/
structure ResolvedStyle where
  style : CommentStyle
  isFallback : Bool
  deriving DecidableEq

structure LanguageEntry where
  tag : Text
  style : CommentStyle
  extensions : List Text
  deriving DecidableEq

namespace LanguageTable

def empty : LanguageTable := ⟨.empty, .empty, .empty⟩

/-- An extension as the table keeps it: without leading dots, in lower case. -/
def extensionKey (ext : Text) : Text := Text.lower (ext.dropWhile (· == '.'))

/-- The table with a style for a language, in place of one it may have had. -/
def insertLanguage (table : LanguageTable) (tag : Text) (style : CommentStyle) : LanguageTable :=
  { table with styles := table.styles.insert tag.lower style }

/-- The table with a language for a file extension. -/
def insertExtension (table : LanguageTable) (ext tag : Text) : LanguageTable :=
  { table with extensions := table.extensions.insert (extensionKey ext) tag.lower }

/-- The table with a language for a whole file name. -/
def insertFileName (table : LanguageTable) (name tag : Text) : LanguageTable :=
  { table with fileNames := table.fileNames.insert name tag }

def resolve (table : LanguageTable) (tag : Text) : ResolvedStyle :=
  match table.styles.get? tag.lower with
  | some style => ⟨style, false⟩
  | none => ⟨.fallback, true⟩

/-- The language of a file, by its whole name or else by its extension. -/
def languageOf? (table : LanguageTable) (path : Text) : Option Text :=
  ((Path.fileName? path).bind table.fileNames.get?).or
    ((Path.extension? path).bind fun ext => table.extensions.get? ext.lower)

/-- The extensions that stand for a language, in order. -/
def extensionsOf (table : LanguageTable) (tag : Text) : List Text :=
  (table.extensions.entries.filter fun entry => entry.2 == tag).map Prod.fst

/-- All languages with a style, in the order of their tags. -/
def languages (table : LanguageTable) : List LanguageEntry :=
  table.styles.entries.map fun (tag, style) => ⟨tag, style, table.extensionsOf tag⟩

end LanguageTable
end Marginalia
