import Marginalia.Json.Print
import Marginalia.Language.Builtin

/-! The configuration of a scan. -/

namespace Marginalia

/-- What to scan and what to leave out, and the languages that are not known from the start.
Entries of `ignores` and `includes` are wildcard patterns or plain paths. -/
structure Config where
  ignores : List Text := ["**/node_modules/**", "**/target/**", "**/.git/**", "**/vendor/**"]
  includes : List Text := []
  sourceRoot : Text := "./"
  extensions : Dict Text := .empty
  languages : Dict CommentStyle := .empty
  deriving DecidableEq

namespace Config

def fileName : Text := ".todoctlrc.json"

/-- The language table of a configuration: its own languages and extensions override the ones
known from the start. -/
def languageTable (config : Config) : LanguageTable :=
  let table := config.languages.entries.foldl
    (fun table entry => table.insertLanguage entry.1 entry.2) LanguageTable.builtin
  config.extensions.entries.foldl (fun table entry => table.insertExtension entry.1 entry.2) table

open Json (Written)

def textsJson (texts : List Text) : Written := .array (texts.map .string)

def delimitersJson (block : Delimiters) : Written :=
  .object [("open", .string block.opening), ("close", .string block.closing)]

/-- A comment style in JSON; block delimiters that are missing are left out. -/
def styleJson (style : CommentStyle) : Written :=
  .object (("leaders", textsJson style.leaders) ::
    (style.block.map fun block => (("block" : Text), delimitersJson block)).toList)

def toJson (config : Config) : Written :=
  .object [
    ("ignores", textsJson config.ignores),
    ("includes", textsJson config.includes),
    ("sourceRoot", .string config.sourceRoot),
    ("extensions", .object (config.extensions.entries.map fun (ext, tag) => (ext, .string tag))),
    ("languages",
      .object (config.languages.entries.map fun (tag, style) => (tag, styleJson style)))]

def print (config : Config) : Text := config.toJson 0

end Config
end Marginalia
