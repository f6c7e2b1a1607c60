import Marginalia.Config.Basic
import Marginalia.Glob.Pattern
import Marginalia.Text.Blank

/-! Configurations that make sense. A configuration is checked field by field, and the first thing
that is wrong with it is reported. -/

namespace Marginalia.Config

inductive PatternField where
  | ignores
  | includes
  deriving DecidableEq

inductive Invalid where
  | badPattern (field : PatternField) (pattern : Text) (cause : Glob.PatternError)
  | noComments (tag : Text)
  | emptyLeader (tag : Text)
  | emptyDelimiter (tag : Text)
  | badMapping (ext tag : Text)
  deriving DecidableEq

def PatternField.name : PatternField → Text
  | .ignores => "ignores"
  | .includes => "includes"

def Invalid.message : Invalid → Text
  | .badPattern field pattern _ =>
    "Invalid glob pattern in '" ++ field.name ++ "': \"" ++ pattern ++ "\""
  | .noComments tag =>
    "Language \"" ++ tag ++ "\" in 'languages' defines no leaders or block delimiters"
  | .emptyLeader tag => "Language \"" ++ tag ++ "\" in 'languages' has an empty leader"
  | .emptyDelimiter tag => "Language \"" ++ tag ++ "\" in 'languages' has an empty block delimiter"
  | .badMapping ext tag => "Invalid mapping in 'extensions': \"" ++ ext ++ "\" -> \"" ++ tag ++ "\""

/-- A pattern that cannot be read. -/
def checkPattern (field : PatternField) (pattern : Text) : Except Invalid Unit :=
  match Glob.parse pattern with
  | .ok _ => .ok ()
  | .error cause => .error (.badPattern field pattern cause)

/-- An entry of `includes` without wildcards is a plain path. -/
def checkInclude (entry : Text) : Except Invalid Unit :=
  if Glob.isPattern entry then checkPattern .includes entry else .ok ()

/-- A language that could never recognise a comment. -/
def checkLanguage (tag : Text) (style : CommentStyle) : Except Invalid Unit :=
  if style.isEmpty then .error (.noComments tag)
  else if style.leaders.any Text.isAllBlank then .error (.emptyLeader tag)
  else if style.block.any fun b => Text.isAllBlank b.opening || Text.isAllBlank b.closing then
    .error (.emptyDelimiter tag)
  else .ok ()

/-- An extension without letters, or one for no language. -/
def checkMapping (ext tag : Text) : Except Invalid Unit :=
  if ext.all (· == '.') || tag.isAllBlank then .error (.badMapping ext tag) else .ok ()

/-- The first thing that is wrong with a configuration. -/
def validate (config : Config) : Except Invalid Unit := do
  config.ignores.forM (checkPattern .ignores)
  config.includes.forM checkInclude
  config.languages.entries.forM fun (tag, style) => checkLanguage tag style
  config.extensions.entries.forM fun (ext, tag) => checkMapping ext tag

end Marginalia.Config
