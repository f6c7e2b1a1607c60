import Marginalia.Config.Read
import Marginalia.Config.Validate
import Marginalia.Text.Quoted
import Marginalia.Tree

/-! Finding and loading the configuration for a folder: the nearest configuration file in the folder
or above it, but not beyond the root of a repository. -/

namespace Marginalia.Config

/-- The nearest configuration file in a folder or above it. In a folder with a configuration and the
mark of a repository the configuration counts. -/
def file? (tree : Tree) (folder : Text) : Option Text :=
  let path := Path.join folder fileName
  if tree.exists? path then some path
  else if tree.exists? (Path.join folder ".git") then none
  else
    match h : Path.parent? folder with
    | some up =>
      have _shorter := Path.length_lt_of_parent? h
      file? tree up
    | none => none
termination_by folder.length

inductive LoadError where
  | unreadable (path : Text) (fault : PathFault)
  | unparsable (path : Text) (fault : Json.Fault)
  | invalid (cause : Invalid)
  deriving DecidableEq

def LoadError.message : LoadError → Text
  | .unreadable path _ => "Failed to read config file: " ++ path.quoted
  | .unparsable path _ => "Failed to parse config file: " ++ path.quoted
  | .invalid cause => cause.message

/-- A configuration, and whether it comes from a file. -/
structure Loaded where
  config : Config
  isFromFile : Bool
  deriving DecidableEq

def loadFile (tree : Tree) (path : Text) : Except LoadError Config := do
  let text ← (tree.read path).mapError (.unreadable path)
  let config ← (parse text).mapError (.unparsable path)
  config.validate.mapError .invalid
  return config

/-- The configuration for a folder; the usual one if there is no file. -/
def load (tree : Tree) (folder : Text) : Except LoadError Loaded :=
  match file? tree folder with
  | some path => return ⟨← loadFile tree path, true⟩
  | none => .ok ⟨{}, false⟩

end Marginalia.Config
