import Marginalia.Glob.Expand
import Marginalia.Language.Table

/-! The files of a scan. -/

namespace Marginalia

/-- What to leave out: everything within plain paths, and everything that a pattern stands for. -/
structure IgnoreList where
  paths : List Text
  patterns : List Glob.Pattern

namespace IgnoreList

/-- The ignore list written as entries relative to a base. Patterns that cannot be read leave out
nothing. -/
def ofEntries (base : Text) (entries : List Text) : IgnoreList where
  paths := (entries.filter fun entry => !Glob.isPattern entry).map (Path.join base)
  patterns := (entries.filter Glob.isPattern).filterMap fun entry => (Glob.parse entry).toOption

def ignores (list : IgnoreList) (path : Text) : Bool :=
  list.paths.any (Path.isWithin path) || list.patterns.any fun pattern => Glob.isMatch pattern path

end IgnoreList

/-- Files found, in order and each path once, and the number of paths that led nowhere or could not
be entered. -/
structure Discovery where
  files : List Text
  skipped : Nat
  ordered : files.Pairwise (· < ·)
  deriving DecidableEq

namespace Discovery

/-- Texts in increasing order, each once. -/
def inOrder (texts : List Text) : List Text := (Dict.ofList (texts.map fun s => (s, ()))).keys

/-- What was found along several paths, put together. -/
def merge (found : List (List Text × Nat)) : Discovery where
  files := inOrder (found.flatMap Prod.fst)
  skipped := found.foldr (fun part n => part.2 + n) 0
  ordered := Dict.pairwise_keys _

/-- The files at and below a path that are in a known language and not left out. A path that leads
nowhere is skipped, and so are folders that cannot be entered. -/
def walk (tree : Tree) (list : IgnoreList) (table : LanguageTable) (path : Text) :
    List Text × Nat :=
  match tree.walk? path with
  | some (files, skipped) =>
    (files.filter fun file => !list.ignores file && (table.languageOf? file).isSome, skipped)
  | none => ([], 1)

/-- The paths that an include leads to: the folders a pattern stands for, or the path itself. A
pattern that cannot be read and a path that does not exist lead nowhere. -/
def includedPaths (tree : Tree) (base entry : Text) : List Text :=
  let path := Path.join base entry
  if Glob.isPattern entry then (Glob.folders tree path).toOption.getD []
  else if tree.exists? path then [path] else []

/-- The paths to walk: the base, or only its included paths if there are any includes. -/
def roots (tree : Tree) (base : Text) (includes : List Text) : List Text :=
  if includes.isEmpty then [base] else includes.flatMap (includedPaths tree base)

/-- The files below a base, or only those below its included paths if there are any includes. -/
def belowBase (tree : Tree) (base : Text) (includes ignores : List Text) (table : LanguageTable) :
    Discovery :=
  merge ((roots tree base includes).map (walk tree (.ofEntries base ignores) table))

/-- The files given by name and those below folders given by name. A file given by name counts
whatever its language, and even if it would be left out. -/
def ofPaths (tree : Tree) (base : Text) (paths ignores : List Text) (table : LanguageTable) :
    Discovery :=
  let list := IgnoreList.ofEntries base ignores
  merge (paths.map fun p =>
    let path := Path.join base p
    if tree.isFile path then ([path], 0) else walk tree list table path)

end Discovery
end Marginalia
