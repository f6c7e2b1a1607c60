import Marginalia.Glob.Match
import Marginalia.Tree

/-! The paths of a tree that a wildcard pattern stands for.

A pattern is expanded step by step. A step without wildcards is followed if it leads somewhere; one
with wildcards is compared with the names in the folder it is taken from; `**` is compared with
nothing and leads to everything below. Paths below the working directory are named without a leading
`./`. -/

namespace Marginalia.Glob

/-- The text that a pattern without wildcards stands for. -/
def literal? : Pattern → Option Text
  | [] => some []
  | .char c :: pattern => (literal? pattern).map (c :: ·)
  | _ => none

/-- The patterns for the steps of a path, each read by itself; several `**` in a row are one. -/
def steps (pattern : Text) : Except PatternError (List Pattern) := do
  let pieces := Text.splitOn '/' pattern
  let pieces := if pieces.getLast? == some [] then pieces.dropLast else pieces
  let patterns ← pieces.mapM parse
  return patterns.foldr (fun p later =>
    if p = [.anySteps] ∧ later.head? = some [.anySteps] then later else p :: later) []

/-- A step from a path. The working directory itself is not named. -/
def descend (path name : Text) : Text :=
  if Path.parts path = [.here] then name else Path.join path name

def childPaths (tree : Tree) (path : Text) : List (Text × Text) :=
  match tree.locate path with
  | .ok place => (tree.children place).map fun (name, _) => (name, descend path name)
  | .error _ => []

/-- The path from another one through several names. -/
def descendAll (path : Text) : Location → Text
  | [] => path
  | name :: names => names.foldl Path.join (descend path name)

/-- The paths below a path, each with its last name. What is in a folder is found by the path of the
folder, as long as that can be used. -/
def pathsBelow (tree : Tree) (path : Text) : List (Text × Text) :=
  match tree.locate path with
  | .ok place =>
    let found := (tree.below place).filter fun e => Path.fits (descendAll path e.1.dropLast)
    found.map fun (names, _) => (names.getLast?.getD [], descendAll path names)
  | .error _ => []

/-- The paths that lead from a path through the given steps. The steps `.` and `..` are names in no
folder; apart from a step that is written so, only a pattern that starts with a dot stands for
them. -/
def expandFrom (tree : Tree) : List Pattern → (path : Text) → List Text
  | [], path => [path]
  | [.anySteps] :: steps, path =>
    match steps with
    | [] => ((pathsBelow tree path).map Prod.snd).filter tree.isFolder
    | pattern :: steps =>
      ((pathsBelow tree path).filter fun (name, _) => isMatch pattern name).flatMap
        fun (_, inner) => expandFrom tree steps inner
  | pattern :: steps, path =>
    match literal? pattern with
    | some name =>
      let next := descend path name
      let isFound :=
        if name = ['.'] ∨ name = ['.', '.'] then tree.isFolder path else tree.exists? next
      if isFound then expandFrom tree steps next else []
    | none =>
      if tree.isFolder path then
        let named := (childPaths tree path).filter fun (name, _) => isMatch pattern name
        let dots : List Text :=
          if pattern.head? = some (.char '.') then
            [['.'], ['.', '.']].filter fun dots => isMatch pattern dots
          else []
        named.flatMap (fun (_, inner) => expandFrom tree steps inner) ++
          dots.flatMap fun dots => expandFrom tree steps (Path.join path dots)
      else []

/-- The folders that a pattern stands for. -/
def folders (tree : Tree) (pattern : Text) : Except PatternError (List Text) := do
  let _ ← parse pattern
  let steps ← steps pattern
  return (expandFrom tree steps ['.']).filter tree.isFolder

end Marginalia.Glob
