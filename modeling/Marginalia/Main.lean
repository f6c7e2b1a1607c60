import Marginalia.Command.Run

/-! The program. It takes the working directory as a file tree, carries the command out on that
tree, and then prints and writes to disk what the command left.

Two texts of the command line are left out. The help of a single command, which would list the
options of that command, is not written out: whichever command help is asked for, the text that
explains all commands is printed. And an argument that is not understood is told by the kind of
mistake, without the argument and without a hint. Both end with the same status as they would with
these texts. -/

namespace Marginalia.Main

def textOf (s : String) : Text := s.toList

def stringOf (s : Text) : String := String.ofList s

/-- A tree with what is at and below an entry of a folder, given the place of the folder. Links are
not followed. -/
partial def addEntry (folder : Location) (tree : Tree) (entry : IO.FS.DirEntry) : IO Tree := do
  let name := textOf entry.fileName
  let put (what : Entry) : Tree := (tree.put? folder name what).getD tree
  match (← entry.path.symlinkMetadata).type with
  | .file => return put (.ofBytes (← IO.FS.readBinFile entry.path))
  | .dir => (← entry.path.readDir).foldlM (addEntry (folder ++ [name])) (put .folder)
  | _ => return tree

def workingTree : IO Tree := do
  (← (← IO.currentDir).readDir).foldlM (addEntry []) .empty

/-- The texts of a tree that another one does not have, with their places. -/
def newTexts (before after : Tree) : List (Location × Text) :=
  after.entries.filterMap fun (place, entry) =>
    match entry with
    | .text s => if before.get? place = some entry then none else some (place, s)
    | _ => none

/-- Writes the new texts of a tree to disk. -/
def writeBack (before after : Tree) : IO Unit := do
  if before = after then return
  for (place, s) in newTexts before after do
    IO.FS.writeFile (stringOf (Text.join ['/'] place)) (stringOf s)

/-- Whether the standard output shows colours. -/
def inColour : IO Bool := do
  let setting (name : String) : IO (Option Text) := return (← IO.getEnv name).map textOf
  return wantsColour (← (← IO.getStdout).isTty) (← setting "CLICOLOR")
    (← setting "CLICOLOR_FORCE") (← setting "NO_COLOR")

def execute (command : Option Command) : IO UInt32 := do
  let tree ← workingTree
  match Command.run tree (← inColour) command with
  | .ok effect =>
    IO.print (stringOf effect.stdout)
    IO.eprint (stringOf effect.stderr)
    writeBack tree effect.tree
    return match effect.status with
      | .success => 0
      | .failure => 1
  | .error e =>
    IO.eprintln (stringOf ("Error: " ++ e.fullMessage))
    return 2

/-- Runs the program on its arguments. All requests for help get the same text. -/
def run (args : List String) : IO UInt32 := do
  match Command.parse (args.map textOf) with
  | .ok command => execute command
  | .error .helpRequested =>
    IO.print (stringOf Command.help)
    return 0
  | .error .versionRequested =>
    IO.print (stringOf Command.version)
    return 0
  | .error e =>
    IO.eprintln (stringOf ("error: " ++ e.message))
    return 2

end Marginalia.Main

def main (args : List String) : IO UInt32 := Marginalia.Main.run args
