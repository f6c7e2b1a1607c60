import Marginalia.Note.Basic
import Marginalia.Text.Search

/-! The command line.

Arguments are taken from left to right. An option that needs a value keeps it back until the next
argument is understood, so an argument that is not known is reported before the value of the option
before it is looked at. -/

namespace Marginalia

inductive ReportFormat where
  | text
  | json
  deriving DecidableEq

/-- What `--kind` can ask for. -/
inductive KindFilter where
  | todo
  | fixme
  | xxx
  | brace
  | collection
  deriving DecidableEq

namespace KindFilter

def admits : KindFilter → NoteKind → Bool
  | .todo, .marker .todo => true
  | .fixme, .marker .fixme => true
  | .xxx, .marker .xxx => true
  | .brace, .brace => true
  | .collection, .collection => true
  | _, _ => false

/-- The one kind of notes that a filter stands for. -/
def kind : KindFilter → NoteKind
  | .todo => .marker .todo
  | .fixme => .marker .fixme
  | .xxx => .marker .xxx
  | .brace => .brace
  | .collection => .collection

theorem admits_iff {filter : KindFilter} {kind : NoteKind} :
    filter.admits kind = true ↔ kind = filter.kind := by
  cases filter <;> rcases kind with (_ | _ | _) | _ | _ <;> decide

end KindFilter

/-- What to scan and how to report it. No filters let all kinds of notes through. -/
structure ScanOptions where
  paths : List Text := []
  sourceRoot : Option Text := none
  isVerbose : Bool := false
  format : ReportFormat := .text
  output : Option Text := none
  filters : List KindFilter := []
  noContext : Bool := false
  denyWarnings : Bool := false
  deriving DecidableEq

/-- The kinds of notes that are asked for. -/
def ScanOptions.kinds (options : ScanOptions) : List NoteKind := options.filters.map KindFilter.kind

inductive Command where
  | scan (options : ScanOptions)
  | init
  | languages
  deriving DecidableEq

/-- Why a command line names no command to run. Asking for help or for the version is a reason
too. -/
inductive UsageError where
  | unknownCommand
  | unknownArgument
  | invalidValue
  | repeatedArgument
  | unneededValue
  | helpRequested
  | versionRequested
  deriving DecidableEq

def UsageError.message : UsageError → Text
  | .unknownCommand => "unrecognized subcommand"
  | .unknownArgument => "unexpected argument"
  | .invalidValue => "invalid or missing value for an argument"
  | .repeatedArgument => "an argument cannot be used multiple times"
  | .unneededValue => "unexpected value for an argument"
  | .helpRequested => "help requested"
  | .versionRequested => "version requested"

namespace Command

/-- The names of the commands, with the one that explains the others. -/
def names : List Text := ["scan", "init", "languages", "help"]

def formatOfName? (name : Text) : Option ReportFormat :=
  if name = "text" then some .text else if name = "json" then some .json else none

def filterOfName? (name : Text) : Option KindFilter :=
  if name = "todo" then some .todo
  else if name = "fixme" then some .fixme
  else if name = "xxx" then some .xxx
  else if name = "brace" then some .brace
  else if name = "collection" then some .collection
  else none

/-- The options of a scan that are on or off. -/
inductive Switch where
  | verbose
  | noContext
  | denyWarnings
  | help
  deriving DecidableEq

/-- The options of a scan that have a value. -/
inductive Setting where
  | sourceRoot
  | format
  | output
  | kind
  deriving DecidableEq

def optionOfName? (name : Text) : Option (Switch ⊕ Setting) :=
  if name = "verbose" then some (.inl .verbose)
  else if name = "no-context" then some (.inl .noContext)
  else if name = "deny-warnings" then some (.inl .denyWarnings)
  else if name = "help" then some (.inl .help)
  else if name = "source-root" then some (.inr .sourceRoot)
  else if name = "format" then some (.inr .format)
  else if name = "output" then some (.inr .output)
  else if name = "kind" then some (.inr .kind)
  else none

/-- The arguments of a scan that have been understood so far. `pending` is an option whose value is
still to come or still to be looked at. -/
structure Progress where
  options : ScanOptions := {}
  format : Option ReportFormat := none
  pending : Option (Setting × Option Text) := none

namespace Progress

def pathValue (value : Text) : Except UsageError Text :=
  if value.isEmpty then .error .invalidValue else .ok value

/-- Gives an option its value. All but the kinds can be given once. -/
def assign (p : Progress) (setting : Setting) (value : Text) : Except UsageError Progress :=
  match setting with
  | .sourceRoot =>
    if p.options.sourceRoot.isSome then .error .repeatedArgument
    else return { p with options.sourceRoot := some (← pathValue value) }
  | .output =>
    if p.options.output.isSome then .error .repeatedArgument
    else return { p with options.output := some (← pathValue value) }
  | .format =>
    if p.format.isSome then .error .repeatedArgument
    else
      match formatOfName? value with
      | some format => .ok { p with options.format := format, format := some format }
      | none => .error .invalidValue
  | .kind =>
    match filterOfName? value with
    | some filter => .ok { p with options.filters := p.options.filters ++ [filter] }
    | none => .error .invalidValue

/-- Looks at the value of the pending option. -/
def settle (p : Progress) : Except UsageError Progress :=
  match p.pending with
  | none => .ok p
  | some (_, none) => .error .invalidValue
  | some (setting, some value) => { p with pending := none }.assign setting value

/-- Turns an option on, which can be done once. -/
def switchOn (p : Progress) (switch : Switch) : Except UsageError Progress := do
  let p ← p.settle
  match switch with
  | .verbose =>
    if p.options.isVerbose then .error .repeatedArgument
    else .ok { p with options.isVerbose := true }
  | .noContext =>
    if p.options.noContext then .error .repeatedArgument
    else .ok { p with options.noContext := true }
  | .denyWarnings =>
    if p.options.denyWarnings then .error .repeatedArgument
    else .ok { p with options.denyWarnings := true }
  | .help => .error .helpRequested

/-- Starts an option whose value may be attached to it or is the next argument. -/
def start (p : Progress) (setting : Setting) (value : Option Text) :
    Except UsageError Progress := do
  let p ← p.settle
  match value with
  | some value => p.assign setting value
  | none => .ok { p with pending := some (setting, none) }

def addPath (p : Progress) (path : Text) : Except UsageError Progress := do
  let p ← p.settle
  .ok { p with options.paths := p.options.paths ++ [path] }

end Progress

/-- A long option cut at its first equals sign. -/
def cutLong (s : Text) : Text × Option Text :=
  match Text.cutFirst? ['='] s with
  | some (name, value) => (name, some value)
  | none => (s, none)

def longOption (p : Progress) (s : Text) : Except UsageError Progress :=
  let (name, value) := cutLong s
  match optionOfName? name with
  | none => .error .unknownArgument
  | some (.inl switch) =>
    if value.isSome then .error .unneededValue else p.switchOn switch
  | some (.inr setting) => p.start setting value

/-- One-letter options after a dash. The one with a value takes the rest of the argument for it, if
there is any. -/
def shortOptions (p : Progress) : Text → Except UsageError Progress
  | [] => .ok p
  | c :: rest =>
    if c = 'v' then do shortOptions (← p.switchOn .verbose) rest
    else if c = 'h' then p.switchOn .help
    else if c = 'o' then
      match rest with
      | [] => p.start .output none
      | '=' :: value => p.start .output (some value)
      | value => p.start .output (some value)
    else .error .unknownArgument

/-- One argument of a scan before a double dash. A dash alone is a path. -/
def scanArgument (p : Progress) (arg : Text) : Except UsageError Progress :=
  match arg, p.pending with
  | '-' :: '-' :: name, _ => longOption p name
  | '-' :: c :: rest, _ => shortOptions p (c :: rest)
  | arg, some (setting, none) => .ok { p with pending := some (setting, some arg) }
  | arg, _ => p.addPath arg

/-- The arguments of a scan. After a double dash all arguments are paths. -/
def scanArguments (p : Progress) : List Text → Except UsageError Progress
  | [] => p.settle
  | arg :: rest =>
    if arg = ['-', '-'] then do (← rest.foldlM Progress.addPath p).settle
    else do scanArguments (← scanArgument p arg) rest

/-- A long option outside a scan: one of the given names, and no value. -/
def plainLong (known : List (Text × UsageError)) (s : Text) : UsageError :=
  let (name, value) := cutLong s
  match known.lookup name with
  | some request => if value.isSome then .unneededValue else request
  | none => .unknownArgument

def noArguments (command : Command) : List Text → Except UsageError Command
  | [] => .ok command
  | [['-', '-']] => .ok command
  | ('-' :: '-' :: name) :: _ => .error (plainLong [("help", .helpRequested)] name)
  | ('-' :: 'h' :: _) :: _ => .error .helpRequested
  | _ => .error .unknownArgument

/-- What follows a request for help: at most the name of one command. -/
def helpArguments : List Text → UsageError
  | [] => .helpRequested
  | [name] => if name ∈ names then .helpRequested else .unknownCommand
  | _ => .unknownCommand

/-- An argument where a command is due that names none. -/
def notACommand (arg : Text) (rest : List Text) : Except UsageError (Option Command) :=
  match arg with
  | ['-', '-'] =>
    match rest with
    | [] => .ok none
    | next :: _ => .error (if next ∈ names then .unknownArgument else .unknownCommand)
  | '-' :: '-' :: name =>
    .error (plainLong [("help", .helpRequested), ("version", .versionRequested)] name)
  | '-' :: 'h' :: _ => .error .helpRequested
  | '-' :: 'V' :: _ => .error .versionRequested
  | '-' :: _ :: _ => .error .unknownArgument
  | _ => .error .unknownCommand

/-- The command that a command line names, if it names any. -/
def parse : List Text → Except UsageError (Option Command)
  | [] => .ok none
  | arg :: rest =>
    if arg = "scan" then do
      let p ← scanArguments {} rest
      return some (.scan p.options)
    else if arg = "init" then return some (← noArguments .init rest)
    else if arg = "languages" then return some (← noArguments .languages rest)
    else if arg = "help" then .error (helpArguments rest)
    else notACommand arg rest

end Command
end Marginalia
