import Marginalia.Text.Search

/-! Writing JSON. A value is written as a function of the depth at which it stands, so arrays and
objects put their items on lines of their own, two blanks further in than themselves. Empty arrays
and objects stay on one line. -/

namespace Marginalia.Json

/-- A written JSON value, at any nesting depth. -/
abbrev Written := (depth : Nat) → Text

def hexDigit (n : Nat) : Char := Nat.digitChar n

/-- A character inside a string literal. Quotes, backslashes and the controls below the space are
escaped, nothing else is. -/
def escape (c : Char) : Text :=
  match c with
  | '"' => ['\\', '"']
  | '\\' => ['\\', '\\']
  | '\x08' => ['\\', 'b']
  | '\t' => ['\\', 't']
  | '\n' => ['\\', 'n']
  | '\x0c' => ['\\', 'f']
  | '\r' => ['\\', 'r']
  | c =>
    if c.toNat < 0x20 then
      ['\\', 'u', '0', '0', hexDigit (c.toNat / 16), hexDigit (c.toNat % 16)]
    else [c]

def quote (s : Text) : Text := '"' :: s.flatMap escape ++ ['"']

/-- A line break and the blanks that start a line at a nesting depth. -/
def newline (depth : Nat) : Text := '\n' :: List.replicate (2 * depth) ' '

namespace Written

/-- Items between brackets, each on a line of its own. -/
def bracketed (opening closing : Char) (items : List Written) : Written := fun depth =>
  if items.isEmpty then [opening, closing]
  else
    let inner := items.map fun item => newline (depth + 1) ++ item (depth + 1)
    opening :: Text.join [','] inner ++ newline depth ++ [closing]

def null : Written := fun _ => "null"

def number (n : Nat) : Written := fun _ => Nat.toDigits 10 n

def string (s : Text) : Written := fun _ => quote s

def nullable {α : Type} (value : α → Written) : Option α → Written
  | some a => value a
  | none => null

def array (items : List Written) : Written := bracketed '[' ']' items

/-- An object with its members in the given order. -/
def object (members : List (Text × Written)) : Written :=
  bracketed '\x7b' '\x7d' (members.map fun (key, value) => fun depth =>
    quote key ++ ':' :: ' ' :: value depth)

end Written
end Marginalia.Json
