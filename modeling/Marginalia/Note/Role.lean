import Marginalia.Text.Blank
import Marginalia.Text.Search
import Marginalia.Note.Basic

/-! The role a comment's text plays among notes. It depends on that text alone. -/

namespace Marginalia

/-- The roles of a comment text. A marker has a keyword, the text after it, and the byte offset of
that text in the trimmed comment. -/
inductive Role where
  | marker (keyword : Keyword) (text : Text) (offset : Nat)
  | braceOpen
  | braceClose
  | collectionOpen
  | collectionClose
  | prose
  deriving DecidableEq

namespace Role

/-- A word with nothing but white space after it. -/
def isAlone (word s : Text) : Bool := (Text.after? word s).any Text.isAllBlank

/-- The first keyword, a colon and a brace, with nothing but white space between them and after. -/
def opensBrace (s : Text) : Bool :=
  match Text.after? Keyword.todo.spelling s with
  | some rest =>
    match rest.trimStart with
    | ':' :: tail => isAlone ['{'] (Text.trimStart tail)
    | _ => false
  | none => false

/-- A trimmed text cut after `keyword :` and the white space that follows the colon. White space
may also stand before the colon. What follows is one line. -/
def heading? (keyword : Keyword) (s : Text) : Option (Text × Text) :=
  (Text.after? keyword.spelling s).bind fun rest =>
    match rest.trimStart with
    | ':' :: tail =>
      let text := Text.trimStart tail
      if '\n' ∈ text then none
      else some (keyword.spelling ++ rest.indent ++ ':' :: Text.indent tail, text)
    | _ => none

/-- The cut after the keyword that heads a trimmed text, whichever keyword it is. -/
def marked? (s : Text) : Option (Keyword × Text × Text) :=
  Keyword.all.findSome? fun keyword => (heading? keyword s).map (keyword, ·)

/-- A keyword with its text. A brace alone is no such text. -/
def marker? (s : Text) : Option Role :=
  (marked? s).bind fun (keyword, lead, text) =>
    if text = ['{'] then none else some (.marker keyword text lead.bytes)

def closesBrace (s : Text) : Bool := s = ['}']

def opensCollection (s : Text) : Bool := isAlone "TODOS.START" s

def closesCollection (s : Text) : Bool := isAlone "TODOS.END" s

/-- The role of a trimmed text: the first of these tests that it passes decides. A brace alone after
a keyword that opens no block is prose. -/
def ofTrimmed (s : Text) : Role :=
  if opensBrace s then .braceOpen
  else
    match marker? s with
    | some role => role
    | none =>
      if closesBrace s then .braceClose
      else if opensCollection s then .collectionOpen
      else if closesCollection s then .collectionClose
      else .prose

/-- The role of a comment's text. White space around it does not matter. -/
def ofText (s : Text) : Role := ofTrimmed s.trim

end Role
end Marginalia
