import Marginalia.Text.Search

/-! Text with terminal styles. A report is made of spans, each a text and a style, and written with
or without the escape sequences for the styles. Padding belongs to the text of a span. -/

namespace Marginalia

inductive Colour where
  | red
  | green
  | yellow
  | blue
  | magenta
  | cyan
  deriving DecidableEq

/-- The look of a span. -/
structure Paint where
  bold : Bool := false
  dimmed : Bool := false
  colour : Option Colour := none
  deriving DecidableEq

/-- A piece of a line with one look. -/
structure Span where
  text : Text
  paint : Paint := {}
  deriving DecidableEq

/-- The number that selects a colour for the text. -/
def Colour.code : Colour → Text
  | .red => "31"
  | .green => "32"
  | .yellow => "33"
  | .blue => "34"
  | .magenta => "35"
  | .cyan => "36"

namespace Paint

/-- A colour and nothing else. -/
def of (colour : Colour) : Paint := { colour := some colour }

/-- The numbers that select a look, the colour last. -/
def codes (paint : Paint) : List Text :=
  (if paint.bold then [['1']] else []) ++ (if paint.dimmed then [['2']] else []) ++
    (paint.colour.map Colour.code).toList

/-- The sequence that selects a look. -/
def start (paint : Paint) : Text := "\x1b[" ++ Text.join [';'] paint.codes ++ ['m']

/-- The sequence that ends every look. -/
def reset : Text := "\x1b[0m"

/-- What is left of a text, given the part already seen backwards, with the start of this look after
every end of a look. -/
def resumeAfter (paint : Paint) (seen : Text) : Text → Text
  | [] => []
  | c :: rest =>
    let tail := paint.resumeAfter (c :: seen) rest
    if reset.reverse.isPrefixOf (c :: seen) then c :: paint.start ++ tail else c :: tail

/-- A text in which every end of a look is followed by the start of this one again. -/
def resume (paint : Paint) (s : Text) : Text := paint.resumeAfter [] s

end Paint

namespace Span

def plain (text : Text) : Span := { text }

def coloured (colour : Colour) (text : Text) : Span := ⟨text, .of colour⟩

/-- The written span, with escape sequences when `inColour`. -/
def render (inColour : Bool) (span : Span) : Text :=
  if inColour && span.paint != {} then
    span.paint.start ++ span.paint.resume span.text ++ Paint.reset
  else span.text

@[simp] theorem text_plain (s : Text) : (plain s).text = s := rfl

@[simp] theorem text_coloured (colour : Colour) (s : Text) : (coloured colour s).text = s := rfl

@[simp] theorem render_false (span : Span) : span.render false = span.text := rfl

end Span

namespace Text

/-- The text with blanks before it up to a number of characters. -/
def padStart (width : Nat) (s : Text) : Text := List.replicate (width - s.length) ' ' ++ s

/-- The text with blanks after it up to a number of characters. -/
def padEnd (width : Nat) (s : Text) : Text := s ++ List.replicate (width - s.length) ' '

end Text

/-- Whether to use colours: always if they are forced, never if they are refused, and otherwise on a
terminal that has them. Colours are forced, or a terminal has them, unless the setting is `0`. -/
def wantsColour (isTerminal : Bool) (colour forced refused : Option Text) : Bool :=
  if forced.any (· != ['0']) then true
  else if refused.isSome then false
  else isTerminal && colour != some ['0']

def renderLines (inColour : Bool) (lines : List (List Span)) : Text :=
  lines.flatMap fun line => line.flatMap (·.render inColour) ++ ['\n']

end Marginalia
