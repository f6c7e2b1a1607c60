import Marginalia.Display.Emoji
import Marginalia.Display.Wide
import Marginalia.Display.ZeroWidth

/-! Columns a text takes on a display.

A character by itself takes no, one, two or, once, three columns. Within a text some characters join
with those that follow them: emoji sequences, flags, and ligatures of several scripts. The width of
a text is therefore summed from its end to its start, with a record of what follows. -/

namespace Marginalia.Display

/-- What follows a place in a text, as far as it matters for the width of what comes before. -/
inductive Following where
  /-- Nothing of interest. -/
  | other
  | lineFeed
  | skinTone
  | flagLetter
  | flagLetters
  /-- A picture. -/
  | emoji
  /-- A joiner and a picture. -/
  | joinedEmoji
  /-- An enclosing keycap before a joiner and a picture. -/
  | joinedKeycap
  /-- One flag letter, an even number, or a further odd number of them, before a joiner and a
  picture. -/
  | joinedFlagLetter
  | joinedFlag
  | joinedFlagAndLetter
  /-- The end of a tag sequence before a joiner and a picture, with so many letters or digits. -/
  | tagLetters (count : Nat)
  | tagDigits (count : Nat)
  | kiratRaiE
  | kiratRaiAi
  | alef
  | lamed (joined : Bool)
  | bugineseYa (joined : Bool)
  | bugineseVowelYa
  | tifinagh (joined : Bool)
  | tifinaghPair
  | lisuTone
  | orkhonI (joined : Bool)
  | khmerLetter
  deriving DecidableEq

namespace Following

/-- Part of a ligature that variation selectors do not break. -/
def isLigature : Following → Bool
  | .alef | .lamed _ | .bugineseYa _ | .bugineseVowelYa | .tifinagh _ | .tifinaghPair | .lisuTone
  | .orkhonI _ | .khmerLetter => true
  | _ => false

/-- Part of a ligature that joiners and invisible marks do not break. -/
def isLoose (f : Following) : Bool := f.isLigature && f != .alef

/-- What follows once a joiner stands before it. -/
def join : Following → Following
  | .lamed _ => .lamed true
  | .bugineseYa _ => .bugineseYa true
  | .tifinagh _ => .tifinagh true
  | .orkhonI _ => .orkhonI true
  | f => f

end Following

/-- What follows a place, and whether a selector for the picture, for the text or for a wide
quotation mark comes first. -/
structure Context where
  following : Following := .other
  emojiSelected : Bool := false
  textSelected : Bool := false
  quoteSelected : Bool := false
  deriving DecidableEq

def inRange (c : Char) (first last : Nat) : Bool := first ≤ c.toNat && c.toNat ≤ last

def isFlagLetter (c : Char) : Bool := inRange c 0x1F1E6 0x1F1FF

def isSkinTone (c : Char) : Bool := inRange c 0x1F3FB 0x1F3FF

/-- Tifinagh consonants. -/
def isTifinagh (c : Char) : Bool := inRange c 0x2D31 0x2D65 || c.toNat == 0x2D6F

def isAlef (c : Char) : Bool :=
  CodeRanges.has [(0x622, 0x623), (0x625, 0x625), (0x627, 0x627), (0x671, 0x673), (0x675, 0x675),
    (0x773, 0x774), (0x870, 0x882)] c

def isLam (c : Char) : Bool :=
  CodeRanges.has [(0x644, 0x644), (0x6B5, 0x6B8), (0x76A, 0x76A), (0x8A6, 0x8A6), (0x8C7, 0x8C7)] c

/-- Khmer letters that can stand below another one. -/
def isKhmerSubscript (c : Char) : Bool :=
  CodeRanges.has [(0x1780, 0x1782), (0x1784, 0x1787), (0x1789, 0x178C), (0x178E, 0x1793),
    (0x1795, 0x1798), (0x179B, 0x179D), (0x17A0, 0x17A0), (0x17A2, 0x17A2), (0x17A7, 0x17A7),
    (0x17AB, 0x17AC), (0x17AF, 0x17AF)] c

/-- Quotation marks that a selector can make wide. -/
def isCurlyQuote (c : Char) : Bool :=
  CodeRanges.has [(0x2018, 0x2019), (0x201C, 0x201D)] c

/-- Combining marks that a display ignores. -/
def isInvisibleMark (c : Char) : Bool :=
  CodeRanges.has [(0x34F, 0x34F), (0x17B4, 0x17B5), (0x180B, 0x180D), (0x180F, 0x180F),
    (0xFE00, 0xFE0F), (0xE0100, 0xE01EF)] c

/-- The width of a character by itself, and what it is for the character before it. -/
def alone (c : Char) : Nat × Following :=
  let n := c.toNat
  if n == 0x5DC then (1, .lamed false)
  else if isAlef c then (1, .alef)
  else if isKhmerSubscript c then (1, .khmerLetter)
  else if n == 0x17D8 then (3, .other)
  else if n == 0x115F || n == 0x17A4 then (2, .other)
  else if n == 0x1A10 then (1, .bugineseYa false)
  else if isTifinagh c then (1, .tifinagh false)
  else if inRange c 0xA4FC 0xA4FD then (1, .lisuTone)
  else if n == 0x10C03 then (1, .orkhonI false)
  else if n == 0x16D67 then (1, .kiratRaiE)
  else if n == 0x16D68 then (1, .kiratRaiAi)
  else if isFlagLetter c then (1, .flagLetter)
  else if isSkinTone c then (2, .skinTone)
  else if isEmoji c then (2, .emoji)
  else if isZeroWidth c then (0, .other)
  else if isWide c then (2, .other)
  else (1, .other)

/-- The columns a character takes by itself. Controls take none. -/
def charWidth (c : Char) : Nat :=
  if c.toNat < 0x20 || inRange c 0x7F 0x9F then 0
  else if c.toNat ≤ 0xA0 then 1
  else (alone c).1

def joiner : Char := '\u200d'

/-- The change in width, and what follows now, for a character that joins with what follows. -/
def joined? (following : Following) (c : Char) : Option (Int × Following) :=
  let n := c.toNat
  let isTagLetter := inRange c 0xE0061 0xE007A
  let isTagDigit := inRange c 0xE0030 0xE0039
  match following with
  | .alef =>
    if isLam c then some (0, .other)
    else if isJoinTransparent c then some (0, .alef)
    else none
  | .lamed true => if n == 0x5D0 then some (0, .other) else none
  | .khmerLetter => if n == 0x17D2 then some (-1, .other) else none
  | .bugineseYa true => if n == 0x1A17 then some (0, .bugineseVowelYa) else none
  | .bugineseVowelYa => if n == 0x1A15 then some (0, .other) else none
  | .tifinagh hasJoiner =>
    if n == 0x2D7F then some (1, .tifinaghPair)
    else if hasJoiner && isTifinagh c then some (0, .other)
    else none
  | .tifinaghPair => if isTifinagh c then some (-1, .other) else none
  | .lisuTone => if inRange c 0xA4F8 0xA4FB then some (0, .other) else none
  | .orkhonI true => if n == 0x10C32 then some (0, .other) else none
  | .kiratRaiE =>
    if n == 0x16D63 then some (0, .other)
    else if n == 0x16D67 then some (0, .kiratRaiAi)
    else if n == 0x16D68 then some (1, .kiratRaiE)
    else if n == 0x16D69 then some (0, .other)
    else none
  | .kiratRaiAi => if n == 0x16D63 then some (0, .other) else none
  | .skinTone =>
    if takesSkinTone c then some (0, .emoji)
    else if c == joiner then some (0, .joinedEmoji)
    else none
  | .flagLetter => if isFlagLetter c then some (1, .flagLetters) else none
  | .flagLetters =>
    if isFlagLetter c then some (1, .flagLetters)
    else if c == joiner then some (0, .joinedEmoji)
    else none
  | .emoji => if c == joiner then some (0, .joinedEmoji) else none
  | .joinedEmoji =>
    if n == 0x20E3 then some (0, .joinedKeycap)
    else if isFlagLetter c then some (1, .joinedFlagLetter)
    else if isSkinTone c then some (0, .skinTone)
    else if n == 0xE007F then some (0, .tagLetters 0)
    else if isEmoji c then some (0, .emoji)
    else none
  | .joinedFlagLetter => if isFlagLetter c then some (-1, .joinedFlag) else none
  | .joinedFlag =>
    if isFlagLetter c then some (3, .joinedFlagAndLetter)
    else if c == joiner then some (0, .joinedEmoji)
    else none
  | .joinedFlagAndLetter =>
    if isFlagLetter c then some (-1, .joinedFlag)
    else if c == joiner then some (0, .joinedEmoji)
    else none
  | .tagLetters count =>
    if isTagLetter && count < 6 then some (0, .tagLetters (count + 1))
    else if isTagDigit && count ≤ 4 then some (0, .tagDigits 1)
    else if n == 0x1F3F4 && 3 ≤ count then some (0, .emoji)
    else none
  | .tagDigits count =>
    if isTagDigit && count < 3 then some (0, .tagDigits (count + 1))
    else if n == 0x1F3F4 && count == 3 then some (0, .emoji)
    else none
  | _ => none

namespace Context

/-- The context once a selector for the picture stands before it. -/
def selectEmoji (ctx : Context) : Context :=
  if ctx.following.isLigature then { ctx with emojiSelected := true }
  else if ctx.following = .joinedEmoji ∨ ctx.following = .joinedKeycap then
    { following := ctx.following, emojiSelected := true }
  else { emojiSelected := true }

/-- The context once a selector for the text stands before it. -/
def selectText (ctx : Context) : Context :=
  if ctx.following.isLigature then { ctx with textSelected := true } else { textSelected := true }

/-- The context once a selector for a wide quotation mark stands before it. -/
def selectQuote (ctx : Context) : Context :=
  if ctx.following.isLigature then { ctx with quoteSelected := true } else { quoteSelected := true }

/-- The context without a selector for the picture that had nothing to select. -/
def dropEmoji (ctx : Context) : Context :=
  if !ctx.emojiSelected then ctx
  else if ctx.following.isLigature then { ctx with emojiSelected := false }
  else {}

/-- The change in width for a character that no selector changes and that is not a selector, and the
context with that character, given what follows it. -/
def plain (following : Following) (c : Char) : Int × Context :=
  if following.isLoose && c == joiner then (0, { following := following.join })
  else if following.isLoose && isInvisibleMark c then (0, { following })
  else
    match joined? following c with
    | some (change, following) => (change, { following })
    | none => ((alone c).1, { following := (alone c).2 })

/-- The change in width for a character beyond ASCII before a context without a selector for the
picture, and the context with that character. Selectors that have nothing to select are dropped. -/
def before (ctx : Context) (c : Char) : Int × Context :=
  if c.toNat = 0xFE0F then (0, ctx.selectEmoji)
  else if c.toNat = 0xFE0E then (0, ctx.selectText)
  else if c.toNat = 0xFE01 then (0, ctx.selectQuote)
  else if ctx.textSelected && takesTextSelector c then (1, {})
  else if ctx.quoteSelected && isCurlyQuote c then (2, {})
  else plain ctx.following c

/-- The change in width for one more character before a context, and the context with it. Controls
count one each, and a carriage return with its line feed one together. -/
def add (c : Char) (ctx : Context) : Int × Context :=
  if ctx.emojiSelected && takesEmojiSelector c then
    let isJoined := ctx.following == .joinedEmoji || ctx.following == .joinedKeycap
    (if isJoined then 0 else 2, { following := .emoji })
  else
    let ctx := ctx.dropEmoji
    if c = '\n' then (1, { following := .lineFeed })
    else if c = '\r' ∧ ctx.following = .lineFeed then (0, {})
    else if c.toNat ≤ 0xA0 then (1, {})
    else ctx.before c

end Context

def width (s : Text) : Nat :=
  let total : Int × Context := s.foldr (fun c (sum, ctx) =>
    let (change, ctx) := ctx.add c
    (sum + change, ctx)) (0, {})
  total.1.toNat

end Marginalia.Display
