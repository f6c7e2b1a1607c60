import Marginalia.Json.Magnitude
import Marginalia.Text.Search

/-! Reading JSON into values of a known shape.

A reader takes a value from the front of a text and leaves the rest, which is strictly shorter; that
is why the loops over items end. Reading goes from left to right and stops at the first thing that
is wrong. What is wrong is one of three faults: the text ends too early, the JSON is well-formed up
to here but has the wrong shape, or it is not JSON. -/

namespace Marginalia.Json

/-- Why reading stopped. -/
inductive Fault where
  | truncated
  | mismatch
  | malformed
  deriving DecidableEq

def Fault.message : Fault → Text
  | .truncated => "the document ends too early"
  | .mismatch => "the document has a value of the wrong shape"
  | .malformed => "the document is not well-formed"

/-- A value taken from the front of `s`, and the rest of `s`. -/
structure Parsed (α : Type) (s : Text) where
  value : α
  rest : Text
  shorter : rest.length < s.length

/-- Takes a value from the front of a text. -/
abbrev Reader (α : Type) := (s : Text) → Except Fault (Parsed α s)

variable {α β σ : Type}

namespace Parsed

/-- The same rest with another value. -/
def map (f : α → β) {s : Text} (p : Parsed α s) : Parsed β s := ⟨f p.value, p.rest, p.shorter⟩

/-- What is taken from the front of a shorter text is taken from the longer one. -/
def within {s t : Text} (p : Parsed α s) (h : s.length ≤ t.length) : Parsed α t :=
  ⟨p.value, p.rest, Nat.lt_of_lt_of_le p.shorter h⟩

/-- A value for the first character of a text. -/
def first (value : α) (c : Char) (s : Text) : Parsed α (c :: s) := ⟨value, s, Nat.lt_succ_self _⟩

/-- What is taken after a character. -/
def afterChar (c : Char) {s : Text} (p : Parsed α s) : Parsed α (c :: s) := p.within (Nat.le_succ _)

/-- What is taken after something else. -/
def andThen {s : Text} (p : Parsed α s) (q : Parsed β p.rest) : Parsed β s :=
  q.within (Nat.le_of_lt p.shorter)

/-- The character right after what is taken. -/
def char? {s : Text} (p : Parsed α s) : Option (Parsed Char s) :=
  match p with
  | ⟨_, [], _⟩ => none
  | ⟨_, c :: rest, shorter⟩ => some ⟨c, rest, Nat.lt_of_succ_lt shorter⟩

/-- A word right after what is taken. -/
def word? (word : Text) {s : Text} (p : Parsed α s) : Option (Parsed Unit s) :=
  match h : Text.after? word p.rest with
  | some rest => some ⟨(), rest, Nat.lt_of_le_of_lt (Text.length_le_of_after? h) p.shorter⟩
  | none => none

end Parsed

namespace Reader

def map (f : α → β) (r : Reader α) : Reader β := fun s => (r s).map (·.map f)

end Reader

/-- The white space of JSON. -/
def isSpace (c : Char) : Bool := c == ' ' || c == '\n' || c == '\t' || c == '\r'

/-- The first character that is not white space. -/
def next? : (s : Text) → Option (Parsed Char s)
  | [] => none
  | c :: s =>
    if isSpace c then (next? s).map (·.afterChar c) else some (.first c c s)

/-! ### Strings -/

def hexValue? (c : Char) : Option Nat :=
  if c.isDigit then some (c.toNat - '0'.toNat)
  else if 'a' ≤ c ∧ c ≤ 'f' then some (c.toNat - 'a'.toNat + 10)
  else if 'A' ≤ c ∧ c ≤ 'F' then some (c.toNat - 'A'.toNat + 10)
  else none

/-- Four hexadecimal digits. The text ends too early if it has fewer than four bytes left. -/
def hexQuad : Reader Nat := fun s =>
  if (Text.bytes (s.take 4)) < 4 then .error .truncated
  else
    match s with
    | a :: b :: c :: d :: rest =>
      match hexValue? a, hexValue? b, hexValue? c, hexValue? d with
      | some a, some b, some c, some d =>
        let value := ((a * 16 + b) * 16 + c) * 16 + d
        .ok (((Parsed.first value _ rest).afterChar _).afterChar _ |>.afterChar _)
      | _, _, _, _ => .error .malformed
    | _ => .error .malformed

/-- The second half of a surrogate pair, given the first half. -/
def secondHalf (first : Nat) : Reader Char := fun s =>
  match s with
  | [] => .error .truncated
  | ['\\'] => .error .truncated
  | '\\' :: 'u' :: rest => do
    let quad ← hexQuad rest
    if 0xDC00 ≤ quad.value ∧ quad.value ≤ 0xDFFF then
      let c := Char.ofNat (0x10000 + (first - 0xD800) * 0x400 + (quad.value - 0xDC00))
      return ((quad.map fun _ => c).afterChar _).afterChar _
    else .error .malformed
  | _ => .error .malformed

/-- The character that the four digits of an escape stand for. Where strings are only skipped, half
a surrogate pair is let pass. -/
def unicodeEscape (skipping : Bool) : Reader Char := fun s => do
  let quad ← hexQuad s
  if skipping || quad.value < 0xD800 || 0xDFFF < quad.value then
    return quad.map Char.ofNat
  else if 0xDC00 ≤ quad.value then .error .malformed
  else
    let pair ← secondHalf quad.value quad.rest
    return quad.andThen pair

/-- The character that a letter or sign after a backslash stands for. -/
def simpleEscape? : Char → Option Char
  | '"' => some '"'
  | '\\' => some '\\'
  | '/' => some '/'
  | 'b' => some '\x08'
  | 'f' => some '\x0c'
  | 'n' => some '\n'
  | 'r' => some '\r'
  | 't' => some '\t'
  | _ => none

/-- What follows a backslash in a string literal. -/
def escaped (skipping : Bool) : Reader Char := fun s =>
  match s with
  | [] => .error .truncated
  | c :: rest =>
    if c = 'u' then (unicodeEscape skipping rest).map (·.afterChar c)
    else
      match simpleEscape? c with
      | some char => .ok (.first char c rest)
      | none => .error .malformed

/-- The rest of a string literal after its opening quote. -/
def stringTail (skipping : Bool) (s : Text) : Except Fault (Parsed Text s) :=
  match s with
  | [] => .error .truncated
  | c :: rest =>
    if c = '"' then .ok (.first [] c rest)
    else if c = '\\' then do
      let char ← escaped skipping rest
      let tail ← stringTail skipping char.rest
      return ((char.andThen tail).map (char.value :: ·)).afterChar c
    else if c.toNat < 0x20 then .error .malformed
    else do
      let tail ← stringTail skipping rest
      return (tail.map (c :: ·)).afterChar c
termination_by s.length
decreasing_by
  · exact Nat.lt_succ_of_lt char.shorter
  · exact Nat.lt_succ_self _

/-! ### Numbers

No value read here is a number, so numbers are looked at only to tell a wrong shape from text that
is not JSON. Where a value is due a number must not be out of range; in a value that is skipped any
number will do. -/

/-- The fault in meeting a number where something else is due. -/
def scaledFault (x : Scaled) : Fault := if x.isOutOfRange then .malformed else .mismatch

/-- The fault in meeting a number whose text goes on with `s` after its integer and fraction. -/
def exponentFault (x : Scaled) (s : Text) : Fault :=
  match s with
  | [] => scaledFault x
  | c :: rest =>
    if c = 'e' ∨ c = 'E' then
      let (sign, digits) : Int × Text :=
        match rest with
        | '+' :: digits => (1, digits)
        | '-' :: digits => (-1, digits)
        | digits => (1, digits)
      match digits with
      | [] => .truncated
      | d :: _ =>
        if d.isDigit then
          scaledFault (x.withExponent (sign * decimal (digits.takeWhile Char.isDigit)))
        else .malformed
    else scaledFault x

/-- The fault in meeting a number whose text goes on with `s` after its integer. -/
def fractionFault (x : Scaled) (s : Text) : Fault :=
  match s with
  | '.' :: rest =>
    let digits := rest.takeWhile Char.isDigit
    if rest.isEmpty then .truncated
    else if digits.isEmpty then .malformed
    else exponentFault (x.withFraction digits) (rest.drop digits.length)
  | s => exponentFault x s

/-- The fault in meeting a number where something else is due, without its sign. A zero is followed
by no further digit. -/
def numberFault (s : Text) : Fault :=
  match s with
  | [] => .truncated
  | c :: rest =>
    if c = '0' then
      if rest.head?.any Char.isDigit then .malformed else fractionFault (.ofDigits [c]) rest
    else if c.isDigit then
      let digits := s.takeWhile Char.isDigit
      fractionFault (.ofDigits digits) (s.drop digits.length)
    else .malformed

/-! ### Shapes -/

/-- The fault in a text that should go on with `word`. -/
def wordFault (word s : Text) : Fault := if s.isPrefixOf word then .truncated else .malformed

/-- The fault in a literal whose first character has been seen, where something else is due. -/
def literalFault (word s : Text) : Fault :=
  if s.startsWith word then .mismatch else wordFault word s

/-- The fault in a text that should go on with a value of another kind. -/
def shapeFault (s : Text) : Fault :=
  match next? s with
  | none => .truncated
  | some ⟨c, rest, _⟩ =>
    match c with
    | 'n' => literalFault "ull" rest
    | 't' => literalFault "rue" rest
    | 'f' => literalFault "alse" rest
    | '-' => numberFault rest
    | '"' =>
      match stringTail false rest with
      | .ok _ => .mismatch
      | .error fault => fault
    | '[' => .mismatch
    | '\x7b' => .mismatch
    | c => if c.isDigit then numberFault (c :: rest) else .malformed

namespace Reader

/-- A text that should go on with the character `c`, white space apart. -/
def symbol (c : Char) : Reader Unit := fun s =>
  match next? s with
  | none => .error .truncated
  | some p => if p.value = c then .ok (p.map fun _ => ()) else .error .malformed

def text : Reader Text := fun s =>
  match next? s with
  | none => .error .truncated
  | some p =>
    if p.value = '"' then (stringTail false p.rest).map p.andThen
    else .error (shapeFault s)

/-- A value, or nothing for `null`. -/
def nullOr (item : Reader α) : Reader (Option α) := fun s =>
  match next? s with
  | none => .error .truncated
  | some p =>
    if p.value = 'n' then
      match p.word? "ull" with
      | some null => .ok (null.map fun _ => none)
      | none => .error (wordFault "ull" p.rest)
    else item.map some s

/-- The items of an array from one on that is due. -/
def items (item : Reader α) (s : Text) : Except Fault (Parsed (List α) s) := do
  let head ← item s
  match next? head.rest with
  | none => .error .truncated
  | some p =>
    if p.value = ']' then
      return (head.andThen p).map fun _ => [head.value]
    else if p.value = ',' then
      let tail ← items item p.rest
      return (head.andThen (p.andThen tail)).map (head.value :: ·)
    else .error .malformed
termination_by s.length
decreasing_by exact Nat.lt_trans p.shorter head.shorter

def list (item : Reader α) : Reader (List α) := fun s =>
  match next? s with
  | none => .error .truncated
  | some p =>
    if p.value = '[' then
      match next? p.rest with
      | none => .error .truncated
      | some q =>
        if q.value = ']' then .ok ((p.andThen q).map fun _ => [])
        else (items item p.rest).map p.andThen
    else .error (shapeFault s)

/-- What to do with a member, given its key and what has been read so far: refuse it at once, or
read its value. -/
abbrev MemberReader (σ : Type) := σ → (key : Text) → Except Fault (Reader σ)

/-- Reads a field unless it has been read before. -/
def once (old : Option α) (field : Reader σ) : Except Fault (Reader σ) :=
  if old.isSome then .error .mismatch else .ok field

/-- The members of an object from one on that is due. -/
def members (member : MemberReader σ) (seen : σ) (s : Text) : Except Fault (Parsed σ s) := do
  let quote ← symbol '"' s
  let key ← stringTail false quote.rest
  let value ← member seen key.value
  let colon ← symbol ':' key.rest
  let seen ← value colon.rest
  match next? seen.rest with
  | none => .error .truncated
  | some p =>
    let last := quote.andThen (key.andThen (colon.andThen (seen.andThen p)))
    if last.value = '\x7d' then return last.map fun _ => seen.value
    else if last.value = ',' then
      let rest ← members member seen.value last.rest
      return last.andThen rest
    else .error .malformed
termination_by s.length
decreasing_by exact last.shorter

/-- The rest of an object after its opening brace. -/
def objectTail (member : MemberReader σ) (start : σ) (s : Text) : Except Fault (Parsed σ s) :=
  match next? s with
  | none => .error .truncated
  | some p => if p.value = '\x7d' then .ok (p.map fun _ => start) else members member start s

/-- An object whose keys are not known beforehand. -/
def object (member : MemberReader σ) (start : σ) : Reader σ := fun s =>
  match next? s with
  | none => .error .truncated
  | some p =>
    if p.value = '\x7b' then
      (objectTail member start p.rest).map p.andThen
    else .error (shapeFault s)

/-- The rest of an array that holds the fields of a record in their order, given readers for the
fields that are still to come. Fields at the end may be left out. -/
def fieldsTail (isFirst : Bool) (fields : List (σ → Reader σ)) (seen : σ) (s : Text) :
    Except Fault (Parsed σ s) :=
  match next? s with
  | none => .error .truncated
  | some p =>
    if p.value = ']' then .ok (p.map fun _ => seen)
    else
      match fields with
      | [] => .error .malformed
      | field :: fields =>
        if isFirst then do
          let seen ← field seen s
          let rest ← fieldsTail false fields seen.value seen.rest
          return seen.andThen rest
        else if p.value = ',' then do
          let seen ← field seen p.rest
          let rest ← fieldsTail false fields seen.value seen.rest
          return p.andThen (seen.andThen rest)
        else .error .malformed

/-- A record: an object with known keys, or an array of the fields in their order. -/
def record (member : MemberReader σ) (fields : List (σ → Reader σ)) (start : σ)
    (finish : σ → Except Fault α) : Reader α := fun s =>
  match next? s with
  | none => .error .truncated
  | some p => do
    let seen : Parsed σ p.rest ←
      if p.value = '\x7b' then objectTail member start p.rest
      else if p.value = '[' then fieldsTail true fields start p.rest
      else .error (shapeFault s)
    let value ← finish seen.value
    return (p.andThen seen).map fun _ => value

/-- A whole text that is one value and white space. -/
def document (value : Reader α) (s : Text) : Except Fault α := do
  let p ← value s
  if (next? p.rest).isNone then return p.value else .error .malformed

end Reader
end Marginalia.Json
