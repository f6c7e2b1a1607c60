import Marginalia.Json.Reader

/-! Skipping a JSON value of any shape. The brackets that are open are kept in a list, so a value
may nest to any depth. Numbers may be out of range here and strings may hold halves of surrogate
pairs, since nothing is made of them. -/

namespace Marginalia.Json

inductive Bracket where
  | list
  | object
  deriving DecidableEq

def Bracket.closing : Bracket → Char
  | .list => ']'
  | .object => '\x7d'

/-- What is due inside open brackets, the innermost first: a value, or else a comma or the end of
the innermost bracket. -/
inductive Due where
  | value (brackets : List Bracket)
  | separator (bracket : Bracket) (outer : List Bracket)
  deriving DecidableEq

/-- What is due after a value inside open brackets, if anything. -/
def Due.afterValue? : List Bracket → Option Due
  | [] => none
  | bracket :: outer => some (.separator bracket outer)

namespace Reader

def skipDigits : Reader Unit := fun s =>
  match s with
  | [] => .error .malformed
  | c :: rest =>
    if c.isDigit then
      .ok ⟨(), rest.dropWhile Char.isDigit, Nat.lt_succ_of_le (List.dropWhile_sublist _).length_le⟩
    else .error .malformed

/-- The exponent of a number, if it has one, after the part before it. -/
def skipExponent {s : Text} (p : Parsed Unit s) : Except Fault (Parsed Unit s) :=
  match p.char? with
  | none => .ok p
  | some letter =>
    if letter.value = 'e' ∨ letter.value = 'E' then
      match letter.char? with
      | none => .error .malformed
      | some sign =>
        if sign.value = '+' ∨ sign.value = '-' then (skipDigits sign.rest).map sign.andThen
        else (skipDigits letter.rest).map letter.andThen
    else .ok p

/-- The fraction and exponent of a number, as far as it has them, after its integer. -/
def skipFraction {s : Text} (p : Parsed Unit s) : Except Fault (Parsed Unit s) :=
  match p.char? with
  | none => .ok p
  | some point =>
    if point.value = '.' then do
      let digits ← skipDigits point.rest
      skipExponent (point.andThen digits)
    else skipExponent p

/-- A number without its sign. A zero is followed by no further digit. -/
def skipNumber : Reader Unit := fun s => do
  let digits ← skipDigits s
  if s.head? = some '0' ∧ digits.rest.length + 1 < s.length then .error .malformed
  else skipFraction digits

/-- A literal whose first character has been seen. -/
def skipWord (word : Text) {s : Text} (p : Parsed Char s) : Except Fault (Parsed Unit s) :=
  match p.word? word with
  | some q => .ok q
  | none => .error (wordFault word p.rest)

/-- A value that is neither a list nor an object. -/
def skipScalar : Reader Unit := fun s =>
  match next? s with
  | none => .error .truncated
  | some p =>
    match p.value with
    | 'n' => skipWord "ull" p
    | 't' => skipWord "rue" p
    | 'f' => skipWord "alse" p
    | '"' => (stringTail true p.rest).map fun q => (p.andThen q).map fun _ => ()
    | '-' => (skipNumber p.rest).map p.andThen
    | c =>
      if c.isDigit then (skipNumber (c :: p.rest)).map (·.within p.shorter) else .error .malformed

/-- The key of a member and the colon after it. -/
def skipKey : Reader Unit := fun s => do
  let quote ← symbol '"' s
  let key ← stringTail true quote.rest
  let colon ← symbol ':' key.rest
  return quote.andThen (key.andThen colon)

/-- The next piece of a value: a scalar, a bracket, or a comma, each with the key that follows it in
an object. The result is what is due after it, if anything. -/
def skipPiece (due : Due) : Reader (Option Due) := fun s =>
  match next? s with
  | none => .error .truncated
  | some p =>
    match due with
    | .value brackets =>
      if p.value = '[' then
        match next? p.rest with
        | none => .error .truncated
        | some q =>
          if q.value = ']' then .ok ((p.andThen q).map fun _ => Due.afterValue? brackets)
          else .ok (p.map fun _ => some (.value (.list :: brackets)))
      else if p.value = '\x7b' then
        match next? p.rest with
        | none => .error .truncated
        | some q =>
          if q.value = '\x7d' then .ok ((p.andThen q).map fun _ => Due.afterValue? brackets)
          else
            (skipKey p.rest).map fun key =>
              (p.andThen key).map fun _ => some (.value (.object :: brackets))
      else (skipScalar s).map (·.map fun _ => Due.afterValue? brackets)
    | .separator bracket outer =>
      if p.value = bracket.closing then .ok (p.map fun _ => Due.afterValue? outer)
      else if p.value = ',' then
        match bracket with
        | .list => .ok (p.map fun _ => some (.value (.list :: outer)))
        | .object =>
          (skipKey p.rest).map fun key =>
            (p.andThen key).map fun _ => some (.value (.object :: outer))
      else .error .malformed

/-- The pieces of a value that are still due after some of it. -/
def skipPieces {s : Text} (p : Parsed (Option Due) s) : Except Fault (Parsed Unit s) :=
  match p.value with
  | none => .ok (p.map fun _ => ())
  | some due =>
    match skipPiece due p.rest with
    | .error fault => .error fault
    | .ok next => skipPieces (p.andThen next)
termination_by p.rest.length
decreasing_by exact next.shorter

/-- A value of any shape. -/
def anything : Reader Unit := fun s => skipPiece (.value []) s >>= skipPieces

end Reader
end Marginalia.Json
