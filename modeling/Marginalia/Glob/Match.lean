import Marginalia.Glob.Pattern

/-! The texts that a wildcard pattern stands for.

`standsFor` says it token by token: a wildcard may stand for many beginnings of a text, and one of
them must leave an end that the rest of the pattern stands for. Trying them one after another takes
too long for patterns with many wildcards, so `isMatch` works from the last token to the first and
marks every end of the text that the tokens so far stand for. `isMatch_eq_standsFor` says that both
agree. -/

namespace Marginalia.Glob

def Token.matchesChar (c : Char) : Token → Bool
  | .char d => d == c
  | .anyChar => true
  | .anyOf members => members.any (·.contains c)
  | .noneOf members => !members.any (·.contains c)
  | .anyRun => false
  | .anySteps => false

/-- The ends of a text, the longest first: the text itself, and so on to the empty one. -/
def tails : Text → List Text
  | [] => [[]]
  | c :: s => (c :: s) :: tails s

/-- The ends of a text that start a later step: what follows a slash, and the empty end. -/
def laterSteps : Text → List Text
  | [] => [[]]
  | c :: s => if c = '/' then s :: laterSteps s else laterSteps s

/-- The pattern stands for the whole text. Slashes and dots are ordinary characters here, except
that a run of steps ends where a step does. -/
def standsFor : Pattern → Text → Bool
  | [], s => s.isEmpty
  | .anyRun :: pattern, s => (tails s).any (standsFor pattern)
  | .anySteps :: pattern, s => standsFor pattern s || (laterSteps s).any (standsFor pattern)
  | token :: pattern, s =>
    match s with
    | [] => false
    | c :: rest => token.matchesChar c && standsFor pattern rest

/-! ### Marks

Marks are truth values for the ends of a text, in the order of `tails`. -/

/-- The marks of the ends that a token for one character leads from to marked ends. -/
def charMarks (token : Token) : Text → List Bool → List Bool
  | c :: s, _ :: marks => (token.matchesChar c && marks.headD false) :: charMarks token s marks
  | _, _ => [false]

/-- The marks of the ends with a marked end, from the end itself on. -/
def runMarks (marks : List Bool) : List Bool :=
  marks.foldr (fun mark later => (mark || later.headD false) :: later) []

/-- The marks of the ends with a marked end that starts a later step. -/
def laterMarks : Text → List Bool → List Bool
  | c :: s, _ :: marks =>
    let later := laterMarks s marks
    ((c = '/' && marks.headD false) || later.headD false) :: later
  | _, marks => marks

/-- The marks of the ends that a token leads from to marked ends. -/
def tokenMarks (s : Text) (marks : List Bool) : Token → List Bool
  | .anyRun => runMarks marks
  | .anySteps => List.zipWith or marks (laterMarks s marks)
  | token => charMarks token s marks

/-- The marks of the ends that a pattern stands for. -/
def matchMarks (s : Text) : Pattern → List Bool
  | [] => (tails s).map List.isEmpty
  | token :: pattern => tokenMarks s (matchMarks s pattern) token

/-- The pattern stands for the whole text. -/
def isMatch (pattern : Pattern) (s : Text) : Bool := (matchMarks s pattern).headD false

theorem headD_map_tails (f : Text → Bool) (s : Text) : ((tails s).map f).headD false = f s := by
  cases s <;> rfl

theorem charMarks_map_tails (token : Token) (f : Text → Bool) (s : Text) :
    charMarks token s ((tails s).map f) = (tails s).map fun
      | [] => false
      | c :: rest => token.matchesChar c && f rest := by
  induction s with
  | nil => rfl
  | cons c s ih => rw [tails, List.map_cons, charMarks, headD_map_tails, ih, List.map_cons]

theorem runMarks_map_tails (f : Text → Bool) (s : Text) :
    runMarks ((tails s).map f) = (tails s).map fun rest => (tails rest).any f := by
  induction s with
  | nil => simp [tails, runMarks]
  | cons c s ih =>
    rw [tails, List.map_cons, List.map_cons, ← ih, runMarks, List.foldr_cons, ← runMarks, ih,
      headD_map_tails, tails, List.any_cons]

theorem laterMarks_map_tails (f : Text → Bool) (s : Text) :
    laterMarks s ((tails s).map f) = (tails s).map fun rest => (laterSteps rest).any f := by
  induction s with
  | nil => simp [tails, laterMarks, laterSteps]
  | cons c s ih =>
    rw [tails, List.map_cons, laterMarks, ih, headD_map_tails, headD_map_tails, List.map_cons]
    by_cases h : c = '/' <;> simp [laterSteps, h]

theorem matchMarks_eq_map (pattern : Pattern) (s : Text) :
    matchMarks s pattern = (tails s).map (standsFor pattern) := by
  induction pattern with
  | nil => exact List.map_congr_left fun rest _ => (standsFor.eq_1 rest).symm
  | cons token pattern ih =>
    rw [matchMarks, ih]
    cases token with
    | anyRun =>
      rw [tokenMarks, runMarks_map_tails]
      exact List.map_congr_left fun rest _ => (standsFor.eq_2 rest pattern).symm
    | anySteps =>
      rw [tokenMarks, laterMarks_map_tails, List.zipWith_map, List.zipWith_self]
      exact List.map_congr_left fun rest _ => (standsFor.eq_3 rest pattern).symm
    | _ =>
      rw [tokenMarks, charMarks_map_tails]
      · exact List.map_congr_left fun rest _ => by cases rest <;> rfl
      all_goals nofun

/-- Marking ends gives the same answer as trying what each wildcard may stand for. -/
theorem isMatch_eq_standsFor (pattern : Pattern) (s : Text) :
    isMatch pattern s = standsFor pattern s := by
  rw [isMatch, matchMarks_eq_map, headD_map_tails]

end Marginalia.Glob
