import Marginalia.Text.Search

/-! Wildcard patterns for paths. `?` stands for a character, `*` for any run of characters, `[…]`
for a character of a set and `[!…]` for one outside it. `**` stands for any number of whole steps of
a path and must be a step by itself. -/

namespace Marginalia.Glob

inductive Reason where
  | starRun
  | partialStep
  | badSet
  deriving DecidableEq

/-- What is wrong with a pattern, and at which of its characters, counted from zero. -/
structure PatternError where
  position : Nat
  reason : Reason
  deriving DecidableEq

def Reason.message : Reason → Text
  | .starRun => "wildcards are either regular `*` or recursive `**`"
  | .partialStep => "recursive wildcards must form a single path component"
  | .badSet => "invalid range pattern"

def PatternError.message (e : PatternError) : Text :=
  "Pattern syntax error near position " ++ Nat.toDigits 10 e.position ++ ": " ++ e.reason.message

/-- A member of a set of characters: one character, or all from one to another. -/
structure CharRange where
  first : Char
  last : Char
  deriving DecidableEq

def CharRange.contains (r : CharRange) (c : Char) : Bool := r.first ≤ c ∧ c ≤ r.last

/-- The members written between brackets. A dash between two characters makes a range. -/
def ranges : Text → List CharRange
  | first :: '-' :: last :: rest => ⟨first, last⟩ :: ranges rest
  | c :: rest => ⟨c, c⟩ :: ranges rest
  | [] => []

/-- The building blocks of a pattern. -/
inductive Token where
  | char (c : Char)
  | anyChar
  | anyOf (members : List CharRange)
  | noneOf (members : List CharRange)
  | anyRun
  | anySteps
  deriving DecidableEq

abbrev Pattern := List Token

/-- The set at the start of a text, after its opening bracket, and the rest. A closing bracket that
comes first in a set is a member, so a set has at least one. -/
def set? : Text → Option (Token × Text)
  | '!' :: first :: s =>
    (Text.cutFirst? [']'] s).map fun (before, rest) => (.noneOf (ranges (first :: before)), rest)
  | ['!'] => none
  | first :: s =>
    (Text.cutFirst? [']'] s).map fun (before, rest) => (.anyOf (ranges (first :: before)), rest)
  | [] => none

theorem length_lt_of_set? {s rest : Text} {token : Token} (h : set? s = some (token, rest)) :
    rest.length < s.length := by
  unfold set? at h
  split at h
  · obtain ⟨⟨before, tail⟩, hcut, heq⟩ := Option.map_eq_some_iff.mp h
    cases heq
    exact Nat.lt_succ_of_le (Nat.le_succ_of_le (Text.length_le_of_cutFirst? hcut))
  · cases h
  · obtain ⟨⟨before, tail⟩, hcut, heq⟩ := Option.map_eq_some_iff.mp h
    cases heq
    exact Nat.lt_succ_of_le (Text.length_le_of_cutFirst? hcut)
  · cases h

/-- The pattern written in a text that starts at character `position`, given the character before
it. -/
def parseFrom (position : Nat) (previous : Option Char) (s : Text) :
    Except PatternError Pattern :=
  match s with
  | [] => .ok []
  | '?' :: rest => return .anyChar :: (← parseFrom (position + 1) (some '?') rest)
  | '*' :: '*' :: '*' :: _ => .error ⟨position + 2, .starRun⟩
  | '*' :: '*' :: rest =>
    if previous.all (· == '/') then
      match rest with
      | [] => .ok [.anySteps]
      | c :: rest =>
        if c = '/' then return .anySteps :: (← parseFrom (position + 3) (some '/') rest)
        else .error ⟨position + 2, .partialStep⟩
    else .error ⟨position - 1, .partialStep⟩
  | '*' :: rest => return .anyRun :: (← parseFrom (position + 1) (some '*') rest)
  | '[' :: rest =>
    match h : set? rest with
    | some (token, after) =>
      have := length_lt_of_set? h
      return token :: (← parseFrom (position + 1 + (rest.length - after.length)) (some ']') after)
    | none => .error ⟨position, .badSet⟩
  | c :: rest => return .char c :: (← parseFrom (position + 1) (some c) rest)
termination_by s.length

def parse (s : Text) : Except PatternError Pattern := parseFrom 0 none s

/-- A text with `*` or `?` is meant as a pattern, any other as a plain path. -/
def isPattern (s : Text) : Bool := '*' ∈ s ∨ '?' ∈ s

end Marginalia.Glob
