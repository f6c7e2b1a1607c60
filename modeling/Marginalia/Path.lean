import Marginalia.Text.Search

/-! Path texts. A path is a text with its steps separated by slashes, and operations on paths work
on that text: they keep the spelling of what they do not touch. Compared by their parts, paths do
not distinguish doubled slashes or a `.` that is not at the front; a `..` is kept, because what it
leads to depends on the file system. -/

namespace Marginalia.Path

inductive Part where
  | root
  | here
  | up
  | name (s : Text)
  deriving DecidableEq

/-- The path leads from the root of the file system. -/
def isAbsolute (p : Text) : Bool := p.head? == some '/'

/-- A path followed by another one. An absolute second path replaces the first. -/
def join (base p : Text) : Text :=
  if isAbsolute p then p
  else if base.isEmpty || base.getLast? == some '/' then base ++ p
  else base ++ '/' :: p

/-- A step that leads nowhere else: an empty one, as between doubled slashes, or a `.`. -/
def isIdleStep (step : Text) : Bool := step.isEmpty || step == ['.']

/-- No name is longer than this, in bytes. -/
def maxNameBytes : Nat := 255

/-- No path that can be used is longer than this, in bytes. -/
def maxBytes : Nat := 4095

def fits (p : Text) : Bool := Text.bytes p ≤ maxBytes

/-- A step is short enough to be a name. -/
def fitsName (step : Text) : Bool := Text.bytes step ≤ maxNameBytes

/-- A text that can be the name of a file or folder. -/
def isName (s : Text) : Bool :=
  !isIdleStep s && s != ['.', '.'] && !s.elem '/' && !s.elem '\x00' && fitsName s

/-- The part for a step that leads somewhere. -/
def Part.ofStep (step : Text) : Part := if step = ['.', '.'] then .up else .name step

def parts (p : Text) : List Part :=
  match Text.splitOn '/' p with
  | [] => []
  | first :: rest =>
    let later := (rest.filter fun step => !isIdleStep step).map Part.ofStep
    if first = ['.'] then .here :: later
    else if first = [] then (if isAbsolute p then .root :: later else later)
    else .ofStep first :: later

/-- `p` is `base` or lies below it, judged by parts. -/
def isWithin (p base : Text) : Bool := (parts base).isPrefixOf (parts p)

/-- The last part of a path, if it is a name. -/
def fileName? (p : Text) : Option Text :=
  match (parts p).getLast? with
  | some (.name s) => some s
  | _ => none

/-- What follows the last dot of the file name, unless that dot comes first. -/
def extension? (p : Text) : Option Text :=
  (fileName? p).bind fun name =>
    match Text.cutLast? ['.'] name with
    | some (_ :: _, ext) => some ext
    | _ => none

/-- A path written backwards without idle steps at its end. A `.` at the front stays. -/
def dropIdleEnd : Text → Text
  | '/' :: r => dropIdleEnd r
  | '.' :: '/' :: r => dropIdleEnd r
  | r => r

/-- A relative path without its last part, if it has one. -/
def parent? (p : Text) : Option Text :=
  if isAbsolute p then none
  else
    match dropIdleEnd p.reverse with
    | [] => none
    | _ :: r => some (dropIdleEnd (r.dropWhile (· != '/'))).reverse

theorem length_dropIdleEnd_le (r : Text) : (dropIdleEnd r).length ≤ r.length := by
  fun_induction dropIdleEnd r with
  | case1 r ih => simp; omega
  | case2 r ih => simp; omega
  | case3 r => exact Nat.le_refl _

theorem length_lt_of_parent? {p up : Text} (h : parent? p = some up) : up.length < p.length := by
  unfold parent? at h
  split at h
  · simp at h
  · split at h
    · simp at h
    · next c r hr =>
      have h1 := length_dropIdleEnd_le p.reverse
      have h2 := length_dropIdleEnd_le (r.dropWhile (· != '/'))
      have h3 := (List.dropWhile_sublist (l := r) (· != '/')).length_le
      rw [hr] at h1
      simp only [Option.some.injEq] at h
      subst h
      simp only [List.length_reverse, List.length_cons] at *
      omega

end Marginalia.Path
