import Marginalia.Glob.Expand
import Marginalia.Proofs.PathSteps

/-! How paths are spelled that a walk meets or that a pattern stands for. A walk joins names to the path it
starts from. A pattern is expanded from the working directory, which it does not name, so what it stands for
is spelled from there by its steps alone, whatever `.` the pattern starts with. A `.` further on and wildcards
after a dot, which stand for `.` too, would be kept. -/

namespace Marginalia

theorem exists_of_bind_eq_ok {ε α β : Type} {x : Except ε α} {f : α → Except ε β} {b : β}
    (h : x >>= f = .ok b) : ∃ a, x = .ok a ∧ f a = .ok b := by
  cases x with
  | error e => cases h
  | ok a => exact ⟨a, rfl, h⟩

namespace Tree

variable {tree : Tree} {place : Location} {path : Text}

/-- What an entry is below a place, if it is. -/
def below? (place : Location) (e : Location × Entry) : Option (Location × Entry) :=
  match e.1.drop place.length with
  | [] => none
  | names => if place.isPrefixOf e.1 then some (names, e.2) else none

theorem below_eq (tree : Tree) (place : Location) : tree.below place = tree.entries.filterMap (below? place) := rfl

theorem below?_eq_some {e found : Location × Entry} :
    below? place e = some found ↔ found.1 ≠ [] ∧ e = (place ++ found.1, found.2) := by
  obtain ⟨inner, entry⟩ := e
  constructor
  · intro h
    unfold below? at h
    split at h
    · cases h
    · next hne =>
      obtain ⟨hlead, heq⟩ := Option.ite_none_right_eq_some.mp h
      cases heq
      obtain ⟨rest, rfl⟩ := List.isPrefixOf_iff_prefix.mp hlead
      rw [List.drop_left] at hne ⊢
      exact ⟨hne, rfl⟩
  · rintro ⟨hne, heq⟩
    cases heq
    unfold below?
    dsimp only
    rw [List.drop_left]
    split
    · next hnil => exact absurd hnil hne
    · exact if_pos (List.isPrefixOf_iff_prefix.mpr (List.prefix_append _ _))

theorem mem_below {names : Location} {entry : Entry} :
    (names, entry) ∈ tree.below place ↔ names ≠ [] ∧ (place ++ names, entry) ∈ tree.entries := by
  rw [below_eq, List.mem_filterMap]
  constructor
  · rintro ⟨e, hmem, hbelow⟩
    obtain ⟨hne, rfl⟩ := below?_eq_some.mp hbelow
    exact ⟨hne, hmem⟩
  · rintro ⟨hne, hmem⟩
    exact ⟨_, hmem, below?_eq_some.mpr ⟨hne, rfl⟩⟩

theorem get?_of_mem_below {names : Location} {entry : Entry} (h : (names, entry) ∈ tree.below place) :
    tree.get? (place ++ names) = some entry := get?_of_mem_entries (mem_below.mp h).2

theorem mem_below_of_mem_children {name : Text} {entry : Entry} (h : (name, entry) ∈ tree.children place) :
    ([name], entry) ∈ tree.below place := by
  obtain ⟨⟨names, found⟩, hbelow, hnames⟩ := List.mem_filterMap.mp h
  dsimp only at hnames
  split at hnames
  · cases hnames
    exact hbelow
  · cases hnames

theorem isName_of_get? {entry : Entry} (h : tree.get? place = some entry) {s : Text} (hs : s ∈ place) :
    Path.isName s = true :=
  (tree.named _ (mem_entries_of_get? (List.ne_nil_of_mem hs) h)).2 s hs

theorem isStep_of_mem_below {names : Location} {entry : Entry} (h : (names, entry) ∈ tree.below place) :
    names ≠ [] ∧ ∀ name ∈ names, Path.isStep name = true := by
  refine ⟨(mem_below.mp h).1, fun name hname => ?_⟩
  exact Path.isStep_of_isName (isName_of_get? (get?_of_mem_below h) (List.mem_append_right _ hname))

/-- Only folders can be left, even to stay where one is. -/
theorem get?_of_step_idle {start : Location} {name : Text} (hidle : Path.isIdleStep name = true)
    (h : tree.step start name = .ok place) : tree.get? place = some .folder := by
  unfold step at h
  split at h
  · next hfolder =>
    rw [if_pos hidle] at h
    cases h
    exact hfolder
  · cases h
  · cases h

theorem stepsOf_eq_ok {steps : List Text} (h : stepsOf path = .ok steps) :
    path ≠ [] ∧ steps = Text.splitOn '/' path := by
  unfold stepsOf at h
  split at h
  · cases h
  split at h
  · cases h
  split at h
  · cases h
  next hempty =>
    cases h
    refine ⟨?_, rfl⟩
    rintro rfl
    exact hempty rfl

/-- A path to a file does not end in a slash, because that would be one more step. -/
theorem join_nil_of_locate {entry : Entry} (hlocate : tree.locate path = .ok place)
    (hget : tree.get? place = some entry) (hfile : entry.isFile = true) :
    Path.join path [] = path ++ ['/'] := by
  obtain ⟨steps, hsteps, hwalk⟩ := exists_of_bind_eq_ok hlocate
  obtain ⟨hne, rfl⟩ := stepsOf_eq_ok hsteps
  rw [Path.join_nil, if_neg]
  rintro (hnil | hslash)
  · exact hne hnil
  · obtain ⟨folder, rfl⟩ := List.getLast?_eq_some_iff.mp hslash
    rw [Text.splitOn_append_sep, List.foldlM_append] at hwalk
    obtain ⟨start, -, hlast⟩ := exists_of_bind_eq_ok hwalk
    obtain ⟨next, hstep, hend⟩ := exists_of_bind_eq_ok hlast
    cases hend
    rw [get?_of_step_idle rfl hstep] at hget
    cases hget
    cases hfile

theorem exists_of_find? {entry : Entry} (h : tree.find? path = some entry) :
    ∃ place, tree.locate path = .ok place ∧ tree.get? place = some entry := by
  rw [find?] at h
  cases hlocate : tree.locate path with
  | error fault => rw [hlocate] at h; cases h
  | ok place =>
    rw [hlocate] at h
    exact ⟨place, rfl, h⟩

theorem join_nil_of_isFile (h : tree.isFile path = true) : Path.join path [] = path ++ ['/'] := by
  obtain ⟨entry, hfind, hfile⟩ := (Option.any_eq_true _ _).mp h
  obtain ⟨place, hlocate, hget⟩ := exists_of_find? hfind
  exact join_nil_of_locate hlocate hget hfile

/-- The entries that a walk meets are the path it starts from with steps after it. -/
theorem exists_of_mem_met {file : Text} {entry : Entry} (h : (file, entry) ∈ tree.met place path) :
    ∃ names, names ≠ [] ∧ (∀ name ∈ names, Path.isStep name = true) ∧ file = names.foldl Path.join path := by
  obtain ⟨⟨names, inner⟩, hnames, heq⟩ := List.mem_map.mp h
  cases heq
  obtain ⟨hne, hsteps⟩ := isStep_of_mem_below (List.mem_filter.mp hnames).1
  exact ⟨names, hne, hsteps, rfl⟩

/-- So is a file that it lists, which ends in a step. -/
theorem isUnder_of_mem_walk? {files : List Text} {skipped : Nat} {file : Text}
    (h : tree.walk? path = some (files, skipped)) (hfile : file ∈ files) :
    Path.IsUnder path file ∧ Path.join file [] = file ++ ['/'] := by
  unfold walk? at h
  split at h
  · cases h
  next place hlocate =>
  split at h
  · rw [List.partition_eq_filter_filter] at h
    cases h
    obtain ⟨⟨found, entry⟩, hfound, rfl⟩ := List.mem_map.mp hfile
    obtain ⟨names, hne, hsteps, rfl⟩ := exists_of_mem_met (List.mem_filter.mp hfound).1
    refine ⟨(Path.IsUnder.refl path).foldl_join hsteps, ?_⟩
    obtain ⟨front, last, rfl⟩ := (List.eq_nil_or_concat names).resolve_left hne
    rw [List.concat_eq_append] at hsteps ⊢
    rw [List.foldl_append]
    exact Path.join_join_step _ (hsteps last List.mem_concat_self)
  · next entry hentry hget =>
    cases h
    cases List.mem_singleton.mp hfile
    have hisFile : entry.isFile = true := by
      cases entry with
      | folder => exact absurd rfl hentry
      | _ => rfl
    exact ⟨.refl path, join_nil_of_locate hlocate hget hisFile⟩
  · cases h

end Tree

namespace Glob

def isWild (s : Text) : Bool := s.any fun c => c == '*' || c == '?' || c == '['

theorem literal?_map_char (s : Text) : literal? (s.map .char) = some s := by
  induction s with
  | nil => rfl
  | cons c s ih => rw [List.map_cons, literal?, ih]; rfl

theorem parseFrom_of_not_isWild {s : Text} (h : isWild s = false) (position : Nat) (previous : Option Char) :
    parseFrom position previous s = .ok (s.map .char) := by
  induction s generalizing position previous with
  | nil => rw [parseFrom]; rfl
  | cons c s ih =>
    simp only [isWild, List.any_cons, Bool.or_eq_false_iff, beq_eq_false_iff_ne] at h
    obtain ⟨⟨⟨hstar, hany⟩, hset⟩, hs⟩ := h
    rw [parseFrom, ih hs]
    · rfl
    all_goals simp_all

theorem parseFrom_append {s : Text} (h : isWild s = false) (rest : Text) (position : Nat)
    (previous : Option Char) :
    parseFrom position previous (s ++ rest) =
      (parseFrom (position + s.length) (s.getLast?.or previous) rest).map (s.map .char ++ ·) := by
  induction s generalizing position previous with
  | nil =>
      rw [List.nil_append]
      show _ = (parseFrom position previous rest).map id
      cases parseFrom position previous rest <;> rfl
  | cons c s ih =>
      simp only [isWild, List.any_cons, Bool.or_eq_false_iff, beq_eq_false_iff_ne] at h
      obtain ⟨⟨⟨hstar, hany⟩, hset⟩, hs⟩ := h
      have hlast : s.getLast?.or (some c) = (c :: s).getLast?.or previous := by
        rw [List.getLast?_cons]
        cases s.getLast? <;> rfl
      rw [List.cons_append, parseFrom, ih hs, hlast, List.length_cons, Nat.add_assoc, Nat.add_comm 1]
      · cases parseFrom (position + (s.length + 1)) ((c :: s).getLast?.or previous) rest <;> rfl
      all_goals simp_all

/-- A token other than a plain character. -/
def Token.isWild : Token → Bool
  | .char _ => false
  | _ => true

theorem isWild_of_set? {s rest : Text} {token : Token} (h : set? s = some (token, rest)) :
    token.isWild = true := by
  unfold set? at h
  split at h
  · obtain ⟨_, _, heq⟩ := Option.map_eq_some_iff.mp h
    cases heq
    rfl
  · cases h
  · obtain ⟨_, _, heq⟩ := Option.map_eq_some_iff.mp h
    cases heq
    rfl
  · cases h

/-- A pattern is empty, starts with the character its text starts with, or starts with a wildcard. -/
theorem parseFrom_cases {position : Nat} {previous : Option Char} {s : Text} {p : Pattern}
    (h : parseFrom position previous s = .ok p) :
    (s = [] ∧ p = []) ∨
      (∃ c rest position' previous' q, s = c :: rest ∧ p = .char c :: q ∧
        parseFrom position' previous' rest = .ok q) ∨
      ∃ token q, token.isWild = true ∧ p = token :: q := by
  rw [parseFrom.eq_def] at h
  split at h
  · cases h
    exact .inl ⟨rfl, rfl⟩
  · obtain ⟨q, -, heq⟩ := exists_of_bind_eq_ok h
    cases heq
    exact .inr (.inr ⟨_, q, rfl, rfl⟩)
  · cases h
  · split at h
    · split at h
      · cases h
        exact .inr (.inr ⟨_, [], rfl, rfl⟩)
      · split at h
        · obtain ⟨q, -, heq⟩ := exists_of_bind_eq_ok h
          cases heq
          exact .inr (.inr ⟨_, q, rfl, rfl⟩)
        · cases h
    · cases h
  · obtain ⟨q, -, heq⟩ := exists_of_bind_eq_ok h
    cases heq
    exact .inr (.inr ⟨_, q, rfl, rfl⟩)
  · split at h
    · next hset =>
      obtain ⟨q, -, heq⟩ := exists_of_bind_eq_ok h
      cases heq
      exact .inr (.inr ⟨_, q, isWild_of_set? hset, rfl⟩)
    · cases h
  · obtain ⟨q, hq, heq⟩ := exists_of_bind_eq_ok h
    cases heq
    exact .inr (.inl ⟨_, _, _, _, q, rfl, rfl, hq⟩)

theorem literal?_of_isWild {token : Token} (h : token.isWild = true) (p : Pattern) :
    literal? (token :: p) = none := by
  cases token with
  | char c => cases h
  | _ => rfl

/-- A pattern without wildcards stands for the text it was read from. -/
theorem eq_of_literal?_parseFrom {position : Nat} {previous : Option Char} {s name : Text} {p : Pattern}
    (h : parseFrom position previous s = .ok p) (hname : literal? p = some name) : name = s := by
  induction p generalizing position previous s name with
  | nil =>
    rcases parseFrom_cases h with ⟨rfl, -⟩ | ⟨_, _, _, _, _, -, hp, -⟩ | ⟨_, _, -, hp⟩
    · exact (Option.some.inj hname).symm
    · cases hp
    · cases hp
  | cons token p ih =>
    rcases parseFrom_cases h with ⟨-, hp⟩ | ⟨c, rest, _, _, _, rfl, hp, hrest⟩ | ⟨_, _, hwild, hp⟩
    · cases hp
    · cases hp
      obtain ⟨later, hlater, rfl⟩ := Option.map_eq_some_iff.mp hname
      rw [ih hrest hlater]
    · cases hp
      rw [literal?_of_isWild hwild] at hname
      cases hname

theorem head?_of_parseFrom {position : Nat} {previous : Option Char} {s : Text} {p : Pattern} {c : Char}
    (h : parseFrom position previous s = .ok p) (hhead : p.head? = some (.char c)) : s.head? = some c := by
  rcases parseFrom_cases h with ⟨-, rfl⟩ | ⟨d, rest, _, _, q, rfl, rfl, -⟩ | ⟨token, q, hwild, rfl⟩
  · cases hhead
  · cases hhead
    rfl
  · cases hhead
    cases hwild

/-! ### Expansion -/

/-- A step of a pattern that has no wildcards and leads somewhere, or has wildcards and stands for names
only. -/
def KeepsSpelling (p : Pattern) : Prop :=
  (∀ name, literal? p = some name → Path.isStep name = true) ∧
    (literal? p = none → p.head? ≠ some (.char '.'))

/-- A step leads somewhere and has no wildcards after a dot. -/
def isPlainStep (s : Text) : Bool := Path.isStep s && !(s.head? == some '.' && isWild s)

theorem keepsSpelling_of_parse {s : Text} {p : Pattern} (hs : isPlainStep s = true) (h : parse s = .ok p) :
    KeepsSpelling p := by
  obtain ⟨hstep, hdot⟩ := Bool.and_eq_true_iff.mp hs
  refine ⟨fun name hname => ?_, fun hnone hhead => ?_⟩
  · rw [eq_of_literal?_parseFrom h hname]
    exact hstep
  · have hhead : s.head? = some '.' := head?_of_parseFrom h hhead
    have hwild : isWild s = false := by simpa [hhead] using hdot
    rw [parse, parseFrom_of_not_isWild hwild] at h
    cases h
    rw [literal?_map_char] at hnone
    cases hnone

section

variable {tree : Tree} {path name found : Text}

theorem isUnder_descend (h : Path.IsUnder [] path ∨ path = ['.']) (hname : Path.isStep name = true) :
    Path.IsUnder [] (descend path name) := by
  unfold descend
  split
  · have hjoin : Path.join [] name = name := Path.join_eq_append (Path.isAbsolute_of_isStep hname)
    exact hjoin ▸ (Path.IsUnder.refl []).join_step hname
  · next hparts =>
    rcases h with h | rfl
    · exact h.join_step hname
    · exact absurd rfl hparts

theorem isUnder_of_mem_childPaths (hpath : Path.IsUnder [] path ∨ path = ['.'])
    (h : (name, found) ∈ childPaths tree path) : Path.IsUnder [] found := by
  unfold childPaths at h
  split at h
  · obtain ⟨⟨child, entry⟩, hchild, heq⟩ := List.mem_map.mp h
    cases heq
    have hsteps := (Tree.isStep_of_mem_below (Tree.mem_below_of_mem_children hchild)).2
    exact isUnder_descend hpath (hsteps name List.mem_cons_self)
  · cases h

theorem isUnder_of_mem_pathsBelow (hpath : Path.IsUnder [] path ∨ path = ['.'])
    (h : (name, found) ∈ pathsBelow tree path) : Path.IsUnder [] found := by
  unfold pathsBelow at h
  split at h
  · obtain ⟨⟨names, entry⟩, hmem, heq⟩ := List.mem_map.mp h
    cases heq
    obtain ⟨hne, hsteps⟩ := Tree.isStep_of_mem_below (List.mem_filter.mp hmem).1
    obtain ⟨first, rest, rfl⟩ := List.exists_cons_of_ne_nil hne
    obtain ⟨hfirst, hrest⟩ := List.forall_mem_cons.mp hsteps
    exact (isUnder_descend hpath hfirst).foldl_join hrest
  · cases h

/-- What a pattern stands for is spelled from the working directory by steps alone, unless the pattern has no
steps and stands for the path it is expanded from. -/
theorem isUnder_of_mem_expandFrom {patterns : List Pattern} (hkeeps : ∀ p ∈ patterns, KeepsSpelling p)
    (hpath : Path.IsUnder [] path ∨ path = ['.']) (hnil : patterns = [] → Path.IsUnder [] path)
    (h : found ∈ expandFrom tree patterns path) : Path.IsUnder [] found := by
  fun_induction expandFrom tree patterns path with
  | case1 path =>
    cases List.mem_singleton.mp h
    exact hnil rfl
  | case2 path =>
    obtain ⟨⟨name, inner⟩, hinner, rfl⟩ := List.mem_map.mp (List.mem_filter.mp h).1
    exact isUnder_of_mem_pathsBelow hpath hinner
  | case3 path pattern patterns ih =>
    obtain ⟨⟨name, inner⟩, hinner, hfound⟩ := List.mem_flatMap.mp h
    have hinner := isUnder_of_mem_pathsBelow hpath (List.mem_filter.mp hinner).1
    have hlater := (List.forall_mem_cons.mp (List.forall_mem_cons.mp hkeeps).2).2
    exact ih inner hlater (.inl hinner) (fun _ => hinner) hfound
  | case4 pattern patterns path hpattern name hname next isFound hisFound ih =>
    obtain ⟨hkeep, hlater⟩ := List.forall_mem_cons.mp hkeeps
    have hnext := isUnder_descend hpath (hkeep.1 name hname)
    exact ih hlater (.inl hnext) (fun _ => hnext) h
  | case5 => cases h
  | case6 pattern patterns path hpattern hname hfolder named dots ihNamed ihDots =>
    obtain ⟨hkeep, hlater⟩ := List.forall_mem_cons.mp hkeeps
    have hdots : dots = [] := if_neg (hkeep.2 hname)
    rw [hdots, List.flatMap_nil, List.append_nil] at h
    obtain ⟨⟨name, inner⟩, hinner, hfound⟩ := List.mem_flatMap.mp h
    have hinner := isUnder_of_mem_childPaths hpath (List.mem_filter.mp hinner).1
    exact ihNamed inner hlater (.inl hinner) (fun _ => hinner) hfound
  | case7 => cases h

theorem mem_expandFrom_of_here {patterns : List Pattern}
    (h : found ∈ expandFrom tree ([.char '.'] :: patterns) ['.']) : found ∈ expandFrom tree patterns ['.'] := by
  rw [expandFrom.eq_def] at h
  have hliteral : literal? [.char '.'] = some ['.'] := rfl
  have hdescend : descend ['.'] ['.'] = ['.'] := rfl
  simp only [hliteral, hdescend] at h
  exact (List.mem_ite_nil_right.mp h).2

end

/-! ### The steps of a pattern -/

/-- The steps of a pattern with several `**` in a row as one. -/
def withoutRuns (patterns : List Pattern) : List Pattern :=
  patterns.foldr (fun p later => if p = [.anySteps] ∧ later.head? = some [.anySteps] then later else p :: later) []

/-- The texts between the slashes of a pattern, without an empty one at the end. -/
def pieces (pattern : Text) : List Text :=
  if (Text.splitOn '/' pattern).getLast? == some [] then (Text.splitOn '/' pattern).dropLast
  else Text.splitOn '/' pattern

theorem steps_eq (pattern : Text) : steps pattern = return withoutRuns (← (pieces pattern).mapM parse) := rfl

theorem withoutRuns_cons (p : Pattern) (patterns : List Pattern) :
    withoutRuns (p :: patterns) =
      if p = [.anySteps] ∧ (withoutRuns patterns).head? = some [.anySteps] then withoutRuns patterns
      else p :: withoutRuns patterns := rfl

theorem mem_of_mem_withoutRuns {p : Pattern} {patterns : List Pattern} (h : p ∈ withoutRuns patterns) :
    p ∈ patterns := by
  induction patterns with
  | nil => exact h
  | cons q patterns ih =>
    rw [withoutRuns_cons] at h
    split at h
    · exact List.mem_cons_of_mem _ (ih h)
    · rcases List.mem_cons.mp h with rfl | h
      · exact List.mem_cons_self
      · exact List.mem_cons_of_mem _ (ih h)

theorem withoutRuns_ne_nil (p : Pattern) (patterns : List Pattern) : withoutRuns (p :: patterns) ≠ [] := by
  rw [withoutRuns_cons]
  split
  · next h =>
    intro hnil
    rw [hnil] at h
    cases h.2
  · exact List.cons_ne_nil _ _

theorem exists_of_mapM_cons {s : Text} {rest : List Text} {patterns : List Pattern}
    (h : (s :: rest).mapM parse = .ok patterns) :
    ∃ p later, parse s = .ok p ∧ rest.mapM parse = .ok later ∧ patterns = p :: later := by
  rw [List.mapM_cons] at h
  obtain ⟨p, hp, h⟩ := exists_of_bind_eq_ok h
  obtain ⟨later, hlater, h⟩ := exists_of_bind_eq_ok h
  cases h
  exact ⟨p, later, hp, hlater, rfl⟩

theorem forall_of_mapM {motive : Pattern → Prop} {texts : List Text} {patterns : List Pattern}
    (hparse : ∀ s ∈ texts, ∀ p, parse s = .ok p → motive p) (h : texts.mapM parse = .ok patterns) :
    ∀ p ∈ patterns, motive p := by
  induction texts generalizing patterns with
  | nil =>
    cases h
    exact nofun
  | cons s rest ih =>
    obtain ⟨hs, hrest⟩ := List.forall_mem_cons.mp hparse
    obtain ⟨p, later, hp, hlater, rfl⟩ := exists_of_mapM_cons h
    exact List.forall_mem_cons.mpr ⟨hs p hp, ih hrest hlater⟩

theorem keepsSpelling_of_mapM {texts : List Text} {patterns : List Pattern}
    (htexts : ∀ s ∈ texts, isPlainStep s = true) (h : texts.mapM parse = .ok patterns) :
    ∀ p ∈ patterns, KeepsSpelling p :=
  forall_of_mapM (fun s hs _ => keepsSpelling_of_parse (htexts s hs)) h

/-- After any `.` at the front come one or more steps, none of them idle and none with wildcards after a
dot. -/
def arePlain (texts : List Text) : Bool :=
  let later := texts.dropWhile (· == ['.'])
  !later.isEmpty && later.all isPlainStep

theorem isUnder_of_arePlain {tree : Tree} {texts : List Text} {patterns : List Pattern} {found : Text}
    (htexts : arePlain texts = true) (hparse : texts.mapM parse = .ok patterns)
    (h : found ∈ expandFrom tree (withoutRuns patterns) ['.']) : Path.IsUnder [] found := by
  induction texts generalizing patterns with
  | nil => cases htexts
  | cons s rest ih =>
    obtain ⟨p, later, hp, hlater, rfl⟩ := exists_of_mapM_cons hparse
    by_cases hhere : s = ['.']
    · subst hhere
      rw [parse, parseFrom_of_not_isWild rfl] at hp
      cases hp
      exact ih htexts hlater (mem_expandFrom_of_here h)
    · have hplain : ∀ t ∈ s :: rest, isPlainStep t = true := by simpa [arePlain, hhere] using htexts
      refine isUnder_of_mem_expandFrom (fun q hq => ?_) (.inr rfl) (fun hnil => ?_) h
      · exact keepsSpelling_of_mapM hplain hparse q (mem_of_mem_withoutRuns hq)
      · exact absurd hnil (withoutRuns_ne_nil p later)

/-- The folders that a pattern stands for are all spelled by their steps from the working directory. -/
theorem isUnder_of_mem_folders {tree : Tree} {pattern found : Text} {paths : List Text}
    (hpattern : arePlain (pieces pattern) = true) (h : folders tree pattern = .ok paths)
    (hfound : found ∈ paths) : Path.IsUnder [] found := by
  obtain ⟨_, -, h⟩ := exists_of_bind_eq_ok h
  obtain ⟨patterns, hsteps, h⟩ := exists_of_bind_eq_ok h
  cases h
  rw [steps_eq] at hsteps
  obtain ⟨parsed, hparsed, hsteps⟩ := exists_of_bind_eq_ok hsteps
  cases hsteps
  exact isUnder_of_arePlain hpattern hparsed (List.mem_filter.mp hfound).1

end Glob
end Marginalia
