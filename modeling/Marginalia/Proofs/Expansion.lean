import Marginalia.Proofs.Walks

/-! Expanding a pattern behind a path. Every step of an expansion puts a piece without slashes behind the path it has
come to, so whatever such pieces keep holds of all that the pattern stands for. The one exception is the working
directory, which is not named: its `.` gives way to the first name behind it.

A pattern behind a path is read as one pattern. If the path has no wildcards, its pieces are followed first, and
what is left to expand is the pattern by itself. -/

namespace Marginalia

theorem Text.mem_of_mem_splitOn {sep c : Char} {s piece : Text} (h : piece ∈ splitOn sep s) (hc : c ∈ piece) :
    c ∈ s := by
  induction s using splitOn_induction sep with
  | last s hsep =>
      rw [splitOn_of_notMem hsep, List.mem_singleton] at h
      exact h ▸ hc
  | cut first rest hfirst ih =>
      rw [splitOn_cut hfirst, List.mem_cons] at h
      rcases h with rfl | h
      · exact List.mem_append_left _ hc
      · exact List.mem_append_right _ (List.mem_cons_of_mem _ (ih h))

namespace Path

theorem isAbsolute_of_notMem {s : Text} (hs : '/' ∉ s) : isAbsolute s = false :=
  beq_false_of_ne fun heq => hs (List.mem_of_head? heq)

/-- The path is written with a `.` at its front. -/
def startsHere (p : Text) : Bool := (Text.splitOn '/' p).head? == some ['.']

/-- A relative path has a part for each of its steps, and one for a `.` at its front. -/
theorem parts_eq {p : Text} (hp : isAbsolute p = false) :
    parts p = (if startsHere p = true then [.here] else []) ++ (steps p).map Part.ofStep := by
  rw [parts, startsHere, steps]
  cases hsplit : Text.splitOn '/' p with
  | nil => exact absurd hsplit (Text.splitOn_ne_nil '/' p)
  | cons first rest =>
      by_cases hhere : first = ['.']
      · subst hhere
        rfl
      by_cases hempty : first = []
      · subst hempty
        simp [hp, isIdleStep]
      · simp [hhere, hempty, isIdleStep]

theorem ofStep_ne_here (s : Text) : Part.ofStep s ≠ .here := by
  unfold Part.ofStep
  split <;> nofun

theorem startsHere_of_parts {p : Text} (h : parts p = [.here]) : startsHere p = true ∧ steps p = [] := by
  cases hp : isAbsolute p with
  | true =>
      obtain ⟨rest, rfl⟩ : ∃ rest, p = '/' :: rest := List.head?_eq_some_iff.mp (beq_iff_eq.mp hp)
      have hsplit : Text.splitOn '/' ('/' :: rest) = [] :: Text.splitOn '/' rest :=
        Text.splitOn_cut List.not_mem_nil rest
      rw [parts, hsplit] at h
      simp [hp] at h
  | false =>
      rw [parts_eq hp] at h
      split at h
      · next hhere =>
        rw [List.singleton_append, List.cons.injEq, List.map_eq_nil_iff] at h
        exact ⟨hhere, h.2⟩
      · obtain ⟨s, rest, -, hs, -⟩ := List.map_eq_cons_iff.mp h
        exact absurd hs (ofStep_ne_here s)

/-- What is put behind a path does not change its front. -/
theorem startsHere_join {p s : Text} (hp : p ≠ []) (hs : isAbsolute s = false) :
    startsHere (join p s) = startsHere p := by
  have hfront : ∀ q rest : Text, startsHere (q ++ '/' :: rest) = startsHere q := by
    intro q rest
    obtain ⟨first, later, hq⟩ := List.exists_cons_of_ne_nil (Text.splitOn_ne_nil '/' q)
    rw [startsHere, startsHere, Text.splitOn_append_sep, hq]
    rfl
  rw [join_eq_append hs, join_nil]
  split
  · next hends =>
    obtain ⟨q, rfl⟩ := List.getLast?_eq_some_iff.mp (hends.resolve_left hp)
    rw [List.append_assoc, List.singleton_append, hfront, hfront]
  · rw [List.append_assoc, List.singleton_append, hfront]

end Path

namespace Glob

theorem steps_descend (p : Text) {s : Text} (hs : '/' ∉ s) :
    Path.steps (descend p s) = Path.steps p ++ Path.steps s := by
  unfold descend
  split
  · next hhere => rw [(Path.startsHere_of_parts hhere).2, List.nil_append]
  · exact Path.steps_join_relative p (Path.isAbsolute_of_notMem hs)

/-- The pattern stands for no text with a slash, unless it has wildcards. -/
def SlashFree (p : Pattern) : Prop := ∀ name, literal? p = some name → '/' ∉ name

section

variable {tree : Tree} {motive : Text → Prop} {path found : Text}

theorem foldl_join_induction (hjoin : ∀ p s, '/' ∉ s → motive p → motive (Path.join p s)) {names : List Text}
    (hnames : ∀ s ∈ names, '/' ∉ s) (hpath : motive path) : motive (names.foldl Path.join path) := by
  induction names generalizing path with
  | nil => exact hpath
  | cons s names ih =>
      obtain ⟨hs, hlater⟩ := List.forall_mem_cons.mp hnames
      exact ih hlater (hjoin path s hs hpath)

theorem childPaths_induction (hdescend : ∀ s, Path.isStep s = true → motive (descend path s)) {name : Text}
    (h : (name, found) ∈ childPaths tree path) : motive found := by
  unfold childPaths at h
  split at h
  · obtain ⟨⟨child, entry⟩, hchild, heq⟩ := List.mem_map.mp h
    cases heq
    have hsteps := (Tree.isStep_of_mem_below (Tree.mem_below_of_mem_children hchild)).2
    exact hdescend name (hsteps name List.mem_cons_self)
  · cases h

theorem pathsBelow_induction (hdescend : ∀ s, Path.isStep s = true → motive (descend path s))
    (hjoin : ∀ p s, '/' ∉ s → motive p → motive (Path.join p s)) {name : Text}
    (h : (name, found) ∈ pathsBelow tree path) : motive found := by
  unfold pathsBelow at h
  split at h
  · obtain ⟨⟨names, entry⟩, hmem, heq⟩ := List.mem_map.mp h
    cases heq
    obtain ⟨hne, hsteps⟩ := Tree.isStep_of_mem_below (List.mem_filter.mp hmem).1
    obtain ⟨first, rest, rfl⟩ := List.exists_cons_of_ne_nil hne
    obtain ⟨hfirst, hrest⟩ := List.forall_mem_cons.mp hsteps
    exact foldl_join_induction hjoin (fun s hs => (Path.isStep_iff.mp (hrest s hs)).2) (hdescend first hfirst)
  · cases h

variable (hdescend : ∀ p s, '/' ∉ s → motive p → motive (descend p s))
  (hjoin : ∀ p s, '/' ∉ s → motive p → motive (Path.join p s))

include hdescend hjoin in
/-- What holds of a path and is kept by each step of an expansion holds of all that is found. -/
theorem expandFrom_induction {patterns : List Pattern} (hpatterns : ∀ p ∈ patterns, SlashFree p)
    (hpath : motive path) (h : found ∈ expandFrom tree patterns path) : motive found := by
  have hstep : ∀ p, motive p → ∀ s, Path.isStep s = true → motive (descend p s) := fun p hp s hs =>
    hdescend p s (Path.isStep_iff.mp hs).2 hp
  fun_induction expandFrom tree patterns path with
  | case1 path =>
      cases List.mem_singleton.mp h
      exact hpath
  | case2 path =>
      obtain ⟨⟨name, inner⟩, hinner, rfl⟩ := List.mem_map.mp (List.mem_filter.mp h).1
      exact pathsBelow_induction (hstep path hpath) hjoin hinner
  | case3 path pattern patterns ih =>
      obtain ⟨⟨name, inner⟩, hinner, hfound⟩ := List.mem_flatMap.mp h
      have hlater := (List.forall_mem_cons.mp (List.forall_mem_cons.mp hpatterns).2).2
      exact ih inner hlater (pathsBelow_induction (hstep path hpath) hjoin (List.mem_filter.mp hinner).1) hfound
  | case4 pattern patterns path hpattern name hname next isFound hisFound ih =>
      obtain ⟨hfirst, hlater⟩ := List.forall_mem_cons.mp hpatterns
      exact ih hlater (hdescend path name (hfirst name hname) hpath) h
  | case5 => cases h
  | case6 pattern patterns path hpattern hname hfolder named dots ihNamed ihDots =>
      have hlater := (List.forall_mem_cons.mp hpatterns).2
      rcases List.mem_append.mp h with h | h
      · obtain ⟨⟨name, inner⟩, hinner, hfound⟩ := List.mem_flatMap.mp h
        exact ihNamed inner hlater (childPaths_induction (hstep path hpath) (List.mem_filter.mp hinner).1) hfound
      · obtain ⟨s, hs, hfound⟩ := List.mem_flatMap.mp h
        have hdots : s ∈ ([['.'], ['.', '.']] : List Text) := by
          have hfilter := (List.mem_ite_nil_right.mp hs).2
          exact (List.mem_filter.mp hfilter).1
        have hslash : '/' ∉ s := (by decide : ∀ s ∈ ([['.'], ['.', '.']] : List Text), '/' ∉ s) s hdots
        exact ihDots s hlater (hjoin path s hslash hpath) hfound
  | case7 => cases h

end

/-! ### The front of what is found -/

section

variable {tree : Tree} {path found : Text}

/-- The path is written, and not with a `.` at its front. -/
def IsDirect (path : Text) : Prop := path ≠ [] ∧ Path.startsHere path = false

theorem IsDirect.join {s : Text} (h : IsDirect path) (hs : '/' ∉ s) : IsDirect (Path.join path s) := by
  have hrelative := Path.isAbsolute_of_notMem hs
  exact ⟨Path.join_ne_nil h.1 hrelative, (Path.startsHere_join h.1 hrelative).trans h.2⟩

theorem isDirect_descend_here {s : Text} (hs : Path.isStep s = true) : IsDirect (descend ['.'] s) := by
  have hdescend : descend ['.'] s = s := if_pos (by decide)
  refine hdescend.symm ▸ ⟨Path.isStep_ne_nil hs, ?_⟩
  rw [Path.startsHere, Text.splitOn_of_notMem (Path.isStep_iff.mp hs).2]
  refine beq_false_of_ne fun heq => ?_
  cases Option.some.inj heq
  cases hs

theorem isDirect_of_mem_expandFrom {patterns : List Pattern} (hpatterns : ∀ p ∈ patterns, SlashFree p)
    (hpath : IsDirect path) (h : found ∈ expandFrom tree patterns path) : IsDirect found := by
  refine expandFrom_induction (motive := IsDirect) ?_ (fun p s hs hp => hp.join hs) hpatterns hpath h
  intro p s hs hp
  unfold descend
  split
  · next hhere => exact absurd (Path.startsHere_of_parts hhere).1 (by rw [hp.2]; decide)
  · exact hp.join hs

/-- From the working directory nothing is found with a `.` at its front, if the first step of the pattern names
something in it. -/
theorem isDirect_of_mem_expandFrom_here {p : Pattern} {patterns : List Pattern} (hp : KeepsSpelling p)
    (hpatterns : ∀ q ∈ patterns, SlashFree q) (h : found ∈ expandFrom tree (p :: patterns) ['.']) :
    IsDirect found := by
  have hname : ∀ s, Path.isStep s = true → IsDirect (descend ['.'] s) := fun s => isDirect_descend_here
  have hbelow : ∀ name inner, (name, inner) ∈ pathsBelow tree ['.'] → IsDirect inner := fun name inner hinner =>
    pathsBelow_induction (motive := IsDirect) hname (fun p s hs hp => hp.join hs) hinner
  rw [expandFrom.eq_def] at h
  split at h
  · next hnil => cases hnil
  · next heq =>
    cases heq
    split at h
    · obtain ⟨⟨name, inner⟩, hinner, rfl⟩ := List.mem_map.mp (List.mem_filter.mp h).1
      exact hbelow name inner hinner
    · obtain ⟨⟨name, inner⟩, hinner, hfound⟩ := List.mem_flatMap.mp h
      have hlater := (List.forall_mem_cons.mp hpatterns).2
      exact isDirect_of_mem_expandFrom hlater (hbelow name inner (List.mem_filter.mp hinner).1) hfound
  · next heq =>
    cases heq
    split at h
    · next name hliteral =>
      exact isDirect_of_mem_expandFrom hpatterns (hname name (hp.1 name hliteral)) (List.mem_ite_nil_right.mp h).2
    · next hwild =>
      have hnamed := (List.mem_ite_nil_right.mp h).2
      simp only [if_neg (hp.2 hwild), List.flatMap_nil, List.append_nil] at hnamed
      obtain ⟨⟨name, inner⟩, hinner, hfound⟩ := List.mem_flatMap.mp hnamed
      have hchild := childPaths_induction (motive := IsDirect) hname (List.mem_filter.mp hinner).1
      exact isDirect_of_mem_expandFrom hpatterns hchild hfound

end

/-! ### A pattern behind a path -/

theorem pieces_eq_of_getLast? {p : Text} (h : (Text.splitOn '/' p).getLast? ≠ some []) :
    pieces p = Text.splitOn '/' p := by
  rw [pieces, if_neg (by simpa using h)]

theorem pieces_append_slash (p q : Text) : pieces (p ++ '/' :: q) = Text.splitOn '/' p ++ pieces q := by
  obtain ⟨front, last, hq⟩ := (List.eq_nil_or_concat _).resolve_left (Text.splitOn_ne_nil '/' q)
  rw [List.concat_eq_append] at hq
  rw [pieces, pieces, Text.splitOn_append_sep, hq, ← List.append_assoc, List.getLast?_concat, List.getLast?_concat,
    List.dropLast_concat, List.dropLast_concat]
  split <;> simp only [List.append_assoc]

theorem getLast?_splitOn {p : Text} (h : (Text.splitOn '/' p).getLast? = some []) :
    p = [] ∨ p.getLast? = some '/' := by
  induction p using Text.splitOn_induction '/' with
  | last s hs =>
      rw [Text.splitOn_of_notMem hs] at h
      exact .inl (Option.some.inj h)
  | cut first rest hfirst ih =>
      rw [Text.splitOn_cut hfirst, List.getLast?_cons_of_ne_nil (Text.splitOn_ne_nil _ _)] at h
      right
      rcases ih h with rfl | hlast
      · exact List.getLast?_concat
      · rw [List.getLast?_append, List.getLast?_cons, hlast]
        rfl

theorem pieces_join (base : Text) {s : Text} (hs : Path.isAbsolute s = false) :
    pieces (Path.join base s) = pieces base ++ pieces s := by
  rw [Path.join_eq_append hs, Path.join_nil]
  split
  · next hends =>
    rcases hends with rfl | hslash
    · rfl
    · obtain ⟨q, rfl⟩ := List.getLast?_eq_some_iff.mp hslash
      have hbase : pieces (q ++ '/' :: []) = Text.splitOn '/' q ++ [] := pieces_append_slash q []
      rw [hbase, List.append_nil, List.append_assoc, List.singleton_append, pieces_append_slash]
  · next hends =>
    rw [List.append_assoc, List.singleton_append, pieces_append_slash, pieces_eq_of_getLast? (mt getLast?_splitOn hends)]

theorem mem_of_mem_pieces {p s : Text} (h : s ∈ pieces p) : s ∈ Text.splitOn '/' p := by
  unfold pieces at h
  split at h
  · exact List.dropLast_subset _ h
  · exact h

theorem toOption_congr {ε α β : Type} {x y : Except ε α} (f : α → β) (h : x.toOption = y.toOption) :
    (do return f (← x)).toOption = (do return f (← y)).toOption := by
  cases x <;> cases y <;> simp_all [Except.toOption, bind, Except.bind, pure, Except.pure]

/-- What a text stands for as a pattern does not depend on what is before it, except for `**` at its start. -/
theorem parseFrom_toOption (s : Text) (position position' : Nat) {previous previous' : Option Char}
    (h : previous.all (· == '/') = previous'.all (· == '/')) :
    (parseFrom position previous s).toOption = (parseFrom position' previous' s).toOption := by
  fun_induction parseFrom position previous s generalizing position' previous' with
  | case1 => rw [parseFrom]
  | case2 position previous rest ih =>
      rw [parseFrom]
      exact toOption_congr _ (ih _ rfl)
  | case3 position previous rest => rw [parseFrom, Except.toOption, Except.toOption]
  | case4 position previous hslash =>
      rw [parseFrom, if_pos (h ▸ hslash)]
  | case5 position previous hslash rest hrest ih =>
      rw [parseFrom, if_pos (h ▸ hslash)]
      · exact toOption_congr _ (ih _ rfl)
      · exact hrest
  | case6 position previous hslash c rest hc hrest =>
      rw [parseFrom, if_pos (h ▸ hslash)]
      · simp only [if_neg hc]
        rfl
      · exact hrest
  | case7 position previous rest hrest hslash =>
      have hslash' : ¬ previous'.all (· == '/') = true := h ▸ hslash
      cases rest with
      | nil =>
          rw [parseFrom, if_neg hslash']
          rfl
      | cons c rest =>
          rw [parseFrom, if_neg hslash']
          · rfl
          · exact hrest
  | case8 position previous rest hthree htwo ih =>
      rw [parseFrom]
      · exact toOption_congr _ (ih _ rfl)
      · exact hthree
      · exact htwo
  | case9 position previous rest token after hset hshorter ih =>
      rw [parseFrom]
      split
      · next token' after' hset' =>
        cases hset.symm.trans hset'
        exact toOption_congr _ (ih _ rfl)
      · next hnone => cases hset.symm.trans hnone
  | case10 position previous rest hset =>
      rw [parseFrom]
      split
      · next hset' => cases hset.symm.trans hset'
      · rfl
  | case11 position previous c rest hany hthree htwo hone hopen ih =>
      rw [parseFrom]
      · exact toOption_congr _ (ih _ rfl)
      all_goals assumption

/-- The steps of a pattern that can be read, as a whole and step by step. -/
def patterns? (s : Text) : Option (List Pattern) := (parse s).toOption.bind fun _ => (steps s).toOption

theorem folders_toOption (tree : Tree) (s : Text) : (folders tree s).toOption =
    (patterns? s).map fun patterns => (expandFrom tree patterns ['.']).filter tree.isFolder := by
  rw [folders, patterns?]
  cases parse s with
  | error e => rfl
  | ok p => cases steps s <;> rfl

theorem exists_of_patterns? {s : Text} {patterns : List Pattern} (h : patterns? s = some patterns) :
    ∃ parsed, (pieces s).mapM parse = .ok parsed ∧ patterns = withoutRuns parsed := by
  obtain ⟨_, -, h⟩ := Option.bind_eq_some_iff.mp h
  rw [steps_eq] at h
  cases hparsed : (pieces s).mapM parse with
  | error e => rw [hparsed] at h; cases h
  | ok parsed =>
      rw [hparsed] at h
      cases h
      exact ⟨parsed, rfl, rfl⟩

/-- What holds of each step of a pattern that is read by itself. -/
theorem forall_of_patterns? {motive : Pattern → Prop} {s : Text} {patterns : List Pattern}
    (hparse : ∀ piece ∈ pieces s, ∀ p, parse piece = .ok p → motive p) (h : patterns? s = some patterns) :
    ∀ p ∈ patterns, motive p := by
  obtain ⟨parsed, hparsed, rfl⟩ := exists_of_patterns? h
  exact fun p hp => forall_of_mapM hparse hparsed p (mem_of_mem_withoutRuns hp)

theorem slashFree_of_patterns? {s : Text} {patterns : List Pattern} (h : patterns? s = some patterns) :
    ∀ p ∈ patterns, SlashFree p := by
  refine forall_of_patterns? (fun piece hpiece p hp name hname => ?_) h
  rw [eq_of_literal?_parseFrom hp hname]
  exact Text.notMem_of_mem_splitOn (mem_of_mem_pieces hpiece)

/-- The steps of a path, each a pattern without wildcards. -/
def literals (base : Text) : List Pattern := (pieces base).map fun piece => piece.map .char

theorem withoutRuns_append {front : List Pattern} (h : [.anySteps] ∉ front) (patterns : List Pattern) :
    withoutRuns (front ++ patterns) = front ++ withoutRuns patterns := by
  induction front with
  | nil => rfl
  | cons p front ih =>
      rw [List.mem_cons, not_or] at h
      rw [List.cons_append, withoutRuns_cons, if_neg fun hrun => h.1 hrun.1.symm, ih h.2, List.cons_append]

theorem exists_withoutRuns_eq_cons (p : Pattern) (patterns : List Pattern) :
    ∃ later, withoutRuns (p :: patterns) = p :: later := by
  rw [withoutRuns_cons]
  split
  · next hrun =>
    obtain ⟨later, hlater⟩ := List.head?_eq_some_iff.mp hrun.2
    exact ⟨later, hlater.trans (congrArg (· :: later) hrun.1.symm)⟩
  · exact ⟨_, rfl⟩

theorem anySteps_notMem_literals (base : Text) : [.anySteps] ∉ literals base := by
  intro h
  obtain ⟨piece, -, heq⟩ := List.mem_map.mp h
  obtain ⟨c, rest, -, hc, -⟩ := List.map_eq_cons_iff.mp heq
  cases hc

section

variable {base s : Text} (hbase : isWild base = false) (hs : Path.isAbsolute s = false)

include hbase

theorem isWild_of_mem_pieces {piece : Text} (hpiece : piece ∈ pieces base) : isWild piece = false := by
  rw [isWild, List.any_eq_false] at hbase ⊢
  exact fun c hc => hbase c (Text.mem_of_mem_splitOn (mem_of_mem_pieces hpiece) hc)

theorem mapM_parse_pieces : (pieces base).mapM parse = .ok (literals base) := by
  have htexts : ∀ texts : List Text, (∀ piece ∈ texts, isWild piece = false) →
      texts.mapM parse = .ok (texts.map fun piece => piece.map .char) := by
    intro texts htexts
    induction texts with
    | nil => rfl
    | cons piece texts ih =>
        obtain ⟨hpiece, hlater⟩ := List.forall_mem_cons.mp htexts
        rw [List.mapM_cons, parse, parseFrom_of_not_isWild hpiece, ih hlater]
        rfl
  exact htexts _ fun piece => isWild_of_mem_pieces hbase

theorem isSome_parse_join (hs : Path.isAbsolute s = false) :
    (parse (Path.join base s)).toOption.isSome = (parse s).toOption.isSome := by
  have hfront : isWild (Path.join base []) = false := by
    rw [Path.join_nil]
    split
    · exact hbase
    · rw [isWild, List.any_append]
      exact Bool.or_eq_false_iff.mpr ⟨hbase, rfl⟩
  have hslash : ((Path.join base []).getLast?.or none).all (· == '/') = true := by
    rcases Path.join_nil_cases base with h | ⟨q, h⟩
    · rw [h]
      rfl
    · rw [h, List.getLast?_concat]
      rfl
  have hmoved := @parseFrom_toOption s 0 (0 + (Path.join base []).length) none _ hslash.symm
  rw [Path.join_eq_append hs, parse, parseFrom_append hfront, parse, hmoved]
  cases parseFrom (0 + (Path.join base []).length) ((Path.join base []).getLast?.or none) s <;> rfl

/-- A pattern behind a path without wildcards can be read if it can be read by itself, and its steps come behind
those of the path. -/
theorem patterns?_join (hs : Path.isAbsolute s = false) :
    patterns? (Path.join base s) = (patterns? s).map (literals base ++ ·) := by
  have hsteps : (steps (Path.join base s)).toOption = (steps s).toOption.map (literals base ++ ·) := by
    rw [steps_eq, steps_eq, pieces_join base hs, List.mapM_append, mapM_parse_pieces hbase]
    cases (pieces s).mapM parse with
    | error e => rfl
    | ok parsed => exact congrArg some (withoutRuns_append (anySteps_notMem_literals base) parsed)
  have hparse := isSome_parse_join hbase hs
  rw [patterns?, patterns?, hsteps]
  cases hwhole : (parse (Path.join base s)).toOption with
  | none =>
      rw [hwhole, Option.isSome_none, eq_comm, Option.isSome_eq_false_iff, Option.isNone_iff_eq_none] at hparse
      rw [hparse]
      rfl
  | some whole =>
      rw [hwhole, Option.isSome_some, eq_comm, Option.isSome_iff_exists] at hparse
      obtain ⟨p, hp⟩ := hparse
      rw [hp]
      rfl

end

/-! ### Following the path -/

def isFollowed (tree : Tree) (path s : Text) : Bool :=
  if s = ['.'] ∨ s = ['.', '.'] then tree.isFolder path else tree.exists? (descend path s)

theorem expandFrom_literal (tree : Tree) (s : Text) (patterns : List Pattern) (path : Text) :
    expandFrom tree (s.map .char :: patterns) path =
      if isFollowed tree path s = true then expandFrom tree patterns (descend path s) else [] := by
  rw [expandFrom]
  · simp only [literal?_map_char]
    rfl
  · intro heq
    obtain ⟨c, rest, -, hc, -⟩ := List.map_eq_cons_iff.mp heq
    cases hc

theorem mem_expandFrom_literals {tree : Tree} {texts : List Text} {patterns : List Pattern} {path found : Text}
    (h : found ∈ expandFrom tree (texts.map (fun piece => piece.map .char) ++ patterns) path) :
    found ∈ expandFrom tree patterns (texts.foldl descend path) := by
  induction texts generalizing path with
  | nil => exact h
  | cons s texts ih =>
      rw [List.map_cons, List.cons_append, expandFrom_literal] at h
      exact ih (List.mem_ite_nil_right.mp h).2

theorem steps_foldl_descend {texts : List Text} (htexts : ∀ s ∈ texts, '/' ∉ s) (path : Text) :
    Path.steps (texts.foldl descend path) = Path.steps path ++ texts.filter fun s => !Path.isIdleStep s := by
  induction texts generalizing path with
  | nil => exact (List.append_nil _).symm
  | cons s texts ih =>
      obtain ⟨hs, hlater⟩ := List.forall_mem_cons.mp htexts
      have hpiece : Path.steps s = [s].filter fun s => !Path.isIdleStep s := by
        rw [Path.steps, Text.splitOn_of_notMem hs]
      rw [List.foldl_cons, ih hlater, steps_descend path hs, hpiece, List.append_assoc, ← List.filter_append,
        List.singleton_append]

theorem filter_pieces (base : Text) : (pieces base).filter (fun s => !Path.isIdleStep s) = Path.steps base := by
  unfold pieces
  split
  · next hlast =>
    obtain ⟨front, hsplit⟩ := List.getLast?_eq_some_iff.mp (beq_iff_eq.mp hlast)
    rw [Path.steps, hsplit, List.dropLast_concat, List.filter_append]
    exact (List.append_nil _).symm
  · rfl

/-- The path of a folder as an expansion spells it. -/
def spelled (base : Text) : Text := (pieces base).foldl descend ['.']

theorem steps_spelled (base : Text) : Path.steps (spelled base) = Path.steps base := by
  have hslash : ∀ s ∈ pieces base, '/' ∉ s := fun s hs => Text.notMem_of_mem_splitOn (mem_of_mem_pieces hs)
  rw [spelled, steps_foldl_descend hslash, filter_pieces]
  rfl

/-- What a pattern behind a path without wildcards stands for is below the path. -/
theorem steps_of_mem_folders {tree : Tree} {base s found : Text} {paths : List Text} (hbase : isWild base = false)
    (hs : Path.isAbsolute s = false) (h : (folders tree (Path.join base s)).toOption = some paths)
    (hfound : found ∈ paths) : Path.steps base <+: Path.steps found := by
  rw [folders_toOption, patterns?_join hbase hs, Option.map_map] at h
  obtain ⟨patterns, hpatterns, rfl⟩ := Option.map_eq_some_iff.mp h
  have hmem := mem_expandFrom_literals (List.mem_filter.mp hfound).1
  have hstart : Path.steps base <+: Path.steps (spelled base) := ⟨[], by rw [steps_spelled, List.append_nil]⟩
  refine expandFrom_induction (motive := fun p => Path.steps base <+: Path.steps p) ?_ ?_
    (slashFree_of_patterns? hpatterns) hstart hmem
  · intro p piece hpiece hp
    rw [steps_descend p hpiece]
    exact hp.trans (List.prefix_append _ _)
  · intro p piece hpiece hp
    rw [Path.steps_join_relative p (Path.isAbsolute_of_notMem hpiece)]
    exact hp.trans (List.prefix_append _ _)

end Glob
end Marginalia
