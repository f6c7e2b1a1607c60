import Mathlib.Data.List.Basic
import Marginalia.Proofs.Expansion
import Marginalia.Proofs.Listing

/-! The places that a pattern selects. A pattern is expanded along paths, and what matters of a path is the place it
leads to: the steps of the pattern can be taken from place to place, and each path that is found leads to the place
selected in its stead. So what a pattern selects does not depend on how the path it is expanded from is written, as
long as no path on the way becomes too long. -/

namespace Marginalia

namespace Path

theorem parts_ne_here_of_isStep {s : Text} (hs : isStep s = true) : parts s ≠ [.here] := by
  intro hhere
  have hsteps := (startsHere_of_parts hhere).2
  rw [steps_of_isStep hs] at hsteps
  cases hsteps

theorem parts_join_ne_here {p s : Text} (hp : p ≠ [] ∧ isAbsolute p = false) (hs : '/' ∉ s)
    (h : parts p ≠ [.here]) : parts (join p s) ≠ [.here] := by
  intro hhere
  obtain ⟨hfront, hsteps⟩ := startsHere_of_parts hhere
  rw [startsHere_join hp.1 (isAbsolute_of_notMem hs)] at hfront
  rw [steps_join_relative p (isAbsolute_of_notMem hs), List.append_eq_nil_iff] at hsteps
  rw [parts_eq hp.2, if_pos hfront, hsteps.1] at h
  exact h rfl

end Path

/-- The bytes it takes to write the names behind a path, each after a slash. -/
def Location.bytes : Location → Nat
  | [] => 0
  | s :: names => Text.bytes s + 1 + Location.bytes names

theorem Location.bytes_cons (s : Text) (names : Location) :
    Location.bytes (s :: names) = Text.bytes s + 1 + Location.bytes names := rfl

namespace Tree

variable {tree : Tree} {place next : Location} {path s : Text}

theorem Leads.exists_get? (h : tree.Leads path place) : ∃ entry, tree.get? place = some entry := by
  obtain ⟨front, last, hsplit⟩ := (List.eq_nil_or_concat _).resolve_left (Text.splitOn_ne_nil '/' path)
  have hwalk := h.walk
  rw [hsplit, List.concat_eq_append] at hwalk
  obtain ⟨folder, -, hstep⟩ := foldlM_step_concat.mp hwalk
  exact exists_get?_of_step hstep

theorem notMem_of_step (h : tree.step place s = .ok next) : '\x00' ∉ s := by
  rw [step, (step_cases h).1] at h
  dsimp only at h
  split at h
  · next hidle =>
    rcases Bool.or_eq_true_iff.mp hidle with hnil | hdot
    · rw [List.isEmpty_iff.mp hnil]
      exact List.not_mem_nil
    · rw [beq_iff_eq.mp hdot]
      decide
  split at h
  · next hup =>
    rw [hup]
    decide
  split at h
  · cases h
  split at h
  · next hsome =>
    obtain ⟨entry, hget⟩ := Option.isSome_iff_exists.mp hsome
    exact (Path.isName_iff.mp (isName_of_get? hget List.mem_concat_self)).2.2.2.1
  · cases h

theorem foldlM_singleton (tree : Tree) (place : Location) (s : Text) :
    [s].foldlM tree.step place = tree.step place s := by
  rw [List.foldlM_cons]
  cases tree.step place s <;> rfl

/-- The place that a step behind a path leads to, whether the path is named or not. -/
theorem Leads.descend_iff (h : tree.Leads path place) (hs : '/' ∉ s)
    (hfront : Path.parts path = [.here] → s ≠ []) :
    tree.Leads (Glob.descend path s) next ↔ tree.step place s = .ok next := by
  have hsplit := Text.splitOn_of_notMem hs
  have hrelative := Path.isAbsolute_of_notMem hs
  unfold Glob.descend
  split
  · next hhere =>
    obtain rfl : place = [] := by
      have hwalk := foldlM_filter h.walk
      have hsteps := (Path.startsHere_of_parts hhere).2
      rw [Path.steps] at hsteps
      rw [hsteps] at hwalk
      exact (Except.ok.inj hwalk).symm
    constructor
    · intro hleads
      have hwalk := hleads.walk
      rwa [hsplit, foldlM_singleton] at hwalk
    · intro hstep
      exact ⟨notMem_of_step hstep, ⟨hfront hhere, hrelative⟩, by rwa [hsplit, foldlM_singleton]⟩
  · constructor
    · intro hleads
      have hwalk := hleads.walk
      rwa [h.foldlM_join hrelative, hsplit, foldlM_singleton] at hwalk
    · intro hstep
      exact h.join_of_foldlM hrelative (notMem_of_step hstep) (by rwa [hsplit, foldlM_singleton])

end Tree

namespace Glob

/-- The places that lead from a place through the given steps. -/
def placesFrom (tree : Tree) : List Pattern → (place : Location) → List Location
  | [], place => [place]
  | [.anySteps] :: steps, place =>
    match steps with
    | [] => ((tree.below place).filter fun e => e.2 == .folder).map fun e => place ++ e.1
    | pattern :: steps =>
      ((tree.below place).filter fun e => isMatch pattern (e.1.getLast?.getD [])).flatMap
        fun e => placesFrom tree steps (place ++ e.1)
  | pattern :: steps, place =>
    match literal? pattern with
    | some name =>
      match tree.step place name with
      | .ok next => placesFrom tree steps next
      | .error _ => []
    | none =>
      if tree.get? place = some .folder then
        ((tree.children place).filter fun e => isMatch pattern e.1).flatMap
          fun e => placesFrom tree steps (place ++ [e.1])
      else []

/-- A step of a pattern that leads on or stays: it is not `..`, and does not stand for it either. -/
structure Inward (p : Pattern) : Prop where
  literal : ∀ name, literal? p = some name → '/' ∉ name ∧ name ≠ ['.', '.']
  wild : literal? p = none → p.head? ≠ some (.char '.')

/-- The first step that is not a `.` is not empty. Behind the working directory, which is not named, an empty step
would leave no path at all. -/
def frontNamed : List Pattern → Bool
  | [] => true
  | p :: patterns => if p = [.char '.'] then frontNamed patterns else !p.isEmpty

/-- The bytes that the steps without wildcards add to a path, each after a slash. -/
def literalBytes : List Pattern → Nat
  | [] => 0
  | p :: patterns => ((literal? p).map fun s => Text.bytes s + 1).getD 0 + literalBytes patterns

theorem literalBytes_cons (p : Pattern) (patterns : List Pattern) : literalBytes (p :: patterns) =
    ((literal? p).map fun s => Text.bytes s + 1).getD 0 + literalBytes patterns := rfl

/-- An expansion has come to a place by a path, and the paths on the way from there on are short enough. -/
structure Arrives (tree : Tree) (patterns : List Pattern) (path : Text) (place : Location) : Prop where
  leads : tree.Leads path place
  room : ∀ names, (tree.get? (place ++ names)).isSome = true →
    Text.bytes path + literalBytes patterns + Location.bytes names ≤ Path.maxBytes

theorem bytes_descend_le (path s : Text) : Text.bytes (descend path s) ≤ Text.bytes path + 1 + Text.bytes s := by
  unfold descend
  split
  · omega
  · exact Path.bytes_join_le path s

section

variable {tree : Tree} {patterns : List Pattern} {path s : Text} {place names : Location}

theorem Arrives.locate (h : Arrives tree patterns path place) : tree.locate path = .ok place := by
  obtain ⟨entry, hget⟩ := h.leads.exists_get?
  have hroom := h.room [] (by rw [List.append_nil, hget]; rfl)
  have hfits : Path.fits path = true := decide_eq_true (by omega)
  rw [h.leads.locate_eq, if_pos hfits]

theorem Arrives.isFolder (h : Arrives tree patterns path place) :
    tree.isFolder path = true ↔ tree.get? place = some .folder := by
  rw [Tree.isFolder, Tree.find?, h.locate]
  exact beq_iff_eq

theorem Arrives.tail {p : Pattern} (h : Arrives tree (p :: patterns) path place) :
    Arrives tree patterns path place := by
  refine ⟨h.leads, fun names hnames => ?_⟩
  have hroom := h.room names hnames
  rw [literalBytes_cons] at hroom
  omega

/-- A step on to something of that name. -/
theorem Arrives.descend (h : Arrives tree patterns path place) (hget : (tree.get? (place ++ [s])).isSome = true) :
    Arrives tree patterns (Glob.descend path s) (place ++ [s]) := by
  obtain ⟨entry, hentry⟩ := Option.isSome_iff_exists.mp hget
  have hname := Tree.isName_of_get? hentry List.mem_concat_self
  have hstep := Path.isStep_of_isName hname
  have hwalk : tree.step place s = .ok (place ++ [s]) := by
    rw [Tree.step_of_isName hname (Tree.get?_of_append hentry (List.cons_ne_nil _ _)), if_pos hget]
  refine ⟨(h.leads.descend_iff (Path.isStep_iff.mp hstep).2 fun _ => Path.isStep_ne_nil hstep).mpr hwalk, ?_⟩
  intro names hnames
  rw [List.append_assoc, List.singleton_append] at hnames
  have hroom := h.room (s :: names) hnames
  have hbytes := bytes_descend_le path s
  rw [Location.bytes_cons] at hroom
  omega

theorem Arrives.foldl_descend (h : Arrives tree patterns path place)
    (hget : (tree.get? (place ++ names)).isSome = true) :
    Arrives tree patterns (names.foldl Glob.descend path) (place ++ names) := by
  induction names generalizing path place with
  | nil => rwa [List.append_nil]
  | cons s names ih =>
      rw [List.append_cons] at hget ⊢
      refine ih (h.descend ?_) hget
      by_cases hnil : names = []
      · rwa [hnil, List.append_nil] at hget
      · obtain ⟨entry, hentry⟩ := Option.isSome_iff_exists.mp hget
        rw [Tree.get?_of_append hentry hnil]
        rfl

/-- A step without wildcards. -/
theorem Arrives.descend_literal {p : Pattern} {next : Location} (h : Arrives tree (p :: patterns) path place)
    (hliteral : literal? p = some s) (hs : '/' ∉ s ∧ s ≠ ['.', '.']) (hfront : Path.parts path = [.here] → s ≠ [])
    (hstep : tree.step place s = .ok next) : Arrives tree patterns (Glob.descend path s) next := by
  refine ⟨(h.leads.descend_iff hs.1 hfront).mpr hstep, fun names hnames => ?_⟩
  have hbytes := bytes_descend_le path s
  have hroom : Text.bytes path + (Text.bytes s + 1 + literalBytes patterns) + Location.bytes names ≤ Path.maxBytes := by
    have hliterals : literalBytes (p :: patterns) = Text.bytes s + 1 + literalBytes patterns := by
      rw [literalBytes_cons, hliteral]
      rfl
    rw [← hliterals]
    -- A step that stays is paid for by the bytes of the pattern, a name by those of the names below as well.
    cases hidle : Path.isIdleStep s with
    | true =>
        obtain rfl := Tree.eq_of_step_idle hidle hstep
        exact h.room names hnames
    | false =>
        obtain rfl := Tree.eq_concat_of_step_name hidle hs.2 hstep
        rw [List.append_assoc, List.singleton_append] at hnames
        have hname := h.room (s :: names) hnames
        rw [Location.bytes_cons] at hname
        omega
  omega

end

section

variable {tree : Tree} {path s : Text} {place next : Location} (h : tree.Leads path place) (hs : '/' ∉ s)
  (hfront : Path.parts path = [.here] → s ≠ [])

include h hs hfront

theorem isFollowed_of_step (hfits : Path.fits path = true) (hlater : Path.fits (descend path s) = true)
    (hstep : tree.step place s = .ok next) : isFollowed tree path s = true := by
  unfold isFollowed
  split
  · rw [Tree.isFolder, Tree.find?, h.locate_eq, if_pos hfits]
    exact beq_iff_eq.mpr (Tree.step_cases hstep).1
  · rw [Tree.exists?, Tree.find?, ((h.descend_iff hs hfront).mpr hstep).locate_eq, if_pos hlater]
    exact Option.isSome_iff_exists.mpr (Tree.exists_get?_of_step hstep)

theorem exists_step_of_isFollowed (hup : s ≠ ['.', '.']) (hfollowed : isFollowed tree path s = true) :
    ∃ next, tree.step place s = .ok next := by
  unfold isFollowed at hfollowed
  split at hfollowed
  · next hdots =>
    obtain rfl := hdots.resolve_right hup
    obtain ⟨found, hlocate, hfolder⟩ := Tree.exists_of_find? (beq_iff_eq.mp hfollowed)
    obtain rfl : place = found := Except.ok.inj (h.walk.symm.trans (Tree.leads_of_locate hlocate).1.walk)
    exact ⟨place, Tree.step_idle rfl hfolder⟩
  · obtain ⟨entry, hfind⟩ := Option.isSome_iff_exists.mp hfollowed
    obtain ⟨next, hlocate, -⟩ := Tree.exists_of_find? hfind
    exact ⟨next, (h.descend_iff hs hfront).mp (Tree.leads_of_locate hlocate).1⟩

end

/-! ### From paths to places -/

section

variable {tree : Tree} {patterns : List Pattern} {path : Text} {place : Location}

theorem descend_named {s : Text} (hpath : path ≠ [] ∧ Path.isAbsolute path = false) (hs : Path.isStep s = true) :
    (descend path s ≠ [] ∧ Path.isAbsolute (descend path s) = false) ∧ Path.parts (descend path s) ≠ [.here] := by
  have hrelative := Path.isAbsolute_of_isStep hs
  unfold descend
  split
  · exact ⟨⟨Path.isStep_ne_nil hs, hrelative⟩, Path.parts_ne_here_of_isStep hs⟩
  · next hhere =>
    exact ⟨⟨Path.join_ne_nil hpath.1 hrelative, Path.isAbsolute_join hpath.2 hrelative⟩,
      Path.parts_join_ne_here hpath (Path.isStep_iff.mp hs).2 hhere⟩

theorem foldl_join_eq_descend {names : List Text} (hpath : path ≠ [] ∧ Path.isAbsolute path = false)
    (hhere : Path.parts path ≠ [.here]) (hnames : ∀ s ∈ names, Path.isStep s = true) :
    names.foldl Path.join path = names.foldl descend path := by
  induction names generalizing path with
  | nil => rfl
  | cons s names ih =>
      obtain ⟨hs, hlater⟩ := List.forall_mem_cons.mp hnames
      obtain ⟨hnext, hnamed⟩ := descend_named hpath hs
      have hdescend : descend path s = Path.join path s := if_neg hhere
      rw [List.foldl_cons, List.foldl_cons, ← hdescend]
      exact ih hnext hnamed hlater

theorem descendAll_eq {names : List Text} (hpath : path ≠ [] ∧ Path.isAbsolute path = false)
    (hnames : ∀ s ∈ names, Path.isStep s = true) : descendAll path names = names.foldl descend path := by
  cases names with
  | nil => rfl
  | cons s names =>
      obtain ⟨hs, hlater⟩ := List.forall_mem_cons.mp hnames
      obtain ⟨hnext, hnamed⟩ := descend_named hpath hs
      exact foldl_join_eq_descend hnext hnamed hlater

theorem foldl_descend_named {names : List Text} (hpath : path ≠ [] ∧ Path.isAbsolute path = false)
    (hne : names ≠ []) (hnames : ∀ s ∈ names, Path.isStep s = true) :
    Path.parts (names.foldl descend path) ≠ [.here] := by
  induction names generalizing path with
  | nil => exact absurd rfl hne
  | cons s names ih =>
      obtain ⟨hs, hlater⟩ := List.forall_mem_cons.mp hnames
      obtain ⟨hnext, hnamed⟩ := descend_named hpath hs
      by_cases hnil : names = []
      · rw [hnil]
        exact hnamed
      · exact ih hnext hnil hlater

theorem Arrives.pathsBelow_eq (h : Arrives tree patterns path place) : pathsBelow tree path =
    (tree.below place).map fun e => (e.1.getLast?.getD [], e.1.foldl Glob.descend path) := by
  have hfits : ∀ e ∈ tree.below place, Path.fits (descendAll path e.1.dropLast) = true := by
    rintro ⟨names, entry⟩ hbelow
    have hsteps : ∀ s ∈ names.dropLast, Path.isStep s = true := fun s hs =>
      (Tree.isStep_of_mem_below hbelow).2 s (List.dropLast_subset _ hs)
    have hfolder := Tree.get?_dropLast (Tree.get?_of_mem_below hbelow)
    rw [List.dropLast_append_of_ne_nil (Tree.isStep_of_mem_below hbelow).1] at hfolder
    rw [descendAll_eq h.leads.relative hsteps]
    exact (Tree.leads_of_locate (h.foldl_descend (by rw [hfolder]; rfl)).locate).2
  rw [pathsBelow, h.locate]
  dsimp only
  rw [List.filter_eq_self.mpr hfits]
  refine List.map_congr_left fun e he => ?_
  rw [descendAll_eq h.leads.relative (Tree.isStep_of_mem_below he).2]

theorem Arrives.childPaths_eq (h : Arrives tree patterns path place) :
    childPaths tree path = (tree.children place).map fun e => (e.1, Glob.descend path e.1) := by
  rw [childPaths, h.locate]

theorem eq_map_of_literal? {p : Pattern} {name : Text} (h : literal? p = some name) : p = name.map .char := by
  induction p generalizing name with
  | nil =>
      cases h
      rfl
  | cons token p ih =>
      cases token with
      | char c =>
          obtain ⟨later, hlater, rfl⟩ := Option.map_eq_some_iff.mp h
          rw [List.map_cons, ← ih hlater]
      | _ => cases h

theorem ne_nil_of_frontNamed {p : Pattern} {name : Text} (h : frontNamed (p :: patterns) = true)
    (hname : literal? p = some name) : name ≠ [] := by
  rintro rfl
  rw [eq_map_of_literal? hname] at h
  cases h

theorem frontNamed_descend {p : Pattern} {name : Text} (hpath : path ≠ [] ∧ Path.isAbsolute path = false)
    (hfront : Path.parts path = [.here] → frontNamed (p :: patterns) = true) (hname : literal? p = some name)
    (hslash : '/' ∉ name) (hhere : Path.parts (descend path name) = [.here]) : frontNamed patterns = true := by
  unfold descend at hhere
  split at hhere
  · next hpathHere =>
    have hsame : name = ['.'] := by
      have hstarts := (Path.startsHere_of_parts hhere).1
      rw [Path.startsHere, Text.splitOn_of_notMem hslash] at hstarts
      exact Option.some.inj (beq_iff_eq.mp hstarts)
    have hnamed := hfront hpathHere
    rw [eq_map_of_literal? hname, hsame] at hnamed
    exact hnamed
  · next hpathHere => exact absurd hhere (Path.parts_join_ne_here hpath hslash hpathHere)

theorem placesFrom_literal {p : Pattern} {name : Text} (hname : literal? p = some name) :
    placesFrom tree (p :: patterns) place =
      match tree.step place name with
      | .ok next => placesFrom tree patterns next
      | .error _ => [] := by
  rw [placesFrom]
  · simp only [hname]
  · rintro rfl
    cases hname

theorem placesFrom_wild {p : Pattern} (hwild : literal? p = none) (hp : p = [.anySteps] → False) :
    placesFrom tree (p :: patterns) place =
      if tree.get? place = some .folder then
        ((tree.children place).filter fun e => isMatch p e.1).flatMap fun e => placesFrom tree patterns (place ++ [e.1])
      else [] := by
  rw [placesFrom]
  · simp only [hwild]
  · exact hp

/-- The paths that a pattern is expanded to lead to the places that it selects. -/
theorem locate_expandFrom (hpatterns : ∀ p ∈ patterns, Inward p)
    (hfront : Path.parts path = [.here] → frontNamed patterns = true) (h : Arrives tree patterns path place) :
    (expandFrom tree patterns path).map tree.locate = (placesFrom tree patterns place).map .ok := by
  fun_induction expandFrom tree patterns path generalizing place with
  | case1 path =>
      rw [placesFrom, List.map_singleton, List.map_singleton, h.locate]
  | case2 path =>
      rw [placesFrom, h.pathsBelow_eq, List.map_map, List.filter_map, List.map_map, List.map_map]
      have hbelow : ∀ e ∈ tree.below place, Arrives tree [] (e.1.foldl descend path) (place ++ e.1) := fun e he =>
        h.tail.foldl_descend (by rw [Tree.get?_of_mem_below he]; rfl)
      have hfolders : (tree.below place).filter (tree.isFolder ∘ fun e => e.1.foldl descend path) =
          (tree.below place).filter fun e => e.2 == .folder := by
        refine List.filter_congr fun e he => ?_
        rw [Bool.eq_iff_iff, Function.comp, (hbelow e he).isFolder, Tree.get?_of_mem_below he]
        simp
      show ((tree.below place).filter (tree.isFolder ∘ fun e => e.1.foldl descend path)).map _ = _
      rw [hfolders]
      refine List.map_congr_left fun e he => ?_
      exact (hbelow e (List.mem_filter.mp he).1).locate
  | case3 path pattern patterns ih =>
      have hlater := (List.forall_mem_cons.mp (List.forall_mem_cons.mp hpatterns).2).2
      rw [placesFrom, h.pathsBelow_eq, List.filter_map, List.flatMap_map, List.map_flatMap, List.map_flatMap]
      refine List.flatMap_congr fun e he => ?_
      have hbelow := (List.mem_filter.mp he).1
      obtain ⟨hne, hsteps⟩ := Tree.isStep_of_mem_below hbelow
      exact ih _ hlater (fun hhere => absurd hhere (foldl_descend_named h.leads.relative hne hsteps))
        (h.tail.tail.foldl_descend (by rw [Tree.get?_of_mem_below hbelow]; rfl))
  | case4 pattern patterns path hpattern name hname next isFound hfound =>
      rename_i ih
      obtain ⟨hfirst, hlater⟩ := List.forall_mem_cons.mp hpatterns
      have hs := hfirst.literal name hname
      have hne : Path.parts path = [.here] → name ≠ [] := fun hhere => ne_nil_of_frontNamed (hfront hhere) hname
      obtain ⟨place', hstep⟩ := exists_step_of_isFollowed h.leads hs.1 hne hs.2 hfound
      rw [placesFrom_literal hname, hstep]
      exact ih hlater (frontNamed_descend h.leads.relative hfront hname hs.1) (h.descend_literal hname hs hne hstep)
  | case5 pattern patterns path hpattern name hname next isFound =>
      rename_i hfound
      have hs := (hpatterns pattern List.mem_cons_self).literal name hname
      have hne : Path.parts path = [.here] → name ≠ [] := fun hhere => ne_nil_of_frontNamed (hfront hhere) hname
      rw [placesFrom_literal hname]
      cases hstep : tree.step place name with
      | error fault => rfl
      | ok place' =>
          -- A step that leads somewhere is followed, because there is room for its path.
          have hnext := h.descend_literal hname hs hne hstep
          exact absurd (isFollowed_of_step h.leads hs.1 hne (Tree.leads_of_locate h.locate).2
            (Tree.leads_of_locate hnext.locate).2 hstep) hfound
  | case6 pattern patterns path hpattern hname hfolder named dots ih =>
      obtain ⟨hfirst, hlater⟩ := List.forall_mem_cons.mp hpatterns
      -- Only wildcards after a dot stand for `.` and `..`.
      have hdots : dots = [] := if_neg (hfirst.wild hname)
      have hnamed : named = ((tree.children place).filter fun e => isMatch pattern e.1).map
          fun e => (e.1, descend path e.1) := by
        show (childPaths tree path).filter _ = _
        rw [h.childPaths_eq, List.filter_map]
        rfl
      rw [placesFrom_wild hname hpattern, if_pos (h.isFolder.mp hfolder), hdots, hnamed, List.flatMap_nil,
        List.append_nil, List.flatMap_map, List.map_flatMap, List.map_flatMap]
      refine List.flatMap_congr fun e he => ?_
      have hbelow := Tree.mem_below_of_mem_children (List.mem_filter.mp he).1
      have hchild : (tree.get? (place ++ [e.1])).isSome = true := by rw [Tree.get?_of_mem_below hbelow]; rfl
      have hstep := (Tree.isStep_of_mem_below hbelow).2 e.1 List.mem_cons_self
      exact ih _ hlater (fun hhere => absurd hhere (descend_named h.leads.relative hstep).2) (h.tail.descend hchild)
  | case7 pattern patterns path hpattern hname hfolder =>
      rw [placesFrom_wild hname hpattern, if_neg (mt h.isFolder.mpr hfolder)]
      rfl

end

end Glob
end Marginalia
