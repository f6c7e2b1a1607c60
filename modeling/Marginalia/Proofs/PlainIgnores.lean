import Mathlib.Data.List.Infix
import Marginalia.Proofs.Expansion
import Marginalia.Proofs.Listing

/-! Plain entries of an ignore list. Such an entry is put behind the base and compared with the path of each file
part by part. A `.` at the front of a path is a part of its own, so the comparison tells paths apart that lead to one
place. Walks keep the front of the path they start from, and paths that are joined to the base have its front. What a
pattern stands for does not: it is named from the working directory on, which is not named. Below a base with a `.`
at its front, plain entries leave out nothing that only a pattern leads to. -/

namespace Marginalia

namespace Path

theorem ofStep_injective : Function.Injective Part.ofStep := by
  intro s t h
  unfold Part.ofStep at h
  split at h <;> split at h <;> simp_all

theorem steps_ne_nil {p : Text} (hp : p ≠ []) (hrelative : isAbsolute p = false) (hfront : startsHere p = false) :
    steps p ≠ [] := by
  obtain ⟨first, rest, hsplit⟩ := List.exists_cons_of_ne_nil (Text.splitOn_ne_nil '/' p)
  have hfirst : first ≠ [] := by
    rintro rfl
    by_cases hslash : '/' ∈ p
    · obtain ⟨front, later, rfl, hnot⟩ := List.eq_append_cons_of_mem hslash
      rw [Text.splitOn_cut hnot] at hsplit
      cases (List.cons.inj hsplit).1
      cases hrelative
    · rw [Text.splitOn_of_notMem hslash] at hsplit
      exact hp (List.cons.inj hsplit).1
  have hhere : first ≠ ['.'] := by
    rintro rfl
    rw [startsHere, hsplit] at hfront
    cases hfront
  rw [steps, hsplit, List.filter_cons_of_pos (by simp [isIdleStep, hfirst, hhere])]
  exact List.cons_ne_nil _ _

/-- A path lies within another one if it continues its steps and has the same front. -/
theorem isWithin_iff {p base : Text} (hp : isAbsolute p = false) (hbase : base ≠ [] ∧ isAbsolute base = false) :
    isWithin p base = true ↔ startsHere p = startsHere base ∧ steps base <+: steps p := by
  have hinjective := @List.prefix_map_iff_of_injective _ _ (steps base) (steps p) _ ofStep_injective
  rw [isWithin, List.isPrefixOf_iff_prefix, parts_eq hp, parts_eq hbase.2]
  cases hfront : startsHere base <;> cases hfront' : startsHere p
  · simpa using hinjective
  -- Where the fronts differ, the first parts do: one is the `.`, the other a step.
  · obtain ⟨s, rest, hsteps⟩ := List.exists_cons_of_ne_nil (steps_ne_nil hbase.1 hbase.2 hfront)
    simp [hsteps, List.cons_prefix_cons, ofStep_ne_here s]
  · cases hsteps : steps p with
    | nil => simp
    | cons s rest => simp [List.cons_prefix_cons, Ne.symm (ofStep_ne_here s)]
  · simpa [List.cons_prefix_cons] using hinjective

end Path

namespace Tree

variable {tree : Tree} {path file : Text}

/-- A walk keeps the front of the path it starts from. -/
theorem startsHere_of_lists (h : tree.Lists path file) :
    Path.isAbsolute file = false ∧ Path.startsHere file = Path.startsHere path := by
  obtain ⟨place, names, entry, hlocate, hget, -, rfl, -⟩ := lists_iff.mp h
  obtain ⟨hleads, -⟩ := leads_of_locate hlocate
  refine ⟨(hleads.foldl_join hget).relative.2, ?_⟩
  have hnames : ∀ s ∈ names, '/' ∉ s := fun s hs =>
    (Path.isName_iff.mp (isName_of_get? hget (List.mem_append_right _ hs))).2.2.1
  have hjoin : ∀ p s : Text, '/' ∉ s → p ≠ [] ∧ Path.startsHere p = Path.startsHere path →
      Path.join p s ≠ [] ∧ Path.startsHere (Path.join p s) = Path.startsHere path := fun p s hs hp =>
    have hrelative := Path.isAbsolute_of_notMem hs
    ⟨Path.join_ne_nil hp.1 hrelative, (Path.startsHere_join hp.1 hrelative).trans hp.2⟩
  exact (Glob.foldl_join_induction hjoin hnames ⟨hleads.relative.1, rfl⟩).2

end Tree

theorem Path.IsUnder.startsHere_eq_false {p : Text} (h : IsUnder [] p) : startsHere p = false := by
  by_cases hp : p = []
  · rw [hp]
    rfl
  obtain ⟨names, hnames, hjoin⟩ := h
  rw [← startsHere_join hp (s := []) rfl, hjoin]
  cases names with
  | nil => rfl
  | cons s names =>
      obtain ⟨hs, hlater⟩ := List.forall_mem_cons.mp hnames
      have hdirect : Glob.IsDirect (join [] s) := by
        rw [join_eq_append (isAbsolute_of_isStep hs)]
        exact Glob.isDirect_descend_here hs
      have hfold : Glob.IsDirect (names.foldl join (join [] s)) :=
        Glob.foldl_join_induction (fun p t ht hp => hp.join ht) (fun t ht => (isStep_iff.mp (hlater t ht)).2) hdirect
      exact (hfold.join List.not_mem_nil).2

namespace Glob

theorem exists_pieces_eq_cons {p s : Text} (h : (Text.splitOn '/' p).head? = some s) (hs : s ≠ []) :
    ∃ later, pieces p = s :: later := by
  obtain ⟨rest, hsplit⟩ := List.head?_eq_some_iff.mp h
  rw [pieces, hsplit]
  split
  · next hlast =>
    cases rest with
    | nil => exact absurd (Option.some.inj (beq_iff_eq.mp hlast)) hs
    | cons t rest => exact ⟨_, List.dropLast_cons_cons⟩
  · exact ⟨rest, rfl⟩

/-- The path begins with a step that leads somewhere and has no wildcards after a dot. -/
def startsPlain (p : Text) : Bool := (Text.splitOn '/' p).head?.any isPlainStep

theorem startsHere_of_startsPlain {p : Text} (h : startsPlain p = true) : Path.startsHere p = false := by
  obtain ⟨s, hs, hplain⟩ := (Option.any_eq_true _ _).mp h
  rw [Path.startsHere, hs]
  refine beq_false_of_ne fun heq => ?_
  cases Option.some.inj heq
  cases hplain

/-- What a pattern behind such a path stands for begins with a name too. -/
theorem isDirect_of_mem_folders {tree : Tree} {base s found : Text} {paths : List Text}
    (hbase : startsPlain base = true) (hs : Path.isAbsolute s = false)
    (h : (folders tree (Path.join base s)).toOption = some paths) (hfound : found ∈ paths) : IsDirect found := by
  obtain ⟨first, hfirst, hplain⟩ := (Option.any_eq_true _ _).mp hbase
  have hstep : first ≠ [] := Path.isStep_ne_nil (Bool.and_eq_true_iff.mp hplain).1
  obtain ⟨later, hpieces⟩ := exists_pieces_eq_cons hfirst hstep
  rw [folders_toOption] at h
  obtain ⟨patterns, hpatterns, rfl⟩ := Option.map_eq_some_iff.mp h
  obtain ⟨parsed, hparsed, rfl⟩ := exists_of_patterns? hpatterns
  have hslash := slashFree_of_patterns? hpatterns
  rw [pieces_join base hs, hpieces, List.cons_append] at hparsed
  obtain ⟨p, rest, hp, -, rfl⟩ := exists_of_mapM_cons hparsed
  obtain ⟨patterns, heq⟩ := exists_withoutRuns_eq_cons p rest
  rw [heq] at hslash hfound
  exact isDirect_of_mem_expandFrom_here (keepsSpelling_of_parse hplain hp) (List.forall_mem_cons.mp hslash).2
    (List.mem_filter.mp hfound).1

end Glob

namespace Discovery

variable {tree : Tree} {table : LanguageTable} {base file root : Text} {ignores includes : List Text}

/-- A file is left out by a plain entry or by a pattern. -/
theorem ignores_eq_true_iff : (IgnoreList.ofEntries base ignores).ignores file = true ↔
    (∃ entry ∈ ignores, Glob.isPattern entry = false ∧ Path.isWithin file (Path.join base entry) = true) ∨
      (IgnoreList.ofEntries base (ignores.filter Glob.isPattern)).ignores file = true := by
  have hplain : (ignores.filter Glob.isPattern).filter (fun entry => !Glob.isPattern entry) = [] := by
    simp [List.filter_filter]
  have hpatterns : (ignores.filter Glob.isPattern).filter Glob.isPattern = ignores.filter Glob.isPattern := by
    simp [List.filter_filter]
  simp only [IgnoreList.ofEntries, IgnoreList.ignores, hplain, hpatterns, Bool.or_eq_true, List.any_map,
    List.map_nil, List.any_nil, Bool.false_eq_true, false_or]
  simp [List.any_eq_true]

/-- No file continues the steps of a plain entry of the ignore list behind the base. -/
def LeavesOut (base : Text) (ignores files : List Text) : Prop :=
  ∀ entry ∈ ignores, Glob.isPattern entry = false →
    ∀ file ∈ files, ¬ Path.steps (Path.join base entry) <+: Path.steps file

instance (base : Text) (ignores files : List Text) : Decidable (LeavesOut base ignores files) :=
  inferInstanceAs (Decidable (∀ entry ∈ ignores, _))

/-- Patterns with nothing but plain steps, below a base with a `.` at its front. -/
structure DropFront (base : Text) (includes : List Text) : Prop where
  front : Path.startsHere base = true
  nonempty : includes ≠ []
  pattern : ∀ entry ∈ includes, Glob.isPattern entry = true
  plain : ∀ entry ∈ includes, Glob.arePlain (Glob.pieces (Path.join base entry)) = true

section

variable (hbase : base ≠ [] ∧ Path.isAbsolute base = false)
  (hignores : ∀ entry ∈ ignores, Glob.isPattern entry = false → Path.isAbsolute entry = false)

include hbase

theorem isWithin_entry_iff {entry : Text} (hentry : Path.isAbsolute entry = false)
    (hfile : Path.isAbsolute file = false) : Path.isWithin file (Path.join base entry) = true ↔
      Path.startsHere file = Path.startsHere base ∧ Path.steps (Path.join base entry) <+: Path.steps file := by
  rw [← Path.startsHere_join hbase.1 hentry]
  exact Path.isWithin_iff hfile ⟨Path.join_ne_nil hbase.1 hentry, Path.isAbsolute_join hbase.2 hentry⟩

include hignores

/-- Files with the front of the base are left out as their steps tell. -/
theorem leavesOut_of_lists (hroot : Path.startsHere root = Path.startsHere base) (hlists : tree.Lists root file)
    (hfile : (IgnoreList.ofEntries base ignores).ignores file = false) : LeavesOut base ignores [file] := by
  obtain ⟨hrelative, hfront⟩ := Tree.startsHere_of_lists hlists
  intro entry hentry hplain found hfound hsteps
  cases List.mem_singleton.mp hfound
  have hwithin := (isWithin_entry_iff hbase (hignores entry hentry hplain) hrelative).mpr ⟨hfront.trans hroot, hsteps⟩
  rw [ignores_eq_true_iff.mpr (.inl ⟨entry, hentry, hplain, hwithin⟩)] at hfile
  cases hfile

/-- Others are left out by patterns only. -/
theorem ignores_of_lists (hroot : Path.startsHere root ≠ Path.startsHere base) (hlists : tree.Lists root file) :
    (IgnoreList.ofEntries base ignores).ignores file =
      (IgnoreList.ofEntries base (ignores.filter Glob.isPattern)).ignores file := by
  obtain ⟨hrelative, hfront⟩ := Tree.startsHere_of_lists hlists
  rw [Bool.eq_iff_iff, ignores_eq_true_iff, or_iff_right]
  rintro ⟨entry, hentry, hplain, hwithin⟩
  have hsame := ((isWithin_entry_iff hbase (hignores entry hentry hplain) hrelative).mp hwithin).1
  exact hroot (hfront.symm.trans hsame)

theorem leavesOut_of_mem_belowBase (hfile : file ∈ (belowBase tree base includes ignores table).files)
    (hfront : Path.startsHere file = Path.startsHere base) : LeavesOut base ignores [file] := by
  obtain ⟨root, hroot, hlists, hkept, -⟩ := mem_belowBase.mp hfile
  exact leavesOut_of_lists hbase hignores ((Tree.startsHere_of_lists hlists).2.symm.trans hfront) hlists hkept

theorem leavesOut_belowBase (hroots : ∀ root ∈ roots tree base includes, Path.startsHere root = Path.startsHere base) :
    LeavesOut base ignores (belowBase tree base includes ignores table).files := by
  intro entry hentry hplain file hfile
  obtain ⟨root, hroot, hlists, -⟩ := mem_belowBase.mp hfile
  have hfront := (Tree.startsHere_of_lists hlists).2.trans (hroots root hroot)
  exact leavesOut_of_mem_belowBase hbase hignores hfile hfront entry hentry hplain file (List.mem_singleton_self file)

theorem leavesOut_ofPaths {paths : List Text} (hpaths : ∀ p ∈ paths, Path.isAbsolute p = false)
    (hfile : file ∈ (ofPaths tree base paths ignores table).files) :
    (∃ p ∈ paths, file = Path.join base p ∧ tree.isFile file = true) ∨ LeavesOut base ignores [file] := by
  obtain ⟨p, hp, hfound⟩ := mem_merge_map.mp hfile
  dsimp only at hfound
  split at hfound
  · next hisFile =>
    cases List.mem_singleton.mp hfound
    exact .inl ⟨p, hp, rfl, hisFile⟩
  · obtain ⟨hlists, hkept, -⟩ := mem_walk.mp hfound
    exact .inr (leavesOut_of_lists hbase hignores (Path.startsHere_join hbase.1 (hpaths p hp)) hlists hkept)

end

theorem startsHere_of_mem_roots (hbase : base ≠ [])
    (hincludes : ∀ entry ∈ includes, Path.isAbsolute entry = false)
    (h : (∀ entry ∈ includes, Glob.isPattern entry = false) ∨ Glob.startsPlain base = true)
    (hroot : root ∈ roots tree base includes) : Path.startsHere root = Path.startsHere base := by
  unfold roots at hroot
  split at hroot
  · rw [List.mem_singleton.mp hroot]
  obtain ⟨entry, hentry, hroot⟩ := List.mem_flatMap.mp hroot
  cases hpattern : Glob.isPattern entry with
  | true =>
      have hplain := h.resolve_left fun hall => by rw [hall entry hentry] at hpattern; cases hpattern
      obtain ⟨paths, hpaths, hmem⟩ := exists_of_mem_includedPaths hpattern hroot
      rw [Glob.startsHere_of_startsPlain hplain]
      exact (Glob.isDirect_of_mem_folders hplain (hincludes entry hentry) hpaths hmem).2
  | false =>
      rw [includedPaths, hpattern] at hroot
      cases List.mem_singleton.mp (List.mem_ite_nil_right.mp hroot).2
      exact Path.startsHere_join hbase (hincludes entry hentry)

theorem DropFront.startsHere_eq_false (h : DropFront base includes) (hroot : root ∈ roots tree base includes) :
    Path.startsHere root = false := by
  rw [roots, if_neg (by simpa using h.nonempty)] at hroot
  obtain ⟨entry, hentry, hroot⟩ := List.mem_flatMap.mp hroot
  obtain ⟨paths, hpaths, hmem⟩ := exists_of_mem_includedPaths (h.pattern entry hentry) hroot
  cases hfolders : Glob.folders tree (Path.join base entry) with
  | error e => rw [hfolders] at hpaths; cases hpaths
  | ok found =>
      rw [hfolders] at hpaths
      cases hpaths
      exact (Glob.isUnder_of_mem_folders (h.plain entry hentry) hfolders hmem).startsHere_eq_false

/-- Plain entries then have no effect at all. -/
theorem DropFront.belowBase_eq (h : DropFront base includes) (hbase : base ≠ [] ∧ Path.isAbsolute base = false)
    (hignores : ∀ entry ∈ ignores, Glob.isPattern entry = false → Path.isAbsolute entry = false) :
    belowBase tree base includes ignores table =
      belowBase tree base includes (ignores.filter Glob.isPattern) table := by
  refine congrArg merge (List.map_congr_left fun root hroot => ?_)
  have hfront : Path.startsHere root ≠ Path.startsHere base := by
    rw [h.startsHere_eq_false hroot, h.front]
    decide
  unfold walk
  cases hwalk : tree.walk? root with
  | none => rfl
  | some found =>
      have hfiles : ∀ file ∈ found.1, (IgnoreList.ofEntries base ignores).ignores file =
          (IgnoreList.ofEntries base (ignores.filter Glob.isPattern)).ignores file := fun file hfile =>
        ignores_of_lists hbase hignores hfront ⟨found, hwalk, hfile⟩
      refine Prod.ext (List.filter_congr fun file hfile => ?_) rfl
      rw [hfiles file hfile]

/-- A listed file that lies at or below a plain entry of the ignore list behind the base has another front than the
base. There is none if all includes are plain paths, or if the base begins with a name. Below a base with a `.` at
its front patterns lead to paths without it, and plain entries leave out nothing there. Of the files that are listed
for paths given by name only those given as files lie there. -/
theorem leavesOut_files (tree : Tree) (base : Text) (ignores : List Text) (table : LanguageTable)
    (hbase : base ≠ [] ∧ Path.isAbsolute base = false)
    (hignores : ∀ entry ∈ ignores, Glob.isPattern entry = false → Path.isAbsolute entry = false) :
    (∀ includes, ∀ file ∈ (belowBase tree base includes ignores table).files,
      Path.startsHere file = Path.startsHere base → LeavesOut base ignores [file]) ∧
    (∀ includes, (∀ entry ∈ includes, Path.isAbsolute entry = false) →
      (∀ entry ∈ includes, Glob.isPattern entry = false) ∨ Glob.startsPlain base = true →
      LeavesOut base ignores (belowBase tree base includes ignores table).files) ∧
    (∀ includes, DropFront base includes → belowBase tree base includes ignores table =
      belowBase tree base includes (ignores.filter Glob.isPattern) table) ∧
    ∀ paths, (∀ p ∈ paths, Path.isAbsolute p = false) → ∀ file ∈ (ofPaths tree base paths ignores table).files,
      (∃ p ∈ paths, file = Path.join base p ∧ tree.isFile file = true) ∨ LeavesOut base ignores [file] := by
  refine ⟨fun includes file => leavesOut_of_mem_belowBase hbase hignores, fun includes hincludes h => ?_,
    fun includes h => h.belowBase_eq hbase hignores, fun paths hpaths file => leavesOut_ofPaths hbase hignores hpaths⟩
  exact leavesOut_belowBase hbase hignores fun root => startsHere_of_mem_roots hbase.1 hincludes h

/-- A folder left out below `./` from the include `src`, below `src` from the pattern `*` and as a path, and not
left out from the pattern `src/*` below `./`. -/
theorem leavesOut_files_generated :
    ∃ tree table,
      (LeavesOut "./" ["src/gen"] (belowBase tree "./" ["src"] ["src/gen"] table).files ∧
        (belowBase tree "./" ["src"] ["src/gen"] table).files = [("./src/b.py" : Text)]) ∧
      LeavesOut "./" ["src/gen"] ["./src/b.py"] ∧
      (LeavesOut "src" ["gen"] (belowBase tree "src" ["*"] ["gen"] table).files ∧
        (belowBase tree "src" ["*"] [] table).files = [("src/gen/a.py" : Text)]) ∧
      (belowBase tree "./" ["src/*"] ["src/gen"] table = belowBase tree "./" ["src/*"] [] table ∧
        (belowBase tree "./" ["src/*"] [] table).files = [("src/gen/a.py" : Text)]) ∧
      (∀ file ∈ (ofPaths tree "." ["src"] ["src/gen"] table).files, LeavesOut "." ["src/gen"] [file]) ∧
        (ofPaths tree "." ["src"] ["src/gen"] table).files = [("./src/b.py" : Text)] := by
  have hdrop : DropFront "./" ["src/*"] := ⟨by decide, by decide, by decide, by decide⟩
  obtain ⟨hlisted, hbelow, hdrops, -⟩ := leavesOut_files
    ((Tree.empty.add ["src", "gen", "a.py"] (.text [])).add ["src", "b.py"] (.text [])) "./" ["src/gen"]
    (.insertExtension .empty "py" "python") (by decide) (by decide)
  obtain ⟨-, hbelow', -, -⟩ := leavesOut_files
    ((Tree.empty.add ["src", "gen", "a.py"] (.text [])).add ["src", "b.py"] (.text [])) "src" ["gen"]
    (.insertExtension .empty "py" "python") (by decide) (by decide)
  obtain ⟨-, -, -, hgiven⟩ := leavesOut_files
    ((Tree.empty.add ["src", "gen", "a.py"] (.text [])).add ["src", "b.py"] (.text [])) "." ["src/gen"]
    (.insertExtension .empty "py" "python") (by decide) (by decide)
  refine ⟨_, _, ⟨hbelow ["src"] (by decide) (.inl (by decide)), ?_⟩,
    hlisted ["src", "src/*"] "./src/b.py" (by decide +kernel) (by decide),
    ⟨hbelow' ["*"] (by decide) (.inr (by decide)), ?_⟩, ⟨hdrops ["src/*"] hdrop, ?_⟩, ?_, ?_⟩
  · decide +kernel
  · decide +kernel
  · decide +kernel
  · intro file hfile
    refine (hgiven ["src"] (by decide) file hfile).resolve_left ?_
    rintro ⟨p, hp, rfl, hisFile⟩
    cases List.mem_singleton.mp hp
    revert hisFile
    decide +kernel
  · decide +kernel

/-- A folder left out and a pattern that stands for it, below the base `./`: the file in it is listed. -/
theorem not_leavesOut_pattern :
    ¬ LeavesOut "./" ["src/gen"] (belowBase (Tree.empty.add ["src", "gen", "a.py"] (.text [])) "./" ["src/*"]
      ["src/gen"] (.insertExtension .empty "py" "python")).files := by
  decide +kernel

end Discovery
end Marginalia
