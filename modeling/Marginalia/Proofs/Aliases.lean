import Marginalia.Discovery
import Marginalia.Proofs.Walks

/-! Files found under two paths. A discovery lists each path once, and two paths may lead to one file: they
have the same steps and differ in idle steps or doubled slashes. Paths are never brought to one form, so
whether a file is listed once depends on how the roots of the walks are spelled. It is if a root that leads on
from another is spelled like it. It need not be otherwise: `src` and `./src`, or `src` and `src/*` below the
base `./`, name one folder in two ways. -/

namespace Marginalia

theorem Dict.mem_keys_insert {α : Type} {d : Dict α} {key k : Text} {value : α} :
    k ∈ (d.insert key value).keys ↔ k = key ∨ k ∈ d.keys := by
  show k ∈ (insertEntry key value d.entries).map Prod.fst ↔ k = key ∨ k ∈ d.entries.map Prod.fst
  induction d.entries with
  | nil => simp [insertEntry]
  | cons entry rest ih =>
    rw [insertEntry]
    split
    · next hkey => simp [hkey]
    split
    · simp
    · rw [List.map_cons, List.map_cons, List.mem_cons, List.mem_cons, ih, or_left_comm]

namespace Discovery

variable {tree : Tree} {table : LanguageTable} {base : Text} {ignores : List Text}

theorem mem_inOrder {texts : List Text} {s : Text} : s ∈ inOrder texts ↔ s ∈ texts := by
  suffices h : ∀ d : Dict Unit, s ∈ ((texts.map fun t => (t, ())).foldl (fun d e => d.insert e.1 e.2) d).keys ↔
      s ∈ d.keys ∨ s ∈ texts by
    rw [inOrder, Dict.ofList, h]
    exact or_iff_right List.not_mem_nil
  induction texts with
  | nil => intro d; simp
  | cons t texts ih =>
    intro d
    rw [List.map_cons, List.foldl_cons, ih, Dict.mem_keys_insert, List.mem_cons, or_assoc, or_left_comm]

theorem mem_merge_map {paths : List Text} {f : Text → List Text × Nat} {file : Text} :
    file ∈ (merge (paths.map f)).files ↔ ∃ p ∈ paths, file ∈ (f p).1 := by
  rw [merge, mem_inOrder, List.flatMap_map, List.mem_flatMap]

/-- A listed file is a root of the walks with steps after it, and ends in a step. -/
def IsListed (roots : List Text) (file : Text) : Prop :=
  (∃ r ∈ roots, Path.IsUnder r file) ∧ Path.join file [] = file ++ ['/']

theorem isListed_of_mem_walk {list : IgnoreList} {roots : List Text} {root file : Text} (hroot : root ∈ roots)
    (h : file ∈ (walk tree list table root).1) : IsListed roots file := by
  unfold walk at h
  split at h
  · next files skipped hwalk =>
    obtain ⟨hunder, hends⟩ := tree.isUnder_of_mem_walk? hwalk (List.mem_filter.mp h).1
    exact ⟨⟨root, hroot, hunder⟩, hends⟩
  · cases h

theorem isListed_belowBase {includes : List Text} {file : Text}
    (h : file ∈ (belowBase tree base includes ignores table).files) :
    IsListed (roots tree base includes) file := by
  obtain ⟨root, hroot, hfile⟩ := mem_merge_map.mp h
  exact isListed_of_mem_walk hroot hfile

theorem isListed_ofPaths {paths : List Text} {file : Text}
    (h : file ∈ (ofPaths tree base paths ignores table).files) :
    IsListed (paths.map (Path.join base)) file := by
  obtain ⟨p, hp, hfile⟩ := mem_merge_map.mp h
  have hroot : Path.join base p ∈ paths.map (Path.join base) := List.mem_map_of_mem hp
  dsimp only at hfile
  split at hfile
  · next hisFile =>
    cases List.mem_singleton.mp hfile
    exact ⟨⟨_, hroot, .refl _⟩, Tree.join_nil_of_isFile hisFile⟩
  · exact isListed_of_mem_walk hroot hfile

/-- A root that leads on from another one is that one with steps after it. -/
def SpelledAlike (roots : List Text) : Prop :=
  ∀ r ∈ roots, ∀ r' ∈ roots, Path.steps r <+: Path.steps r' → Path.IsUnder r r'

/-- No two different paths among the files have the same steps. -/
def OneSpelling (files : List Text) : Prop :=
  ∀ p ∈ files, ∀ q ∈ files, Path.steps p = Path.steps q → p = q

theorem oneSpelling_of_isListed {roots files : List Text} (hroots : SpelledAlike roots)
    (hfiles : ∀ file ∈ files, IsListed roots file) : OneSpelling files := by
  intro p hp q hq hsteps
  obtain ⟨⟨r, hr, hunder⟩, hends⟩ := hfiles p hp
  obtain ⟨⟨r', hr', hunder'⟩, hends'⟩ := hfiles q hq
  have hjoin : Path.join p [] = Path.join q [] := by
    obtain ⟨names, -, -, hnames⟩ := hunder.exists_steps
    obtain ⟨names', -, -, hnames'⟩ := hunder'.exists_steps
    have hlead : Path.steps r <+: Path.steps p := ⟨names, hnames.symm⟩
    have hlead' : Path.steps r' <+: Path.steps p := ⟨names', (hsteps.trans hnames').symm⟩
    -- One root leads on from the other, so both files are under the shorter of the two.
    rcases List.prefix_or_prefix_of_prefix hlead hlead' with hroot | hroot
    · exact hunder.join_nil_eq ((hroots r hr r' hr' hroot).trans hunder') hsteps
    · exact ((hroots r' hr' r hr hroot).trans hunder).join_nil_eq hunder' hsteps
  rw [hends, hends'] at hjoin
  exact List.append_cancel_right hjoin

theorem spelledAlike_of_isUnder (base : Text) {roots : List Text} (h : ∀ r ∈ roots, Path.IsUnder base r) :
    SpelledAlike roots :=
  fun r hr r' hr' hlead => (h r hr).of_steps (h r' hr') hlead

/-! ### Roots that are spelled alike -/

/-- Includes without idle steps, either all of them plain paths, or all of them patterns, or below a base
without idle steps. -/
structure PlainIncludes (base : Text) (includes : List Text) : Prop where
  paths : ∀ entry ∈ includes, Glob.isPattern entry = false → Path.isPlain entry = true
  patterns : ∀ entry ∈ includes, Glob.isPattern entry = true →
    Glob.arePlain (Glob.pieces (Path.join base entry)) = true
  alike : (∀ entry ∈ includes, Glob.isPattern entry = false) ∨
    (∀ entry ∈ includes, Glob.isPattern entry = true) ∨ Path.isPlain base = true

section

variable {includes : List Text} (h : PlainIncludes base includes) {entry root : Text} (hentry : entry ∈ includes)
  (hroot : root ∈ includedPaths tree base entry)

include h hentry hroot

theorem isUnder_of_pattern (hpattern : Glob.isPattern entry = true) : Path.IsUnder [] root := by
  rw [includedPaths, if_pos hpattern] at hroot
  cases hfolders : Glob.folders tree (Path.join base entry) with
  | error e => rw [hfolders] at hroot; cases hroot
  | ok paths =>
    rw [hfolders] at hroot
    exact Glob.isUnder_of_mem_folders (h.patterns entry hentry hpattern) hfolders hroot

theorem isUnder_of_path (hpath : Glob.isPattern entry = false) : Path.IsUnder base root := by
  rw [includedPaths, hpath] at hroot
  cases List.mem_singleton.mp (List.mem_ite_nil_right.mp hroot).2
  exact (Path.IsUnder.refl base).join_plain (h.paths entry hentry hpath)

end

theorem isUnder_nil_of_isPlain (h : Path.isPlain base = true) : Path.IsUnder [] base := by
  have hjoin : Path.join [] base = base := Path.join_eq_append (Path.isAbsolute_of_isPlain h)
  exact hjoin ▸ (Path.IsUnder.refl []).join_plain h

theorem spelledAlike_roots {includes : List Text} (h : PlainIncludes base includes) :
    SpelledAlike (roots tree base includes) := by
  obtain ⟨front, hfront⟩ : ∃ front, ∀ entry ∈ includes, ∀ root ∈ includedPaths tree base entry,
      Path.IsUnder front root := by
    rcases h.alike with hpaths | hpatterns | hbase
    · exact ⟨base, fun entry hentry root hroot => isUnder_of_path h hentry hroot (hpaths entry hentry)⟩
    · exact ⟨[], fun entry hentry root hroot => isUnder_of_pattern h hentry hroot (hpatterns entry hentry)⟩
    · refine ⟨[], fun entry hentry root hroot => ?_⟩
      cases hpattern : Glob.isPattern entry with
      | true => exact isUnder_of_pattern h hentry hroot hpattern
      | false => exact (isUnder_nil_of_isPlain hbase).trans (isUnder_of_path h hentry hroot hpattern)
  unfold roots
  split
  · refine spelledAlike_of_isUnder base fun root hroot => ?_
    cases List.mem_singleton.mp hroot
    exact .refl base
  · refine spelledAlike_of_isUnder front fun root hroot => ?_
    obtain ⟨entry, hentry, hroot⟩ := List.mem_flatMap.mp hroot
    exact hfront entry hentry root hroot

theorem spelledAlike_paths {paths : List Text} (h : ∀ p ∈ paths, Path.isPlain p = true) :
    SpelledAlike (paths.map (Path.join base)) := by
  refine spelledAlike_of_isUnder base fun r hr => ?_
  obtain ⟨p, hp, rfl⟩ := List.mem_map.mp hr
  exact (Path.IsUnder.refl base).join_plain (h p hp)

/-- No file is listed under two paths if the roots of the walks are spelled alike. They are if no include and
no path has idle steps and, unless the base has none either, includes are all patterns or all plain paths. -/
theorem oneSpelling_files (tree : Tree) (base : Text) (ignores : List Text) (table : LanguageTable) :
    (∀ includes : List Text, SpelledAlike (roots tree base includes) →
      OneSpelling (belowBase tree base includes ignores table).files) ∧
    (∀ paths : List Text, SpelledAlike (paths.map (Path.join base)) →
      OneSpelling (ofPaths tree base paths ignores table).files) ∧
    (∀ includes : List Text, PlainIncludes base includes → SpelledAlike (roots tree base includes)) ∧
    ∀ paths : List Text, (∀ p ∈ paths, Path.isPlain p = true) → SpelledAlike (paths.map (Path.join base)) := by
  refine ⟨fun includes h => ?_, fun paths h => ?_, fun includes => spelledAlike_roots,
    fun paths => spelledAlike_paths⟩
  · exact oneSpelling_of_isListed h fun file => isListed_belowBase
  · exact oneSpelling_of_isListed h fun file => isListed_ofPaths

/-- A folder and one within it, as includes, as patterns and as paths. -/
theorem oneSpelling_files_nested :
    ∃ tree table,
      (PlainIncludes "./" ["src", "src/handlers/"] ∧
        (belowBase tree "./" ["src", "src/handlers/"] [] table).files = [("./src/handlers/a.py" : Text)] ∧
        OneSpelling (belowBase tree "./" ["src", "src/handlers/"] [] table).files) ∧
      (PlainIncludes "./" ["src/*", "**/handlers"] ∧
        (belowBase tree "./" ["src/*", "**/handlers"] [] table).files = [("src/handlers/a.py" : Text)] ∧
        OneSpelling (belowBase tree "./" ["src/*", "**/handlers"] [] table).files) ∧
      (∀ p ∈ ([("src" : Text), "src/handlers"] : List Text), Path.isPlain p = true) ∧
        OneSpelling (ofPaths tree "./" ["src", "src/handlers"] [] table).files := by
  have hpaths : PlainIncludes "./" ["src", "src/handlers/"] := ⟨by decide, by decide, .inl (by decide)⟩
  have hpatterns : PlainIncludes "./" ["src/*", "**/handlers"] :=
    ⟨by decide, by decide, .inr (.inl (by decide))⟩
  have hplain : ∀ p ∈ ([("src" : Text), "src/handlers"] : List Text), Path.isPlain p = true := by decide
  obtain ⟨hbelow, hgiven, hincludes, hentries⟩ := oneSpelling_files
    (Tree.empty.add ["src", "handlers", "a.py"] (.text [])) "./" [] (.insertExtension .empty "py" "python")
  refine ⟨_, _, ⟨hpaths, ?_, hbelow _ (hincludes _ hpaths)⟩, ⟨hpatterns, ?_, hbelow _ (hincludes _ hpatterns)⟩,
    hplain, hgiven _ (hentries _ hplain)⟩
  · decide +kernel
  · decide +kernel

/-- A folder and a pattern within it as includes below the base `./`, and a folder spelled in two ways among the
paths: the file in it is listed twice. -/
theorem not_oneSpelling_mixed :
    ¬ OneSpelling (belowBase (Tree.empty.add ["src", "handlers", "a.py"] (.text [])) "./" ["src", "src/*"] []
        (.insertExtension .empty "py" "python")).files ∧
      ¬ OneSpelling (ofPaths (Tree.empty.add ["src", "handlers", "a.py"] (.text [])) "./" ["src", "./src"] []
        (.insertExtension .empty "py" "python")).files := by
  constructor
  · intro h
    have heq := h "./src/handlers/a.py" (by decide +kernel) "src/handlers/a.py" (by decide +kernel) (by decide)
    revert heq
    decide
  · intro h
    have heq := h "./src/handlers/a.py" (by decide +kernel) "././src/handlers/a.py" (by decide +kernel) (by decide)
    revert heq
    decide

end Discovery
end Marginalia
