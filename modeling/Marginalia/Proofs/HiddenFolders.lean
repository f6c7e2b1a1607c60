import Mathlib.Data.List.Basic
import Marginalia.Config.Basic
import Marginalia.Proofs.Listing

/-! The files of a scan for which nothing is configured. The pattern `**/name/**` stands for the paths with a
folder of that name above their last step: it has to begin where a step begins, and it has to end in a slash,
so names that only contain it are not meant. A walk names each file by the steps that lead to it, so of all the
files in a known language those are left out that are inside a folder with one of the four hidden names. -/

namespace Marginalia

namespace Text

theorem splitOn_join {names : List Text} (hne : names ≠ []) (h : ∀ s ∈ names, '/' ∉ s) :
    splitOn '/' (join ['/'] names) = names := by
  induction names with
  | nil => exact absurd rfl hne
  | cons s names ih =>
      obtain ⟨hs, hnames⟩ := List.forall_mem_cons.mp h
      cases names with
      | nil => exact splitOn_of_notMem hs
      | cons t names =>
          rw [join, List.append_assoc, List.singleton_append, splitOn_cut hs, ih (List.cons_ne_nil t names) hnames]

end Text

theorem Path.foldl_join_eq {names : List Text} (hne : names ≠ []) (h : ∀ s ∈ names, isStep s = true) (p : Text) :
    names.foldl join p = join p [] ++ Text.join ['/'] names := by
  induction names generalizing p with
  | nil => exact absurd rfl hne
  | cons s names ih =>
      obtain ⟨hs, hnames⟩ := List.forall_mem_cons.mp h
      have hjoin : join p s = join p [] ++ s := join_eq_append (isAbsolute_of_isStep hs)
      cases names with
      | nil => exact hjoin
      | cons t names =>
          rw [List.foldl_cons, ih (List.cons_ne_nil t names) hnames, join_join_step p hs, hjoin, Text.join]
          simp only [List.append_assoc]

/-! ### Patterns for everything inside a folder -/

namespace Glob

/-- Everything inside a folder of this name. -/
def within (name : Text) : Pattern := .anySteps :: ((name ++ ['/']).map .char ++ [.anySteps])

theorem parse_within {name : Text} (h : isWild name = false) :
    parse ("**/" ++ name ++ "/**") = .ok (within name) := by
  have hplain : isWild (name ++ ['/']) = false := by
    rw [isWild, List.any_append]
    simpa [isWild] using h
  have hstart : parse ("**/" ++ name ++ "/**") =
      (parseFrom 3 (some '/') ((name ++ ['/']) ++ ['*', '*'])).map (.anySteps :: ·) := by
    have htext : ("**/" ++ name ++ "/**" : Text) = '*' :: '*' :: '/' :: ((name ++ ['/']) ++ ['*', '*']) := by
      simp
    rw [htext, parse, parseFrom]
    · cases parseFrom 3 (some '/') ((name ++ ['/']) ++ ['*', '*']) <;> rfl
    · simp
  have hend : parseFrom (3 + (name ++ ['/']).length) (some '/') ['*', '*'] = .ok [.anySteps] := by
    rw [parseFrom]
    rfl
  rw [hstart, parseFrom_append hplain, List.getLast?_concat, Option.some_or, hend]
  rfl

theorem standsFor_chars (s : Text) (p : Pattern) (t : Text) :
    standsFor (s.map .char ++ p) t = (Text.after? s t).any (standsFor p) := by
  induction s generalizing t with
  | nil => rfl
  | cons c s ih =>
      cases t with
      | nil => rfl
      | cons d t =>
          rw [List.map_cons, List.cons_append, standsFor, Text.after?, ih]
          · by_cases hcd : c = d <;> simp [Token.matchesChar, hcd]
          all_goals
            intro heq
            cases heq

theorem standsFor_anySteps (t : Text) : standsFor [.anySteps] t = true := by
  rw [standsFor, Bool.or_eq_true]
  refine Or.inr (List.any_eq_true.mpr ⟨[], ?_, rfl⟩)
  induction t with
  | nil => exact List.mem_singleton_self _
  | cons c t ih =>
      rw [laterSteps]
      split
      · exact List.mem_cons_of_mem _ ih
      · exact ih

theorem laterSteps_of_notMem {s : Text} (h : '/' ∉ s) : laterSteps s = [[]] := by
  induction s with
  | nil => rfl
  | cons c s ih =>
      rw [List.mem_cons, not_or] at h
      rw [laterSteps, if_neg (Ne.symm h.1), ih h.2]

theorem laterSteps_cut {first : Text} (h : '/' ∉ first) (rest : Text) :
    laterSteps (first ++ '/' :: rest) = rest :: laterSteps rest := by
  induction first with
  | nil => rw [List.nil_append, laterSteps, if_pos rfl]
  | cons c first ih =>
      rw [List.mem_cons, not_or] at h
      rw [List.cons_append, laterSteps, if_neg (Ne.symm h.1), ih h.2]

theorem standsFor_inside (name t : Text) :
    standsFor ((name ++ ['/']).map .char ++ [.anySteps]) t = true ↔ ∃ rest, t = name ++ '/' :: rest := by
  rw [standsFor_chars, Option.any_eq_true]
  constructor
  · rintro ⟨rest, hafter, -⟩
    exact ⟨rest, by rw [Text.eq_append_of_after? hafter, List.append_assoc, List.singleton_append]⟩
  · rintro ⟨rest, rfl⟩
    have htext : name ++ '/' :: rest = (name ++ ['/']) ++ rest := by simp
    exact ⟨rest, htext ▸ Text.after?_append _ _, standsFor_anySteps rest⟩

/-- The pattern looks for the name among the steps before the last. -/
theorem isMatch_within {name : Text} (hname : '/' ∉ name) (s : Text) :
    isMatch (within name) s = true ↔ name ∈ (Text.splitOn '/' s).dropLast := by
  rw [isMatch_eq_standsFor, within]
  induction s using Text.splitOn_induction '/' with
  | last s hs =>
      rw [Text.splitOn_of_notMem hs, standsFor, laterSteps_of_notMem hs, List.any_cons, List.any_nil,
        Bool.or_false, Bool.or_eq_true, standsFor_inside, standsFor_inside]
      constructor
      · rintro (⟨rest, rfl⟩ | ⟨rest, hnil⟩)
        · exact absurd (List.mem_append_right name List.mem_cons_self) hs
        · simp at hnil
      · intro hmem
        cases hmem
  | cut first rest hfirst ih =>
      have hhead : standsFor ((name ++ ['/']).map .char ++ [.anySteps]) (first ++ '/' :: rest) = true ↔
          name = first := by
        rw [standsFor_inside]
        constructor
        · rintro ⟨later, heq⟩
          have hsplit := congrArg (Text.splitOn '/') heq
          rw [Text.splitOn_cut hfirst, Text.splitOn_cut hname] at hsplit
          exact (List.cons.inj hsplit).1.symm
        · rintro rfl
          exact ⟨rest, rfl⟩
      rw [standsFor, Bool.or_eq_true] at ih
      rw [Text.splitOn_cut hfirst, List.dropLast_cons_of_ne_nil (Text.splitOn_ne_nil _ _), List.mem_cons, standsFor,
        laterSteps_cut hfirst, List.any_cons, Bool.or_eq_true, Bool.or_eq_true, hhead, ih]

end Glob

/-! ### Walks of a whole tree -/

namespace Tree

variable (tree : Tree)

theorem locate_here : tree.locate "./" = .ok [] := rfl

/-- A walk from a path to the root meets every entry of the tree. -/
def WalksWhole (path : Text) : Prop :=
  ∀ place entry, (place, entry) ∈ tree.entries → (place.foldl Path.join path, entry) ∈ tree.met [] path

variable {tree} {place : Location} {entry : Entry} {file : Text}

theorem isStep_of_mem_entries (h : (place, entry) ∈ tree.entries) : ∀ name ∈ place, Path.isStep name = true :=
  fun name hname => Path.isStep_of_isName ((tree.named _ h).2 name hname)

theorem mem_met_here (h : tree.WalksWhole "./") : (file, entry) ∈ tree.met [] "./" ↔
    ∃ place, (place, entry) ∈ tree.entries ∧ file = "./" ++ Text.join ['/'] place := by
  have hspelled : ∀ place, (place, entry) ∈ tree.entries →
      place.foldl Path.join "./" = "./" ++ Text.join ['/'] place := fun place hmem =>
    Path.foldl_join_eq (tree.named _ hmem).1 (isStep_of_mem_entries hmem) "./"
  constructor
  · intro hmet
    obtain ⟨names, hbelow, -, rfl⟩ := mem_met.mp hmet
    obtain ⟨-, hmem⟩ := mem_below.mp hbelow
    exact ⟨names, hmem, hspelled names hmem⟩
  · rintro ⟨place, hmem, rfl⟩
    exact hspelled place hmem ▸ h place entry hmem

theorem dropLast_splitOn_of_mem (h : (place, entry) ∈ tree.entries) :
    (Text.splitOn '/' ("./" ++ Text.join ['/'] place)).dropLast = ['.'] :: place.dropLast := by
  have hne : place ≠ [] := (tree.named _ h).1
  have hslash : ∀ name ∈ place, '/' ∉ name := fun name hname =>
    (Path.isStep_iff.mp (isStep_of_mem_entries h name hname)).2
  have hcut : Text.splitOn '/' (['.'] ++ '/' :: Text.join ['/'] place) =
      ['.'] :: Text.splitOn '/' (Text.join ['/'] place) := Text.splitOn_cut (by decide) _
  rw [Text.splitOn_join hne hslash] at hcut
  exact (congrArg List.dropLast hcut).trans (List.dropLast_cons_of_ne_nil hne)

end Tree

/-! ### The usual configuration -/

/-- Longer lists of entries leave out more. -/
theorem IgnoreList.ignores_mono {entries more : List Text} (h : entries ⊆ more) {base path : Text}
    (hignored : (ofEntries base entries).ignores path = true) : (ofEntries base more).ignores path = true := by
  simp only [ignores, ofEntries, Bool.or_eq_true, List.any_eq_true] at hignored ⊢
  rcases hignored with ⟨inner, hinner, hwithin⟩ | ⟨pattern, hpattern, hmatch⟩
  · exact .inl ⟨inner, List.map_subset _ (List.filter_subset _ h) hinner, hwithin⟩
  · exact .inr ⟨pattern, List.filterMap_subset _ (List.filter_subset _ h) hpattern, hmatch⟩

namespace Config

/-- The folders whose contents are left out if nothing is configured. -/
def hiddenFolders : List Text := ["node_modules", "target", ".git", "vendor"]

theorem ignores_usual (base path : Text) :
    (IgnoreList.ofEntries base ({} : Config).ignores).ignores path = false ↔
      ∀ folder ∈ hiddenFolders, folder ∉ (Text.splitOn '/' path).dropLast := by
  have hnames : ∀ folder ∈ hiddenFolders, '/' ∉ folder ∧ Glob.isWild folder = false := by decide
  have hpaths : (IgnoreList.ofEntries base ({} : Config).ignores).paths = [] := rfl
  have hentries : ({} : Config).ignores.filter Glob.isPattern =
      hiddenFolders.map fun folder => ("**/" ++ folder ++ "/**" : Text) := by decide
  have hpatterns : (IgnoreList.ofEntries base ({} : Config).ignores).patterns = hiddenFolders.map Glob.within := by
    calc (({} : Config).ignores.filter Glob.isPattern).filterMap (fun entry => (Glob.parse entry).toOption)
        = hiddenFolders.filterMap fun folder => (Glob.parse ("**/" ++ folder ++ "/**")).toOption := by
          rw [hentries, List.filterMap_map, Function.comp_def]
      _ = hiddenFolders.filterMap (some ∘ Glob.within) := by
          refine List.filterMap_congr fun folder hfolder => ?_
          rw [Glob.parse_within (hnames folder hfolder).2]
          rfl
      _ = hiddenFolders.map Glob.within := by rw [List.filterMap_eq_map]
  rw [IgnoreList.ignores, hpaths, hpatterns, List.any_nil, Bool.false_or, List.any_map, List.any_eq_false]
  refine forall₂_congr fun folder hfolder => ?_
  rw [Function.comp_apply, Glob.isMatch_within (hnames folder hfolder).1]

end Config

namespace Discovery

/-- With nothing configured the files of a scan are those in a known language that are in no hidden folder, at
whatever depth, as long as the walk meets everything that there is. And whatever is configured, more entries to
leave out never add a file. -/
theorem files_usual (tree : Tree) (table : LanguageTable) :
    (tree.WalksWhole ({} : Config).sourceRoot → ∀ file : Text,
      file ∈ (belowBase tree ({} : Config).sourceRoot ({} : Config).includes ({} : Config).ignores table).files ↔
        ∃ place entry, (place, entry) ∈ tree.entries ∧ entry.isFile = true ∧
          file = "./" ++ Text.join ['/'] place ∧ (table.languageOf? file).isSome = true ∧
          ∀ folder ∈ place.dropLast, folder ∉ Config.hiddenFolders) ∧
    ∀ (base : Text) (includes ignores more : List Text), ignores ⊆ more →
      ∀ file ∈ (belowBase tree base includes more table).files,
        file ∈ (belowBase tree base includes ignores table).files := by
  refine ⟨fun hwhole file => ?_, fun base includes ignores more hmore file hfile => ?_⟩
  · have hroots : roots tree ({} : Config).sourceRoot ({} : Config).includes = [("./" : Text)] := rfl
    rw [mem_belowBase, hroots, Config.ignores_usual]
    simp only [List.mem_singleton, exists_eq_left, Tree.lists_of_folder tree.locate_here rfl,
      Tree.mem_met_here hwhole]
    constructor
    · rintro ⟨⟨entry, hfile, place, hmem, rfl⟩, hfolders, hlanguage⟩
      rw [Tree.dropLast_splitOn_of_mem hmem] at hfolders
      refine ⟨place, entry, hmem, hfile, rfl, hlanguage, fun folder hfolder hhidden => ?_⟩
      exact hfolders folder hhidden (List.mem_cons_of_mem _ hfolder)
    · rintro ⟨place, entry, hmem, hfile, rfl, hlanguage, hfolders⟩
      refine ⟨⟨entry, hfile, place, hmem, rfl⟩, fun folder hhidden hfolder => ?_, hlanguage⟩
      rw [Tree.dropLast_splitOn_of_mem hmem] at hfolder
      rcases List.mem_cons.mp hfolder with rfl | hfolder
      · revert hhidden
        decide
      · exact hfolders folder hfolder hhidden
  · obtain ⟨root, hroot, hlists, hignored, hlanguage⟩ := mem_belowBase.mp hfile
    refine mem_belowBase.mpr ⟨root, hroot, hlists, ?_, hlanguage⟩
    exact Bool.eq_false_iff.mpr fun h => Bool.eq_false_iff.mp hignored (IgnoreList.ignores_mono hmore h)

/-- Names that only contain a hidden one hide nothing, wherever the folder is. -/
theorem files_usual_nested :
    ∃ tree table, tree.WalksWhole ({} : Config).sourceRoot ∧
      ("./my_vendor/targets/a.py" : Text) ∈ (belowBase tree ({} : Config).sourceRoot ({} : Config).includes
        ({} : Config).ignores table).files ∧
      ("./src/vendor/b.py" : Text) ∉ (belowBase tree ({} : Config).sourceRoot ({} : Config).includes
        ({} : Config).ignores table).files := by
  let tree := (Tree.empty.add ["my_vendor", "targets", "a.py"] (.text [])).add ["src", "vendor", "b.py"] (.text [])
  let table := LanguageTable.empty.insertExtension "py" "python"
  have hwhole : tree.WalksWhole ({} : Config).sourceRoot := by
    have hall : ∀ e ∈ tree.entries, (e.1.foldl Path.join "./", e.2) ∈ tree.met [] "./" := by decide +kernel
    exact fun place entry hmem => hall (place, entry) hmem
  have hfiles := (files_usual tree table).1 hwhole
  refine ⟨tree, table, hwhole, (hfiles _).mpr ?_, fun hmem => ?_⟩
  · exact ⟨["my_vendor", "targets", "a.py"], .text [], by decide +kernel, rfl, by decide, by decide, by decide⟩
  · obtain ⟨place, entry, hentry, -, hname, -, hfolders⟩ := (hfiles _).mp hmem
    have hall : ∀ e ∈ tree.entries, ("./src/vendor/b.py" : Text) = "./" ++ Text.join ['/'] e.1 →
        ("vendor" : Text) ∈ e.1.dropLast := by decide +kernel
    exact hfolders _ (hall _ hentry hname) (by decide)

end Discovery
end Marginalia
