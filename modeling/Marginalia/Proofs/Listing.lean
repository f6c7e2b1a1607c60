import Mathlib.Data.List.Induction
import Marginalia.Proofs.Aliases

/-! What a walk lists. A step of a path stays, goes up or goes on to something that is there, so a path to a file
ends in the name of the file. A walk lists the files at and below a place by the path it starts from and the
names that lead on, and these lead on: a listed file is there to be read, unless its path has become too long. -/

namespace Marginalia

namespace Path

theorem isName_iff {s : Text} : isName s = true ↔
    isIdleStep s = false ∧ s ≠ ['.', '.'] ∧ '/' ∉ s ∧ '\x00' ∉ s ∧ fitsName s = true := by
  simp [isName, and_assoc]

theorem splitOn_join_step (p : Text) {s : Text} (hs : isStep s = true) :
    ∃ front, Text.splitOn '/' (join p s) = front ++ [s] := by
  have hsplit := Text.splitOn_of_notMem (isStep_iff.mp hs).2
  rw [join_eq_append (isAbsolute_of_isStep hs)]
  rcases join_nil_cases p with h | ⟨q, h⟩
  · exact ⟨[], by rw [h, List.nil_append, hsplit, List.nil_append]⟩
  · refine ⟨Text.splitOn '/' q, ?_⟩
    rw [h, List.append_assoc, List.singleton_append, Text.splitOn_append_sep, hsplit]

/-- The last step of a path is its last part, if it is a name. -/
theorem exists_parts_of_getLast? {p s : Text} (hs : isName s = true)
    (h : (Text.splitOn '/' p).getLast? = some s) : ∃ before, parts p = before ++ [.name s] := by
  obtain ⟨front, hsplit⟩ := List.getLast?_eq_some_iff.mp h
  obtain ⟨hidle, hup, -⟩ := isName_iff.mp hs
  have hpart : Part.ofStep s = .name s := if_neg hup
  rw [parts, hsplit]
  cases front with
  | nil =>
      have hhere : s ≠ ['.'] := by rintro rfl; cases hidle
      have hnil : s ≠ [] := by rintro rfl; cases hidle
      exact ⟨[], by simp [hhere, hnil, hpart]⟩
  | cons first front =>
      have hlast : ([s].filter fun step => !isIdleStep step).map Part.ofStep = [.name s] := by simp [hidle, hpart]
      simp only [List.cons_append, List.filter_append, List.map_append, hlast]
      generalize (front.filter fun step => !isIdleStep step).map Part.ofStep = later
      split
      · exact ⟨.here :: later, rfl⟩
      split
      · split
        · exact ⟨.root :: later, rfl⟩
        · exact ⟨later, rfl⟩
      · exact ⟨.ofStep first :: later, rfl⟩

theorem fileName?_of_getLast? {p s : Text} (hs : isName s = true)
    (h : (Text.splitOn '/' p).getLast? = some s) : fileName? p = some s := by
  obtain ⟨before, hparts⟩ := exists_parts_of_getLast? hs h
  rw [fileName?, hparts, List.getLast?_concat]

end Path

namespace Tree

variable {tree : Tree} {start place names : Location} {entry : Entry} {path file s : Text}

/-- What is somewhere is in a folder. -/
theorem get?_dropLast (h : tree.get? place = some entry) : tree.get? place.dropLast = some .folder := by
  by_cases hroot : place = []
  · rw [hroot]
    rfl
  rcases tree.housed _ (mem_entries_of_get? hroot h) with hnil | hmem
  · rw [hnil]
    rfl
  · exact get?_of_mem_entries hmem

theorem get?_of_append (h : tree.get? (place ++ names) = some entry) (hne : names ≠ []) :
    tree.get? place = some .folder := by
  induction names using List.reverseRecOn generalizing entry with
  | nil => exact absurd rfl hne
  | append_singleton front last ih =>
      rw [← List.append_assoc] at h
      have hfront := get?_dropLast h
      rw [List.dropLast_concat] at hfront
      by_cases hnil : front = []
      · rw [hnil, List.append_nil] at hfront
        exact hfront
      · exact ih hfront hnil

/-- A step stays, goes up or goes on, and always from a folder. -/
theorem step_cases (h : tree.step start s = .ok place) : tree.get? start = some .folder ∧
    (place = start ∨ place = start.dropLast ∨ (place = start ++ [s] ∧ (tree.get? place).isSome = true)) := by
  unfold step at h
  split at h
  · next hfolder =>
    refine ⟨hfolder, ?_⟩
    split at h
    · cases h
      exact .inl rfl
    split at h
    · split at h
      · cases h
      · cases h
        exact .inr (.inl rfl)
    split at h
    · cases h
    split at h
    · next hsome =>
      cases h
      exact .inr (.inr ⟨rfl, hsome⟩)
    · cases h
  · cases h
  · cases h

theorem exists_get?_of_step (h : tree.step start s = .ok place) : ∃ entry, tree.get? place = some entry := by
  obtain ⟨hfolder, rfl | rfl | ⟨-, hsome⟩⟩ := step_cases h
  · exact ⟨_, hfolder⟩
  · exact ⟨_, get?_dropLast hfolder⟩
  · exact Option.isSome_iff_exists.mp hsome

/-- A file is reached by its name. -/
theorem eq_concat_of_step (hstep : tree.step start s = .ok place) (hget : tree.get? place = some entry)
    (hfile : entry.isFile = true) : place = start ++ [s] := by
  have hnot : tree.get? place ≠ some .folder := by
    intro hfolder
    cases hget.symm.trans hfolder
    cases hfile
  obtain ⟨hfolder, rfl | rfl | ⟨hplace, -⟩⟩ := step_cases hstep
  · exact absurd hfolder hnot
  · exact absurd (get?_dropLast hfolder) hnot
  · exact hplace

theorem step_of_isName (hs : Path.isName s = true) (hfolder : tree.get? start = some .folder) :
    tree.step start s =
      if (tree.get? (start ++ [s])).isSome = true then .ok (start ++ [s]) else .error .notFound := by
  obtain ⟨hidle, hup, -, -, hfits⟩ := Path.isName_iff.mp hs
  rw [step, hfolder]
  simp [hidle, hup, hfits]

theorem step_idle (hs : Path.isIdleStep s = true) (hfolder : tree.get? start = some .folder) :
    tree.step start s = .ok start := by
  rw [step, hfolder]
  exact if_pos hs

theorem eq_of_step_idle (hs : Path.isIdleStep s = true) (h : tree.step start s = .ok place) : place = start := by
  rw [step_idle hs (step_cases h).1] at h
  exact (Except.ok.inj h).symm

theorem eq_concat_of_step_name (hidle : Path.isIdleStep s = false) (hup : s ≠ ['.', '.'])
    (h : tree.step start s = .ok place) : place = start ++ [s] := by
  rw [step, (step_cases h).1] at h
  simp only [hidle, hup, Bool.false_eq_true, if_false] at h
  split at h
  · cases h
  split at h
  · exact (Except.ok.inj h).symm
  · cases h

theorem foldlM_filter (h : names.foldlM tree.step start = .ok place) :
    (names.filter fun s => !Path.isIdleStep s).foldlM tree.step start = .ok place := by
  induction names generalizing start with
  | nil => exact h
  | cons s names ih =>
      obtain ⟨next, hstep, hrest⟩ := exists_of_bind_eq_ok h
      cases hidle : Path.isIdleStep s with
      | true =>
          obtain rfl := eq_of_step_idle hidle hstep
          rw [List.filter_cons_of_neg (by simp [hidle])]
          exact ih hrest
      | false =>
          rw [List.filter_cons_of_pos (by simp [hidle]), List.foldlM_cons, hstep]
          exact ih hrest

theorem foldlM_step_concat {front : List Text} : (front ++ [s]).foldlM tree.step start = .ok place ↔
    ∃ folder, front.foldlM tree.step start = .ok folder ∧ tree.step folder s = .ok place := by
  rw [List.foldlM_append]
  constructor
  · intro h
    obtain ⟨folder, hfolder, hlast⟩ := exists_of_bind_eq_ok h
    obtain ⟨next, hstep, hend⟩ := exists_of_bind_eq_ok hlast
    cases hend
    exact ⟨folder, hfolder, hstep⟩
  · rintro ⟨folder, hfolder, hstep⟩
    rw [hfolder]
    show [s].foldlM tree.step folder = _
    rw [List.foldlM_cons, hstep]
    rfl

/-! ### Where the steps of a path lead -/

/-- The steps of a path lead to a place. The path may be too long to be used. -/
structure Leads (tree : Tree) (path : Text) (place : Location) : Prop where
  noNul : '\x00' ∉ path
  relative : path ≠ [] ∧ Path.isAbsolute path = false
  walk : (Text.splitOn '/' path).foldlM tree.step [] = .ok place

theorem leads_of_locate (h : tree.locate path = .ok place) : tree.Leads path place ∧ Path.fits path = true := by
  unfold locate stepsOf at h
  split at h
  · cases h
  next hnul =>
  split at h
  · cases h
  next hfits =>
  split at h
  · cases h
  next hempty =>
  simp only [Bool.or_eq_true, List.isEmpty_iff, not_or, Bool.not_eq_true] at hempty
  refine ⟨⟨by simpa using hnul, hempty, h⟩, by simpa using hfits⟩

theorem Leads.locate_eq (h : tree.Leads path place) :
    tree.locate path = if Path.fits path = true then .ok place else .error .tooLong := by
  have hnul : path.elem '\x00' = false := by simpa using h.noNul
  have hempty : (path.isEmpty || Path.isAbsolute path) = false := by simpa using h.relative
  rw [locate, stepsOf, hnul, hempty]
  by_cases hfits : Path.fits path = true
  · rw [if_pos hfits, hfits]
    exact h.walk
  · rw [if_neg hfits, Bool.eq_false_iff.mpr hfits]
    rfl

/-- A path that ends in a name leads to something of that name. -/
theorem exists_of_locate_join (hs : Path.isName s = true) (h : tree.locate (Path.join path s) = .ok place) :
    ∃ folder, place = folder ++ [s] ∧ (tree.get? place).isSome = true := by
  obtain ⟨front, hsplit⟩ := Path.splitOn_join_step path (Path.isStep_of_isName hs)
  have hwalk := (leads_of_locate h).1.walk
  rw [hsplit] at hwalk
  obtain ⟨folder, -, hstep⟩ := foldlM_step_concat.mp hwalk
  rw [step_of_isName hs (step_cases hstep).1] at hstep
  split at hstep
  · next hsome =>
    cases hstep
    exact ⟨folder, rfl, hsome⟩
  · cases hstep

/-- A path to a file ends in the name of the file. -/
theorem Leads.getLast? (h : tree.Leads path place) (hget : tree.get? place = some entry)
    (hfile : entry.isFile = true) : (Text.splitOn '/' path).getLast? = place.getLast? := by
  obtain ⟨front, last, hsplit⟩ := (List.eq_nil_or_concat _).resolve_left (Text.splitOn_ne_nil '/' path)
  rw [List.concat_eq_append] at hsplit
  have hwalk := h.walk
  rw [hsplit] at hwalk
  obtain ⟨folder, -, hstep⟩ := foldlM_step_concat.mp hwalk
  rw [hsplit, eq_concat_of_step hstep hget hfile, List.getLast?_concat, List.getLast?_concat]

/-- The steps of a relative path behind another one are taken from the place that one leads to. -/
theorem Leads.foldlM_join {rest : Text} (h : tree.Leads path place) (hrest : Path.isAbsolute rest = false) :
    (Text.splitOn '/' (Path.join path rest)).foldlM tree.step [] =
      (Text.splitOn '/' rest).foldlM tree.step place := by
  have hwalk := h.walk
  rw [Path.join_eq_append hrest, Path.join_nil]
  split
  · next hends =>
    obtain ⟨q, rfl⟩ := List.getLast?_eq_some_iff.mp (hends.resolve_left h.relative.1)
    rw [Text.splitOn_append_sep] at hwalk
    obtain ⟨start, hstart, hidle⟩ := foldlM_step_concat.mp hwalk
    -- The empty step behind the slash leads nowhere else.
    obtain rfl := eq_of_step_idle rfl hidle
    rw [List.append_assoc, List.singleton_append, Text.splitOn_append_sep, List.foldlM_append, hstart]
    rfl
  · rw [List.append_assoc, List.singleton_append, Text.splitOn_append_sep, List.foldlM_append, hwalk]
    rfl

theorem Leads.join_of_foldlM {rest : Text} {next : Location} (h : tree.Leads path place)
    (hrest : Path.isAbsolute rest = false) (hnul : '\x00' ∉ rest)
    (hwalk : (Text.splitOn '/' rest).foldlM tree.step place = .ok next) : tree.Leads (Path.join path rest) next where
  noNul := by
    have hfront := h.noNul
    rw [Path.join_eq_append hrest, Path.join_nil]
    split <;> simp [hfront, hnul]
  relative := ⟨Path.join_ne_nil h.relative.1 hrest, Path.isAbsolute_join h.relative.2 hrest⟩
  walk := (h.foldlM_join hrest).trans hwalk

theorem Leads.join (h : tree.Leads path place) (hget : tree.get? (place ++ [s]) = some entry) :
    tree.Leads (Path.join path s) (place ++ [s]) := by
  have hs := isName_of_get? hget List.mem_concat_self
  obtain ⟨-, -, hslash, hnul, -⟩ := Path.isName_iff.mp hs
  refine h.join_of_foldlM (Path.isAbsolute_of_isStep (Path.isStep_of_isName hs)) hnul ?_
  rw [Text.splitOn_of_notMem hslash, ← List.nil_append [s]]
  refine foldlM_step_concat.mpr ⟨place, rfl, ?_⟩
  rw [step_of_isName hs (get?_of_append hget (List.cons_ne_nil _ _)), hget]
  rfl

theorem Leads.foldl_join (h : tree.Leads path place) (hget : tree.get? (place ++ names) = some entry) :
    tree.Leads (names.foldl Path.join path) (place ++ names) := by
  induction names generalizing path place with
  | nil => rwa [List.append_nil]
  | cons s names ih =>
      rw [List.append_cons] at hget ⊢
      refine ih ?_ hget
      by_cases hnil : names = []
      · rw [hnil, List.append_nil] at hget
        exact h.join hget
      · exact h.join (get?_of_append hget hnil)

/-! ### What a walk lists -/

theorem mem_met : (file, entry) ∈ tree.met place path ↔
    ∃ names, (names, entry) ∈ tree.below place ∧ Path.fits (names.dropLast.foldl Path.join path) = true ∧
      file = names.foldl Path.join path := by
  rw [met, List.mem_map]
  constructor
  · rintro ⟨⟨names, found⟩, hmem, heq⟩
    cases heq
    obtain ⟨hbelow, hfits⟩ := List.mem_filter.mp hmem
    exact ⟨names, hbelow, hfits, rfl⟩
  · rintro ⟨names, hbelow, hfits, rfl⟩
    exact ⟨(names, entry), List.mem_filter.mpr ⟨hbelow, hfits⟩, rfl⟩

variable (tree) in
/-- A walk from a path lists a file. -/
def Lists (path file : Text) : Prop := ∃ found, tree.walk? path = some found ∧ file ∈ found.1

theorem lists_of_folder (hlocate : tree.locate path = .ok place) (hfolder : tree.get? place = some .folder) :
    tree.Lists path file ↔ ∃ entry, entry.isFile = true ∧ (file, entry) ∈ tree.met place path := by
  rw [Lists, walk?, hlocate]
  simp only [hfolder, Option.some.injEq, exists_eq_left', List.partition_eq_filter_filter, List.mem_map,
    List.mem_filter]
  constructor
  · rintro ⟨⟨found, entry⟩, ⟨hmet, hfile⟩, rfl⟩
    exact ⟨entry, hfile, hmet⟩
  · rintro ⟨entry, hfile, hmet⟩
    exact ⟨(file, entry), ⟨hmet, hfile⟩, rfl⟩

theorem lists_of_file (hlocate : tree.locate path = .ok place) (hget : tree.get? place = some entry)
    (hfile : entry.isFile = true) : tree.Lists path file ↔ file = path := by
  rw [Lists, walk?, hlocate]
  simp only [hget]
  cases entry with
  | folder => cases hfile
  | _ => simp

theorem exists_locate_of_lists (h : tree.Lists path file) :
    ∃ place entry, tree.locate path = .ok place ∧ tree.get? place = some entry := by
  obtain ⟨found, hwalk, -⟩ := h
  rw [walk?] at hwalk
  cases hlocate : tree.locate path with
  | error fault => rw [hlocate] at hwalk; cases hwalk
  | ok place =>
      rw [hlocate] at hwalk
      cases hget : tree.get? place with
      | none => simp [hget] at hwalk
      | some entry => exact ⟨place, entry, rfl, hget⟩

/-- A walk from a path lists the files at and below the place that the path leads to, each by the path and the
names that lead on from there, if the path of the folder it is in can be used. -/
theorem lists_iff : tree.Lists path file ↔
    ∃ place names entry, tree.locate path = .ok place ∧ tree.get? (place ++ names) = some entry ∧
      entry.isFile = true ∧ file = names.foldl Path.join path ∧
      Path.fits (names.dropLast.foldl Path.join path) = true := by
  constructor
  · intro hlists
    obtain ⟨place, entry, hlocate, hget⟩ := exists_locate_of_lists hlists
    cases hfile : entry.isFile with
    | true =>
        refine ⟨place, [], entry, hlocate, by rwa [List.append_nil], hfile, ?_, (leads_of_locate hlocate).2⟩
        exact (lists_of_file hlocate hget hfile).mp hlists
    | false =>
        obtain rfl : entry = .folder := by
          cases entry with
          | folder => rfl
          | _ => cases hfile
        obtain ⟨inner, hinner, hmet⟩ := (lists_of_folder hlocate hget).mp hlists
        obtain ⟨names, hbelow, hfits, rfl⟩ := mem_met.mp hmet
        obtain ⟨-, hmem⟩ := mem_below.mp hbelow
        exact ⟨place, names, inner, hlocate, get?_of_mem_entries hmem, hinner, rfl, hfits⟩
  · rintro ⟨place, names, entry, hlocate, hget, hfile, rfl, hfits⟩
    by_cases hnames : names = []
    · subst hnames
      rw [List.append_nil] at hget
      exact (lists_of_file hlocate hget hfile).mpr rfl
    · refine (lists_of_folder hlocate (get?_of_append hget hnames)).mpr ⟨entry, hfile, mem_met.mpr ?_⟩
      have hmem := mem_entries_of_get? (List.append_ne_nil_of_right_ne_nil _ hnames) hget
      exact ⟨names, mem_below.mpr ⟨hnames, hmem⟩, hfits, rfl⟩

/-- A listed file exists, so it can be read unless its path is too long. -/
theorem locate_of_lists (h : tree.Lists path file) : tree.locate file ≠ .error .notFound := by
  obtain ⟨place, names, entry, hlocate, hget, -, rfl, -⟩ := lists_iff.mp h
  rw [((leads_of_locate hlocate).1.foldl_join hget).locate_eq]
  split <;> nofun

end Tree

namespace Discovery

variable {tree : Tree} {list : IgnoreList} {table : LanguageTable} {base file path : Text}

theorem mem_walk : file ∈ (walk tree list table path).1 ↔
    tree.Lists path file ∧ list.ignores file = false ∧ (table.languageOf? file).isSome = true := by
  rw [walk, Tree.Lists]
  cases tree.walk? path with
  | none => simp
  | some found => simp [List.mem_filter]

theorem mem_belowBase {includes ignores : List Text} : file ∈ (belowBase tree base includes ignores table).files ↔
    ∃ root ∈ roots tree base includes, tree.Lists root file ∧
      (IgnoreList.ofEntries base ignores).ignores file = false ∧ (table.languageOf? file).isSome = true := by
  simp only [belowBase, mem_merge_map, mem_walk]

theorem exists_of_mem_includedPaths {entry root : Text} (hpattern : Glob.isPattern entry = true)
    (h : root ∈ includedPaths tree base entry) :
    ∃ paths, (Glob.folders tree (Path.join base entry)).toOption = some paths ∧ root ∈ paths := by
  rw [includedPaths, if_pos hpattern] at h
  cases hfolders : (Glob.folders tree (Path.join base entry)).toOption with
  | none => rw [hfolders] at h; cases h
  | some paths => exact ⟨paths, rfl, by rwa [hfolders] at h⟩

end Discovery
end Marginalia
