import Mathlib.Data.List.Infix
import Marginalia.Config.Load
import Marginalia.Proofs.Listing

/-! The search for a configuration. From one folder to the next the search takes a step off the text of the path.
It takes each step off once, so it ends, and where the steps are names it meets the folders above the start, from
the nearest to the root. A `..` leads up, and without it the path leads down again: the search then meets folders
that the path goes through and leaves, and what it finds in one of them counts. -/

namespace Marginalia

namespace Path

/-! ### Taking off the last step -/

theorem dropIdleEnd_suffix (r : Text) : dropIdleEnd r <:+ r := by
  fun_induction dropIdleEnd r with
  | case1 r ih => exact ih.trans (List.suffix_cons _ _)
  | case2 r ih => exact (ih.trans (List.suffix_cons _ _)).trans (List.suffix_cons _ _)
  | case3 r => exact List.suffix_refl r

theorem steps_concat_slash (p : Text) : steps (p ++ ['/']) = steps p := by
  rw [steps_append_slash]
  exact List.append_nil _

theorem steps_dropIdleEnd (r : Text) : steps (dropIdleEnd r).reverse = steps r.reverse := by
  fun_induction dropIdleEnd r with
  | case1 r ih => rw [ih, List.reverse_cons, steps_concat_slash]
  | case2 r ih =>
      have hdot : ('.' :: '/' :: r).reverse = r.reverse ++ '/' :: ['.'] := by simp
      rw [ih, hdot, steps_append_slash]
      exact (List.append_nil _).symm
  | case3 r => rfl

/-- What is left begins with a step that leads somewhere, or is a `.` alone. -/
theorem head_of_dropIdleEnd {r s : Text} {c : Char} (h : dropIdleEnd r = c :: s) :
    c ≠ '/' ∧ (c = '.' → s.head? ≠ some '/') := by
  fun_induction dropIdleEnd r with
  | case1 r ih => exact ih h
  | case2 r ih => exact ih h
  | case3 r hslash hdot =>
      subst h
      refine ⟨fun hc => hslash s (by rw [hc]), fun hc hhead => ?_⟩
      obtain ⟨rest, rfl⟩ := List.head?_eq_some_iff.mp hhead
      exact hdot rest (by rw [hc])

theorem parent?_eq_none {p : Text} (hp : isAbsolute p = false) (h : parent? p = none) : steps p = [] := by
  rw [parent?, hp] at h
  simp only [Bool.false_eq_true, if_false] at h
  split at h
  · next hnil =>
    have hsteps := steps_dropIdleEnd p.reverse
    rw [hnil, List.reverse_reverse] at hsteps
    exact hsteps.symm
  · cases h

theorem isStep_of_head {c : Char} {s : Text} (hc : c ≠ '/') (hs : '/' ∉ s) (hdot : c = '.' → s ≠ []) :
    isStep (c :: s).reverse = true := by
  refine isStep_iff.mpr ⟨?_, by simpa using ⟨hs, hc.symm⟩⟩
  rw [isIdleStep, Bool.or_eq_false_iff]
  refine ⟨by simp, beq_false_of_ne fun heq => ?_⟩
  have hwhole : c :: s = ['.'] := by simpa using congrArg List.reverse heq
  cases hwhole
  exact hdot rfl rfl

/-- The path without its last part is a beginning of it and has one step less, unless it has none. -/
theorem parent?_eq_some {p up : Text} (h : parent? p = some up) :
    up <+: p ∧ ((∃ s, steps p = steps up ++ [s]) ∨ (steps p = [] ∧ up = [])) := by
  unfold parent? at h
  split at h
  · cases h
  split at h
  · cases h
  next c r hends =>
  cases h
  obtain ⟨hc, hdot⟩ := head_of_dropIdleEnd hends
  have hsteps : steps p = steps (c :: r).reverse := by rw [← hends, steps_dropIdleEnd, List.reverse_reverse]
  have hsplit := List.takeWhile_append_dropWhile (p := (· != '/')) (l := r)
  have hname : '/' ∉ r.takeWhile (· != '/') := fun hmem => by
    simpa using List.all_eq_true.mp List.all_takeWhile _ hmem
  generalize r.takeWhile (· != '/') = name at hsplit hname
  constructor
  · have hsuffix : r.dropWhile (· != '/') <:+ p.reverse :=
      ((List.dropWhile_suffix _).trans (List.suffix_cons c r)).trans (hends ▸ dropIdleEnd_suffix p.reverse)
    have hbegins := List.reverse_prefix.mpr ((dropIdleEnd_suffix _).trans hsuffix)
    rwa [List.reverse_reverse] at hbegins
  · have hhead := List.head?_dropWhile_not (· != '/') r
    generalize r.dropWhile (· != '/') = rest at hsplit hhead ⊢
    subst hsplit
    cases rest with
    | nil =>
        rw [hsteps, List.append_nil]
        by_cases hempty : c = '.' ∧ name = []
        · obtain ⟨rfl, rfl⟩ := hempty
          exact .inr ⟨rfl, rfl⟩
        · have hstep := isStep_of_head hc hname fun hcdot hnil => hempty ⟨hcdot, hnil⟩
          exact .inl ⟨_, steps_of_isStep hstep⟩
    | cons d rest =>
        obtain rfl : d = '/' := by simpa using hhead
        have hstep := isStep_of_head hc hname (by rintro hcdot rfl; exact hdot hcdot rfl)
        refine .inl ⟨(c :: name).reverse, ?_⟩
        have hlast : (c :: (name ++ '/' :: rest)).reverse = rest.reverse ++ '/' :: (c :: name).reverse := by simp
        have hrest : ('/' :: rest).reverse = rest.reverse ++ ['/'] := List.reverse_cons
        rw [hsteps, hlast, steps_append_slash, steps_of_isStep hstep, steps_dropIdleEnd, hrest, steps_concat_slash]

theorem bytes_le_join (p : Text) {s : Text} (hs : isAbsolute s = false) :
    Text.bytes p + Text.bytes s ≤ Text.bytes (join p s) := by
  unfold join
  rw [hs]
  split
  · contradiction
  split <;> simp only [Text.bytes_append, Text.bytes_cons] <;> omega

end Path

namespace Tree

variable {tree : Tree} {start place : Location} {names : List Text} {path s : Text}

/-! ### The folder of a path -/

theorem folder_of_foldlM (h : names.foldlM tree.step start = .ok place) (hfolder : tree.get? place = some .folder) :
    tree.get? start = some .folder := by
  cases names with
  | nil =>
      cases h
      exact hfolder
  | cons s names =>
      obtain ⟨next, hstep, -⟩ := exists_of_bind_eq_ok h
      exact (step_cases hstep).1

theorem foldlM_of_filter (h : (names.filter fun s => !Path.isIdleStep s).foldlM tree.step start = .ok place)
    (hfolder : tree.get? place = some .folder) : names.foldlM tree.step start = .ok place := by
  induction names generalizing start with
  | nil => exact h
  | cons s names ih =>
      cases hidle : Path.isIdleStep s with
      | true =>
          rw [List.filter_cons_of_neg (by simp [hidle])] at h
          rw [List.foldlM_cons, step_idle hidle (folder_of_foldlM h hfolder)]
          exact ih h
      | false =>
          rw [List.filter_cons_of_pos (by simp [hidle])] at h
          obtain ⟨next, hstep, hrest⟩ := exists_of_bind_eq_ok h
          rw [List.foldlM_cons, hstep]
          exact ih hrest

/-- The steps of a path lead to a folder. The path may be empty, or too long to be used. -/
structure Enters (tree : Tree) (path : Text) (place : Location) : Prop where
  noNul : '\x00' ∉ path
  relative : Path.isAbsolute path = false
  walk : (Path.steps path).foldlM tree.step [] = .ok place
  folder : tree.get? place = some .folder

theorem enters_of_locate (h : tree.locate path = .ok place) (hfolder : tree.get? place = some .folder) :
    tree.Enters path place where
  noNul := (leads_of_locate h).1.noNul
  relative := (leads_of_locate h).1.relative.2
  walk := foldlM_filter (leads_of_locate h).1.walk
  folder := hfolder

/-- A name behind the path of a folder leads to what has that name in the folder. -/
theorem Enters.locate_join (h : tree.Enters path place) (hs : Path.isName s = true)
    (hfits : Path.fits (Path.join path s) = true) : tree.locate (Path.join path s) =
      if (tree.get? (place ++ [s])).isSome = true then .ok (place ++ [s]) else .error .notFound := by
  have hstep := Path.isStep_of_isName hs
  obtain ⟨-, -, hslash, hnul, -⟩ := Path.isName_iff.mp hs
  have hsteps : stepsOf (Path.join path s) = .ok (Text.splitOn '/' (Path.join path s)) := by
    have hjoin := Path.join_eq_append (p := path) (Path.isAbsolute_of_isStep hstep)
    have hne : Path.join path s ≠ [] := hjoin ▸ List.append_ne_nil_of_right_ne_nil _ (Path.isStep_ne_nil hstep)
    have hclean : '\x00' ∉ Path.join path s := by
      rw [hjoin, Path.join_nil]
      split <;> simp [h.noNul, hnul]
    simp [stepsOf, hclean, hfits, hne, Path.isAbsolute_join h.relative (Path.isAbsolute_of_isStep hstep)]
  obtain ⟨front, hfront, hwalk⟩ : ∃ front, Text.splitOn '/' (Path.join path s) = front ++ [s] ∧
      front.foldlM tree.step [] = .ok place := by
    have hwalk := h.walk
    rw [← Path.steps_join_nil] at hwalk
    rw [Path.join_eq_append (Path.isAbsolute_of_isStep hstep)]
    rcases Path.join_nil_cases path with hnil | ⟨q, hq⟩
    · rw [hnil] at hwalk ⊢
      exact ⟨[], Text.splitOn_of_notMem hslash, hwalk⟩
    · rw [hq] at hwalk ⊢
      rw [Path.steps_concat_slash] at hwalk
      refine ⟨Text.splitOn '/' q, ?_, foldlM_of_filter hwalk h.folder⟩
      rw [List.append_assoc, List.singleton_append, Text.splitOn_append_sep, Text.splitOn_of_notMem hslash]
  rw [locate, hsteps]
  show (Text.splitOn '/' (Path.join path s)).foldlM tree.step [] = _
  rw [hfront, List.foldlM_append, hwalk, ← step_of_isName hs h.folder]
  show [s].foldlM tree.step place = _
  rw [List.foldlM_cons]
  cases tree.step place s <;> rfl

theorem Enters.exists?_join (h : tree.Enters path place) (hs : Path.isName s = true)
    (hfits : Path.fits (Path.join path s) = true) :
    tree.exists? (Path.join path s) = (tree.get? (place ++ [s])).isSome := by
  rw [exists?, find?, h.locate_join hs hfits]
  split
  · rfl
  · next hnone =>
    rw [Option.not_isSome_iff_eq_none.mp hnone]
    rfl

theorem eq_append_of_foldlM (hnames : ['.', '.'] ∉ names) (hidle : ∀ s ∈ names, Path.isIdleStep s = false)
    (h : names.foldlM tree.step start = .ok place) : place = start ++ names := by
  induction names generalizing start with
  | nil =>
      cases h
      exact (List.append_nil _).symm
  | cons s names ih =>
      obtain ⟨next, hstep, hrest⟩ := exists_of_bind_eq_ok h
      rw [List.mem_cons, not_or] at hnames
      obtain ⟨hs, hlater⟩ := List.forall_mem_cons.mp hidle
      have hnext : next = start ++ [s] := eq_concat_of_step_name hs (Ne.symm hnames.1) hstep
      rw [ih hnames.2 hlater hrest, hnext, List.append_assoc, List.singleton_append]

def Has (tree : Tree) (folder : Location) (name : Text) : Prop := (tree.get? (folder ++ [name])).isSome = true

instance (tree : Tree) (folder : Location) (name : Text) : Decidable (tree.Has folder name) :=
  inferInstanceAs (Decidable (_ = true))

end Tree

/-! ### The search -/

namespace Config

/-- A folder at or above a place and strictly nearer to it than another one above it. -/
structure IsNearer (place folder nearer : Location) : Prop where
  above : nearer <+: place
  below : folder <+: nearer
  ne : nearer ≠ folder

/-- A folder that decides nothing: it has neither a configuration nor the mark of a repository. -/
structure Barren (tree : Tree) (folder : Location) : Prop where
  config : ¬ tree.Has folder fileName
  mark : ¬ tree.Has folder ".git"

instance (tree : Tree) (folder : Location) : Decidable (Barren tree folder) :=
  decidable_of_iff (¬ tree.Has folder fileName ∧ ¬ tree.Has folder ".git") ⟨fun h => ⟨h.1, h.2⟩, fun h => ⟨h.1, h.2⟩⟩

/-- What is found for a place is the configuration in the nearest folder that decides, and nothing exactly if every
configuration at or above the place is hidden behind the mark of a repository. -/
structure IsNearest (tree : Tree) (place : Location) (found : Option Text) : Prop where
  nearest : ∀ path, found = some path → ∃ folder, folder <+: place ∧ tree.Has folder fileName ∧
    tree.locate path = .ok (folder ++ [fileName]) ∧ ∀ nearer, IsNearer place folder nearer → Barren tree nearer
  hidden : found = none ↔ ∀ folder, folder <+: place → tree.Has folder fileName →
    ∃ nearer, IsNearer place folder nearer ∧ tree.Has nearer ".git"

/-- Of the folders that a path goes through, those that are not above the place it leads to decide nothing. -/
def LeavesBarren (tree : Tree) (path : Text) (place : Location) : Prop :=
  ∀ front, front <+: Path.steps path → ∀ folder, front.foldlM tree.step [] = .ok folder →
    folder <+: place ∨ Barren tree folder

theorem leavesBarren_iff {tree : Tree} {path : Text} {place : Location} :
    LeavesBarren tree path place ↔ ∀ front ∈ (Path.steps path).inits,
      (front.foldlM tree.step []).toOption.all fun folder => folder <+: place ∨ Barren tree folder := by
  unfold LeavesBarren
  simp only [List.mem_inits]
  refine forall₂_congr fun front _ => ?_
  cases front.foldlM tree.step [] with
  | error fault => exact ⟨fun _ => rfl, fun _ => nofun⟩
  | ok folder =>
      simp only [Except.toOption, Option.all_some, decide_eq_true_eq, Except.ok.injEq]
      exact ⟨fun h => h folder rfl, fun h _ heq => heq ▸ h⟩

instance (tree : Tree) (path : Text) (place : Location) : Decidable (LeavesBarren tree path place) :=
  decidable_of_iff _ leavesBarren_iff.symm

variable {tree : Tree} {place folder nearer : Location} {path up : Text}

theorem IsNearer.not_above (h : IsNearer place folder nearer) : ¬ nearer <+: folder :=
  fun habove => h.ne (habove.eq_of_length_le h.below.length_le)

theorem leavesBarren_of_names (hlocate : tree.locate path = .ok place) (hup : ['.', '.'] ∉ Path.steps path) :
    LeavesBarren tree path place := by
  have hidle : ∀ s ∈ Path.steps path, Path.isIdleStep s = false := fun s hs => by
    simpa using (List.mem_filter.mp hs).2
  have hplace : place = Path.steps path :=
    Tree.eq_append_of_foldlM hup hidle (Tree.foldlM_filter (Tree.leads_of_locate hlocate).1.walk)
  intro front hfront folder hwalk
  have hfolder : folder = front := Tree.eq_append_of_foldlM (fun hmem => hup (hfront.subset hmem))
    (fun s hs => hidle s (hfront.subset hs)) hwalk
  exact .inl (hfolder ▸ hplace ▸ hfront)

/-- The search has come to a folder by a path. The folders above the place that it has passed decide nothing. -/
structure Searching (tree : Tree) (place : Location) (path : Text) (folder : Location) : Prop where
  enters : tree.Enters path folder
  fits : Path.fits (Path.join path fileName) = true
  barren : LeavesBarren tree path place
  passed : ∀ nearer, nearer <+: place → ¬ nearer <+: folder → Barren tree nearer

namespace Searching

variable (h : Searching tree place path folder)

include h

theorem exists?_config : tree.exists? (Path.join path fileName) = true ↔ tree.Has folder fileName := by
  rw [h.enters.exists?_join (by decide) h.fits]
  rfl

theorem exists?_mark : tree.exists? (Path.join path ".git") = true ↔ tree.Has folder ".git" := by
  have hfits : Path.fits (Path.join path ".git") = true := by
    have hconfig := h.fits
    have hlong := Path.bytes_le_join path (s := fileName) rfl
    have hshort := Path.bytes_join_le path ".git"
    have hnames : Text.bytes ".git" + 1 ≤ Text.bytes fileName := by decide
    rw [Path.fits, decide_eq_true_eq] at hconfig ⊢
    omega
  rw [h.enters.exists?_join (by decide) hfits]
  rfl

theorem above (hdecides : ¬ Barren tree folder) : folder <+: place :=
  (h.barren _ (List.prefix_refl _) folder h.enters.walk).resolve_right hdecides

theorem isNearest_config (hconfig : tree.Has folder fileName) :
    IsNearest tree place (some (Path.join path fileName)) where
  nearest := by
    rintro _ ⟨⟩
    refine ⟨folder, h.above fun hbarren => hbarren.config hconfig, hconfig, ?_, fun nearer hnearer => ?_⟩
    · rw [h.enters.locate_join (by decide) h.fits]
      exact if_pos hconfig
    · exact h.passed nearer hnearer.above hnearer.not_above
  hidden := by
    refine ⟨nofun, fun hhidden => ?_⟩
    obtain ⟨nearer, hnearer, hmark⟩ := hhidden folder (h.above fun hbarren => hbarren.config hconfig) hconfig
    exact absurd hmark (h.passed nearer hnearer.above hnearer.not_above).mark

theorem isNearest_mark (hconfig : ¬ tree.Has folder fileName) (hmark : tree.Has folder ".git") :
    IsNearest tree place none where
  nearest := nofun
  hidden := by
    refine ⟨fun _ above habove hfound => ?_, fun _ => rfl⟩
    by_cases hbelow : above <+: folder
    · refine ⟨folder, ⟨h.above fun hbarren => hbarren.mark hmark, hbelow, ?_⟩, hmark⟩
      rintro rfl
      exact hconfig hfound
    · exact absurd hfound (h.passed above habove hbelow).config

theorem isNearest_root (hroot : folder = []) (hconfig : ¬ tree.Has folder fileName) : IsNearest tree place none where
  nearest := nofun
  hidden := by
    refine ⟨fun _ above habove hfound => ?_, fun _ => rfl⟩
    by_cases hbelow : above <+: folder
    · rw [hroot, List.prefix_nil] at hbelow
      rw [hbelow, ← hroot] at hfound
      exact absurd hfound hconfig
    · exact absurd hfound (h.passed above habove hbelow).config

theorem exists_parent (hup : Path.parent? path = some up) :
    ∃ next, (Path.steps up).foldlM tree.step [] = .ok next ∧ tree.get? next = some .folder ∧
      Path.steps up <+: Path.steps path ∧ (folder <+: next ∨ ∃ s, folder = next ++ [s]) := by
  have hwalk := h.enters.walk
  obtain ⟨-, ⟨s, hsteps⟩ | ⟨hsteps, rfl⟩⟩ := Path.parent?_eq_some hup
  · rw [hsteps] at hwalk ⊢
    obtain ⟨next, hnext, hstep⟩ := Tree.foldlM_step_concat.mp hwalk
    obtain ⟨hfolder, hcases⟩ := Tree.step_cases hstep
    refine ⟨next, hnext, hfolder, List.prefix_append _ _, ?_⟩
    rcases hcases with rfl | rfl | ⟨rfl, -⟩
    · exact .inl (List.prefix_refl _)
    · have hdrop : next.dropLast <+: next := List.dropLast_prefix next
      exact .inl hdrop
    · exact .inr ⟨s, rfl⟩
  · rw [hsteps] at hwalk ⊢
    cases hwalk
    exact ⟨[], rfl, rfl, List.prefix_refl _, .inl (List.prefix_refl _)⟩

/-- One step of the search: from a folder that decides nothing to the one that the path without its last step leads
to. That is the folder above it or, where the step was `..`, one inside it. -/
theorem parent (hbarren : Barren tree folder) (hup : Path.parent? path = some up) :
    ∃ next, Searching tree place up next := by
  obtain ⟨next, hwalk, hfolder, hsteps, hnext⟩ := h.exists_parent hup
  obtain ⟨rest, hpath⟩ := (Path.parent?_eq_some hup).1
  refine ⟨next, ⟨?_, ?_, hwalk, hfolder⟩, ?_, fun front hfront => h.barren front (hfront.trans hsteps), ?_⟩
  · exact fun hmem => h.enters.noNul (hpath ▸ List.mem_append_left _ hmem)
  · have hrelative := h.enters.relative
    rw [← hpath] at hrelative
    cases up with
    | nil => rfl
    | cons c up => exact hrelative
  · have hfits := h.fits
    have hshorter := Path.length_lt_of_parent? hup
    obtain ⟨c, rest, rfl⟩ : ∃ c later, rest = c :: later := by
      refine List.exists_cons_of_ne_nil fun hnil => ?_
      rw [← hpath, hnil, List.append_nil] at hshorter
      exact Nat.lt_irrefl _ hshorter
    have hpos := c.utf8Size_pos
    have hlong := Path.bytes_le_join path (s := fileName) rfl
    have hshort := Path.bytes_join_le up fileName
    rw [Path.fits, decide_eq_true_eq] at hfits ⊢
    rw [← hpath, Text.bytes_append, Text.bytes_cons] at hlong
    rw [← hpath] at hfits
    omega
  · intro nearer hnearer hpassed
    by_cases hbelow : nearer <+: folder
    · rcases hnext with hinside | ⟨s, rfl⟩
      · exact absurd (hbelow.trans hinside) hpassed
      · rcases List.prefix_concat_iff.mp hbelow with rfl | hinside
        · exact hbarren
        · exact absurd hinside hpassed
    · exact h.passed nearer hnearer hbelow

end Searching

theorem isNearest_file? (h : Searching tree place path folder) : IsNearest tree place (file? tree path) := by
  fun_induction file? tree path generalizing folder with
  | case1 path target =>
      rename_i hconfig
      exact h.isNearest_config (h.exists?_config.mp hconfig)
  | case2 path target hconfig =>
      rename_i hmark
      exact h.isNearest_mark (mt h.exists?_config.mpr hconfig) (h.exists?_mark.mp hmark)
  | case3 path target hconfig hmark up hup hshorter =>
      rename_i ih
      obtain ⟨next, hnext⟩ := h.parent ⟨mt h.exists?_config.mpr hconfig, mt h.exists?_mark.mpr hmark⟩ hup
      exact ih hnext
  | case4 path target hconfig hmark =>
      rename_i hup
      have hroot := h.enters.walk
      rw [Path.parent?_eq_none h.enters.relative hup] at hroot
      exact h.isNearest_root (Except.ok.inj hroot).symm (mt h.exists?_config.mpr hconfig)

/-- For a folder given by a path the search finds the nearest configuration, unless it comes to a configuration or
the mark of a repository in a folder that the path goes through and leaves again. No such folder is there if the
path goes up nowhere, whatever idle steps it has. -/
theorem file?_isNearest (tree : Tree) (path : Text) (place : Location) (hlocate : tree.locate path = .ok place)
    (hfolder : tree.get? place = some .folder) (hfits : Path.fits (Path.join path fileName) = true) :
    (LeavesBarren tree path place → IsNearest tree place (file? tree path)) ∧
      (['.', '.'] ∉ Path.steps path → LeavesBarren tree path place) := by
  refine ⟨fun hbarren => ?_, leavesBarren_of_names hlocate⟩
  refine isNearest_file? ⟨Tree.enters_of_locate hlocate hfolder, hfits, hbarren, fun nearer habove hnot => ?_⟩
  exact absurd habove hnot

/-- A configuration and a mark in one folder, and another configuration above it. The second path goes through a
folder that decides nothing. -/
theorem file?_isNearest_repository :
    ∃ tree : Tree,
      (IsNearest tree ["repo", "src"] (file? tree "./repo//src/.") ∧
        file? tree "./repo//src/." = some "./repo/.todoctlrc.json") ∧
      IsNearest tree ["repo"] (file? tree "repo/src/..") ∧
        file? tree "repo/src/.." = some "repo/src/../.todoctlrc.json" := by
  let tree := ((((Tree.empty.add ["repo", "src", "a.py"] (.text [])).add ["repo", fileName] (.text "{}")).add
    ["repo", ".git"] .folder).add [fileName] (.text "{}"))
  have hnames := file?_isNearest tree "./repo//src/." ["repo", "src"] (by decide +kernel) (by decide +kernel)
    (by decide +kernel)
  have hleft := file?_isNearest tree "repo/src/.." ["repo"] (by decide +kernel) (by decide +kernel)
    (by decide +kernel)
  exact ⟨tree, ⟨hnames.1 (hnames.2 (by decide)), by decide +kernel⟩, hleft.1 (by decide +kernel), by decide +kernel⟩

/-- The path goes through a folder with a configuration and leads back to the root, which has none. -/
theorem not_file?_isNearest_left :
    ¬ IsNearest (Tree.empty.add ["a", fileName] (.text "{}")) []
      (file? (Tree.empty.add ["a", fileName] (.text "{}")) "a/..") := by
  intro h
  have hfile : file? (Tree.empty.add ["a", fileName] (.text "{}")) "a/.." = some "a/.todoctlrc.json" := by
    decide +kernel
  obtain ⟨folder, hfolder, -, hlocate, -⟩ := h.nearest _ hfile
  rw [List.prefix_nil.mp hfolder] at hlocate
  revert hlocate
  decide +kernel

end Config
end Marginalia
