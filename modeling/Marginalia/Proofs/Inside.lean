import Marginalia.Proofs.Places

/-! Includes and the base they are relative to. The tree inside a folder has the entries below the folder, named from
there on, and a scan of the folder is compared with one of that tree. A plain include is joined to the base and leads
to the same place. A pattern is read together with the base as one pattern, so it selects the same folders if the
base is read as nothing but steps. A base with wildcards in its name is not: it stands for other folders as well, or
for others only. -/

namespace Marginalia

namespace Tree

variable {tree : Tree} {place names : Location}

/-- The tree inside a folder. -/
def inside (tree : Tree) (place : Location) : Tree where
  entries := tree.below place
  distinct := by
    rw [below_eq, List.pairwise_filterMap]
    refine tree.distinct.imp fun {a b} hne e he e' he' heq => hne ?_
    rw [(below?_eq_some.mp he).2, (below?_eq_some.mp he').2, heq]
  named := by
    rintro ⟨names, entry⟩ he
    obtain ⟨hne, hmem⟩ := mem_below.mp he
    exact ⟨hne, fun name hname => (tree.named _ hmem).2 name (List.mem_append_right _ hname)⟩
  housed := by
    rintro ⟨names, entry⟩ he
    obtain ⟨hne, hmem⟩ := mem_below.mp he
    by_cases hroot : names.dropLast = []
    · exact .inl hroot
    · refine .inr (mem_below.mpr ⟨hroot, ?_⟩)
      have hhoused := tree.housed _ hmem
      dsimp only at hhoused
      rw [List.dropLast_append_of_ne_nil hne] at hhoused
      exact hhoused.resolve_left (List.append_ne_nil_of_right_ne_nil _ hroot)

/-- The place, named from the root, that a path leads to from inside a folder. -/
def locateInside (tree : Tree) (place : Location) (path : Text) : Except PathFault Location :=
  ((tree.inside place).locate path).map (place ++ ·)

theorem get?_inside (hfolder : tree.get? place = some .folder) (names : Location) :
    (tree.inside place).get? names = tree.get? (place ++ names) := by
  by_cases hnil : names = []
  · rw [hnil, List.append_nil, hfolder]
    rfl
  · have hplace : place ++ names ≠ [] := List.append_ne_nil_of_right_ne_nil _ hnil
    refine Option.ext fun entry => ⟨fun h => ?_, fun h => ?_⟩
    · exact get?_of_mem_entries (mem_below.mp (mem_entries_of_get? hnil h)).2
    · exact get?_of_mem_entries (mem_below.mpr ⟨hnil, mem_entries_of_get? hplace h⟩)

theorem below_inside (tree : Tree) (place names : Location) :
    (tree.inside place).below names = tree.below (place ++ names) := by
  rw [below_eq, below_eq]
  show (tree.entries.filterMap (below? place)).filterMap (below? names) = _
  rw [List.filterMap_filterMap]
  refine congrArg (List.filterMap · tree.entries) (funext fun e => Option.ext fun found => ?_)
  rw [Option.bind_eq_some_iff]
  simp only [below?_eq_some]
  constructor
  · rintro ⟨inner, ⟨-, rfl⟩, hne, rfl⟩
    exact ⟨hne, by rw [List.append_assoc]⟩
  · rintro ⟨hne, rfl⟩
    exact ⟨_, ⟨List.append_ne_nil_of_right_ne_nil names hne, by rw [List.append_assoc]⟩, hne, rfl⟩

theorem children_inside (tree : Tree) (place names : Location) :
    (tree.inside place).children names = tree.children (place ++ names) := by
  rw [children, children, below_inside]

/-- A step that does not lead up is the same from inside. -/
theorem step_inside (hfolder : tree.get? place = some .folder) {s : Text} (hup : s ≠ ['.', '.']) :
    tree.step (place ++ names) s = ((tree.inside place).step names s).map (place ++ ·) := by
  rw [step, step, get?_inside hfolder, get?_inside hfolder, List.append_assoc]
  cases tree.get? (place ++ names) with
  | none => rfl
  | some entry =>
      cases entry with
      | folder =>
          simp only [if_neg hup]
          split
          · rfl
          split
          · rfl
          split <;> rfl
      | _ => rfl

theorem foldlM_inside (hfolder : tree.get? place = some .folder) {steps : List Text} (hup : ['.', '.'] ∉ steps) :
    steps.foldlM tree.step (place ++ names) = (steps.foldlM (tree.inside place).step names).map (place ++ ·) := by
  induction steps generalizing names with
  | nil => rfl
  | cons s steps ih =>
      rw [List.mem_cons, not_or] at hup
      rw [List.foldlM_cons, List.foldlM_cons, step_inside hfolder (Ne.symm hup.1)]
      cases (tree.inside place).step names s with
      | error fault => rfl
      | ok next => exact ih hup.2

end Tree

namespace Glob

/-- What a pattern selects in a folder is what it selects inside. -/
theorem placesFrom_inside {tree : Tree} {place names : Location} {patterns : List Pattern}
    (hfolder : tree.get? place = some .folder) (hpatterns : ∀ p ∈ patterns, Inward p) :
    placesFrom tree patterns (place ++ names) = (placesFrom (tree.inside place) patterns names).map (place ++ ·) := by
  fun_induction placesFrom (tree.inside place) patterns names with
  | case1 names =>
      rw [placesFrom]
      rfl
  | case2 names =>
      rw [placesFrom, Tree.below_inside, List.map_map]
      refine List.map_congr_left fun e _ => ?_
      exact List.append_assoc place names e.1
  | case3 names pattern patterns ih =>
      have hlater := (List.forall_mem_cons.mp (List.forall_mem_cons.mp hpatterns).2).2
      rw [placesFrom, Tree.below_inside, List.map_flatMap]
      refine List.flatMap_congr fun e _ => ?_
      rw [List.append_assoc]
      exact ih e hlater
  | case4 pattern patterns names hpattern name hname next hstep ih =>
      obtain ⟨hfirst, hlater⟩ := List.forall_mem_cons.mp hpatterns
      rw [placesFrom_literal hname, Tree.step_inside hfolder (hfirst.literal name hname).2, hstep]
      exact ih hlater
  | case5 pattern patterns names hpattern name hname fault hstep =>
      have hup := ((hpatterns pattern List.mem_cons_self).literal name hname).2
      rw [placesFrom_literal hname, Tree.step_inside hfolder hup, hstep]
      rfl
  | case6 pattern patterns names hpattern hname hget ih =>
      have hlater := (List.forall_mem_cons.mp hpatterns).2
      rw [Tree.get?_inside hfolder] at hget
      rw [placesFrom_wild hname hpattern, if_pos hget, Tree.children_inside, List.map_flatMap]
      refine List.flatMap_congr fun e _ => ?_
      rw [List.append_assoc]
      exact ih e hlater
  | case7 pattern patterns names hpattern hname hget =>
      rw [Tree.get?_inside hfolder] at hget
      rw [placesFrom_wild hname hpattern, if_neg hget]
      rfl

/-! ### Following the base -/

/-- The first piece that is not a `.` is not empty. -/
def opensNamed (p : Text) : Bool := ((pieces p).dropWhile (· == ['.'])).head? != some []

theorem frontNamed_of_mapM {texts : List Text} {parsed : List Pattern} (h : texts.mapM parse = .ok parsed)
    (hopens : (texts.dropWhile (· == ['.'])).head? ≠ some []) : frontNamed (withoutRuns parsed) = true := by
  induction texts generalizing parsed with
  | nil =>
      cases h
      rfl
  | cons s texts ih =>
      obtain ⟨p, later, hp, hlater, rfl⟩ := exists_of_mapM_cons h
      by_cases hhere : s = ['.']
      · subst hhere
        rw [parse, parseFrom_of_not_isWild rfl] at hp
        cases hp
        have hcons : withoutRuns ([.char '.'] :: later) = [.char '.'] :: withoutRuns later :=
          @withoutRuns_append [[.char '.']] (by decide) later
        show frontNamed (withoutRuns ([.char '.'] :: later)) = true
        rw [hcons]
        exact ih hlater hopens
      · rw [List.dropWhile_cons_of_neg (by simpa using hhere)] at hopens
        obtain ⟨rest, hrest⟩ := exists_withoutRuns_eq_cons p later
        rw [hrest, frontNamed, if_neg]
        · cases p with
          | nil => exact absurd (eq_of_literal?_parseFrom hp rfl) fun hnil => hopens (by rw [← hnil]; rfl)
          | cons token p => rfl
        · rintro rfl
          exact hhere (eq_of_literal?_parseFrom hp rfl).symm

theorem frontNamed_literals {base : Text} (hbase : isWild base = false) (hopens : opensNamed base = true) :
    frontNamed (literals base) = true := by
  have hruns := withoutRuns_append (anySteps_notMem_literals base) []
  rw [List.append_nil] at hruns
  have hfront := frontNamed_of_mapM (mapM_parse_pieces hbase) (bne_iff_ne.mp hopens)
  rwa [hruns, withoutRuns, List.foldr_nil, List.append_nil] at hfront

theorem bytes_foldl_descend_le (texts : List Text) (path : Text) :
    Text.bytes (texts.foldl descend path) ≤ Text.bytes path + Location.bytes texts := by
  induction texts generalizing path with
  | nil => exact Nat.le_add_right _ _
  | cons s texts ih =>
      have hstep := bytes_descend_le path s
      have hlater := ih (descend path s)
      rw [List.foldl_cons, Location.bytes_cons]
      omega

/-- Steps that lead to a place are followed there. -/
theorem expandFrom_follow {tree : Tree} {texts : List Text} {path : Text} {place next : Location}
    (hleads : tree.Leads path place) (hslash : ∀ s ∈ texts, '/' ∉ s)
    (hfront : Path.parts path = [.here] → frontNamed (texts.map fun s => s.map .char) = true)
    (hbytes : Text.bytes path + Location.bytes texts ≤ Path.maxBytes)
    (hwalk : texts.foldlM tree.step place = .ok next) : tree.Leads (texts.foldl descend path) next ∧
      ∀ patterns, expandFrom tree (texts.map (fun s => s.map .char) ++ patterns) path =
        expandFrom tree patterns (texts.foldl descend path) := by
  induction texts generalizing path place with
  | nil =>
      cases hwalk
      exact ⟨hleads, fun patterns => rfl⟩
  | cons s texts ih =>
      obtain ⟨hs, hlater⟩ := List.forall_mem_cons.mp hslash
      obtain ⟨mid, hstep, hrest⟩ := exists_of_bind_eq_ok hwalk
      have hne : Path.parts path = [.here] → s ≠ [] := fun hhere =>
        ne_nil_of_frontNamed (hfront hhere) (literal?_map_char s)
      have hdescend := bytes_descend_le path s
      rw [Location.bytes_cons] at hbytes
      have hfollowed : isFollowed tree path s = true :=
        isFollowed_of_step hleads hs hne (decide_eq_true (by omega)) (decide_eq_true (by omega)) hstep
      obtain ⟨hend, hexpand⟩ := ih ((hleads.descend_iff hs hne).mpr hstep) hlater
        (frontNamed_descend hleads.relative hfront (literal?_map_char s) hs) (by omega) hrest
      refine ⟨hend, fun patterns => ?_⟩
      rw [List.map_cons, List.cons_append, expandFrom_literal, if_pos hfollowed]
      exact hexpand patterns

end Glob

/-! ### Room for the names -/

theorem Location.bytes_splitOn (s : Text) : Location.bytes (Text.splitOn '/' s) = Text.bytes s + 1 := by
  induction s using Text.splitOn_induction '/' with
  | last s hs =>
      rw [Text.splitOn_of_notMem hs]
      rfl
  | cut first rest hfirst ih =>
      have hslash : Char.utf8Size '/' = 1 := rfl
      rw [Text.splitOn_cut hfirst, bytes_cons, ih, Text.bytes_append, Text.bytes_cons, hslash]
      omega

theorem Location.bytes_append (front names : Location) :
    Location.bytes (front ++ names) = Location.bytes front + Location.bytes names := by
  induction front with
  | nil => exact (Nat.zero_add _).symm
  | cons s front ih => rw [List.cons_append, bytes_cons, bytes_cons, ih, Nat.add_assoc _ _ (Location.bytes names)]

theorem Location.bytes_pieces_le (s : Text) : Location.bytes (Glob.pieces s) ≤ Text.bytes s + 1 := by
  rw [← Location.bytes_splitOn, Glob.pieces]
  split
  · next hlast =>
    obtain ⟨front, hsplit⟩ := List.getLast?_eq_some_iff.mp (beq_iff_eq.mp hlast)
    rw [hsplit, List.dropLast_concat, Location.bytes_append]
    exact Nat.le_add_right _ _
  · exact Nat.le_refl _

namespace Glob

theorem literalBytes_withoutRuns_le (patterns : List Pattern) :
    literalBytes (withoutRuns patterns) ≤ literalBytes patterns := by
  induction patterns with
  | nil => exact Nat.le_refl _
  | cons p patterns ih =>
      rw [withoutRuns_cons]
      split
      · exact Nat.le_trans ih (Nat.le_add_left _ _)
      · exact Nat.add_le_add_left ih _

theorem literalBytes_le_of_mapM {texts : List Text} {patterns : List Pattern} (h : texts.mapM parse = .ok patterns) :
    literalBytes patterns ≤ Location.bytes texts := by
  induction texts generalizing patterns with
  | nil =>
      cases h
      exact Nat.le_refl _
  | cons s texts ih =>
      obtain ⟨p, later, hp, hlater, rfl⟩ := exists_of_mapM_cons h
      rw [literalBytes_cons, Location.bytes_cons]
      refine Nat.add_le_add ?_ (ih hlater)
      cases hliteral : literal? p with
      | none => exact Nat.zero_le _
      | some name =>
          rw [eq_of_literal?_parseFrom hp hliteral]
          exact Nat.le_refl _

end Glob

namespace Tree

variable {tree : Tree} {place : Location}

/-- Paths have room for that many bytes and for the names of everything below the place. -/
def FitsBelow (tree : Tree) (place : Location) (bytes : Nat) : Prop :=
  bytes ≤ Path.maxBytes ∧ ∀ e ∈ tree.below place, bytes + Location.bytes e.1 ≤ Path.maxBytes

instance (tree : Tree) (place : Location) (bytes : Nat) : Decidable (tree.FitsBelow place bytes) :=
  inferInstanceAs (Decidable (_ ∧ _))

theorem FitsBelow.le {bytes : Nat} (h : tree.FitsBelow place bytes) {names : Location}
    (hget : (tree.get? (place ++ names)).isSome = true) : bytes + Location.bytes names ≤ Path.maxBytes := by
  by_cases hnil : names = []
  · rw [hnil]
    exact h.1
  · obtain ⟨entry, hentry⟩ := Option.isSome_iff_exists.mp hget
    have hplace : place ++ names ≠ [] := List.append_ne_nil_of_right_ne_nil _ hnil
    exact h.2 (names, entry) (mem_below.mpr ⟨hnil, mem_entries_of_get? hplace hentry⟩)

theorem FitsBelow.inside {bytes bytes' : Nat} (h : tree.FitsBelow place bytes) (hle : bytes' ≤ bytes) :
    (tree.inside place).FitsBelow [] bytes' := by
  refine ⟨Nat.le_trans hle h.1, fun e he => ?_⟩
  rw [below_inside, List.append_nil] at he
  exact Nat.le_trans (Nat.add_le_add_right hle _) (h.2 e he)

theorem leads_here (tree : Tree) : tree.Leads ['.'] [] := ⟨by decide, by decide, rfl⟩

theorem notMem_of_foldlM {path : Text} {next : Location}
    (h : (Text.splitOn '/' path).foldlM tree.step place = .ok next) : '\x00' ∉ path := by
  induction path using Text.splitOn_induction '/' generalizing place with
  | last s hs =>
      rw [Text.splitOn_of_notMem hs, foldlM_singleton] at h
      exact notMem_of_step h
  | cut first rest hfirst ih =>
      rw [Text.splitOn_cut hfirst] at h
      obtain ⟨mid, hstep, hrest⟩ := exists_of_bind_eq_ok h
      simp [notMem_of_step hstep, ih hrest]

theorem foldlM_pieces {base : Text} (h : tree.Leads base place) :
    (Glob.pieces base).foldlM tree.step [] = .ok place := by
  have hwalk := h.walk
  unfold Glob.pieces
  split
  · next hlast =>
    obtain ⟨front, hsplit⟩ := List.getLast?_eq_some_iff.mp (beq_iff_eq.mp hlast)
    rw [hsplit] at hwalk ⊢
    obtain ⟨folder, hfront, hstep⟩ := foldlM_step_concat.mp hwalk
    rw [List.dropLast_concat, hfront, eq_of_step_idle rfl hstep]
  · exact hwalk

end Tree

namespace Discovery

/-- A relative include that stays below the base. If it is a pattern, none of its wildcards come after a dot, and
neither it nor the base has an empty step before its first name; and the base has no wildcards. -/
structure StaysBelow (base entry : Text) : Prop where
  relative : Path.isAbsolute entry = false
  noUp : ['.', '.'] ∉ Text.splitOn '/' entry
  base : Glob.isPattern entry = true → Glob.isWild base = false ∧ Glob.opensNamed base = true
  entry : Glob.isPattern entry = true → Glob.opensNamed entry = true ∧
    ∀ piece ∈ Glob.pieces entry, piece.head? = some '.' → Glob.isWild piece = false

variable {tree : Tree} {base entry : Text} {place : Location}

theorem StaysBelow.inward (h : StaysBelow base entry) (hpattern : Glob.isPattern entry = true)
    {patterns : List Glob.Pattern} (hpatterns : Glob.patterns? entry = some patterns) :
    ∀ p ∈ patterns, Glob.Inward p := by
  refine Glob.forall_of_patterns? (fun piece hpiece p hp => ⟨fun name hname => ?_, fun hwild hhead => ?_⟩) hpatterns
  · have hsplit := Glob.mem_of_mem_pieces hpiece
    rw [Glob.eq_of_literal?_parseFrom hp hname]
    exact ⟨Text.notMem_of_mem_splitOn hsplit, fun hup => h.noUp (hup ▸ hsplit)⟩
  · have hplain := (h.entry hpattern).2 piece hpiece (Glob.head?_of_parseFrom hp hhead)
    rw [Glob.parse, Glob.parseFrom_of_not_isWild hplain] at hp
    cases hp
    rw [Glob.literal?_map_char] at hwild
    cases hwild

section

variable (h : StaysBelow base entry) (hlocate : tree.locate base = .ok place)
  (hroom : tree.FitsBelow place (Text.bytes base + Text.bytes entry + 3))

include h hlocate hroom

/-- The base is followed to its place, and there is room for what the pattern adds. -/
theorem StaysBelow.arrives (hpattern : Glob.isPattern entry = true) {patterns : List Glob.Pattern}
    (hpatterns : Glob.patterns? entry = some patterns) : Glob.Arrives tree patterns (Glob.spelled base) place ∧
      Glob.expandFrom tree (Glob.literals base ++ patterns) ['.'] =
        Glob.expandFrom tree patterns (Glob.spelled base) := by
  obtain ⟨hbase, hopens⟩ := h.base hpattern
  obtain ⟨parsed, hparsed, rfl⟩ := Glob.exists_of_patterns? hpatterns
  have hdot : Text.bytes ['.'] = 1 := rfl
  have hsplit := Location.bytes_pieces_le base
  have hslash : ∀ s ∈ Glob.pieces base, '/' ∉ s := fun s hs => Text.notMem_of_mem_splitOn (Glob.mem_of_mem_pieces hs)
  have hleads := (Tree.leads_of_locate hlocate).1
  have hlimit := hroom.1
  -- The bound on the spelling counts the `.` it starts from and one slash too many, and the limit leaves room for both.
  obtain ⟨hend, hexpand⟩ := Glob.expandFrom_follow tree.leads_here hslash
    (fun _ => Glob.frontNamed_literals hbase hopens) (by omega) (Tree.foldlM_pieces hleads)
  refine ⟨⟨hend, fun names hnames => ?_⟩, hexpand _⟩
  have hroom := hroom.le hnames
  have hspelled : Text.bytes (Glob.spelled base) ≤ _ := Glob.bytes_foldl_descend_le (Glob.pieces base) ['.']
  have hruns := Glob.literalBytes_withoutRuns_le parsed
  have hliterals := Glob.literalBytes_le_of_mapM hparsed
  have hentry := Location.bytes_pieces_le entry
  omega

/-- The folders that a pattern behind the base stands for are those it selects from the place of the base. -/
theorem StaysBelow.locate_pattern (hpattern : Glob.isPattern entry = true) :
    (includedPaths tree base entry).map tree.locate = (Glob.patterns? entry).elim [] fun patterns =>
      ((Glob.placesFrom tree patterns place).filter fun found => tree.get? found == some .folder).map .ok := by
  obtain ⟨hbase, -⟩ := h.base hpattern
  rw [includedPaths, if_pos hpattern, Glob.folders_toOption, Glob.patterns?_join hbase h.relative, Option.map_map]
  cases hpatterns : Glob.patterns? entry with
  | none => rfl
  | some patterns =>
      obtain ⟨parsed, hparsed, heq⟩ := Glob.exists_of_patterns? hpatterns
      have hfront : Glob.frontNamed patterns = true :=
        heq ▸ Glob.frontNamed_of_mapM hparsed (bne_iff_ne.mp (h.entry hpattern).1)
      obtain ⟨harrives, hexpand⟩ := h.arrives hlocate hroom hpattern hpatterns
      have hplaces := Glob.locate_expandFrom (h.inward hpattern hpatterns) (fun _ => hfront) harrives
      -- Whether a path leads to a folder is read off the place it leads to.
      have hfilter : ∀ paths : List Text, (paths.filter tree.isFolder).map tree.locate =
          (paths.map tree.locate).filter fun found => found.toOption.bind tree.get? == some .folder := fun paths => by
        rw [List.filter_map]
        rfl
      show ((Glob.expandFrom tree (Glob.literals base ++ patterns) ['.']).filter tree.isFolder).map tree.locate = _
      rw [hfilter, hexpand, hplaces, List.filter_map]
      rfl

/-- A plain include leads where its steps lead from the place of the base. -/
theorem StaysBelow.locate_path (hpath : Glob.isPattern entry = false) :
    (includedPaths tree base entry).map tree.locate =
      ((Text.splitOn '/' entry).foldlM tree.step place).toOption.toList.map .ok := by
  have hleads := (Tree.leads_of_locate hlocate).1
  have hjoin := hleads.foldlM_join h.relative
  rw [includedPaths, hpath]
  cases hwalk : (Text.splitOn '/' entry).foldlM tree.step place with
  | error fault =>
      have hnot : ¬ tree.exists? (Path.join base entry) = true := fun hexists => by
        obtain ⟨found, hfind⟩ := Option.isSome_iff_exists.mp hexists
        obtain ⟨next, hnext, -⟩ := Tree.exists_of_find? hfind
        rw [(Tree.leads_of_locate hnext).1.walk, hwalk] at hjoin
        cases hjoin
      simp only [Bool.false_eq_true, if_false, if_neg hnot]
      rfl
  | ok next =>
      have hnext := hleads.join_of_foldlM h.relative (Tree.notMem_of_foldlM hwalk) hwalk
      have hbytes := Path.bytes_join_le base entry
      have hlimit := hroom.1
      have hfits : Path.fits (Path.join base entry) = true := decide_eq_true (by omega)
      have hfound : tree.locate (Path.join base entry) = .ok next := by rw [hnext.locate_eq, if_pos hfits]
      have hexists : tree.exists? (Path.join base entry) = true := by
        rw [Tree.exists?, Tree.find?, hfound]
        exact Option.isSome_iff_exists.mpr hnext.exists_get?
      simp only [Bool.false_eq_true, if_false, if_pos hexists]
      rw [List.map_singleton, hfound]
      rfl

end

theorem StaysBelow.here (h : StaysBelow base entry) : StaysBelow ['.'] entry :=
  ⟨h.relative, h.noUp, fun _ => by decide, h.entry⟩

/-- An include selects in a folder what it selects from inside. -/
theorem StaysBelow.locate_inside (h : StaysBelow base entry) (hlocate : tree.locate base = .ok place)
    (hfolder : tree.get? place = some .folder)
    (hroom : tree.FitsBelow place (Text.bytes base + Text.bytes entry + 3)) :
    (includedPaths tree base entry).map tree.locate =
      (includedPaths (tree.inside place) ['.'] entry).map (tree.locateInside place) := by
  have hdot : Text.bytes ['.'] = 1 := rfl
  have hbase : 0 < Text.bytes base := Text.bytes_pos (Tree.leads_of_locate hlocate).1.relative.1
  have hinside : (tree.inside place).FitsBelow [] (Text.bytes ['.'] + Text.bytes entry + 3) := hroom.inside (by omega)
  have hhere : (tree.inside place).locate ['.'] = .ok [] := rfl
  have hmap : ∀ paths : List Text, paths.map (tree.locateInside place) =
      (paths.map (tree.inside place).locate).map (Except.map (place ++ ·)) := fun paths => by
    rw [List.map_map]
    rfl
  rw [hmap]
  cases hpattern : Glob.isPattern entry with
  | true =>
      rw [h.locate_pattern hlocate hroom hpattern, h.here.locate_pattern hhere hinside hpattern]
      cases hpatterns : Glob.patterns? entry with
      | none => rfl
      | some patterns =>
          have hplaces : Glob.placesFrom tree patterns (place ++ []) = _ :=
            Glob.placesFrom_inside hfolder (h.inward hpattern hpatterns)
          rw [List.append_nil] at hplaces
          have hfolders : (fun found => tree.get? found == some .folder) ∘ (place ++ ·) =
              fun found => (tree.inside place).get? found == some .folder :=
            funext fun found => by rw [Tree.get?_inside hfolder]; rfl
          simp only [Option.elim_some, hplaces, List.filter_map, List.map_map, hfolders]
          rfl
  | false =>
      have hwalk : (Text.splitOn '/' entry).foldlM tree.step (place ++ []) = _ := Tree.foldlM_inside hfolder h.noUp
      rw [List.append_nil] at hwalk
      rw [h.locate_path hlocate hroom hpattern, h.here.locate_path hhere hinside hpattern, hwalk]
      cases (Text.splitOn '/' entry).foldlM (tree.inside place).step [] <;> rfl

/-- What is listed for a base continues its steps, unless the base has wildcards and is read with a pattern. -/
theorem steps_of_mem_belowBase {includes ignores : List Text} {table : LanguageTable} {file : Text}
    (hincludes : ∀ entry ∈ includes, Path.isAbsolute entry = false ∧
      (Glob.isPattern entry = true → Glob.isWild base = false))
    (hfile : file ∈ (belowBase tree base includes ignores table).files) : Path.steps base <+: Path.steps file := by
  obtain ⟨⟨root, hroot, hunder⟩, -⟩ := isListed_belowBase hfile
  obtain ⟨names, -, -, hsteps⟩ := hunder.exists_steps
  suffices hbase : Path.steps base <+: Path.steps root by
    rw [hsteps]
    exact hbase.trans (List.prefix_append _ _)
  unfold roots at hroot
  split at hroot
  · cases List.mem_singleton.mp hroot
    exact List.prefix_refl _
  obtain ⟨entry, hentry, hroot⟩ := List.mem_flatMap.mp hroot
  obtain ⟨hrelative, hwild⟩ := hincludes entry hentry
  cases hpattern : Glob.isPattern entry with
  | true =>
      obtain ⟨paths, hpaths, hmem⟩ := exists_of_mem_includedPaths hpattern hroot
      exact Glob.steps_of_mem_folders (hwild hpattern) hrelative hpaths hmem
  | false =>
      rw [includedPaths, hpattern] at hroot
      cases List.mem_singleton.mp (List.mem_ite_nil_right.mp hroot).2
      rw [Path.steps_join_relative base hrelative]
      exact List.prefix_append _ _

/-- Includes that stay below the base select what they select from inside the base, and what is listed for them
continues the steps of the base. A pattern that can be read from inside can be read behind the base. All this
holds of a base without wildcards, whatever it is called, and of plain includes below any base. -/
theorem roots_eq_inside (tree : Tree) (base : Text) (place : Location) (hlocate : tree.locate base = .ok place)
    (hfolder : tree.get? place = some .folder) :
    (∀ includes, (∀ entry ∈ includes, StaysBelow base entry ∧
        tree.FitsBelow place (Text.bytes base + Text.bytes entry + 3)) →
      (roots tree base includes).map tree.locate =
        (roots (tree.inside place) ['.'] includes).map (tree.locateInside place)) ∧
    (∀ includes ignores table, (∀ entry ∈ includes, Path.isAbsolute entry = false ∧
        (Glob.isPattern entry = true → Glob.isWild base = false)) →
      ∀ file ∈ (belowBase tree base includes ignores table).files, Path.steps base <+: Path.steps file) ∧
    ∀ entry, Path.isAbsolute entry = false → Glob.isWild base = false →
      (Glob.folders tree (Path.join base entry)).toOption.isSome =
        (Glob.folders (tree.inside place) entry).toOption.isSome := by
  refine ⟨fun includes hincludes => ?_, fun includes ignores table hincludes file => steps_of_mem_belowBase hincludes,
    fun entry hentry hbase => ?_⟩
  · unfold roots
    split
    · rw [List.map_singleton, List.map_singleton, hlocate]
      exact congrArg (fun found => [Except.ok found]) (List.append_nil place).symm
    · rw [List.map_flatMap, List.map_flatMap]
      refine List.flatMap_congr fun entry hentry => ?_
      obtain ⟨hbelow, hroom⟩ := hincludes entry hentry
      exact hbelow.locate_inside hlocate hfolder hroom
  · rw [Glob.folders_toOption, Glob.folders_toOption, Glob.patterns?_join hbase hentry, Option.isSome_map,
      Option.isSome_map, Option.isSome_map]

/-- A pattern and a plain include below `app`, and a plain include below `app/[locale]`. -/
theorem roots_eq_inside_app :
    ∃ tree : Tree,
      ((roots tree "app" ["*", "en"]).map tree.locate =
          (roots (tree.inside ["app"]) ['.'] ["*", "en"]).map (tree.locateInside ["app"])) ∧
        roots tree "app" ["*", "en"] = ["app/[locale]", "app/en", "app/en"] ∧
      (∀ file ∈ (belowBase tree "app/[locale]" ["admin"] [] (.insertExtension .empty "py" "python")).files,
          Path.steps "app/[locale]" <+: Path.steps file) ∧
        (belowBase tree "app/[locale]" ["admin"] [] (.insertExtension .empty "py" "python")).files =
          [("app/[locale]/admin/a.py" : Text)] ∧
      (Glob.folders tree "app/*").toOption.isSome = (Glob.folders (tree.inside ["app"]) "*").toOption.isSome := by
  obtain ⟨hroots, -, hreads⟩ := roots_eq_inside
    ((Tree.empty.add ["app", "[locale]", "admin", "a.py"] (.text [])).add ["app", "en", "b.py"] (.text [])) "app"
    ["app"] (by decide +kernel) (by decide +kernel)
  obtain ⟨-, hsteps, -⟩ := roots_eq_inside
    ((Tree.empty.add ["app", "[locale]", "admin", "a.py"] (.text [])).add ["app", "en", "b.py"] (.text []))
    "app/[locale]" ["app", "[locale]"] (by decide +kernel) (by decide +kernel)
  refine ⟨_, hroots ["*", "en"] fun entry hentry => ?_, ?_, hsteps ["admin"] [] _ (by decide), ?_,
    hreads "*" (by decide) (by decide)⟩
  · rcases List.mem_cons.mp hentry with rfl | hentry
    · exact ⟨⟨by decide, by decide, by decide, by decide⟩, by decide +kernel⟩
    · cases List.mem_singleton.mp hentry
      exact ⟨⟨by decide, by decide, by decide, by decide⟩, by decide +kernel⟩
  · decide +kernel
  · decide +kernel

/-- The pattern `*` below `app/[locale]` stands for folders in `app/c` and not for those in the base: what is listed
is not below the base, and nothing is listed that is. -/
theorem not_roots_eq_inside_brackets :
    ∃ tree : Tree, ∃ place : Location, tree.locate "app/[locale]" = .ok place ∧ tree.get? place = some .folder ∧
      (¬ ∀ file ∈ (belowBase tree "app/[locale]" ["*"] [] (.insertExtension .empty "py" "python")).files,
        Path.steps "app/[locale]" <+: Path.steps file) ∧
      (roots tree "app/[locale]" ["*"]).map tree.locate ≠
        (roots (tree.inside place) ['.'] ["*"]).map (tree.locateInside place) := by
  refine ⟨(Tree.empty.add ["app", "[locale]", "admin", "a.py"] (.text [])).add ["app", "c", "admin", "b.py"] (.text []),
    ["app", "[locale]"], ?_, ?_, ?_, ?_⟩
  · decide +kernel
  · decide +kernel
  · decide +kernel
  · decide +kernel

end Discovery
end Marginalia
