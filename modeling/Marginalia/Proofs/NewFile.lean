import Marginalia.Proofs.Listing

/-! A tree that gains a file in its root. A path leads where it led before, unless it leads to the new file or
tries to lead on from it, and such a path led nowhere before. So a walk lists what it listed before and at most
the new file besides, what was listed is read as before, and what is written elsewhere is written to both trees
alike. -/

namespace Marginalia.Tree

/-- One tree is another one with one more file in its root. -/
structure Gains (tree after : Tree) (name text : Text) : Prop where
  fresh : tree.get? [name] = none
  mem_entries : ∀ e, e ∈ after.entries ↔ e ∈ tree.entries ∨ e = ([name], .text text)

/-- A path leads where it led before, and that is not the new file. Or it led nowhere, and leads to the new file
or tries to lead on from there. -/
def Follows (name : Text) (before now : Except PathFault Location) : Prop :=
  (now = before ∧ before ≠ .ok [name]) ∨
    (before = .error .notFound ∧ (now = .ok [name] ∨ now = .error .notAFolder))

namespace Gains

variable {tree after : Tree} {name text : Text} (h : tree.Gains after name text)

include h

theorem isName_new : Path.isName name = true :=
  (after.named _ ((h.mem_entries _).mpr (.inr rfl))).2 name List.mem_cons_self

theorem get?_new : after.get? [name] = some (.text text) :=
  get?_of_mem_entries ((h.mem_entries _).mpr (.inr rfl))

theorem get?_of_ne {place : Location} (hne : place ≠ [name]) : after.get? place = tree.get? place := by
  by_cases hroot : place = []
  · rw [hroot]
    rfl
  apply Option.ext
  intro entry
  constructor
  · intro hget
    rcases (h.mem_entries _).mp (mem_entries_of_get? hroot hget) with hmem | heq
    · exact get?_of_mem_entries hmem
    · cases heq
      exact absurd rfl hne
  · intro hget
    exact get?_of_mem_entries ((h.mem_entries _).mpr (.inl (mem_entries_of_get? hroot hget)))

theorem step_new (s : Text) : after.step [name] s = .error .notAFolder := by
  rw [step, h.get?_new]

theorem step_of_ne {place : Location} {s : Text} (hplace : place ≠ [name]) (hnew : place ++ [s] ≠ [name]) :
    after.step place s = tree.step place s := by
  rw [step, step, h.get?_of_ne hplace, h.get?_of_ne hnew]

theorem hasRoom_iff {place : Location} {s : Text} (hplace : place ≠ [name]) (hnew : place ++ [s] ≠ [name]) :
    after.hasRoom place s ↔ tree.hasRoom place s := by
  rw [hasRoom, hasRoom, h.get?_of_ne hplace, h.get?_of_ne hnew]

theorem follows_step {place : Location} (hplace : place ≠ [name]) (s : Text) :
    Follows name (tree.step place s) (after.step place s) := by
  by_cases hnew : place ++ [s] = [name]
  · obtain ⟨rfl, rfl⟩ : place = [] ∧ s = name := by simpa [List.append_eq_singleton_iff] using hnew
    rw [step_of_isName h.isName_new rfl, step_of_isName h.isName_new rfl, List.nil_append, h.fresh, h.get?_new]
    exact .inr ⟨rfl, .inl rfl⟩
  · refine .inl ⟨h.step_of_ne hplace hnew, fun hlast => ?_⟩
    obtain ⟨entry, hget⟩ := exists_get?_of_step hlast
    cases h.fresh.symm.trans hget

theorem follows_foldlM (steps : List Text) {start : Location} (hstart : start ≠ [name]) :
    Follows name (steps.foldlM tree.step start) (steps.foldlM after.step start) := by
  induction steps generalizing start with
  | nil => exact .inl ⟨rfl, fun heq => hstart (Except.ok.inj heq)⟩
  | cons s steps ih =>
      rw [List.foldlM_cons, List.foldlM_cons]
      rcases h.follows_step hstart s with ⟨hsame, hne⟩ | ⟨hold, hnew⟩
      · rw [hsame]
        cases hstep : tree.step start s with
        | error fault => exact .inl ⟨rfl, nofun⟩
        | ok next =>
            refine ih ?_
            rintro rfl
            exact hne hstep
      · rw [hold]
        refine .inr ⟨rfl, ?_⟩
        rcases hnew with hnew | hnew
        · rw [hnew]
          cases steps with
          | nil => exact .inl rfl
          | cons next steps =>
              refine .inr ?_
              show (next :: steps).foldlM after.step [name] = _
              rw [List.foldlM_cons, h.step_new]
              rfl
        · rw [hnew]
          exact .inr rfl

theorem follows_locate (path : Text) : Follows name (tree.locate path) (after.locate path) := by
  rw [locate, locate]
  cases stepsOf path with
  | error fault =>
      refine .inl ⟨rfl, fun heq => ?_⟩
      cases heq
  | ok steps => exact h.follows_foldlM steps (List.cons_ne_nil name []).symm

theorem locate_eq_ok {path : Text} {place : Location} (hlocate : tree.locate path = .ok place) :
    after.locate path = .ok place ∧ after.get? place = tree.get? place := by
  rcases h.follows_locate path with ⟨hsame, hold⟩ | ⟨hold, -⟩
  · refine ⟨hsame.trans hlocate, h.get?_of_ne ?_⟩
    rintro rfl
    exact hold hlocate
  · rw [hlocate] at hold
    cases hold

theorem find?_of_ne {path : Text} (hne : after.locate path ≠ .ok [name]) : after.find? path = tree.find? path := by
  rw [find?, find?]
  cases hlocate : tree.locate path with
  | ok place =>
      obtain ⟨hafter, hget⟩ := h.locate_eq_ok hlocate
      rw [hafter]
      exact hget
  | error fault =>
      rcases h.follows_locate path with ⟨hsame, -⟩ | ⟨-, hnew | hnew⟩
      · rw [hsame, hlocate]
        rfl
      · exact absurd hnew hne
      · rw [hnew]
        rfl

theorem read_eq {path : Text} (hfound : tree.locate path ≠ .error .notFound) : after.read path = tree.read path := by
  rw [read, read]
  cases hlocate : tree.locate path with
  | ok place =>
      obtain ⟨hafter, hget⟩ := h.locate_eq_ok hlocate
      simp only [hafter, bind, Except.bind, hget]
  | error fault =>
      rcases h.follows_locate path with ⟨hsame, -⟩ | ⟨hold, -⟩
      · rw [hsame, hlocate]
        rfl
      · exact absurd hold hfound

theorem lists_of_lists {path file : Text} (hlists : tree.Lists path file) : after.Lists path file := by
  obtain ⟨place, names, entry, hlocate, hget, hfile, rfl, hfits⟩ := lists_iff.mp hlists
  refine lists_iff.mpr ⟨place, names, entry, (h.locate_eq_ok hlocate).1, ?_, hfile, rfl, hfits⟩
  rw [h.get?_of_ne, hget]
  intro hnew
  rw [hnew, h.fresh] at hget
  cases hget

theorem fileName?_of_leads {path : Text} (hleads : after.Leads path [name]) : Path.fileName? path = some name :=
  Path.fileName?_of_getLast? h.isName_new (hleads.getLast? h.get?_new rfl)

/-- A walk lists nothing new but the new file. -/
theorem lists_cases {path file : Text} (hlists : after.Lists path file) :
    tree.Lists path file ∨ Path.fileName? file = some name := by
  obtain ⟨place, names, entry, hlocate, hget, hfile, rfl, hfits⟩ := lists_iff.mp hlists
  by_cases hnew : place ++ names = [name]
  · refine .inr (h.fileName?_of_leads ?_)
    exact hnew ▸ (leads_of_locate hlocate).1.foldl_join hget
  · refine .inl (lists_iff.mpr ⟨place, names, entry, ?_, ?_, hfile, rfl, hfits⟩)
    · rcases h.follows_locate path with ⟨hsame, -⟩ | ⟨-, hlast | hlast⟩
      · rw [← hsame, hlocate]
      · cases hlocate.symm.trans hlast
        have hne : names ≠ [] := fun hnil => hnew (by rw [hnil, List.append_nil])
        have hfolder := get?_of_append hget hne
        cases h.get?_new.symm.trans hfolder
      · cases hlocate.symm.trans hlast
    · rw [← h.get?_of_ne hnew, hget]

end Gains

/-! ### Writing -/

section

variable {tree after changed : Tree} {folder : Location} {name new text : Text} {entry : Entry}

theorem put?_eq_some (h : tree.put? folder new entry = some changed) :
    ∀ e, e ∈ changed.entries ↔ (e ∈ tree.entries ∧ e.1 ≠ folder ++ [new]) ∨ e = (folder ++ [new], entry) := by
  intro e
  obtain ⟨hroom, heq⟩ := Option.dite_none_right_eq_some.mp h
  cases heq
  show e ∈ tree.entriesWith (folder ++ [new]) entry ↔ _
  rw [entriesWith, List.mem_append, mem_entriesApartFrom, List.mem_singleton]

/-- What is put elsewhere is put into both trees. -/
theorem Gains.put? (h : tree.Gains after name text) {changed' : Tree} (hplace : folder ++ [new] ≠ [name])
    (hput : tree.put? folder new entry = some changed) (hput' : after.put? folder new entry = some changed') :
    changed.Gains changed' name text := by
  constructor
  · rw [Option.eq_none_iff_forall_not_mem]
    intro found hfound
    rcases (put?_eq_some hput _).mp (mem_entries_of_get? (List.cons_ne_nil _ _) hfound) with ⟨hmem, -⟩ | heq
    · cases h.fresh.symm.trans (get?_of_mem_entries hmem)
    · exact hplace (Prod.mk.inj heq).1.symm
  · intro e
    rw [put?_eq_some hput', put?_eq_some hput, h.mem_entries]
    constructor
    · rintro (⟨hmem | rfl, hne⟩ | rfl)
      · exact .inl (.inl ⟨hmem, hne⟩)
      · exact .inr rfl
      · exact .inl (.inr rfl)
    · rintro ((⟨hmem, hne⟩ | rfl) | rfl)
      · exact .inl ⟨.inl hmem, hne⟩
      · exact .inr rfl
      · exact .inl ⟨.inr rfl, fun heq => hplace heq.symm⟩

theorem gains_put? (hfresh : tree.get? [name] = none) (hput : tree.put? [] name (.text text) = some after) :
    tree.Gains after name text := by
  refine ⟨hfresh, fun e => ?_⟩
  rw [put?_eq_some hput, List.nil_append]
  refine or_congr_left ⟨And.left, fun hmem => ⟨hmem, fun heq => ?_⟩⟩
  obtain ⟨place, entry⟩ := e
  cases heq
  cases hfresh.symm.trans (get?_of_mem_entries hmem)

theorem dropIdle_eq {steps : List Text} (h : (steps.getLast? == some []) = false) :
    (steps.reverse.dropWhile List.isEmpty).reverse = steps := by
  rcases List.eq_nil_or_concat steps with rfl | ⟨front, last, rfl⟩
  · rfl
  · rw [List.concat_eq_append] at h ⊢
    rw [List.getLast?_concat] at h
    have hlast : last.isEmpty = false := by
      cases last with
      | nil => cases h
      | cons c s => rfl
    rw [List.reverse_concat, List.dropWhile_cons, hlast]
    simp

/-- Writing a text once the folder is found. -/
def writeIn (tree : Tree) (endsInSlash : Bool) (folder : Location) (name text : Text) : Except PathFault Tree :=
  if Path.isIdleStep name || name = ['.', '.'] then (tree.step folder name).bind fun _ => .error .isAFolder
  else if tree.get? folder != some .folder then .error .notAFolder
  else if endsInSlash then .error .isAFolder
  else if !Path.fitsName name then .error .tooLong
  else
    match tree.put? folder name (.text text) with
    | some tree => .ok tree
    | none => .error .isAFolder

theorem write_eq (path : Text) : tree.write path text = (stepsOf path).bind fun steps =>
    let named := (steps.reverse.dropWhile List.isEmpty).reverse
    (named.dropLast.foldlM tree.step []).bind fun folder =>
      tree.writeIn (steps.getLast? == some []) folder (named.getLast?.getD []) text := rfl

/-- Two trees that a text was written to differ as before, or it could be written to neither. -/
def Gains.Alike (name text : Text) (before now : Except PathFault Tree) : Prop :=
  (∃ changed changed', before = .ok changed ∧ now = .ok changed' ∧ changed.Gains changed' name text) ∨
    ∃ fault fault', before = .error fault ∧ now = .error fault' ∧
      (fault' = fault ∨ (fault = .notFound ∧ fault' = .notAFolder))

theorem Gains.alike_error (fault : PathFault) : Gains.Alike name text (.error fault) (.error fault) :=
  .inr ⟨fault, fault, rfl, rfl, .inl rfl⟩

theorem Gains.alike_writeIn (h : tree.Gains after name text) {endsInSlash : Bool} (hfolder : folder ≠ [name])
    (hnew : endsInSlash = false → folder ++ [new] ≠ [name]) (content : Text) :
    Gains.Alike name text (tree.writeIn endsInSlash folder new content)
      (after.writeIn endsInSlash folder new content) := by
  rw [writeIn, writeIn, h.get?_of_ne hfolder]
  split
  · next hidle =>
    have hplace : folder ++ [new] ≠ [name] := by
      intro heq
      obtain ⟨-, rfl⟩ : folder = [] ∧ new = name := by simpa [List.append_eq_singleton_iff] using heq
      obtain ⟨hnotIdle, hup, -⟩ := Path.isName_iff.mp h.isName_new
      simp [hnotIdle, hup] at hidle
    rw [h.step_of_ne hfolder hplace]
    cases tree.step folder new with
    | error fault => exact alike_error fault
    | ok next => exact alike_error .isAFolder
  split
  · exact alike_error .notAFolder
  split
  · exact alike_error .isAFolder
  next hslash =>
  split
  · exact alike_error .tooLong
  have hplace := hnew (Bool.not_eq_true _ ▸ hslash)
  have hroom := h.hasRoom_iff hfolder hplace
  cases hput : tree.put? folder new (.text content) with
  | none =>
      have hput' : after.put? folder new (.text content) = none := by
        rw [Tree.put?, dite_eq_right_iff] at hput ⊢
        exact fun hroom' => nomatch hput (hroom.mp hroom')
      rw [hput']
      exact alike_error .isAFolder
  | some changed =>
      obtain ⟨changed', hput'⟩ : ∃ changed', after.put? folder new (.text content) = some changed' := by
        obtain ⟨hroom', -⟩ := Option.dite_none_right_eq_some.mp hput
        exact ⟨_, dif_pos (hroom.mpr hroom')⟩
      rw [hput']
      exact .inl ⟨changed, changed', rfl, rfl, h.put? hplace hput hput'⟩

/-- A path that does not end in a slash and leads to the folder of the new file and then to its name. -/
theorem Gains.foldlM_eq_new (h : tree.Gains after name text) {steps : List Text}
    (hfolder : steps.dropLast.foldlM after.step [] = .ok folder)
    (hlast : folder ++ [steps.getLast?.getD []] = [name]) : steps.foldlM after.step [] = .ok [name] := by
  obtain ⟨rfl, hname⟩ : folder = [] ∧ steps.getLast?.getD [] = name := by
    simpa [List.append_eq_singleton_iff] using hlast
  rcases List.eq_nil_or_concat steps with rfl | ⟨front, last, rfl⟩
  · cases hname
    cases h.isName_new
  · rw [List.concat_eq_append] at hfolder hname ⊢
    rw [List.dropLast_concat] at hfolder
    rw [List.getLast?_concat, Option.getD_some] at hname
    refine foldlM_step_concat.mpr ⟨[], hfolder, ?_⟩
    rw [hname, step_of_isName h.isName_new rfl, List.nil_append, h.get?_new]
    rfl

/-- A text that is not written to the new file is written to both trees or to neither. -/
theorem Gains.alike_write (h : tree.Gains after name text) {path : Text} (hpath : after.locate path ≠ .ok [name])
    (content : Text) : Gains.Alike name text (tree.write path content) (after.write path content) := by
  rw [write_eq, write_eq]
  rw [locate] at hpath
  cases hsteps : stepsOf path with
  | error fault => exact alike_error fault
  | ok steps =>
      rw [hsteps] at hpath
      simp only [Except.bind]
      generalize hnamed : (steps.reverse.dropWhile List.isEmpty).reverse = named
      rcases h.follows_foldlM named.dropLast (List.cons_ne_nil name []).symm with
        ⟨hsame, hold⟩ | ⟨hold, hnew | hnew⟩
      · cases hfolder : named.dropLast.foldlM tree.step [] with
        | error fault =>
            rw [hsame, hfolder]
            exact alike_error fault
        | ok folder =>
            rw [hfolder] at hsame hold
            rw [hsame]
            refine h.alike_writeIn (fun heq => hold (heq ▸ rfl)) (fun hslash heq => hpath ?_) content
            -- Without a slash at its end the path has these steps and no others.
            obtain rfl : steps = named := (dropIdle_eq hslash).symm.trans hnamed
            exact h.foldlM_eq_new hsame heq
      · rw [hold, hnew]
        refine .inr ⟨.notFound, .notAFolder, rfl, ?_, .inr ⟨rfl, rfl⟩⟩
        dsimp only
        rw [writeIn, h.step_new, h.get?_new]
        split <;> rfl
      · rw [hold, hnew]
        exact .inr ⟨_, _, rfl, rfl, .inr ⟨rfl, rfl⟩⟩

end

end Marginalia.Tree
