import Marginalia.Proofs.Order
import Marginalia.Scan

/-! What becomes of the files of a scan. Every path of a plan is read or is not, and the issues of the files
read and of the paths not read are sorted together. The order of issues does not look at all of an issue, so
two different ones could rank equal; in a scan none do, because no two of its issues are about the same line
of a file or both about the whole of it. The sorted list is therefore strictly increasing, and nothing of
the order in which files were read is left in it. -/

namespace Marginalia

namespace Issue

open Std (TransCmp OrientedCmp)

-- Lists have more than one order instance; the lemmas of the library are about this one.
theorem transCmp_text : TransCmp fun s t : Text => compareOfLessAndEq s t :=
  @Std.TransOrd.compareOfLessAndEq_of_antisymm_of_trans_of_total_of_not_le Text _ List.instLE _ inferInstance _
    List.le_antisymm List.le_trans List.le_total List.not_le

theorem eq_of_compareOfLessAndEq {s t : Text} (h : compareOfLessAndEq s t = .eq) : s = t := by
  unfold compareOfLessAndEq at h
  split at h
  · cases h
  split at h
  · assumption
  · cases h

theorem transCmp_by {α β : Type} {cmp : β → β → Ordering} (h : TransCmp cmp) (f : α → β) :
    TransCmp fun a b => cmp (f a) (f b) where
  eq_swap := h.eq_swap
  isLE_trans := h.isLE_trans

theorem transCmp_then {α : Type} {first second : α → α → Ordering} (hfirst : TransCmp first)
    (hsecond : TransCmp second) : TransCmp fun a b => (first a b).then (second a b) :=
  inferInstanceAs (TransCmp (compareLex first second))

instance : TransCmp order :=
  have hnat : TransCmp fun m n : Nat => compare m n := inferInstance
  transCmp_then (transCmp_by transCmp_text file) <|
    transCmp_then (transCmp_by hnat fun issue : Issue => issue.line?.elim 0 Nat.succ) <|
    transCmp_then (transCmp_by hnat rank) (transCmp_by transCmp_text message)

theorem file_eq_of_order_eq {a b : Issue} (h : a.order b = .eq) : a.file = b.file ∧ a.line? = b.line? := by
  rw [order, Ordering.then_eq_eq, Ordering.then_eq_eq] at h
  obtain ⟨hfile, hline, -⟩ := h
  refine ⟨eq_of_compareOfLessAndEq hfile, ?_⟩
  have hline := Nat.compare_eq_eq.mp hline
  cases ha : a.line? <;> cases hb : b.line? <;> simp_all

/-- The issues are about different files or different lines. -/
def Apart (a b : Issue) : Prop := a.file ≠ b.file ∨ a.line? ≠ b.line?

theorem Apart.symm {a b : Issue} (h : a.Apart b) : b.Apart a := h.imp Ne.symm Ne.symm

theorem Apart.order_ne_eq {a b : Issue} (h : a.Apart b) : a.order b ≠ .eq := by
  intro heq
  obtain ⟨hfile, hline⟩ := file_eq_of_order_eq heq
  exact h.elim (· hfile) (· hline)

theorem perm_sorted (issues : List Issue) : (sorted issues).Perm issues := List.mergeSort_perm issues _

theorem pairwise_isLE_sorted (issues : List Issue) :
    (sorted issues).Pairwise fun a b => (a.order b).isLE = true := by
  apply List.pairwise_mergeSort
  · intro a b c
    exact TransCmp.isLE_trans
  · intro a b
    have hswap : b.order a = (a.order b).swap := OrientedCmp.eq_swap
    rw [hswap]
    cases a.order b <;> rfl

/-- Issues that are all about different places come out in strict order. -/
theorem pairwise_lt_sorted {issues : List Issue} (h : issues.Pairwise Apart) :
    (sorted issues).Pairwise fun a b => a.order b = .lt := by
  have hapart : (sorted issues).Pairwise Apart := ((perm_sorted issues).pairwise_iff Apart.symm).mpr h
  refine ((pairwise_isLE_sorted issues).and hapart).imp fun {a b} ⟨hle, hne⟩ => ?_
  have hne := hne.order_ne_eq
  cases horder : a.order b with
  | lt => rfl
  | eq => exact absurd horder hne
  | gt => simp [horder] at hle

/-- Such issues come out the same in whatever order they come in. -/
theorem sorted_eq_of_perm {issues issues' : List Issue} (h : issues.Pairwise Apart)
    (hperm : issues'.Perm issues) : sorted issues' = sorted issues := by
  have h' : issues'.Pairwise Apart := (hperm.pairwise_iff Apart.symm).mpr h
  refine List.Perm.eq_of_pairwise ?_ (pairwise_lt_sorted h') (pairwise_lt_sorted h)
    ((perm_sorted issues').trans (hperm.trans (perm_sorted issues).symm))
  intro a b _ _ hab hba
  have hswap : a.order b = (b.order a).swap := OrientedCmp.eq_swap
  rw [hswap, hba] at hab
  cases hab

end Issue

namespace Source

theorem file_of_mem_scan {source : Source} {table : LanguageTable} {issue : Issue}
    (h : issue ∈ (source.scan table).issues) : issue.file = source.path := by
  rcases List.mem_append.mp h with h | h
  · obtain ⟨warning, -, rfl⟩ := List.mem_map.mp h
    rfl
  · split at h
    · cases List.mem_singleton.mp h
      rfl
    · cases h

/-- A file has at most one warning on a line, and one more issue that is about no line. -/
theorem pairwise_apart_scan (source : Source) (table : LanguageTable) :
    (source.scan table).issues.Pairwise Issue.Apart := by
  have hwell : (source.extract table).findings.WellFormed source.lines.length :=
    (assemble_wellFormed (table.resolve source.language).style source.lines).anchored _
  refine List.pairwise_append.mpr ⟨List.pairwise_map.mpr ?_, ?_, ?_⟩
  · refine hwell.increasing.imp fun hlt => Or.inr fun heq => ?_
    exact Nat.ne_of_lt hlt (Option.some.inj heq)
  · split
    · exact List.pairwise_singleton _ _
    · exact .nil
  · intro a ha b hb
    obtain ⟨warning, -, rfl⟩ := List.mem_map.mp ha
    split at hb
    · cases List.mem_singleton.mp hb
      exact Or.inr nofun
    · cases hb

end Source

namespace ScanOutcome

variable {tree : Tree} {table : LanguageTable} {path : Text}

theorem ofFile?_eq_some {file : ScannedFile} :
    ofFile? tree table path = some file ↔
      ∃ text, tree.read path = .ok text ∧ file = (Source.detect path text table).scan table := by
  rw [ofFile?]
  cases tree.read path with
  | ok text =>
      constructor
      · intro h
        exact ⟨text, rfl, (Option.some.inj h).symm⟩
      · rintro ⟨_, h, rfl⟩
        cases h
        rfl
  | error fault => exact ⟨nofun, nofun⟩

theorem readError?_eq_some {error : Text × Text} :
    readError? tree path = some error ↔
      ∃ fault, tree.read path = .error fault ∧
        error = (path, "Failed to read " ++ path ++ ": " ++ fault.message) := by
  rw [readError?]
  cases tree.read path with
  | ok text => exact ⟨nofun, nofun⟩
  | error fault =>
      constructor
      · intro h
        exact ⟨fault, rfl, (Option.some.inj h).symm⟩
      · rintro ⟨_, h, rfl⟩
        cases h
        rfl

theorem perm_paths (tree : Tree) (table : LanguageTable) (paths : List Text) :
    ((paths.filterMap (ofFile? tree table)).map ScannedFile.path ++
      (paths.filterMap (readError? tree)).map Prod.fst).Perm paths := by
  induction paths with
  | nil => exact .nil
  | cons path rest ih =>
      cases hread : tree.read path with
      | ok text =>
          have hfile : ofFile? tree table path = some ((Source.detect path text table).scan table) :=
            ofFile?_eq_some.mpr ⟨text, hread, rfl⟩
          have herror : readError? tree path = none := by rw [readError?, hread]
          rw [List.filterMap_cons_some hfile, List.filterMap_cons_none herror]
          exact ih.cons path
      | error fault =>
          have hfile : ofFile? tree table path = none := by rw [ofFile?, hread]
          have herror := readError?_eq_some.mpr ⟨fault, hread, rfl⟩
          rw [List.filterMap_cons_none hfile, List.filterMap_cons_some herror]
          exact List.perm_middle.trans (ih.cons path)

variable {plan : ScanPlan}

theorem exists_of_mem_files {file : ScannedFile} (h : file ∈ (ofPlan tree plan).files) :
    ∃ text, tree.read file.path = .ok text ∧
      file = (Source.detect file.path text plan.table).scan plan.table := by
  obtain ⟨path, -, hfile⟩ := List.mem_filterMap.mp h
  obtain ⟨text, hread, rfl⟩ := ofFile?_eq_some.mp hfile
  exact ⟨text, hread, rfl⟩

theorem exists_of_mem_readErrors {error : Text × Text} (h : error ∈ (ofPlan tree plan).readErrors) :
    ∃ fault, tree.read error.1 = .error fault ∧
      error.2 = "Failed to read " ++ error.1 ++ ": " ++ fault.message := by
  obtain ⟨path, -, herror⟩ := List.mem_filterMap.mp h
  obtain ⟨fault, hread, rfl⟩ := readError?_eq_some.mp herror
  exact ⟨fault, hread, rfl⟩

theorem pairwise_path_files (tree : Tree) (plan : ScanPlan) :
    (ofPlan tree plan).files.Pairwise fun a b => a.path < b.path := by
  refine List.pairwise_filterMap.mpr (plan.ordered.imp fun hlt a ha b hb => ?_)
  obtain ⟨_, -, rfl⟩ := ofFile?_eq_some.mp ha
  obtain ⟨_, -, rfl⟩ := ofFile?_eq_some.mp hb
  exact hlt

theorem pairwise_path_readErrors (tree : Tree) (plan : ScanPlan) :
    (ofPlan tree plan).readErrors.Pairwise fun a b => a.1 < b.1 := by
  refine List.pairwise_filterMap.mpr (plan.ordered.imp fun hlt a ha b hb => ?_)
  obtain ⟨_, -, rfl⟩ := readError?_eq_some.mp ha
  obtain ⟨_, -, rfl⟩ := readError?_eq_some.mp hb
  exact hlt

/-- All that a scan has to complain about, file by file. -/
def unsortedIssues (outcome : ScanOutcome) : List Issue :=
  outcome.files.flatMap ScannedFile.issues ++ outcome.readErrors.map fun error => .readError error.1 error.2

theorem file_of_mem_issues {file : ScannedFile} (hfile : file ∈ (ofPlan tree plan).files) {issue : Issue}
    (h : issue ∈ file.issues) : issue.file = file.path := by
  obtain ⟨text, -, hscan⟩ := exists_of_mem_files hfile
  rw [hscan] at h
  exact Source.file_of_mem_scan h

theorem ne_of_text_lt {s t : Text} (h : s < t) : s ≠ t := by
  rintro rfl
  exact List.lt_irrefl s h

theorem pairwise_apart_unsortedIssues (tree : Tree) (plan : ScanPlan) :
    (ofPlan tree plan).unsortedIssues.Pairwise Issue.Apart := by
  refine List.pairwise_append.mpr ⟨List.pairwise_flatMap.mpr ⟨?_, ?_⟩, List.pairwise_map.mpr ?_, ?_⟩
  · intro file hfile
    obtain ⟨text, -, hscan⟩ := exists_of_mem_files hfile
    rw [hscan]
    exact Source.pairwise_apart_scan _ _
  · refine (pairwise_path_files tree plan).imp_of_mem fun {file other} hfile hother hlt a ha b hb => Or.inl ?_
    rw [file_of_mem_issues hfile ha, file_of_mem_issues hother hb]
    exact ne_of_text_lt hlt
  · exact (pairwise_path_readErrors tree plan).imp fun hlt => Or.inl (ne_of_text_lt hlt)
  · -- A file with issues was read, and one with a read error was not.
    intro a ha b hb
    obtain ⟨file, hfile, ha⟩ := List.mem_flatMap.mp ha
    obtain ⟨error, herror, rfl⟩ := List.mem_map.mp hb
    obtain ⟨text, hread, -⟩ := exists_of_mem_files hfile
    obtain ⟨fault, hunread, -⟩ := exists_of_mem_readErrors herror
    refine Or.inl fun heq => ?_
    rw [file_of_mem_issues hfile ha] at heq
    change file.path = error.1 at heq
    rw [heq, hunread] at hread
    cases hread

theorem pairwise_lt_issues (tree : Tree) (plan : ScanPlan) :
    (ofPlan tree plan).issues.Pairwise fun a b => a.order b = .lt :=
  Issue.pairwise_lt_sorted (pairwise_apart_unsortedIssues tree plan)

/-- What a scan makes of a plan: each path is read or not, once; the files stand in the order of their
paths; and the issues are those of the files and of the unread paths, in strict order, whatever the order in
which they were gathered. -/
structure Accounts (outcome : ScanOutcome) (tree : Tree) (plan : ScanPlan) : Prop where
  once : ∀ path, (outcome.files.map ScannedFile.path).count path + (outcome.readErrors.map Prod.fst).count path =
    if path ∈ plan.files then 1 else 0
  read : ∀ file ∈ outcome.files, ∃ text, tree.read file.path = .ok text ∧
    file = (Source.detect file.path text plan.table).scan plan.table
  unread : ∀ error ∈ outcome.readErrors, ∃ fault, tree.read error.1 = .error fault ∧
    error.2 = "Failed to read " ++ error.1 ++ ": " ++ fault.message
  increasing : outcome.files.Pairwise fun a b => a.path < b.path
  collected : outcome.issues.Perm outcome.unsortedIssues
  strict : outcome.issues.Pairwise fun a b => a.order b = .lt
  anyOrder : ∀ other : ScanOutcome, other.files.Perm outcome.files → other.readErrors.Perm outcome.readErrors →
    other.issues = outcome.issues

theorem count_paths (tree : Tree) (plan : ScanPlan) (path : Text) :
    ((ofPlan tree plan).files.map ScannedFile.path).count path +
      ((ofPlan tree plan).readErrors.map Prod.fst).count path = if path ∈ plan.files then 1 else 0 := by
  have hnodup : plan.files.Nodup := plan.ordered.imp ne_of_text_lt
  rw [← List.count_append, ← hnodup.count]
  exact (perm_paths tree plan.table plan.files).count_eq path

theorem unsortedIssues_perm {outcome other : ScanOutcome} (hfiles : other.files.Perm outcome.files)
    (herrors : other.readErrors.Perm outcome.readErrors) :
    other.unsortedIssues.Perm outcome.unsortedIssues :=
  (hfiles.flatMap_right ScannedFile.issues).append (herrors.map _)

theorem ofPlan_accounts (tree : Tree) (plan : ScanPlan) : (ofPlan tree plan).Accounts tree plan where
  once := count_paths tree plan
  read _ := exists_of_mem_files
  unread _ := exists_of_mem_readErrors
  increasing := pairwise_path_files tree plan
  collected := Issue.perm_sorted _
  strict := pairwise_lt_issues tree plan
  anyOrder _ hfiles herrors :=
    Issue.sorted_eq_of_perm (pairwise_apart_unsortedIssues tree plan) (unsortedIssues_perm hfiles herrors)

end ScanOutcome
end Marginalia
