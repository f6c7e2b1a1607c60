import Marginalia.Config.Validate
import Marginalia.Proofs.Slice
import Marginalia.Proofs.Tagging
import Marginalia.Proofs.Walks

/-! Languages that can recognise a comment. Outside block comments a line is compared with leaders and the
opening delimiter from its first visible character on, and it holds no line break. So the first comment of a
file starts with a text that begins visibly and stays on one line, and a style with such a text finds it.
Validation asks less of the texts of a language: that there is one, and that none is white space only. -/

namespace Marginalia

namespace Text

theorem notMem_of_mem_lines {s line : Text} (h : line ∈ lines s) : '\n' ∉ line := by
  rcases List.mem_append.mp h with h | h
  · obtain ⟨piece, hpiece, rfl⟩ := List.mem_map.mp h
    have hnot := notMem_of_mem_splitOn (List.dropLast_subset _ hpiece)
    rw [dropReturn]
    split
    · exact fun hmem => hnot (List.dropLast_subset _ hmem)
    · exact hnot
  · have hlast := (List.mem_filter.mp h).1
    exact notMem_of_mem_splitOn (List.mem_of_getLast? (Option.mem_toList.mp hlast))

theorem lines_of_notMem {s : Text} (hs : '\n' ∉ s) (hne : s ≠ []) : lines s = [s] := by
  rw [lines, splitOn_of_notMem hs]
  simp [hne]

/-- A line can start with the text, once its indentation is taken off. -/
structure CanStart (s : Text) : Prop where
  ne_nil : s ≠ []
  head : ∀ c ∈ s.head?, isBlank c = false
  oneLine : '\n' ∉ s

theorem canStart_of_trimStart {raw starter rest : Text} (hraw : '\n' ∉ raw) (hne : starter ≠ [])
    (hrest : raw.trimStart = starter ++ rest) : starter.CanStart where
  ne_nil := hne
  head := by
    intro c hc
    have hhead := head_trimStart raw c
    rw [hrest, List.head?_append, hc] at hhead
    exact hhead rfl
  oneLine := by
    intro hmem
    have htrimmed : '\n' ∈ raw.trimStart := hrest ▸ List.mem_append_left rest hmem
    exact hraw ((List.dropWhile_sublist isBlank).mem htrimmed)

end Text

namespace CommentStyle

/-- The texts that start a comment in the style. -/
def starters (style : CommentStyle) : List Text :=
  style.leaders ++ (style.block.map Delimiters.opening).toList

/-- Some line of some file is a comment in the style. -/
def Recognises (style : CommentStyle) : Prop :=
  ∃ text : Text, ∃ tagged ∈ style.tagLines text.lines, ∃ c, tagged.tag = .comment c

variable {style : CommentStyle}

theorem mem_starters_of_block {block : Delimiters} (h : style.block = some block) :
    block.opening ∈ style.starters := by
  rw [starters, h]
  exact List.mem_append_right _ (List.mem_singleton_self _)

/-- A line outside block comments starts with one of the texts, or is no comment and opens none. -/
theorem exists_canStart_or (hstyle : ∀ starter ∈ style.starters, starter ≠ []) {raw : Text} (hraw : '\n' ∉ raw) :
    (∃ starter ∈ style.starters, starter.CanStart) ∨
      (∀ c, (style.tag false raw).1 ≠ .comment c) ∧ (style.tag false raw).2 = false := by
  have hcases := style.tagsOutside raw
  change _ ∨ (∀ c, (style.tagOutside raw).1 ≠ .comment c) ∧ (style.tagOutside raw).2 = false
  generalize style.tagOutside raw = tagged at hcases ⊢
  cases hcases with
  | blank _ => exact .inr ⟨nofun, rfl⟩
  | block block rest _ hblock hrest =>
      have hmem := mem_starters_of_block hblock
      exact .inl ⟨block.opening, hmem, Text.canStart_of_trimStart hraw (hstyle _ hmem) hrest⟩
  | leader leader rest _ _ hleader hrest =>
      have hmem : leader ∈ style.starters := List.mem_append_left _ (List.mem_of_find?_eq_some hleader)
      exact .inl ⟨leader, hmem, Text.canStart_of_trimStart hraw (ne_nil_of_leader? hleader) hrest⟩
  | code _ _ _ => exact .inr ⟨nofun, rfl⟩

theorem exists_canStart_of_mem_tagFrom (hstyle : ∀ starter ∈ style.starters, starter ≠ []) {line : Nat}
    {lines : List Text} (hlines : ∀ raw ∈ lines, '\n' ∉ raw) {tagged : TaggedLine}
    (hmem : tagged ∈ style.tagFrom false line lines) {c : Comment} (hcomment : tagged.tag = .comment c) :
    ∃ starter ∈ style.starters, starter.CanStart := by
  induction lines generalizing line with
  | nil => cases hmem
  | cons raw rest ih =>
      obtain ⟨hraw, hrest⟩ := List.forall_mem_cons.mp hlines
      rcases exists_canStart_or hstyle hraw with hfound | ⟨hnone, hclosed⟩
      · exact hfound
      · rw [tagFrom_cons, hclosed] at hmem
        rcases List.mem_cons.mp hmem with rfl | hmem
        · exact absurd hcomment (hnone c)
        · exact ih hrest hmem

/-- A line that is one of the texts is a comment. -/
theorem recognises_of_canStart {starter : Text} (hmem : starter ∈ style.starters) (hstart : starter.CanStart) :
    style.Recognises := by
  refine ⟨starter, ⟨1, (style.tag false starter).1⟩, ?_, ?_⟩
  · rw [Text.lines_of_notMem hstart.oneLine hstart.ne_nil]
    exact List.mem_singleton_self _
  · have htrim : starter.trimStart = starter := Text.trimStart_of_head hstart.head
    have hcases := style.tagsOutside starter
    change ∃ c, (style.tagOutside starter).1 = .comment c
    generalize style.tagOutside starter = tagged at hcases ⊢
    cases hcases with
    | blank hblank => exact absurd (htrim.symm.trans hblank) hstart.ne_nil
    | block _ _ _ _ _ => exact ⟨_, rfl⟩
    | leader _ _ _ _ _ _ => exact ⟨_, rfl⟩
    | code _ hblock hleader =>
        rw [htrim] at hleader
        rcases List.mem_append.mp hmem with hleaders | hopening
        · refine absurd ?_ (List.find?_eq_none.mp hleader starter hleaders)
          have hself := Text.after?_append starter []
          rw [List.append_nil] at hself
          rw [Bool.and_eq_true, Text.startsWith, hself]
          exact ⟨by simp [hstart.ne_nil], rfl⟩
        · obtain ⟨block, hstyle, rfl⟩ := Option.map_eq_some_iff.mp (Option.mem_toList.mp hopening)
          exact absurd ⟨block, hstyle, [], by rw [htrim, List.append_nil]⟩ hblock

end CommentStyle

namespace Config

theorem eq_ok_of_forM {α : Type} {check : α → Except Invalid Unit} {entries : List α}
    (h : entries.forM check = .ok ()) : ∀ entry ∈ entries, check entry = .ok () := by
  induction entries with
  | nil => exact nofun
  | cons first rest ih =>
      obtain ⟨⟨⟩, hfirst, hrest⟩ := exists_of_bind_eq_ok h
      exact List.forall_mem_cons.mpr ⟨hfirst, ih hrest⟩

theorem checkLanguage_of_validate {config : Config} (h : config.validate = .ok ()) {tag : Text}
    {style : CommentStyle} (hentry : (tag, style) ∈ config.languages.entries) :
    checkLanguage tag style = .ok () := by
  obtain ⟨⟨⟩, -, h⟩ := exists_of_bind_eq_ok h
  obtain ⟨⟨⟩, -, h⟩ := exists_of_bind_eq_ok h
  obtain ⟨⟨⟩, hlanguages, -⟩ := exists_of_bind_eq_ok h
  exact eq_ok_of_forM hlanguages _ hentry

/-- What validation asks of the texts of a language. -/
theorem starters_of_checkLanguage {tag : Text} {style : CommentStyle} (h : checkLanguage tag style = .ok ()) :
    style.starters ≠ [] ∧ ∀ starter ∈ style.starters, starter.isAllBlank = false := by
  rw [checkLanguage] at h
  split at h
  · cases h
  · next hsome =>
    split at h
    · cases h
    · next hleaders =>
      split at h
      · cases h
      · next hblock =>
        constructor
        · intro hnil
          obtain ⟨hnone, hopening⟩ := List.append_eq_nil_iff.mp hnil
          apply hsome
          rw [CommentStyle.isEmpty, hnone, Option.map_eq_none_iff.mp (Option.toList_eq_nil_iff.mp hopening)]
          rfl
        · intro starter hmem
          rcases List.mem_append.mp hmem with hmem | hmem
          · exact Bool.eq_false_iff.mpr fun hblank => hleaders (List.any_eq_true.mpr ⟨starter, hmem, hblank⟩)
          · obtain ⟨block, hstyle, rfl⟩ := Option.map_eq_some_iff.mp (Option.mem_toList.mp hmem)
            refine Bool.eq_false_iff.mpr fun hblank => hblock ?_
            rw [hstyle, Option.any_some, hblank, Bool.true_or]

/-- Validation promises that a language has a text that starts a comment and that none of its texts is blank.
Such a language recognises a comment just when one of its texts begins visibly and has no line break. -/
theorem recognises_iff_of_validate {config : Config} (h : config.validate = .ok ()) {tag : Text}
    {style : CommentStyle} (hentry : (tag, style) ∈ config.languages.entries) :
    style.starters ≠ [] ∧ (∀ starter ∈ style.starters, starter.isAllBlank = false) ∧
      (style.Recognises ↔ ∃ starter ∈ style.starters, starter.CanStart) := by
  obtain ⟨hne, hvisible⟩ := starters_of_checkLanguage (checkLanguage_of_validate h hentry)
  have hnil : ∀ starter ∈ style.starters, starter ≠ [] := by
    rintro starter hmem rfl
    cases hvisible _ hmem
  refine ⟨hne, hvisible, ?_, ?_⟩
  · rintro ⟨text, tagged, hmem, c, hcomment⟩
    exact CommentStyle.exists_canStart_of_mem_tagFrom hnil (fun _ => Text.notMem_of_mem_lines) hmem hcomment
  · rintro ⟨starter, hmem, hstart⟩
    exact CommentStyle.recognises_of_canStart hmem hstart

/-- A language with a leader that no line starts with, and delimiters that some line does. -/
theorem recognises_iff_of_validate_mixed :
    let style : CommentStyle := ⟨[" #"], some ⟨"(*", " *)"⟩⟩
    let config : Config := { ignores := [], languages := Dict.empty.insert "x" style }
    config.validate = .ok () ∧ (("x" : Text), style) ∈ config.languages.entries ∧ style.Recognises := by
  intro style config
  have hvalid : config.validate = .ok () := rfl
  have hentry : (("x" : Text), style) ∈ config.languages.entries := by decide
  refine ⟨hvalid, hentry, (recognises_iff_of_validate hvalid hentry).2.2.mpr ⟨"(*", by decide, ?_⟩⟩
  refine ⟨by decide, ?_, by decide⟩
  rintro c ⟨⟩
  decide

/-- A leader that begins with white space passes validation, and no line of any file starts with it. -/
theorem not_recognises_indented :
    let style : CommentStyle := ⟨[" #"], none⟩
    let config : Config := { ignores := [], languages := Dict.empty.insert "x" style }
    config.validate = .ok () ∧ (("x" : Text), style) ∈ config.languages.entries ∧ ¬ style.Recognises := by
  intro style config
  refine ⟨rfl, by decide, ?_⟩
  rintro ⟨text, tagged, hmem, c, hcomment⟩
  obtain ⟨starter, hstarter, hstart⟩ := CommentStyle.exists_canStart_of_mem_tagFrom (by decide)
    (fun _ => Text.notMem_of_mem_lines) hmem hcomment
  cases List.mem_singleton.mp hstarter
  cases hstart.head ' ' rfl

end Config

end Marginalia
