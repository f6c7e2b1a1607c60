import Marginalia.Source

/-! What tagging does. Outside a block comment a line is blank, or starts a comment with the opening
delimiter or else with a leader, or is code; the cases are told once and for all by `TagsOutside`. Tagging
numbers the lines of a file from one on without a gap, and the tag of a line depends on that line and on
whether the lines before it leave a block comment open. -/

namespace Marginalia

/-- The lines stand in the order of their numbers, each number once. -/
abbrev Numbered (lines : List TaggedLine) : Prop := lines.Pairwise fun a b => a.line < b.line

namespace CommentStyle

/-- The line begins with the opening delimiter of the style. -/
def Opens (style : CommentStyle) (raw : Text) (block : Delimiters) : Prop :=
  style.block = some block ∧ block.opening <+: raw.trimStart

/-- The tag of a line outside a block comment, and whether it leaves one open. -/
inductive TagsOutside (style : CommentStyle) (raw : Text) : Tag × Bool → Prop
  | blank (hblank : raw.trimStart = []) : TagsOutside style raw (.blank, false)
  | block (block : Delimiters) (rest : Text) (hne : raw.trimStart ≠ []) (hblock : style.block = some block)
      (hrest : raw.trimStart = block.opening ++ rest) :
      TagsOutside style raw
        (.comment (.ofSegment (Text.bytes (raw.indent ++ block.opening)) block.opening.bytes
          (block.inside rest).1), (block.inside rest).2)
  | leader (leader rest : Text) (hne : raw.trimStart ≠ []) (hblock : ¬ ∃ block, style.Opens raw block)
      (hleader : style.leader? raw.trimStart = some leader) (hrest : raw.trimStart = leader ++ rest) :
      TagsOutside style raw
        (.comment (.ofSegment (Text.bytes (raw.indent ++ leader)) leader.bytes rest), false)
  | code (hne : raw.trimStart ≠ []) (hblock : ¬ ∃ block, style.Opens raw block)
      (hleader : style.leader? raw.trimStart = none) :
      TagsOutside style raw (.code raw, false)

theorem exists_append_of_leader? {style : CommentStyle} {s leader : Text} (h : style.leader? s = some leader) :
    ∃ rest, s = leader ++ rest := by
  have hmatch := List.find?_some h
  rw [Bool.and_eq_true, Text.startsWith] at hmatch
  obtain ⟨rest, hrest⟩ := Option.isSome_iff_exists.mp hmatch.2
  exact ⟨rest, Text.eq_append_of_after? hrest⟩

theorem ne_nil_of_leader? {style : CommentStyle} {s leader : Text} (h : style.leader? s = some leader) :
    leader ≠ [] := by
  rintro rfl
  cases List.find?_some h

theorem tagsOutside (style : CommentStyle) (raw : Text) : style.TagsOutside raw (style.tagOutside raw) := by
  simp only [tagOutside]
  split
  · next hempty => exact .blank (List.isEmpty_iff.mp hempty)
  · next hempty =>
    have hne : raw.trimStart ≠ [] := fun h => hempty (List.isEmpty_iff.mpr h)
    split
    · next block rest hbind =>
      obtain ⟨delimiters, hblock, hafter⟩ := Option.bind_eq_some_iff.mp hbind
      obtain ⟨tail, htail, hpair⟩ := Option.map_eq_some_iff.mp hafter
      cases hpair
      rw [← Text.bytes_append]
      exact .block block rest hne hblock (Text.eq_append_of_after? htail)
    · next hbind =>
      have hblock : ¬ ∃ block, style.Opens raw block := by
        rintro ⟨block, hstyle, rest, hrest⟩
        rw [hstyle, Option.bind_some, ← hrest, Text.after?_append] at hbind
        cases hbind
      split
      · next leader hleader =>
        obtain ⟨rest, hrest⟩ := exists_append_of_leader? hleader
        rw [← Text.bytes_append, hrest, List.drop_left]
        exact .leader leader rest hne hblock hleader hrest
      · next hleader => exact .code hne hblock hleader

/-- Only a style with block delimiters leaves a block comment open. -/
theorem isSome_block_of_tag {style : CommentStyle} {isOpen : Bool} {raw : Text}
    (h : (style.tag isOpen raw).2 = true) : style.block.isSome = true := by
  cases hstyle : style.block with
  | some block => rfl
  | none =>
      have hcases := style.tagsOutside raw
      simp only [tag, hstyle] at h
      generalize style.tagOutside raw = tagged at h hcases
      cases hcases with
      | block block rest hne hblock hrest =>
          rw [hstyle] at hblock
          cases hblock
      | blank hblank => cases h
      | leader leader rest hne hblock hleader hrest => cases h
      | code hne hblock hleader => cases h

theorem openAfter_cons (style : CommentStyle) (isOpen : Bool) (raw : Text) (lines : List Text) :
    style.openAfter isOpen (raw :: lines) = style.openAfter (style.tag isOpen raw).2 lines := rfl

theorem tagFrom_cons (style : CommentStyle) (isOpen : Bool) (line : Nat) (raw : Text) (lines : List Text) :
    style.tagFrom isOpen line (raw :: lines) =
      ⟨line, (style.tag isOpen raw).1⟩ :: style.tagFrom (style.tag isOpen raw).2 (line + 1) lines := rfl

theorem isSome_block_of_openAfter {style : CommentStyle} {isOpen : Bool} {lines : List Text}
    (hopen : isOpen = true → style.block.isSome = true) (h : style.openAfter isOpen lines = true) :
    style.block.isSome = true := by
  induction lines generalizing isOpen with
  | nil => exact hopen h
  | cons raw rest ih => exact ih isSome_block_of_tag h

theorem map_line_tagFrom (style : CommentStyle) (isOpen : Bool) (line : Nat) (lines : List Text) :
    (style.tagFrom isOpen line lines).map TaggedLine.line = List.range' line lines.length := by
  induction lines generalizing isOpen line with
  | nil => rfl
  | cons raw rest ih =>
      rw [tagFrom, List.map_cons, ih, List.length_cons, List.range'_succ]

theorem mem_tagFrom {style : CommentStyle} {isOpen : Bool} {line : Nat} {lines : List Text}
    {tagged : TaggedLine} :
    tagged ∈ style.tagFrom isOpen line lines ↔ ∃ before raw after, lines = before ++ raw :: after ∧
      tagged = ⟨line + before.length, (style.tag (style.openAfter isOpen before) raw).1⟩ := by
  induction lines generalizing isOpen line with
  | nil => simp [tagFrom]
  | cons raw rest ih =>
      rw [tagFrom, List.mem_cons, ih]
      constructor
      · rintro (rfl | ⟨before, later, after, rfl, rfl⟩)
        · exact ⟨[], raw, rest, rfl, rfl⟩
        · refine ⟨raw :: before, later, after, rfl, ?_⟩
          rw [openAfter_cons, List.length_cons]
          congr 1
          omega
      · rintro ⟨before, later, after, hlines, rfl⟩
        cases before with
        | nil =>
            cases hlines
            exact Or.inl rfl
        | cons first before =>
            cases hlines
            refine Or.inr ⟨before, later, after, rfl, ?_⟩
            rw [openAfter_cons, List.length_cons]
            congr 1
            omega

theorem length_tagFrom (style : CommentStyle) (isOpen : Bool) (line : Nat) (lines : List Text) :
    (style.tagFrom isOpen line lines).length = lines.length := by
  rw [← List.length_map (f := TaggedLine.line), map_line_tagFrom, List.length_range']

theorem tagFrom_append (style : CommentStyle) (isOpen : Bool) (line : Nat) (lines later : List Text) :
    style.tagFrom isOpen line (lines ++ later) =
      style.tagFrom isOpen line lines ++
        style.tagFrom (style.openAfter isOpen lines) (line + lines.length) later := by
  induction lines generalizing isOpen line with
  | nil => rfl
  | cons raw rest ih =>
      rw [List.cons_append, tagFrom_cons, ih, tagFrom_cons, List.cons_append, openAfter_cons,
        List.length_cons, Nat.add_assoc, Nat.add_comm 1]

/-- A code line is tagged with its raw text and leaves no block comment open. -/
theorem tag_of_code {style : CommentStyle} {isOpen : Bool} {raw text : Text}
    (h : (style.tag isOpen raw).1 = .code text) : style.tag isOpen raw = (.code raw, false) := by
  have houtside : ∀ tagged, style.TagsOutside raw tagged → tagged.1 = .code text →
      tagged = (.code raw, false) := by
    intro tagged hcases htag
    cases hcases with
    | blank hblank => cases htag
    | block block rest hne hblock hrest => cases htag
    | leader leader rest hne hblock hleader hrest => cases htag
    | code hne hblock hleader => rfl
  unfold tag at h ⊢
  split at h
  · cases h
  · exact houtside _ (style.tagsOutside raw) h

theorem numbered_tagLines (style : CommentStyle) (lines : List Text) : Numbered (style.tagLines lines) := by
  rw [tagLines, Numbered, ← List.pairwise_map, map_line_tagFrom]
  exact List.pairwise_lt_range'

theorem line_of_mem_tagLines {style : CommentStyle} {lines : List Text} {tagged : TaggedLine}
    (h : tagged ∈ style.tagLines lines) : 1 ≤ tagged.line ∧ tagged.line ≤ lines.length := by
  have hline : tagged.line ∈ List.range' 1 lines.length := by
    rw [← map_line_tagFrom style false]
    exact List.mem_map_of_mem h
  rw [List.mem_range'_1] at hline
  omega

/-- The lines from a place on are those with greater numbers. -/
theorem mem_drop_tagLines {style : CommentStyle} {lines : List Text} {n : Nat} {tagged : TaggedLine} :
    tagged ∈ (style.tagLines lines).drop n ↔ tagged ∈ style.tagLines lines ∧ n < tagged.line := by
  constructor
  · intro h
    have hline : tagged.line ∈ (List.range' 1 lines.length).drop n := by
      rw [← style.map_line_tagFrom false, ← List.map_drop]
      exact List.mem_map_of_mem h
    rw [List.drop_range', List.mem_range'_1] at hline
    exact ⟨List.mem_of_mem_drop h, by omega⟩
  · rintro ⟨hmem, hlt⟩
    obtain ⟨before, raw, after, rfl, rfl⟩ := mem_tagFrom.mp hmem
    have hle : n ≤ (style.tagFrom false 1 before).length := by
      rw [length_tagFrom]
      exact Nat.lt_one_add_iff.mp hlt
    rw [tagLines, tagFrom_append, List.drop_append_of_le_length hle, tagFrom_cons]
    exact List.mem_append_right _ List.mem_cons_self

end CommentStyle
end Marginalia
