import Marginalia.Proofs.BlockBody

/-! Levels of braces. The opener of a brace block makes a level, and the comment lines behind it change the
level by their weights. Assembly counts this level while it reads and never lets it fall below one inside a
block; so a block ends at the line that takes the level to zero, and that is the first one to do so. The
level after a line is said here on the tagged lines of a file alone. -/

namespace Marginalia

/-- By how many levels some comment lines change the nesting of braces. -/
def bodyWeight (body : List BodyLine) : Int := (body.map fun b => Role.weight b.text).sum

theorem bodyWeight_eq (body : List BodyLine) :
    bodyWeight body = ((body.map BodyLine.text).map Role.weight).sum := by
  rw [bodyWeight, List.map_map]
  rfl

theorem bodyWeight_concat (body : List BodyLine) (b : BodyLine) :
    bodyWeight (body ++ [b]) = bodyWeight body + Role.weight b.text := by
  simp [bodyWeight]

/-- The level of braces after a line, if line `start` opens a block: one for the opener, and the weights of
the comment lines from there on. -/
def levelAfter (lines : List TaggedLine) (start line : Nat) : Int :=
  1 + bodyWeight (bodyBetween lines start (line + 1))

/-- The line is a `}` that takes the level of the block opened at `start` to zero, and no line before it
does. -/
structure MatchesOpener (lines : List TaggedLine) (start line : Nat) : Prop where
  closer : ∃ c, ⟨line, .comment c⟩ ∈ lines ∧ Role.ofText c.text = .braceClose
  lt : start < line
  level : levelAfter lines start line = 0
  first : ∀ earlier, start ≤ earlier → earlier < line → 1 ≤ levelAfter lines start earlier

/-- The note of a brace block with its levels. No line of the body brings the level down to zero, so none of
them closes the block, whether it is a `}` or not; a block that is closed ends at the line that does. -/
structure Note.BalancesBraces (note : Note) (lines : List TaggedLine) : Prop where
  prefixes : ∀ before after, note.body = before ++ after → 0 ≤ bodyWeight before
  inner : ∀ b ∈ note.body, 1 ≤ levelAfter lines note.startLine b.line
  closed : (∀ b ∈ note.body, b.line ≠ note.endLine) →
    bodyWeight note.body = 0 ∧ MatchesOpener lines note.startLine note.endLine

namespace BlockState

/-- Inside braces, the depth is the level after the body, and at least one. -/
def CountsLevel : BlockState → Prop
  | .brace block depth => (depth : Int) = 1 + bodyWeight block.body.toList ∧ 1 ≤ depth
  | _ => True

theorem countsLevel_push {block : OpenBlock} {depth : Nat} (h : (brace block depth).CountsLevel) {c : Comment}
    (hend : Role.ofText c.text = .braceClose → depth ≠ 1) (line : Nat) :
    (brace (block.push line c) (depth + Role.weight c.text).toNat).CountsLevel := by
  obtain ⟨hlevel, hpos⟩ := h
  have hweight := Role.neg_one_le_weight c.text
  have hstays : 1 ≤ (depth : Int) + Role.weight c.text := by
    by_contra hlow
    exact hend (Role.weight_eq_neg_one (by omega)) (by omega)
  have hbody : bodyWeight (block.push line c).body.toList =
      bodyWeight block.body.toList + Role.weight c.text := by
    rw [OpenBlock.push, Array.toList_push, bodyWeight_concat]
  refine ⟨?_, by omega⟩
  rw [hbody]
  omega

theorem step_countsLevel {state : BlockState} (h : state.CountsLevel) (tagged : TaggedLine) :
    (state.step tagged).1.CountsLevel := by
  obtain ⟨line, tag⟩ := tagged
  cases tag with
  | blank => exact h
  | code text => trivial
  | comment c =>
      cases state with
      | idle =>
          simp only [step, stepIdle]
          cases Role.ofText c.text with
          | braceOpen => exact ⟨rfl, Nat.le_refl 1⟩
          | _ => trivial
      | brace block depth =>
          by_cases hend : Role.ofText c.text = .braceClose ∧ depth = 1
          · simp only [step, stepBrace, hend.1, hend.2, if_true]
            trivial
          · have hgoes : Role.ofText c.text = .braceClose → depth ≠ 1 := fun hrole hdepth => hend ⟨hrole, hdepth⟩
            show (stepBrace block depth line c).1.CountsLevel
            rw [BlockKind.stepBrace_eq_push h.2 hgoes]
            exact countsLevel_push h hgoes line
      | collection block =>
          simp only [step, stepCollection]
          cases Role.ofText c.text <;> trivial

theorem countsLevel_of_mem_trace {state : BlockState} (h : state.CountsLevel) {lines : List TaggedLine} :
    ∀ later ∈ state.trace lines, later.CountsLevel := by
  induction lines generalizing state with
  | nil => exact nofun
  | cons tagged rest ih =>
      intro later hmem
      rcases List.mem_cons.mp hmem with rfl | hmem
      · exact step_countsLevel h tagged
      · exact ih (step_countsLevel h tagged) later hmem

end BlockState

theorem Numbered.exists_split {lines : List TaggedLine} (h : Numbered lines) (last : Nat) :
    ∃ inside after, lines = inside ++ after ∧ (∀ tagged ∈ inside, tagged.line < last) ∧
      ∀ tagged ∈ after, last ≤ tagged.line := by
  induction lines with
  | nil => exact ⟨[], [], rfl, nofun, nofun⟩
  | cons first rest ih =>
      obtain ⟨hfirst, hrest⟩ := List.pairwise_cons.mp h
      by_cases hlt : first.line < last
      · obtain ⟨inside, after, rfl, hinside, hafter⟩ := ih hrest
        exact ⟨first :: inside, after, rfl, List.forall_mem_cons.mpr ⟨hlt, hinside⟩, hafter⟩
      · refine ⟨[], first :: rest, rfl, nofun, List.forall_mem_cons.mpr ⟨Nat.not_lt.mp hlt, ?_⟩⟩
        intro tagged hmem
        have := hfirst tagged hmem
        omega

namespace Block

variable {before after : List TaggedLine} {block : Block}

theorem bodyWeight_nonneg (hkind : block.kind = .brace) {body later : List BodyLine}
    (hbody : block.body = body ++ later) : 0 ≤ bodyWeight body := by
  have hopen := block.staysOpen
  rw [hkind, show bodyLines block.interior = body ++ later from hbody, List.map_append] at hopen
  rw [bodyWeight_eq]
  exact hopen.of_append.weights_nonneg

/-- Inside a brace block the level stays above zero. -/
theorem one_le_levelAfter (hkind : block.kind = .brace) (h : Numbered (before ++ block.lines ++ after))
    {line : Nat} (hafter : ∀ tagged ∈ after, line < tagged.line) :
    1 ≤ levelAfter (before ++ block.lines ++ after) block.line line := by
  have hinterior : Numbered block.interior :=
    (List.pairwise_cons.mp (List.pairwise_append.mp (List.pairwise_append.mp h).1).2.1).2
  obtain ⟨inside, later, hsplit, hinside, hlater⟩ := hinterior.exists_split (line + 1)
  have hlines : before ++ block.lines ++ after =
      before ++ ⟨block.line, .comment block.opener⟩ :: (inside ++ (later ++ after)) := by
    simp [lines, hsplit]
  have hbody : block.body = bodyLines inside ++ bodyLines later := by
    rw [body, hsplit, bodyLines_append]
  have hnonneg := bodyWeight_nonneg hkind hbody
  rw [hlines] at h ⊢
  rw [levelAfter, bodyBetween_eq_bodyLines h hinside]
  · omega
  · intro tagged hmem
    rcases List.mem_append.mp hmem with hmem | hmem
    · exact hlater tagged hmem
    · exact hafter tagged hmem

theorem line_lt_of_mem_after (h : Numbered (before ++ block.lines ++ after)) {tagged later : TaggedLine}
    (hmem : tagged ∈ block.lines) (hlater : later ∈ after) : tagged.line < later.line :=
  (List.pairwise_append.mp h).2.2 tagged (List.mem_append_right before hmem) later hlater

/-- No line of the body of a brace block brings the level down to zero. -/
theorem one_le_levelAfter_body (hkind : block.kind = .brace) (h : Numbered (before ++ block.lines ++ after))
    {b : BodyLine} (hb : b ∈ block.body) :
    1 ≤ levelAfter (before ++ block.lines ++ after) block.line b.line := by
  obtain ⟨tagged, hmem, hline⟩ := exists_mem_of_mem_bodyLines hb
  rw [← hline]
  exact one_le_levelAfter hkind h fun later => line_lt_of_mem_after h (List.mem_cons_of_mem _ hmem)

theorem levelAfter_closer {line : Nat} {closer : Comment}
    (h : Numbered (before ++ block.lines ++ ⟨line, .comment closer⟩ :: after)) :
    levelAfter (before ++ block.lines ++ ⟨line, .comment closer⟩ :: after) block.line line =
      1 + bodyWeight block.body + Role.weight closer.text := by
  have hlines : before ++ block.lines ++ ⟨line, .comment closer⟩ :: after =
      before ++ ⟨block.line, .comment block.opener⟩ ::
        ((block.interior ++ [⟨line, .comment closer⟩]) ++ after) := by
    simp [lines]
  have hlast := (List.pairwise_append.mp h).2.1
  have hinside : ∀ tagged ∈ block.interior ++ [⟨line, .comment closer⟩], tagged.line < line + 1 := by
    intro tagged hmem
    rcases List.mem_append.mp hmem with hmem | hmem
    · exact Nat.lt_succ_of_lt (line_lt_of_mem_after h (List.mem_cons_of_mem _ hmem) List.mem_cons_self)
    · rw [List.mem_singleton.mp hmem]
      exact Nat.lt_succ_self _
  rw [hlines] at h ⊢
  rw [levelAfter, bodyBetween_eq_bodyLines h hinside (List.pairwise_cons.mp hlast).1, bodyLines_append,
    bodyLines_comment, bodyWeight_concat, Int.add_assoc]
  rfl

end Block

namespace Part

variable {before after : List TaggedLine} {part : Part} {note : Note}

theorem balancesBraces_closed {block : Block} {line : Nat} {closer : Comment}
    (hends : block.kind.EndsAt (block.body.map BodyLine.text) closer.text) (hkind : block.kind = .brace)
    (h : Numbered (before ++ block.lines ++ ⟨line, .comment closer⟩ :: after)) :
    Note.BalancesBraces ⟨block.kind.noteKind, block.line, line, block.body, none⟩
      (before ++ block.lines ++ ⟨line, .comment closer⟩ :: after) := by
  have hlast := (List.pairwise_append.mp h).2.1
  have hweight : bodyWeight block.body = 0 := by
    rw [bodyWeight_eq]
    exact hends.2 hkind
  have hrole : Role.ofText closer.text = .braceClose := by
    have hclosing := hends.1
    rwa [hkind] at hclosing
  refine ⟨fun _ _ => Block.bodyWeight_nonneg hkind, fun _ => Block.one_le_levelAfter_body hkind h,
    fun _ => ⟨hweight, ⟨closer, List.mem_append_right _ List.mem_cons_self, hrole⟩, ?_, ?_, ?_⟩⟩
  · exact Block.line_lt_of_mem_after h List.mem_cons_self List.mem_cons_self
  · rw [Block.levelAfter_closer h, hweight, Role.weight_braceClose hrole]
    rfl
  · intro earlier _ hlt
    refine Block.one_le_levelAfter hkind h (List.forall_mem_cons.mpr ⟨hlt, fun later hlater => ?_⟩)
    exact Nat.lt_trans hlt ((List.pairwise_cons.mp hlast).1 later hlater)

theorem balancesBraces_cutOff {block : Block} (hkind : block.kind = .brace) (hbody : block.body ≠ [])
    (h : Numbered (before ++ block.lines ++ after)) :
    Note.BalancesBraces ⟨block.kind.noteKind, block.line, block.lastLine, block.body, none⟩
      (before ++ block.lines ++ after) := by
  refine ⟨fun _ _ => Block.bodyWeight_nonneg hkind, fun _ => Block.one_le_levelAfter_body hkind h, ?_⟩
  intro hclosed
  exact absurd (Block.lastLine_eq hbody).symm (hclosed _ (List.getLast_mem hbody))

theorem Makes.balancesBraces (h : part.Makes note) (hkind : note.kind = .brace)
    (hlines : Numbered (before ++ part.lines ++ after)) :
    note.BalancesBraces (before ++ part.lines ++ after) := by
  cases h with
  | marked hlone hrole => cases hkind
  | @closed block line closer hends hbody =>
      have hsplit : before ++ (Part.closed block line closer hends).lines ++ after =
          before ++ block.lines ++ ⟨line, .comment closer⟩ :: after := by
        simp [Part.lines]
      rw [hsplit] at hlines ⊢
      exact balancesBraces_closed hends (@BlockKind.noteKind_injective _ .brace hkind) hlines
  | cutOff hbody => exact balancesBraces_cutOff (@BlockKind.noteKind_injective _ .brace hkind) hbody hlines

end Part

/-- While a file is read, the depth inside braces is the level after the body so far, and at least one. So a
brace block holds no line that brings the level down to zero, and one that is closed ends at the first line
that does, the `}` that matches its opener. -/
theorem extractWith_balancesBraces (source : Source) (style : CommentStyle) :
    (∀ (block : OpenBlock) (depth : Nat), .brace block depth ∈ BlockState.idle.trace (style.tagLines source.lines) →
      (depth : Int) = 1 + bodyWeight block.body.toList ∧ 1 ≤ depth) ∧
    ∀ note ∈ (source.extractWith style).findings.notes, note.kind = .brace →
      note.BalancesBraces (style.tagLines source.lines) := by
  constructor
  · intro block depth hmem
    have hidle : BlockState.idle.CountsLevel := trivial
    exact BlockState.countsLevel_of_mem_trace hidle _ hmem
  · intro note hnote hkind
    obtain ⟨bare, hbare, rfl⟩ := List.mem_map.mp hnote
    obtain ⟨parts, hparts⟩ := exists_divides (style.tagLines source.lines)
    obtain ⟨before, part, after, hlines, hmade, -⟩ := hparts.exists_part hbare
    have hordered := style.numbered_tagLines source.lines
    rw [hlines] at hordered ⊢
    have hbalances := hmade.balancesBraces hkind hordered
    exact ⟨hbalances.prefixes, hbalances.inner, hbalances.closed⟩

/-- A block with two levels inside it, a `TODO: {` and a lone brace, is closed by the third `}`. The only `}`
of the block that the code cuts off belongs to its body and does not close it. -/
theorem extractWith_balancesBraces_nested :
    let style : CommentStyle := { leaders := ["#"] }
    let source := Source.new "a.py" "python" ("# TODO: \x7b\n# TODO: \x7b\n# \x7b\n# \x7d\n\n# \x7d\n# \x7d\n" ++
      "# TODO: \x7b\n# \x7b\n# \x7d\nx")
    let opened : OpenBlock := ⟨1, 3, #[⟨2, 2, "TODO: \x7b"⟩, ⟨3, 2, "\x7b"⟩]⟩
    let cutOff : Note := ⟨.brace, 8, 10, [⟨9, 2, "\x7b"⟩, ⟨10, 2, "\x7d"⟩], some ⟨11, "x"⟩⟩
    ((3 : Nat) : Int) = 1 + bodyWeight opened.body.toList ∧
      MatchesOpener (style.tagLines source.lines) 1 7 ∧
      1 ≤ levelAfter (style.tagLines source.lines) cutOff.startLine 10 := by
  intro style source opened cutOff
  obtain ⟨hstates, hnotes⟩ := extractWith_balancesBraces source style
  refine ⟨(hstates opened 3 (by decide)).1, ?_, ?_⟩
  · have hnote := hnotes ⟨.brace, 1, 7,
      [⟨2, 2, "TODO: \x7b"⟩, ⟨3, 2, "\x7b"⟩, ⟨4, 2, "\x7d"⟩, ⟨6, 2, "\x7d"⟩], some ⟨11, "x"⟩⟩ (by decide) rfl
    exact (hnote.closed (by decide)).2
  · exact (hnotes cutOff (by decide) rfl).inner ⟨10, 2, "\x7d"⟩ (by decide)

end Marginalia
