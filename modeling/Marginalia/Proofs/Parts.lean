import Marginalia.Proofs.Nesting

/-! How assembly divides the lines of a file. Every line stands alone or belongs to one block, from
its opener to its closer, or to the last line before the code or the end of the file that cuts it off.
What assembly finds is what it finds in these parts, one after another. A part carries the facts that
make it one, so every statement about notes and warnings comes down to a statement about a single
part and the order of the parts. -/

namespace Marginalia

namespace TaggedLine

def isCode (tagged : TaggedLine) : Bool :=
  match tagged.tag with
  | .code _ => true
  | _ => false

/-- The line as a line of a block's body, if it is a comment. -/
def bodyLine? (tagged : TaggedLine) : Option BodyLine :=
  match tagged.tag with
  | .comment c => some ⟨tagged.line, c.column, c.text⟩
  | _ => none

/-- The line opens a block of the kind. -/
def Opens (tagged : TaggedLine) (kind : BlockKind) : Prop :=
  ∃ c, tagged.tag = .comment c ∧ Role.ofText c.text = kind.opening

theorem step_idle_of_not_opens {tagged : TaggedLine} (h : ∀ kind, ¬ tagged.Opens kind) :
    (BlockState.idle.step tagged).1 = .idle := by
  obtain ⟨line, tag⟩ := tagged
  cases tag with
  | blank => rfl
  | code text => rfl
  | comment c =>
      simp only [BlockState.step, BlockState.stepIdle]
      cases hrole : Role.ofText c.text with
      | braceOpen => exact absurd ⟨c, rfl, hrole⟩ (h .brace)
      | collectionOpen => exact absurd ⟨c, rfl, hrole⟩ (h .collection)
      | _ => rfl

end TaggedLine

/-- The comment lines among some lines, as they stand in the body of a block. -/
def bodyLines (lines : List TaggedLine) : List BodyLine := lines.filterMap TaggedLine.bodyLine?

@[simp] theorem bodyLines_append (lines later : List TaggedLine) :
    bodyLines (lines ++ later) = bodyLines lines ++ bodyLines later := List.filterMap_append

@[simp] theorem bodyLines_comment (line : Nat) (c : Comment) :
    bodyLines [⟨line, .comment c⟩] = [⟨line, c.column, c.text⟩] := rfl

@[simp] theorem bodyLines_blank (line : Nat) : bodyLines [⟨line, .blank⟩] = [] := rfl

theorem mem_bodyLines {b : BodyLine} {lines : List TaggedLine} :
    b ∈ bodyLines lines ↔ ∃ c, ⟨b.line, .comment c⟩ ∈ lines ∧ b = ⟨b.line, c.column, c.text⟩ := by
  rw [bodyLines, List.mem_filterMap]
  constructor
  · rintro ⟨⟨line, tag⟩, hmem, hb⟩
    cases tag with
    | comment c =>
        cases hb
        exact ⟨c, hmem, rfl⟩
    | code text => cases hb
    | blank => cases hb
  · rintro ⟨c, hmem, hb⟩
    exact ⟨_, hmem, by rw [hb]; rfl⟩

/-- The opener of a block and the lines after it that belong to the block, without a closer. None of
them is code, and none ends the block. -/
structure Block where
  kind : BlockKind
  line : Nat
  opener : Comment
  interior : List TaggedLine
  opens : Role.ofText opener.text = kind.opening
  noCode : ∀ tagged ∈ interior, tagged.isCode = false
  staysOpen : kind.StaysOpen ((bodyLines interior).map BodyLine.text)

namespace Block

def body (block : Block) : List BodyLine := bodyLines block.interior

def lines (block : Block) : List TaggedLine := ⟨block.line, .comment block.opener⟩ :: block.interior

/-- The last comment line of the block, which is the opener if the body is empty. -/
def lastLine (block : Block) : Nat := (block.body.getLast?.map BodyLine.line).getD block.line

/-- The block as assembly keeps it. -/
def toOpen (block : Block) : OpenBlock := ⟨block.line, block.lastLine, block.body.toArray⟩

/-- The state of assembly after the lines of the block. -/
def state (block : Block) : BlockState := block.kind.state block.toOpen

def start (kind : BlockKind) (line : Nat) (opener : Comment) (h : Role.ofText opener.text = kind.opening) :
    Block where
  kind := kind
  line := line
  opener := opener
  interior := []
  opens := h
  noCode := by simp
  staysOpen := kind.staysOpen_nil

/-- The block with a blank line after it. -/
def skip (block : Block) (line : Nat) : Block where
  kind := block.kind
  line := block.line
  opener := block.opener
  interior := block.interior ++ [⟨line, .blank⟩]
  opens := block.opens
  noCode := by
    intro tagged h
    rcases List.mem_append.mp h with h | h
    · exact block.noCode tagged h
    · rw [List.mem_singleton.mp h]
      rfl
  staysOpen := by
    rw [bodyLines_append, bodyLines_blank, List.append_nil]
    exact block.staysOpen

/-- The block with a comment line that does not end it. -/
def push (block : Block) (line : Nat) (c : Comment)
    (h : ¬ block.kind.EndsAt (block.body.map BodyLine.text) c.text) : Block where
  kind := block.kind
  line := block.line
  opener := block.opener
  interior := block.interior ++ [⟨line, .comment c⟩]
  opens := block.opens
  noCode := by
    intro tagged h
    rcases List.mem_append.mp h with h | h
    · exact block.noCode tagged h
    · rw [List.mem_singleton.mp h]
      rfl
  staysOpen := by
    rw [bodyLines_append, bodyLines_comment, List.map_append]
    exact BlockKind.staysOpen_concat block.staysOpen h

@[simp] theorem texts_toOpen (block : Block) : block.toOpen.texts = block.body.map BodyLine.text := by
  simp [toOpen, OpenBlock.texts]

theorem mem_body_of_ne_opening {block : Block} {line : Nat} {c : Comment}
    (hmem : ⟨line, .comment c⟩ ∈ block.lines) (hrole : Role.ofText c.text ≠ block.kind.opening) :
    ⟨line, c.column, c.text⟩ ∈ block.body := by
  rcases List.mem_cons.mp hmem with hopener | hinterior
  · cases hopener
    exact absurd block.opens hrole
  · exact mem_bodyLines.mpr ⟨c, hinterior, rfl⟩

theorem toOpen_skip (block : Block) (line : Nat) : (block.skip line).toOpen = block.toOpen := by
  have hbody : (block.skip line).body = block.body := by
    rw [body, skip, bodyLines_append, bodyLines_blank, List.append_nil, body]
  rw [toOpen, toOpen, lastLine, lastLine, hbody]
  rfl

theorem toOpen_push (block : Block) (line : Nat) (c : Comment)
    (h : ¬ block.kind.EndsAt (block.body.map BodyLine.text) c.text) :
    (block.push line c h).toOpen = block.toOpen.push line c := by
  have hbody : (block.push line c h).body = block.body ++ [⟨line, c.column, c.text⟩] := by
    rw [body, push, bodyLines_append, bodyLines_comment, body]
  rw [toOpen, lastLine, hbody, List.getLast?_concat]
  simp [toOpen, OpenBlock.push, push]

end Block

/-- A stretch of lines that assembly treats as one. -/
inductive Part where
  | lone (tagged : TaggedLine) (h : ∀ kind, ¬ tagged.Opens kind)
  | closed (block : Block) (line : Nat) (closer : Comment)
      (h : block.kind.EndsAt (block.body.map BodyLine.text) closer.text)
  | cutOff (block : Block)

namespace Part

def lines : Part → List TaggedLine
  | .lone tagged _ => [tagged]
  | .closed block line closer _ => block.lines ++ [⟨line, .comment closer⟩]
  | .cutOff block => block.lines

def findings : Part → Findings
  | .lone tagged _ => (BlockState.idle.step tagged).2
  | .closed block line _ _ => block.toOpen.close block.kind.noteKind line
  | .cutOff block => block.toOpen.cutOff block.kind.noteKind

def isCutOff : Part → Bool
  | .cutOff _ => true
  | _ => false

inductive Makes : Part → Note → Prop
  | marked {line : Nat} {c : Comment} {keyword : Keyword} {text : Text} {offset : Nat}
      (h : ∀ kind, ¬ TaggedLine.Opens ⟨line, .comment c⟩ kind)
      (hrole : Role.ofText c.text = .marker keyword text offset) :
      Makes (.lone ⟨line, .comment c⟩ h)
        ⟨.marker keyword, line, line, [⟨line, c.column + offset, text⟩], none⟩
  | closed {block : Block} {line : Nat} {closer : Comment}
      (h : block.kind.EndsAt (block.body.map BodyLine.text) closer.text) (hbody : block.body ≠ []) :
      Makes (.closed block line closer h) ⟨block.kind.noteKind, block.line, line, block.body, none⟩
  | cutOff {block : Block} (hbody : block.body ≠ []) :
      Makes (.cutOff block) ⟨block.kind.noteKind, block.line, block.lastLine, block.body, none⟩

inductive Warns : Part → Warning → Prop
  | stray {line : Nat} {c : Comment} (h : ∀ kind, ¬ TaggedLine.Opens ⟨line, .comment c⟩ kind)
      (kind : BlockKind) (hrole : Role.ofText c.text = kind.closing) :
      Warns (.lone ⟨line, .comment c⟩ h) ⟨.strayCloser, line⟩
  | empty {block : Block} {line : Nat} {closer : Comment}
      (h : block.kind.EndsAt (block.body.map BodyLine.text) closer.text) (hbody : block.body = []) :
      Warns (.closed block line closer h) ⟨.emptyBlock, block.line⟩
  | cutOff {block : Block} : Warns (.cutOff block) ⟨.unterminatedBlock, block.line⟩

theorem findings_closed {block : Block} {line : Nat} {closer : Comment}
    (h : block.kind.EndsAt (block.body.map BodyLine.text) closer.text) :
    (Part.closed block line closer h).findings =
      if block.body = [] then .warning .emptyBlock block.line
      else .note ⟨block.kind.noteKind, block.line, line, block.body, none⟩ := by
  simp only [findings, OpenBlock.close, Block.toOpen, OpenBlock.toNote, List.isEmpty_toArray,
    List.isEmpty_iff]

theorem findings_cutOff (block : Block) :
    (Part.cutOff block).findings = .warning .unterminatedBlock block.line ++
      if block.body = [] then .none
      else .note ⟨block.kind.noteKind, block.line, block.lastLine, block.body, none⟩ := by
  simp only [findings, OpenBlock.cutOff, Block.toOpen, OpenBlock.toNote, List.isEmpty_toArray,
    List.isEmpty_iff]

/-- A part makes at most one note. -/
theorem notes_findings (part : Part) :
    part.findings.notes = [] ∨ ∃ note, part.findings.notes = [note] ∧ part.Makes note := by
  cases part with
  | lone tagged h =>
      obtain ⟨line, tag⟩ := tagged
      cases tag with
      | blank => exact .inl rfl
      | code text => exact .inl rfl
      | comment c =>
          simp only [findings, BlockState.step, BlockState.stepIdle]
          cases hrole : Role.ofText c.text with
          | marker keyword text offset => exact .inr ⟨_, rfl, .marked h hrole⟩
          | _ => exact .inl rfl
  | closed block line closer h =>
      rw [findings_closed]
      by_cases hbody : block.body = []
      · rw [if_pos hbody]
        exact .inl rfl
      · rw [if_neg hbody]
        exact .inr ⟨_, rfl, .closed h hbody⟩
  | cutOff block =>
      rw [findings_cutOff]
      by_cases hbody : block.body = []
      · rw [if_pos hbody]
        exact .inl rfl
      · rw [if_neg hbody]
        exact .inr ⟨_, rfl, .cutOff hbody⟩

theorem warnings_findings (part : Part) :
    part.findings.warnings = [] ∨ ∃ warning, part.findings.warnings = [warning] ∧ part.Warns warning := by
  cases part with
  | lone tagged h =>
      obtain ⟨line, tag⟩ := tagged
      cases tag with
      | blank => exact .inl rfl
      | code text => exact .inl rfl
      | comment c =>
          simp only [findings, BlockState.step, BlockState.stepIdle]
          cases hrole : Role.ofText c.text with
          | braceClose => exact .inr ⟨_, rfl, .stray h .brace hrole⟩
          | collectionClose => exact .inr ⟨_, rfl, .stray h .collection hrole⟩
          | _ => exact .inl rfl
  | closed block line closer h =>
      rw [findings_closed]
      by_cases hbody : block.body = []
      · rw [if_pos hbody]
        exact .inr ⟨_, rfl, .empty h hbody⟩
      · rw [if_neg hbody]
        exact .inl rfl
  | cutOff block =>
      rw [findings_cutOff]
      by_cases hbody : block.body = []
      · rw [if_pos hbody]
        exact .inr ⟨_, rfl, .cutOff⟩
      · rw [if_neg hbody]
        exact .inr ⟨_, rfl, .cutOff⟩

theorem Makes.mem_notes {part : Part} {note : Note} (h : part.Makes note) : note ∈ part.findings.notes := by
  cases h with
  | marked h hrole =>
      simp only [findings, BlockState.step, BlockState.stepIdle, hrole]
      exact List.mem_singleton_self _
  | closed h hbody =>
      rw [findings_closed, if_neg hbody]
      exact List.mem_singleton_self _
  | cutOff hbody =>
      rw [findings_cutOff, if_neg hbody]
      exact List.mem_singleton_self _

theorem Warns.mem_warnings {part : Part} {warning : Warning} (h : part.Warns warning) :
    warning ∈ part.findings.warnings := by
  cases h with
  | stray h kind hrole =>
      cases kind <;>
        simp only [findings, BlockState.step, BlockState.stepIdle, hrole, BlockKind.closing] <;>
        exact List.mem_singleton_self _
  | empty h hbody =>
      rw [findings_closed, if_pos hbody]
      exact List.mem_singleton_self _
  | cutOff =>
      rw [findings_cutOff]
      exact List.mem_cons_self

theorem makes_of_mem_notes {part : Part} {note : Note} (h : note ∈ part.findings.notes) : part.Makes note := by
  rcases part.notes_findings with hnil | ⟨made, heq, hmade⟩
  · rw [hnil] at h
    cases h
  · rw [heq, List.mem_singleton] at h
    exact h ▸ hmade

theorem warns_of_mem_warnings {part : Part} {warning : Warning} (h : warning ∈ part.findings.warnings) :
    part.Warns warning := by
  rcases part.warnings_findings with hnil | ⟨given, heq, hgiven⟩
  · rw [hnil] at h
    cases h
  · rw [heq, List.mem_singleton] at h
    exact h ▸ hgiven

end Part

/-- From inside a block, assembly completes the block as one part and goes on after it. -/
theorem Block.exists_part (block : Block) (rest : List TaggedLine) :
    ∃ (part : Part) (after : List TaggedLine), part.lines ++ after = block.lines ++ rest ∧
      block.state.run rest = part.findings ++ BlockState.idle.run after ∧
      (part.isCutOff = true → after.head?.all TaggedLine.isCode = true) ∧ after.length ≤ rest.length := by
  induction rest generalizing block with
  | nil =>
      refine ⟨.cutOff block, [], by simp [Part.lines], ?_, fun _ => rfl, Nat.le_refl _⟩
      rw [BlockState.run, state, BlockKind.finish_state]
      exact (Findings.append_none _).symm
  | cons tagged rest ih =>
      obtain ⟨line, tag⟩ := tagged
      cases tag with
      | blank =>
          obtain ⟨part, after, hlines, hrun, hstop, hlength⟩ := ih (block.skip line)
          refine ⟨part, after, ?_, ?_, hstop, Nat.le_succ_of_le hlength⟩
          · rw [hlines]
            simp [lines, skip]
          · rw [← hrun, BlockState.run, state, BlockKind.step_state_blank, state, toOpen_skip]
            rfl
      | code text =>
          refine ⟨.cutOff block, ⟨line, .code text⟩ :: rest, rfl, ?_, fun _ => rfl, Nat.le_refl _⟩
          rw [BlockState.run, state, BlockKind.step_state_code]
          rfl
      | comment c =>
          by_cases hend : block.kind.EndsAt (block.body.map BodyLine.text) c.text
          · refine ⟨.closed block line c hend, rest, ?_, ?_, nofun, Nat.le_succ _⟩
            · simp [Part.lines]
            · rw [BlockState.run, state, BlockKind.step_state_of_endsAt (by rwa [texts_toOpen])]
              rfl
          · obtain ⟨part, after, hlines, hrun, hstop, hlength⟩ := ih (block.push line c hend)
            refine ⟨part, after, ?_, ?_, hstop, Nat.le_succ_of_le hlength⟩
            · rw [hlines]
              simp [lines, push]
            · rw [← hrun, BlockState.run, state, BlockKind.step_state_of_not_endsAt
                (by rw [texts_toOpen]; exact block.staysOpen) (by rwa [texts_toOpen]), state, toOpen_push]
              rfl

/-- Some lines fall into the parts, and what is found in the parts is found in the lines. A block that
is cut off is followed by a code line or by nothing. -/
structure Divides (parts : List Part) (lines : List TaggedLine) (found : Findings) : Prop where
  lines_eq : lines = parts.flatMap Part.lines
  notes_eq : found.notes = parts.flatMap fun part => part.findings.notes
  warnings_eq : found.warnings = parts.flatMap fun part => part.findings.warnings
  stops : ∀ before block after, parts = before ++ .cutOff block :: after →
    (after.flatMap Part.lines).head?.all TaggedLine.isCode = true

namespace Divides

theorem nil : Divides [] [] .none where
  lines_eq := rfl
  notes_eq := rfl
  warnings_eq := rfl
  stops := by simp

theorem cons {part : Part} {parts : List Part} {lines : List TaggedLine} {found : Findings}
    (hstop : part.isCutOff = true → lines.head?.all TaggedLine.isCode = true)
    (h : Divides parts lines found) :
    Divides (part :: parts) (part.lines ++ lines) (part.findings ++ found) where
  lines_eq := by rw [List.flatMap_cons, ← h.lines_eq]
  notes_eq := by rw [List.flatMap_cons, ← h.notes_eq, Findings.notes_append]
  warnings_eq := by rw [List.flatMap_cons, ← h.warnings_eq, Findings.warnings_append]
  stops := by
    intro before block after heq
    cases before with
    | nil =>
        cases heq
        rw [← h.lines_eq]
        exact hstop rfl
    | cons first before =>
        cases heq
        exact h.stops before block after rfl

section

variable {parts : List Part} {lines : List TaggedLine} {found : Findings}

theorem exists_split (h : Divides parts lines found) {part : Part} (hpart : part ∈ parts) :
    ∃ before after : List TaggedLine, lines = before ++ part.lines ++ after ∧
      (part.isCutOff = true → after.head?.all TaggedLine.isCode = true) := by
  obtain ⟨earlier, later, rfl⟩ := List.append_of_mem hpart
  refine ⟨earlier.flatMap Part.lines, later.flatMap Part.lines, ?_, ?_⟩
  · rw [h.lines_eq, List.flatMap_append, List.flatMap_cons, List.append_assoc]
  · intro hcut
    cases part with
    | lone tagged h => cases hcut
    | closed block line closer h => cases hcut
    | cutOff block => exact h.stops earlier block later rfl

theorem mem_notes_iff (h : Divides parts lines found) {note : Note} :
    note ∈ found.notes ↔ ∃ part ∈ parts, part.Makes note := by
  rw [h.notes_eq, List.mem_flatMap]
  constructor
  · rintro ⟨part, hpart, hnote⟩
    exact ⟨part, hpart, Part.makes_of_mem_notes hnote⟩
  · rintro ⟨part, hpart, hmade⟩
    exact ⟨part, hpart, hmade.mem_notes⟩

theorem mem_warnings_iff (h : Divides parts lines found) {warning : Warning} :
    warning ∈ found.warnings ↔ ∃ part ∈ parts, part.Warns warning := by
  rw [h.warnings_eq, List.mem_flatMap]
  constructor
  · rintro ⟨part, hpart, hwarning⟩
    exact ⟨part, hpart, Part.warns_of_mem_warnings hwarning⟩
  · rintro ⟨part, hpart, hwarns⟩
    exact ⟨part, hpart, hwarns.mem_warnings⟩

/-- A note comes from one part, somewhere among the lines. -/
theorem exists_part (h : Divides parts lines found) {note : Note} (hnote : note ∈ found.notes) :
    ∃ (before : List TaggedLine) (part : Part) (after : List TaggedLine),
      lines = before ++ part.lines ++ after ∧ part.Makes note ∧
      (part.isCutOff = true → after.head?.all TaggedLine.isCode = true) := by
  obtain ⟨part, hpart, hmade⟩ := h.mem_notes_iff.mp hnote
  obtain ⟨before, after, hlines, hstop⟩ := h.exists_split hpart
  exact ⟨before, part, after, hlines, hmade, hstop⟩

end

end Divides

/-- Assembly divides any lines into parts. -/
theorem exists_divides (lines : List TaggedLine) : ∃ parts, Divides parts lines (assemble lines) := by
  match lines with
  | [] => exact ⟨[], Divides.nil⟩
  | ⟨line, tag⟩ :: rest =>
      by_cases hopens : ∃ kind, TaggedLine.Opens ⟨line, tag⟩ kind
      · obtain ⟨kind, c, rfl, hrole⟩ := hopens
        obtain ⟨part, after, hlines, hrun, hstop, hlength⟩ := (Block.start kind line c hrole).exists_part rest
        obtain ⟨parts, hparts⟩ := exists_divides after
        refine ⟨part :: parts, ?_⟩
        have hassemble : assemble (⟨line, .comment c⟩ :: rest) = part.findings ++ assemble after := by
          rw [assemble, BlockState.run, BlockKind.step_idle_opening hrole]
          exact hrun
        rw [hassemble, show ⟨line, .comment c⟩ :: rest = part.lines ++ after from hlines.symm]
        exact hparts.cons hstop
      · have hlone : ∀ kind, ¬ TaggedLine.Opens ⟨line, tag⟩ kind := fun kind h => hopens ⟨kind, h⟩
        obtain ⟨parts, hparts⟩ := exists_divides rest
        refine ⟨.lone ⟨line, tag⟩ hlone :: parts, ?_⟩
        have hassemble : assemble (⟨line, tag⟩ :: rest) = (BlockState.idle.step ⟨line, tag⟩).2 ++ assemble rest := by
          show (BlockState.idle.step ⟨line, tag⟩).2 ++ (BlockState.idle.step ⟨line, tag⟩).1.run rest = _
          rw [TaggedLine.step_idle_of_not_opens hlone, assemble]
        rw [hassemble]
        exact hparts.cons nofun
termination_by lines.length

end Marginalia
