import Marginalia.Proofs.Anchors

/-! Moving lines. A relocation gives every line a new number and puts a margin before its text. What is
found in the relocated lines is what was found in the lines, relocated: assembly copies line numbers and
columns and decides by texts alone, so each of its steps commutes with any relocation whatever, and so does
a whole run. Anchors are looked up by place, so for them the new numbers have to fit the new places. -/

namespace Marginalia

/-- New numbers for the lines of a file, and a margin for each of them by its old number. -/
structure Relocation where
  line : Nat → Nat
  margin : Nat → Text

namespace Comment

def behind (margin : Text) (c : Comment) : Comment := { c with column := margin.bytes + c.column }

end Comment

/-- The tag of a line after a margin is put before it. -/
def Tag.behind (margin : Text) : Tag → Tag
  | .comment c => .comment (c.behind margin)
  | .code text => .code (margin ++ text)
  | .blank => .blank

@[simp] theorem Tag.behind_nil (tag : Tag) : tag.behind [] = tag := by
  cases tag with
  | comment c => simp [Tag.behind, Comment.behind]
  | code text => rfl
  | blank => rfl

theorem BlockState.run_cons (state : BlockState) (t : TaggedLine) (rest : List TaggedLine) :
    state.run (t :: rest) = (state.step t).2 ++ (state.step t).1.run rest := rfl

namespace Relocation

/-- All lines `count` further down, with no margin. -/
def down (count : Nat) : Relocation := ⟨(· + count), fun _ => []⟩

variable (ρ : Relocation)

def tagged (t : TaggedLine) : TaggedLine := ⟨ρ.line t.line, t.tag.behind (ρ.margin t.line)⟩

def bodyLine (b : BodyLine) : BodyLine := ⟨ρ.line b.line, (ρ.margin b.line).bytes + b.column, b.text⟩

def anchor (a : Anchor) : Anchor := ⟨ρ.line a.line, ρ.margin a.line ++ a.text⟩

def note (n : Note) : Note where
  kind := n.kind
  startLine := ρ.line n.startLine
  endLine := ρ.line n.endLine
  body := n.body.map ρ.bodyLine
  anchor := n.anchor.map ρ.anchor

def warning (w : Warning) : Warning := { w with line := ρ.line w.line }

/-- Everything that was found, with the numbers, columns and code texts that it has after the move. -/
def findings (found : Findings) : Findings := ⟨found.notes.map ρ.note, found.warnings.map ρ.warning⟩

def openBlock (block : OpenBlock) : OpenBlock :=
  ⟨ρ.line block.startLine, ρ.line block.lastLine, block.body.map ρ.bodyLine⟩

def state : BlockState → BlockState
  | .idle => .idle
  | .brace block depth => .brace (ρ.openBlock block) depth
  | .collection block => .collection (ρ.openBlock block)

@[simp] theorem findings_append (found later : Findings) :
    ρ.findings (found ++ later) = ρ.findings found ++ ρ.findings later := by
  show Findings.mk _ _ = Findings.mk _ _
  rw [Findings.notes_append, Findings.warnings_append, List.map_append, List.map_append]
  rfl

@[simp] theorem findings_none : ρ.findings .none = .none := rfl

@[simp] theorem findings_note (n : Note) : ρ.findings (.note n) = .note (ρ.note n) := rfl

theorem openBlock_push (block : OpenBlock) (line : Nat) (c : Comment) :
    (ρ.openBlock block).push (ρ.line line) (c.behind (ρ.margin line)) = ρ.openBlock (block.push line c) := by
  simp [openBlock, OpenBlock.push, bodyLine, Comment.behind]

theorem toNote_openBlock (block : OpenBlock) (kind : NoteKind) (endLine : Nat) :
    (ρ.openBlock block).toNote kind (ρ.line endLine) = ρ.note (block.toNote kind endLine) := by
  simp [openBlock, OpenBlock.toNote, note]

theorem isEmpty_openBlock (block : OpenBlock) : (ρ.openBlock block).body.isEmpty = block.body.isEmpty := by
  simp [openBlock, Array.isEmpty]

@[simp] theorem openBlock_start (line : Nat) : ρ.openBlock (.start line) = .start (ρ.line line) := by
  simp [openBlock, OpenBlock.start]

theorem close_openBlock (block : OpenBlock) (kind : NoteKind) (endLine : Nat) :
    (ρ.openBlock block).close kind (ρ.line endLine) = ρ.findings (block.close kind endLine) := by
  rw [OpenBlock.close, OpenBlock.close, isEmpty_openBlock, toNote_openBlock]
  split <;> rfl

theorem cutOff_openBlock (block : OpenBlock) (kind : NoteKind) :
    (ρ.openBlock block).cutOff kind = ρ.findings (block.cutOff kind) := by
  rw [OpenBlock.cutOff, OpenBlock.cutOff, findings_append, isEmpty_openBlock]
  congr 1
  split
  · rfl
  · exact congrArg Findings.note (toNote_openBlock ρ block kind block.lastLine)

theorem finish_state (state : BlockState) : (ρ.state state).finish = ρ.findings state.finish := by
  cases state with
  | idle => rfl
  | brace block depth => exact cutOff_openBlock ρ block .brace
  | collection block => exact cutOff_openBlock ρ block .collection

theorem stepIdle_behind (line : Nat) (c : Comment) :
    BlockState.stepIdle (ρ.line line) (c.behind (ρ.margin line)) =
      (ρ.state (BlockState.stepIdle line c).1, ρ.findings (BlockState.stepIdle line c).2) := by
  unfold BlockState.stepIdle
  rw [show (c.behind (ρ.margin line)).text = c.text from rfl]
  cases Role.ofText c.text with
  | marker keyword text offset => simp [state, note, bodyLine, Comment.behind, Nat.add_assoc]
  | braceOpen => simp [state]
  | collectionOpen => simp [state]
  | braceClose => rfl
  | collectionClose => rfl
  | prose => rfl

theorem stepBrace_behind (block : OpenBlock) (depth line : Nat) (c : Comment) :
    BlockState.stepBrace (ρ.openBlock block) depth (ρ.line line) (c.behind (ρ.margin line)) =
      (ρ.state (BlockState.stepBrace block depth line c).1,
        ρ.findings (BlockState.stepBrace block depth line c).2) := by
  unfold BlockState.stepBrace
  rw [show (c.behind (ρ.margin line)).text = c.text from rfl, openBlock_push, close_openBlock]
  cases Role.ofText c.text with
  | braceClose => by_cases hdepth : depth = 1 <;> simp [hdepth, state]
  | braceOpen => rfl
  | prose => rfl
  | marker keyword text offset => rfl
  | collectionOpen => rfl
  | collectionClose => rfl

theorem stepCollection_behind (block : OpenBlock) (line : Nat) (c : Comment) :
    BlockState.stepCollection (ρ.openBlock block) (ρ.line line) (c.behind (ρ.margin line)) =
      (ρ.state (BlockState.stepCollection block line c).1,
        ρ.findings (BlockState.stepCollection block line c).2) := by
  unfold BlockState.stepCollection
  rw [show (c.behind (ρ.margin line)).text = c.text from rfl, openBlock_push, close_openBlock]
  cases Role.ofText c.text with
  | collectionClose => rfl
  | braceClose => rfl
  | braceOpen => rfl
  | prose => rfl
  | marker keyword text offset => rfl
  | collectionOpen => rfl

theorem step_tagged (state : BlockState) (t : TaggedLine) :
    (ρ.state state).step (ρ.tagged t) = (ρ.state (state.step t).1, ρ.findings (state.step t).2) := by
  obtain ⟨line, tag⟩ := t
  cases tag with
  | blank => rfl
  | code text => exact congrArg (Prod.mk BlockState.idle) (finish_state ρ state)
  | comment c =>
      cases state with
      | idle => exact stepIdle_behind ρ line c
      | brace block depth => exact stepBrace_behind ρ block depth line c
      | collection block => exact stepCollection_behind ρ block line c

theorem run_map (state : BlockState) (lines : List TaggedLine) :
    (ρ.state state).run (lines.map ρ.tagged) = ρ.findings (state.run lines) := by
  induction lines generalizing state with
  | nil => exact finish_state ρ state
  | cons t rest ih =>
      rw [List.map_cons, BlockState.run_cons, BlockState.run_cons, step_tagged, findings_append, ih]

theorem assemble_map (lines : List TaggedLine) :
    assemble (lines.map ρ.tagged) = ρ.findings (assemble lines) := run_map ρ .idle lines

theorem anchor?_tagged (t : TaggedLine) : (ρ.tagged t).anchor? = t.anchor?.map ρ.anchor := by
  obtain ⟨line, tag⟩ := t
  cases tag <;> rfl

theorem findSome?_map (lines : List TaggedLine) :
    (lines.map ρ.tagged).findSome? TaggedLine.anchor? =
      (lines.findSome? TaggedLine.anchor?).map ρ.anchor := by
  induction lines with
  | nil => rfl
  | cons t rest ih =>
      rw [List.map_cons, List.findSome?_cons, List.findSome?_cons, anchor?_tagged]
      cases t.anchor? with
      | none => exact ih
      | some anchor => rfl

/-- Where the new places of the lines give the new anchors, anchoring commutes with the move. -/
theorem anchored_findings {found : Findings} {lines moved : List TaggedLine}
    (h : ∀ n ∈ found.notes, anchorAfter (anchorIndex moved) (ρ.line n.endLine) =
      (anchorAfter (anchorIndex lines) n.endLine).map ρ.anchor) :
    (ρ.findings found).anchored moved = ρ.findings (found.anchored lines) := by
  show Findings.mk _ _ = Findings.mk _ _
  congr 1
  rw [findings, Findings.anchored, List.map_map, List.map_map]
  refine List.map_congr_left fun n hn => ?_
  simp only [Function.comp_apply, note]
  rw [h n hn]

end Relocation
end Marginalia
