import Mathlib.Algebra.Ring.Int.Defs
import Mathlib.Data.List.Induction
import Marginalia.Note.Assembly

/-! Where a block ends, said on the texts of its body alone. Inside braces every text changes the
nesting by its weight, and the block ends at the first `}` at which the weights before it add up to
zero; a collection ends at the first text that closes collections. The states of assembly follow this
rule: the depth they count is one more than the weights of the body so far, so it is determined by the
body and never falls below one. -/

namespace Marginalia

namespace Role

/-- By how many levels a comment text inside braces changes their nesting. -/
def weight (text : Text) : Int :=
  match ofText text with
  | .braceOpen => 1
  | .braceClose => -1
  | _ => if text = ['{'] then 1 else 0

theorem neg_one_le_weight (text : Text) : -1 ≤ weight text := by
  unfold weight
  split
  · decide
  · decide
  · split <;> decide

theorem weight_eq_neg_one {text : Text} (h : weight text = -1) : ofText text = .braceClose := by
  unfold weight at h
  split at h
  · simp at h
  · assumption
  · split at h <;> simp at h

theorem weight_braceOpen {text : Text} (h : ofText text = .braceOpen) : weight text = 1 := by
  rw [weight, h]

theorem weight_braceClose {text : Text} (h : ofText text = .braceClose) : weight text = -1 := by
  rw [weight, h]

theorem weight_prose {text : Text} (h : ofText text = .prose) :
    weight text = if text = ['{'] then 1 else 0 := by
  rw [weight, h]

theorem ofText_lone_brace : ofText ['{'] = .prose := by decide

theorem weight_eq_zero {text : Text} (hopen : ofText text ≠ .braceOpen) (hclose : ofText text ≠ .braceClose)
    (hprose : ofText text ≠ .prose) : weight text = 0 := by
  unfold weight
  split
  · contradiction
  · contradiction
  · refine if_neg fun hbrace => hprose ?_
    rw [hbrace]
    exact ofText_lone_brace

end Role

/-- The kinds of notes that are blocks. -/
inductive BlockKind where
  | brace
  | collection
  deriving DecidableEq

namespace BlockKind

def noteKind : BlockKind → NoteKind
  | .brace => .brace
  | .collection => .collection

/-- The role of a line that opens such a block. -/
def opening : BlockKind → Role
  | .brace => .braceOpen
  | .collection => .collectionOpen

/-- The role of a line that can close such a block. -/
def closing : BlockKind → Role
  | .brace => .braceClose
  | .collection => .collectionClose

/-- The text ends a block whose body has the texts `before`. -/
def EndsAt (kind : BlockKind) (before : List Text) (text : Text) : Prop :=
  Role.ofText text = kind.closing ∧ (kind = .brace → (before.map Role.weight).sum = 0)

instance (kind : BlockKind) (before : List Text) (text : Text) : Decidable (kind.EndsAt before text) :=
  inferInstanceAs (Decidable (_ ∧ _))

/-- None of the texts ends the block, each taken after those before it. -/
def StaysOpen (kind : BlockKind) (texts : List Text) : Prop :=
  ∀ before text after, texts = before ++ text :: after → ¬ kind.EndsAt before text

theorem noteKind_injective {kind other : BlockKind} (h : kind.noteKind = other.noteKind) : kind = other := by
  cases kind with
  | brace => cases other with
    | brace => rfl
    | collection => cases h
  | collection => cases other with
    | brace => cases h
    | collection => rfl

theorem isBlock_noteKind (kind : BlockKind) : kind.noteKind.isBlock = true := by
  cases kind <;> rfl

theorem noteKind_ne_marker (kind : BlockKind) (keyword : Keyword) : kind.noteKind ≠ .marker keyword := by
  cases kind <;> exact nofun

theorem opening_ne_marker (kind : BlockKind) (keyword : Keyword) (text : Text) (offset : Nat) :
    kind.opening ≠ .marker keyword text offset := by
  cases kind <;> exact nofun

theorem closing_ne_marker (kind : BlockKind) (keyword : Keyword) (text : Text) (offset : Nat) :
    kind.closing ≠ .marker keyword text offset := by
  cases kind <;> exact nofun

theorem staysOpen_nil (kind : BlockKind) : kind.StaysOpen [] := by
  intro before text after h
  simp at h

theorem staysOpen_concat {kind : BlockKind} {texts : List Text} {text : Text}
    (hopen : kind.StaysOpen texts) (hend : ¬ kind.EndsAt texts text) : kind.StaysOpen (texts ++ [text]) := by
  intro before t after h
  rcases List.eq_nil_or_concat after with rfl | ⟨after', last, rfl⟩
  · obtain ⟨rfl, ht⟩ := List.append_inj' h rfl
    cases ht
    exact hend
  · rw [List.concat_eq_append, ← List.cons_append, ← List.append_assoc] at h
    exact hopen before t after' (List.append_inj' h rfl).1

theorem StaysOpen.of_append {kind : BlockKind} {texts later : List Text} (h : kind.StaysOpen (texts ++ later)) :
    kind.StaysOpen texts := by
  intro before text after htexts
  refine h before text (after ++ later) ?_
  rw [htexts, List.append_assoc, List.cons_append]

theorem StaysOpen.of_concat {kind : BlockKind} {texts : List Text} {text : Text}
    (h : kind.StaysOpen (texts ++ [text])) : kind.StaysOpen texts ∧ ¬ kind.EndsAt texts text :=
  ⟨h.of_append, h texts text [] rfl⟩

/-- Braces that are not closed yet have as many openers as closers, or more. -/
theorem StaysOpen.weights_nonneg {texts : List Text} (h : BlockKind.brace.StaysOpen texts) :
    0 ≤ (texts.map Role.weight).sum := by
  induction texts using List.reverseRecOn with
  | nil => simp
  | append_singleton texts text ih =>
      obtain ⟨hopen, hend⟩ := h.of_concat
      have hsum := ih hopen
      have hweight := Role.neg_one_le_weight text
      rw [List.map_append, List.sum_append, List.map_singleton, List.sum_singleton]
      by_contra hneg
      -- A step below zero would be a closer at level zero, which ends the block.
      refine hend ⟨Role.weight_eq_neg_one ?_, fun _ => ?_⟩ <;> omega

end BlockKind

def OpenBlock.texts (block : OpenBlock) : List Text := block.body.toList.map BodyLine.text

@[simp] theorem OpenBlock.texts_push (block : OpenBlock) (line : Nat) (c : Comment) :
    (block.push line c).texts = block.texts ++ [c.text] := by
  simp [OpenBlock.texts, OpenBlock.push]

namespace BlockKind

/-- The state of assembly inside a block of the kind. -/
def state (kind : BlockKind) (block : OpenBlock) : BlockState :=
  match kind with
  | .brace => .brace block (1 + (block.texts.map Role.weight).sum).toNat
  | .collection => .collection block

theorem step_idle_opening {kind : BlockKind} {c : Comment} (h : Role.ofText c.text = kind.opening)
    (line : Nat) : BlockState.idle.step ⟨line, .comment c⟩ = (kind.state (.start line), .none) := by
  cases kind with
  | brace => simp only [BlockState.step, BlockState.stepIdle, h, opening]; rfl
  | collection => simp only [BlockState.step, BlockState.stepIdle, h, opening]; rfl

theorem step_state_blank (kind : BlockKind) (block : OpenBlock) (line : Nat) :
    (kind.state block).step ⟨line, .blank⟩ = (kind.state block, .none) := rfl

theorem step_state_code (kind : BlockKind) (block : OpenBlock) (line : Nat) (text : Text) :
    (kind.state block).step ⟨line, .code text⟩ = (.idle, block.cutOff kind.noteKind) := by
  cases kind <;> rfl

theorem finish_state (kind : BlockKind) (block : OpenBlock) :
    (kind.state block).finish = block.cutOff kind.noteKind := by
  cases kind <;> rfl

theorem step_state_of_endsAt {kind : BlockKind} {block : OpenBlock} {c : Comment}
    (h : kind.EndsAt block.texts c.text) (line : Nat) :
    (kind.state block).step ⟨line, .comment c⟩ = (.idle, block.close kind.noteKind line) := by
  obtain ⟨hrole, hweights⟩ := h
  cases kind with
  | brace =>
      simp only [state, BlockState.step, BlockState.stepBrace, hrole, closing, hweights rfl]
      rfl
  | collection =>
      simp only [state, BlockState.step, BlockState.stepCollection, hrole, closing]
      rfl

/-- Inside braces, a comment line that does not end the block is body, and the depth follows its
weight. -/
theorem stepBrace_eq_push {depth : Nat} {c : Comment} (hpos : 1 ≤ depth)
    (hend : Role.ofText c.text = .braceClose → depth ≠ 1) (block : OpenBlock) (line : Nat) :
    BlockState.stepBrace block depth line c =
      (.brace (block.push line c) (depth + Role.weight c.text).toNat, .none) := by
  cases hrole : Role.ofText c.text with
  | braceClose =>
      have hdepth : ((depth : Int) + Role.weight c.text).toNat = depth - 1 := by
        rw [Role.weight_braceClose hrole]
        omega
      rw [hdepth, BlockState.stepBrace, hrole]
      exact if_neg (hend hrole)
  | braceOpen =>
      have hdepth : ((depth : Int) + Role.weight c.text).toNat = depth + 1 := by
        rw [Role.weight_braceOpen hrole]
        omega
      rw [hdepth, BlockState.stepBrace, hrole]
  | prose =>
      have hdepth : ((depth : Int) + Role.weight c.text).toNat = if c.text = ['{'] then depth + 1 else depth := by
        rw [Role.weight_prose hrole]
        split <;> omega
      rw [hdepth, BlockState.stepBrace, hrole]
  | marker keyword text offset =>
      rw [Role.weight_eq_zero (by simp [hrole]) (by simp [hrole]) (by simp [hrole]),
        BlockState.stepBrace, hrole]
      rfl
  | collectionOpen =>
      rw [Role.weight_eq_zero (by simp [hrole]) (by simp [hrole]) (by simp [hrole]),
        BlockState.stepBrace, hrole]
      rfl
  | collectionClose =>
      rw [Role.weight_eq_zero (by simp [hrole]) (by simp [hrole]) (by simp [hrole]),
        BlockState.stepBrace, hrole]
      rfl

theorem step_state_of_not_endsAt {kind : BlockKind} {block : OpenBlock} {c : Comment}
    (hopen : kind.StaysOpen block.texts) (hend : ¬ kind.EndsAt block.texts c.text) (line : Nat) :
    (kind.state block).step ⟨line, .comment c⟩ = (kind.state (block.push line c), .none) := by
  cases kind with
  | brace =>
      have hsum := hopen.weights_nonneg
      simp only [state, OpenBlock.texts_push, List.map_append, List.sum_append, List.map_singleton,
        List.sum_singleton]
      generalize hw : (block.texts.map Role.weight).sum = w at hsum
      have hclose : Role.ofText c.text = .braceClose → (1 + w).toNat ≠ 1 := by
        intro hrole hdepth
        exact hend ⟨hrole, fun _ => by omega⟩
      show BlockState.stepBrace block (1 + w).toNat line c = _
      rw [stepBrace_eq_push (by omega) hclose, Int.toNat_of_nonneg (by omega), Int.add_assoc]
  | collection =>
      have hrole : Role.ofText c.text ≠ .collectionClose := fun hrole => hend ⟨hrole, nofun⟩
      simp only [state, BlockState.step, BlockState.stepCollection]

end BlockKind
end Marginalia
