import Marginalia.Proofs.Relocation

/-! Indentation. White space put before the lines of a file moves comments to the right and lengthens code
lines, and changes nothing else, as long as a closing delimiter cannot begin with it. Outside block comments
a line is read from its first visible character on; inside one it is searched for the closing delimiter from
its very start, and that search passes over white space that the delimiter does not begin with. -/

namespace Marginalia

namespace Text

theorem indent_append {w : Text} (hw : w.isAllBlank = true) (s : Text) : indent (w ++ s) = w ++ s.indent :=
  List.takeWhile_append_of_pos (List.all_eq_true.mp hw)

theorem trimStart_append {w : Text} (hw : w.isAllBlank = true) (s : Text) : trimStart (w ++ s) = s.trimStart :=
  List.dropWhile_append_of_pos (List.all_eq_true.mp hw)

theorem cutFirst?_append {p : Char} (hp : isBlank p = false) {w : Text} (hw : w.isAllBlank = true)
    (pattern s : Text) : cutFirst? (p :: pattern) (w ++ s) =
      (cutFirst? (p :: pattern) s).map fun (before, rest) => (w ++ before, rest) := by
  induction w with
  | nil => simp
  | cons c w ih =>
      rw [isAllBlank, List.all_cons, Bool.and_eq_true] at hw
      have hne : p ≠ c := by
        rintro rfl
        simp [hp] at hw
      rw [List.cons_append, cutFirst?, after?, if_neg hne]
      simp only [ih hw.2, Option.map_map]
      rfl

end Text

theorem Comment.ofSegment_behind (w : Text) (start leader : Nat) (segment : Text) :
    Comment.ofSegment (w.bytes + start) leader segment = (Comment.ofSegment start leader segment).behind w := by
  by_cases hempty : segment.trim = []
  · simp [ofSegment, behind, hempty]
  · simp [ofSegment, behind, hempty, Nat.add_assoc]

theorem Comment.ofInterior_append {w : Text} (hw : w.isAllBlank = true) (segment : Text) :
    Comment.ofInterior (w ++ segment) = (Comment.ofInterior segment).behind w := by
  simp only [ofInterior, Text.indent_append hw, Text.trimStart_append hw, Text.bytes_append]
  split
  · split
    · rw [Nat.add_assoc, ofSegment_behind]
    · exact ofSegment_behind w _ _ _
  · exact ofSegment_behind w _ _ _

namespace CommentStyle

/-- The style has no block delimiters, or a closing one that begins with something other than white space. -/
def closesVisibly (style : CommentStyle) : Bool :=
  style.block.all fun block => block.closing.head?.any fun c => !isBlank c

theorem inside_append {style : CommentStyle} (hstyle : style.closesVisibly = true) {block : Delimiters}
    (hblock : style.block = some block) {w : Text} (hw : w.isAllBlank = true) (s : Text) :
    block.inside (w ++ s) = (w ++ (block.inside s).1, (block.inside s).2) := by
  rw [closesVisibly, hblock, Option.all_some] at hstyle
  cases hclosing : block.closing with
  | nil => simp [hclosing] at hstyle
  | cons p pattern =>
      have hp : isBlank p = false := by simpa [hclosing] using hstyle
      simp only [Delimiters.inside, hclosing, Text.cutFirst?_append hp hw]
      cases Text.cutFirst? (p :: pattern) s <;> rfl

theorem tagOutside_append (style : CommentStyle) {w : Text} (hw : w.isAllBlank = true) (raw : Text) :
    style.tagOutside (w ++ raw) = ((style.tagOutside raw).1.behind w, (style.tagOutside raw).2) := by
  simp only [tagOutside, Text.indent_append hw, Text.trimStart_append hw, Text.bytes_append]
  split
  · rfl
  · split
    · rw [Nat.add_assoc, Comment.ofSegment_behind]
      rfl
    · split
      · rw [Nat.add_assoc, Comment.ofSegment_behind]
        rfl
      · rfl

theorem tag_append {style : CommentStyle} (hstyle : style.closesVisibly = true) (isOpen : Bool) {w : Text}
    (hw : w.isAllBlank = true) (raw : Text) :
    style.tag isOpen (w ++ raw) = ((style.tag isOpen raw).1.behind w, (style.tag isOpen raw).2) := by
  cases isOpen with
  | false => exact style.tagOutside_append hw raw
  | true =>
      cases hblock : style.block with
      | none =>
          simp only [tag, hblock]
          exact style.tagOutside_append hw raw
      | some block =>
          simp only [tag, hblock, inside_append hstyle hblock hw, Comment.ofInterior_append hw]
          rfl

end CommentStyle

/-- Every line where it is, behind the margin that the list has for it. -/
def Relocation.indented (indents : List Text) : Relocation := ⟨id, fun line => indents.getD (line - 1) []⟩

theorem CommentStyle.tagFrom_zipWith {style : CommentStyle} (hstyle : style.closesVisibly = true) {ρ : Relocation}
    (hline : ∀ n, ρ.line n = n) {indents lines : List Text} (hlength : indents.length = lines.length)
    (hblank : ∀ w ∈ indents, Text.isAllBlank w = true) (isOpen : Bool) (line : Nat)
    (hmargin : ∀ i, ρ.margin (line + i) = indents.getD i []) :
    style.tagFrom isOpen line (List.zipWith (· ++ ·) indents lines) =
      (style.tagFrom isOpen line lines).map ρ.tagged := by
  induction lines generalizing indents isOpen line with
  | nil =>
      rw [List.zipWith_nil_right]
      rfl
  | cons raw rest ih =>
      cases indents with
      | nil => cases hlength
      | cons w indents =>
          have hw := hblank w List.mem_cons_self
          have hfirst : ρ.margin line = w := hmargin 0
          rw [List.zipWith_cons_cons, tagFrom_cons, tagFrom_cons, List.map_cons, tag_append hstyle isOpen hw,
            ih (Nat.succ.inj hlength) fun later hlater => hblank later (List.mem_cons_of_mem w hlater)]
          · rw [Relocation.tagged, hline, hfirst]
          · intro i
            rw [Nat.add_assoc, Nat.add_comm 1]
            exact hmargin (i + 1)

/-- White space before the lines of a file changes columns and the texts of anchors and nothing else. No
closing delimiter of a language known from the start is in the way of that. -/
theorem extract_zipWith_indents :
    (∀ entry ∈ LanguageTable.builtinLanguages, entry.style.closesVisibly = true) ∧
    ∀ style : CommentStyle, style.closesVisibly = true → ∀ indents lines : List Text,
      indents.length = lines.length → (∀ w ∈ indents, Text.isAllBlank w = true) →
      style.extract (List.zipWith (· ++ ·) indents lines) =
        (Relocation.indented indents).findings (style.extract lines) := by
  refine ⟨by decide, fun style hstyle indents lines hlength hblank => ?_⟩
  have htagged : style.tagLines (List.zipWith (· ++ ·) indents lines) =
      (style.tagLines lines).map (Relocation.indented indents).tagged := by
    refine CommentStyle.tagFrom_zipWith hstyle (fun _ => rfl) hlength hblank false 1 fun i => ?_
    show indents.getD (1 + i - 1) [] = indents.getD i []
    rw [Nat.add_sub_cancel_left]
  rw [CommentStyle.extract, htagged, Relocation.assemble_map]
  refine Relocation.anchored_findings _ fun n _ => ?_
  rw [anchorAfter_anchorIndex, anchorAfter_anchorIndex, ← List.map_drop, Relocation.findSome?_map]
  rfl

/-- A block comment with a decorated line and the code after it, behind margins of different widths. -/
theorem extract_zipWith_indents_interior :
    CommentStyle.slashes.closesVisibly = true ∧
      CommentStyle.slashes.extract (List.zipWith (· ++ ·) ["\t", "\u3000 ", " "]
        ["/* TODOS.START", "* a */", "x"]) =
        (Relocation.indented ["\t", "\u3000 ", " "]).findings
          (CommentStyle.slashes.extract ["/* TODOS.START", "* a */", "x"]) :=
  ⟨by decide, extract_zipWith_indents.2 _ (by decide) _ _ rfl (by decide)⟩

end Marginalia
