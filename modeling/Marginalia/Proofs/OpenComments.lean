import Marginalia.Proofs.Indentation
import Marginalia.Proofs.Slice

/-! Which comment is open after a line. A reader goes through a line from left to right: inside a comment
the next closing delimiter ends it, outside one the next opening delimiter starts the next. Tagging looks at
less than that: behind the first comment of a line, a comment is taken to be open if some opening delimiter
has no closing one behind it. The two agree but for one case. Where the last opening delimiter and the last
closing one share characters, as in `*/*`, the reader may have left the comment with the closing one, and
tagging still takes the opening one to start another. -/

namespace Marginalia

namespace Text

theorem cutFirst?_of_after? {pattern s rest : Text} (h : after? pattern s = some rest) :
    cutFirst? pattern s = some ([], rest) := by
  cases s with
  | nil =>
      have hnil := eq_append_of_after? h
      obtain ⟨rfl, rfl⟩ := List.append_eq_nil_iff.mp hnil.symm
      rfl
  | cons c s => rw [cutFirst?, h]

/-- Nothing behind an occurrence is lost by cutting at the first one. -/
theorem exists_cutFirst? {pattern behind s : Text} (h : pattern ++ behind <:+ s) :
    ∃ before rest, cutFirst? pattern s = some (before, rest) ∧ behind.length ≤ rest.length := by
  induction s with
  | nil =>
      have hnil := List.suffix_nil.mp h
      have hcut := cutFirst?_of_after? (after?_append pattern behind)
      rw [hnil] at hcut
      exact ⟨[], behind, hcut, Nat.le_refl _⟩
  | cons c s ih =>
      cases hafter : after? pattern (c :: s) with
      | some rest =>
          refine ⟨[], rest, cutFirst?_of_after? hafter, ?_⟩
          have hlength := h.length_le
          rw [eq_append_of_after? hafter, List.length_append, List.length_append] at hlength
          omega
      | none =>
          rcases List.suffix_cons_iff.mp h with heq | hsuffix
          · rw [← heq, after?_append] at hafter
            cases hafter
          · obtain ⟨before, rest, hcut, hle⟩ := ih hsuffix
            refine ⟨c :: before, rest, ?_, hle⟩
            rw [cutFirst?, hafter, hcut]
            rfl

/-- Nothing but what stands behind every occurrence is left behind the last one. -/
theorem exists_cutLast? {pattern behind s : Text} (h : pattern ++ behind <:+ s) :
    ∃ before rest, cutLast? pattern s = some (before, rest) ∧ rest.length ≤ behind.length := by
  induction s with
  | nil =>
      obtain ⟨rfl, rfl⟩ := List.append_eq_nil_iff.mp (List.suffix_nil.mp h)
      exact ⟨[], [], rfl, Nat.le_refl _⟩
  | cons c s ih =>
      cases hlater : cutLast? pattern s with
      | some pieces =>
          obtain ⟨before, rest⟩ := pieces
          refine ⟨c :: before, rest, by rw [cutLast?, hlater], ?_⟩
          rcases List.suffix_cons_iff.mp h with heq | hsuffix
          · have hlength := congrArg List.length heq
            rw [eq_append_of_cutLast? hlater] at hlength
            simp only [List.length_append, List.length_cons] at hlength
            omega
          · obtain ⟨before', rest', hcut, hle⟩ := ih hsuffix
            cases hlater.symm.trans hcut
            exact hle
      | none =>
          rcases List.suffix_cons_iff.mp h with heq | hsuffix
          · refine ⟨[], behind, ?_, Nat.le_refl _⟩
            rw [cutLast?, hlater, ← heq, after?_append]
            rfl
          · obtain ⟨before', rest', hcut, -⟩ := ih hsuffix
            cases hlater.symm.trans hcut

theorem suffix_of_cutFirst? {pattern s before rest : Text} (h : cutFirst? pattern s = some (before, rest)) :
    pattern ++ rest <:+ s := by
  rw [eq_append_of_cutFirst? h, List.append_assoc]
  exact List.suffix_append before _

theorem suffix_of_cutLast? {pattern s before rest : Text} (h : cutLast? pattern s = some (before, rest)) :
    pattern ++ rest <:+ s := by
  rw [eq_append_of_cutLast? h, List.append_assoc]
  exact List.suffix_append before _

theorem contains_eq_true_iff {s pattern : Text} :
    Text.contains s pattern = true ↔ ∃ behind, pattern ++ behind <:+ s := by
  rw [contains, Option.isSome_iff_exists]
  constructor
  · rintro ⟨⟨before, rest⟩, hcut⟩
    exact ⟨rest, suffix_of_cutFirst? hcut⟩
  · rintro ⟨behind, hsuffix⟩
    obtain ⟨before, rest, hcut, -⟩ := exists_cutFirst? hsuffix
    exact ⟨_, hcut⟩

theorem contains_of_suffix {s t pattern behind : Text} (hpattern : pattern ++ behind <:+ s) (ht : t <:+ s)
    (hlength : (pattern ++ behind).length ≤ t.length) : Text.contains t pattern = true :=
  contains_eq_true_iff.mpr ⟨behind, List.suffix_of_suffix_length_le hpattern ht hlength⟩

theorem contains_eq_false_of_suffix {s t pattern : Text} (hst : s <:+ t)
    (h : Text.contains t pattern = false) : Text.contains s pattern = false := by
  by_contra hcontains
  obtain ⟨behind, hbehind⟩ := contains_eq_true_iff.mp ((Bool.not_eq_false _).mp hcontains)
  rw [contains_eq_true_iff.mpr ⟨behind, hbehind.trans hst⟩] at h
  cases h

/-- Some occurrence of `pattern` in the text has no `answer` behind it. -/
def HasUnanswered (s pattern answer : Text) : Prop :=
  ∃ behind, pattern ++ behind <:+ s ∧ Text.contains behind answer = false

theorem HasUnanswered.of_suffix {s t pattern answer : Text} (h : HasUnanswered s pattern answer)
    (hst : s <:+ t) : HasUnanswered t pattern answer :=
  h.imp fun _ hbehind => ⟨hbehind.1.trans hst, hbehind.2⟩

/-- The end of a text has such an occurrence if it has the pattern at all. -/
theorem HasUnanswered.within {s t pattern answer : Text} (h : HasUnanswered s pattern answer) (hts : t <:+ s)
    (ht : Text.contains t pattern = true) : HasUnanswered t pattern answer := by
  obtain ⟨behind, hpattern, hanswer⟩ := h
  obtain ⟨behind', hpattern'⟩ := contains_eq_true_iff.mp ht
  have hbehind : behind <:+ s := (List.suffix_append _ behind).trans hpattern
  have hbehind' : behind' <:+ s := ((List.suffix_append _ behind').trans hpattern').trans hts
  rcases Nat.le_total behind'.length behind.length with hle | hle
  · have hsuffix := List.suffix_of_suffix_length_le hbehind' hbehind hle
    exact ⟨behind', hpattern', contains_eq_false_of_suffix hsuffix hanswer⟩
  · refine ⟨behind, List.suffix_of_suffix_length_le hpattern hts ?_, hanswer⟩
    have hlength := hpattern'.length_le
    rw [List.length_append] at hlength ⊢
    omega

/-- The last occurrence is the one with the least behind it. -/
theorem hasUnanswered_iff {s pattern answer : Text} : HasUnanswered s pattern answer ↔
    ∃ before rest, cutLast? pattern s = some (before, rest) ∧ Text.contains rest answer = false := by
  constructor
  · rintro ⟨behind, hpattern, hanswer⟩
    obtain ⟨before, rest, hcut, hle⟩ := exists_cutLast? hpattern
    have hrest : rest <:+ s := (List.suffix_append _ rest).trans (suffix_of_cutLast? hcut)
    have hbehind : behind <:+ s := (List.suffix_append _ behind).trans hpattern
    exact ⟨before, rest, hcut,
      contains_eq_false_of_suffix (List.suffix_of_suffix_length_le hrest hbehind hle) hanswer⟩
  · rintro ⟨before, rest, hcut, hanswer⟩
    exact ⟨rest, suffix_of_cutLast? hcut, hanswer⟩

/-- An occurrence stands behind the last one of another pattern unless the last one begins earlier. -/
theorem contains_eq_false_iff_of_cutLast? {s pattern answer before rest before' rest' : Text}
    (hpattern : cutLast? pattern s = some (before, rest)) (hanswer : cutLast? answer s = some (before', rest')) :
    Text.contains rest answer = false ↔ rest.length < (answer ++ rest').length := by
  have hrest : rest <:+ s := (List.suffix_append _ rest).trans (suffix_of_cutLast? hpattern)
  constructor
  · intro hcontains
    by_contra hle
    rw [contains_of_suffix (suffix_of_cutLast? hanswer) hrest (Nat.not_lt.mp hle)] at hcontains
    cases hcontains
  · intro hlt
    by_contra hcontains
    obtain ⟨behind, hbehind⟩ := contains_eq_true_iff.mp ((Bool.not_eq_false _).mp hcontains)
    obtain ⟨_, _, hcut, hle⟩ := exists_cutLast? (hbehind.trans hrest)
    cases hanswer.symm.trans hcut
    have hlength := hbehind.length_le
    rw [List.length_append] at hlt hlength
    omega

end Text

namespace Delimiters

/-- Neither delimiter is white space only. -/
structure Visible (block : Delimiters) : Prop where
  opening : block.opening.isAllBlank = false
  closing : block.closing.isAllBlank = false

/-- The delimiter that ends a comment, or the one that starts the next. -/
def awaited (block : Delimiters) (isOpen : Bool) : Text := if isOpen then block.closing else block.opening

theorem Visible.awaited_ne_nil {block : Delimiters} (h : block.Visible) (isOpen : Bool) :
    block.awaited isOpen ≠ [] := by
  intro hnil
  cases isOpen with
  | true =>
      have hclosing : block.closing = [] := hnil
      have hvisible := h.closing
      rw [hclosing] at hvisible
      cases hvisible
  | false =>
      have hopening : block.opening = [] := hnil
      have hvisible := h.opening
      rw [hopening] at hvisible
      cases hvisible

theorem Visible.length_lt {block : Delimiters} (h : block.Visible) (isOpen : Bool) {s before rest : Text}
    (hcut : Text.cutFirst? (block.awaited isOpen) s = some (before, rest)) : rest.length < s.length := by
  have hpos := List.length_pos_iff.mpr (h.awaited_ne_nil isOpen)
  rw [Text.eq_append_of_cutFirst? hcut, List.length_append, List.length_append]
  omega

/-- Whether a comment is open at the end of a text that is read from left to right, given whether one is
open at its start. -/
def scan (block : Delimiters) (h : block.Visible) (isOpen : Bool) (s : Text) : Bool :=
  match hcut : Text.cutFirst? (block.awaited isOpen) s with
  | none => isOpen
  | some (_, rest) =>
    have := h.length_lt isOpen hcut
    block.scan h (!isOpen) rest
termination_by s.length

def scanLines (block : Delimiters) (h : block.Visible) (lines : List Text) : Bool :=
  lines.foldl (block.scan h) false

/-- The last opening delimiter of the text and its last closing delimiter share characters. -/
def tangled (block : Delimiters) (s : Text) : Bool :=
  match Text.cutLast? block.opening s, Text.cutLast? block.closing s with
  | some (_, behind), some (_, behind') =>
    behind.length < (block.closing ++ behind').length && behind'.length < (block.opening ++ behind).length
  | _, _ => false

/-- What stands behind the first comment of a line, if the comment ends on the line. -/
def behindFirst? (block : Delimiters) (isOpen : Bool) (raw : Text) : Option Text :=
  let inside := if isOpen then some raw else (Text.cutFirst? block.opening raw).map Prod.snd
  inside.bind fun s => (Text.cutFirst? block.closing s).map Prod.snd

/-- A line that tagging and a reader take alike. Outside a comment it begins with the opening delimiter or
has none, and if the last delimiters behind its first comment share characters, a comment is open after it. -/
structure Clear (block : Delimiters) (h : block.Visible) (isOpen : Bool) (raw : Text) : Prop where
  placed : isOpen = true ∨ block.opening <+: raw.trimStart ∨ Text.contains raw block.opening = false
  untangled : (block.behindFirst? isOpen raw).any block.tangled = true → block.scan h isOpen raw = true

/-- All lines are clear, each in the state in which a reader comes to it. -/
def AllClear (block : Delimiters) (h : block.Visible) (isOpen : Bool) : List Text → Prop
  | [] => True
  | raw :: rest => block.Clear h isOpen raw ∧ block.AllClear h (block.scan h isOpen raw) rest

section

variable {block : Delimiters} (h : block.Visible)

theorem scan_of_none (isOpen : Bool) {s : Text} (hcut : Text.cutFirst? (block.awaited isOpen) s = none) :
    block.scan h isOpen s = isOpen := by
  rw [scan]
  split
  · rfl
  · next hsome => cases hcut.symm.trans hsome

theorem scan_of_some (isOpen : Bool) {s before rest : Text}
    (hcut : Text.cutFirst? (block.awaited isOpen) s = some (before, rest)) :
    block.scan h isOpen s = block.scan h (!isOpen) rest := by
  rw [scan]
  split
  · next hnone => cases hcut.symm.trans hnone
  · next hsome =>
    cases hcut.symm.trans hsome
    rfl

end

theorem reopens_eq_true_iff {block : Delimiters} {s : Text} :
    block.reopens s = true ↔ s.HasUnanswered block.opening block.closing := by
  rw [Text.hasUnanswered_iff, reopens]
  cases hcut : Text.cutLast? block.opening s with
  | none => simp
  | some pieces =>
      obtain ⟨before, rest⟩ := pieces
      simp

/-- The last delimiters share characters when each of them has none of the other kind behind it. -/
theorem tangled_eq_true_iff {block : Delimiters} {s : Text} :
    block.tangled s = true ↔
      s.HasUnanswered block.opening block.closing ∧ s.HasUnanswered block.closing block.opening := by
  rw [Text.hasUnanswered_iff, Text.hasUnanswered_iff, tangled]
  cases hopening : Text.cutLast? block.opening s with
  | none => simp
  | some pieces =>
      obtain ⟨before, behind⟩ := pieces
      cases hclosing : Text.cutLast? block.closing s with
      | none => simp
      | some pieces =>
          obtain ⟨before', behind'⟩ := pieces
          have hbehind := Text.contains_eq_false_iff_of_cutLast? hopening hclosing
          have hbehind' := Text.contains_eq_false_iff_of_cutLast? hclosing hopening
          simp [hbehind, hbehind']

section

variable {block : Delimiters} (h : block.Visible)

/-- Outside a comment, a reader finds no opening delimiter, or one with no closing delimiter behind it, or
a comment from one to the other and goes on behind it. -/
theorem scan_outside_cases (s : Text) :
    (Text.contains s block.opening = false ∧ block.scan h false s = false) ∨
    (∃ behind, block.opening ++ behind <:+ s ∧ Text.contains behind block.closing = false ∧
      block.scan h false s = true) ∨
    (∃ rest, block.closing ++ rest <:+ s ∧ rest.length < s.length ∧
      block.scan h false s = block.scan h false rest) := by
  cases hopening : Text.cutFirst? block.opening s with
  | none => exact .inl ⟨by rw [Text.contains, hopening]; rfl, scan_of_none h false hopening⟩
  | some pieces =>
      obtain ⟨before, behind⟩ := pieces
      have hbehind := Text.suffix_of_cutFirst? hopening
      have hinside := scan_of_some h false hopening
      cases hclosing : Text.cutFirst? block.closing behind with
      | none =>
          have hnone : Text.contains behind block.closing = false := by rw [Text.contains, hclosing]; rfl
          exact .inr (.inl ⟨behind, hbehind, hnone, hinside.trans (scan_of_none h true hclosing)⟩)
      | some pieces =>
          obtain ⟨comment, rest⟩ := pieces
          have hrest := (Text.suffix_of_cutFirst? hclosing).trans ((List.suffix_append _ behind).trans hbehind)
          have hlength := Nat.lt_trans (h.length_lt true hclosing) (h.length_lt false hopening)
          exact .inr (.inr ⟨rest, hrest, hlength, hinside.trans (scan_of_some h true hclosing)⟩)

/-- A comment that a reader finds open is opened by a delimiter with no closing one behind it. -/
theorem hasUnanswered_of_scan {s : Text} (hscan : block.scan h false s = true) :
    s.HasUnanswered block.opening block.closing := by
  induction hlength : s.length using Nat.strongRecOn generalizing s with
  | _ n ih =>
      rcases scan_outside_cases h s with ⟨-, hclosed⟩ | ⟨behind, hopening, hclosing, -⟩ | ⟨rest, hrest, hlt, hgoes⟩
      · cases hclosed.symm.trans hscan
      · exact ⟨behind, hopening, hclosing⟩
      · have hlater := ih rest.length (hlength ▸ hlt) (hgoes.symm.trans hscan) rfl
        exact hlater.of_suffix ((List.suffix_append _ rest).trans hrest)

/-- Where a reader finds no comment open behind an opening delimiter with no closing one behind it, the
delimiter that ended the last comment has no opening one behind it. -/
theorem hasUnanswered_of_not_scan {s : Text} (hscan : block.scan h false s = false)
    (hopens : s.HasUnanswered block.opening block.closing) :
    s.HasUnanswered block.closing block.opening := by
  induction hlength : s.length using Nat.strongRecOn generalizing s with
  | _ n ih =>
      rcases scan_outside_cases h s with ⟨hnone, -⟩ | ⟨-, -, -, hopen⟩ | ⟨rest, hrest, hlt, hgoes⟩
      · obtain ⟨behind, hopening, -⟩ := hopens
        rw [Text.contains_eq_true_iff.mpr ⟨behind, hopening⟩] at hnone
        cases hnone
      · cases hopen.symm.trans hscan
      · have hsuffix : rest <:+ s := (List.suffix_append _ rest).trans hrest
        cases hcontains : Text.contains rest block.opening with
        | false => exact ⟨rest, hrest, hcontains⟩
        | true =>
            have hlater := hopens.within hsuffix hcontains
            exact (ih rest.length (hlength ▸ hlt) (hgoes.symm.trans hscan) hlater rfl).of_suffix hsuffix

/-- Behind the first comment of a line, tagging takes a comment to be open if a reader finds one open, or if
the last delimiters share characters. -/
theorem reopens_eq_scan_or (s : Text) : block.reopens s = (block.scan h false s || block.tangled s) := by
  rw [Bool.eq_iff_iff, Bool.or_eq_true, reopens_eq_true_iff, tangled_eq_true_iff]
  constructor
  · intro hopens
    cases hscan : block.scan h false s with
    | true => exact .inl rfl
    | false => exact .inr ⟨hopens, hasUnanswered_of_not_scan h hscan hopens⟩
  · rintro (hscan | ⟨hopens, -⟩)
    · exact hasUnanswered_of_scan h hscan
    · exact hopens

theorem inside_eq_scan_or (s : Text) : (block.inside s).2 =
    (block.scan h true s || ((Text.cutFirst? block.closing s).map Prod.snd).any block.tangled) := by
  rw [inside]
  cases hcut : Text.cutFirst? block.closing s with
  | none =>
      rw [scan_of_none h true hcut]
      rfl
  | some pieces =>
      rw [scan_of_some h true hcut]
      exact reopens_eq_scan_or h pieces.2

theorem cutFirst?_opening (h : block.Visible) {raw rest : Text} (hrest : raw.trimStart = block.opening ++ rest) :
    Text.cutFirst? block.opening raw = some (raw.indent, rest) := by
  have hhead := Text.head_trimStart raw
  have hraw := Text.indent_append_trimStart raw
  cases hopening : block.opening with
  | nil => exact absurd hopening (h.awaited_ne_nil false)
  | cons p pattern =>
      rw [hrest, hopening] at hhead hraw
      have hcut := Text.cutFirst?_of_after? (Text.after?_append (p :: pattern) rest)
      have hwhole := Text.cutFirst?_append (hhead p rfl) raw.isAllBlank_indent pattern (p :: pattern ++ rest)
      rw [hraw, hcut] at hwhole
      exact hwhole.trans (by simp)

end

end Delimiters

/-- A comment inside a block comment that an earlier line opened: it has no leader of its own. -/
def Tag.isInterior : Tag → Bool
  | .comment c => c.leader == 0
  | _ => false

theorem Comment.leader_ofInterior (segment : Text) : (Comment.ofInterior segment).leader = 0 := by
  simp only [Comment.ofInterior]
  split
  · split <;> rfl
  · rfl

namespace CommentStyle

variable {style : CommentStyle} {block : Delimiters} (hstyle : style.block = some block) (h : block.Visible)

include hstyle

theorem tag_true (raw : Text) :
    style.tag true raw = (.comment (.ofInterior (block.inside raw).1), (block.inside raw).2) := by
  simp only [tag, hstyle]

theorem tagOutside_opening (h : block.Visible) {raw rest : Text} (hrest : raw.trimStart = block.opening ++ rest) :
    (style.tagOutside raw).2 = (block.inside rest).2 := by
  have hcases := style.tagsOutside raw
  have hne : block.opening ≠ [] := h.awaited_ne_nil false
  have hopens : style.Opens raw block := ⟨hstyle, rest, hrest.symm⟩
  generalize style.tagOutside raw = tagged at hcases ⊢
  cases hcases with
  | blank hblank =>
      rw [hblank] at hrest
      exact absurd (List.append_eq_nil_iff.mp hrest.symm).1 hne
  | block other rest' _ hblock hrest' =>
      cases hstyle.symm.trans hblock
      cases List.append_cancel_left (hrest.symm.trans hrest')
      rfl
  | leader leader rest' _ hblock _ _ => exact absurd ⟨block, hopens⟩ hblock
  | code _ hblock _ => exact absurd ⟨block, hopens⟩ hblock

/-- After a line that starts inside a block comment or opens one, a comment is taken to be open if a reader
finds one open, or if the last delimiters behind the first comment of the line share characters. -/
theorem tag_eq_scan_or {isOpen : Bool} {raw : Text} (hraw : isOpen = true ∨ style.Opens raw block) :
    (style.tag isOpen raw).2 =
      (block.scan h isOpen raw || (block.behindFirst? isOpen raw).any block.tangled) := by
  cases isOpen with
  | true =>
      rw [tag_true hstyle]
      exact Delimiters.inside_eq_scan_or h raw
  | false =>
      obtain ⟨-, rest, hrest⟩ := hraw.resolve_left Bool.false_ne_true
      have hcut := Delimiters.cutFirst?_opening h hrest.symm
      rw [Delimiters.scan_of_some h false hcut, Delimiters.behindFirst?, hcut]
      exact (tagOutside_opening hstyle h hrest.symm).trans (Delimiters.inside_eq_scan_or h rest)

/-- Only a line that starts inside a block comment is tagged as the interior of one. -/
theorem isInterior_tag (h : block.Visible) (isOpen : Bool) (raw : Text) :
    (style.tag isOpen raw).1.isInterior = isOpen := by
  cases isOpen with
  | true =>
      rw [tag_true hstyle]
      exact beq_iff_eq.mpr (Comment.leader_ofInterior _)
  | false =>
      have hcases := style.tagsOutside raw
      show (style.tagOutside raw).1.isInterior = false
      generalize style.tagOutside raw = tagged at hcases ⊢
      cases hcases with
      | blank hblank => rfl
      | block other rest _ hblock _ =>
          cases hstyle.symm.trans hblock
          exact beq_false_of_ne (Nat.ne_of_gt (Text.bytes_pos (h.awaited_ne_nil false)))
      | leader leader rest _ _ hleader _ =>
          exact beq_false_of_ne (Nat.ne_of_gt (Text.bytes_pos (ne_nil_of_leader? hleader)))
      | code _ _ _ => rfl

/-- A line outside comments that has no opening delimiter leaves none open. -/
theorem tagOutside_of_not_contains {raw : Text} (hraw : Text.contains raw block.opening = false) :
    (style.tagOutside raw).2 = false := by
  have hcases := style.tagsOutside raw
  generalize style.tagOutside raw = tagged at hcases ⊢
  cases hcases with
  | blank _ => rfl
  | block other rest _ hblock hrest =>
      cases hstyle.symm.trans hblock
      have hsuffix : block.opening ++ rest <:+ raw := hrest ▸ List.dropWhile_suffix isBlank
      rw [Text.contains_eq_true_iff.mpr ⟨rest, hsuffix⟩] at hraw
      cases hraw
  | leader _ _ _ _ _ _ => rfl
  | code _ _ _ => rfl

theorem tag_of_clear {isOpen : Bool} {raw : Text} (hclear : block.Clear h isOpen raw) :
    (style.tag isOpen raw).2 = block.scan h isOpen raw := by
  by_cases hraw : isOpen = true ∨ style.Opens raw block
  · rw [tag_eq_scan_or hstyle h hraw]
    cases htangled : (block.behindFirst? isOpen raw).any block.tangled with
    | true => rw [hclear.untangled htangled, Bool.or_true]
    | false => rw [Bool.or_false]
  · obtain ⟨hclosed, hopens⟩ := not_or.mp hraw
    have hoff : isOpen = false := (Bool.not_eq_true _).mp hclosed
    have hnone : Text.contains raw block.opening = false :=
      (hclear.placed.resolve_left hclosed).resolve_left fun hstart => hopens ⟨hstyle, hstart⟩
    have hcut : Text.cutFirst? (block.awaited isOpen) raw = none := by
      rw [hoff]
      exact Option.isNone_iff_eq_none.mp (Option.isSome_eq_false_iff.mp hnone)
    rw [Delimiters.scan_of_none h isOpen hcut, hoff]
    exact tagOutside_of_not_contains hstyle hnone

/-- Tagging takes clear lines to lie inside block comments where a reader does. -/
theorem isInterior_of_mem_tagFrom {isOpen : Bool} {line : Nat} {lines : List Text}
    (hclear : block.AllClear h isOpen lines) :
    ∀ tagged ∈ style.tagFrom isOpen line lines,
      tagged.tag.isInterior = (lines.take (tagged.line - line)).foldl (block.scan h) isOpen := by
  induction lines generalizing isOpen line with
  | nil =>
      intro tagged hmem
      cases hmem
  | cons raw rest ih =>
      intro tagged hmem
      obtain ⟨hraw, hrest⟩ := hclear
      rw [tagFrom_cons, tag_of_clear hstyle h hraw] at hmem
      rcases List.mem_cons.mp hmem with rfl | hmem
      · rw [Nat.sub_self]
        exact isInterior_tag hstyle h isOpen raw
      · have hle : line + 1 ≤ tagged.line := by
          have hline := List.mem_map_of_mem (f := TaggedLine.line) hmem
          rw [map_line_tagFrom, List.mem_range'_1] at hline
          exact hline.1
        have hstep : tagged.line - line = (tagged.line - (line + 1)) + 1 := by omega
        rw [hstep, List.take_succ_cons, List.foldl_cons]
        exact ih hrest tagged hmem

/-- Tagging finds a block comment open after a line where a reader does, and besides where the last
delimiters behind the first comment of the line share characters. In a file without such lines, whose block
comments start where a line begins or behind a closing delimiter, it takes the lines to lie inside a block
comment that a reader does. -/
theorem tag_agrees_scan :
    (∀ isOpen raw, isOpen = true ∨ style.Opens raw block →
      (style.tag isOpen raw).2 =
        (block.scan h isOpen raw || (block.behindFirst? isOpen raw).any block.tangled)) ∧
    ∀ lines, block.AllClear h false lines → ∀ tagged ∈ style.tagLines lines,
      tagged.tag.isInterior = block.scanLines h (lines.take (tagged.line - 1)) :=
  ⟨fun _ _ => tag_eq_scan_or hstyle h, fun _ => isInterior_of_mem_tagFrom hstyle h⟩

end CommentStyle

theorem Delimiters.visible_slashStar : Delimiters.slashStar.Visible := ⟨by decide, by decide⟩

/-- A comment closes and another one opens behind it, so that the next line lies inside. Delimiters that
share characters do no harm where the comment stays open. -/
theorem CommentStyle.tag_agrees_scan_reopened :
    let h := Delimiters.visible_slashStar
    let lines : List Text := ["/* a */ x /*/ b", "c */ y", "z"]
    CommentStyle.slashes.block = some .slashStar ∧ CommentStyle.slashes.Opens "/* a */ x /*/ b" .slashStar ∧
      (CommentStyle.slashes.tag false "/* a */ x /*/ b").2 =
        (Delimiters.slashStar.scan h false "/* a */ x /*/ b" ||
          (Delimiters.slashStar.behindFirst? false "/* a */ x /*/ b").any Delimiters.slashStar.tangled) ∧
      Delimiters.slashStar.AllClear h false lines ∧ ∀ tagged ∈ CommentStyle.slashes.tagLines lines,
        tagged.tag.isInterior = Delimiters.slashStar.scanLines h (lines.take (tagged.line - 1)) := by
  intro h lines
  obtain ⟨hline, hlines⟩ := @CommentStyle.tag_agrees_scan .slashes _ rfl h
  have hopens : CommentStyle.slashes.Opens "/* a */ x /*/ b" .slashStar := ⟨rfl, _, rfl⟩
  have hclear : Delimiters.slashStar.AllClear h false lines := by
    refine ⟨⟨.inr (.inl hopens.2), ?_⟩, ⟨.inl ?_, ?_⟩, ⟨.inr (.inr ?_), ?_⟩, trivial⟩ <;> decide +kernel
  exact ⟨rfl, hopens, hline false _ (.inr hopens), hclear, hlines lines hclear⟩

/-- The comment behind the assignment is closed, and its closing delimiter shares a slash with what looks like
an opening one: the next line is taken for a comment. -/
theorem CommentStyle.not_tag_agrees_scan_shared :
    let h := Delimiters.visible_slashStar
    CommentStyle.slashes.Opens "/* a */ x = /* b */*p;" .slashStar ∧
      Delimiters.slashStar.scan h false "/* a */ x = /* b */*p;" = false ∧
      (CommentStyle.slashes.tag false "/* a */ x = /* b */*p;").2 = true ∧
      CommentStyle.slashes.tagLines ["/* a */ x = /* b */*p;", "int y;"] =
        [⟨1, .comment ⟨['a'], 3, 2⟩⟩, ⟨2, .comment ⟨"int y;", 0, 0⟩⟩] := by
  refine ⟨⟨rfl, _, rfl⟩, ?_, ?_, ?_⟩
  · decide +kernel
  · decide
  · decide

end Marginalia
