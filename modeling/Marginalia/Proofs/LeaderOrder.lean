import Marginalia.Proofs.FileLanguages
import Marginalia.Proofs.Tagging

/-! The order of leaders. The leaders of a style are tried one after another and the first that starts a line is
taken. Of two leaders that start one text, the shorter one starts the longer one. So the leader that is taken is
the longest as long as no leader starts one that is listed after it; and where one does, the later leader is
itself a text from which the earlier one is taken. The built-in styles list their leaders in such an order. -/

namespace Marginalia

open LanguageTable (Edit builtin builtinLanguages builtinEdits lastStyle? language_mem_builtinEdits)

theorem Text.startsWith_iff {s pattern : Text} : s.startsWith pattern = true ↔ pattern <+: s := by
  rw [startsWith, Option.isSome_iff_exists]
  constructor
  · rintro ⟨rest, hrest⟩
    exact ⟨rest, (eq_append_of_after? hrest).symm⟩
  · rintro ⟨rest, rfl⟩
    exact ⟨rest, after?_append pattern rest⟩

namespace CommentStyle

/-- The leader is one of the style and starts the text. An empty leader starts nothing. -/
structure Matches (style : CommentStyle) (leader s : Text) : Prop where
  mem : leader ∈ style.leaders
  ne_nil : leader ≠ []
  isPrefix : leader <+: s

/-- The answer to which leader starts a text is the longest one that does, or that there is none. -/
def IsLongest (style : CommentStyle) (s : Text) : Option Text → Prop
  | some leader => style.Matches leader s ∧ ∀ other, style.Matches other s → other.length ≤ leader.length
  | none => ∀ leader, ¬ style.Matches leader s

/-- No leader, unless it is empty, is a proper start of a leader that is listed after it. -/
def InOrder (style : CommentStyle) : Prop :=
  style.leaders.Pairwise fun leader later => leader ≠ [] → ¬ (leader <+: later ∧ leader ≠ later)

instance (style : CommentStyle) : Decidable style.InOrder :=
  inferInstanceAs (Decidable (style.leaders.Pairwise _))

/-- The comment follows a leader at the front of the line, and no leader that starts the line is longer: nothing
that is left behind this leader completes it to another one. -/
structure FollowsLongest (style : CommentStyle) (raw leader rest : Text) (c : Comment) : Prop where
  mem : leader ∈ style.leaders
  trimStart_eq : raw.trimStart = leader ++ rest
  comment_eq : c = .ofSegment (Text.bytes (raw.indent ++ leader)) leader.bytes rest
  longest : ∀ other ∈ style.leaders, leader.length < other.length → ¬ other <+: raw.trimStart
  nothingLeft : ∀ part, part ≠ [] → leader ++ part ∈ style.leaders → ¬ part <+: rest

variable {style : CommentStyle} {s leader other : Text}

theorem matches_iff : (!leader.isEmpty && s.startsWith leader) = true ↔ leader ≠ [] ∧ leader <+: s := by
  rw [Bool.and_eq_true, Text.startsWith_iff, Bool.not_eq_true', List.isEmpty_eq_false_iff]

theorem matches_of_leader? (h : style.leader? s = some leader) : style.Matches leader s := by
  have hmatch := List.find?_some h
  obtain ⟨hne, hstart⟩ := matches_iff.mp hmatch
  exact ⟨List.mem_of_find?_eq_some h, hne, hstart⟩

theorem not_matches_of_leader? (h : style.leader? s = none) : ¬ style.Matches leader s := by
  intro hmatches
  exact List.find?_eq_none.mp h leader hmatches.mem (matches_iff.mpr ⟨hmatches.ne_nil, hmatches.isPrefix⟩)

/-- In a style in order, no leader that starts the text is longer than the one that is taken. -/
theorem length_le_of_inOrder (horder : style.InOrder) (h : style.leader? s = some leader)
    (hother : style.Matches other s) : other.length ≤ leader.length := by
  have hmatches := matches_of_leader? h
  obtain ⟨-, before, after, hleaders, hbefore⟩ := List.find?_eq_some_iff_append.mp h
  have hmem := hother.mem
  rw [hleaders, List.mem_append, List.mem_cons] at hmem
  rcases hmem with hearlier | rfl | hlater
  · -- an earlier leader that starts the text would have been taken
    have hskipped := hbefore other hearlier
    rw [matches_iff.mpr ⟨hother.ne_nil, hother.isPrefix⟩] at hskipped
    cases hskipped
  · exact Nat.le_refl _
  · rw [InOrder, hleaders, List.pairwise_append, List.pairwise_cons] at horder
    have hproper := horder.2.1.1 other hlater hmatches.ne_nil
    by_contra hlonger
    have hstart : leader <+: other :=
      List.prefix_of_prefix_length_le hmatches.isPrefix hother.isPrefix (by omega)
    refine hproper ⟨hstart, ?_⟩
    rintro rfl
    omega

theorem isLongest_of_inOrder (horder : style.InOrder) (s : Text) : style.IsLongest s (style.leader? s) := by
  cases hleader : style.leader? s with
  | none => exact fun leader => not_matches_of_leader? hleader
  | some leader => exact ⟨matches_of_leader? hleader, fun other => length_le_of_inOrder horder hleader⟩

/-- A leader is the longest that starts itself. -/
theorem leader?_self (h : style.IsLongest leader (style.leader? leader)) (hmem : leader ∈ style.leaders)
    (hne : leader ≠ []) : style.leader? leader = some leader := by
  have hself : style.Matches leader leader := ⟨hmem, hne, List.prefix_refl leader⟩
  cases hleader : style.leader? leader with
  | none => exact absurd hself (not_matches_of_leader? hleader)
  | some first =>
      rw [hleader] at h
      have hstart := h.1.isPrefix
      rw [hstart.eq_of_length_le (h.2 leader hself)]

theorem inOrder_of_isLongest (hnodup : style.leaders.Nodup)
    (h : ∀ s, style.IsLongest s (style.leader? s)) : style.InOrder := by
  rw [InOrder, List.pairwise_iff_getElem]
  rintro i j hi hj hlt hne ⟨hstart, -⟩
  -- the later leader, taken as a text, is its own first match, so the earlier one does not start it
  have hlater : style.leaders[j] ≠ [] := by
    intro hnil
    rw [hnil] at hstart
    exact hne (List.prefix_nil.mp hstart)
  have hself := leader?_self (h _) (List.getElem_mem hj) hlater
  obtain ⟨-, k, hk, hkj, hskipped⟩ := List.find?_eq_some_iff_getElem.mp hself
  obtain rfl : k = j := (List.getElem_inj hnodup).mp hkj
  have hunmatched := hskipped i hlt
  rw [matches_iff.mpr ⟨hne, hstart⟩] at hunmatched
  cases hunmatched

/-- A comment outside block comments, on a line that does not begin with the opening delimiter, follows the
first leader that starts the line. -/
theorem exists_of_tag {raw : Text} {c : Comment} (hblock : ¬ ∃ block, style.Opens raw block)
    (h : (style.tag false raw).1 = .comment c) :
    ∃ leader rest, style.leader? raw.trimStart = some leader ∧ raw.trimStart = leader ++ rest ∧
      c = .ofSegment (Text.bytes (raw.indent ++ leader)) leader.bytes rest := by
  have hcases := style.tagsOutside raw
  change (style.tagOutside raw).1 = .comment c at h
  generalize style.tagOutside raw = tagged at hcases h
  cases hcases with
  | blank hblank => cases h
  | block block rest hne hstyle hrest => exact absurd ⟨block, hstyle, rest, hrest.symm⟩ hblock
  | leader leader rest hne hnone hleader hrest => exact ⟨leader, rest, hleader, hrest, (Tag.comment.inj h).symm⟩
  | code hne hnone hleader => cases h

theorem exists_followsLongest (horder : style.InOrder) {raw : Text} {c : Comment}
    (hblock : ¬ ∃ block, style.Opens raw block) (h : (style.tag false raw).1 = .comment c) :
    ∃ leader rest, style.FollowsLongest raw leader rest c := by
  obtain ⟨leader, rest, hleader, hrest, hc⟩ := exists_of_tag hblock h
  have hlongest : ∀ other ∈ style.leaders, leader.length < other.length → ¬ other <+: raw.trimStart := by
    intro other hmem hlt hstart
    have hne : other ≠ [] := List.ne_nil_of_length_pos (by omega)
    have hle := length_le_of_inOrder horder hleader ⟨hmem, hne, hstart⟩
    omega
  refine ⟨leader, rest, (matches_of_leader? hleader).mem, hrest, hc, hlongest, ?_⟩
  intro part hpart hmem hstart
  refine hlongest _ hmem ?_ ?_
  · have hpos := List.length_pos_iff.mpr hpart
    rw [List.length_append]
    omega
  · rw [hrest]
    exact (List.prefix_append_right_inj leader).mpr hstart

/-- The tag of a line in a file, at its place. -/
theorem tag_of_mem_tagLines {before after : List Text} {raw : Text} {tag : Tag}
    (h : ⟨before.length + 1, tag⟩ ∈ style.tagLines (before ++ raw :: after)) :
    (style.tag (style.openAfter false before) raw).1 = tag := by
  obtain ⟨earlier, line, later, hlines, htagged⟩ := mem_tagFrom.mp h
  obtain ⟨hnumber, htag⟩ := TaggedLine.mk.inj htagged
  obtain ⟨rfl, hrest⟩ := List.append_inj hlines (by omega)
  obtain ⟨rfl, -⟩ := List.cons.inj hrest
  exact htag.symm

end CommentStyle

namespace LanguageTable

/-- The built-in table answers with the style of a built-in language, or with the fallback. -/
theorem resolve_builtin_cases (tag : Text) :
    (∃ entry ∈ builtinLanguages, (builtin.resolve tag).style = entry.style) ∨
      (builtin.resolve tag).style = .fallback := by
  rw [resolve_eq, get?_styles_builtin]
  cases hlast : lastStyle? builtinEdits tag with
  | none => exact .inr rfl
  | some style =>
      left
      obtain ⟨edit, hmem, hedit⟩ := List.exists_of_findSome?_eq_some hlast
      cases edit with
      | extension key name => cases hedit
      | language name other =>
          rw [Edit.style?, Option.ite_none_right_eq_some] at hedit
          obtain ⟨-, ⟨⟩⟩ := hedit
          obtain ⟨entry, hentry, -, hstyle⟩ := language_mem_builtinEdits.mp (List.mem_reverse.mp hmem)
          exact ⟨entry, hentry, hstyle.symm⟩

end LanguageTable

namespace CommentStyle

/-- The style of a language of the built-in table, or the fallback. -/
def IsBuiltin (style : CommentStyle) : Prop := ∃ tag, (builtin.resolve tag).style = style

theorem IsBuiltin.inOrder {style : CommentStyle} (h : style.IsBuiltin) :
    style.InOrder ∧ ∀ leader ∈ style.leaders, leader ≠ [] := by
  have hentries : ∀ entry ∈ builtinLanguages,
      entry.style.InOrder ∧ ∀ leader ∈ entry.style.leaders, leader ≠ [] := by decide +kernel
  obtain ⟨tag, rfl⟩ := h
  rcases LanguageTable.resolve_builtin_cases tag with ⟨entry, hentry, hstyle⟩ | hstyle
  · rw [hstyle]
    exact hentries entry hentry
  · rw [hstyle]
    decide

/-- **The first leader is the longest.** In a built-in style no leader is empty, the first leader that starts a
text is the longest that does, and none is found only if no leader starts the text. So where a line of a file is
a comment through a leader, outside block comments and not by an opening delimiter, no longer leader starts the
line and nothing of one is left at the front of the comment. In any style that lists no leader twice, the first
leader is the longest for all texts just when no leader but the empty one is a proper start of a later one. -/
theorem leader?_isLongest (style : CommentStyle) :
    (style.IsBuiltin →
      (∀ leader ∈ style.leaders, leader ≠ []) ∧ (∀ s, style.IsLongest s (style.leader? s)) ∧
      ∀ (before after : List Text) (raw : Text) (c : Comment),
        ⟨before.length + 1, .comment c⟩ ∈ style.tagLines (before ++ raw :: after) →
        style.openAfter false before = false → (¬ ∃ block, style.Opens raw block) →
        ∃ leader rest, style.FollowsLongest raw leader rest c) ∧
    (style.leaders.Nodup → ((∀ s, style.IsLongest s (style.leader? s)) ↔ style.InOrder)) := by
  refine ⟨fun hbuiltin => ?_, fun hnodup => ⟨inOrder_of_isLongest hnodup, isLongest_of_inOrder⟩⟩
  obtain ⟨horder, hne⟩ := hbuiltin.inOrder
  refine ⟨hne, isLongest_of_inOrder horder, fun before after raw c hmem hopen hblock => ?_⟩
  have htag := tag_of_mem_tagLines hmem
  rw [hopen] at htag
  exact exists_followsLongest horder hblock htag

/-- A line with three slashes in a style that has leaders of two and of three; and two leaders in the wrong
order, of which the shorter one is taken where the longer one starts the text. -/
theorem leader?_isLongest_slashes :
    let style : CommentStyle := ⟨["//!", "///", "//"], some .slashStar⟩
    let reversed : CommentStyle := ⟨["//", "///"], none⟩
    style.IsBuiltin ∧ style.IsLongest "///! x" (some "///") ∧
      (∃ leader rest, style.FollowsLongest "  ///! x" leader rest ⟨"! x", 5, 3⟩) ∧
      reversed.leaders.Nodup ∧ ¬ ∀ s, reversed.IsLongest s (reversed.leader? s) := by
  intro style reversed
  have hbuiltin : style.IsBuiltin := ⟨"rust", by decide +kernel⟩
  have hnodup : reversed.leaders.Nodup := by decide
  obtain ⟨-, hlongest, hfollows⟩ := (leader?_isLongest style).1 hbuiltin
  refine ⟨hbuiltin, hlongest "///! x", ?_, hnodup, ?_⟩
  · refine hfollows ["/* a", "*/"] [] "  ///! x" ⟨"! x", 5, 3⟩ (by decide) (by decide) ?_
    rintro ⟨block, ⟨⟩, hopens⟩
    exact absurd hopens (by decide)
  · rw [(leader?_isLongest reversed).2 hnodup]
    decide

end CommentStyle

end Marginalia
