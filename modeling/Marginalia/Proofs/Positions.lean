import Marginalia.Proofs.Column

/-! Extraction by positions. The library cuts texts into pieces and never fails. Here the same work is done
with byte positions and with operations that can fail: a slice that is out of range or goes through a
character, a number taken from a smaller one, an index behind the end of a list, a block that ends before it
starts. No step of the extraction ever fails, whatever the text and whatever the leaders and delimiters are,
also empty ones, ones made of white space, and ones that overlap; and what comes out is what the library gives. -/

namespace Marginalia

/-- The difference of two numbers, unless it is negative. -/
def minus? (m n : Nat) : Option Nat := if n ≤ m then some (m - n) else none

namespace Text

/-- The byte position where a pattern first occurs. -/
def position? (pattern s : Text) : Option Nat := (cutFirst? pattern s).map fun pieces => bytes pieces.1

/-- The byte position where a pattern last occurs. -/
def lastPosition? (pattern s : Text) : Option Nat := (cutLast? pattern s).map fun pieces => bytes pieces.1

/-- The positions enclose whole characters of the text. -/
structure InRange (s : Text) (first last : Nat) : Prop where
  ordered : first ≤ last
  within : last ≤ s.bytes
  first_boundary : s.isBoundary first = true
  last_boundary : s.isBoundary last = true

theorem eq_append_of_cutAt? {n : Nat} {s before after : Text} (h : cutAt? n s = some (before, after)) :
    s = before ++ after ∧ before.bytes = n := by
  induction s generalizing n before with
  | nil =>
      cases n with
      | zero =>
          cases h
          exact ⟨rfl, rfl⟩
      | succ n => cases h
  | cons c s ih =>
      cases n with
      | zero =>
          cases h
          exact ⟨rfl, rfl⟩
      | succ n =>
          rw [cutAt?] at h
          split at h
          · next hsize =>
            obtain ⟨⟨front, rest⟩, hcut, hpieces⟩ := Option.map_eq_some_iff.mp h
            cases hpieces
            obtain ⟨rfl, hbytes⟩ := ih hcut
            refine ⟨rfl, ?_⟩
            rw [bytes_cons, hbytes]
            omega
          · cases h

theorem isBoundary_iff {s : Text} {n : Nat} :
    s.isBoundary n = true ↔ ∃ before after, s = before ++ after ∧ before.bytes = n := by
  constructor
  · intro h
    obtain ⟨⟨before, after⟩, hcut⟩ := Option.isSome_iff_exists.mp h
    exact ⟨before, after, eq_append_of_cutAt? hcut⟩
  · rintro ⟨before, after, rfl, rfl⟩
    exact isBoundary_append before after

theorem prefix_of_bytes_le {before before' s : Text} (h : before <+: s) (h' : before' <+: s)
    (hle : before.bytes ≤ before'.bytes) : before <+: before' := by
  rcases List.prefix_or_prefix_of_prefix h h' with hprefix | ⟨rest, rfl⟩
  · exact hprefix
  · by_cases hrest : rest = []
    · subst hrest
      exact ⟨[], by simp⟩
    · have hpos := bytes_pos hrest
      rw [bytes_append] at hle
      omega

/-- A slice succeeds exactly where its ends are in order, in the text and between its characters. -/
theorem isSome_slice?_iff {s : Text} {first last : Nat} :
    (s.slice? first last).isSome = true ↔ s.InRange first last := by
  constructor
  · intro h
    obtain ⟨piece, hslice⟩ := Option.isSome_iff_exists.mp h
    rw [slice?] at hslice
    split at hslice
    · next hordered =>
      obtain ⟨⟨before, rest⟩, hcut, hpiece⟩ := Option.bind_eq_some_iff.mp hslice
      obtain ⟨⟨middle, after⟩, hcut', -⟩ := Option.map_eq_some_iff.mp hpiece
      obtain ⟨rfl, rfl⟩ := eq_append_of_cutAt? hcut
      obtain ⟨rfl, hmiddle⟩ := eq_append_of_cutAt? hcut'
      have hlast : Text.bytes (before ++ middle) = last := by
        rw [bytes_append, hmiddle]
        omega
      refine ⟨hordered, ?_, isBoundary_append _ _, isBoundary_iff.mpr ⟨before ++ middle, after, ?_, hlast⟩⟩
      · rw [← List.append_assoc, bytes_append, hlast]
        omega
      · rw [List.append_assoc]
    · cases hslice
  · rintro ⟨hordered, -, hfirst, hlast⟩
    obtain ⟨before, rest, hs, rfl⟩ := isBoundary_iff.mp hfirst
    obtain ⟨before', after, rfl, rfl⟩ := isBoundary_iff.mp hlast
    obtain ⟨middle, rfl⟩ := prefix_of_bytes_le ⟨rest, hs.symm⟩ ⟨after, rfl⟩ hordered
    rw [bytes_append, slice?_append]
    rfl

theorem slice?_rest (before rest : Text) :
    slice? (before ++ rest) before.bytes (bytes (before ++ rest)) = some rest := by
  have hslice := slice?_append before rest []
  rwa [List.append_nil, ← bytes_append] at hslice

theorem slice?_start (before rest : Text) : slice? (before ++ rest) 0 before.bytes = some before := by
  have hslice := slice?_append [] before rest
  rwa [List.nil_append, bytes_nil, Nat.zero_add] at hslice

theorem minus?_trimStart (s : Text) : minus? s.bytes s.trimStart.bytes = some s.indent.bytes := by
  have hbytes : s.bytes = s.indent.bytes + s.trimStart.bytes := by
    rw [← bytes_append, indent_append_trimStart]
  rw [minus?, if_pos (by omega), hbytes, Nat.add_sub_cancel]

end Text

/-! ### Tagging -/

/-- The comment between two positions of a line. -/
def Comment.between? (raw : Text) (first last leader : Nat) : Option Comment := do
  let segment ← raw.slice? first last
  if segment.trim = [] then return ⟨[], first, leader⟩
  else
    let lead ← minus? segment.bytes segment.trimStart.bytes
    return ⟨segment.trim, first + lead, leader⟩

theorem Comment.between?_append (before segment after : Text) (leader : Nat) :
    between? (before ++ segment ++ after) before.bytes (before.bytes + segment.bytes) leader =
      some (.ofSegment before.bytes leader segment) := by
  simp only [between?, Text.slice?_append, Text.minus?_trimStart, Option.bind_eq_bind, Option.bind_some, ofSegment]
  by_cases hempty : segment.trim = []
  · rw [if_pos hempty, if_pos hempty, hempty]
    rfl
  · rw [if_neg hempty, if_neg hempty]
    rfl

namespace Delimiters

/-- Whether the rest of a line opens a block comment that it does not close. -/
def reopensAt? (block : Delimiters) (rest : Text) : Option Bool :=
  match Text.lastPosition? block.opening rest with
  | some n => (rest.slice? (n + block.opening.bytes) rest.bytes).map fun tail => !Text.contains tail block.closing
  | none => some false

/-- The position of the closing delimiter behind a position inside a block comment, or the end of the line,
and whether a block comment is open there. -/
def insideAt? (block : Delimiters) (raw : Text) (first : Nat) : Option (Nat × Bool) := do
  let tail ← raw.slice? first raw.bytes
  match Text.position? block.closing tail with
  | some n =>
    let rest ← raw.slice? (first + n + block.closing.bytes) raw.bytes
    return (first + n, ← block.reopensAt? rest)
  | none => return (raw.bytes, true)

theorem reopensAt?_eq (block : Delimiters) (rest : Text) : block.reopensAt? rest = some (block.reopens rest) := by
  rw [reopensAt?, Text.lastPosition?, reopens]
  cases hcut : Text.cutLast? block.opening rest with
  | none => rfl
  | some pieces =>
      obtain ⟨before, tail⟩ := pieces
      have hslice := Text.slice?_rest (before ++ block.opening) tail
      rw [← Text.eq_append_of_cutLast? hcut, Text.bytes_append] at hslice
      simp only [Option.map_some, hslice]

theorem insideAt?_append (block : Delimiters) (before s : Text) :
    block.insideAt? (before ++ s) before.bytes =
      some (before.bytes + (block.inside s).1.bytes, (block.inside s).2) := by
  simp only [insideAt?, Text.slice?_rest, Option.bind_eq_bind, Option.bind_some, Text.position?, inside]
  cases hcut : Text.cutFirst? block.closing s with
  | none =>
      rw [Option.map_none, Text.bytes_append]
      rfl
  | some pieces =>
      obtain ⟨segment, rest⟩ := pieces
      have hslice := Text.slice?_rest (before ++ segment ++ block.closing) rest
      have hraw : before ++ segment ++ block.closing ++ rest = before ++ s := by
        rw [Text.eq_append_of_cutFirst? hcut, List.append_assoc, List.append_assoc, List.append_assoc]
      rw [hraw, Text.bytes_append, Text.bytes_append] at hslice
      simp only [Option.map_some, hslice, Option.bind_some, reopensAt?_eq]
      rfl

end Delimiters

/-- The bytes of the decoration at the start of a text: one `*` that stands alone. -/
def Text.starBytes : Text → Nat
  | '*' :: after => if after.head?.all isBlank then 1 else 0
  | _ => 0

/-- The comment inside a block comment starts behind the white space and the decoration. -/
theorem Comment.exists_starBytes (segment : Text) :
    ∃ star rest, segment.trimStart = star ++ rest ∧ Text.bytes star = segment.trimStart.starBytes ∧
      Comment.ofInterior segment = .ofSegment (Text.bytes (segment.indent ++ star)) 0 rest := by
  unfold Comment.ofInterior
  cases hbody : segment.trimStart with
  | nil => exact ⟨[], [], rfl, rfl, by simp⟩
  | cons c after =>
      by_cases hc : c = '*'
      · subst hc
        by_cases hblank : after.head?.all isBlank = true
        · refine ⟨['*'], after, rfl, ?_, ?_⟩
          · simp only [Text.starBytes, hblank, if_true]
            rfl
          · simp only [hblank, if_true, Text.bytes_append]
            rfl
        · refine ⟨[], '*' :: after, rfl, ?_, ?_⟩
          · simp only [Text.starBytes, hblank]
            rfl
          · simp [hblank]
      · refine ⟨[], c :: after, rfl, ?_, ?_⟩
        · simp [Text.starBytes, hc]
        · simp [hc]

namespace CommentStyle

def tagInsideAt? (block : Delimiters) (raw : Text) : Option (Tag × Bool) := do
  let (last, stillOpen) ← block.insideAt? raw 0
  let segment ← raw.slice? 0 last
  let lead ← minus? segment.bytes segment.trimStart.bytes
  let rest ← segment.slice? lead segment.bytes
  let comment ← Comment.between? raw (lead + rest.starBytes) last 0
  return (.comment comment, stillOpen)

def tagOutsideAt? (style : CommentStyle) (raw : Text) : Option (Tag × Bool) :=
  if raw.trimStart.isEmpty then some (.blank, false)
  else do
    let indent ← minus? raw.bytes raw.trimStart.bytes
    match style.block.filter fun block => raw.trimStart.startsWith block.opening with
    | some block =>
      let first := indent + block.opening.bytes
      let (last, isOpen) ← block.insideAt? raw first
      let comment ← Comment.between? raw first last block.opening.bytes
      return (.comment comment, isOpen)
    | none =>
      match style.leader? raw.trimStart with
      | some leader =>
        let comment ← Comment.between? raw (indent + leader.bytes) raw.bytes leader.bytes
        return (.comment comment, false)
      | none => return (.code raw, false)

def tagAt? (style : CommentStyle) (isOpen : Bool) (raw : Text) : Option (Tag × Bool) :=
  match isOpen, style.block with
  | true, some block => tagInsideAt? block raw
  | _, _ => style.tagOutsideAt? raw

theorem tagInsideAt?_eq (block : Delimiters) (raw : Text) :
    tagInsideAt? block raw = some (.comment (.ofInterior (block.inside raw).1), (block.inside raw).2) := by
  obtain ⟨later, hraw, -⟩ := block.eq_append_inside raw
  have hinside := block.insideAt?_append [] raw
  generalize block.inside raw = inside at hraw hinside
  obtain ⟨segment, stillOpen⟩ := inside
  rw [List.nil_append, Text.bytes_nil, Nat.zero_add] at hinside
  obtain ⟨star, rest, hbody, hstar, hcomment⟩ := Comment.exists_starBytes segment
  have hsegment : segment = segment.indent ++ star ++ rest := by
    rw [List.append_assoc, ← hbody, Text.indent_append_trimStart]
  have hrest := Text.slice?_rest segment.indent segment.trimStart
  rw [Text.indent_append_trimStart] at hrest
  have hbetween := Comment.between?_append (segment.indent ++ star) rest later 0
  rw [← hsegment, ← Text.bytes_append, ← hsegment, ← hraw, Text.bytes_append, hstar] at hbetween
  have hsliced : raw.slice? 0 segment.bytes = some segment := by
    rw [hraw]
    exact Text.slice?_start segment later
  simp only [tagInsideAt?, hinside, hsliced, Text.minus?_trimStart, hrest, hbetween, Option.bind_eq_bind,
    Option.bind_some]
  rw [hcomment, Text.bytes_append, hstar]
  rfl

theorem filter_block_of_opens {style : CommentStyle} {raw : Text} {block : Delimiters} (h : style.Opens raw block) :
    (style.block.filter fun block => raw.trimStart.startsWith block.opening) = some block := by
  obtain ⟨hblock, rest, hrest⟩ := h
  rw [hblock, Option.filter_some, if_pos]
  rw [Text.startsWith, ← hrest, Text.after?_append]
  rfl

theorem filter_block_of_not_opens {style : CommentStyle} {raw : Text} (h : ¬ ∃ block, style.Opens raw block) :
    (style.block.filter fun block => raw.trimStart.startsWith block.opening) = none := by
  rw [Option.filter_eq_none_iff]
  intro block hblock hstarts
  obtain ⟨rest, hrest⟩ := Option.isSome_iff_exists.mp hstarts
  exact h ⟨block, hblock, rest, (Text.eq_append_of_after? hrest).symm⟩

theorem tagOutsideAt?_eq (style : CommentStyle) (raw : Text) :
    style.tagOutsideAt? raw = some (style.tagOutside raw) := by
  have hcases := style.tagsOutside raw
  generalize style.tagOutside raw = tagged at hcases
  unfold tagOutsideAt?
  cases hcases with
  | blank hblank =>
      rw [hblank]
      rfl
  | block block rest hne hblock hrest =>
      have hopens : style.Opens raw block := ⟨hblock, rest, hrest.symm⟩
      have hraw : raw = raw.indent ++ block.opening ++ rest := by
        rw [List.append_assoc, ← hrest, Text.indent_append_trimStart]
      obtain ⟨later, hinside, -⟩ := block.eq_append_inside rest
      have hlast := block.insideAt?_append (raw.indent ++ block.opening) rest
      have hbetween := Comment.between?_append (raw.indent ++ block.opening) (block.inside rest).1 later
        block.opening.bytes
      rw [List.append_assoc _ _ later, ← hinside, ← hraw] at hbetween
      rw [← hraw] at hlast
      rw [Text.bytes_append] at hlast hbetween ⊢
      simp only [List.isEmpty_iff, hne, if_false, Text.minus?_trimStart, filter_block_of_opens hopens, hlast, hbetween,
        Option.bind_eq_bind, Option.bind_some]
      rfl
  | leader leader rest hne hblock hleader hrest =>
      have hraw : raw = raw.indent ++ leader ++ rest := by
        rw [List.append_assoc, ← hrest, Text.indent_append_trimStart]
      have hbetween := Comment.between?_append (raw.indent ++ leader) rest [] leader.bytes
      rw [List.append_nil, ← Text.bytes_append (raw.indent ++ leader), ← hraw] at hbetween
      rw [Text.bytes_append] at hbetween ⊢
      simp only [List.isEmpty_iff, hne, if_false, Text.minus?_trimStart, filter_block_of_not_opens hblock, hleader,
        hbetween, Option.bind_eq_bind, Option.bind_some]
      rfl
  | code hne hblock hleader =>
      simp only [List.isEmpty_iff, hne, if_false, Text.minus?_trimStart, filter_block_of_not_opens hblock, hleader,
        Option.bind_eq_bind, Option.bind_some]
      rfl

theorem tagAt?_eq (style : CommentStyle) (isOpen : Bool) (raw : Text) :
    style.tagAt? isOpen raw = some (style.tag isOpen raw) := by
  cases isOpen with
  | false => exact style.tagOutsideAt?_eq raw
  | true =>
      cases hblock : style.block with
      | none =>
          simp only [tagAt?, tag, hblock]
          exact style.tagOutsideAt?_eq raw
      | some block =>
          simp only [tagAt?, tag, hblock]
          exact tagInsideAt?_eq block raw

def tagFromAt? (style : CommentStyle) (isOpen : Bool) (line : Nat) : List Text → Option (List TaggedLine)
  | [] => some []
  | raw :: rest => do
    let (tag, stillOpen) ← style.tagAt? isOpen raw
    let later ← style.tagFromAt? stillOpen (line + 1) rest
    return ⟨line, tag⟩ :: later

theorem tagFromAt?_eq (style : CommentStyle) (isOpen : Bool) (line : Nat) (lines : List Text) :
    style.tagFromAt? isOpen line lines = some (style.tagFrom isOpen line lines) := by
  induction lines generalizing isOpen line with
  | nil => rfl
  | cons raw rest ih =>
      simp only [tagFromAt?, tagAt?_eq, ih, Option.bind_eq_bind, Option.bind_some]
      rfl

end CommentStyle

/-! ### Assembly -/

namespace OpenBlock

/-- The note that a block makes, if it has a body and does not end before it starts. -/
def toNote? (block : OpenBlock) (kind : NoteKind) (endLine : Nat) : Option Note :=
  if block.startLine ≤ endLine ∧ block.body.isEmpty = false then some (block.toNote kind endLine) else none

def close? (block : OpenBlock) (kind : NoteKind) (endLine : Nat) : Option Findings :=
  if block.body.isEmpty then some (.warning .emptyBlock block.startLine)
  else (block.toNote? kind endLine).map .note

def cutOff? (block : OpenBlock) (kind : NoteKind) : Option Findings :=
  let warning := Findings.warning .unterminatedBlock block.startLine
  if block.body.isEmpty then some warning
  else (block.toNote? kind block.lastLine).map fun note => warning ++ .note note

theorem toNote?_eq {block : OpenBlock} {endLine : Nat} (h : block.startLine ≤ endLine)
    (hbody : ¬ block.body.isEmpty = true) (kind : NoteKind) :
    block.toNote? kind endLine = some (block.toNote kind endLine) :=
  if_pos ⟨h, Bool.eq_false_iff.mpr hbody⟩

theorem close?_eq {block : OpenBlock} {endLine : Nat} (h : block.startLine ≤ endLine) (kind : NoteKind) :
    block.close? kind endLine = some (block.close kind endLine) := by
  rw [close?, close]
  by_cases hbody : block.body.isEmpty = true
  · rw [if_pos hbody, if_pos hbody]
  · rw [if_neg hbody, if_neg hbody, toNote?_eq h hbody, Option.map_some]

theorem cutOff?_eq {block : OpenBlock} (h : block.startLine ≤ block.lastLine) (kind : NoteKind) :
    block.cutOff? kind = some (block.cutOff kind) := by
  rw [cutOff?, cutOff]
  by_cases hbody : block.body.isEmpty = true
  · rw [if_pos hbody, if_pos hbody, Findings.append_none]
  · rw [if_neg hbody, if_neg hbody, toNote?_eq h hbody, Option.map_some]

end OpenBlock

namespace BlockState

def stepBrace? (block : OpenBlock) (depth line : Nat) (c : Comment) : Option (BlockState × Findings) :=
  match Role.ofText c.text with
  | .braceClose =>
    if depth = 1 then (block.close? .brace line).map fun found => (.idle, found)
    else (minus? depth 1).map fun depth => (.brace (block.push line c) depth, .none)
  | _ => some (stepBrace block depth line c)

def stepCollection? (block : OpenBlock) (line : Nat) (c : Comment) : Option (BlockState × Findings) :=
  match Role.ofText c.text with
  | .collectionClose => (block.close? .collection line).map fun found => (.idle, found)
  | _ => some (stepCollection block line c)

/-- What an open block leaves at the end of the file or of a run of comments. -/
def finish? : BlockState → Option Findings
  | .idle => some .none
  | .brace block _ => block.cutOff? .brace
  | .collection block => block.cutOff? .collection

def step? (state : BlockState) (tagged : TaggedLine) : Option (BlockState × Findings) :=
  match tagged.tag with
  | .blank => some (state, .none)
  | .code _ => state.finish?.map fun found => (.idle, found)
  | .comment c =>
    match state with
    | .idle => some (stepIdle tagged.line c)
    | .brace block depth => stepBrace? block depth tagged.line c
    | .collection block => stepCollection? block tagged.line c

def run? (state : BlockState) : List TaggedLine → Option Findings
  | [] => state.finish?
  | tagged :: rest => do
    let (next, found) ← state.step? tagged
    let later ← next.run? rest
    return found ++ later

/-- The block of a state started before the line that comes next, and as many braces are open as it counts. -/
def Fits (line : Nat) : BlockState → Prop
  | .idle => True
  | .brace block depth => block.startLine ≤ block.lastLine ∧ block.lastLine < line ∧ 1 ≤ depth
  | .collection block => block.startLine ≤ block.lastLine ∧ block.lastLine < line

theorem Fits.mono {line line' : Nat} {state : BlockState} (h : state.Fits line) (hle : line ≤ line') :
    state.Fits line' := by
  cases state with
  | idle => trivial
  | brace block depth => exact ⟨h.1, Nat.lt_of_lt_of_le h.2.1 hle, h.2.2⟩
  | collection block => exact ⟨h.1, Nat.lt_of_lt_of_le h.2 hle⟩

theorem finish?_eq {line : Nat} {state : BlockState} (h : state.Fits line) : state.finish? = some state.finish := by
  cases state with
  | idle => rfl
  | brace block depth => exact OpenBlock.cutOff?_eq h.1 .brace
  | collection block => exact OpenBlock.cutOff?_eq h.1 .collection

theorem fits_stepIdle (line : Nat) (c : Comment) : (stepIdle line c).1.Fits (line + 1) := by
  unfold stepIdle
  cases Role.ofText c.text with
  | braceOpen => exact ⟨Nat.le_refl _, Nat.lt_succ_self _, Nat.le_refl _⟩
  | collectionOpen => exact ⟨Nat.le_refl _, Nat.lt_succ_self _⟩
  | _ => trivial

section

variable {block : OpenBlock} {line : Nat} (h : block.startLine ≤ line)

include h

theorem stepBrace?_eq {depth : Nat} (hdepth : 1 ≤ depth) (c : Comment) :
    stepBrace? block depth line c = some (stepBrace block depth line c) ∧
      (stepBrace block depth line c).1.Fits (line + 1) := by
  have hfits : ∀ depth', 1 ≤ depth' → Fits (line + 1) (.brace (block.push line c) depth') :=
    fun _ hdepth' => ⟨h, Nat.lt_succ_self line, hdepth'⟩
  unfold stepBrace? stepBrace
  cases Role.ofText c.text with
  | braceClose =>
      by_cases hone : depth = 1
      · simp only [if_pos hone, OpenBlock.close?_eq h, Option.map_some, true_and]
        trivial
      · simp only [if_neg hone, minus?, if_pos hdepth, Option.map_some, true_and]
        exact hfits _ (by omega)
  | braceOpen => exact ⟨rfl, hfits _ (by omega)⟩
  | prose =>
      refine ⟨rfl, hfits _ ?_⟩
      split
      · omega
      · exact hdepth
  | marker keyword text offset => exact ⟨rfl, hfits _ hdepth⟩
  | collectionOpen => exact ⟨rfl, hfits _ hdepth⟩
  | collectionClose => exact ⟨rfl, hfits _ hdepth⟩

theorem stepCollection?_eq (c : Comment) :
    stepCollection? block line c = some (stepCollection block line c) ∧
      (stepCollection block line c).1.Fits (line + 1) := by
  have hfits : Fits (line + 1) (.collection (block.push line c)) := ⟨h, Nat.lt_succ_self line⟩
  unfold stepCollection? stepCollection
  cases Role.ofText c.text with
  | collectionClose =>
      simp only [OpenBlock.close?_eq h, Option.map_some, true_and]
      trivial
  | _ => exact ⟨rfl, hfits⟩

end

/-- One line succeeds in a state that fits, and leaves a state that fits the line after it. -/
theorem step?_eq {line : Nat} {state : BlockState} (h : state.Fits line) {tagged : TaggedLine}
    (hle : line ≤ tagged.line) :
    state.step? tagged = some (state.step tagged) ∧ (state.step tagged).1.Fits (tagged.line + 1) := by
  unfold step? step
  cases tagged.tag with
  | blank => exact ⟨rfl, h.mono (Nat.le_succ_of_le hle)⟩
  | code text =>
      simp only [finish?_eq h, Option.map_some, true_and]
      trivial
  | comment c =>
      cases state with
      | idle => exact ⟨rfl, fits_stepIdle tagged.line c⟩
      | brace block depth =>
          have hstart : block.startLine ≤ tagged.line := by
            obtain ⟨hlast, hline, -⟩ := h
            omega
          exact stepBrace?_eq hstart h.2.2 c
      | collection block =>
          have hstart : block.startLine ≤ tagged.line := by
            obtain ⟨hlast, hline⟩ := h
            omega
          exact stepCollection?_eq hstart c

/-- So do all lines of a file. -/
theorem run?_eq {line : Nat} {state : BlockState} (h : state.Fits line) {lines : List TaggedLine}
    (hnumbered : Numbered lines) (hle : ∀ tagged ∈ lines, line ≤ tagged.line) :
    state.run? lines = some (state.run lines) := by
  induction lines generalizing line state with
  | nil => exact finish?_eq h
  | cons tagged rest ih =>
      obtain ⟨hfirst, hrest⟩ := List.pairwise_cons.mp hnumbered
      obtain ⟨hstep, hfits⟩ := step?_eq h (hle tagged List.mem_cons_self)
      simp only [run?, hstep, ih hfits hrest hfirst, Option.bind_eq_bind, Option.bind_some]
      rfl

end BlockState

/-! ### Anchors -/

/-- For every place in the file and the one behind its end, the place of the first code line there or later;
`place` is that of the first line. -/
def codePlaces (place : Nat) : List TaggedLine → List (Option Nat)
  | [] => [none]
  | tagged :: rest =>
    let later := codePlaces (place + 1) rest
    (if tagged.anchor?.isSome then some place else later.head?.join) :: later

/-- The anchor of what ends at line `endLine`, by the place of the code line. -/
def anchorAt? (lines : List TaggedLine) (endLine : Nat) : Option (Option Anchor) :=
  match (codePlaces 0 lines)[endLine]?.join with
  | some place => lines[place]?.map TaggedLine.anchor?
  | none => some none

/-- The place found is that of a line, and the line has the anchor; or there is none. -/
theorem codePlaces_cases (place : Nat) (lines : List TaggedLine) (n : Nat) :
    ((codePlaces place lines)[n]?.join = none ∧ anchorAfter (anchorIndex lines) n = none) ∨
      ∃ i tagged, (codePlaces place lines)[n]?.join = some (place + i) ∧ lines[i]? = some tagged ∧
        tagged.anchor? = anchorAfter (anchorIndex lines) n := by
  induction lines generalizing place n with
  | nil => cases n <;> exact Or.inl ⟨rfl, rfl⟩
  | cons first rest ih =>
      have hlater : ∀ n, ((codePlaces (place + 1) rest)[n]?.join = none ∧ anchorAfter (anchorIndex rest) n = none) ∨
          ∃ i tagged, (codePlaces (place + 1) rest)[n]?.join = some (place + i) ∧
            (first :: rest)[i]? = some tagged ∧ tagged.anchor? = anchorAfter (anchorIndex rest) n := by
        intro n
        refine (ih (place + 1) n).imp_right fun ⟨i, tagged, hplace, hline, hanchor⟩ => ?_
        refine ⟨i + 1, tagged, ?_, hline, hanchor⟩
        rw [hplace]
        congr 1
        omega
      cases n with
      | succ n => exact hlater n
      | zero =>
          cases hfirst : first.anchor? with
          | some anchor =>
              refine Or.inr ⟨0, first, ?_, rfl, ?_⟩
              · simp [codePlaces, hfirst]
              · simp [anchorAfter, anchorIndex, hfirst]
          | none =>
              have hplaces : (codePlaces place (first :: rest))[0]?.join = (codePlaces (place + 1) rest)[0]?.join := by
                simp [codePlaces, hfirst, List.head?_eq_getElem?]
              have hanchors : anchorAfter (anchorIndex (first :: rest)) 0 = anchorAfter (anchorIndex rest) 0 := by
                simp [anchorAfter, anchorIndex, hfirst, List.head?_eq_getElem?]
              rw [hplaces, hanchors]
              exact hlater 0

theorem anchorAt?_eq (lines : List TaggedLine) (endLine : Nat) :
    anchorAt? lines endLine = some (anchorAfter (anchorIndex lines) endLine) := by
  rw [anchorAt?]
  rcases codePlaces_cases 0 lines endLine with ⟨hplace, hanchor⟩ | ⟨i, tagged, hplace, hline, hanchor⟩
  · rw [hplace, hanchor]
  · rw [hplace, Nat.zero_add, ← hanchor]
    simp only [hline, Option.map_some]

/-! ### Extraction -/

def Findings.anchoredAt? (found : Findings) (lines : List TaggedLine) : Option Findings := do
  let notes ← found.notes.mapM fun note =>
    (anchorAt? lines note.endLine).map fun anchor => { note with anchor := anchor }
  return { found with notes := notes }

/-- The notes and warnings of a source file, by positions. -/
def Source.extractAt? (source : Source) (style : CommentStyle) : Option Extraction := do
  let tagged ← style.tagFromAt? false 1 source.lines
  let assembled ← BlockState.idle.run? tagged
  let found ← assembled.anchoredAt? tagged
  return ⟨found, false⟩

theorem Findings.anchoredAt?_eq (found : Findings) (lines : List TaggedLine) :
    found.anchoredAt? lines = some (found.anchored lines) := by
  simp only [anchoredAt?, anchorAt?_eq, Option.map_some]
  rw [← Option.pure_def, List.mapM_pure]
  rfl

/-- Extraction by positions takes no slice that is out of range or goes through a character, subtracts nothing
from less, and looks up nothing that is not there; line by line and file by file it gives what extraction by
pieces gives. -/
theorem Source.extractAt?_eq_some (source : Source) (style : CommentStyle) :
    (∀ s first last, (Text.slice? s first last).isSome = true ↔ Text.InRange s first last) ∧
    (∀ isOpen raw, style.tagAt? isOpen raw = some (style.tag isOpen raw)) ∧
    source.extractAt? style = some (source.extractWith style) := by
  refine ⟨fun s first last => Text.isSome_slice?_iff, style.tagAt?_eq, ?_⟩
  have htags : style.tagFromAt? false 1 source.lines = some (style.tagLines source.lines) :=
    style.tagFromAt?_eq false 1 source.lines
  have hfits : BlockState.idle.Fits 0 := trivial
  have hrun := BlockState.run?_eq hfits (style.numbered_tagLines source.lines) fun _ _ => Nat.zero_le _
  simp only [extractAt?, htags, hrun, Findings.anchoredAt?_eq, Option.bind_eq_bind, Option.bind_some]
  rfl

end Marginalia
