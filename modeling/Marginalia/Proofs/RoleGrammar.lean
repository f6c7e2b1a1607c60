import Marginalia.Proofs.Column
import Marginalia.Proofs.Indentation

/-! The grammar of comment texts. A marked text is a keyword, a colon with white space on either side of it, and a
line of text. The keywords differ in their first letters, and neither the colon nor the text begins with white
space, so a text has at most one such reading, and the conditions for the roles exclude each other: it does not
matter in which order they are tried. -/

namespace Marginalia

theorem Text.indent_of_head {s : Text} (h : ∀ c ∈ s.head?, isBlank c = false) : s.indent = [] := by
  have hwhole := s.indent_append_trimStart
  rw [trimStart_of_head h] at hwhole
  exact List.append_left_eq_self.mp hwhole

theorem Text.IsTrimmed.eq_nil_of_append {s tail : Text} (h : IsTrimmed (s ++ tail)) (hblank : tail.isAllBlank = true) :
    tail = [] := by
  cases hlast : tail.getLast? with
  | none => exact List.getLast?_eq_none_iff.mp hlast
  | some c =>
      have hvisible : isBlank c = false := h.last c (by rw [List.getLast?_append, hlast]; rfl)
      rw [List.all_eq_true.mp hblank c (List.mem_of_getLast? hlast)] at hvisible
      cases hvisible

namespace Role

/-- The pieces of a marked text. The colon stands between `before` and `after`. -/
structure Heading where
  keyword : Keyword
  before : Text
  after : Text
  text : Text

def Heading.lead (h : Heading) : Text := h.keyword.spelling ++ h.before ++ ':' :: h.after

/-- A text is made of these pieces: white space around the colon, and then one line that does not begin with any. -/
structure Heading.Reads (h : Heading) (s : Text) : Prop where
  eq : s = h.lead ++ h.text
  before : h.before.isAllBlank = true
  after : h.after.isAllBlank = true
  visible : ∀ c ∈ h.text.head?, isBlank c = false
  line : '\n' ∉ h.text

section

variable {s w lead text : Text} {keyword : Keyword} {h h' : Heading}

theorem head_colon (rest : Text) : ∀ c ∈ (':' :: rest).head?, isBlank c = false := by
  rintro c hc
  cases hc
  rfl

theorem indent_colon (hw : w.isAllBlank = true) (rest : Text) : Text.indent (w ++ ':' :: rest) = w := by
  rw [Text.indent_append hw, Text.indent_of_head (head_colon rest), List.append_nil]

theorem heading?_eq_some_iff : heading? keyword s = some (lead, text) ↔
    ∃ h : Heading, h.Reads s ∧ h.keyword = keyword ∧ h.lead = lead ∧ h.text = text := by
  constructor
  · intro hcut
    obtain ⟨hs, -⟩ := eq_append_of_heading? hcut
    obtain ⟨rest, -, hheading⟩ := Option.bind_eq_some_iff.mp hcut
    split at hheading
    · next tail htail =>
      simp only at hheading
      split at hheading
      · cases hheading
      · next hline =>
        cases hheading
        refine ⟨⟨keyword, rest.indent, Text.indent tail, Text.trimStart tail⟩, ⟨hs, ?_, ?_, ?_, hline⟩, rfl, rfl, rfl⟩
        · exact Text.isAllBlank_indent rest
        · exact Text.isAllBlank_indent tail
        · exact Text.head_trimStart tail
    · cases hheading
  · rintro ⟨⟨keyword, before, after, text⟩, ⟨rfl, hbefore, hafter, hvisible, hline⟩, rfl, rfl, rfl⟩
    have htext : Text.trimStart (after ++ text) = text := by
      rw [Text.trimStart_append hafter, Text.trimStart_of_head hvisible]
    have hindent : Text.indent (after ++ text) = after := by
      rw [Text.indent_append hafter, Text.indent_of_head hvisible, List.append_nil]
    have hcolon : Text.trimStart (before ++ ':' :: (after ++ text)) = ':' :: (after ++ text) := by
      rw [Text.trimStart_append hbefore, Text.trimStart_of_head (head_colon _)]
    have hsplit : Heading.lead ⟨keyword, before, after, text⟩ ++ text =
        keyword.spelling ++ (before ++ ':' :: (after ++ text)) := by simp [Heading.lead]
    rw [hsplit, heading?, Text.after?_append, Option.bind_some, hcolon, indent_colon hbefore]
    simp only [htext, hindent, if_neg hline, Heading.lead]

theorem Heading.head?_lead (h : Heading) : (h.lead ++ h.text).head? = h.keyword.spelling.head? := by
  obtain ⟨keyword, before, after, text⟩ := h
  cases keyword <;> rfl

theorem Heading.Reads.keyword_eq (hr : h.Reads s) (hr' : h'.Reads s) : h.keyword = h'.keyword := by
  have hletter : ∀ keyword keyword' : Keyword,
      keyword.spelling.head? = keyword'.spelling.head? → keyword = keyword' := by
    intro keyword keyword'
    cases keyword <;> cases keyword' <;> decide
  apply hletter
  rw [← h.head?_lead, ← h'.head?_lead, ← hr.eq, ← hr'.eq]

/-- There is at most one reading of a text as a marked one. -/
theorem Heading.Reads.unique (hr : h.Reads s) (hr' : h'.Reads s) : h = h' := by
  have hkeyword := hr.keyword_eq hr'
  obtain ⟨keyword, before, after, text⟩ := h
  obtain ⟨keyword', before', after', text'⟩ := h'
  obtain rfl : keyword = keyword' := hkeyword
  have hcut := heading?_eq_some_iff.mpr ⟨_, hr, rfl, rfl, rfl⟩
  rw [heading?_eq_some_iff.mpr ⟨_, hr', rfl, rfl, rfl⟩] at hcut
  obtain ⟨hlead, htext⟩ := Prod.mk.inj (Option.some.inj hcut)
  obtain rfl : text' = text := htext
  have hcolon : before' ++ ':' :: after' = before ++ ':' :: after := by
    simpa [Heading.lead, List.append_assoc] using hlead
  have hbefore : before' = before := by
    have hindent := congrArg Text.indent hcolon
    rwa [indent_colon hr'.before, indent_colon hr.before] at hindent
  subst hbefore
  obtain rfl : after' = after := (List.cons.inj (List.append_cancel_left hcolon)).2
  rfl

theorem marked?_eq_some_iff : marked? s = some (keyword, lead, text) ↔
    ∃ h : Heading, h.Reads s ∧ h.keyword = keyword ∧ h.lead = lead ∧ h.text = text := by
  have hfound : ∀ {keyword lead text}, marked? s = some (keyword, lead, text) →
      ∃ h : Heading, h.Reads s ∧ h.keyword = keyword ∧ h.lead = lead ∧ h.text = text := by
    intro keyword lead text hmarked
    obtain ⟨key, -, hkey⟩ := List.exists_of_findSome?_eq_some hmarked
    obtain ⟨pair, hheading, hpair⟩ := Option.map_eq_some_iff.mp hkey
    cases hpair
    exact heading?_eq_some_iff.mp hheading
  refine ⟨hfound, ?_⟩
  rintro ⟨h, hr, rfl, rfl, rfl⟩
  have hsome : (marked? s).isSome = true := by
    refine List.findSome?_isSome_iff.mpr ⟨h.keyword, by cases h.keyword <;> decide, ?_⟩
    rw [heading?_eq_some_iff.mpr ⟨h, hr, rfl, rfl, rfl⟩]
    rfl
  obtain ⟨⟨keyword, lead, text⟩, hmarked⟩ := Option.isSome_iff_exists.mp hsome
  obtain ⟨h', hr', rfl, rfl, rfl⟩ := hfound hmarked
  rw [hmarked, hr.unique hr']

/-! ### Roles -/

/-- The texts that play a role other than prose. -/
inductive Plays : Text → Role → Prop
  | marker {s : Text} {h : Heading} (hr : h.Reads s) (htext : h.text ≠ ['{']) :
      Plays s (.marker h.keyword h.text h.lead.bytes)
  | braceOpen {s : Text} {h : Heading} (hr : h.Reads s) (htext : h.text = ['{']) (htodo : h.keyword = .todo) :
      Plays s .braceOpen
  | braceClose : Plays ['}'] .braceClose
  | collectionOpen : Plays "TODOS.START" .collectionOpen
  | collectionClose : Plays "TODOS.END" .collectionClose

/-! One statement for each test. All but the second need a text without white space at its end, as they allow
white space there and the grammar does not. -/

theorem isAlone_iff {word : Text} (hs : s.IsTrimmed) : isAlone word s = true ↔ s = word := by
  rw [isAlone, Option.any_eq_true]
  constructor
  · rintro ⟨rest, hrest, hblank⟩
    have hwhole := Text.eq_append_of_after? hrest
    rw [hwhole] at hs
    rw [hwhole, hs.eq_nil_of_append hblank, List.append_nil]
  · rintro rfl
    refine ⟨[], ?_, rfl⟩
    have hafter := Text.after?_append s []
    rwa [List.append_nil] at hafter

theorem opensBrace_iff (hs : s.IsTrimmed) :
    opensBrace s = true ↔ ∃ h : Heading, h.Reads s ∧ h.text = ['{'] ∧ h.keyword = .todo := by
  have hcut : opensBrace s = true ↔ ∃ lead, heading? .todo s = some (lead, ['{']) := by
    rw [opensBrace]
    simp only [heading?]
    cases hrest : Text.after? Keyword.todo.spelling s with
    | none => simp
    | some rest =>
        rw [Option.bind_some]
        dsimp only
        split
        · next tail htail =>
          have htrimmed : (Text.trimStart tail).IsTrimmed := by
            rw [eq_append_of_colon hrest htail] at hs
            exact hs.trimStart_of_append
          rw [isAlone_iff htrimmed]
          constructor
          · intro hbrace
            rw [hbrace]
            exact ⟨_, if_neg (by decide)⟩
          · rintro ⟨lead, hlead⟩
            split at hlead
            · cases hlead
            · exact (Prod.mk.inj (Option.some.inj hlead)).2
        · simp
  rw [hcut]
  constructor
  · rintro ⟨lead, hlead⟩
    obtain ⟨h, hr, htodo, -, htext⟩ := heading?_eq_some_iff.mp hlead
    exact ⟨h, hr, htext, htodo⟩
  · rintro ⟨h, hr, htext, htodo⟩
    exact ⟨h.lead, heading?_eq_some_iff.mpr ⟨h, hr, htodo, rfl, htext⟩⟩

theorem marker?_eq_some_iff {role : Role} : marker? s = some role ↔
    ∃ h : Heading, h.Reads s ∧ h.text ≠ ['{'] ∧ role = .marker h.keyword h.text h.lead.bytes := by
  rw [marker?, Option.bind_eq_some_iff]
  constructor
  · rintro ⟨⟨keyword, lead, text⟩, hmarked, hrole⟩
    obtain ⟨h, hr, rfl, rfl, rfl⟩ := marked?_eq_some_iff.mp hmarked
    dsimp only at hrole
    split at hrole
    · cases hrole
    · next htext => exact ⟨h, hr, htext, (Option.some.inj hrole).symm⟩
  · rintro ⟨h, hr, htext, rfl⟩
    exact ⟨_, marked?_eq_some_iff.mpr ⟨h, hr, rfl, rfl, rfl⟩, if_neg htext⟩

theorem Plays.ofTrimmed_eq {role : Role} (hs : s.IsTrimmed) (hplays : Plays s role) : ofTrimmed s = role := by
  cases hplays with
  | @marker s h hr htext =>
      have hopens : ¬ opensBrace s = true := by
        rw [opensBrace_iff hs]
        rintro ⟨h', hr', htext', -⟩
        exact htext (hr.unique hr' ▸ htext')
      rw [ofTrimmed, if_neg hopens, marker?_eq_some_iff.mpr ⟨h, hr, htext, rfl⟩]
  | braceOpen hr htext htodo => rw [ofTrimmed, if_pos ((opensBrace_iff hs).mpr ⟨_, hr, htext, htodo⟩)]
  | braceClose => decide
  | collectionOpen => decide
  | collectionClose => decide

theorem plays_ofTrimmed (hs : s.IsTrimmed) (hrole : ofTrimmed s ≠ .prose) : Plays s (ofTrimmed s) := by
  rw [ofTrimmed] at hrole ⊢
  split
  · next hopens =>
    obtain ⟨h, hr, htext, htodo⟩ := (opensBrace_iff hs).mp hopens
    exact .braceOpen hr htext htodo
  next hopens =>
  rw [if_neg hopens] at hrole
  cases hmarker : marker? s with
  | some role =>
      obtain ⟨h, hr, htext, rfl⟩ := marker?_eq_some_iff.mp hmarker
      exact .marker hr htext
  | none =>
      rw [hmarker] at hrole
      dsimp only at hrole ⊢
      split_ifs at hrole ⊢ with hcloses hstarts hends
      · exact of_decide_eq_true hcloses ▸ .braceClose
      · exact (isAlone_iff hs).mp hstarts ▸ .collectionOpen
      · exact (isAlone_iff hs).mp hends ▸ .collectionClose
      · exact absurd rfl hrole

theorem ofTrimmed_eq_iff {role : Role} (hs : s.IsTrimmed) (hrole : role ≠ .prose) :
    ofTrimmed s = role ↔ Plays s role := by
  refine ⟨?_, Plays.ofTrimmed_eq hs⟩
  rintro rfl
  exact plays_ofTrimmed hs hrole

theorem ofTrimmed_eq_prose_iff (hs : s.IsTrimmed) : ofTrimmed s = .prose ↔ ∀ role, ¬ Plays s role := by
  constructor
  · intro hprose role hplays
    rw [hplays.ofTrimmed_eq hs] at hprose
    subst hprose
    cases hplays
  · intro hnone
    by_contra hrole
    exact hnone _ (plays_ofTrimmed hs hrole)

end

/-- A text plays the one role that the grammar gives to it without the white space around it, and is prose if the
grammar gives it none. No two rules of the grammar apply to one text, and there is one way to read a marked text.
The text of a marker stands at its offset, up to the end, and no white space follows it. -/
theorem ofText_eq_iff_plays (s : Text) :
    ofText s.trim = ofText s ∧
    (∀ role, role ≠ .prose → (ofText s = role ↔ Plays s.trim role)) ∧
    (ofText s = .prose ↔ ∀ role, ¬ Plays s.trim role) ∧
    (∀ role role', Plays s.trim role → Plays s.trim role' → role = role') ∧
    (∀ h h' : Heading, h.Reads s.trim → h'.Reads s.trim → h = h') ∧
    ∀ keyword text offset, ofText s = .marker keyword text offset →
      Text.slice? s.trim offset (Text.bytes s.trim) = some text ∧ ∀ c ∈ text.getLast?, isBlank c = false := by
  have htrimmed := Text.isTrimmed_trim s
  have htrim : ofText s.trim = ofText s := congrArg ofTrimmed htrimmed.trim_eq
  refine ⟨htrim, fun role hrole => ofTrimmed_eq_iff htrimmed hrole, ofTrimmed_eq_prose_iff htrimmed, ?_,
    fun h h' => Heading.Reads.unique, fun keyword text offset hmarker => ?_⟩
  · intro role role' hplays hplays'
    exact (hplays.ofTrimmed_eq htrimmed).symm.trans (hplays'.ofTrimmed_eq htrimmed)
  · rw [← htrim] at hmarker
    obtain ⟨lead, hs, rfl, htext⟩ := exists_of_ofText_marker htrimmed hmarker
    refine ⟨?_, htext.last⟩
    have hslice := Text.slice?_append lead text []
    rwa [List.append_nil, ← Text.bytes_append, ← hs] at hslice

/-- White space of several bytes and a line break around the colon, and a brace that is not alone. -/
theorem ofText_eq_iff_plays_spaced :
    Plays (Text.trim "\u3000FIXME\u2003:\n é \x7b ") (.marker .fixme "é \x7b" 11) ∧
      Text.slice? (Text.trim "\u3000FIXME\u2003:\n é \x7b ") 11 15 = some "é \x7b" ∧
      (∀ role, ¬ Plays (Text.trim "FIXME: \x7b") role) := by
  have hspaced := ofText_eq_iff_plays "\u3000FIXME\u2003:\n é \x7b "
  have hbrace := ofText_eq_iff_plays "FIXME: \x7b"
  obtain ⟨-, hrole, -, -, -, hmarker⟩ := hspaced
  refine ⟨(hrole (.marker .fixme "é \x7b" 11) nofun).mp (by decide), (hmarker .fixme "é \x7b" 11 (by decide)).1, ?_⟩
  exact hbrace.2.2.1.mp (by decide)

end Role
end Marginalia
