import Marginalia.Proofs.DisplayWidth
import Marginalia.Report.Languages
import Marginalia.Report.Text

/-! Written texts with and without colours. A look stands between two escape sequences around the text of a
span, and padding belongs to that text. Taking the sequences out of a text leaves every other text alone, so a
span that brings no escape character of its own is written alike with and without colours, and so are lines
made of such spans. The spans of a report consist of fixed texts, numbers, blanks and the texts of the report,
some of them cut; those of the list of languages, of the texts of the table. -/

namespace Marginalia

namespace Text

def escape : Char := '\x1b'

/-- What is left of a text without its escape sequences, given whether it starts inside one. -/
def uncolouredFrom (inside : Bool) : Text → Text
  | [] => []
  | c :: s =>
    if inside then uncolouredFrom (c != 'm') s
    else if c = escape then uncolouredFrom true s
    else c :: uncolouredFrom false s

/-- The text without its escape sequences, each of which runs from an escape character to the next `m`, or to
the end of the text. -/
def uncoloured (s : Text) : Text := uncolouredFrom false s

/-- The text has no escape character. -/
def Unescaped (s : Text) : Prop := escape ∉ s

instance (s : Text) : Decidable s.Unescaped := inferInstanceAs (Decidable (escape ∉ s))

@[simp] theorem unescaped_nil : Unescaped [] := List.not_mem_nil

@[simp] theorem unescaped_cons {c : Char} {s : Text} : Unescaped (c :: s) ↔ c ≠ escape ∧ s.Unescaped := by
  rw [Unescaped, List.mem_cons, not_or, ne_comm, Unescaped]

@[simp] theorem unescaped_append {s t : Text} : Unescaped (s ++ t) ↔ s.Unescaped ∧ t.Unescaped := by
  rw [Unescaped, List.mem_append, not_or, Unescaped, Unescaped]

theorem Unescaped.of_subset {s t : Text} (h : t.Unescaped) (hsub : s ⊆ t) : s.Unescaped :=
  fun hmem => h (hsub hmem)

theorem unescaped_blanks (n : Nat) : Unescaped (List.replicate n ' ') := by
  intro hmem
  cases List.eq_of_mem_replicate hmem

@[simp] theorem unescaped_padStart {width : Nat} {s : Text} : (padStart width s).Unescaped ↔ s.Unescaped := by
  simp [padStart, unescaped_blanks]

@[simp] theorem unescaped_padEnd {width : Nat} {s : Text} : (padEnd width s).Unescaped ↔ s.Unescaped := by
  simp [padEnd, unescaped_blanks]

theorem unescaped_join {sep : Text} {texts : List Text} (hsep : sep.Unescaped) (h : ∀ s ∈ texts, s.Unescaped) :
    (join sep texts).Unescaped := by
  fun_induction join sep texts with
  | case1 => exact unescaped_nil
  | case2 s => exact h s (List.mem_singleton_self s)
  | case3 s t rest ih =>
      obtain ⟨hs, hrest⟩ := List.forall_mem_cons.mp h
      simp [hs, hsep, ih hrest]

@[simp] theorem unescaped_decimal (n : Nat) : (decimal n).Unescaped := by
  intro hmem
  have hdigit := Nat.isDigit_of_mem_toDigits (by decide) (by decide) hmem
  exact absurd hdigit (by decide)

theorem unescaped_truncate (limit : Nat) {s : Text} (h : s.Unescaped) : (Display.truncate limit s).Unescaped := by
  rw [Display.truncate]
  split
  · exact h
  · obtain ⟨rest, hrest, -⟩ := Display.exists_takeColumns_append (limit - 1) s
    have hkept : Display.takeColumns (limit - 1) s <+: s := ⟨rest, hrest.symm⟩
    exact unescaped_append.mpr ⟨h.of_subset hkept.subset, by decide⟩

/-! ### Taking sequences out -/

theorem uncoloured_append {s : Text} (h : s.Unescaped) (t : Text) : uncoloured (s ++ t) = s ++ uncoloured t := by
  induction s with
  | nil => rfl
  | cons c s ih =>
      obtain ⟨hc, hs⟩ := unescaped_cons.mp h
      rw [List.cons_append, List.cons_append, ← ih hs, uncoloured, uncolouredFrom, if_neg Bool.false_ne_true,
        if_neg hc, uncoloured]

theorem uncolouredFrom_true {body : Text} (h : 'm' ∉ body) (t : Text) :
    uncolouredFrom true (body ++ 'm' :: t) = uncoloured t := by
  induction body with
  | nil => rfl
  | cons c body ih =>
      rw [List.mem_cons, not_or] at h
      obtain ⟨hc, hbody⟩ := h
      have hmore : (c != 'm') = true := bne_iff_ne.mpr (Ne.symm hc)
      rw [List.cons_append, uncolouredFrom, if_pos rfl, hmore, ih hbody]

/-- A sequence disappears. -/
theorem uncoloured_sequence {body : Text} (h : 'm' ∉ body) (t : Text) :
    uncoloured (escape :: (body ++ 'm' :: t)) = uncoloured t := by
  rw [uncoloured, uncolouredFrom, if_neg Bool.false_ne_true, if_pos rfl, uncolouredFrom_true h]

end Text

namespace Paint

theorem notMem_codes (paint : Paint) : 'm' ∉ Text.join [';'] paint.codes := by
  obtain ⟨bold, dimmed, colour⟩ := paint
  cases bold <;> cases dimmed <;> rcases colour with _ | ⟨⟨⟩⟩ <;> decide

theorem uncoloured_start (paint : Paint) (t : Text) : Text.uncoloured (paint.start ++ t) = Text.uncoloured t := by
  have hbody : 'm' ∉ '[' :: Text.join [';'] paint.codes := by
    rw [List.mem_cons, not_or]
    exact ⟨by decide, paint.notMem_codes⟩
  have hstart : paint.start ++ t = Text.escape :: (('[' :: Text.join [';'] paint.codes) ++ 'm' :: t) := by
    simp [start, Text.escape]
  rw [hstart, Text.uncoloured_sequence hbody]

theorem uncoloured_reset (t : Text) : Text.uncoloured (reset ++ t) = Text.uncoloured t :=
  Text.uncoloured_sequence (by decide : 'm' ∉ ['[', '0']) t

/-- Only a text with escape characters has an end of a look in it. -/
theorem resumeAfter_of_unescaped (paint : Paint) {seen s : Text} (hseen : seen.Unescaped) (hs : s.Unescaped) :
    paint.resumeAfter seen s = s := by
  induction s generalizing seen with
  | nil => rfl
  | cons c s ih =>
      obtain ⟨hc, hs⟩ := Text.unescaped_cons.mp hs
      have hnext : Text.Unescaped (c :: seen) := Text.unescaped_cons.mpr ⟨hc, hseen⟩
      have hplain : ¬ reset.reverse.isPrefixOf (c :: seen) = true := by
        intro hreset
        exact hnext ((List.isPrefixOf_iff_prefix.mp hreset).subset (by decide))
      rw [resumeAfter, if_neg hplain, ih hnext hs]

end Paint

/-- No span of the line has an escape character in its text. -/
def PlainLine (line : List Span) : Prop := ∀ span ∈ line, span.text.Unescaped

theorem Span.uncoloured_render {span : Span} (h : span.text.Unescaped) (t : Text) :
    Text.uncoloured (span.render true ++ t) = span.render false ++ Text.uncoloured t := by
  rw [Span.render_false, Span.render]
  split
  · rw [List.append_assoc, List.append_assoc, Paint.uncoloured_start, Paint.resume,
      Paint.resumeAfter_of_unescaped _ Text.unescaped_nil h, Text.uncoloured_append h, Paint.uncoloured_reset]
  · exact Text.uncoloured_append h t

theorem PlainLine.uncoloured_flatMap {line : List Span} (h : PlainLine line) (t : Text) :
    Text.uncoloured (line.flatMap (·.render true) ++ t) = line.flatMap (·.render false) ++ Text.uncoloured t := by
  induction line with
  | nil => rfl
  | cons span line ih =>
      obtain ⟨hspan, hline⟩ := List.forall_mem_cons.mp h
      rw [List.flatMap_cons, List.flatMap_cons, List.append_assoc, List.append_assoc,
        Span.uncoloured_render hspan, ih hline]

theorem uncoloured_renderLines {lines : List (List Span)} (h : ∀ line ∈ lines, PlainLine line) :
    Text.uncoloured (renderLines true lines) = renderLines false lines := by
  induction lines with
  | nil => rfl
  | cons line lines ih =>
      obtain ⟨hline, hlines⟩ := List.forall_mem_cons.mp h
      have hbreak : Text.Unescaped ['\n'] := by decide
      rw [renderLines, renderLines, List.flatMap_cons, List.flatMap_cons, List.append_assoc, List.append_assoc,
        hline.uncoloured_flatMap, Text.uncoloured_append hbreak]
      exact congrArg (fun rest => _ ++ (_ ++ rest)) (ih hlines)

/-! ### The lines of a report -/

theorem unescaped_pluralize (count : Nat) {singular plural : Text} (hsingular : singular.Unescaped)
    (hplural : plural.Unescaped) : (pluralize count singular plural).Unescaped := by
  rw [pluralize]
  split
  · exact hsingular
  · exact hplural

theorem unescaped_counted (count : Nat) {singular plural : Text} (hsingular : singular.Unescaped)
    (hplural : plural.Unescaped) : (counted count singular plural).Unescaped := by
  simp [counted, unescaped_pluralize count hsingular hplural, Text.escape]

/-- The texts that a note brings into a report. -/
def Note.texts (note : Note) : List Text := note.body.map BodyLine.text ++ (note.anchor.map Anchor.text).toList

def Issue.texts (issue : Issue) : List Text := issue.file :: issue.message :: issue.sourceLine?.toList

namespace Report

/-- The paths, the texts of notes and of code lines, the source lines and the messages of a report. -/
def texts (report : Report) : List Text :=
  report.files.flatMap (fun file => file.path :: file.notes.flatMap Note.texts) ++ report.issues.flatMap Issue.texts

theorem plainLine_placeLine (gutter : Nat) {place : Text} (h : place.Unescaped) :
    PlainLine (placeLine gutter place) := by
  simp [PlainLine, placeLine, h, Text.escape]

theorem plainLine_remarkLine (gutter : Nat) {remark : List Span} (h : PlainLine remark) :
    PlainLine (remarkLine gutter remark) := by
  rw [PlainLine] at h
  simpa [PlainLine, remarkLine, Text.escape] using h

theorem plainLine_sourceLines (gutter line : Nat) {text : Text} (h : text.Unescaped) :
    ∀ row ∈ sourceLines gutter line text, PlainLine row := by
  have hcut := Text.unescaped_truncate contextWidth h
  simp [PlainLine, sourceLines, hcut, Text.escape]

theorem plainLine_noteLines (gutter : Nat) (showContext : Bool) {path : Text} {note : Note} (hpath : path.Unescaped)
    (hnote : ∀ s ∈ note.texts, s.Unescaped) : ∀ line ∈ noteLines gutter showContext path note, PlainLine line := by
  have hlabel : note.kind.label.Unescaped := by
    rcases note.kind with ⟨⟨⟩⟩ | _ | _ <;> decide
  have hbody : ∀ b ∈ note.body, b.text.Unescaped := fun b hb =>
    hnote _ (List.mem_append_left _ (List.mem_map_of_mem hb))
  rw [noteLines, List.forall_mem_append, List.forall_mem_append]
  refine ⟨⟨?_, ?_⟩, by simp [PlainLine]⟩
  · split
    · next text htext =>
      have hinline : text.Unescaped := by
        rw [Note.inlineText?, Option.ite_none_left_eq_some, Option.map_eq_some_iff] at htext
        obtain ⟨-, b, hb, rfl⟩ := htext
        exact hbody b (List.mem_of_head? hb)
      rw [List.forall_mem_cons, List.forall_mem_singleton]
      refine ⟨?_, plainLine_placeLine gutter ?_⟩
      · simp [PlainLine, hlabel, hinline, Text.escape]
      · simp [hpath, Text.escape]
    · rw [List.forall_mem_cons, List.forall_mem_cons, List.forall_mem_map]
      refine ⟨?_, plainLine_placeLine gutter ?_, fun b hb => plainLine_remarkLine gutter ?_⟩
      · simp [PlainLine, hlabel, unescaped_counted, Text.escape]
      · simp [hpath, Text.escape]
      · simpa [PlainLine] using hbody b hb
  · split
    · next anchor hanchor =>
      have htext : anchor.text.Unescaped := hnote _ (List.mem_append_right _ (by simp [hanchor]))
      split
      · exact plainLine_sourceLines gutter anchor.line htext
      · exact nofun
    · exact nofun

theorem unescaped_severity (severity : Severity) : (severitySpan severity).text.Unescaped := by
  cases severity <;> decide

theorem unescaped_rule (issue : Issue) : issue.rule.Unescaped := by
  cases issue with
  | block kind file line sourceLine =>
      change kind.rule.Unescaped
      cases kind <;> decide
  | unresolvedLanguage file language => exact (by decide : Text.Unescaped "unresolved-language")
  | readError file error => exact (by decide : Text.Unescaped "read-error")

theorem unescaped_details {issue : Issue} {details : Text} (h : details ∈ issue.details?.toList) :
    details.Unescaped := by
  rcases issue with ⟨⟨⟩, _, _, _⟩ | _ | _ <;>
    simp_all [Issue.details?, WarningKind.details?, Text.escape]

theorem unescaped_hint {issue : Issue} {hint : Text} (h : hint ∈ issue.hint?.toList) : hint.Unescaped := by
  rcases issue with ⟨⟨⟩, _, _, _⟩ | _ | _ <;> simp_all [Issue.hint?, WarningKind.hint?, Text.escape]

theorem plainLine_issueLines (gutter : Nat) {issue : Issue} (h : ∀ s ∈ issue.texts, s.Unescaped) :
    ∀ line ∈ issueLines gutter issue, PlainLine line := by
  have hfile : issue.file.Unescaped := h _ List.mem_cons_self
  have hmessage : issue.message.Unescaped := h _ (List.mem_cons_of_mem _ List.mem_cons_self)
  have hsource : ∀ text ∈ issue.sourceLine?.toList, text.Unescaped := fun text htext =>
    h _ (List.mem_cons_of_mem _ (List.mem_cons_of_mem _ htext))
  simp only [issueLines, List.forall_mem_append, List.cons_append, List.forall_mem_cons, List.forall_mem_map]
  refine ⟨?_, ⟨⟨?_, ?_⟩, ?_⟩, by simp [PlainLine]⟩
  · simp [PlainLine, hmessage, unescaped_severity, unescaped_rule, Text.escape]
  · split
    · next kind file line sourceLine =>
      rw [List.forall_mem_cons]
      refine ⟨plainLine_placeLine gutter ?_, plainLine_sourceLines gutter line ?_⟩
      · have hpath : file.Unescaped := hfile
        simp [hpath, Text.escape]
      · exact hsource sourceLine (List.mem_singleton_self _)
    · rw [List.forall_mem_singleton]
      exact plainLine_placeLine gutter hfile
  · intro details hdetails
    apply plainLine_remarkLine
    simp [PlainLine, unescaped_details hdetails, Text.escape]
  · intro hint hhint
    apply plainLine_remarkLine
    simp [PlainLine, unescaped_hint hhint, Text.escape]

theorem plainLine_summaryLines (report : Report) : ∀ line ∈ report.summaryLines, PlainLine line := by
  simp only [summaryLines, List.forall_mem_cons]
  constructor
  · split
    · simp [PlainLine, successMark, unescaped_counted, Text.escape]
    · simp [PlainLine, successMark, unescaped_counted, Text.escape]
  · split
    · exact nofun
    · rw [List.forall_mem_singleton]
      simp [PlainLine, failureMark, unescaped_counted, unescaped_pluralize, Text.escape]

theorem plainLine_textLines {report : Report} (h : ∀ s ∈ report.texts, s.Unescaped) :
    ∀ line ∈ report.textLines, PlainLine line := by
  rw [texts, List.forall_mem_append, List.forall_mem_flatMap, List.forall_mem_flatMap] at h
  obtain ⟨hfiles, hissues⟩ := h
  simp only [textLines, List.forall_mem_append, List.forall_mem_flatMap]
  refine ⟨⟨fun file hfile note hnote => ?_, fun issue hissue => ?_⟩, report.plainLine_summaryLines⟩
  · obtain ⟨hpath, hnotes⟩ := List.forall_mem_cons.mp (hfiles file hfile)
    exact plainLine_noteLines _ _ hpath (List.forall_mem_flatMap.mp hnotes note hnote)
  · exact plainLine_issueLines _ (hissues issue hissue)

end Report

/-! ### The list of languages -/

/-- The tag, the leaders, the delimiters and the extensions of a language. -/
def LanguageEntry.texts (entry : LanguageEntry) : List Text :=
  entry.tag :: entry.style.leaders ++
    (entry.style.block.toList.flatMap fun block => [block.opening, block.closing]) ++ entry.extensions

namespace LanguageTable

def texts (table : LanguageTable) : List Text := table.languages.flatMap LanguageEntry.texts

theorem unescaped_markers {style : CommentStyle} (hleaders : ∀ leader ∈ style.leaders, leader.Unescaped)
    (hblock : ∀ block ∈ style.block, block.opening.Unescaped ∧ block.closing.Unescaped) :
    (markers style).Unescaped := by
  refine Text.unescaped_join (by decide) (List.forall_mem_append.mpr ⟨hleaders, ?_⟩)
  intro s hs
  obtain ⟨block, hstyle, rfl⟩ := Option.map_eq_some_iff.mp (Option.mem_toList.mp hs)
  obtain ⟨hopening, hclosing⟩ := hblock block hstyle
  simp [hopening, hclosing, Text.escape]

theorem plainLine_entryLine (tagWidth : Nat) {entry : LanguageEntry} (h : ∀ s ∈ entry.texts, s.Unescaped) :
    PlainLine (entryLine tagWidth entry) := by
  rw [LanguageEntry.texts, List.forall_mem_append, List.cons_append, List.forall_mem_cons,
    List.forall_mem_append, List.forall_mem_flatMap] at h
  obtain ⟨⟨htag, hleaders, hblock⟩, hextensions⟩ := h
  have hmarkers : (markers entry.style).Unescaped := by
    refine unescaped_markers hleaders fun block hstyle => ?_
    simpa using hblock block (Option.mem_toList.mpr hstyle)
  have hdotted : Text.Unescaped (Text.join [' '] (entry.extensions.map ('.' :: ·))) := by
    refine Text.unescaped_join (by decide) (List.forall_mem_map.mpr fun ext hext => ?_)
    simp [hextensions ext hext, Text.escape]
  simp [PlainLine, entryLine, htag, hmarkers, hdotted, Text.escape]

end LanguageTable

/-- **Colours change nothing else.** A report in colours whose escape sequences are taken out is the report
without colours, character for character and so with the same padding, if no path, text of a note or of a code
line, source line or message in it has an escape character; and likewise the list of the languages of a table
whose texts have none. -/
theorem uncoloured_toText {report : Report} {table : LanguageTable} (hreport : ∀ s ∈ report.texts, s.Unescaped)
    (htable : ∀ s ∈ table.texts, s.Unescaped) :
    (report.toText true).uncoloured = report.toText false ∧
      (table.toText true).uncoloured = table.toText false := by
  constructor
  · exact uncoloured_renderLines (Report.plainLine_textLines hreport)
  · refine uncoloured_renderLines (List.forall_mem_map.mpr fun entry hentry => ?_)
    exact LanguageTable.plainLine_entryLine _ (List.forall_mem_flatMap.mp htable entry hentry)

/-- A report with a block above a wide code line and an issue, and a table with one language. -/
theorem uncoloured_toText_block :
    let note : Note := ⟨.brace, 9, 11, [⟨10, 3, "tidy up"⟩], some ⟨120, "\tλ := 日本"⟩⟩
    let file : ScannedFile := ⟨"src/a.rs", "rust", ⟨⟨[note], []⟩, false⟩, []⟩
    let report : Report := ⟨[file], [.block .strayCloser "src/a.rs" 7 "// \x7d"], 3, true⟩
    let table := LanguageTable.empty.insertEntry ⟨"ml", ⟨["#"], some ⟨"(*", "*)"⟩⟩, ["ml", "mli"]⟩
    (∀ s ∈ report.texts, s.Unescaped) ∧ (∀ s ∈ table.texts, s.Unescaped) ∧
      report.toText true ≠ report.toText false ∧ (report.toText true).uncoloured = report.toText false ∧
      table.toText true ≠ table.toText false ∧ (table.toText true).uncoloured = table.toText false := by
  intro note file report table
  have hreport : ∀ s ∈ report.texts, s.Unescaped := by decide
  have htable : ∀ s ∈ table.texts, s.Unescaped := by decide
  obtain ⟨hsame, hlist⟩ := uncoloured_toText hreport htable
  exact ⟨hreport, htable, by decide +kernel, hsame, by decide +kernel, hlist⟩

end Marginalia
