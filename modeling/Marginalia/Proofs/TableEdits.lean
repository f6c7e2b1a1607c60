import Mathlib.Data.List.Induction
import Marginalia.Config.Basic

/-! A language table and its history. The built-in table and every configured one come from edits, each of
which sets the comment style of a language or the language of an extension. A table answers by the last edit
about the tag or the extension it is asked for, whatever the case of their ASCII letters and however many dots
the edit wrote before the extension; the listing of the languages tells the same as the two look-ups. -/

namespace Marginalia

theorem Text.lower_lower (s : Text) : s.lower.lower = s.lower := by
  have hchar : ∀ c : Char, c.toLower.toLower = c.toLower := by
    intro c
    unfold Char.toLower
    grind
  simp only [lower, List.map_map]
  exact List.map_congr_left fun c _ => hchar c

theorem Text.cutLast?_dot {stem ext : Text} (h : '.' ∉ ext) :
    Text.cutLast? ['.'] (stem ++ '.' :: ext) = some (stem, ext) := by
  have hnone : ∀ s : Text, '.' ∉ s → Text.cutLast? ['.'] s = none := by
    intro s hs
    induction s with
    | nil => rfl
    | cons c s ih =>
        rw [List.mem_cons, not_or] at hs
        simp only [Text.cutLast?, ih hs.2, Text.after?, if_neg hs.1, Option.map_none]
  induction stem with
  | nil => simp only [List.nil_append, Text.cutLast?, hnone ext h, Text.after?, if_pos, Option.map_some]
  | cons c stem ih => simp only [List.cons_append, Text.cutLast?, ih]

/-- With one entry for each key, the order in which entries are set does not matter. -/
theorem Dict.get?_foldl_insert {α : Type} {entries : List (Text × α)} (h : (entries.map Prod.fst).Nodup)
    (d : Dict α) (key : Text) :
    (entries.foldl (fun d entry => d.insert entry.1 entry.2) d).get? key = (entries.lookup key).or (d.get? key) := by
  induction entries generalizing d with
  | nil => rfl
  | cons entry entries ih =>
      obtain ⟨hnew, hrest⟩ := List.nodup_cons.mp h
      rw [List.foldl_cons, ih hrest, Dict.get?_insert, Dict.lookup_cons]
      by_cases hkey : key = entry.1
      · have hnone : entries.lookup key = none := by
          rw [List.lookup_eq_none_iff]
          intro other hother
          rw [bne_iff_ne]
          rintro rfl
          exact hnew (hkey ▸ List.mem_map_of_mem hother)
        rw [if_pos hkey, if_pos hkey, hnone, Option.none_or, Option.some_or]
      · rw [if_neg hkey, if_neg hkey]

/-- A style that is found, or else the fallback with its mark. -/
def ResolvedStyle.ofStyle? : Option CommentStyle → ResolvedStyle
  | some style => ⟨style, false⟩
  | none => ⟨.fallback, true⟩

namespace LanguageTable

/-- A change of the table: a style for a language, or a language for a file extension. -/
inductive Edit where
  | language (tag : Text) (style : CommentStyle)
  | extension (ext tag : Text)

namespace Edit

def isLanguage : Edit → Bool
  | .language _ _ => true
  | .extension _ _ => false

/-- The style that an edit sets for a language. -/
def style? (tag : Text) : Edit → Option CommentStyle
  | .language name style => if name.lower = tag.lower then some style else none
  | .extension _ _ => none

/-- The language that an edit sets for an extension. Dots at the front of the extension do not count. -/
def language? (ext : Text) : Edit → Option Text
  | .language _ _ => none
  | .extension key tag => if Text.lower (key.dropWhile (· == '.')) = ext.lower then some tag.lower else none

end Edit

def edit (table : LanguageTable) : Edit → LanguageTable
  | .language tag style => table.insertLanguage tag style
  | .extension ext tag => table.insertExtension ext tag

/-- The table after a history of edits. -/
def edited (table : LanguageTable) (edits : List Edit) : LanguageTable := edits.foldl edit table

/-- The style that the last edit about a language sets. -/
def lastStyle? (edits : List Edit) (tag : Text) : Option CommentStyle := edits.reverse.findSome? (Edit.style? tag)

/-- The language that the last edit about an extension sets. -/
def lastLanguage? (edits : List Edit) (ext : Text) : Option Text := edits.reverse.findSome? (Edit.language? ext)

/-- The edits that enter a language with all its extensions. -/
def entryEdits (entry : LanguageEntry) : List Edit :=
  .language entry.tag entry.style :: entry.extensions.map fun ext => .extension ext entry.tag

/-- The history of the built-in table. -/
def builtinEdits : List Edit := builtinLanguages.flatMap entryEdits

/-- The language that a whole file name tells. -/
def builtinName? (name : Text) : Option Text := builtinFileNames.lookup name

/-! ### One edit, and then a history -/

theorem resolve_eq (table : LanguageTable) (tag : Text) :
    table.resolve tag = .ofStyle? (table.styles.get? tag.lower) := by
  rw [resolve]
  cases table.styles.get? tag.lower <;> rfl

theorem edited_append (table : LanguageTable) (edits later : List Edit) :
    table.edited (edits ++ later) = (table.edited edits).edited later := List.foldl_append

section

variable {α : Type} {set : Edit → Option α}

/-- A look-up that an edit either sets or leaves alone tells what the last edit set. -/
theorem look_edited (look : LanguageTable → Option α)
    (h : ∀ table edit, look (table.edit edit) = (set edit).or (look table)) (table : LanguageTable)
    (edits : List Edit) : look (table.edited edits) = (edits.reverse.findSome? set).or (look table) := by
  induction edits using List.reverseRecOn with
  | nil => rfl
  | append_singleton edits edit ih =>
      rw [edited_append, List.reverse_append, List.reverse_singleton, List.findSome?_append,
        List.findSome?_singleton, Option.or_assoc, ← ih]
      exact h _ edit

/-- Edits that set nothing can be left out. -/
theorem findSome?_reverse_filter {keep : Edit → Bool} (h : ∀ edit, keep edit = false → set edit = none)
    (edits : List Edit) : (edits.filter keep).reverse.findSome? set = edits.reverse.findSome? set := by
  have hkeep : (fun edit => if keep edit = true then set edit else none) = set := by
    funext edit
    cases hedit : keep edit with
    | true => rfl
    | false => exact (h edit hedit).symm
  rw [← List.filter_reverse, ← List.head?_filterMap, List.filterMap_filter, hkeep, List.head?_filterMap]

end

theorem get?_styles_edit (table : LanguageTable) (edit : Edit) (tag : Text) :
    (table.edit edit).styles.get? tag.lower = (edit.style? tag).or (table.styles.get? tag.lower) := by
  cases edit with
  | extension key language => rfl
  | language name style =>
      show (table.styles.insert name.lower style).get? tag.lower = _
      rw [Dict.get?_insert, Edit.style?]
      by_cases hname : name.lower = tag.lower
      · rw [if_pos hname.symm, if_pos hname, Option.some_or]
      · rw [if_neg (Ne.symm hname), if_neg hname, Option.none_or]

theorem get?_extensions_edit (table : LanguageTable) (edit : Edit) (ext : Text) :
    (table.edit edit).extensions.get? ext.lower = (edit.language? ext).or (table.extensions.get? ext.lower) := by
  cases edit with
  | language name style => rfl
  | extension key tag =>
      show (table.extensions.insert (extensionKey key) tag.lower).get? ext.lower = _
      rw [Dict.get?_insert, extensionKey, Edit.language?]
      by_cases hkey : Text.lower (key.dropWhile (· == '.')) = ext.lower
      · rw [if_pos hkey.symm, if_pos hkey, Option.some_or]
      · rw [if_neg (Ne.symm hkey), if_neg hkey, Option.none_or]

theorem get?_styles_edited (table : LanguageTable) (edits : List Edit) (tag : Text) :
    (table.edited edits).styles.get? tag.lower = (lastStyle? edits tag).or (table.styles.get? tag.lower) :=
  look_edited (fun table => table.styles.get? tag.lower) (fun table edit => table.get?_styles_edit edit tag) table edits

theorem get?_extensions_edited (table : LanguageTable) (edits : List Edit) (ext : Text) :
    (table.edited edits).extensions.get? ext.lower =
      (lastLanguage? edits ext).or (table.extensions.get? ext.lower) :=
  look_edited (fun table => table.extensions.get? ext.lower) (fun table edit => table.get?_extensions_edit edit ext)
    table edits

theorem fileNames_edited (table : LanguageTable) (edits : List Edit) :
    (table.edited edits).fileNames = table.fileNames := by
  induction edits using List.reverseRecOn with
  | nil => rfl
  | append_singleton edits edit ih =>
      rw [edited_append, ← ih]
      cases edit <;> rfl

/-- The tags that a table has styles for are in lower case. -/
def TagsLower (table : LanguageTable) : Prop := ∀ entry ∈ table.styles.entries, entry.1.lower = entry.1

theorem tagsLower_edit {table : LanguageTable} (h : table.TagsLower) (edit : Edit) : (table.edit edit).TagsLower := by
  cases edit with
  | extension key tag => exact h
  | language name style =>
      intro entry hentry
      rcases Dict.mem_insertEntry hentry with rfl | hold
      · exact Text.lower_lower name
      · exact h entry hold

theorem tagsLower_edited {table : LanguageTable} (h : table.TagsLower) (edits : List Edit) :
    (table.edited edits).TagsLower := by
  induction edits using List.reverseRecOn with
  | nil => exact h
  | append_singleton edits edit ih =>
      rw [edited_append]
      exact tagsLower_edit ih edit

/-! ### The built-in table and the configured ones -/

theorem foldl_insertEntry (table : LanguageTable) (entries : List LanguageEntry) :
    entries.foldl insertEntry table = table.edited (entries.flatMap entryEdits) := by
  induction entries generalizing table with
  | nil => rfl
  | cons entry entries ih =>
      have hentry : table.insertEntry entry = table.edited (entryEdits entry) := by
        rw [insertEntry, edited, entryEdits, List.foldl_cons, List.foldl_map]
        rfl
      rw [List.foldl_cons, ih, hentry, List.flatMap_cons, edited_append]

theorem foldl_insertFileName (table : LanguageTable) (names : List (Text × Text)) :
    names.foldl (fun table entry => table.insertFileName entry.1 entry.2) table =
      { table with fileNames := names.foldl (fun d entry => d.insert entry.1 entry.2) table.fileNames } := by
  induction names generalizing table with
  | nil => rfl
  | cons entry names ih =>
      rw [List.foldl_cons, ih]
      rfl

theorem builtin_eq : builtin =
    { empty.edited builtinEdits with
      fileNames := builtinFileNames.foldl (fun d entry => d.insert entry.1 entry.2) .empty } := by
  rw [builtin, foldl_insertFileName, foldl_insertEntry, fileNames_edited]
  rfl

theorem get?_styles_builtin (tag : Text) : builtin.styles.get? tag.lower = lastStyle? builtinEdits tag := by
  rw [builtin_eq]
  exact (get?_styles_edited empty builtinEdits tag).trans (Option.or_none)

theorem get?_extensions_builtin (ext : Text) :
    builtin.extensions.get? ext.lower = lastLanguage? builtinEdits ext := by
  rw [builtin_eq]
  exact (get?_extensions_edited empty builtinEdits ext).trans (Option.or_none)

theorem get?_fileNames_builtin (name : Text) : builtin.fileNames.get? name = builtinName? name := by
  have hkeys : (builtinFileNames.map Prod.fst).Nodup := by decide +kernel
  rw [builtin_eq]
  exact (Dict.get?_foldl_insert hkeys .empty name).trans Option.or_none

theorem tagsLower_builtin : builtin.TagsLower := by
  have hempty : empty.TagsLower := nofun
  rw [builtin_eq]
  exact tagsLower_edited hempty builtinEdits

theorem resolve_edited (edits : List Edit) (tag : Text) :
    (builtin.edited edits).resolve tag = .ofStyle? ((lastStyle? edits tag).or (lastStyle? builtinEdits tag)) := by
  rw [resolve_eq, get?_styles_edited, get?_styles_builtin]

theorem languageOf?_edited (edits : List Edit) (path : Text) :
    (builtin.edited edits).languageOf? path =
      ((Path.fileName? path).bind builtinName?).or
        ((Path.extension? path).bind fun ext => (lastLanguage? edits ext).or (lastLanguage? builtinEdits ext)) := by
  have hnames : builtin.fileNames.get? = builtinName? := by
    funext name
    exact get?_fileNames_builtin name
  have hextensions : (fun ext : Text => (builtin.edited edits).extensions.get? ext.lower) =
      fun ext => (lastLanguage? edits ext).or (lastLanguage? builtinEdits ext) := by
    funext ext
    rw [get?_extensions_edited, get?_extensions_builtin]
  rw [languageOf?, fileNames_edited, hnames, hextensions]

theorem lastStyle?_filter (edits : List Edit) (tag : Text) :
    lastStyle? (edits.filter Edit.isLanguage) tag = lastStyle? edits tag := by
  refine findSome?_reverse_filter (fun edit hedit => ?_) edits
  cases edit with
  | language name style => cases hedit
  | extension key language => rfl

theorem lastLanguage?_filter (edits : List Edit) (ext : Text) :
    lastLanguage? (edits.filter fun edit => !edit.isLanguage) ext = lastLanguage? edits ext := by
  refine findSome?_reverse_filter (fun edit hedit => ?_) edits
  cases edit with
  | language name style => rfl
  | extension key language => cases hedit

/-! ### The listing -/

theorem mem_languages {table : LanguageTable} {entry : LanguageEntry} :
    entry ∈ table.languages ↔
      table.styles.get? entry.tag = some entry.style ∧ entry.extensions = table.extensionsOf entry.tag := by
  rw [languages, List.mem_map, ← Dict.mem_entries_iff]
  constructor
  · rintro ⟨⟨tag, style⟩, hmem, rfl⟩
    exact ⟨hmem, rfl⟩
  · rintro ⟨hmem, hextensions⟩
    refine ⟨_, hmem, ?_⟩
    show LanguageEntry.mk entry.tag entry.style (table.extensionsOf entry.tag) = entry
    rw [← hextensions]

theorem mem_extensionsOf {table : LanguageTable} {ext tag : Text} :
    ext ∈ table.extensionsOf tag ↔ table.extensions.get? ext = some tag := by
  rw [extensionsOf, List.mem_map, ← Dict.mem_entries_iff]
  constructor
  · rintro ⟨⟨key, language⟩, hmem, rfl⟩
    obtain ⟨hentry, htag⟩ := List.mem_filter.mp hmem
    rw [← beq_iff_eq.mp htag]
    exact hentry
  · intro hentry
    exact ⟨(ext, tag), List.mem_filter.mpr ⟨hentry, beq_self_eq_true tag⟩, rfl⟩

theorem pairwise_extensionsOf (table : LanguageTable) (tag : Text) : (table.extensionsOf tag).Pairwise (· < ·) :=
  List.pairwise_map.mpr (table.extensions.ordered.sublist List.filter_sublist)

theorem pairwise_tag_languages (table : LanguageTable) : (table.languages.map LanguageEntry.tag).Pairwise (· < ·) := by
  rw [languages, List.map_map]
  exact table.styles.pairwise_keys

/-- A tag has a style of its own if it is listed, in lower case, with that style. -/
theorem resolve_eq_iff {table : LanguageTable} {tag : Text} {style : CommentStyle} :
    table.resolve tag = ⟨style, false⟩ ↔ ∃ entry ∈ table.languages, entry.tag = tag.lower ∧ entry.style = style := by
  have hfound : table.resolve tag = ⟨style, false⟩ ↔ table.styles.get? tag.lower = some style := by
    rw [resolve_eq]
    cases table.styles.get? tag.lower <;> simp [ResolvedStyle.ofStyle?]
  rw [hfound]
  constructor
  · intro hget
    exact ⟨⟨tag.lower, style, table.extensionsOf tag.lower⟩, mem_languages.mpr ⟨hget, rfl⟩, rfl, rfl⟩
  · rintro ⟨entry, hentry, htag, rfl⟩
    rw [← htag]
    exact (mem_languages.mp hentry).1

/-- A file whose name ends in an extension is in the language that lists the extension, unless its name says
otherwise. -/
theorem languageOf?_eq_iff_listed {table : LanguageTable} {entry : LanguageEntry} (hentry : entry ∈ table.languages)
    {path stem ext : Text} (hname : Path.fileName? path = some (stem ++ '.' :: ext)) (hstem : stem ≠ [])
    (hext : '.' ∉ ext) (hplain : table.fileNames.get? (stem ++ '.' :: ext) = none) :
    table.languageOf? path = some entry.tag ↔ ext.lower ∈ entry.extensions := by
  have hextension : Path.extension? path = some ext := by
    rw [Path.extension?, hname, Option.bind_some, Text.cutLast?_dot hext]
    cases stem with
    | nil => exact absurd rfl hstem
    | cons c stem => rfl
  rw [languageOf?, hname, Option.bind_some, hplain, Option.none_or, hextension, Option.bind_some,
    (mem_languages.mp hentry).2, mem_extensionsOf]

/-- What a table answers after a history of edits of the built-in one, and what it lists. -/
structure Answers (table : LanguageTable) (edits : List Edit) : Prop where
  /-- The last edit about a tag decides, then the built-in languages, then the fallback. -/
  resolve : ∀ tag, table.resolve tag = .ofStyle? ((lastStyle? edits tag).or (lastStyle? builtinEdits tag))
  /-- The whole name decides, then the last edit about the extension, then the built-in extensions. -/
  languageOf : ∀ path, table.languageOf? path =
    ((Path.fileName? path).bind builtinName?).or
      ((Path.extension? path).bind fun ext => (lastLanguage? edits ext).or (lastLanguage? builtinEdits ext))
  /-- Edits of extensions do not matter for styles. -/
  resolve_alone : ∀ tag, table.resolve tag = (builtin.edited (edits.filter Edit.isLanguage)).resolve tag
  /-- Edits of styles do not matter for the languages of files. -/
  languageOf_alone : ∀ path, table.languageOf? path =
    (builtin.edited (edits.filter fun edit => !edit.isLanguage)).languageOf? path
  /-- Each language is listed once and in order. -/
  tags : (table.languages.map LanguageEntry.tag).Pairwise (· < ·)
  /-- Languages are listed by their tags in lower case. -/
  lower : ∀ entry ∈ table.languages, entry.tag.lower = entry.tag
  /-- A language is listed with the style that its tag has, in whatever case. -/
  styles : ∀ tag style, table.resolve tag = ⟨style, false⟩ ↔
    ∃ entry ∈ table.languages, entry.tag = tag.lower ∧ entry.style = style
  /-- A language is listed with extensions, each once and in order. -/
  extensions : ∀ entry ∈ table.languages, entry.extensions.Pairwise (· < ·)
  /-- The extensions of a language, in whatever case, are those of the files in it. -/
  listed : ∀ entry ∈ table.languages, ∀ path stem ext, Path.fileName? path = some (stem ++ '.' :: ext) →
    stem ≠ [] → '.' ∉ ext → builtinName? (stem ++ '.' :: ext) = none →
    (table.languageOf? path = some entry.tag ↔ Text.lower ext ∈ entry.extensions)

theorem answers_edited (edits : List Edit) : (builtin.edited edits).Answers edits where
  resolve := resolve_edited edits
  languageOf := languageOf?_edited edits
  resolve_alone tag := by rw [resolve_edited, resolve_edited, lastStyle?_filter]
  languageOf_alone path := by simp only [languageOf?_edited, lastLanguage?_filter]
  tags := pairwise_tag_languages _
  lower entry hentry := by
    exact tagsLower_edited tagsLower_builtin edits _ (Dict.mem_entries_iff.mpr (mem_languages.mp hentry).1)
  styles tag style := resolve_eq_iff
  extensions entry hentry := by
    rw [(mem_languages.mp hentry).2]
    exact pairwise_extensionsOf _ _
  listed entry hentry path stem ext hname hstem hext hplain := by
    refine languageOf?_eq_iff_listed hentry hname hstem hext ?_
    rw [fileNames_edited, get?_fileNames_builtin, hplain]

end LanguageTable

/-- The history of a configured table: its languages and then its extensions, in the order of their keys. -/
def Config.edits (config : Config) : List LanguageTable.Edit :=
  config.languages.entries.map (fun entry => .language entry.1 entry.2) ++
    config.extensions.entries.map fun entry => .extension entry.1 entry.2

theorem Config.languageTable_eq_edited (config : Config) :
    config.languageTable = LanguageTable.builtin.edited config.edits := by
  rw [edits, LanguageTable.edited_append, LanguageTable.edited, LanguageTable.edited, List.foldl_map, List.foldl_map]
  rfl

/-- After every history of edits, and so for every configuration, the table answers by the last edit, and it
lists what it answers. -/
theorem LanguageTable.answers_history :
    (∀ edits, (builtin.edited edits).Answers edits) ∧
    ∀ config : Config, config.languageTable.Answers config.edits := by
  refine ⟨answers_edited, fun config => ?_⟩
  rw [config.languageTable_eq_edited]
  exact answers_edited config.edits

end Marginalia
