import Marginalia.Language.Table

/-! The languages known from the start. -/

namespace Marginalia

/-- `/*` and `*/`, the block delimiters most languages use. -/
def Delimiters.slashStar : Delimiters := ⟨"/*", "*/"⟩

/-- A leader for the rest of the line, in the languages that take it from the shell. -/
def CommentStyle.hash : CommentStyle := ⟨["#"], none⟩

/-- Two slashes for the rest of the line, and block comments. -/
def CommentStyle.slashes : CommentStyle := ⟨["//"], some .slashStar⟩

/-- As `slashes`, with a leader of three slashes for documentation. -/
def CommentStyle.docSlashes : CommentStyle := ⟨["///", "//"], some .slashStar⟩

namespace LanguageTable

/-- The languages known from the start, with their extensions and comment styles. -/
def builtinLanguages : List LanguageEntry := [
  ⟨"c", .slashes, ["c", "h"]⟩,
  ⟨"cpp", .docSlashes, ["cpp", "cc", "cxx", "hpp", "hh", "hxx"]⟩,
  ⟨"csharp", .docSlashes, ["cs"]⟩,
  ⟨"css", ⟨[], some .slashStar⟩, ["css"]⟩,
  ⟨"dart", .docSlashes, ["dart"]⟩,
  ⟨"dockerfile", .hash, ["dockerfile"]⟩,
  ⟨"elixir", .hash, ["ex", "exs"]⟩,
  ⟨"erlang", ⟨["%%", "%"], none⟩, ["erl", "hrl"]⟩,
  ⟨"go", .slashes, ["go"]⟩,
  ⟨"haskell", ⟨["--"], some ⟨"\x7b-", "-\x7d"⟩⟩, ["hs"]⟩,
  ⟨"html", ⟨[], some ⟨"<!--", "-->"⟩⟩, ["html", "htm", "xml", "svg", "vue"]⟩,
  ⟨"ini", ⟨[";", "#"], none⟩, ["ini", "cfg"]⟩,
  ⟨"java", .slashes, ["java"]⟩,
  ⟨"javascript", .slashes, ["js", "mjs", "cjs", "jsx"]⟩,
  ⟨"kotlin", .slashes, ["kt", "kts"]⟩,
  ⟨"lisp", ⟨[";;", ";"], none⟩, ["el", "lisp", "clj", "cljs", "scm"]⟩,
  ⟨"lua", ⟨["--"], none⟩, ["lua"]⟩,
  ⟨"make", .hash, ["mk", "make"]⟩,
  ⟨"perl", .hash, ["pl", "pm"]⟩,
  ⟨"php", ⟨["//", "#"], some .slashStar⟩, ["php"]⟩,
  ⟨"powershell", ⟨["#"], some ⟨"<#", "#>"⟩⟩, ["ps1", "psm1"]⟩,
  ⟨"python", .hash, ["py", "pyi", "pyw"]⟩,
  ⟨"r", .hash, ["r"]⟩,
  ⟨"ruby", .hash, ["rb", "rake", "gemspec"]⟩,
  ⟨"rust", ⟨["//!", "///", "//"], some .slashStar⟩, ["rs"]⟩,
  ⟨"scala", .slashes, ["scala", "sc"]⟩,
  ⟨"scss", .slashes, ["scss", "sass", "less"]⟩,
  ⟨"shell", .hash, ["sh", "bash", "zsh", "fish"]⟩,
  ⟨"sql", ⟨["--"], some .slashStar⟩, ["sql"]⟩,
  ⟨"swift", .docSlashes, ["swift"]⟩,
  ⟨"tex", ⟨["%"], none⟩, ["tex", "sty"]⟩,
  ⟨"toml", .hash, ["toml"]⟩,
  ⟨"typescript", .slashes, ["ts", "tsx", "mts", "cts"]⟩,
  ⟨"vim", ⟨["\""], none⟩, ["vim"]⟩,
  ⟨"yaml", .hash, ["yml", "yaml"]⟩,
  ⟨"zig", ⟨["///", "//"], none⟩, ["zig"]⟩]

/-- Files known by their whole name. -/
def builtinFileNames : List (Text × Text) := [
  ("Dockerfile", "dockerfile"),
  ("Makefile", "make"),
  ("GNUmakefile", "make"),
  ("Rakefile", "ruby"),
  ("Gemfile", "ruby")]

def insertEntry (table : LanguageTable) (entry : LanguageEntry) : LanguageTable :=
  entry.extensions.foldl (fun table ext => table.insertExtension ext entry.tag)
    (table.insertLanguage entry.tag entry.style)

def builtin : LanguageTable :=
  builtinFileNames.foldl (fun table entry => table.insertFileName entry.1 entry.2)
    (builtinLanguages.foldl insertEntry empty)

end LanguageTable
end Marginalia
