import LineCensus.Language.Definition

/-!
# The built-in catalog

The languages known without any configuration. Where two of them claim a file, the
one that stands first has it.
-/
namespace LineCensus.Catalog

def doubleQuotes : Delimiters := ⟨"\"", "\""⟩

def singleQuotes : Delimiters := ⟨"'", "'"⟩

def cBlock : Delimiters := ⟨"/*", "*/"⟩

def markupBlock : Delimiters := ⟨"<!--", "-->"⟩

/-- The built-in definitions, in the order in which they are asked. -/
def definitions : List LanguageDefinition := [
  { id := "cpp"
    aliases := ["C++", "cpp"]
    extensions := [".cpp", ".hpp", ".cxx", ".hxx", ".cc", ".hh", ".c", ".h"]
    lineComments := ["//"]
    blockComments := [cBlock]
    blockStrings := [⟨"R(\"", "\")"⟩]
    lineStrings := [doubleQuotes] },
  { id := "javascript"
    aliases := ["JavaScript", "js"]
    extensions := [".js", ".jsx", ".mjs", ".cjs"]
    lineComments := ["//"]
    blockComments := [cBlock]
    blockStrings := [⟨"`", "`"⟩]
    lineStrings := [doubleQuotes, singleQuotes] },
  { id := "typescript"
    aliases := ["TypeScript", "ts"]
    extensions := [".ts", ".tsx"]
    lineComments := ["//"]
    blockComments := [cBlock]
    blockStrings := [⟨"`", "`"⟩]
    lineStrings := [doubleQuotes, singleQuotes] },
  { id := "python"
    aliases := ["Python", "py"]
    extensions := [".py", ".pyw", ".pyi"]
    lineComments := ["#"]
    blockComments := [⟨"\"\"\"", "\"\"\""⟩, ⟨"'''", "'''"⟩]
    blockStrings := [⟨"\"\"\"", "\"\"\""⟩, ⟨"'''", "'''"⟩]
    lineStrings := [doubleQuotes, singleQuotes] },
  { id := "java"
    aliases := ["Java"]
    extensions := [".java"]
    lineComments := ["//"]
    blockComments := [cBlock]
    blockStrings := [⟨"\"\"\"", "\"\"\""⟩]
    lineStrings := [doubleQuotes] },
  { id := "go"
    aliases := ["Go", "golang"]
    extensions := [".go"]
    lineComments := ["//"]
    blockComments := [cBlock]
    blockStrings := [⟨"`", "`"⟩]
    lineStrings := [doubleQuotes] },
  { id := "rust"
    aliases := ["Rust", "rs"]
    extensions := [".rs"]
    lineComments := ["//"]
    blockComments := [cBlock]
    blockStrings := [⟨"r#\"", "\"#"⟩]
    lineStrings := [doubleQuotes] },
  { id := "ruby"
    aliases := ["Ruby", "rb"]
    extensions := [".rb"]
    filenames := ["Rakefile", "Gemfile"]
    lineComments := ["#"]
    blockComments := [⟨"=begin", "=end"⟩]
    blockStrings := [⟨"<<~", ""⟩, ⟨"<<-", ""⟩, ⟨"<<", ""⟩]
    lineStrings := [doubleQuotes, singleQuotes] },
  { id := "php"
    aliases := ["PHP"]
    extensions := [".php", ".php3", ".php4", ".php5", ".phtml"]
    lineComments := ["//", "#"]
    blockComments := [cBlock]
    blockStrings := [⟨"<<<", ""⟩]
    lineStrings := [doubleQuotes, singleQuotes] },
  { id := "html"
    aliases := ["HTML"]
    extensions := [".html", ".htm", ".xhtml"]
    blockComments := [markupBlock]
    lineStrings := [doubleQuotes, singleQuotes] },
  { id := "css"
    aliases := ["CSS"]
    extensions := [".css"]
    lineComments := ["/*"]
    blockComments := [cBlock]
    lineStrings := [doubleQuotes] },
  { id := "json"
    aliases := ["JSON"]
    extensions := [".json"]
    lineStrings := [doubleQuotes] },
  { id := "yaml"
    aliases := ["YAML", "yml"]
    extensions := [".yaml", ".yml"]
    lineComments := ["#"]
    blockStrings := [⟨"|", ""⟩, ⟨">", ""⟩]
    lineStrings := [doubleQuotes, singleQuotes] },
  { id := "markdown"
    aliases := ["Markdown", "md"]
    extensions := [".md", ".markdown"]
    blockComments := [markupBlock]
    blockStrings := [⟨"```", "```"⟩] },
  { id := "bash"
    aliases := ["Bash", "sh"]
    extensions := [".sh", ".bash"]
    lineComments := ["#"]
    blockStrings := [⟨"<<", ""⟩]
    lineStrings := [doubleQuotes, singleQuotes] },
  { id := "bat"
    aliases := ["Batch", "bat"]
    extensions := [".bat", ".cmd"]
    lineComments := ["::", "REM", "@REM", "rem", "@rem"] },
  { id := "toml"
    aliases := ["TOML"]
    extensions := [".toml"]
    filenames := ["Cargo.lock"]
    lineComments := ["#"]
    blockStrings := [⟨"\"\"\"", "\"\"\""⟩, ⟨"'''", "'''"⟩]
    lineStrings := [doubleQuotes, singleQuotes] },
  { id := "makefile"
    aliases := ["Makefile", "make"]
    extensions := [".mk", ".mak"]
    filenames := ["Makefile", "makefile", "GNUmakefile"]
    lineComments := ["#"] },
  { id := "dockerfile"
    aliases := ["Dockerfile", "docker"]
    extensions := [".dockerfile"]
    filenames := ["Dockerfile", "Containerfile"]
    lineComments := ["#"]
    lineStrings := [doubleQuotes, singleQuotes] }
]

/-- The built-in definition with the given id. -/
def find? (id : String) : Option LanguageDefinition := definitions.find? (·.id == id)

/-- No two built-in definitions share an id. -/
theorem nodup_ids : (definitions.map (·.id)).Nodup := by decide

end LineCensus.Catalog
