import Abbey.Learning.Data

/-!
# Collected sources

`crates/abbey-learning/src/learning.rs`: the documents of three repositories
are cut into sections and chunks, and each chunk is an example for
`prepare`.

The search for the documents (the patterns of the configuration and the
walk over the directories) is not modelled: a `Document` is what it selects.
The two regular expressions of `sections` are `heading` and `fence`.
-/

namespace Abbey.Learning

open Abbey.Lib
open Abbey.Conversation (Sha256)
open Abbey.Run (isWhitespace)

def maxFile : Nat := 256 * 1024

def maxFiles : Nat := 256

inductive Alias where
  | abbey | abi | wdbx
  deriving DecidableEq

def Alias.name : Alias → String
  | .abbey => "abbey"
  | .abi => "abi"
  | .wdbx => "wdbx"

def aliases : List Alias := [.abbey, .abi, .wdbx]

/-- A selected file: `discover` bounds the relative path, and no file name
has a NUL. -/
structure Document where
  source : Alias
  relative : String
  content : Bytes
  bounded : relative.utf8ByteSize ≤ 4096
  plain : '\x00' ∉ relative.toList

/-! ## Sections -/

/-- `\s*#*\s*$`. -/
def isClosing (cs : List Char) : Bool :=
  ((cs.dropWhile isWhitespace).dropWhile (fun c => c = '#')).all isWhitespace

/-- `(.+?)` before the closing: the shortest text that is not empty. -/
def lazyTitle : List Char → List Char
  | [] => []
  | c :: cs => if isClosing cs then [c] else c :: lazyTitle cs

/-- `^ {0,3}` before something that is not a space. -/
def unindent (line : List Char) : Option (List Char) :=
  if (line.takeWhile (fun c => c = ' ')).length ≤ 3 then some (line.dropWhile (fun c => c = ' '))
  else none

/-- The depth and the title of a heading.  Where the title is blank, the
blanks before it leave it their last one. -/
def heading (line : List Char) : Option (Nat × List Char) := do
  let rest ← unindent line
  let depth := (rest.takeWhile (fun c => c = '#')).length
  let after := rest.dropWhile (fun c => c = '#')
  let blank := after.takeWhile isWhitespace
  let text := after.dropWhile isWhitespace
  guard (1 ≤ depth ∧ depth ≤ 6 ∧ blank ≠ [])
  if text = [] then
    guard (2 ≤ blank.length)
    some (depth, blank.drop (blank.length - 1))
  else some (depth, lazyTitle text)

/-- The marker of a fence and how often it stands there. -/
def fence (line : List Char) : Option (Char × Nat) := do
  let rest ← unindent line
  let marker ← rest.head?
  let count := (rest.takeWhile (fun c => c = marker)).length
  guard ((marker = '\x60' ∨ marker = '~') ∧ 3 ≤ count)
  some (marker, count)

/-- The state of `sections` between two lines. -/
structure Scan where
  fenced : Option (Char × Nat)
  stack : List (Nat × List Char)
  current : List Char
  body : List (List Char)
  result : List (List Char × List Char)

/-- The sections with the one that ends here, unless it is blank. -/
def Scan.flush (s : Scan) : List (List Char × List Char) :=
  let normalized := joinWords (words ([' '].intercalate s.body))
  if normalized = [] then s.result else s.result ++ [(s.current, normalized)]

def Scan.fence (s : Scan) (marker : Char) (count : Nat) : Option (Char × Nat) :=
  match s.fenced with
  | some (c, n) => if c = marker ∧ n ≤ count then none else s.fenced
  | none => some (marker, count)

def scanLine (s : Scan) (line : List Char) : Except LearningError Scan :=
  match fence line with
  | some (marker, count) =>
    .ok { s with fenced := s.fence marker count, body := s.body ++ [line] }
  | none =>
    match if s.fenced = none then heading line else none with
    | some (depth, text) => do
      let stack := s.stack.filter (fun entry => entry.1 < depth) ++ [(depth, joinWords (words text))]
      let current := [' ', '/', ' '].intercalate (stack.map Prod.snd)
      ensure (bytes current ≤ 4096) (.bail "heading path bound exceeded")
      .ok { s with stack := stack, current := current, body := [line], result := s.flush }
    | none => .ok { s with body := s.body ++ [line] }

/-- The sections of a document: the path of the headings and the text. -/
def sections (text : List Char) (markdown : Bool) :
    Except LearningError (List (List Char × List Char)) :=
  if markdown then do
    let s ← (lines text).foldlM scanLine ⟨none, [], [], [], []⟩
    .ok s.flush
  else .ok [([], joinWords (words text))]

example : sections "intro\n# A #\nx\n~~~\n# no\n~~~\n## B\ny".toList true = .ok
    [([], "intro".toList), ("A".toList, "# A # x ~~~ # no ~~~".toList),
      ("A / B".toList, "## B y".toList)] := by
  decide

/-! ## Chunks -/

/-- Where the next chunk ends: after 400 characters, or at the last space
before them that is not in the first 200. -/
def chunkEnd (cs : List Char) : Nat :=
  if 400 < cs.length then
    match (cs.take 400).reverse.findIdx? (fun c => c = ' ') with
    | some k => if 200 ≤ 399 - k then 399 - k else 400
    | none => 400
  else cs.length

/-- The loop of `chunks`; every pass takes a character, so `fuel` is the
length of the text. -/
def chunksLoop : Nat → List Char → List (List Char)
  | 0, _ => []
  | fuel + 1, cs =>
    if cs = [] then []
    else cs.take (chunkEnd cs) ::
      chunksLoop fuel ((cs.drop (chunkEnd cs)).dropWhile isWhitespace)

def chunks (cs : List Char) : List (List Char) := chunksLoop cs.length cs

/-! ## Examples -/

/-- `to_ascii_lowercase().ends_with(".md")`. -/
def isMarkdown (relative : String) : Bool :=
  ".md".toList.isSuffixOf (relative.toList.map Char.toLower)

/-- One chunk of a section of a document. -/
structure Excerpt where
  doc : Document
  path : String
  index : Nat
  text : String

/-- What the id of an example is the digest of. -/
def Excerpt.key (sha : Sha256) (e : Excerpt) : Value :=
  .array [.string e.doc.source.name, .string e.doc.relative,
    .string (digestBytes sha e.doc.content), .string e.path, .number (.posInt e.index),
    .string e.text]

def Excerpt.lineage (e : Excerpt) : String :=
  e.doc.source.name ++ ":" ++ e.doc.relative ++
    (if e.path = "" then "" else "#section:" ++ e.path)

def Excerpt.prompt (e : Excerpt) : String :=
  "Source continuation from " ++ e.doc.source.name ++ ":" ++ e.doc.relative ++ "; section " ++
    (if e.path = "" then "(document)" else e.path) ++ "; chunk " ++ toString e.index ++ "."

def Excerpt.row (sha : Sha256) (isPrivate : Bool) (e : Excerpt) : Row where
  id := digestValue sha (e.key sha)
  lineage := e.lineage
  prompt := e.prompt
  response := e.text
  provenance := e.doc.source.name ++ ":" ++ e.doc.relative ++ " sha256:" ++
    digestBytes sha e.doc.content
  approved := true
  isPrivate := isPrivate

/-- The excerpts of a document, section by section. -/
def documentExcerpts (doc : Document) (text : String) : Except LearningError (List Excerpt) := do
  let parts ← sections text.toList (isMarkdown doc.relative)
  .ok (parts.flatMap (fun part => (chunks part.2).zipIdx.map (fun chunk =>
    ⟨doc, String.ofList part.1, chunk.2 + 1, String.ofList chunk.1⟩)))

/-! ## The collection -/

structure Repository where
  fileCount : Nat
  bytes : Nat
  pairs : Nat

/-- The state of `collect` between two documents; the ids it knows are those
of the rows. -/
structure Collection where
  rows : List Row
  files : List Value
  seen : List (String × String)
  duplicates : Nat
  repositories : Alias → Repository

def Collection.empty : Collection := ⟨[], [], [], 0, fun _ => ⟨0, 0, 0⟩⟩

def addRow (rows : List Row) (row : Row) : List Row :=
  if (rows.map Row.id).contains row.id then rows else rows ++ [row]

def fileItem (sha : Sha256) (doc : Document) (duplicateOf : Option String) : Value :=
  .object ([("bytes", .number (.posInt doc.content.length))] ++
    (duplicateOf.map (fun original => ("duplicate_of", Value.string original))).toList ++
    [("path", .string doc.relative), ("repository", .string doc.source.name),
      ("sha256", .string (digestBytes sha doc.content))])

def Collection.count (s : Collection) (doc : Document) (pairs : Nat) : Alias → Repository :=
  fun a => if a = doc.source then
      ⟨(s.repositories a).fileCount + 1, (s.repositories a).bytes + doc.content.length,
        (s.repositories a).pairs + pairs⟩
    else s.repositories a

def collectDocument (sha : Sha256) (isPrivate : Bool) (s : Collection) (entry : Document × String) :
    Except LearningError Collection :=
  let doc := entry.1
  let normalized := normalize entry.2
  match s.seen.lookup normalized with
  | some original =>
    .ok { s with
      files := s.files ++ [fileItem sha doc (some original)]
      duplicates := s.duplicates + 1
      repositories := s.count doc 0 }
  | none => do
    let found ← documentExcerpts doc entry.2
    let rows := (found.map (Excerpt.row sha isPrivate)).foldl addRow s.rows
    .ok { s with
      rows := rows
      files := s.files ++ [fileItem sha doc none]
      seen := s.seen ++ [(normalized, doc.source.name ++ ":" ++ doc.relative)]
      repositories := s.count doc (rows.length - s.rows.length) }

/-- The texts of the documents; `total` is the bytes read before. -/
def readDocuments : Nat → List Document → Except LearningError (List (Document × String))
  | _, [] => .ok []
  | total, doc :: rest => do
    ensure (doc.content.length ≤ maxFile) (.bail "source size limit exceeded")
    ensure (total + doc.content.length ≤ maxJson) (.bail "source total byte limit exceeded")
    let text ← required (fromUtf8 doc.content) .notUtf8
    ensure (!text.toList.all isWhitespace && !text.toList.contains '\x00')
      (.bail "nonempty UTF-8 plain text required")
    let texts ← readDocuments (total + doc.content.length) rest
    .ok ((doc, text) :: texts)

def repositoryValue (r : Repository) : Value :=
  .object [("bytes", .number (.posInt r.bytes)), ("file_count", .number (.posInt r.fileCount)),
    ("pairs", .number (.posInt r.pairs))]

/-- The manifest without its own digest. -/
def unsignedCollection (sha : Sha256) (config source : Bytes) (isPrivate : Bool) (total : Nat)
    (s : Collection) : List (String × Value) :=
  [("config_sha256", .string (digestBytes sha config)),
    ("duplicate_documents", .number (.posInt s.duplicates)),
    ("file_count", .number (.posInt s.files.length)), ("files", .array s.files),
    ("lineage", .string
      "repository:relative-path#section:heading-path; all section chunks grouped"),
    ("pair_count", .number (.posInt s.rows.length)), ("private", .bool isPrivate),
    ("qualification", .string ("source text continuation examples; " ++
      "not reviewed instruction-distillation/assistant quality")),
    ("repositories", .object (aliases.map (fun a => (a.name, repositoryValue (s.repositories a))))),
    ("schema", .string "abbey.learning.collection.v1"),
    ("source_sha256", .string (digestBytes sha source)),
    ("total_bytes", .number (.posInt total))]

/-- The manifest: its digest comes between `schema` and `source_sha256`. -/
def collectionManifest (sha : Sha256) (config source : Bytes) (isPrivate : Bool) (total : Nat)
    (s : Collection) : Value :=
  let unsigned := unsignedCollection sha config source isPrivate total s
  .object (unsigned.take 10 ++ [("sha256", .string (digestValue sha (.object unsigned)))] ++
    unsigned.drop 10)

/-- `collect`, with the bytes of its configuration and of its grant and the
documents of its repositories, where the output is absent.  The answer is
the manifest and `source.jsonl`. -/
def collect (sha : Sha256) (config grant : Bytes) (isPrivate : Bool) (documents : List Document) :
    Except LearningError (Value × Bytes) := do
  consent grant isPrivate
  ensure (documents.length ≤ maxFiles) (.bail "source size/count limit exceeded")
  ensure (aliases.all (fun a => documents.any (fun doc => doc.source = a)))
    (.bail "every repository must contribute selected files")
  let texts ← readDocuments 0 documents
  let s ← texts.foldlM (collectDocument sha isPrivate) .empty
  ensure (s.rows ≠ []) (.bail "nonempty source examples required")
  let source := rowsFile s.rows
  ensure (source.length ≤ maxJson) (.bail "generated JSONL byte limit exceeded")
  let total := (documents.map (fun doc => doc.content.length)).sum
  let manifest := collectionManifest sha config source isPrivate total s
  let _ ← jsonFile manifest
  .ok (manifest, source)

end Abbey.Learning
