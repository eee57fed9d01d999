import WikiPress.Document.Nesting
import WikiPress.Source.Header
import WikiPress.Source.LineKind
import WikiPress.Source.Listing
import WikiPress.Source.Table

/-!
# Documents from sources

A source is read as a sequence of parts: blocks in the order of their lines, and header entries,
which may stand anywhere. A part takes the longest run of lines that belong to it, and no part
reaches over a blank line outside fenced code. The first mistake ends the reading.
-/

namespace WikiPress

/-- What a stretch of source lines gives to the document. -/
inductive Part where
  | block (block : Block)
  | title (text : String)
  | author (author : Author)
  | verifier (author : Author)

namespace Part

/-- The part that a directive line makes. -/
def ofDirective (name value : List Char) (line : Nat) : Except ParseError Part :=
  let person (make : Author → Part) : Except ParseError Part :=
    match Author.ofValue? value with
    | some a => .ok (make a)
    | none => .error (.mistake (.badPerson (String.ofList name)) line)
  match String.ofList name with
  | "title" => .ok (.title (String.ofList value))
  | "author" => person .author
  | "verifier" => person .verifier
  | "index" =>
    match DepthRange.ofValue? value with
    | some range => .ok (.block (.contents range))
    | none => .error (.mistake .badContents line)
  | other => .error (.mistake (.unknownDirective other) line)

/-- The text of a line, if the line is text. -/
def text? (line : Line) : Option (List Char) :=
  match LineKind.ofLine line with
  | .text content => some content
  | _ => none

/-- The text of a line, if the line is a table row. -/
def row? (line : Line) : Option (List Char) :=
  match LineKind.ofLine line with
  | .row text => some text
  | _ => none

/-- The item of a line, if the line is a list item. -/
def item? (line : Line) : Option ItemLine :=
  match LineKind.ofLine line with
  | .item kind indent text => some ⟨kind, indent, text, line.number⟩
  | _ => none

/-- What the first lines give, as long as they give anything, and the lines behind. -/
def leading {α : Type} (give : Line → Option α) : List Line → List α × List Line
  | [] => ([], [])
  | line :: more =>
    match give line with
    | none => ([], line :: more)
    | some a =>
      let (others, rest) := leading give more
      (a :: others, rest)

/-- Each line either gives something or is left. -/
theorem length_leading {α : Type} (give : Line → Option α) (lines : List Line) :
    (leading give lines).1.length + (leading give lines).2.length = lines.length := by
  induction lines with
  | nil => rfl
  | cons line more ih =>
    simp only [leading]
    split
    · simp
    · simp only [List.length_cons]
      omega

/-- Texts joined with spaces, without the empty ones at the beginning. -/
def flowed (texts : List (List Char)) : List Char :=
  match texts.dropWhile (· = []) with
  | [] => []
  | first :: more => first ++ more.flatMap (' ' :: ·)

/-- The text of code lines, each with a line feed at its end. -/
def codeText (lines : List Line) : String :=
  String.ofList (lines.flatMap fun line => line.text ++ ['\n'])

/-- The part that a line and the lines behind it begin with, if any, and the lines behind the
part. -/
def read (root : Path) (line : Line) (more : List Line) :
    Except ParseError (List Part × List Line) :=
  match LineKind.ofLine line with
  | .blank => .ok ([], more)
  | .rule => .ok ([block .rule], more)
  | .directive name value => do
    let part ← ofDirective name value line.number
    .ok ([part], more)
  | .fence language =>
    match more.dropWhile (!·.endsCode) with
    | [] => .error (.mistake .unclosedCode line.number)
    | _ :: rest =>
      let tag := if language = [] then none else some (String.ofList language)
      .ok ([block (.code tag (codeText (more.takeWhile (!·.endsCode))))], rest)
  | .inclusion locator =>
    if locator = [] then .error (.mistake .emptyInclusion line.number)
    else
      let target := Reference.resolve root (String.ofList locator)
      .ok ([block (.inclusion ⟨target, root⟩)], more)
  | .heading depth text => .ok ([block (.heading depth (runsOf text) [])], more)
  | .row text =>
    let (texts, rest) := leading row? more
    .ok ([block (.table (Table.rows (text :: texts)))], rest)
  | .item kind indent text => do
    let (items, rest) := leading item? more
    let list ← listOf (⟨kind, indent, text, line.number⟩ :: items)
    .ok (list.map block, rest)
  | .text content =>
    let (texts, rest) := leading text? more
    .ok ([block (.paragraph (runsOf (flowed (content :: texts))))], rest)

/-- A part takes the line it was read from. -/
theorem length_read {root : Path} {line : Line} {more rest : List Line} {parts : List Part}
    (h : read root line more = .ok (parts, rest)) : rest.length ≤ more.length := by
  have dropped := (List.dropWhile_sublist (!·.endsCode) (l := more)).length_le
  have rows := length_leading row? more
  have items := length_leading item? more
  have texts := length_leading text? more
  unfold read at h
  split at h
  · simp_all
  · simp_all
  · simp only [bind, Except.bind] at h
    split at h <;> simp_all
  · split at h
    · simp at h
    · next closing behind found =>
      simp only [Except.ok.injEq, Prod.mk.injEq] at h
      rw [found, List.length_cons] at dropped
      obtain ⟨_, rfl⟩ := h
      omega
  · split at h <;> simp_all
  · simp_all
  · simp only [Except.ok.injEq, Prod.mk.injEq] at h
    obtain ⟨_, rfl⟩ := h
    omega
  · simp only [bind, Except.bind] at h
    split at h
    · simp at h
    · simp only [Except.ok.injEq, Prod.mk.injEq] at h
      obtain ⟨_, rfl⟩ := h
      omega
  · simp only [Except.ok.injEq, Prod.mk.injEq] at h
    obtain ⟨_, rfl⟩ := h
    omega

/-- The parts of the lines of a source whose inclusions are looked up in `root`. -/
def ofLines (root : Path) : List Line → Except ParseError (List Part)
  | [] => .ok []
  | line :: more =>
    match _found : read root line more with
    | .error e => .error e
    | .ok (parts, rest) => (ofLines root rest).map (parts ++ ·)
termination_by lines => lines.length
decreasing_by
  have := length_read _found
  simp only [List.length_cons]
  omega

/-- The block of a part. -/
def block? : Part → Option Block
  | block b => some b
  | _ => none

/-- The title of a part. -/
def title? : Part → Option String
  | title t => some t
  | _ => none

/-- The author of a part. -/
def author? : Part → Option Author
  | author a => some a
  | _ => none

/-- The verifier of a part. -/
def verifier? : Part → Option Author
  | verifier a => some a
  | _ => none

end Part

namespace Document

/-- The document that parts make: the last title counts, everything else is kept in order, and
headings take over what follows them. -/
def ofParts (parts : List Part) : Document where
  title := ((parts.filterMap Part.title?).getLast?).getD ""
  authors := parts.filterMap Part.author?
  verifiers := parts.filterMap Part.verifier?
  blocks := nestHeadings (parts.filterMap Part.block?)

/-- The document of a source text whose inclusions are looked up in `root`. -/
def parse (root : Path) (source : String) : Except ParseError Document :=
  (Part.ofLines root (Line.linesOf source.toList)).map ofParts

/-- The document that bytes hold. -/
def parseBytes (root : Path) (bytes : List UInt8) : Except ParseError Document :=
  match Utf8.decode bytes with
  | .error fault => .error (.encoding fault)
  | .ok source => parse root source

end Document

end WikiPress
