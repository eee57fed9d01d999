import WikiPress.Command.Run
import WikiPress.Proofs.Batch.Failure
import WikiPress.Proofs.Batch.Roots
import WikiPress.Proofs.Inclusion.Lookup

/-!
# Pages from the command line

The command that prints a page reads its document by itself, with the directory of inclusions as it
was given, and a conversion reads it below a root with a slash at its end. Both name the same files
(`join_normalRoot`), so both get the same document, and what is printed is what a conversion writes
(`render_prints_converted`).
-/

namespace WikiPress

/-- The document at the path, read for the directory of its inclusions, is expanded to the whole. -/
def FileSystem.Expands (fs : FileSystem) (root p : Path) (whole : Document) : Prop :=
  ∃ d n, fs.document root p = .ok (.ok d) ∧ (d.expandAt fs p).result = .ok (whole, n)

/-- A document is expanded alike for all names of the directory of its inclusions. -/
theorem FileSystem.Expands.lookedUpIn {root other : Path} (alike : root.NamesLike other)
    {fs : FileSystem} {p : Path} {whole : Document} (expands : fs.Expands root p whole) :
    fs.Expands other p whole := by
  obtain ⟨d, n, held, finished⟩ := expands
  obtain ⟨bytes, opened, read⟩ := FileSystem.document_eq_ok_iff.1 held
  have own : ∀ leaf ∈ d.inclusions, leaf.root = root := by
    obtain ⟨source, _, parsed⟩ := Document.parseBytes_eq_ok_iff.1 read
    exact fun leaf member => (Document.named_of_parse parsed member).1
  refine ⟨d.lookedUpIn other, n, FileSystem.document_eq_ok_iff.2 ⟨bytes, opened, ?_⟩, ?_⟩
  · rw [Document.parseBytes_lookedUpIn alike, read]
    rfl
  · rw [Document.expandAt, Document.expandFrom_lookedUpIn alike fs _ own]
    exact finished

namespace Settings

variable {root rel : String}

/-- A root without backslashes gets a slash at its end where it has none. -/
theorem normalRoot_of_not_mem (straight : '\\' ∉ root.toList) : normalRoot root =
    if root.toList.getLast? = some Path.separator then root else root ++ "/" := by
  rw [normalRoot, Path.withSlashes_of_not_mem straight]

/-- What lies below a root lies below its normal form. -/
theorem join_normalRoot (filled : root ≠ "") (straight : '\\' ∉ root.toList) (p : Path) :
    (⟨root⟩ : Path).join p = (⟨normalRoot root⟩ : Path).join p := by
  rw [← join_withSlashes filled, Path.withSlashes_of_not_mem straight]

/-- A relative path below a root is the text of the root and its own in a row. -/
theorem join_relative (filled : root ≠ "") (straight : '\\' ∉ root.toList)
    (relative : rel.toList.head? ≠ some Path.separator) :
    (⟨root⟩ : Path).join ⟨rel⟩ = ⟨normalRoot root ++ rel⟩ := by
  have below : (⟨rel⟩ : Path).isAbsolute = false := by simpa [Path.isAbsolute] using relative
  rw [join_normalRoot filled straight, join_normalRoot_relative below]

/-- A path below a root begins as the root does. -/
theorem head?_join (filled : root ≠ "") (straight : '\\' ∉ root.toList)
    (relative : rel.toList.head? ≠ some Path.separator) :
    ((⟨root⟩ : Path).join ⟨rel⟩).text.toList.head? = root.toList.head? := by
  have some : root.toList ≠ [] := fun empty => filled (String.toList_eq_nil_iff.1 empty)
  obtain ⟨c, rest, shape⟩ := List.exists_cons_of_ne_nil some
  rw [join_relative filled straight relative, normalRoot_of_not_mem straight]
  split <;> simp [String.toList_append, shape]

/-- A relative path with slashes only is kept as it is. -/
theorem normalRelative_of_not_mem (straight : '\\' ∉ rel.toList)
    (relative : rel.toList.head? ≠ some Path.separator) : normalRelative rel = rel := by
  have kept := Path.withSlashes_of_not_mem straight
  rw [← kept] at relative
  rw [normalRelative_eq relative, kept]

/-- The root and its normal form name the same documents. -/
theorem namesLike_normalRoot (filled : root ≠ "") (straight : '\\' ∉ root.toList) :
    Path.NamesLike ⟨root⟩ ⟨normalRoot root⟩ := by
  intro locator
  rw [Reference.resolve, Reference.resolve, join_normalRoot filled straight]

end Settings

namespace Command

/-- A word that starts with no dash is no option. -/
theorem isDashed_of_head {word : String} (undashed : word.toList.head? ≠ some '-') :
    isDashed word = false := by
  unfold isDashed
  split
  · next shape => simp [shape] at undashed
  · rfl

/-- A word that starts with no dash is an operand. -/
theorem wordKind_of_head {word : String} (undashed : word.toList.head? ≠ some '-')
    (specs : List OptionSpec) : wordKind specs word = .operand := by
  unfold wordKind
  split <;> simp_all

/-- The command line for the page of a document with a directory for its inclusions. -/
theorem ofWords?_render {root file : String} (filled : root ≠ "") (named : file ≠ "")
    (undashed : root.toList.head? ≠ some '-') (undashed' : file.toList.head? ≠ some '-') :
    ofWords? ["render", "--src", root, file] = some (.render ⟨file⟩ (some ⟨root⟩) false) := by
  have option : wordKind renderOptions "--src" = .waiting lookup := rfl
  have value : ¬ (isDashed root = true ∨ (!allows lookup root) = true) := by
    simp [isDashed_of_head undashed, allows, filled]
  have last : words? renderOptions [file] = some { operands := [file] } := by
    simp only [words?, wordKind_of_head undashed', Option.map_some]
  have words : distinctWords? renderOptions ["--src", root, file] =
      some { options := [("src", some root)], operands := [file] } := by
    have read : words? renderOptions ["--src", root, file] =
        some { options := [("src", some root)], operands := [file] } := by
      rw [words?]
      simp only [option, if_neg value, last, Option.map_some]
      rfl
    rw [distinctWords?, read]
    rfl
  have operand : oneFile? { options := [("src", some root)], operands := [file] } = some ⟨file⟩ := by
    simp [oneFile?, Words.allOperands, named]
  have command : named? "render" ["--src", root, file] =
      some (.render ⟨file⟩ (some ⟨root⟩) false) := by
    simp only [named?, words, operand, bind, Option.bind]
    rfl
  rw [← command]
  rfl

/-- What a reader of command lines is relied on for: behind `render`, a directory for inclusions and a
document are taken for that where neither is empty or could be an option. -/
structure Understands (read : List String → Option Command) : Prop where
  render : ∀ {root file : String}, root ≠ "" → file ≠ "" → root.toList.head? ≠ some '-' →
    file.toList.head? ≠ some '-' →
      read ["render", "--src", root, file] = some (.render ⟨file⟩ (some ⟨root⟩) false)

/-- The reader of command lines can be relied on. -/
theorem understands_ofWords : Understands ofWords? := ⟨ofWords?_render⟩

/-- There is a text at a path where it leads to a file that encodes the text. -/
theorem readText_eq_ok_iff {fs : FileSystem} {p : Path} {text : String} :
    readText fs p = .ok text ↔
      ∃ bytes, fs.bytesAt p = .ok bytes ∧ Utf8.decode bytes = .ok text := by
  unfold readText
  cases fs.bytesAt p with
  | error e => simp
  | ok bytes => cases decoded : Utf8.decode bytes <;> simp [decoded]

/-- A document is loaded where a conversion reads it. -/
theorem document_eq_ok_iff_readText {fs : FileSystem} {root p : Path} {d : Document} :
    fs.document root p = .ok (.ok d) ↔
      ∃ text, readText fs p = .ok text ∧ Document.parse root text = .ok d := by
  simp only [FileSystem.document_eq_ok_iff, ← FileSystem.bytesAt_eq_ok_iff,
    Document.parseBytes_eq_ok_iff, readText_eq_ok_iff]
  constructor
  · rintro ⟨bytes, opened, text, decoded, read⟩
    exact ⟨text, ⟨bytes, opened, decoded⟩, read⟩
  · rintro ⟨text, ⟨bytes, opened, decoded⟩, read⟩
    exact ⟨bytes, opened, text, decoded, read⟩

/-- A page is printed where its document is expanded, and it is the page of the whole. -/
theorem pageText_eq_ok_iff {fs : FileSystem} {file root : Path} {text : String} :
    pageText fs file (some root) false = .ok text ↔
      ∃ whole, fs.Expands root file whole ∧ text = Wiki.page whole := by
  constructor
  · intro printed
    unfold pageText load at printed
    cases read : readText fs file with
    | error cause => simp [read] at printed
    | ok source =>
      cases parsed : Document.parse root source with
      | error e => simp [read, parsed] at printed
      | ok d =>
        have held := document_eq_ok_iff_readText.2 ⟨source, read, parsed⟩
        cases stopped : (d.expandAt fs file).stopped with
        | some e => simp [read, parsed, stopped] at printed
        | none =>
          have shown : Wiki.page (d.expandAt fs file).body = text := by
            simpa [read, parsed, stopped] using printed
          refine ⟨_, ⟨d, (d.expandAt fs file).replaced, held, ?_⟩, shown.symm⟩
          rw [Progress.result, stopped]
  · rintro ⟨whole, ⟨d, n, held, finished⟩, rfl⟩
    obtain ⟨source, read, parsed⟩ := document_eq_ok_iff_readText.1 held
    have stopped := Progress.not_stopped_of_result finished
    rw [Progress.result, stopped] at finished
    obtain ⟨rfl, -⟩ := Prod.mk.inj (Except.ok.inj finished)
    simp [pageText, load, read, parsed, stopped]

end Command

namespace Settings

variable {s : Settings} {fs after : FileSystem} {root rel : String} {whole : Document}
  {e : ConversionError}

/-- There is a document at a relative path where its source is expanded. -/
theorem document_eq_ok_iff_expands :
    s.document fs rel = .ok whole ↔ fs.Expands s.lookup (s.sourcePath rel) whole := by
  unfold document FileSystem.Expands Progress.result
  cases held : fs.document s.lookup (s.sourcePath rel) with
  | error e => simp [held]
  | ok read =>
    cases read with
    | error e => simp [held]
    | ok d => cases stopped : (d.expandAt fs (s.sourcePath rel)).stopped <;> simp [held, stopped]

/-- What is wrong with a document does not come from writing. -/
theorem document_ne_write (failed : s.document fs rel = .error e) (p : Path) (cause : FileError) :
    e ≠ .write p cause := by
  rintro rfl
  unfold document at failed
  simp only at failed
  split at failed
  · cases failed
  · cases failed
  · split at failed <;> cases failed

/-- A conversion below a root has a document where the command that prints its page has a text, and
that is the page. -/
theorem document_withSrc_iff (filled : root ≠ "") (straight : '\\' ∉ root.toList)
    (straight' : '\\' ∉ rel.toList) (relative : rel.toList.head? ≠ some Path.separator) :
    (s.withSrc root).document fs rel = .ok whole ↔
      fs.Expands ⟨root⟩ ((⟨root⟩ : Path).join ⟨rel⟩) whole := by
  have names := namesLike_normalRoot filled straight
  have back : Path.NamesLike ⟨normalRoot root⟩ ⟨root⟩ := fun locator => (names locator).symm
  have source : (s.withSrc root).sourcePath rel = (⟨root⟩ : Path).join ⟨rel⟩ := by
    rw [join_relative filled straight relative, sourcePath,
      normalRelative_of_not_mem straight' relative]
    rfl
  rw [document_eq_ok_iff_expands, source]
  exact ⟨fun expands => expands.lookedUpIn back, fun expands => expands.lookedUpIn names⟩

/-- A conversion fails for its document, and not for its page, where there is no document. -/
theorem convert_unread_iff : (∃ e after, s.convert fs rel = (.error e, after) ∧
    ∀ p cause, e ≠ .write p cause) ↔ ∀ whole, s.document fs rel ≠ .ok whole := by
  constructor
  · rintro ⟨e, after, failed, unwritten⟩ whole made
    obtain ⟨missing, _⟩ | ⟨cause, written, _⟩ := convert_error failed
    · rw [made] at missing
      cases missing
    · exact unwritten _ cause written
  · intro missing
    cases failed : s.document fs rel with
    | ok whole => exact absurd failed (missing whole)
    | error e =>
      refine ⟨e, fs, ?_, document_ne_write failed⟩
      simp only [convert, failed]

/-- The command that prints the page of a relative path below a root, with inclusions looked up in
the root, prints what a conversion below the root writes, whatever the destination is. It fails
where the conversion fails to read, parse or expand the document. -/
theorem render_prints_converted {read : List String → Option Command}
    (understands : Command.Understands read) (s : Settings) (fs : FileSystem) {root rel : String}
    (filled : root ≠ "") (straight : '\\' ∉ root.toList) (straight' : '\\' ∉ rel.toList)
    (relative : rel.toList.head? ≠ some Path.separator) (undashed : root.toList.head? ≠ some '-') :
    ∃ command, read ["render", "--src", root, ((⟨root⟩ : Path).join ⟨rel⟩).text] = some command ∧
      (∀ done after, (s.withSrc root).convert fs rel = (.ok done, after) →
        (command.run fs).status = 0 ∧
          after.bytesAt done.output = .ok (Utf8.encode (command.run fs).output)) ∧
      ((∃ e after, (s.withSrc root).convert fs rel = (.error e, after) ∧
          ∀ p cause, e ≠ .write p cause) ↔ (command.run fs).status = 1) := by
  let file : Path := (⟨root⟩ : Path).join ⟨rel⟩
  have begins : file.text.toList.head? = root.toList.head? := head?_join filled straight relative
  have named : file.text ≠ "" := by
    intro empty
    rw [empty, eq_comm, String.toList_empty, List.head?_nil, List.head?_eq_none_iff,
      String.toList_eq_nil_iff] at begins
    exact filled begins
  have same : ∀ whole, (s.withSrc root).document fs rel = .ok whole ↔
      fs.Expands ⟨root⟩ file whole :=
    fun whole => document_withSrc_iff filled straight straight' relative
  refine ⟨.render file (some ⟨root⟩) false,
    understands.render filled named undashed (begins ▸ undashed), ?_, ?_⟩
  · intro done after finished
    obtain ⟨whole, made, rfl, _, page⟩ := convert_ok finished
    have printed : Command.pageText fs file (some ⟨root⟩) false = .ok (Wiki.page whole) :=
      Command.pageText_eq_ok_iff.2 ⟨whole, (same whole).1 made, rfl⟩
    rw [FileSystem.bytesAt_eq_ok_iff, page, Command.run, Command.runWith, printed]
    exact ⟨rfl, rfl⟩
  · rw [convert_unread_iff, Command.run, Command.runWith]
    cases printed : Command.pageText fs file (some ⟨root⟩) false with
    | ok text =>
      obtain ⟨whole, expands, _⟩ := Command.pageText_eq_ok_iff.1 printed
      refine iff_of_false (fun missing => missing whole ((same whole).2 expands)) ?_
      exact Nat.zero_ne_one
    | error failure =>
      refine iff_of_true (fun whole made => ?_) rfl
      have shown := Command.pageText_eq_ok_iff.2 ⟨whole, (same whole).1 made, rfl⟩
      rw [printed] at shown
      cases shown

/-- A document that includes another one is converted below a root, and printed. -/
theorem render_prints_converted_sample :
    ∃ (fs after : FileSystem) (command : Command) (done : Converted),
      Command.ofWords? ["render", "--src", "s", "s/a"] = some command ∧
        ((Settings.withDest {} "o").withSrc "s").convert fs "a" = (.ok done, after) ∧
        done.output = ⟨"o/a.wiki"⟩ ∧ (command.run fs).status = 0 ∧
        after.bytesAt ⟨"o/a.wiki"⟩ = .ok (Utf8.encode (command.run fs).output) := by
  let fs : FileSystem := ⟨[(["s"], .directory), (["a", "s"], .file (Utf8.encode "@>include: b")),
    (["b", "s"], .file (Utf8.encode "---"))], []⟩
  let s : Settings := Settings.withDest {} "o"
  have record : ((s.withSrc "s").convert fs "a").1 = .ok ⟨⟨"s/a"⟩, ⟨"o/a.wiki"⟩, ""⟩ := by
    decide +kernel
  have finished : (s.withSrc "s").convert fs "a" =
      (.ok ⟨⟨"s/a"⟩, ⟨"o/a.wiki"⟩, ""⟩, ((s.withSrc "s").convert fs "a").2) := by
    rw [← record]
  have straight : '\\' ∉ "s".toList ∧ '\\' ∉ "a".toList := by decide
  have relative : "a".toList.head? ≠ some Path.separator := by decide
  obtain ⟨command, understood, writes, _⟩ := render_prints_converted Command.understands_ofWords s fs
    (by decide) straight.1 straight.2 relative (by decide)
  obtain ⟨success, page⟩ := writes _ _ finished
  have file : ((⟨"s"⟩ : Path).join ⟨"a"⟩).text = "s/a" := by decide +kernel
  rw [file] at understood
  exact ⟨fs, _, command, _, understood, finished, rfl, success, page⟩

end Settings

end WikiPress
