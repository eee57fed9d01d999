import WikiPress.Proofs.Command.Rendering
import WikiPress.Proofs.Inclusion.Resumption
import WikiPress.Proofs.Path.FileNames

/-!
# Documents that include themselves

A document is known by the reference of the path it was read from, and an inclusion by the reference
that its locator names in the directory for inclusions. The two are built in different ways; for the
document's own name they agree, below the source root of a batch (`Settings.resolve_own`) as well as
beside a file on the command line (`Reference.resolve_fileName`). So a document whose first inclusion
is the document itself is refused before anything is read again (`resolve_own_name`).
-/

namespace WikiPress

/-- A document whose first inclusion leads back to its origin is a cycle, whatever files there are
by then. -/
theorem Document.expandAt_itself {origin : Path} {d : Document}
    (itself : d.inclusions.head?.map (·.target) = some (Reference.ofPath origin))
    (later : FileSystem) :
    d.expandAt later origin = ⟨d, 0, some (.cycle (Reference.ofPath origin))⟩ := by
  obtain ⟨leaf, first, own⟩ := Option.map_eq_some_iff.1 itself
  have known : leaf.target ∈ [Reference.ofPath origin] := List.mem_singleton.2 own
  rw [← own]
  exact expandFrom_refused first (.again (own ▸ known))

namespace Settings

variable {s : Settings} {rel : String}

/-- A relative path with no slash in front and no white space around it names below the source root
the document that is read for it. -/
theorem resolve_own (rooted : s.lookup = ⟨s.src⟩)
    (ended : s.src.toList.getLast? = some Path.separator)
    (relative : (Path.withSlashes rel).toList.head? ≠ some Path.separator)
    (bare : Text.trimmed rel = rel) :
    Reference.resolve s.lookup rel = Reference.ofPath (s.sourcePath rel) := by
  have below : (⟨Path.withSlashes rel⟩ : Path).isAbsolute = false := by
    simpa [Path.isAbsolute] using relative
  rw [Reference.resolve, bare, rooted, sourcePath, normalRelative_eq relative, Path.join,
    if_neg (by simp [below]), if_pos (.inr ended)]

/-- A document whose first inclusion is the document itself is not converted. -/
theorem convert_itself {fs : FileSystem} {d : Document}
    (read : fs.document s.lookup (s.sourcePath rel) = .ok (.ok d))
    (itself : d.inclusions.head?.map (·.target) = some (Reference.ofPath (s.sourcePath rel))) :
    s.convert fs rel =
      (.error (.inclusion (.cycle (Reference.ofPath (s.sourcePath rel)))), fs) := by
  simp only [convert, document, read, Document.expandAt_itself itself]

end Settings

/-- The page of a document whose first inclusion is the document itself is not printed. -/
theorem Command.render_itself {fs : FileSystem} {file : Path} {source : String} {d : Document}
    (read : readText fs file = .ok source)
    (parsed : Document.parse (file.parent?.getD ⟨""⟩) source = .ok d)
    (itself : d.inclusions.head?.map (·.target) = some (Reference.ofPath file)) :
    run fs (.render file none false) =
      { failure := some ["include cycle through " ++ (Reference.ofPath file).display]
        files := fs } := by
  simp only [run, runWith, pageText, load, read, Option.getD_none, parsed, Bool.false_eq_true, if_false,
    Document.expandAt_itself itself, printed]
  rfl

/-- A document's own name is the reference of the path that it is read from, in a batch with a source
root for every relative path, and on the command line for the name of the file. So a document whose
first inclusion leads to that reference is reported as a cycle through itself by conversions and by
the command for its page, and no file is read for it again: the report is the same whatever the files
are by then. -/
theorem resolve_own_name :
    (∀ directory format changes rel, lastGiven Change.src? changes ≠ none →
      (Path.withSlashes rel).toList.head? ≠ some '/' → Text.trimmed rel = rel →
        let s := Settings.after directory format changes
        let own := Reference.ofPath (s.sourcePath rel)
        Reference.resolve s.lookup rel = own ∧ ∀ d : Document,
          d.inclusions.head?.map (·.target) = some (Reference.resolve s.lookup rel) →
            (∀ fs : FileSystem, fs.document s.lookup (s.sourcePath rel) = .ok (.ok d) →
              s.convert fs rel = (.error (.inclusion (.cycle own)), fs)) ∧
            ∀ later, d.expandAt later (s.sourcePath rel) = ⟨d, 0, some (.cycle own)⟩) ∧
    ∀ (file : Path) name, file.fileName? = some name → '\\' ∉ name.toList →
      Text.trimmed name = name →
        let root := file.parent?.getD ⟨""⟩
        let own := Reference.ofPath file
        Reference.resolve root name = own ∧ ∀ d : Document,
          d.inclusions.head?.map (·.target) = some (Reference.resolve root name) →
            (∀ fs source, Command.readText fs file = .ok source →
              Document.parse root source = .ok d →
                Command.run fs (.render file none false) =
                  { failure := some ["include cycle through " ++ own.display], files := fs }) ∧
            ∀ later, d.expandAt later file = ⟨d, 0, some (.cycle own)⟩ := by
  constructor
  · intro directory format changes rel given relative bare s own
    obtain ⟨root, last⟩ := Option.ne_none_iff_exists'.1 given
    have src : s.src = Settings.normalRoot root := by
      rw [Settings.src_after, last]
      rfl
    have rooted : s.lookup = ⟨s.src⟩ := by
      rw [Settings.lookup_after]
      exact if_neg (src ▸ Settings.normalRoot_ne_empty root)
    have same : Reference.resolve s.lookup rel = own :=
      Settings.resolve_own rooted (src ▸ Settings.getLast?_normalRoot root) relative bare
    refine ⟨same, fun d itself => ?_⟩
    rw [same] at itself
    exact ⟨fun fs read => Settings.convert_itself read itself, Document.expandAt_itself itself⟩
  · intro file name named straight bare root own
    have same : Reference.resolve root name = own := Reference.resolve_fileName named straight bare
    refine ⟨same, fun d itself => ?_⟩
    rw [same] at itself
    exact ⟨fun fs source read parsed => Command.render_itself read parsed itself,
      Document.expandAt_itself itself⟩

/-- A document that includes itself by a detour through the directory above, named with a surplus step
in a batch and with a surplus separator on the command line. -/
theorem resolve_own_name_sample :
    let fs : FileSystem := ⟨[(["d"], .directory),
      (["b", "d"], .file (Utf8.encode "x\n@>include: ../d/b"))], []⟩
    let changes : List Change := [.lookup ⟨"y"⟩, .src "d"]
    let s := Settings.after ⟨"x"⟩ .wiki changes
    lastGiven Change.src? changes = some "d" ∧
      s.convert fs ".\\b" = (.error (.inclusion (.cycle ⟨false, ["d", "b"]⟩)), fs) ∧
      (⟨"d//b"⟩ : Path).fileName? = some "b" ∧
      Command.run fs (.render ⟨"d//b"⟩ none false) =
        { failure := some ["include cycle through d/b"], files := fs } := by
  intro fs changes s
  have given : lastGiven Change.src? changes = some "d" := by decide
  have named : (⟨"d//b"⟩ : Path).fileName? = some "b" := by decide
  have own : Reference.ofPath (s.sourcePath ".\\b") = ⟨false, ["d", "b"]⟩ := by decide +kernel
  obtain ⟨batch, command⟩ := resolve_own_name
  obtain ⟨same, cyclic⟩ := batch ⟨"x"⟩ .wiki changes ".\\b" (by simp [given])
    (by decide +kernel) (by decide +kernel)
  obtain ⟨same', cyclic'⟩ := command ⟨"d//b"⟩ "b" named (by decide) (by decide)
  obtain ⟨d, read, first⟩ : ∃ d, Document.parse s.lookup "x\n@>include: ../d/b" = .ok d ∧
      d.inclusions.head?.map (·.target) = some ⟨false, ["d", "b"]⟩ :=
    Document.exists_of_seen (by decide +kernel)
  obtain ⟨d', read', first'⟩ : ∃ d, Document.parse ((⟨"d//b"⟩ : Path).parent?.getD ⟨""⟩)
      "x\n@>include: ../d/b" = .ok d ∧
        d.inclusions.head?.map (·.target) = some ⟨false, ["d", "b"]⟩ :=
    Document.exists_of_seen (by decide +kernel)
  have held : fs.document s.lookup (s.sourcePath ".\\b") = .ok (.ok d) :=
    Command.document_eq_ok_iff_readText.2 ⟨_, by decide +kernel, read⟩
  have converted := (cyclic d (by rw [first, same, own])).1 fs held
  have printed := (cyclic' d' (by rw [first', same']; decide +kernel)).1 fs _
    (by decide +kernel) read'
  have shown : "include cycle through " ++ (Reference.ofPath ⟨"d//b"⟩).display =
      "include cycle through d/b" := by decide +kernel
  exact ⟨given, converted.trans (by rw [own]), named, printed.trans (by rw [shown])⟩

end WikiPress
