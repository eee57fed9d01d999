import WikiPress.Proofs.Batch.Changes
import WikiPress.Proofs.Batch.Index

/-!
# Directories that roots name

A batch makes its paths below the normal form of a root, some by joining paths and some by writing
texts in a row, and both give the same path (`Settings.join_normalRoot_relative`). The normal form
names the directory that the root names, except that of the empty root: that is the directory the
batch runs in, and its normal form is the top directory (`Settings.ofPath_join_normalRoot_iff`). So
what is read and written lies below the root that was set exactly where that root is not empty
(`Settings.below_root_iff`).
-/

namespace WikiPress

/-- Slashes for backslashes leave nothing of nothing only. -/
theorem Path.withSlashes_eq_empty_iff {text : String} : withSlashes text = "" ↔ text = "" := by
  rw [withSlashes, ← String.toList_eq_nil_iff, String.toList_ofList, List.map_eq_nil_iff,
    String.toList_eq_nil_iff]

namespace Settings

variable {root : String} {p : Path}

/-- A slash behind a text that is not empty does not change what lies below it. -/
theorem join_ended {text : String} (filled : text ≠ "") (p : Path) :
    (⟨text⟩ : Path).join p = (⟨if text.toList.getLast? = some Path.separator then text
      else text ++ "/"⟩ : Path).join p := by
  by_cases ended : text.toList.getLast? = some Path.separator
  · rw [if_pos ended]
  · have slash : (text ++ "/").toList.getLast? = some Path.separator := by
      rw [String.toList_append, List.getLast?_append]
      rfl
    rw [if_neg ended, Path.join, Path.join]
    split
    · rfl
    · rw [if_neg (not_or.2 ⟨filled, ended⟩), if_pos (.inr slash)]

/-- What lies below a root with slashes lies below its normal form, if there is a root. -/
theorem join_withSlashes (filled : root ≠ "") (p : Path) :
    (⟨Path.withSlashes root⟩ : Path).join p = (⟨normalRoot root⟩ : Path).join p :=
  join_ended (mt Path.withSlashes_eq_empty_iff.1 filled) p

/-- A relative path below the normal form of a root is spelled by both texts in a row. -/
theorem join_normalRoot_relative (relative : p.isAbsolute = false) :
    (⟨normalRoot root⟩ : Path).join p = ⟨normalRoot root ++ p.text⟩ := by
  rw [Path.join, if_neg (by simp [relative]), if_pos (.inr (getLast?_normalRoot root))]

/-- A relative path below the normal form of a root is absolute where the root is, and where there is
no root. -/
theorem isAbsolute_join_normalRoot_iff (relative : p.isAbsolute = false) :
    ((⟨normalRoot root⟩ : Path).join p).isAbsolute = true ↔
      (⟨Path.withSlashes root⟩ : Path).isAbsolute = true ∨ root = "" := by
  by_cases filled : root = ""
  · subst filled
    obtain ⟨_, _, _, below⟩ := @Path.exists_front ⟨normalRoot ""⟩ (normalRoot_ne_empty "")
    rw [(below p relative).2]
    decide
  · obtain ⟨_, _, _, below⟩ := @Path.exists_front ⟨Path.withSlashes root⟩
      (mt Path.withSlashes_eq_empty_iff.1 filled)
    rw [← join_withSlashes filled, (below p relative).2]
    simp [filled]

/-- A relative path below the normal form of a root names what it names below the root exactly where
there is a root. -/
theorem ofPath_join_normalRoot_iff (relative : p.isAbsolute = false) :
    Reference.ofPath ((⟨normalRoot root⟩ : Path).join p) =
      Reference.ofPath ((⟨Path.withSlashes root⟩ : Path).join p) ↔ root ≠ "" := by
  constructor
  · rintro same rfl
    have top : ((⟨normalRoot ""⟩ : Path).join p).isAbsolute = true :=
      (isAbsolute_join_normalRoot_iff relative).2 (.inr rfl)
    have itself : (⟨Path.withSlashes ""⟩ : Path).join p = p := by
      have empty : Path.withSlashes "" = "" := Path.withSlashes_eq_empty_iff.2 rfl
      rw [empty, Path.join, if_neg (by simp [relative]), if_pos (.inl rfl), String.empty_append]
    have starts := congrArg Reference.rooted same
    rw [Reference.rooted_ofPath, Reference.rooted_ofPath, top, itself, relative] at starts
    cases starts
  · intro filled
    rw [join_withSlashes filled]

/-- The batch reads and writes below the roots that were set last exactly where these are not empty:
documents, inclusions, pages and the index lie where their relative paths lead from the root as it
was spelled, with slashes for backslashes, and are absolute only where it is. The empty root alone
is moved, to the top directory. -/
theorem below_root_iff (directory : Path) (format : Format) (changes : List Change)
    (root : String) :
    let s := after directory format changes
    let base : Path := ⟨Path.withSlashes root⟩
    (lastGiven Change.src? changes = some root → ∀ rel,
      (Path.withSlashes rel).toList.head? ≠ some '/' → Text.trimmed rel = rel →
        let below := base.join ⟨Path.withSlashes rel⟩
        (Reference.ofPath (s.sourcePath rel) = Reference.ofPath below ↔ root ≠ "") ∧
        (Reference.resolve s.lookup rel = Reference.ofPath below ↔ root ≠ "") ∧
        ((s.sourcePath rel).isAbsolute = true ↔ base.isAbsolute = true ∨ root = "") ∧
        ((Reference.resolve s.lookup rel).rooted = true ↔ base.isAbsolute = true ∨ root = "")) ∧
    (lastGiven Change.dest? changes = some root →
      (∀ rel, (Path.withSlashes rel).toList.head? ≠ some '/' →
        let below := base.join ((⟨Path.withSlashes rel⟩ : Path).withExtension s.format.extension)
        (Reference.ofPath (s.outputPath rel) = Reference.ofPath below ↔ root ≠ "") ∧
        ((s.outputPath rel).isAbsolute = true ↔ base.isAbsolute = true ∨ root = "")) ∧
      (s.indexFile.toList.head? ≠ some '/' →
        let below := base.join ⟨s.indexFile⟩
        (Reference.ofPath s.indexPath = Reference.ofPath below ↔ root ≠ "") ∧
        (s.indexPath.isAbsolute = true ↔ base.isAbsolute = true ∨ root = ""))) := by
  intro s base
  have relative : ∀ {text : String}, text.toList.head? ≠ some '/' →
      (⟨text⟩ : Path).isAbsolute = false := by
    intro text bare
    simpa [Path.isAbsolute, Path.separator] using bare
  constructor
  · intro given rel bare trimmed below
    have src : s.src = normalRoot root := by
      rw [src_after, given]
      rfl
    have lookup : s.lookup = ⟨normalRoot root⟩ := by
      rw [lookup_after, if_neg (src ▸ normalRoot_ne_empty root), src]
    have source : s.sourcePath rel = (⟨normalRoot root⟩ : Path).join ⟨Path.withSlashes rel⟩ := by
      rw [sourcePath, src, normalRelative_eq bare, join_normalRoot_relative (relative bare)]
    have inclusion : Reference.resolve s.lookup rel =
        Reference.ofPath ((⟨normalRoot root⟩ : Path).join ⟨Path.withSlashes rel⟩) := by
      rw [Reference.resolve, lookup, trimmed]
    have place := @ofPath_join_normalRoot_iff root _ (relative bare)
    have start := @isAbsolute_join_normalRoot_iff root _ (relative bare)
    rw [source, inclusion, Reference.rooted_ofPath]
    exact ⟨place, place, start, start⟩
  · intro given
    have dest : s.dest = normalRoot root := by
      rw [dest_after, given]
      rfl
    constructor
    · intro rel bare below
      have page : ((⟨Path.withSlashes rel⟩ : Path).withExtension s.format.extension).isAbsolute =
          false :=
        Path.isAbsolute_withExtension (separator_not_mem_extension s.format) (relative bare)
      rw [outputPath, dest, normalRelative_eq bare]
      exact ⟨ofPath_join_normalRoot_iff page, isAbsolute_join_normalRoot_iff page⟩
    · intro bare below
      have index : s.indexPath = (⟨normalRoot root⟩ : Path).join ⟨s.indexFile⟩ := by
        rw [indexPath, dest, join_normalRoot_relative (relative bare)]
      rw [index]
      exact ⟨ofPath_join_normalRoot_iff (relative bare),
        isAbsolute_join_normalRoot_iff (relative bare)⟩

/-- A source root with a backslash, between directories for inclusions, and a destination root that
begins with a point; the relative path turns back once. -/
theorem below_root_iff_sample :
    let changes : List Change := [.lookup ⟨"x"⟩, .src "in\\v", .lookup ⟨"y"⟩, .dest "./o",
      .indexName "i.xml"]
    let s := after ⟨""⟩ .wiki changes
    let rel := "a\\../b.zdoc"
    lastGiven Change.src? changes = some "in\\v" ∧ lastGiven Change.dest? changes = some "./o" ∧
      Reference.ofPath (s.sourcePath rel) = ⟨false, ["in", "v", "b.zdoc"]⟩ ∧
      Reference.resolve s.lookup rel = ⟨false, ["in", "v", "b.zdoc"]⟩ ∧
      Reference.ofPath (s.outputPath rel) = ⟨false, ["o", "b.wiki"]⟩ ∧
      Reference.ofPath s.indexPath = ⟨false, ["o", "i.xml"]⟩ ∧ s.indexPath.isAbsolute = false := by
  intro changes s rel
  have src : lastGiven Change.src? changes = some "in\\v" := by decide
  have dest : lastGiven Change.dest? changes = some "./o" := by decide
  have bare : (Path.withSlashes rel).toList.head? ≠ some '/' := by decide
  obtain ⟨source, inclusion, _⟩ := (below_root_iff ⟨""⟩ .wiki changes _).1 src rel bare
    (by decide)
  obtain ⟨pages, index⟩ := (below_root_iff ⟨""⟩ .wiki changes _).2 dest
  obtain ⟨page, _⟩ := pages rel bare
  obtain ⟨written, start⟩ := index (by decide)
  refine ⟨src, dest, (source.2 (by decide)).trans ?_, (inclusion.2 (by decide)).trans ?_,
    (page.2 (by decide)).trans ?_, (written.2 (by decide)).trans ?_, ?_⟩
  · decide
  · decide
  · decide
  · decide
  · rw [← Bool.not_eq_true, start]
    decide

/-- Below the empty root, which is no absolute path, a document, an inclusion, a page and the index
are looked up and written at the top directory. -/
theorem empty_root_moved :
    let s := after ⟨""⟩ .wiki [.src "", .dest ""]
    let base : Path := ⟨Path.withSlashes ""⟩
    base.isAbsolute = false ∧ s.sourcePath "a" = ⟨"/a"⟩ ∧
      Reference.ofPath (s.sourcePath "a") ≠ Reference.ofPath (base.join ⟨"a"⟩) ∧
      Reference.resolve s.lookup "a" ≠ Reference.ofPath (base.join ⟨"a"⟩) ∧
      s.outputPath "a" = ⟨"/a.wiki"⟩ ∧
      Reference.ofPath (s.outputPath "a") ≠ Reference.ofPath (base.join ⟨"a.wiki"⟩) ∧
      s.indexPath = ⟨"/index.xml"⟩ ∧
      Reference.ofPath s.indexPath ≠ Reference.ofPath (base.join ⟨"index.xml"⟩) := by
  decide

end Settings

end WikiPress
