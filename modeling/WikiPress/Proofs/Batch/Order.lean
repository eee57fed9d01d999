import Mathlib.Data.List.Nodup
import WikiPress.Proofs.Batch.Failure
import WikiPress.Proofs.Batch.Index
import WikiPress.Proofs.Files.Writes
import WikiPress.Proofs.Inclusion.Resumption

/-!
# The order of a batch

A batch that writes nothing of what it reads has all its documents from the start
(`Settings.document_later`, `Settings.document_before`), so it is no more than writing files
(`Settings.converts_iff_writes`). Pages whose output paths mean different things are in different
places (`Settings.reference_outputPath`). Therefore the order of the batch does not matter
(`Settings.convertAll_perm`).
-/

namespace WikiPress

open Relation

namespace Settings

variable {s : Settings} {fs grown after : FileSystem} {tree : FileTree} {written : List Location}
  {rel own : String} {d : Document} {rels others : List String} {records : List Converted} {bytes : List UInt8}

section Outputs

/-- The path of a page never leads up where the relative path does not and the page can be written. -/
theorem up_not_mem_pageBelow (below : ".." ∉ (⟨normalRelative rel⟩ : Path).names)
    (ready : fs.Ready (s.outputPath rel)) : ".." ∉ (s.pageBelow rel).names := by
  have bare := separator_not_mem_extension s.format
  obtain same | ⟨before, name, behind, renamed, split, names, _⟩ :=
    Path.names_withExtension (p := ⟨normalRelative rel⟩) bare
  · rw [pageBelow, same]
    exact below
  · have ends : (s.pageBelow rel).names = before ++ [renamed] := names
    -- the new name may be the step upward, but no file can be written there
    have down : renamed ≠ ".." := by
      obtain ⟨front, start, r, joined⟩ := Path.exists_below fs ⟨s.dest⟩
      obtain ⟨whole, _⟩ := joined (s.pageBelow rel) (s.pageBelow_spelled rel).1
      obtain ⟨init, last, shape, _, down⟩ := ready.named
      rw [outputPath_eq, whole, ends, ← List.append_assoc] at shape
      obtain ⟨_, rfl⟩ := List.append_singleton_inj.1 shape
      exact down
    rw [ends, List.mem_append, List.mem_singleton, not_or]
    refine ⟨fun member => below ?_, Ne.symm down⟩
    rw [split]
    exact List.mem_append_left _ member

/-- The names of pages below the destination root spell out where their output paths lead and what
they mean. -/
theorem exists_spelled (s : Settings) (fs : FileSystem) :
    ∃ (root : Location) (r : Reference), ∀ rel, ".." ∉ (s.pageBelow rel).names →
      fs.place (s.outputPath rel) =
        ((s.pageBelow rel).names.filter (! Path.isIdle ·)).reverse ++ root ∧
      Reference.ofPath (s.outputPath rel) =
        ⟨r.rooted, r.names ++ (s.pageBelow rel).names.filter (! Path.isIdle ·)⟩ := by
  obtain ⟨front, start, r, joined⟩ := Path.exists_below fs ⟨s.dest⟩
  refine ⟨FileSystem.onPaper start front, r, fun rel down => ?_⟩
  obtain ⟨names, begins, means⟩ := joined (s.pageBelow rel) (s.pageBelow_spelled rel).1
  rw [outputPath_eq]
  constructor
  · rw [FileSystem.place, begins, names, FileSystem.onPaper_append, FileSystem.onPaper_down down]
  · rw [means, Reference.foldl_walk_down down]

/-- Pages in the same place have output paths that mean the same. -/
theorem reference_outputPath (down : ".." ∉ (s.pageBelow rel).names)
    (other : ".." ∉ (s.pageBelow own).names)
    (same : fs.place (s.outputPath rel) = fs.place (s.outputPath own)) :
    Reference.ofPath (s.outputPath rel) = Reference.ofPath (s.outputPath own) := by
  obtain ⟨root, r, spelled⟩ := s.exists_spelled fs
  obtain ⟨place, means⟩ := spelled rel down
  obtain ⟨place', means'⟩ := spelled own other
  rw [place, place'] at same
  rw [means, means', List.reverse_injective (List.append_cancel_right same)]

/-- Pages whose output paths mean different things are in different places. -/
theorem nodup_places (below : ∀ rel ∈ rels, ".." ∉ (⟨normalRelative rel⟩ : Path).names)
    (ready : ∀ rel ∈ rels, fs.Ready (s.outputPath rel))
    (distinct : (rels.map fun rel => Reference.ofPath (s.outputPath rel)).Nodup) :
    (rels.map fun rel => fs.place (s.outputPath rel)).Nodup := by
  have down : ∀ rel ∈ rels, ".." ∉ (s.pageBelow rel).names :=
    fun rel member => up_not_mem_pageBelow (below rel member) (ready rel member)
  refine List.Nodup.map_on ?_ (List.Nodup.of_map _ distinct)
  intro rel member own other same
  have means := reference_outputPath (down rel member) (down own other) same
  exact List.inj_on_of_nodup_map distinct member other means

end Outputs

section Sources

/-- All sources lie in the same directory, where the last name of the root, if any, continues in the
first one of the relative path. -/
theorem exists_source (s : Settings) : ∃ front stem, ∀ rel, ∃ first rest,
    (⟨normalRelative rel⟩ : Path).names = first :: rest ∧
      (s.sourcePath rel).names = front ++ (stem ++ first) :: rest := by
  obtain ⟨front, stem, split⟩ := Text.exists_pieces_append Path.separator s.src.toList
  refine ⟨front.map String.ofList, String.ofList stem, fun rel => ?_⟩
  obtain ⟨first, rest, shape, whole⟩ := split (normalRelative rel).toList
  refine ⟨String.ofList first, rest.map String.ofList, by rw [Path.names, shape]; rfl, ?_⟩
  rw [Path.names, sourcePath, String.toList_append, whole, List.map_append, List.map_cons,
    String.ofList_append]

/-- Sources start where their root does. -/
theorem startOf_sourcePath (s : Settings) (fs : FileSystem) (rel : String) :
    fs.startOf (s.sourcePath rel) = fs.startOf ⟨s.src⟩ := by
  have same : (s.sourcePath rel).isAbsolute = (⟨s.src⟩ : Path).isAbsolute := by
    cases shape : s.src.toList with
    | nil =>
      have bare : s.src = "" := String.toList_eq_nil_iff.1 shape
      rw [sourcePath, bare, String.empty_append, isAbsolute_normalRelative]
      rfl
    | cons c more =>
      rw [Path.isAbsolute, Path.isAbsolute, sourcePath, String.toList_append, shape]
      rfl
  rw [FileSystem.startOf, FileSystem.startOf, same]

/-- Where one source can be opened, each lies straight behind a walk that succeeds. -/
theorem exists_entered {entry : Entry} (opened : fs.openEntry (s.sourcePath own) = .ok entry)
    (below : ".." ∉ (⟨normalRelative rel⟩ : Path).names) :
    ∃ front downs middle, (s.sourcePath rel).names = front ++ downs ∧ ".." ∉ downs ∧
      fs.walk (fs.startOf (s.sourcePath rel)) front = .ok middle := by
  obtain ⟨front, stem, spelled⟩ := s.exists_source
  obtain ⟨_, _, _, names⟩ := spelled own
  obtain ⟨first, rest, shape, whole⟩ := spelled rel
  obtain ⟨_, walked, _⟩ := FileSystem.openEntry_eq_ok_iff.1 opened
  rw [startOf_sourcePath, names] at walked
  obtain ⟨middle, along, behind⟩ := FileSystem.walk_append.1 walked
  obtain ⟨_, entered, _⟩ := FileSystem.walk_cons.1 behind
  obtain ⟨inside, _⟩ := FileSystem.enter_eq_ok_iff.1 entered
  rw [shape, List.mem_cons, not_or] at below
  rw [startOf_sourcePath]
  by_cases up : stem ++ first = ".."
  · have rises : fs.enter middle ".." = .ok (FileSystem.stepOnPaper middle "..") :=
      FileSystem.enter_eq_ok_iff.2 ⟨inside, rfl, .inr (.inl rfl)⟩
    have higher : fs.walk (fs.startOf ⟨s.src⟩) (front ++ [".."]) =
        .ok (FileSystem.stepOnPaper middle "..") :=
      FileSystem.walk_append.2 ⟨middle, along, FileSystem.walk_cons.2 ⟨_, rises, rfl⟩⟩
    refine ⟨_, rest, _, ?_, below.2, higher⟩
    rw [whole, up, List.append_assoc]
    rfl
  · refine ⟨front, _, middle, whole, ?_, along⟩
    rw [List.mem_cons, not_or]
    exact ⟨Ne.symm up, below.2⟩

/-- A document that a relative path gives after the files have grown was given before, where nothing
that is read was written. -/
theorem document_before {entry : Entry} (growth : tree.Growth written grown)
    (unread : ∀ location ∈ written, ¬ s.Reads tree rel location)
    (opened : tree.openEntry (s.sourcePath own) = .ok entry)
    (below : ".." ∉ (⟨normalRelative rel⟩ : Path).names) (made : s.document grown rel = .ok d) :
    s.document tree rel = .ok d := by
  obtain ⟨⟨bytes, held⟩, expanded⟩ := document_eq_ok_iff.1 made
  have apart : tree.place (s.sourcePath rel) ∉ written := fun member => unread _ member .source
  obtain ⟨front, downs, middle, split, down, entered⟩ := exists_entered opened below
  rw [FileSystem.bytesAt_eq_ok_iff] at held
  have before := growth.openEntry_behind split down entered held apart
  exact document_eq_ok_iff.2 ⟨⟨bytes, FileSystem.bytesAt_eq_ok_iff.2 before⟩,
    isExpanded_before growth unread expanded⟩

/-- A document is given as well after the files have grown, where nothing that is read was written. -/
theorem document_later (growth : fs.Growth written grown)
    (unread : ∀ location ∈ written, ¬ s.Reads fs rel location) (made : s.document fs rel = .ok d) :
    s.document grown rel = .ok d := by
  obtain ⟨⟨bytes, held⟩, source, n, ⟨content, found, read⟩, finished⟩ := document_eq_ok_iff.1 made
  have apart : fs.place (s.sourcePath rel) ∉ written := fun member => unread _ member .source
  have own : s.IsSource fs rel source := ⟨content, found, read⟩
  have kept : grown.find? (grown.place (s.sourcePath rel)) = some (.file content) := by
    rw [growth.place_eq]
    exact (growth.file _ apart content).2 found
  rw [FileSystem.bytesAt_eq_ok_iff] at held
  have opened := growth.openEntry held apart
  refine document_eq_ok_iff.2 ⟨⟨bytes, FileSystem.bytesAt_eq_ok_iff.2 opened⟩, source, n,
    ⟨content, kept, read⟩, ?_⟩
  obtain ⟨bodies, nested, stands, _⟩ := Document.expandsTo_of_expandFrom finished
  rw [← finished]
  apply Document.expandFrom_congr
  intro leaf member inner inside
  have clear : fs.place inner.target.path ∉ written :=
    fun listed => unread _ listed (.inside own member inside)
  obtain ⟨blocks, count, deep⟩ := (stands leaf member).inside inside
  obtain ⟨inclusion, _, named, _⟩ := Document.standsFor_iff.1 deep
  obtain ⟨text, opens, _⟩ := Inclusion.document_eq_ok_iff.1 named
  have again := growth.openEntry opens clear
  rw [← FileSystem.bytesAt_eq_ok_iff] at opens again
  exact (stands leaf member).document_later inside (again.trans opens.symm)

end Sources

section Pages

/-- The document at a relative path, where there is one. -/
def documentAt (s : Settings) (fs : FileSystem) (rel : String) : Document :=
  (s.document fs rel).toOption.getD {}

/-- The record of a conversion that is done in these files. -/
def recordAt (s : Settings) (fs : FileSystem) (rel : String) : Converted :=
  ⟨s.sourcePath rel, s.outputPath rel, (s.documentAt fs rel).title⟩

/-- The page that a conversion in these files writes, with its path. -/
def pageAt (s : Settings) (fs : FileSystem) (rel : String) : Path × List UInt8 :=
  (s.outputPath rel, Utf8.encode (s.format.page (s.documentAt fs rel)))

/-- The document at a relative path that gives one. -/
theorem documentAt_of_ok (made : s.document fs rel = .ok d) : s.documentAt fs rel = d := by
  rw [documentAt, made]
  rfl

variable {all : List String}

/-- What has been written is planned, the next page among it. -/
theorem append_page_subset (growth : fs.Growth written grown) (member : rel ∈ all)
    (planned : written ⊆ s.pagePlaces fs all) :
    written ++ [grown.place (s.outputPath rel)] ⊆ s.pagePlaces fs all := by
  rw [growth.place_eq]
  have own : fs.place (s.outputPath rel) ∈ s.pagePlaces fs all :=
    List.mem_map.2 ⟨rel, member, rfl⟩
  exact List.append_subset.2 ⟨planned, List.cons_subset.2 ⟨own, List.nil_subset _⟩⟩

/-- Conversions write the pages of the files as they were, where they read nothing that was
written. -/
theorem writes_of_converts {entry : Entry}
    (opened : tree.openEntry (s.sourcePath own) = .ok entry)
    (below : ∀ rel ∈ all, ".." ∉ (⟨normalRelative rel⟩ : Path).names)
    (unread : ∀ rel ∈ all, ∀ location ∈ s.pagePlaces tree all, ¬ s.Reads tree rel location)
    (listed : rels ⊆ all) (growth : tree.Growth written grown) (planned : written ⊆ s.pagePlaces tree all)
    (converts : s.Converts grown rels records after) :
    (∀ rel ∈ rels, s.document tree rel = .ok (s.documentAt tree rel)) ∧
      records = rels.map (s.recordAt tree) ∧ grown.Writes (rels.map (s.pageAt tree)) after := by
  induction converts generalizing written with
  | none grown => exact ⟨fun rel member => absurd member List.not_mem_nil, rfl, .none grown⟩
  | @next grown changed after rel more done others first _ ih =>
    obtain ⟨inside, rest⟩ := List.cons_subset.1 listed
    obtain ⟨d, made, put, rfl⟩ := convert_eq_ok_iff.1 first
    have clear : ∀ location ∈ written, ¬ s.Reads tree rel location :=
      fun location member => unread rel inside location (planned member)
    have before := document_before growth clear opened (below rel inside) made
    have same := documentAt_of_ok before
    obtain ⟨own, _⟩ := FileSystem.writeNested_ok put
    have further := append_page_subset growth inside planned
    obtain ⟨documents, listing, writes⟩ := ih rest (growth.trans own) further
    refine ⟨List.forall_mem_cons.2 ⟨same ▸ before, documents⟩, ?_, ?_⟩
    · rw [List.map_cons, listing, recordAt, same]
    · rw [List.map_cons, pageAt, same, FileSystem.writes_cons]
      exact ⟨changed, put, writes⟩

/-- Writing the pages of documents is what their conversions do, where they read nothing that was
written. -/
theorem converts_of_writes
    (unread : ∀ rel ∈ all, ∀ location ∈ s.pagePlaces fs all, ¬ s.Reads fs rel location)
    (listed : rels ⊆ all) (growth : fs.Growth written grown) (planned : written ⊆ s.pagePlaces fs all)
    (documents : ∀ rel ∈ rels, s.document fs rel = .ok (s.documentAt fs rel))
    (writes : grown.Writes (rels.map (s.pageAt fs)) after) :
    s.Converts grown rels (rels.map (s.recordAt fs)) after := by
  induction rels generalizing grown written with
  | nil =>
    cases writes
    exact .none _
  | cons rel more ih =>
    obtain ⟨inside, rest⟩ := List.cons_subset.1 listed
    obtain ⟨own, behind⟩ := List.forall_mem_cons.1 documents
    have clear : ∀ location ∈ written, ¬ s.Reads fs rel location :=
      fun location member => unread rel inside location (planned member)
    have made := document_later growth clear own
    rw [List.map_cons, pageAt, FileSystem.writes_cons] at writes
    obtain ⟨changed, put, later⟩ := writes
    obtain ⟨page, _⟩ := FileSystem.writeNested_ok put
    have further := append_page_subset growth inside planned
    have rest' := ih rest (growth.trans page) further behind later
    have first := convert_eq_ok_iff.2 ⟨_, made, put, rfl⟩
    exact .next first rest'

end Pages

/-- In a tree, the order of a batch does not matter where its relative paths do not lead up, its output
paths mean different things, and none of its pages takes the place of a file that it reads, as the
files stand before it. If it succeeds in one order, it succeeds in every other one, with the same
record for each relative path, and leaves the same files and directories. That no page is a
directory above another page or above a file that is read need not be asked for: the batch would
have failed. -/
theorem convertAll_perm
    (below : ∀ rel ∈ rels, ".." ∉ (⟨normalRelative rel⟩ : Path).names)
    (distinct : (rels.map fun rel => Reference.ofPath (s.outputPath rel)).Nodup)
    (unread : ∀ rel ∈ rels, ∀ other ∈ rels, ¬ s.Reads tree other (tree.place (s.outputPath rel)))
    (finished : s.convertAll tree rels = (.ok records, after)) (reordered : rels.Perm others) :
    ∃ record final, records = rels.map record ∧
      s.convertAll tree others = (.ok (others.map record), final) ∧ final.Alike after := by
  have apart : ∀ rel ∈ rels, ∀ location ∈ s.pagePlaces tree rels, ¬ s.Reads tree rel location := by
    intro rel member location listed
    obtain ⟨page, inside, rfl⟩ := List.mem_map.1 listed
    exact unread page inside rel member
  have converts := converts_iff.2 finished
  have begun := FileSystem.Growth.refl [] tree
  cases rels with
  | nil =>
    obtain rfl := List.nil_perm.1 reordered
    obtain ⟨rfl, rfl⟩ : [] = records ∧ tree.toFileSystem = after := by simpa [convertAll] using finished
    exact ⟨s.recordAt tree, tree, rfl, rfl, ⟨rfl, fun _ => rfl⟩⟩
  | cons first more =>
    obtain ⟨_, _, _, done, _⟩ := convertAll_cons finished
    obtain ⟨_, made, _⟩ := convert_ok done
    obtain ⟨⟨_, opened⟩, _⟩ := document_eq_ok_iff.1 made
    rw [FileSystem.bytesAt_eq_ok_iff] at opened
    obtain ⟨documents, listing, writes⟩ := writes_of_converts opened below apart
      (List.Subset.refl _) begun (List.nil_subset _) converts
    have separate := writes.separate
    have ready : ∀ rel ∈ first :: more, tree.Ready (s.outputPath rel) := by
      intro rel member
      have own := (separate (s.pageAt tree rel) (List.mem_map.2 ⟨rel, member, rfl⟩)).1
      simp only [pageAt] at own
      exact own
    have places := nodup_places below ready distinct
    have jobs : (((first :: more).map (s.pageAt tree)).map fun job => tree.place job.1).Nodup := by
      simp only [List.map_map, Function.comp_def, pageAt]
      exact places
    obtain ⟨final, again, alike⟩ := writes.perm jobs (reordered.map (s.pageAt tree))
    have documents' : ∀ rel ∈ others, s.document tree rel = .ok (s.documentAt tree rel) :=
      fun rel member => documents rel (reordered.mem_iff.2 member)
    have converts' := converts_of_writes apart reordered.symm.subset begun (List.nil_subset _)
      documents' again
    exact ⟨s.recordAt tree, final, listing, converts_iff.1 converts', alike⟩

/-- Two files are converted in either order, the first one including the second, whose page is in a
directory that has to be made. -/
theorem convertAll_perm_sample :
    ∃ (s : Settings) (fs final : FileSystem) (record : String → Converted),
      (s.convertAll fs ["a", "d/b"]).1 = .ok (["a", "d/b"].map record) ∧
      s.convertAll fs ["d/b", "a"] = (.ok (["d/b", "a"].map record), final) ∧
      final.Alike (s.convertAll fs ["a", "d/b"]).2 := by
  let fs : FileSystem := ⟨[(["s"], .directory), (["d", "s"], .directory),
    (["a", "s"], .file (Utf8.encode "@>include: d/b")), (["b", "d", "s"], .file (Utf8.encode "x"))], []⟩
  let s : Settings := { src := "s/", dest := "o/", lookup := ⟨"s/"⟩ }
  let rels := ["a", "d/b"]
  let records : List Converted :=
    [⟨⟨"s/a"⟩, ⟨"o/a.wiki"⟩, ""⟩, ⟨⟨"s/d/b"⟩, ⟨"o/d/b.wiki"⟩, ""⟩]
  let tree : FileTree := .ofEntries fs (by decide +kernel) (by decide +kernel)
  have success : (s.convertAll fs rels).1 = .ok records := by decide +kernel
  have finished : s.convertAll tree rels = (.ok records, (s.convertAll fs rels).2) := by
    rw [← success]
    rfl
  have unread : ∀ rel ∈ rels, ∀ other ∈ rels,
      ¬ s.Reads fs other (fs.place (s.outputPath rel)) := by
    intro rel member other inside reads
    have apart : ∀ rel ∈ rels, ∀ other ∈ rels,
        fs.place (s.outputPath rel) ≠ fs.place (s.sourcePath other) ∧
          ∀ r ∈ fs.references s.lookup, fs.place (s.outputPath rel) ≠ fs.place r.path := by
      decide +kernel
    obtain same | ⟨r, named, same⟩ := reads.named
    · exact (apart rel member other inside).1 same
    · exact (apart rel member other inside).2 r named same
  obtain ⟨record, final, listing, again, alike⟩ := convertAll_perm (by decide +kernel)
    (by decide +kernel) unread finished (List.Perm.swap "d/b" "a" [])
  exact ⟨s, fs, final, record, success.trans (congrArg _ listing), again, alike⟩

end Settings

end WikiPress
