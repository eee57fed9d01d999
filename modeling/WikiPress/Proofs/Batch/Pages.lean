import WikiPress.Batch.Convert
import WikiPress.Proofs.Files.Walks
import WikiPress.Proofs.Inclusion.Ending

/-!
# Pages of a batch

A conversion reads the file at the place of its source and the files that the inclusions inside it name
(`Settings.Reads`), and writes one file (`convert_ok`). The conversions of a batch run one behind the
other in the same files. So a page is lost where a later conversion writes to its place, and it comes
from other files than those before the batch where an earlier one has written what it reads. Every
other page is there after the batch, as the files before it give it (`convertAll_keeps`).
-/

namespace WikiPress

open Relation

namespace Document

variable {root : Path} {bytes : List UInt8} {d : Document} {leaf : Inclusion}

/-- The inclusions of a read document name references that are walked to the end. -/
theorem settled_of_parseBytes (read : Document.parseBytes root bytes = .ok d)
    (member : leaf ∈ d.inclusions) : leaf.target.Settled := by
  obtain ⟨source, _, parsed⟩ := parseBytes_eq_ok_iff.1 read
  obtain ⟨_, named⟩ := named_of_parse parsed member
  obtain ⟨locator, _, same⟩ := List.mem_map.1 named
  rw [← same]
  exact Reference.settled_ofPath _

end Document

namespace Inclusion

variable {fs grown : FileSystem} {tree : FileTree} {written : List Location}
  {leaf inner outer : Inclusion}

/-- An inclusion in another one names a reference that is walked to the end. -/
theorem Within.settled (within : Within fs inner outer) : inner.target.Settled := by
  obtain ⟨d, found, member⟩ := within
  obtain ⟨bytes, _, read⟩ := document_eq_ok_iff.1 found
  exact Document.settled_of_parseBytes read member

/-- What is inside an inclusion at any depth names a reference that is walked to the end. -/
theorem settled_of_inside (inside : ReflTransGen (Within fs) inner outer)
    (settled : outer.target.Settled) : inner.target.Settled := by
  obtain rfl | ⟨_, within, _⟩ := ReflTransGen.cases_head inside
  · exact settled
  · exact within.settled

/-- A document that is named after the files have grown was named before, unless its file was
written. -/
theorem document_before (growth : tree.Growth written grown) (settled : leaf.target.Settled)
    (unread : tree.place leaf.target.path ∉ written) {d : Document}
    (found : leaf.document grown = .ok d) : leaf.document tree = .ok d := by
  obtain ⟨bytes, opened, read⟩ := document_eq_ok_iff.1 found
  have straight := Reference.isStraight_path settled
  exact document_eq_ok_iff.2 ⟨bytes, growth.openEntry_before straight opened unread, read⟩

/-- Nothing inside an inclusion that is expanded after the files have grown has changed, where no
file that was inside it before was written. -/
theorem document_inside_before (growth : tree.Growth written grown) (settled : leaf.target.Settled)
    {blocks : List Block} {n : Nat} (stands : leaf.StandsFor grown blocks n)
    (unread : ∀ inner, ReflTransGen (Within tree) inner leaf →
      tree.place inner.target.path ∉ written)
    (inside : ReflTransGen (Within grown) inner leaf) :
    inner.document tree = inner.document grown := by
  -- from the outside inward: what names an inclusion has not changed, so it was inside before
  have before : ReflTransGen (Within tree) inner leaf := by
    induction inside using ReflTransGen.head_induction_on with
    | refl => exact .refl
    | @head _ outer within rest ih =>
      obtain ⟨d, found, member⟩ := within
      have same := document_before growth (settled_of_inside rest settled) (unread outer ih) found
      exact .head ⟨d, same, member⟩ ih
  obtain ⟨others, m, own⟩ := stands.inside inside
  obtain ⟨d, _, found, _⟩ := Document.standsFor_iff.1 own
  rw [found]
  exact document_before growth (settled_of_inside inside settled) (unread inner before) found

end Inclusion

namespace Settings

/-- The file at the place of the source of a relative path holds the document. -/
def IsSource (s : Settings) (fs : FileSystem) (rel : String) (source : Document) : Prop :=
  ∃ bytes, fs.find? (fs.place (s.sourcePath rel)) = some (.file bytes) ∧
    Document.parseBytes s.lookup bytes = .ok source

/-- The document is the source of a relative path with its inclusions expanded. -/
def IsExpanded (s : Settings) (fs : FileSystem) (rel : String) (d : Document) : Prop :=
  ∃ source n, s.IsSource fs rel source ∧
    source.expandAt fs (s.sourcePath rel) = ⟨d, n, none⟩

/-- A place that the conversion of a relative path reads. -/
inductive Reads (s : Settings) (fs : FileSystem) (rel : String) : Location → Prop
  /-- That of its source. -/
  | source : Reads s fs rel (fs.place (s.sourcePath rel))
  /-- That of the file which an inclusion in its source names, or one inside that inclusion. -/
  | inside {source : Document} {leaf inner : Inclusion} (own : s.IsSource fs rel source)
      (member : leaf ∈ source.inclusions) (inside : ReflTransGen (Inclusion.Within fs) inner leaf) :
      Reads s fs rel (fs.place inner.target.path)

/-- The places to which the pages of relative paths are written. -/
def pagePlaces (s : Settings) (fs : FileSystem) (rels : List String) : List Location :=
  rels.map fun rel => fs.place (s.outputPath rel)

variable {s : Settings} {fs grown after : FileSystem} {tree : FileTree} {written : List Location}
  {rel : String} {d : Document} {rels more : List String} {done : Converted} {records : List Converted}

/-- A conversion reads its source and files that inclusion lines name. -/
theorem Reads.named {location : Location} (reads : s.Reads fs rel location) :
    location = fs.place (s.sourcePath rel) ∨
      ∃ r ∈ fs.references s.lookup, location = fs.place r.path := by
  cases reads with
  | source => exact .inl rfl
  | @inside source leaf inner own member inside =>
    obtain ⟨bytes, held, read⟩ := own
    obtain ⟨text, decoded, parsed⟩ := Document.parseBytes_eq_ok_iff.1 read
    obtain ⟨root, target⟩ := Document.named_of_parse parsed member
    refine .inr ⟨inner.target, ?_, rfl⟩
    obtain rfl | ⟨_, within, rest⟩ := ReflTransGen.cases_head inside
    · refine List.mem_flatMap.2 ⟨bytes, FileSystem.mem_contents_of_find? held, ?_⟩
      rw [decoded]
      exact target
    · rw [← root, ← Inclusion.root_of_inside rest]
      exact within.named.2

/-- There is a document at a relative path where its source can be opened and expanded. -/
theorem document_eq_ok_iff : s.document fs rel = .ok d ↔
    (∃ bytes, fs.bytesAt (s.sourcePath rel) = .ok bytes) ∧ s.IsExpanded fs rel d := by
  constructor
  · intro made
    unfold document at made
    simp only at made
    split at made
    · cases made
    · cases made
    · next source held =>
      obtain ⟨bytes, opened, read⟩ := FileSystem.document_eq_ok_iff.1 held
      split at made
      · cases made
      · next finished =>
        have own : s.IsSource fs rel source :=
          ⟨bytes, (FileSystem.openEntry_eq_ok_iff.1 opened).2.2, read⟩
        have whole : source.expandAt fs (s.sourcePath rel) =
            ⟨d, (source.expandAt fs (s.sourcePath rel)).replaced, none⟩ := by
          rw [← finished, ← Except.ok.inj made]
        exact ⟨⟨bytes, FileSystem.bytesAt_eq_ok_iff.2 opened⟩, source, _, own, whole⟩
  · rintro ⟨⟨bytes, opened⟩, source, n, ⟨content, held, read⟩, finished⟩
    rw [FileSystem.bytesAt_eq_ok_iff] at opened
    obtain ⟨_, _, found⟩ := FileSystem.openEntry_eq_ok_iff.1 opened
    obtain rfl : bytes = content := by simpa [found] using held
    have made := FileSystem.document_eq_ok_iff.2 ⟨bytes, opened, read⟩
    simp only [document, made, finished]

/-- A document that a relative path gives after the files have grown was given before, where nothing
that was read before was written. -/
theorem isExpanded_before (growth : tree.Growth written grown)
    (unread : ∀ location ∈ written, ¬ s.Reads tree rel location)
    (expanded : s.IsExpanded grown rel d) : s.IsExpanded tree rel d := by
  obtain ⟨source, n, ⟨bytes, held, read⟩, finished⟩ := expanded
  have spot : tree.place (s.sourcePath rel) ∉ written := fun member => unread _ member .source
  rw [growth.place_eq] at held
  have own : s.IsSource tree rel source := ⟨bytes, (growth.file _ spot bytes).1 held, read⟩
  refine ⟨source, n, own, ?_⟩
  obtain ⟨bodies, nested, stands, _⟩ := Document.expandsTo_of_expandFrom finished
  rw [← finished]
  apply Document.expandFrom_congr
  intro leaf member inner inside
  have settled := Document.settled_of_parseBytes read member
  refine Inclusion.document_inside_before growth settled (stands leaf member) ?_ inside
  exact fun deep named listed => unread _ listed (.inside own member named)

/-- A conversion succeeds where there is a document and its page can be written. -/
theorem convert_eq_ok_iff : s.convert fs rel = (.ok done, after) ↔
    ∃ d, s.document fs rel = .ok d ∧
      fs.writeNested (s.outputPath rel) (Utf8.encode (s.format.page d)) = (.ok (), after) ∧
      done = ⟨s.sourcePath rel, s.outputPath rel, d.title⟩ := by
  constructor
  · intro finished
    unfold convert at finished
    split at finished
    · cases finished
    · next d made =>
      simp only at finished
      split at finished
      · cases finished
      · next changed put =>
        obtain ⟨same, rfl⟩ : ⟨s.sourcePath rel, s.outputPath rel, d.title⟩ = done ∧
            changed = after := by simpa using finished
        exact ⟨d, made, put, same.symm⟩
  · rintro ⟨d, made, put, rfl⟩
    simp only [convert, made, put]

/-- A conversion that succeeds leaves its page at the output path and touches no other file. -/
theorem convert_ok (finished : s.convert fs rel = (.ok done, after)) :
    ∃ d, s.document fs rel = .ok d ∧ done = ⟨s.sourcePath rel, s.outputPath rel, d.title⟩ ∧
      fs.Growth [fs.place (s.outputPath rel)] after ∧
      after.openEntry (s.outputPath rel) = .ok (.file (Utf8.encode (s.format.page d))) := by
  obtain ⟨d, made, put, same⟩ := convert_eq_ok_iff.1 finished
  obtain ⟨growth, found⟩ := FileSystem.writeNested_ok put
  exact ⟨d, made, same, growth, found⟩

/-- A batch that succeeds is a conversion that succeeds with a batch that succeeds behind it. -/
theorem convertAll_cons (finished : s.convertAll fs (rel :: more) = (.ok records, after)) :
    ∃ done written others, s.convert fs rel = (.ok done, written) ∧
      s.convertAll written more = (.ok others, after) ∧ records = done :: others := by
  rw [convertAll] at finished
  split at finished
  · cases finished
  · next done written first =>
    split at finished
    · cases finished
    · next others final behind =>
      obtain ⟨rfl, rfl⟩ : done :: others = records ∧ final = after := by simpa using finished
      exact ⟨done, written, others, first, behind, rfl⟩

/-- Pages are written to the same places after the files have grown. -/
theorem pagePlaces_eq (growth : fs.Growth written grown) (rels : List String) :
    s.pagePlaces grown rels = s.pagePlaces fs rels :=
  List.map_congr_left fun _ _ => growth.place_eq _

/-- A batch that succeeds makes one record of each conversion, and the files grow by the pages. -/
theorem growth_convertAll (finished : s.convertAll fs rels = (.ok records, after)) :
    records.length = rels.length ∧ fs.Growth (s.pagePlaces fs rels) after := by
  induction rels generalizing fs records with
  | nil =>
    obtain ⟨rfl, rfl⟩ : [] = records ∧ fs = after := by simpa [convertAll] using finished
    exact ⟨rfl, .refl _ fs⟩
  | cons rel more ih =>
    obtain ⟨done, written, others, first, behind, rfl⟩ := convertAll_cons finished
    obtain ⟨_, _, _, growth, _⟩ := convert_ok first
    obtain ⟨count, rest⟩ := ih behind
    rw [pagePlaces_eq growth] at rest
    exact ⟨by simp [count], growth.trans rest⟩

/-- Each conversion of a batch that succeeds runs where the pages in front of it are written, and the
pages behind it are written after it. -/
theorem convertAll_at (finished : s.convertAll fs rels = (.ok records, after)) {i : Nat}
    (here : rels[i]? = some rel) : ∃ before written done,
      fs.Growth (s.pagePlaces fs (rels.take i)) before ∧ s.convert before rel = (.ok done, written) ∧
        written.Growth (s.pagePlaces fs (rels.drop (i + 1))) after ∧ records[i]? = some done := by
  induction rels generalizing fs records i with
  | nil => simp at here
  | cons own more ih =>
    obtain ⟨done, written, others, first, behind, rfl⟩ := convertAll_cons finished
    obtain ⟨_, _, _, growth, _⟩ := convert_ok first
    cases i with
    | zero =>
      obtain rfl : own = rel := by simpa using here
      obtain ⟨_, rest⟩ := growth_convertAll behind
      rw [pagePlaces_eq growth] at rest
      exact ⟨fs, written, done, .refl _ fs, first, rest, rfl⟩
    | succ i =>
      obtain ⟨before, changed, later, front, converts, rest, listed⟩ := ih behind (by simpa using here)
      rw [pagePlaces_eq growth] at front rest
      exact ⟨before, changed, later, growth.trans front, converts, rest, by simpa using listed⟩

/-- After a batch that succeeds there is a record for each relative path. The page at an output path
is that of the source as it was before the batch, with the files that it included then, where no
conversion in front has written what this one reads, and no conversion behind has written to the
place of its page. -/
theorem convertAll_keeps (finished : s.convertAll tree rels = (.ok records, after)) :
    records.length = rels.length ∧ ∀ i rel, rels[i]? = some rel →
      (∀ location ∈ s.pagePlaces tree (rels.take i), ¬ s.Reads tree rel location) →
      tree.place (s.outputPath rel) ∉ s.pagePlaces tree (rels.drop (i + 1)) →
      ∃ d, s.IsExpanded tree rel d ∧
        records[i]? = some ⟨s.sourcePath rel, s.outputPath rel, d.title⟩ ∧
        after.bytesAt (s.outputPath rel) = .ok (Utf8.encode (s.format.page d)) := by
  refine ⟨(growth_convertAll finished).1, fun i rel here unread kept => ?_⟩
  obtain ⟨before, written, done, front, converts, behind, listed⟩ := convertAll_at finished here
  obtain ⟨d, made, rfl, own, page⟩ := convert_ok converts
  have expanded : s.IsExpanded tree rel d :=
    isExpanded_before front unread (document_eq_ok_iff.1 made).2
  have apart : written.place (s.outputPath rel) ∉ s.pagePlaces tree (rels.drop (i + 1)) := by
    rwa [own.place_eq, front.place_eq]
  exact ⟨d, expanded, listed, FileSystem.bytesAt_eq_ok_iff.2 (behind.openEntry page apart)⟩

/-- Two files of one directory are converted, the first one including the second. -/
theorem convertAll_keeps_sample :
    ∃ (s : Settings) (fs after : FileSystem) (d e : Document),
      (s.convertAll fs ["a", "b"]).2 = after ∧
        s.IsExpanded fs "a" d ∧ after.bytesAt ⟨"o/a.wiki"⟩ = .ok (Utf8.encode (Wiki.page d)) ∧
        s.IsExpanded fs "b" e ∧ after.bytesAt ⟨"o/b.wiki"⟩ = .ok (Utf8.encode (Wiki.page e)) := by
  let fs : FileSystem := ⟨[(["s"], .directory), (["a", "s"], .file (Utf8.encode "@>include: b")),
    (["b", "s"], .file (Utf8.encode "---"))], []⟩
  let s : Settings := { src := "s/", dest := "o/", lookup := ⟨"s/"⟩ }
  let records : List Converted := [⟨⟨"s/a"⟩, ⟨"o/a.wiki"⟩, ""⟩, ⟨⟨"s/b"⟩, ⟨"o/b.wiki"⟩, ""⟩]
  let tree : FileTree := .ofEntries fs (by decide +kernel) (by decide +kernel)
  have success : (s.convertAll fs ["a", "b"]).1 = .ok records := by decide +kernel
  have finished : s.convertAll tree ["a", "b"] = (.ok records, (s.convertAll fs ["a", "b"]).2) := by
    rw [← success]
    rfl
  have unread : ∀ location ∈ s.pagePlaces fs ["a"], ¬ s.Reads fs "b" location := by
    intro location member reads
    have apart : ∀ location ∈ s.pagePlaces fs ["a"],
        location ≠ fs.place (s.sourcePath "b") ∧
          ∀ r ∈ fs.references s.lookup, location ≠ fs.place r.path := by decide +kernel
    obtain same | ⟨r, named, same⟩ := reads.named
    · exact (apart location member).1 same
    · exact (apart location member).2 r named same
  obtain ⟨_, kept⟩ := convertAll_keeps finished
  obtain ⟨d, first, _, page⟩ := kept 0 "a" rfl (by simp [pagePlaces]) (by decide +kernel)
  obtain ⟨e, second, _, other⟩ := kept 1 "b" rfl unread (by decide +kernel)
  have output : s.outputPath "a" = ⟨"o/a.wiki"⟩ ∧ s.outputPath "b" = ⟨"o/b.wiki"⟩ := by
    decide +kernel
  rw [output.1] at page
  rw [output.2] at other
  exact ⟨s, fs, _, d, e, rfl, first, page, second, other⟩

/-- The sources of the batch differ and all its conversions succeed, but the file at the output path
of one record does not hold the page of its source as the files stood before. -/
def Loses (s : Settings) (fs : FileSystem) (rels : List String) (i : Nat) : Prop :=
  (∃ tree : FileTree, tree.toFileSystem = fs) ∧
    (rels.map fun rel => Reference.ofPath (s.sourcePath rel)).Nodup ∧
    ∃ records after, s.convertAll fs rels = (.ok records, after) ∧
      ∃ rel done d, rels[i]? = some rel ∧ records[i]? = some done ∧ s.IsExpanded fs rel d ∧
        after.bytesAt done.output ≠ .ok (Utf8.encode (s.format.page d))

/-- A batch loses a page where the file in its place is seen to hold something else. -/
theorem loses_of_seen {i : Nat} (tree : ∃ tree : FileTree, tree.toFileSystem = fs)
    (distinct : (rels.map fun rel => Reference.ofPath (s.sourcePath rel)).Nodup)
    (here : rels[i]? = some rel)
    (seen : (s.document fs rel).toOption.bind (fun d =>
      (s.convertAll fs rels).1.toOption.bind fun records => records[i]?.map fun done =>
        decide ((s.convertAll fs rels).2.bytesAt done.output =
          .ok (Utf8.encode (s.format.page d)))) = some false) : s.Loses fs rels i := by
  obtain ⟨d, given, seen⟩ := Option.bind_eq_some_iff.1 seen
  obtain ⟨records, success, seen⟩ := Option.bind_eq_some_iff.1 seen
  obtain ⟨done, listed, other⟩ := Option.map_eq_some_iff.1 seen
  have made : s.document fs rel = .ok d := by
    cases read : s.document fs rel <;> simp_all [Except.toOption]
  have finished : s.convertAll fs rels = (.ok records, (s.convertAll fs rels).2) := by
    cases run : s.convertAll fs rels with
    | mk result after => cases result <;> simp_all [Except.toOption]
  exact ⟨tree, distinct, records, _, finished, rel, done, d, here, listed,
    (document_eq_ok_iff.1 made).2, of_decide_eq_false other⟩

/-- A page is lost to a later one in the same place, and a page comes from what an earlier one has
left in the place of an included file. -/
theorem convertAll_loses :
    Loses { src := "s/", dest := "o/", lookup := ⟨"s/"⟩ }
        ⟨[(["s"], .directory), (["a", "s"], .file (Utf8.encode "1")),
          (["a.x", "s"], .file (Utf8.encode "2"))], []⟩ ["a", "a.x"] 0 ∧
      Loses {}
        ⟨[(["a"], .file (Utf8.encode "1")), (["a.wiki"], .file (Utf8.encode "2")),
          (["b"], .file (Utf8.encode "@>include: a.wiki"))], []⟩ ["a", "b"] 1 := by
  constructor
  · exact loses_of_seen ⟨.ofEntries _ (by decide +kernel) (by decide +kernel), rfl⟩
      (by decide +kernel) rfl (by decide +kernel)
  · exact loses_of_seen ⟨.ofEntries _ (by decide +kernel) (by decide +kernel), rfl⟩
      (by decide +kernel) rfl (by decide +kernel)

end Settings

end WikiPress
