import WikiPress.Proofs.Files.Walks
import WikiPress.Proofs.Inclusion.Completeness
import WikiPress.Proofs.Source.Concatenation
import WikiPress.Proofs.Wiki.Nesting

/-!
# Inclusions and included text

An inclusion line between two sources gives the parts of the sources with the inclusion between
them, and the text of the included file in its place gives the parts of the file there
(`ofLines_inclusion`, `ofLines_concatenated`). Headings may then own other blocks, but pages do not
show that, and every inclusion of the file stands for the same body wherever it occurs. So both ways
give the same page below the header (`expand_transcluded`).
-/

namespace WikiPress

/-- White space around a locator does not change what it names. -/
theorem Reference.resolve_trim (root : Path) (locator : String) :
    Reference.resolve root (String.ofList (Text.trim locator.toList)) =
      Reference.resolve root locator := by
  have same : Text.trimmed (String.ofList (Text.trim locator.toList)) = Text.trimmed locator := by
    rw [Text.trimmed, String.toList_ofList, Text.trim_trim, Text.trimmed]
  rw [resolve, resolve, same]

/-- An inclusion line between two sources gives its inclusion between what they give. -/
theorem ofLines_inclusion {root : Path} {first last locator : String} {parts more : List Part}
    (made : Part.ofLines root (Line.linesOf first.toList) = .ok parts)
    (rest : Part.ofLines root (Line.linesOf last.toList) = .ok more)
    (single : '\n' ∉ locator.toList) (named : Text.trim locator.toList ≠ []) :
    Part.ofLines root (Line.linesOf
        (first ++ "\n@>include: " ++ locator ++ "\n" ++ last).toList) =
      .ok (parts ++ .block (.inclusion ⟨Reference.resolve root locator, root⟩) :: more) := by
  have text : (first ++ "\n@>include: " ++ locator ++ "\n" ++ last).toList = first.toList ++
      '\n' :: (("@>include: ".toList ++ locator.toList) ++ '\n' :: last.toList) := by
    simp [String.toList_append]
  have unbroken : '\n' ∉ "@>include: ".toList ++ locator.toList := by
    rw [List.mem_append, not_or]
    exact ⟨by decide, single⟩
  obtain ⟨added, count, before, blank, whole⟩ :=
    Line.linesOf_between unbroken first.toList last.toList
  have kind := LineKind.ofLine_inclusion named count
  have read : ∀ behind : List Line, Part.read root
      ⟨Line.withoutReturn ("@>include: ".toList ++ locator.toList), count⟩ behind =
        .ok ([.block (.inclusion ⟨Reference.resolve root locator, root⟩)], behind) := by
    intro behind
    simp only [Part.read, kind, if_neg named, Reference.resolve_trim]
  have apart : ∀ line ∈ (added ++
      ⟨Line.withoutReturn ("@>include: ".toList ++ locator.toList), count⟩ ::
        (Line.linesOf last.toList).map (Line.moved before)).head?, line.flow? = none := by
    cases added with
    | nil =>
      intro line member
      obtain rfl := Option.some.inj member
      rw [Line.flow?, kind]
    | cons gap others =>
      intro line member
      obtain rfl := Option.some.inj member
      exact Line.flow?_of_isBlank (blank gap List.mem_cons_self)
  rw [text, whole, ofLines_append made apart, ofLines_gap root blank, ofLines_cons (read _),
    ofLines_moved, rest]
  rfl

/-- Two gaps between three sources that can be read give what the sources give. -/
theorem ofLines_filled {root : Path} {first middle last : String} {parts inner more : List Part}
    (made : Part.ofLines root (Line.linesOf first.toList) = .ok parts)
    (filling : Part.ofLines root (Line.linesOf middle.toList) = .ok inner)
    (rest : Part.ofLines root (Line.linesOf last.toList) = .ok more) :
    Part.ofLines root (Line.linesOf
        (first ++ "\n\n" ++ middle ++ "\n\n" ++ last).toList) = .ok (parts ++ inner ++ more) := by
  have front : Part.ofLines root (Line.linesOf (first ++ "\n\n" ++ middle).toList) =
      .ok (parts ++ inner) := by
    rw [ofLines_concatenated made, filling]
    rfl
  rw [ofLines_concatenated front, rest]
  rfl

/-- An inclusion names the document whose source its file holds. -/
theorem Inclusion.document_of_bytesAt {fs : FileSystem} {target : Reference} {root : Path}
    {bytes : List UInt8} {source : String} {d : Document}
    (held : fs.bytesAt target.path = .ok bytes) (decoded : Utf8.decode bytes = .ok source)
    (read : Document.parse root source = .ok d) : Inclusion.document fs ⟨target, root⟩ = .ok d := by
  have parsed := Document.parseBytes_eq_ok_iff.2 ⟨source, decoded, read⟩
  exact document_eq_ok_iff.2 ⟨bytes, FileSystem.bytesAt_eq_ok_iff.1 held, parsed⟩

/-- One choice of bodies holds whatever an inclusion can stand for. -/
theorem exists_bodies (fs : FileSystem) : ∃ body : Inclusion → List Block,
    ∀ leaf blocks n, leaf.StandsFor fs blocks n → body leaf = blocks := by
  have each : ∀ leaf : Inclusion, ∃ own : List Block,
      ∀ blocks n, leaf.StandsFor fs blocks n → own = blocks := by
    intro leaf
    by_cases stands : ∃ blocks n, leaf.StandsFor fs blocks n
    · obtain ⟨own, m, first⟩ := stands
      exact ⟨own, fun blocks n second => (first.unique second).1⟩
    · exact ⟨[], fun blocks n found => absurd ⟨blocks, n, found⟩ stands⟩
  choose body own using each
  exact ⟨body, own⟩

namespace Document

variable {fs : FileSystem}

/-- The inclusions of a document are those of its parts. -/
theorem inclusions_ofParts (parts : List Part) :
    (ofParts parts).inclusions = inclusionsOf (parts.filterMap Part.block?) :=
  inclusionsOf_nestHeadings _

/-- The page of an expansion shows the blocks of the parts with bodies for their inclusions. -/
theorem ofBlocks_of_expandsTo {parts : List Part} {e : Document} {n : Nat}
    (expansion : (ofParts parts).ExpandsTo fs e n) {body : Inclusion → List Block}
    (own : ∀ leaf blocks n, leaf.StandsFor fs blocks n → body leaf = blocks) :
    Wiki.ofBlocks e.blocks =
      Wiki.ofBlocks (substituteBlocks body (parts.filterMap Part.block?)) := by
  obtain ⟨bodies, nested, stands, rfl, _⟩ := expansion
  have same : ∀ leaf ∈ (ofParts parts).inclusions, bodies leaf = body leaf :=
    fun leaf member => (own leaf _ _ (stands leaf member)).symm
  calc Wiki.ofBlocks (substituteBlocks bodies (ofParts parts).blocks)
      = Wiki.ofBlocks (substituteBlocks body (nestHeadings (parts.filterMap Part.block?))) :=
        congrArg Wiki.ofBlocks (substituteBlocks_congr _ same)
    _ = _ := Wiki.ofBlocks_substitute_nestHeadings body _

/-- Where a document with an inclusion between its parts has an expansion, so has the one with the
parts of the included document in its place, and pages show the same blocks. -/
theorem expandsTo_filled {parts inner more : List Part} {leaf : Inclusion}
    (found : leaf.document fs = .ok (ofParts inner)) {e : Document} {n : Nat}
    (expansion : (ofParts (parts ++ .block (.inclusion leaf) :: more)).ExpandsTo fs e n) :
    ∃ e' m, (ofParts (parts ++ inner ++ more)).ExpandsTo fs e' m ∧
      Wiki.ofBlocks e.blocks = Wiki.ofBlocks e'.blocks := by
  have outer : (parts ++ Part.block (.inclusion leaf) :: more).filterMap Part.block? =
      parts.filterMap Part.block? ++ .inclusion leaf :: more.filterMap Part.block? := by
    have taken : Part.block? (.block (.inclusion leaf)) = some (.inclusion leaf) := rfl
    rw [List.filterMap_append, List.filterMap_cons_some taken]
  have filled : (parts ++ inner ++ more).filterMap Part.block? =
      parts.filterMap Part.block? ++ inner.filterMap Part.block? ++ more.filterMap Part.block? := by
    rw [List.filterMap_append, List.filterMap_append]
  have whole := expansion
  obtain ⟨bodies, nested, stands, _, _⟩ := whole
  rw [inclusions_ofParts, outer, inclusionsOf_append, inclusionsOf, Block.inclusions,
    List.forall_mem_append, List.forall_mem_append, List.forall_mem_singleton] at stands
  obtain ⟨front, own, back⟩ := stands
  obtain ⟨d, body, found', expandedInner, shown⟩ := standsFor_iff.1 own
  rw [found] at found'
  obtain rfl := Except.ok.inj found'
  obtain ⟨e', m, expansion'⟩ : ∃ e' m, (ofParts (parts ++ inner ++ more)).ExpandsTo fs e' m := by
    apply exists_expansion
    obtain ⟨deep, count, deeper, _, _⟩ := expandedInner
    rw [inclusions_ofParts] at deeper
    rw [inclusions_ofParts, filled, inclusionsOf_append, inclusionsOf_append,
      List.forall_mem_append, List.forall_mem_append]
    exact ⟨⟨fun other member => ⟨_, _, front other member⟩,
      fun other member => ⟨_, _, deeper other member⟩⟩,
      fun other member => ⟨_, _, back other member⟩⟩
  refine ⟨e', m, expansion', ?_⟩
  obtain ⟨choice, agrees⟩ := exists_bodies fs
  have place : choice leaf = body.blocks := agrees leaf _ _ (shown ▸ own)
  calc Wiki.ofBlocks e.blocks
      = Wiki.ofBlocks (substituteBlocks choice (parts.filterMap Part.block?)) ++
          (Wiki.ofBlocks (choice leaf) ++
            Wiki.ofBlocks (substituteBlocks choice (more.filterMap Part.block?))) := by
        rw [ofBlocks_of_expandsTo expansion agrees, outer, substituteBlocks_append,
          substituteBlocks, Block.substitute, Wiki.ofBlocks_append, Wiki.ofBlocks_append]
    _ = Wiki.ofBlocks e'.blocks := by
        rw [ofBlocks_of_expandsTo expansion' agrees, filled, place,
          ofBlocks_of_expandsTo expandedInner agrees, substituteBlocks_append,
          substituteBlocks_append, Wiki.ofBlocks_append, Wiki.ofBlocks_append,
          String.append_assoc]

/-- Two readable sources with an inclusion line between them, and the same sources with the text of
the included file between blank lines there: where the first document can be expanded, so can the
second, and their pages are the same below the header. -/
theorem expand_transcluded {root : Path} {first last locator included : String}
    {bytes : List UInt8} {a b c : Document} (readFirst : parse root first = .ok a)
    (readLast : parse root last = .ok c) (single : '\n' ∉ locator.toList)
    (named : Text.trim locator.toList ≠ [])
    (held : fs.bytesAt (Reference.resolve root locator).path = .ok bytes)
    (decoded : Utf8.decode bytes = .ok included) (readIncluded : parse root included = .ok b) :
    ∃ d d', parse root (first ++ "\n@>include: " ++ locator ++ "\n" ++ last) = .ok d ∧
      parse root (first ++ "\n\n" ++ included ++ "\n\n" ++ last) = .ok d' ∧
      ((d.expand fs).stopped = none → (d'.expand fs).stopped = none ∧
        ∃ shown, Wiki.page (d.expand fs).body = Wiki.header (d.expand fs).body ++ shown ∧
          Wiki.page (d'.expand fs).body = Wiki.header (d'.expand fs).body ++ shown) := by
  obtain ⟨_, parts, front, rfl, _⟩ := parts_of_parse readFirst
  obtain ⟨_, inner, middle, rfl, _⟩ := parts_of_parse readIncluded
  obtain ⟨_, more, back, rfl, _⟩ := parts_of_parse readLast
  have found : Inclusion.document fs ⟨Reference.resolve root locator, root⟩ =
      .ok (ofParts inner) := Inclusion.document_of_bytesAt held decoded readIncluded
  have joined : parse root (first ++ "\n@>include: " ++ locator ++ "\n" ++ last) = .ok (ofParts
      (parts ++ .block (.inclusion ⟨Reference.resolve root locator, root⟩) :: more)) := by
    rw [parse, ofLines_inclusion front back single named]
    rfl
  have filled : parse root (first ++ "\n\n" ++ included ++ "\n\n" ++ last) =
      .ok (ofParts (parts ++ inner ++ more)) := by
    rw [parse, ofLines_filled front middle back]
    rfl
  refine ⟨_, _, joined, filled, fun finished => ?_⟩
  have expansion := expandsTo_of_not_stopped finished
  obtain ⟨e, m, expansion', same⟩ := expandsTo_filled found expansion
  rw [expand_eq_iff.2 expansion']
  refine ⟨rfl, Wiki.ofBlocks e.blocks, ?_, rfl⟩
  rw [Wiki.page, ← same]
  rfl

/-- A section whose file ends in an inclusion. In one document the last paragraph belongs to the
outer section and in the other to the inner one, and the pages show the same. -/
theorem expand_transcluded_sample :
    ∃ (fs : FileSystem) (d d' : Document),
      parse ⟨""⟩ ("# a" ++ "\n@>include: " ++ "b" ++ "\n" ++ "t") = .ok d ∧
      parse ⟨""⟩ ("# a" ++ "\n\n" ++ "## b\n@>include: c\n" ++ "\n\n" ++ "t") = .ok d' ∧
      (d.expand fs).stopped = none ∧ (d'.expand fs).stopped = none ∧
      (∃ shown, Wiki.page (d.expand fs).body = Wiki.header (d.expand fs).body ++ shown ∧
        Wiki.page (d'.expand fs).body = Wiki.header (d'.expand fs).body ++ shown) ∧
      sameBlocks (d.expand fs).body.blocks [.heading 1 (runsOf ['a']) [.heading 2 (runsOf ['b'])
        [.paragraph (runsOf ['z'])], .paragraph (runsOf ['t'])]] = true ∧
      sameBlocks (d'.expand fs).body.blocks [.heading 1 (runsOf ['a']) [.heading 2 (runsOf ['b'])
        [.paragraph (runsOf ['z']), .paragraph (runsOf ['t'])]]] = true := by
  let fs : FileSystem := ⟨[(["b"], .file (Utf8.encode "## b\n@>include: c\n")),
    (["c"], .file (Utf8.encode "z\n"))], []⟩
  obtain ⟨a, first, _⟩ : ∃ a, parse ⟨""⟩ "# a" = .ok a ∧ a.title = "" :=
    exists_of_seen (by decide +kernel)
  obtain ⟨b, included, _⟩ : ∃ b, parse ⟨""⟩ "## b\n@>include: c\n" = .ok b ∧ b.title = "" :=
    exists_of_seen (by decide +kernel)
  obtain ⟨c, last, _⟩ : ∃ c, parse ⟨""⟩ "t" = .ok c ∧ c.title = "" :=
    exists_of_seen (by decide +kernel)
  have held : fs.bytesAt (Reference.resolve ⟨""⟩ "b").path =
      .ok (Utf8.encode "## b\n@>include: c\n") := by decide +kernel
  have decoded : Utf8.decode (Utf8.encode "## b\n@>include: c\n") =
      .ok "## b\n@>include: c\n" := by decide +kernel
  obtain ⟨d, d', joined, filled, same⟩ :=
    expand_transcluded first last (by decide) (by decide) held decoded included
  obtain ⟨_, again, seen⟩ : ∃ d, parse ⟨""⟩ ("# a" ++ "\n@>include: " ++ "b" ++ "\n" ++ "t") =
      .ok d ∧ ((d.expand fs).stopped, sameBlocks (d.expand fs).body.blocks [.heading 1
        (runsOf ['a']) [.heading 2 (runsOf ['b']) [.paragraph (runsOf ['z'])],
          .paragraph (runsOf ['t'])]]) = (none, true) := exists_of_seen (by decide +kernel)
  obtain rfl := Except.ok.inj (joined.symm.trans again)
  obtain ⟨finished, tree⟩ := Prod.mk.inj seen
  obtain ⟨_, again', tree'⟩ : ∃ d', parse ⟨""⟩ ("# a" ++ "\n\n" ++ "## b\n@>include: c\n" ++
      "\n\n" ++ "t") = .ok d' ∧ sameBlocks (d'.expand fs).body.blocks [.heading 1 (runsOf ['a'])
        [.heading 2 (runsOf ['b']) [.paragraph (runsOf ['z']), .paragraph (runsOf ['t'])]]] =
          true := exists_of_seen (by decide +kernel)
  obtain rfl := Except.ok.inj (filled.symm.trans again')
  obtain ⟨finished', shown⟩ := same finished
  exact ⟨fs, d, d', joined, filled, finished, finished', shown, tree, tree'⟩

end Document

end WikiPress
