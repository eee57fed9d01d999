import WikiPress.Proofs.Inclusion.Ending
import WikiPress.Proofs.Source.Concatenation

/-!
# Two names of one directory

The directory in which inclusions are looked up stands in every inclusion as it was spelled. Where two
directories give each locator the same reference, a source read for the one is the source read for
the other with the other spelling in its inclusions (`parse_lookedUpIn`), and so is every document
that an inclusion names. The work on both comes to the same end (`expandFrom_lookedUpIn`).
-/

namespace WikiPress

/-- The directories give each locator the same reference. -/
def Path.NamesLike (root other : Path) : Prop :=
  ∀ locator, Reference.resolve root locator = Reference.resolve other locator

/-- The inclusion in its own place, looked up in another directory. -/
def Inclusion.lookedUpIn (root : Path) (leaf : Inclusion) : List Block :=
  [.inclusion ⟨leaf.target, root⟩]

/-- The part with its inclusions looked up in another directory. -/
def Part.lookedUpIn (root : Path) : Part → List Part
  | .block own => (own.substitute (Inclusion.lookedUpIn root)).map .block
  | part => [part]

/-- The document with its inclusions looked up in another directory. -/
def Document.lookedUpIn (root : Path) (d : Document) : Document :=
  { d with blocks := substituteBlocks (Inclusion.lookedUpIn root) d.blocks }

variable {root other : Path}

section Trees

/-- The inclusions are the same, looked up in the other directory. -/
theorem inclusionsOf_lookedUpIn (root : Path) (blocks : List Block) :
    inclusionsOf (substituteBlocks (Inclusion.lookedUpIn root) blocks) =
      (inclusionsOf blocks).map fun leaf => ⟨leaf.target, root⟩ := by
  rw [inclusionsOf_substituteBlocks]
  exact List.map_eq_flatMap.symm

/-- A heading still takes over what it took over before. -/
theorem takeWhile_lookedUpIn (root : Path) (depth : Nat) (blocks : List Block) :
    (substituteBlocks (Inclusion.lookedUpIn root) blocks).takeWhile (Block.isBelow depth) =
        substituteBlocks (Inclusion.lookedUpIn root) (blocks.takeWhile (Block.isBelow depth)) ∧
      (substituteBlocks (Inclusion.lookedUpIn root) blocks).dropWhile (Block.isBelow depth) =
        substituteBlocks (Inclusion.lookedUpIn root) (blocks.dropWhile (Block.isBelow depth)) := by
  induction blocks with
  | nil => exact ⟨rfl, rfl⟩
  | cons block more ih =>
    obtain ⟨single, own, level⟩ : ∃ single, block.substitute (Inclusion.lookedUpIn root) = [single] ∧
        single.isBelow depth = block.isBelow depth := by
      cases block <;> exact ⟨_, rfl, rfl⟩
    simp only [substituteBlocks, own, List.singleton_append, List.takeWhile_cons,
      List.dropWhile_cons, level, ih.1, ih.2]
    split
    · simp only [substituteBlocks, own, List.singleton_append, and_self]
    · simp only [substituteBlocks, own, List.singleton_append, and_self]

/-- Headings are nested alike. -/
theorem nestHeadings_lookedUpIn (root : Path) (flat : List Block) :
    nestHeadings (substituteBlocks (Inclusion.lookedUpIn root) flat) =
      substituteBlocks (Inclusion.lookedUpIn root) (nestHeadings flat) := by
  induction flat with
  | nil => rfl
  | cons block more ih =>
    have kept := takeWhile_lookedUpIn root
    cases block with
    | heading depth title children =>
      show Block.consNested (.heading depth title
          (substituteBlocks (Inclusion.lookedUpIn root) children))
        (nestHeadings (substituteBlocks (Inclusion.lookedUpIn root) more)) = _
      rw [ih, Block.consNested, (kept depth _).1, (kept depth _).2, ← substituteBlocks_append]
      rfl
    | _ => exact congrArg _ ih

end Trees

section Reading

/-- A block without inclusions is looked up nowhere. -/
theorem Part.lookedUpIn_of_none {block : Block} (none : block.inclusions = []) :
    (Part.block block).lookedUpIn root = [.block block] := by
  have single : inclusionsOf [block] = [] := by
    rw [inclusionsOf, none]
    rfl
  have whole := substituteBlocks_of_none single (Inclusion.lookedUpIn root)
  rw [substituteBlocks, substituteBlocks, List.append_nil] at whole
  rw [lookedUpIn, whole]
  rfl

/-- An inclusion keeps its target. -/
theorem Part.lookedUpIn_inclusion (leaf : Inclusion) :
    (Part.block (.inclusion leaf)).lookedUpIn root =
      [.block (.inclusion ⟨leaf.target, root⟩)] := rfl

/-- What is read from lines differs only in where its inclusions are looked up. -/
theorem read_lookedUpIn (alike : root.NamesLike other) (line : Line) (more : List Line) :
    Part.read other line more = (Part.read root line more).map fun made =>
      (made.1.flatMap (Part.lookedUpIn other), made.2) := by
  cases kind : LineKind.ofLine line with
  | blank | rule | heading | row | text =>
    simp only [Part.read, kind]
    rfl
  | fence language =>
    simp only [Part.read, kind]
    split <;> rfl
  | inclusion locator =>
    simp only [Part.read, kind]
    split
    · rfl
    · simp only [Except.map, List.flatMap_singleton, Part.lookedUpIn_inclusion,
        alike (String.ofList locator)]
  | directive name value =>
    simp only [Part.read, kind, bind, Except.bind]
    cases made : Part.ofDirective name value line.number with
    | error e => rfl
    | ok part =>
      obtain ⟨_, rfl⟩ | ⟨_, rfl⟩ | ⟨_, rfl⟩ | ⟨_, rfl⟩ := Part.ofDirective_cases made <;> rfl
  | item marker indent text =>
    simp only [Part.read, kind, bind, Except.bind]
    cases made : listOf (⟨marker, indent, text, line.number⟩ ::
        (Part.leading Part.item? more).1) with
    | error e => rfl
    | ok blocks =>
      obtain ⟨listed, nested, rfl, empty⟩ := listOf_cons made
      have none : (Block.list listed nested).inclusions = [] := empty
      simp only [Except.map, List.map_cons, List.map_nil, List.flatMap_singleton,
        Part.lookedUpIn_of_none none]

/-- The parts of lines differ only in where their inclusions are looked up. -/
theorem ofLines_lookedUpIn (alike : root.NamesLike other) (lines : List Line) :
    Part.ofLines other lines =
      (Part.ofLines root lines).map fun parts => parts.flatMap (Part.lookedUpIn other) := by
  fun_induction Part.ofLines root lines with
  | case1 => rw [Part.ofLines]; rfl
  | case2 line more e failed =>
    have read := read_lookedUpIn alike line more
    rw [failed] at read
    rw [ofLines_cons_error read]
    rfl
  | case3 line more parts rest found ih =>
    have read := read_lookedUpIn alike line more
    rw [found] at read
    rw [ofLines_cons read, ih]
    cases Part.ofLines root rest with
    | error e => rfl
    | ok others => simp only [Except.map, List.flatMap_append]

/-- The header of parts is the same. -/
theorem filterMap_lookedUpIn {α : Type} {give : Part → Option α}
    (blind : ∀ block, give (.block block) = none) (parts : List Part) :
    (parts.flatMap (Part.lookedUpIn root)).filterMap give = parts.filterMap give := by
  induction parts with
  | nil => rfl
  | cons part more ih =>
    have own : (part.lookedUpIn root).filterMap give = [part].filterMap give := by
      cases part with
      | block block =>
        rw [Part.lookedUpIn, List.filterMap_map]
        simp [blind]
      | _ => rfl
    rw [List.flatMap_cons, List.filterMap_append, own, ih, ← List.filterMap_append,
      List.singleton_append]

/-- The blocks of parts are those with their inclusions looked up in the other directory. -/
theorem blocks_lookedUpIn (parts : List Part) :
    (parts.flatMap (Part.lookedUpIn root)).filterMap Part.block? =
      substituteBlocks (Inclusion.lookedUpIn root) (parts.filterMap Part.block?) := by
  induction parts with
  | nil => rfl
  | cons part more ih =>
    rw [List.flatMap_cons, List.filterMap_append, ih]
    cases part with
    | block block =>
      rw [Part.lookedUpIn, Part.filterMap_block?]
      rfl
    | _ => rfl

namespace Document

/-- The document of parts that are looked up elsewhere is the document of the parts, looked up
there. -/
theorem ofParts_lookedUpIn (parts : List Part) :
    ofParts (parts.flatMap (Part.lookedUpIn root)) = (ofParts parts).lookedUpIn root := by
  have titles : (parts.flatMap (Part.lookedUpIn root)).filterMap Part.title? =
      parts.filterMap Part.title? := filterMap_lookedUpIn (fun _ => rfl) parts
  have authors : (parts.flatMap (Part.lookedUpIn root)).filterMap Part.author? =
      parts.filterMap Part.author? := filterMap_lookedUpIn (fun _ => rfl) parts
  have verifiers : (parts.flatMap (Part.lookedUpIn root)).filterMap Part.verifier? =
      parts.filterMap Part.verifier? := filterMap_lookedUpIn (fun _ => rfl) parts
  simp only [ofParts, lookedUpIn, titles, authors, verifiers, blocks_lookedUpIn,
    nestHeadings_lookedUpIn]

/-- A source read for another name of the directory is the same document with its inclusions
looked up there, or has the same mistake. -/
theorem parse_lookedUpIn (alike : root.NamesLike other) (source : String) :
    parse other source = (parse root source).map (lookedUpIn other) := by
  rw [parse, parse, ofLines_lookedUpIn alike]
  cases Part.ofLines root (Line.linesOf source.toList) with
  | error e => rfl
  | ok parts => exact congrArg Except.ok (ofParts_lookedUpIn parts)

/-- Contents are read like sources. -/
theorem parseBytes_lookedUpIn (alike : root.NamesLike other) (bytes : List UInt8) :
    parseBytes other bytes = (parseBytes root bytes).map (lookedUpIn other) := by
  unfold parseBytes
  cases Utf8.decode bytes with
  | error fault => rfl
  | ok source => exact parse_lookedUpIn alike source

end Document

end Reading

/-- An inclusion that is looked up in another directory names the same document, up to where that is
looked up. -/
theorem Inclusion.document_lookedUpIn (alike : root.NamesLike other) (fs : FileSystem)
    {leaf : Inclusion} (own : leaf.root = root) :
    Inclusion.document fs ⟨leaf.target, other⟩ =
      (leaf.document fs).map (Document.lookedUpIn other) := by
  unfold Inclusion.document FileSystem.document
  rw [own]
  cases fs.openEntry leaf.target.path with
  | error e => rfl
  | ok entry =>
    cases held : entry.read with
    | error e => simp only [held]; rfl
    | ok bytes =>
      simp only [held, Document.parseBytes_lookedUpIn alike]
      cases Document.parseBytes root bytes <;> rfl

/-- Where inclusions are expanded as they are when they are looked up elsewhere, the work on them has
the same result. -/
theorem result_spliceBlocks_lookedUpIn {ε : Type} {expand expandOther : Expansion ε}
    {blocks : List Block} (same : ∀ leaf ∈ inclusionsOf blocks,
      expandOther ⟨leaf.target, root⟩ = expand leaf) :
    (spliceBlocks expandOther (substituteBlocks (Inclusion.lookedUpIn root) blocks)).result =
      (spliceBlocks expand blocks).result := by
  let moved : Expansion ε := fun leaf => expandOther ⟨leaf.target, root⟩
  have stopped : (spliceBlocks expandOther
      (substituteBlocks (Inclusion.lookedUpIn root) blocks)).stopped =
        (spliceBlocks moved blocks).stopped := by
    rw [stopped_spliceBlocks, stopped_spliceBlocks, inclusionsOf_lookedUpIn,
      List.findSome?_map]
    rfl
  have alike : spliceBlocks moved blocks = spliceBlocks expand blocks :=
    spliceBlocks_congr blocks same
  rw [← alike]
  cases reason : (spliceBlocks moved blocks).stopped with
  | some e =>
    rw [Progress.result, Progress.result, stopped, reason]
  | none =>
    have body : substituteBlocks (Expansion.bodyOf expandOther)
        (substituteBlocks (Inclusion.lookedUpIn root) blocks) =
          substituteBlocks (Expansion.bodyOf moved) blocks := by
      rw [substituteBlocks_substituteBlocks]
      exact substituteBlocks_congr blocks fun leaf _ => List.append_nil _
    rw [(spliceBlocks_of_not_stopped (stopped.trans reason)).2,
      (spliceBlocks_of_not_stopped reason).2, body, inclusionsOf_lookedUpIn, replacedIn_map]
    rfl

/-- An inclusion ends alike where it is looked up in another directory of the same names. -/
theorem Inclusion.EndsIn.lookedUpIn (alike : root.NamesLike other) {fs : FileSystem}
    {chain : List Reference} {leaf : Inclusion}
    {result : Except InclusionError (List Block × Nat)} (ends : leaf.EndsIn fs chain result)
    (own : leaf.root = root) : Inclusion.EndsIn fs chain ⟨leaf.target, other⟩ result := by
  induction ends with
  | again known => exact .again known
  | unread fresh failed =>
    refine .unread fresh ?_
    rw [document_lookedUpIn alike fs own, failed]
    rfl
  | @body chain leaf d results fresh found inner ih =>
    have named : ∀ deep ∈ d.inclusions, deep.root = root := by
      obtain ⟨bytes, _, read⟩ := document_eq_ok_iff.1 found
      obtain ⟨source, _, parsed⟩ := Document.parseBytes_eq_ok_iff.1 read
      exact fun deep member => own ▸ (Document.named_of_parse parsed member).1
    have held : Inclusion.document fs ⟨leaf.target, other⟩ = .ok (d.lookedUpIn other) := by
      rw [document_lookedUpIn alike fs own, found]
      rfl
    -- what the inclusions end in is known from where they were looked up before
    let moved : Expansion InclusionError := fun deep => results ⟨deep.target, root⟩
    have same : ∀ deep ∈ d.inclusions, moved ⟨deep.target, other⟩ = results deep :=
      fun deep member => congrArg (fun place => results ⟨deep.target, place⟩) (named deep member).symm
    have fresh' : (⟨leaf.target, other⟩ : Inclusion).target ∉ chain := fresh
    rw [← result_spliceBlocks_lookedUpIn same]
    refine .body moved fresh' held fun deep member => ?_
    obtain ⟨before, listed, rfl⟩ : ∃ before ∈ d.inclusions, ⟨before.target, other⟩ = deep := by
      rw [Document.inclusions, Document.lookedUpIn, inclusionsOf_lookedUpIn] at member
      exact List.mem_map.1 member
    rw [same before listed]
    exact ih before listed (named before listed)

/-- The result of the work on a document is that of the work on its blocks. -/
theorem Document.result_of_blocks {ε : Type} (d : Document) (p : Progress ε (List Block)) :
    Progress.result ⟨{ d with blocks := p.body }, p.replaced, p.stopped⟩ =
      p.result.map fun made => ({ d with blocks := made.1 }, made.2) := by
  unfold Progress.result
  cases p.stopped <;> rfl

/-- A document that is looked up in another directory of the same names is expanded to the same end:
with the same result, or with the same error. -/
theorem Document.expandFrom_lookedUpIn (alike : root.NamesLike other) (fs : FileSystem)
    (chain : List Reference) {d : Document} (own : ∀ leaf ∈ d.inclusions, leaf.root = root) :
    ((d.lookedUpIn other).expandFrom fs chain).result = (d.expandFrom fs chain).result := by
  obtain ⟨results, ends, shape⟩ := endsIn_expandFrom fs chain d
  obtain ⟨results', ends', shape'⟩ := endsIn_expandFrom fs chain (d.lookedUpIn other)
  have same : ∀ leaf ∈ inclusionsOf d.blocks, results' ⟨leaf.target, other⟩ = results leaf := by
    intro leaf member
    have moved : (⟨leaf.target, other⟩ : Inclusion) ∈ (d.lookedUpIn other).inclusions := by
      rw [inclusions, lookedUpIn, inclusionsOf_lookedUpIn]
      exact List.mem_map_of_mem member
    exact (ends' _ moved).unique ((ends leaf member).lookedUpIn alike (own leaf member))
  have blocks := result_spliceBlocks_lookedUpIn same
  rw [shape, shape', result_of_blocks, result_of_blocks]
  exact congrArg (Except.map _) blocks

end WikiPress
