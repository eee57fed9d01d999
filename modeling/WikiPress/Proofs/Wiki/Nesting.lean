import WikiPress.Proofs.Inclusion.Substitution
import WikiPress.Wiki.Page

/-!
# Pages do not show how headings nest

What a heading owns is written right behind it, so blocks come out in their order whichever heading
owns them. This stays true when bodies take the place of inclusions after the headings were nested.
-/

namespace WikiPress.Wiki

/-- No blocks give nothing. -/
@[simp]
theorem ofBlocks_nil : ofBlocks [] = "" := rfl

/-- The first block comes first. -/
@[simp]
theorem ofBlocks_cons (block : Block) (more : List Block) :
    ofBlocks (block :: more) = ofBlock block ++ ofBlocks more := rfl

/-- What a heading owns comes behind it. -/
@[simp]
theorem ofBlock_heading (depth : Nat) (title : List Run) (children : List Block) :
    ofBlock (.heading depth title children) = headingLines depth title ++ ofBlocks children := rfl

/-- The blocks of two bodies in a row come one after the other. -/
@[simp]
theorem ofBlocks_append (blocks more : List Block) :
    ofBlocks (blocks ++ more) = ofBlocks blocks ++ ofBlocks more := by
  induction blocks with
  | nil => exact String.empty_append.symm
  | cons block rest ih =>
    rw [List.cons_append, ofBlocks_cons, ofBlocks_cons, ih, String.append_assoc]

/-- A block in front of nested ones comes first, whatever it takes over. -/
theorem ofBlocks_substitute_consNested (body : Inclusion → List Block) (block : Block)
    (behind : List Block) :
    ofBlocks (substituteBlocks body (block.consNested behind)) =
      ofBlocks (block.substitute body) ++ ofBlocks (substituteBlocks body behind) := by
  cases block with
  | heading depth title children =>
    have whole := List.takeWhile_append_dropWhile (p := Block.isBelow depth) (l := behind)
    have own : ∀ inner, ofBlocks (Block.substitute body (.heading depth title inner)) =
        headingLines depth title ++ ofBlocks (substituteBlocks body inner) := by
      intro inner
      rw [Block.substitute, ofBlocks_cons, ofBlocks_nil, String.append_empty, ofBlock_heading]
    calc ofBlocks (substituteBlocks body (Block.consNested (.heading depth title children) behind))
        = ofBlocks (Block.substitute body (.heading depth title
              (children ++ behind.takeWhile (Block.isBelow depth)))) ++
            ofBlocks (substituteBlocks body (behind.dropWhile (Block.isBelow depth))) :=
          ofBlocks_append _ _
      _ = headingLines depth title ++ (ofBlocks (substituteBlocks body children) ++
            ofBlocks (substituteBlocks body (behind.takeWhile (Block.isBelow depth) ++
              behind.dropWhile (Block.isBelow depth)))) := by
          rw [own, substituteBlocks_append, substituteBlocks_append, ofBlocks_append,
            ofBlocks_append, String.append_assoc, String.append_assoc]
      _ = ofBlocks (Block.substitute body (.heading depth title children)) ++
            ofBlocks (substituteBlocks body behind) := by
          rw [whole, own, String.append_assoc]
  | _ => exact ofBlocks_append _ _

/-- Nested blocks come out as the flat ones do, also with bodies in the place of inclusions. -/
theorem ofBlocks_substitute_nestHeadings (body : Inclusion → List Block) (flat : List Block) :
    ofBlocks (substituteBlocks body (nestHeadings flat)) =
      ofBlocks (substituteBlocks body flat) := by
  induction flat with
  | nil => rfl
  | cons block more ih =>
    show ofBlocks (substituteBlocks body (block.consNested (nestHeadings more))) = _
    rw [ofBlocks_substitute_consNested, ih, substituteBlocks, ofBlocks_append]

end WikiPress.Wiki
