import WikiPress.Document.Basic

/-!
# Nesting of headings

A flat list of blocks becomes a tree: each heading takes over the blocks behind it up to the next
heading that is not deeper. Reading from the back, the blocks behind a heading are a nested list
already, so it only has to take the longest stretch of them that lies below its level.
-/

namespace WikiPress

/-- A block that a heading of the given depth takes over when it follows. -/
def Block.isBelow (depth : Nat) : Block → Bool
  | .heading inner _ _ => depth < inner
  | _ => true

/-- Put a block in front of a nested list. -/
def Block.consNested (block : Block) (behind : List Block) : List Block :=
  match block with
  | .heading depth title children =>
    .heading depth title (children ++ behind.takeWhile (Block.isBelow depth)) ::
      behind.dropWhile (Block.isBelow depth)
  | block => block :: behind

/-- The tree of a flat list of blocks. -/
def nestHeadings (flat : List Block) : List Block := flat.foldr Block.consNested []

end WikiPress
