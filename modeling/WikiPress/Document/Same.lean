import WikiPress.Document.Basic

/-!
# Sameness of documents

Two documents are the same when their trees are equal up to the directories that their
inclusions remember: an inclusion is the document it names, whoever reads it.
-/

namespace WikiPress

mutual

/-- The blocks have the same content. -/
def Block.same : Block → Block → Bool
  | .paragraph r, .paragraph r' => r = r'
  | .heading d t c, .heading d' t' c' => d = d' && t = t' && sameBlocks c c'
  | .list k i, .list k' i' => k = k' && sameItems i i'
  | .table r, .table r' => r = r'
  | .code l t, .code l' t' => l = l' && t = t'
  | .rule, .rule => true
  | .contents r, .contents r' => r = r'
  | .inclusion l, .inclusion l' => l.target = l'.target
  | _, _ => false

/-- The lists have the same blocks in the same order. -/
def sameBlocks : List Block → List Block → Bool
  | [], [] => true
  | b :: more, b' :: more' => b.same b' && sameBlocks more more'
  | _, _ => false

/-- The lists have the same items in the same order. -/
def sameItems : List Item → List Item → Bool
  | [], [] => true
  | i :: more, i' :: more' => i.same i' && sameItems more more'
  | _, _ => false

/-- The items have the same content. -/
def Item.same : Item → Item → Bool
  | ⟨k, d, r, c⟩, ⟨k', d', r', c'⟩ => k = k' && d = d' && r = r' && sameBlocks c c'

end

/-- The documents have the same header and the same body. -/
def Document.same (d e : Document) : Bool :=
  d.title = e.title && d.authors = e.authors && d.verifiers = e.verifiers &&
    sameBlocks d.blocks e.blocks

end WikiPress
