import WikiPress.Inline.Marker
import WikiPress.Document.Run
import WikiPress.Text.Space
import WikiPress.Text.Split

/-!
# Inline constructs

What may stand in a line besides literal text: text between markers, coloured text, links and
images. A construct is read from the front of a text and leaves a rest, and the styled text
inside it and the rest are together shorter than what was read.
-/

namespace WikiPress

/-- A construct in a line. -/
inductive Construct where
  /-- Markup inside a style. -/
  | styled (added : Style) (inside : List Char)
  /-- A link under a label. -/
  | link (label href : List Char)
  /-- An image, which may be a link. -/
  | image (src : List Char) (href : Option (List Char))
  deriving DecidableEq

namespace Construct

/-- The markup inside a construct. -/
def inside : Construct → List Char
  | styled _ text => text
  | _ => []

/-- A character of a colour name or code. -/
def isColorChar (c : Char) : Bool := c.isAlphanum || c = '#'

/-- The content of double brackets: `img:` and a source makes an image, anything else a link,
and a bar separates the target from the source or the label. A link without a bar is its own
label. -/
def ofBrackets (content : List Char) : Construct :=
  match Text.after? "img:" content with
  | some source =>
    match Text.cut '|' source with
    | some (src, href) => .image (Text.trim src) (some (Text.trim href))
    | none => .image (Text.trim source) none
  | none =>
    match Text.cut '|' content with
    | some (label, href) => .link (Text.trim label) (Text.trim href)
    | none => .link content content

/-- The construct behind two opening brackets. Blank brackets hold nothing. -/
def bracketed? (text : List Char) : Option (Construct × List Char) :=
  match Text.cutPair ']' ']' text with
  | none => none
  | some (content, behind) =>
    if Text.trim content = [] then none else some (ofBrackets (Text.trim content), behind)

/-- The coloured text behind an opening brace: a colour, a bar, and text up to the first closing
brace. Neither the colour nor the text is empty. -/
def colored? (text : List Char) : Option (Construct × List Char) :=
  let color := text.takeWhile isColorChar
  if color = [] then none
  else match text.dropWhile isColorChar with
    | '|' :: rest =>
      match Text.cut '}' rest with
      | none => none
      | some (inside, behind) =>
        if inside = [] then none
        else some (.styled { color := some (String.ofList color) } inside, behind)
    | _ => none

/-- The construct at the front of a text, and the text behind it. -/
def read? (text : List Char) : Option (Construct × List Char) :=
  match text with
  | '[' :: '[' :: rest => bracketed? rest
  | '{' :: rest => colored? rest
  | text => (Marker.enclosed? text).map fun (m, inside, behind) =>
      (.styled m.style inside, behind)

/-- Links and images hold no markup. -/
theorem inside_ofBrackets (content : List Char) : (ofBrackets content).inside = [] := by
  unfold ofBrackets
  split <;> split <;> rfl

/-- What double brackets hold and what follows them is shorter than what was read. -/
theorem length_bracketed? {text behind : List Char} {k : Construct}
    (h : bracketed? text = some (k, behind)) : k.inside.length + behind.length < text.length := by
  unfold bracketed? at h
  split at h
  · simp at h
  · next content rest found =>
    split at h
    · simp at h
    · simp only [Option.some.injEq, Prod.mk.injEq] at h
      obtain ⟨rfl, rfl⟩ := h
      rw [Text.cutPair_eq found, inside_ofBrackets]
      simp only [List.length_cons, List.length_append, List.length_nil]
      omega

/-- What braces hold and what follows them is shorter than what was read. -/
theorem length_colored? {text behind : List Char} {k : Construct}
    (h : colored? text = some (k, behind)) : k.inside.length + behind.length < text.length := by
  have whole := List.takeWhile_append_dropWhile (p := isColorChar) (l := text)
  simp only [colored?] at h
  split at h
  · simp at h
  · split at h
    · next rest dropped =>
      split at h
      · simp at h
      · next inside after found =>
        split at h
        · simp at h
        · simp only [Option.some.injEq, Prod.mk.injEq] at h
          obtain ⟨rfl, rfl⟩ := h
          rw [← whole, dropped, Text.cut_eq found]
          simp [Construct.inside]
          omega
    · simp at h

/-- The markup inside a construct and the text behind it are together shorter than the text they
were read from. -/
theorem length_read? {text behind : List Char} {k : Construct}
    (h : read? text = some (k, behind)) : k.inside.length + behind.length < text.length := by
  unfold read? at h
  split at h
  · have := length_bracketed? h
    simp only [List.length_cons]
    omega
  · have := length_colored? h
    simp only [List.length_cons]
    omega
  · simp only [Option.map_eq_some_iff, Prod.exists, Prod.mk.injEq] at h
    obtain ⟨m, i, b, found, rfl, rfl⟩ := h
    exact Marker.length_enclosed? found

end Construct

end WikiPress
