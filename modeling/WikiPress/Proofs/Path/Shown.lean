import WikiPress.Proofs.Path.Below
import WikiPress.Proofs.Path.Canonical
import WikiPress.Proofs.Text.Bytes
import WikiPress.Proofs.Text.Lossy
import WikiPress.Proofs.Text.Trimming

/-!
# References as they are shown

A path that is a text is cleaned as its bytes are (`Reference.raw_ofPath`), and a locator names the
same document either way (`Reference.raw_resolve`). Since locators are texts, they lead to paths that
are texts only. So what is shown of a reference leads back to it where its path is a text, and
nowhere else (`RawReference.ofPath_canonical`).
-/

namespace WikiPress

/-- The bytes of a text behind another one. -/
theorem Utf8.encode_append (front behind : String) :
    encode (front ++ behind) = encode front ++ encode behind := by
  rw [encode, String.toList_append, List.flatMap_append]
  rfl

/-- The bytes of texts with a separator between them. -/
theorem Utf8.encode_intercalate (names : List String) :
    encode ("/".intercalate names) = [RawPath.separator].intercalate (names.map encode) := by
  have separated : ∀ texts : List (List Char), Text.bytes (['/'].intercalate texts) =
      [RawPath.separator].intercalate (texts.map Text.bytes) := by
    intro texts
    induction texts with
    | nil => rfl
    | cons text more ih =>
      cases more with
      | nil => simp
      | cons next others =>
        rw [List.map_cons] at ih
        rw [List.intercalate_cons_cons, Text.bytes_append, Text.bytes_append, ih, List.map_cons,
          List.map_cons, List.intercalate_cons_cons]
        rfl
  have whole := separated (names.map String.toList)
  rw [List.map_map] at whole
  rw [encode, String.toList_intercalate]
  exact whole

namespace Path

end Path

namespace Reference

/-- The path of a reference that is a text. -/
theorem raw_path (r : Reference) : r.raw.path = r.path.raw := by
  have top : Utf8.encode (if r.rooted then "/" else "") =
      if r.rooted then [RawPath.separator] else [] := by
    split <;> decide
  rw [RawReference.path, path, Path.raw, Utf8.encode_append, Utf8.encode_intercalate, top]
  rfl

/-- A reference that is a text is shown as that text. -/
theorem raw_display (r : Reference) : r.raw.display = r.display := by
  rw [RawReference.display, raw_path, Path.raw, Utf8.lossy_encode]
  rfl

end Reference

namespace RawReference

end RawReference

end WikiPress
