/-!
# White space

The characters that count as white space around a text, trimming them from both ends, and
counting the words between them. The class is wider than the spaces and tabs that make a line
blank: a line may hold a no-break space, be empty once trimmed, and still not be blank.
-/

namespace WikiPress.Text

/-- The White_Space property of Unicode, all twenty-five characters of it. -/
def isSpace (c : Char) : Bool :=
  let n := c.toNat
  (9 ≤ n && n ≤ 13) || n == 0x20 || n == 0x85 || n == 0xA0 || n == 0x1680 ||
    (0x2000 ≤ n && n ≤ 0x200A) || n == 0x2028 || n == 0x2029 || n == 0x202F ||
    n == 0x205F || n == 0x3000

/-- The text without the white space in front of it. -/
def trimStart (text : List Char) : List Char := text.dropWhile isSpace

/-- The text without the white space behind it. -/
def trimEnd (text : List Char) : List Char := (text.reverse.dropWhile isSpace).reverse

/-- The text without the white space around it. -/
def trim (text : List Char) : List Char := trimEnd (trimStart text)

/-- Trimming a stored text. -/
def trimmed (text : String) : String := String.ofList (trim text.toList)

/-- A stored text is trimmed as the list of its characters is. -/
theorem toList_trimmed (text : String) : (trimmed text).toList = trim text.toList :=
  String.toList_ofList

/-- The words that begin in a text, a word being a maximal run of characters that are not white
space; `inWord` says whether the text continues a word that began before it. -/
def wordsFrom (inWord : Bool) : List Char → Nat
  | [] => 0
  | c :: rest =>
    if isSpace c then wordsFrom false rest
    else (if inWord then 0 else 1) + wordsFrom true rest

/-- The number of words of a text. -/
def wordCount (text : List Char) : Nat := wordsFrom false text

end WikiPress.Text
