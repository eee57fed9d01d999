import WikiPress.Batch.Index
import WikiPress.Proofs.Batch.Pages
import WikiPress.Proofs.Path.Below

/-!
# What an index says

An index can be read again: no attribute ends early, and replacing the entities gives every text back
(`Index.read?_index`). What it says about a batch is therefore all there is to say: the titles of the
pages in their order, and paths that lead from the destination root to the pages
(`Settings.index_records`).
-/

namespace WikiPress

namespace Index

/-- A text with the characters in it that its five entities stand for. -/
def unescaped : List Char → List Char
  | '&' :: 'a' :: 'm' :: 'p' :: ';' :: rest => '&' :: unescaped rest
  | '&' :: 'l' :: 't' :: ';' :: rest => '<' :: unescaped rest
  | '&' :: 'g' :: 't' :: ';' :: rest => '>' :: unescaped rest
  | '&' :: 'q' :: 'u' :: 'o' :: 't' :: ';' :: rest => '"' :: unescaped rest
  | '&' :: 'a' :: 'p' :: 'o' :: 's' :: ';' :: rest => '\x27' :: unescaped rest
  | c :: rest => c :: unescaped rest
  | [] => []

/-- The value of an attribute behind an opening text and up to the next double quote, and the text
behind that. -/
def readAttribute? (opening : String) (text : List Char) : Option (String × List Char) := do
  let behind ← Text.after? opening text
  let (value, rest) ← Text.cut '"' behind
  some (String.ofList (unescaped value), rest)

/-- The path and the title of an entry, and the text behind it. -/
def readRecord? (text : List Char) : Option ((String × String) × List Char) := do
  let (path, more) ← readAttribute? "  <doc path=\"" text
  let (title, last) ← readAttribute? " title=\"" more
  let rest ← Text.after? "/>\n" last
  some ((path, title), rest)

/-- The text behind an attribute is shorter. -/
theorem length_readAttribute? {opening value : String} {text rest : List Char}
    (found : readAttribute? opening text = some (value, rest)) : rest.length < text.length := by
  simp only [readAttribute?, bind, Option.bind_eq_some_iff, Option.some.injEq, Prod.mk.injEq,
    Prod.exists] at found
  obtain ⟨behind, opened, inner, last, cut, rfl, rfl⟩ := found
  have whole := congrArg List.length (List.append_eq_of_isPrefixOf?_eq_some opened)
  have parts := congrArg List.length (Text.cut_eq cut)
  simp only [List.length_append, List.length_cons] at whole parts
  omega

/-- The text behind an entry is shorter. -/
theorem length_readRecord? {pair : String × String} {text rest : List Char}
    (found : readRecord? text = some (pair, rest)) : rest.length < text.length := by
  simp only [readRecord?, bind, Option.bind_eq_some_iff, Option.some.injEq, Prod.mk.injEq,
    Prod.exists] at found
  obtain ⟨path, more, first, title, last, second, behind, closed, _, rfl⟩ := found
  have front := length_readAttribute? first
  have back := length_readAttribute? second
  have whole := congrArg List.length (List.append_eq_of_isPrefixOf?_eq_some closed)
  rw [List.length_append] at whole
  omega

/-- The paths and titles of the entries at the front of a text, and the text behind them. -/
def readRecords (text : List Char) : List (String × String) × List Char :=
  match _found : readRecord? text with
  | none => ([], text)
  | some (pair, rest) =>
    let (others, last) := readRecords rest
    (pair :: others, last)
termination_by text.length
decreasing_by exact length_readRecord? _found

/-- The paths and titles that an index lists. -/
def read? (text : String) : Option (List (String × String)) := do
  let body ← Text.after? "<?xml version=\"1.0\" encoding=\"UTF-8\"?>\n<docs>\n" text.toList
  let (pairs, rest) := readRecords body
  if rest = "</docs>\n".toList then some pairs else none

/-- A character that begins no entity stands for itself. -/
theorem unescaped_cons {c : Char} (plain : c ≠ '&') (rest : List Char) :
    unescaped (c :: rest) = c :: unescaped rest := by
  conv_lhs => unfold unescaped
  split <;> simp_all

/-- An escaped character is read back. -/
theorem unescaped_escapedChar (c : Char) (rest : List Char) :
    unescaped (escapedChar c ++ rest) = c :: unescaped rest := by
  unfold escapedChar
  split
  · next same => rw [same]; rfl
  split
  · next same => rw [same]; rfl
  split
  · next same => rw [same]; rfl
  split
  · next same => rw [same]; rfl
  split
  · next same => rw [same]; rfl
  · next plain _ _ _ _ => exact unescaped_cons plain rest

/-- An escaped text is read back. -/
theorem unescaped_escaped (text : String) :
    String.ofList (unescaped (escaped text).toList) = text := by
  have inner : ∀ chars : List Char, unescaped (chars.flatMap escapedChar) = chars := by
    intro chars
    induction chars with
    | nil => rfl
    | cons c more ih => rw [List.flatMap_cons, unescaped_escapedChar, ih]
  rw [escaped, String.toList_ofList, inner, String.ofList_toList]

/-- No double quote is in an escaped text. -/
theorem quote_not_mem_escaped (text : String) : '"' ∉ (escaped text).toList := by
  rw [escaped, String.toList_ofList, List.mem_flatMap]
  rintro ⟨c, _, member⟩
  unfold escapedChar at member
  split at member
  · revert member; decide
  split at member
  · revert member; decide
  split at member
  · revert member; decide
  split at member
  · revert member; decide
  split at member
  · revert member; decide
  · next other _ => exact other (List.mem_singleton.1 member).symm

/-- An attribute is read up to its end and no further. -/
theorem readAttribute?_escaped (opening value : String) (rest : List Char) :
    readAttribute? opening (opening.toList ++ ((escaped value).toList ++ '"' :: rest)) =
      some (value, rest) := by
  have opened : Text.after? opening (opening.toList ++ ((escaped value).toList ++ '"' :: rest)) =
      some ((escaped value).toList ++ '"' :: rest) :=
    List.isPrefixOf?_eq_some_iff_append_eq.2 rfl
  have ended := Text.cut_append (quote_not_mem_escaped value) rest
  simp only [readAttribute?, opened, ended, bind, Option.bind_some, unescaped_escaped]

/-- The entry of a page is read up to its end and no further. -/
theorem readRecord?_entry (dest : String) (done : Converted) (rest : List Char) :
    readRecord? ((entry dest done).toList ++ rest) =
      some ((pagePath dest done.output, done.title), rest) := by
  have text : (entry dest done).toList ++ rest = "  <doc path=\"".toList ++
      ((escaped (pagePath dest done.output)).toList ++ '"' :: (" title=\"".toList ++
        ((escaped done.title).toList ++ '"' :: ("/>\n".toList ++ rest)))) := by
    have between : "\" title=\"".toList = '"' :: " title=\"".toList := rfl
    have last : "\"/>\n".toList = '"' :: "/>\n".toList := rfl
    simp only [entry, String.toList_append, between, last, List.append_assoc, List.cons_append]
  have closed : Text.after? "/>\n" ("/>\n".toList ++ rest) = some rest :=
    List.isPrefixOf?_eq_some_iff_append_eq.2 rfl
  simp only [text, readRecord?, readAttribute?_escaped, closed, bind, Option.bind_some]

/-- The end of an index is no entry. -/
theorem readRecords_end : readRecords "</docs>\n".toList = ([], "</docs>\n".toList) := by
  have unopened : Text.after? "  <doc path=\"" "</docs>\n".toList = none := by decide
  have none : readRecord? "</docs>\n".toList = none := by
    simp only [readRecord?, readAttribute?, unopened, bind, Option.bind_none]
  rw [readRecords, none]

/-- The entries of pages are read one after the other. -/
theorem readRecords_entries (dest : String) (done : List Converted) :
    readRecords ((Text.concat (done.map (entry dest))).toList ++ "</docs>\n".toList) =
      (done.map fun own => (pagePath dest own.output, own.title), "</docs>\n".toList) := by
  induction done with
  | nil => exact readRecords_end
  | cons first more ih =>
    have text : (Text.concat ((first :: more).map (entry dest))).toList ++ "</docs>\n".toList =
        (entry dest first).toList ++
          ((Text.concat (more.map (entry dest))).toList ++ "</docs>\n".toList) := by
      rw [List.map_cons, Text.concat, String.toList_append, List.append_assoc]
    rw [text, readRecords, readRecord?_entry]
    simp only [ih, List.map_cons]

/-- An index is read back: the paths it shows and the titles of the pages, in their order. -/
theorem read?_index (s : Settings) (done : List Converted) :
    read? (s.index done) = some (done.map fun own => (pagePath s.dest own.output, own.title)) := by
  have opened : ∀ opening body : String,
      Text.after? opening (opening ++ body ++ "</docs>\n").toList =
        some (body.toList ++ "</docs>\n".toList) := by
    intro opening body
    rw [Text.after?, List.isPrefixOf?_eq_some_iff_append_eq, String.toList_append,
      String.toList_append, List.append_assoc]
  unfold read? Settings.index
  rw [opened, Option.bind_eq_bind, Option.bind_some, readRecords_entries]
  exact if_pos rfl

end Index

namespace Settings

variable {s : Settings} {fs after : FileSystem} {rel : String} {rels : List String}
  {done : Converted} {records : List Converted}

/-- No separator is in the extension of a page. -/
theorem separator_not_mem_extension (f : Format) : Path.separator ∉ f.extension.toList := by
  cases f
  decide

/-- A relative path without slashes in front is none of the top directory. -/
theorem isAbsolute_normalRelative (rel : String) :
    (⟨normalRelative rel⟩ : Path).isAbsolute = false := by
  have first := List.head?_dropWhile_not (· = Path.separator) (Path.withSlashes rel).toList
  rw [Path.isAbsolute, normalRelative, String.toList_ofList]
  cases shape : (Path.withSlashes rel).toList.dropWhile (· = Path.separator) with
  | nil => rfl
  | cons c more =>
    rw [shape, List.head?_cons] at first
    simpa using first

/-- No backslash is in a relative path that has slashes for them. -/
theorem backslash_not_mem_normalRelative (rel : String) : '\\' ∉ (normalRelative rel).toList := by
  rw [normalRelative, String.toList_ofList]
  exact fun member =>
    Path.backslash_not_mem_withSlashes rel ((List.dropWhile_sublist _).subset member)

/-- The path of a page below the destination root. -/
def pageBelow (s : Settings) (rel : String) : Path :=
  Path.withExtension ⟨normalRelative rel⟩ s.format.extension

/-- A page is written below the destination root. -/
theorem outputPath_eq (s : Settings) (rel : String) :
    s.outputPath rel = Path.join ⟨s.dest⟩ (s.pageBelow rel) := by
  rw [outputPath, pageBelow]

/-- The path of a page is not one of the top directory, and there is no backslash in it. -/
theorem pageBelow_spelled (s : Settings) (rel : String) :
    (s.pageBelow rel).isAbsolute = false ∧ '\\' ∉ (s.pageBelow rel).text.toList := by
  have bare := separator_not_mem_extension s.format
  have plain : '\\' ∉ s.format.extension.toList := by
    cases s.format
    decide
  constructor
  · exact Path.isAbsolute_withExtension bare (isAbsolute_normalRelative rel)
  · intro member
    exact backslash_not_mem_normalRelative rel
      (Path.mem_of_withExtension bare member (by decide) (by decide) plain)

/-- A relative path without backslashes below a root is shown as a path that leads there from the
root. -/
theorem leadsLike_shown {dest : String} {below : Path} (relative : below.isAbsolute = false)
    (straight : '\\' ∉ below.text.toList) (ends : (Path.join ⟨dest⟩ below).EndsAwake)
    (taken : FileSystem.refusal? (Path.join ⟨dest⟩ below) = none) :
    (Path.join ⟨dest⟩ ⟨Index.pagePath dest (Path.join ⟨dest⟩ below)⟩).LeadsLike
      (Path.join ⟨dest⟩ below) := by
  by_cases filled : dest = ""
  · have itself : Path.join ⟨dest⟩ below = below := by
      rw [filled, Path.join, if_neg (by simp [relative]), if_pos (.inl rfl), String.empty_append]
    rw [itself] at ends
    have shown : Index.pagePath dest below = below.text := by
      rw [Index.pagePath, filled, Path.within?_empty ends, Option.getD_some,
        Path.withSlashes_of_not_mem straight]
    rw [itself, shown, itself]
    exact .refl _
  · have spelled : (⟨dest⟩ : Path).text ≠ "" := filled
    obtain ⟨front, _, _, names⟩ := Path.exists_front spelled
    have own := ends.of_append (names _ relative).1
    have plain : '\\' ∉ below.stripped.text.toList :=
      fun member => straight (Path.mem_of_stripped own (by decide) member)
    have shown : Index.pagePath dest (Path.join ⟨dest⟩ below) = below.stripped.text := by
      rw [Index.pagePath, Path.within?_join filled relative own, Option.getD_some,
        Path.withSlashes_of_not_mem plain]
    rw [shown]
    exact Path.leadsLike_stripped filled relative own taken

/-- The path that an index shows for a page leads from the destination root to the page. -/
theorem leadsLike_pagePath (finished : s.convert fs rel = (.ok done, after)) :
    (Path.join ⟨s.dest⟩ ⟨Index.pagePath s.dest done.output⟩).LeadsLike done.output := by
  obtain ⟨d, _, same, _, page⟩ := convert_ok finished
  have written : done.output = Path.join ⟨s.dest⟩ (s.pageBelow rel) := by
    rw [same, outputPath_eq]
  rw [outputPath_eq] at page
  obtain ⟨relative, straight⟩ := s.pageBelow_spelled rel
  rw [written]
  have ends := Path.endsAwake_of_file page
  have taken := (FileSystem.openEntry_eq_ok_iff.1 page).1
  exact leadsLike_shown relative straight ends taken

/-- The paths that an index shows for the pages of a batch lead from the destination root to the
pages. -/
theorem leadsLike_pagePaths (finished : s.convertAll fs rels = (.ok records, after)) :
    ∀ done ∈ records,
      (Path.join ⟨s.dest⟩ ⟨Index.pagePath s.dest done.output⟩).LeadsLike done.output := by
  induction rels generalizing fs records with
  | nil =>
    obtain ⟨rfl, _⟩ : [] = records ∧ fs = after := by simpa [convertAll] using finished
    exact fun done member => absurd member List.not_mem_nil
  | cons rel more ih =>
    obtain ⟨done, written, others, first, behind, rfl⟩ := convertAll_cons finished
    exact List.forall_mem_cons.2 ⟨leadsLike_pagePath first, ih behind⟩

/-- What an index lists for a page: its title, and a path that leads from the destination root to the
page. -/
def Lists (s : Settings) (pair : String × String) (done : Converted) : Prop :=
  pair.2 = done.title ∧ (Path.join ⟨s.dest⟩ ⟨pair.1⟩).LeadsLike done.output

/-- Pages for which the same is listed have the same titles and places. -/
theorem alike_of_lists {pairs : List (String × String)} {pages : List Converted}
    (one : List.Forall₂ s.Lists pairs pages) (two : List.Forall₂ s.Lists pairs records) :
    List.Forall₂ (fun page done => page.title = done.title ∧ page.output.LeadsLike done.output)
      pages records := by
  induction one generalizing records with
  | nil =>
    cases two
    exact .nil
  | cons first _ ih =>
    cases two with
    | cons other rest =>
      have title := first.1.symm.trans other.1
      have place := first.2.symm.trans other.2
      exact .cons ⟨title, place⟩ (ih rest)

/-- The index of a batch that succeeds, once it is written, is the text of the file in its place. It
can be read again, and lists the pages of the batch one by one in their order, each by its title and
by a path that leads from the destination root to the page. Batches with the same settings and the
same index have pages in the same places with the same titles, in the same order. -/
theorem index_records (finished : s.convertAll fs rels = (.ok records, after)) :
    (∀ held path written, s.writeIndex held records = (.ok path, written) →
      path = s.indexPath ∧ written.bytesAt path = .ok (Utf8.encode (s.index records))) ∧
    (∃ pairs, Index.read? (s.index records) = some pairs ∧ List.Forall₂ s.Lists pairs records) ∧
    ∀ start others pages final, s.convertAll start others = (.ok pages, final) →
      s.index pages = s.index records →
      List.Forall₂ (fun page done => page.title = done.title ∧ page.output.LeadsLike done.output)
        pages records := by
  have listed : ∀ {start others pages final}, s.convertAll start others = (.ok pages, final) →
      List.Forall₂ s.Lists
        (pages.map fun own => (Index.pagePath s.dest own.output, own.title)) pages := by
    intro start others pages final success
    rw [List.forall₂_map_left_iff, List.forall₂_same]
    exact fun done member => ⟨rfl, leadsLike_pagePaths success done member⟩
  refine ⟨?_, ⟨_, Index.read?_index s records, listed finished⟩, ?_⟩
  · intro held path written wrote
    unfold writeIndex at wrote
    split at wrote
    · cases wrote
    · next changed put =>
      obtain ⟨rfl, rfl⟩ : s.indexPath = path ∧ changed = written := by simpa using wrote
      exact ⟨rfl, FileSystem.bytesAt_eq_ok_iff.2 (FileSystem.writeNested_ok put).2⟩
  · intro start others pages final success same
    have read := Index.read?_index s pages
    rw [same, Index.read?_index] at read
    have own := listed success
    rw [← Option.some.inj read] at own
    exact alike_of_lists own (listed finished)

/-- A page with a title of special characters, whose path begins with a step that means nothing. -/
theorem index_records_sample :
    ∃ (s : Settings) (fs : FileSystem) (records : List Converted) (pairs : List (String × String)),
      (s.convertAll fs ["./a&b"]).1 = .ok records ∧
      Index.read? (s.index records) = some pairs ∧ List.Forall₂ s.Lists pairs records ∧
      pairs = [("a&b.wiki", "\"<&amp;>\x27")] := by
  let fs : FileSystem := ⟨[(["s"], .directory),
    (["a&b", "s"], .file (Utf8.encode "#title: \"<&amp;>\x27"))], []⟩
  let s : Settings := { src := "s/", dest := "o/", lookup := ⟨"s/"⟩ }
  let records : List Converted := [⟨⟨"s/./a&b"⟩, ⟨"o/./a&b.wiki"⟩, "\"<&amp;>\x27"⟩]
  have success : (s.convertAll fs ["./a&b"]).1 = .ok records := by decide +kernel
  have finished : s.convertAll fs ["./a&b"] = (.ok records, (s.convertAll fs ["./a&b"]).2) := by
    rw [← success]
  obtain ⟨_, ⟨pairs, read, listed⟩, _⟩ := index_records finished
  have shown : Index.read? (s.index records) = some [("a&b.wiki", "\"<&amp;>\x27")] := by
    rw [Index.read?_index]
    decide +kernel
  rw [shown] at read
  exact ⟨s, fs, records, _, success, shown, Option.some.inj read ▸ listed, rfl⟩

end Settings

end WikiPress
