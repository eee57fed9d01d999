import WikiPress.Outline
import WikiPress.Wiki.Run

/-!
# Documents as wiki pages

A page starts with a header that shows the title and the people. Then the blocks follow in the
order of the document: a heading is set in back-quotes between its equality signs below a link
to the top, and what it owns follows it; list items are set in by their level.
-/

namespace WikiPress.Wiki

/-- The extension of a page's file name. -/
def fileExtension : String := "wiki"

/-- A horizontal rule. -/
def ruleLine : String := "----\n"

/-- A person in a page's header. -/
def ofAuthor (author : Author) : String :=
  match author.email with
  | some email => "  *" ++ author.name ++ "* (<font color=\"#080\"> " ++ email ++ " </font>)"
  | none => "  *" ++ author.name ++ "*"

/-- People under a label in a page's header, if there are any. -/
def ofPeople (label : String) (people : List Author) : String :=
  if people = [] then ""
  else " <font color=\"#AAA\" size=\"1\"> * " ++ label ++ " * </font>  " ++
    Text.concat (people.map ofAuthor)

/-- The header of a page. -/
def header (d : Document) : String :=
  "#summary " ++ d.title ++ "\n=Top=\n<p align=\"center\"><font size=6>* " ++ d.title ++
    " *</font></p>\n" ++ ruleLine ++ "<p align=\"right\">" ++ ofPeople "By" d.authors ++
    ofPeople "<br/>Verify By" d.verifiers ++ "</p>\n"

/-- A heading without what it owns. -/
def headingLines (depth : Nat) (title : List Run) : String :=
  let marks := Text.repeated "=" depth
  "\n<p align=\"right\">[#Top]</p>\n" ++ marks ++ "`" ++ titleText title ++ "`" ++ marks ++ "\n"

/-- A list item without what it owns. -/
def itemLine (kind : ListKind) (depth : Nat) (runs : List Run) : String :=
  Text.repeated "  " (depth - 1) ++ "  " ++ kind.bullet ++ " " ++ ofRuns runs ++ "\n"

/-- A row of a table. -/
def rowLine (cells : List (List Run)) : String :=
  "||" ++ Text.concat (cells.map fun runs => ofRuns runs ++ "||") ++ "\n"

mutual

/-- A block of a page. An inclusion that was not expanded leaves an empty paragraph. -/
def ofBlock : Block → String
  | .paragraph runs => ofRuns runs ++ "\n\n"
  | .heading depth title children => headingLines depth title ++ ofBlocks children
  | .list _ items => ofItems items
  | .table rows => Text.concat (rows.map rowLine) ++ "\n"
  | .code _ text => "\x7b\x7b\x7b\n" ++ text ++ "\x7d\x7d\x7d\n\n"
  | .rule => ruleLine
  | .contents range => "<wiki:toc max_depth=\"" ++ toString (range.max + 1) ++ "\"/>\n"
  | .inclusion _ => "\n\n"

/-- The blocks of a page in their order. -/
def ofBlocks : List Block → String
  | [] => ""
  | block :: more => ofBlock block ++ ofBlocks more

/-- The items of a list in their order. -/
def ofItems : List Item → String
  | [] => ""
  | item :: more => ofItem item ++ ofItems more

/-- A list item and what it owns. -/
def ofItem : Item → String
  | ⟨kind, depth, runs, children⟩ => itemLine kind depth runs ++ ofBlocks children

end

/-- The page of a document. -/
def page (d : Document) : String := header d ++ ofBlocks d.blocks

end WikiPress.Wiki
