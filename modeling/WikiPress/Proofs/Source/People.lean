import WikiPress.Proofs.Source.Tables

/-!
# People in header lines

A person that a header line names has a filled name without an opening bracket, and a filled address
or none (`Author.IsProper`); every such person is named by some value, the written form of the
person in particular (`Author.ofValue?_written`). So header lines of authors and verifiers, in
whatever order they stand, give these people back, each kind in its order, in front of those that
the lines behind them give (`Document.people_read_back`).
-/

namespace WikiPress

/-- A text that is not empty and has no white space at its ends. -/
structure Text.IsFilled (text : List Char) : Prop where
  nonempty : text ≠ []
  front : ∀ c ∈ text.head?, isSpace c = false
  back : ∀ c ∈ text.getLast?, isSpace c = false

/-- A text is filled where something is left when it is trimmed, and that is all of it. -/
theorem Text.isFilled_iff {text : List Char} : IsFilled text ↔ text ≠ [] ∧ trim text = text := by
  constructor
  · exact fun filled => ⟨filled.nonempty, trim_eq_self filled.front filled.back⟩
  · rintro ⟨nonempty, trimmed⟩
    have stops (rest : List Char) : ∀ c ∈ (rest.dropWhile isSpace).head?, isSpace c = false := by
      intro c first
      have stopped := List.head?_dropWhile_not isSpace rest
      rw [Option.mem_def.1 first] at stopped
      simpa using stopped
    refine ⟨nonempty, ?_, ?_⟩
    · rw [← trimmed, ← trimStart_trimEnd]
      exact stops _
    · rw [← trimmed, trim, trimEnd, List.getLast?_reverse]
      exact stops _

/-- What is left of a text when it is trimmed is filled. -/
theorem Text.isFilled_trim {text : List Char} (nonempty : trim text ≠ []) : IsFilled (trim text) :=
  isFilled_iff.2 ⟨nonempty, trim_trim text⟩

namespace Author

/-- A person that a header line can name. -/
structure IsProper (author : Author) : Prop where
  named : Text.IsFilled author.name.toList
  bracketless : '<' ∉ author.name.toList
  address : ∀ email ∈ author.email, Text.IsFilled email.toList

/-- A person that a header line can name, with texts that fit on the line. -/
structure IsLined (author : Author) : Prop extends IsProper author where
  single_name : '\n' ∉ author.name.toList
  single_email : ∀ email ∈ author.email, '\n' ∉ email.toList

/-- A trimmed value names a proper person, if any. -/
theorem isProper_of_ofValue? {value : List Char} {author : Author}
    (trimmed : Text.trim value = value) (found : ofValue? value = some author) :
    author.IsProper := by
  unfold ofValue? at found
  split at found
  · next uncut =>
    rw [Option.ite_none_left_eq_some] at found
    obtain ⟨nonempty, made⟩ := found
    obtain rfl := Option.some.inj made
    refine ⟨?_, ?_, by simp⟩
    · rw [String.toList_ofList]
      exact Text.isFilled_iff.2 ⟨nonempty, trimmed⟩
    · rw [String.toList_ofList]
      exact Text.cut_eq_none_iff.1 uncut
  · next name rest cut =>
    split at found
    · cases found
    · next address _ =>
      simp only at found
      rw [Option.ite_none_left_eq_some] at found
      obtain ⟨nonempty, made⟩ := found
      obtain rfl := Option.some.inj made
      refine ⟨?_, ?_, ?_⟩
      · rw [String.toList_ofList]
        exact Text.isFilled_trim nonempty
      · rw [String.toList_ofList]
        exact fun inside => Text.not_mem_of_cut cut (Text.trim_subset name inside)
      · intro email member
        rw [Option.mem_def, Option.ite_none_left_eq_some] at member
        obtain ⟨some, made⟩ := member
        obtain rfl := Option.some.inj made
        rw [String.toList_ofList]
        exact Text.isFilled_trim some

variable {author : Author}

/-- The characters of a person with an address, as they are written. -/
theorem toList_written_some {email : String} (given : author.email = some email) :
    author.written.toList = author.name.toList ++ ' ' :: '<' :: (email.toList ++ ['>']) := by
  simp only [written, given, String.toList_append, List.append_assoc]
  rfl

/-- The characters of a person without an address, as they are written. -/
theorem toList_written_none (missing : author.email = none) :
    author.written.toList = author.name.toList := by
  simp only [written, missing]

/-- The written form of a proper person names the person. -/
theorem ofValue?_written (proper : author.IsProper) :
    ofValue? author.written.toList = some author := by
  have trimmed := (Text.isFilled_iff.1 proper.named).2
  have nonempty := proper.named.nonempty
  cases given : author.email with
  | none =>
    rw [toList_written_none given, ofValue?, Text.cut_eq_none_iff.2 proper.bracketless]
    simp only [if_neg nonempty, String.ofList_toList, ← given]
  | some email =>
    have filled := Text.isFilled_iff.1 (proper.address email given)
    have absent : '<' ∉ author.name.toList ++ [' '] := by
      simpa using proper.bracketless
    have cut := Text.cut_append absent (email.toList ++ ['>'])
    rw [List.append_assoc] at cut
    have bare : Text.trim (author.name.toList ++ [' ']) = author.name.toList := by
      rw [Text.trim_concat (by decide), trimmed]
    rw [toList_written_some given, ofValue?]
    simp only [List.singleton_append] at cut
    simp only [cut, Text.before?_eq_some_iff.2 rfl, bare, filled.2, if_neg nonempty,
      if_neg filled.1, String.ofList_toList, ← given]

/-- The written form of a proper person is filled. -/
theorem isFilled_written (proper : author.IsProper) : Text.IsFilled author.written.toList := by
  cases given : author.email with
  | none =>
    rw [toList_written_none given]
    exact proper.named
  | some email =>
    rw [toList_written_some given]
    refine ⟨by simp, ?_, ?_⟩
    · rw [List.head?_append_of_ne_nil _ proper.named.nonempty]
      exact proper.named.front
    · simp [List.getLast?_append, List.getLast?_cons, Text.isSpace]

/-- The written form of a person stands on one line where the texts of the person do. -/
theorem single_written (lined : author.IsLined) : '\n' ∉ author.written.toList := by
  have name := lined.single_name
  cases given : author.email with
  | none => rwa [toList_written_none given]
  | some email =>
    have address := lined.single_email email given
    rw [toList_written_some given]
    simp [name, address]

end Author

/-- What a header line names a person as. -/
inductive Role where
  | author
  | verifier
  deriving DecidableEq

namespace Role

/-- The name of the directive. -/
def name : Role → List Char
  | author => "author".toList
  | verifier => "verifier".toList

/-- What the line gives to the document. -/
def part : Role → Author → Part
  | author => .author
  | verifier => .verifier

end Role

/-- The header line of a person. -/
def Author.headerLine (role : Role) (author : Author) : List Char :=
  '#' :: (role.name ++ ':' :: ' ' :: author.written.toList)

/-- A number sign, letters and a colon make a directive of the trimmed text behind them. -/
theorem LineKind.ofLine_directive {line : Line} {name value : List Char} (named : name ≠ [])
    (letters : name.all Char.isAlpha = true) (text : line.trimmed = '#' :: (name ++ ':' :: value)) :
    ofLine line = .directive name (Text.trim value) := by
  have shown : line.isBlank = false := by
    rw [← Bool.not_eq_true]
    intro blank
    rw [trimmed_of_isBlank blank] at text
    cases text
  have absent : ':' ∉ name := fun inside =>
    absurd (List.all_eq_true.1 letters ':' inside) (by decide)
  have unfenced : Text.after? "```" ('#' :: (name ++ ':' :: value)) = none := rfl
  have unruled : isRule ('#' :: (name ++ ':' :: value)) = false := by simp [isRule]
  have uninserted : Text.after? "@>include:" ('#' :: (name ++ ':' :: value)) = none := rfl
  have marked : marked? ('#' :: (name ++ ':' :: value)) =
      some (.directive name (Text.trim value)) := by
    rw [marked?, directive?, Text.cut_append absent]
    simp only [if_pos (And.intro named letters), Option.some_or]
  rw [ofLine, shown, text]
  simp only [Bool.false_eq_true, if_false, ofTrimmed, unfenced, unruled, uninserted, marked]

namespace Part

variable {root : Path} {role : Role} {author : Author} {line : Line}

/-- A directive of a role whose value names a person gives the person. -/
theorem ofDirective_role {value : List Char} (found : Author.ofValue? value = some author)
    (number : Nat) : ofDirective role.name value number = .ok (role.part author) := by
  cases role with
  | author =>
    have own : String.ofList Role.author.name = "author" := String.ofList_toList
    simp only [ofDirective, own, found]
    rfl
  | verifier =>
    have own : String.ofList Role.verifier.name = "verifier" := String.ofList_toList
    simp only [ofDirective, own, found]
    rfl

/-- The header line of a proper person gives the person, wherever it stands. -/
theorem read_person (proper : author.IsProper) (text : line.trimmed = author.headerLine role)
    (more : List Line) : read root line more = .ok ([role.part author], more) := by
  have named : role.name ≠ [] := by cases role <;> decide
  have letters : role.name.all Char.isAlpha = true := by cases role <;> decide
  have value : Text.trim (' ' :: author.written.toList) = author.written.toList := by
    rw [Text.trim, Text.trimStart_cons_space (by decide), ← Text.trim]
    exact (Text.isFilled_iff.1 (Author.isFilled_written proper)).2
  have kind := LineKind.ofLine_directive named letters text
  rw [value] at kind
  have made : ofDirective role.name author.written.toList line.number = .ok (role.part author) :=
    ofDirective_role (Author.ofValue?_written proper) line.number
  simp only [read, kind, made, bind, Except.bind]

/-- Header lines of proper people give these people in front of what the lines behind give. -/
theorem ofLines_people (root : Path) {people : List (Role × Author)}
    (proper : ∀ person ∈ people, person.2.IsProper) {first : List Line}
    (texts : first.map Line.trimmed = people.map fun person => person.2.headerLine person.1)
    (behind : List Line) : ofLines root (first ++ behind) =
      (ofLines root behind).map (people.map (fun person => person.1.part person.2) ++ ·) := by
  induction people generalizing first with
  | nil =>
    obtain rfl := List.map_eq_nil_iff.1 texts
    rw [List.nil_append]
    cases ofLines root behind <;> rfl
  | cons person others ih =>
    obtain ⟨line, more, rfl, text, rest⟩ := List.map_eq_cons_iff.1 texts
    rw [List.forall_mem_cons] at proper
    rw [List.cons_append, ofLines_cons (read_person proper.1 text _), ih proper.2 rest]
    cases ofLines root behind <;> rfl

end Part

namespace Document

/-- The people of a role, in their order. -/
def peopleIn (role : Role) (people : List (Role × Author)) : List Author :=
  (people.filter (·.1 = role)).map (·.2)

/-- The header lines of people. -/
def headerLines (people : List (Role × Author)) : List (List Char) :=
  people.map fun person => person.2.headerLine person.1

/-- A document with more people in front of its own. -/
def withPeople (people : List (Role × Author)) (d : Document) : Document :=
  { d with
    authors := peopleIn .author people ++ d.authors
    verifiers := peopleIn .verifier people ++ d.verifiers }

/-- The entries of people add nothing but people to a document. -/
theorem ofParts_people (people : List (Role × Author)) (parts : List Part) :
    ofParts (people.map (fun person => person.1.part person.2) ++ parts) =
      withPeople people (ofParts parts) := by
  induction people with
  | nil => rfl
  | cons person others ih =>
    obtain ⟨role, author⟩ := person
    have step : ofParts (role.part author ::
        (others.map (fun person => person.1.part person.2) ++ parts)) =
          withPeople [(role, author)] (ofParts
            (others.map (fun person => person.1.part person.2) ++ parts)) := by
      cases role <;> rfl
    rw [List.map_cons, List.cons_append, step, ih]
    cases role <;> rfl

variable {people : List (Role × Author)}

/-- Header lines of people stand on one line each, and are trimmed. -/
theorem headerLines_lined (lined : ∀ person ∈ people, person.2.IsLined) :
    ∀ text ∈ headerLines people, '\n' ∉ text ∧ Text.trim text = text := by
  rw [headerLines, List.forall_mem_map]
  intro person member
  have single := Author.single_written (lined person member)
  have filled := Author.isFilled_written (lined person member).toIsProper
  have unbroken : '\n' ∉ person.1.name := by cases person.1 <;> decide
  refine ⟨?_, Text.trim_eq_self ?_ ?_⟩
  · simp [Author.headerLine, single, unbroken]
  · simp [Author.headerLine, Text.isSpace]
  · have split : person.2.headerLine person.1 =
        ('#' :: (person.1.name ++ [':', ' '])) ++ person.2.written.toList := by
      simp [Author.headerLine]
    rw [split, List.getLast?_append_of_ne_nil _ filled.nonempty]
    exact filled.back

/-- The lines of header lines are these, whether or not a line feed stands behind the last one. -/
theorem map_trimmed_headerLines (lined : ∀ person ∈ people, person.2.IsLined) {first : List Line}
    (own : first.map Line.text = (headerLines people).map Line.withoutReturn) :
    first.map Line.trimmed = headerLines people := by
  calc first.map Line.trimmed = (first.map Line.text).map Text.trim := by
        rw [List.map_map]
        rfl
    _ = (headerLines people).map Text.trim := by
        rw [own, List.map_map]
        exact List.map_congr_left fun text _ => Text.trim_withoutReturn text
    _ = (headerLines people).map id :=
        List.map_congr_left fun text member => (headerLines_lined lined text member).2
    _ = headerLines people := List.map_id _

/-- The header lines of people in front of a source add the people to its document. -/
theorem parse_headerLines (root : Path) (lined : ∀ person ∈ people, person.2.IsLined)
    (rest : String) :
    parse root (String.ofList ((headerLines people).flatMap (· ++ ['\n']) ++ rest.toList)) =
      ((parse root rest).mapError (ParseError.moved people.length)).map (withPeople people) := by
  have single := fun text member => (headerLines_lined lined text member).1
  obtain ⟨first, own, whole⟩ := Line.exists_linesFrom_ended single 0 rest.toList
  have count : (headerLines people).length = people.length := List.length_map _
  have behind : Line.linesFrom (0 + people.length) rest.toList =
      (Line.linesFrom 0 rest.toList).map (Line.moved people.length) :=
    Line.linesFrom_moved rest.toList 0 people.length
  rw [parse, String.toList_ofList, Line.linesOf, whole, count, behind,
    Part.ofLines_people root (fun person member => (lined person member).toIsProper)
      (map_trimmed_headerLines lined own), ofLines_moved, parse, Line.linesOf]
  cases Part.ofLines root (Line.linesFrom 0 rest.toList) with
  | error e => rfl
  | ok parts => exact congrArg Except.ok (ofParts_people people parts)

/-- A trimmed value of a header line names exactly the people with a filled name without an opening
bracket and with a filled address or none. The line that holds the written form of such a person is
read as that person, wherever it stands and however it is indented or ended. Lines that hold people,
authors and verifiers in any order, are read as the authors in their order and the verifiers in
theirs: all of the document if there is nothing else, and otherwise in front of what follows. -/
theorem people_read_back :
    (∀ author : Author,
      (∃ value, Text.trim value = value ∧ Author.ofValue? value = some author) ↔
        author.IsProper) ∧
    (∀ (root : Path) (role : Role) (author : Author) (line : Line) (more : List Line),
      author.IsProper → line.trimmed = author.headerLine role →
        Part.read root line more = .ok ([role.part author], more)) ∧
    ∀ (root : Path) (people : List (Role × Author)), (∀ person ∈ people, person.2.IsLined) →
      parse root (String.ofList (Text.joined '\n' (headerLines people))) =
        .ok { authors := peopleIn .author people, verifiers := peopleIn .verifier people } ∧
      ∀ rest : String,
        parse root (String.ofList ((headerLines people).flatMap (· ++ ['\n']) ++ rest.toList)) =
          ((parse root rest).mapError (ParseError.moved people.length)).map
            (withPeople people) := by
  refine ⟨fun author => ⟨?_, ?_⟩, ?_, ?_⟩
  · rintro ⟨value, trimmed, found⟩
    exact Author.isProper_of_ofValue? trimmed found
  · intro proper
    exact ⟨author.written.toList, (Text.isFilled_iff.1 (Author.isFilled_written proper)).2,
      Author.ofValue?_written proper⟩
  · intro root role author line more proper text
    exact Part.read_person proper text more
  · intro root people lined
    refine ⟨?_, parse_headerLines root lined⟩
    have single := fun text member => (headerLines_lined lined text member).1
    have filled : ∀ text ∈ headerLines people, text ≠ [] := by
      rw [headerLines, List.forall_mem_map]
      exact fun person _ => List.cons_ne_nil _ _
    have own := Line.map_text_linesFrom_joined single filled 0
    have whole := Part.ofLines_people root
      (fun person member => (lined person member).toIsProper) (map_trimmed_headerLines lined own) []
    rw [List.append_nil, Part.ofLines] at whole
    rw [parse, String.toList_ofList, Line.linesOf, whole]
    refine congrArg Except.ok ((ofParts_people people []).trans ?_)
    simp only [withPeople, ofParts, List.filterMap_nil, List.append_nil]
    rfl

/-- A verifier whose name has a closing bracket and a colon stands in front of an author whose
address has brackets of its own, and a rule follows. -/
theorem people_read_back_sample :
    let verifier : Author := ⟨"B > c: d", none⟩
    let author : Author := ⟨"A", some "<a>b>"⟩
    let people : List (Role × Author) := [(.verifier, verifier), (.author, author)]
    let line : Line := ⟨"  #author: A <<a>b>>\t\r".toList, 7⟩
    (∀ person ∈ people, person.2.IsLined) ∧ author.IsProper ∧
      line.trimmed = author.headerLine .author ∧
      Part.read ⟨""⟩ line [] = .ok ([.author author], []) ∧
      parse ⟨""⟩ (String.ofList (Text.joined '\n' (headerLines people))) =
        .ok { authors := [author], verifiers := [verifier] } ∧
      parse ⟨""⟩ (String.ofList ((headerLines people).flatMap (· ++ ['\n']) ++ "---".toList)) =
        .ok { authors := [author], verifiers := [verifier], blocks := [.rule] } := by
  intro verifier author people line
  have lined : ∀ person ∈ people, person.2.IsLined := by
    refine List.forall_mem_cons.2 ⟨?_, List.forall_mem_singleton.2 ?_⟩
    · exact ⟨⟨Text.isFilled_iff.2 (by decide), by decide, by simp [verifier]⟩, by decide,
        by simp [verifier]⟩
    · refine ⟨⟨Text.isFilled_iff.2 (by decide), by decide, ?_⟩, by decide, ?_⟩
      · rintro email ⟨⟩
        exact Text.isFilled_iff.2 (by decide)
      · rintro email ⟨⟩
        decide
  have proper : author.IsProper := (lined (.author, author) (by simp [people])).toIsProper
  have text : line.trimmed = author.headerLine .author := by decide
  obtain ⟨_, single, whole⟩ := people_read_back
  obtain ⟨alone, front⟩ := whole ⟨""⟩ people lined
  have rule : parse ⟨""⟩ "---" = .ok { blocks := [.rule] } := by cbv
  refine ⟨lined, proper, text, single ⟨""⟩ .author author line [] proper text, alone, ?_⟩
  rw [front "---", rule]
  rfl

end Document

end WikiPress
