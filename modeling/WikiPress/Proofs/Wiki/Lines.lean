import WikiPress.Proofs.Inline.Characters
import WikiPress.Wiki.Run

/-!
# Runs stay on one line

Runs are written with the characters that they hold and those of the markup
(`IsWritten.ofRuns`), and the markup for runs has no line feed and no bar of its own. So the runs of
a line without line feeds are written without line feeds (`IsLine.ofRuns`), and what ends a line of
a page is only what stands around its runs. The same holds of the bars that end a cell
(`not_mem_ofRuns`).
-/

namespace WikiPress.Wiki

/-- The text holds no line feed. -/
def IsLine (text : String) : Prop := '\n' ∉ text.toList

instance (text : String) : Decidable (IsLine text) :=
  inferInstanceAs (Decidable ('\n' ∉ text.toList))

namespace IsLine

variable {text : String}

/-- Two texts of one line in a row are one line. -/
theorem append {more : String} (line : IsLine text) (other : IsLine more) :
    IsLine (text ++ more) := by
  unfold IsLine at *
  rw [String.toList_append, List.mem_append]
  exact not_or.2 ⟨line, other⟩

/-- Texts of one line each are one line. -/
theorem concat {texts : List String} (lines : ∀ text ∈ texts, IsLine text) :
    IsLine (Text.concat texts) := by
  rw [IsLine, Text.toList_concat, List.mem_flatMap]
  rintro ⟨text, member, inside⟩
  exact lines text member inside

/-- A line is one line whether it is chosen or not. -/
theorem ite {other : String} (chosen : Bool) (line : IsLine text) (otherwise : IsLine other) :
    IsLine (if chosen then text else other) := by
  split
  · exact line
  · exact otherwise

/-- Trimming leaves one line. -/
theorem trimmed (line : IsLine text) : IsLine (Text.trimmed text) := by
  unfold IsLine
  rw [Text.toList_trimmed]
  exact fun member => line (Text.trim_subset _ member)

end IsLine

/-- The characters that the markup for runs is written with. -/
def markupCharacters : List Char := " `\x7b\x7d<>/biufontcolr=\"^,~[]".toList

/-- The text is written with the characters held and those of the markup. -/
def IsWritten (held : List Char) (text : String) : Prop := text.toList ⊆ held ++ markupCharacters

namespace IsWritten

variable {held : List Char} {text : String}

/-- A text whose characters are held is written with them. -/
theorem of_subset (own : text.toList ⊆ held) : IsWritten held text :=
  List.subset_append_of_subset_left _ own

/-- A text of the markup is written with whatever is held. -/
theorem of_markup (own : text.toList.all (· ∈ markupCharacters) = true) : IsWritten held text := by
  refine List.subset_append_of_subset_right _ fun c member => ?_
  simpa using List.all_eq_true.1 own c member

/-- Two written texts in a row. -/
theorem append {more : String} (front : IsWritten held text) (back : IsWritten held more) :
    IsWritten held (text ++ more) := by
  unfold IsWritten at *
  rw [String.toList_append]
  exact List.append_subset.2 ⟨front, back⟩

/-- Written texts one after another. -/
theorem concat {texts : List String} (written : ∀ text ∈ texts, IsWritten held text) :
    IsWritten held (Text.concat texts) := by
  rw [IsWritten, Text.toList_concat]
  intro c member
  obtain ⟨text, own, inside⟩ := List.mem_flatMap.1 member
  exact written text own inside

/-- A written text, whether it is chosen or not. -/
theorem ite {other : String} (chosen : Bool) (written : IsWritten held text)
    (otherwise : IsWritten held other) : IsWritten held (if chosen then text else other) := by
  split
  · exact written
  · exact otherwise

/-- Trimming leaves what is written. -/
theorem trimmed (written : IsWritten held text) : IsWritten held (Text.trimmed text) := by
  unfold IsWritten
  rw [Text.toList_trimmed]
  exact List.Subset.trans (Text.trim_subset _) written

/-- A text in which no token works. -/
theorem neutral (written : IsWritten held text) : IsWritten held (neutral text) := by
  unfold Wiki.neutral
  split
  · exact ((of_markup (by decide)).append written).append (of_markup (by decide))
  · split
    · exact ((of_markup (by decide)).append written).append (of_markup (by decide))
    · exact written

/-- A text between marks. -/
theorem wrap {mark : String} (marked : IsWritten held mark) (written : IsWritten held text) :
    IsWritten held (wrap mark text) := (marked.append written).append marked

/-- A text in an element. -/
theorem element {name : String} (named : IsWritten held name) (written : IsWritten held text) :
    IsWritten held (element name text) := by
  have opened : IsWritten held ("<" ++ name ++ ">") :=
    ((of_markup (by decide)).append named).append (of_markup (by decide))
  exact (((opened.append written).append (of_markup (by decide))).append named).append
    (of_markup (by decide))

/-- A text under a style. -/
theorem styled {style : Style} (written : IsWritten held text)
    (color : charactersOf style.color ⊆ held) : IsWritten held (styled style text) := by
  have bold := ite style.bold
    (element (of_markup (by decide) : IsWritten held "b") written) written
  have italic := ite style.italic (element (of_markup (by decide) : IsWritten held "i") bold) bold
  have underline := ite style.underline
    (element (of_markup (by decide) : IsWritten held "u") italic) italic
  have sup := ite style.sup (wrap (of_markup (by decide) : IsWritten held "^") underline) underline
  have sub := ite style.sub (wrap (of_markup (by decide) : IsWritten held ",,") sup) sup
  have strike := ite style.strike (wrap (of_markup (by decide) : IsWritten held "~~") sub) sub
  unfold Wiki.styled
  cases given : style.color with
  | none => exact strike
  | some name =>
    rw [given] at color
    have opened : IsWritten held ("<font color=\"" ++ name ++ "\">") :=
      ((of_markup (by decide)).append (of_subset color)).append (of_markup (by decide))
    exact (opened.append strike).append (of_markup (by decide))

/-- A run is written with the characters that it holds. -/
theorem ofRun {run : Run} (own : run.characters ⊆ held) : IsWritten held (ofRun run) := by
  simp only [Run.characters, List.append_subset] at own
  obtain ⟨⟨⟨own, target⟩, source⟩, color⟩ := own
  have text : IsWritten held (Wiki.neutral (run.text ++ " ")) :=
    ((of_subset own).append (of_markup (by decide))).neutral
  have link : ∀ href label : String, IsWritten held href → IsWritten held label →
      IsWritten held (Wiki.link href label) := fun href label named shown =>
    ((((of_markup (by decide)).append named).append (of_markup (by decide))).append shown).append
      (of_markup (by decide))
  unfold Wiki.ofRun
  split
  · next src href image linked =>
    rw [image] at source
    rw [linked] at target
    exact link href src (of_subset target) (of_subset source)
  · next src image _ =>
    rw [image] at source
    exact of_subset source
  · next href _ linked =>
    rw [linked] at target
    exact link href _ (of_subset target) text
  · split
    · next style given =>
      rw [given] at color
      exact text.styled color
    · exact text

/-- The runs of a line are written with the characters of the line. -/
theorem ofRuns (line : List Char) : IsWritten line (ofRuns (runsOf line)) := by
  refine concat ?_
  rw [List.forall_mem_map]
  exact fun run member => (ofRun (characters_runsOf member)).trimmed

end IsWritten

/-- The runs of a line are written without a character that neither the line nor the markup has. -/
theorem not_mem_ofRuns {c : Char} {line : List Char} (absent : c ∉ line)
    (foreign : c ∉ markupCharacters) : c ∉ (ofRuns (runsOf line)).toList := fun member =>
  (List.mem_append.1 (IsWritten.ofRuns line member)).elim absent foreign

/-- The runs of a line without line feeds are written on one line. -/
theorem IsLine.ofRuns {line : List Char} (single : '\n' ∉ line) :
    IsLine (ofRuns (runsOf line)) := not_mem_ofRuns single (by decide)

end WikiPress.Wiki
