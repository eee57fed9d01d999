import WikiPress.Command.Run
import WikiPress.Proofs.Batch.Pages

/-!
# Batches that fail

A conversion reads and expands all that it needs before it writes (`convert_error`). So a batch that
fails has done a front part of its conversions, one after the other, and the next one was refused
with the batch's error: no file was changed for it or for those behind it, and unless its page
could not be written there is no new directory either (`convertAll_fails`). The command for batches
then prints nothing and writes no index. A page may still stand in the place of the index, where an
earlier conversion has written it (`convert_overwrites_index`).
-/

namespace WikiPress

namespace Settings

/-- Conversions of relative paths one after the other that are all done, each in the files that the
one before has left. -/
inductive Converts (s : Settings) : FileSystem → List String → List Converted → FileSystem → Prop
  | none (fs : FileSystem) : Converts s fs [] [] fs
  | next {fs written after : FileSystem} {rel : String} {more : List String} {done : Converted}
      {others : List Converted} (first : s.convert fs rel = (.ok done, written))
      (behind : Converts s written more others after) :
      Converts s fs (rel :: more) (done :: others) after

variable {s : Settings} {fs middle after : FileSystem} {rel : String} {front rels : List String}
  {records : List Converted} {e : ConversionError}

/-- Conversions one after the other are a batch that succeeds. -/
theorem converts_iff : s.Converts fs rels records after ↔
    s.convertAll fs rels = (.ok records, after) := by
  constructor
  · intro converts
    induction converts with
    | none fs => rfl
    | next first _ ih => simp only [convertAll, first, ih]
  · intro finished
    induction rels generalizing fs records with
    | nil =>
      obtain ⟨rfl, rfl⟩ : [] = records ∧ fs = after := by simpa [convertAll] using finished
      exact .none fs
    | cons rel more ih =>
      obtain ⟨done, written, others, first, behind, rfl⟩ := convertAll_cons finished
      exact .next first (ih behind)

/-- A conversion that fails has no document and has done nothing, or it could not write the page. -/
theorem convert_error (failed : s.convert fs rel = (.error e, after)) :
    s.document fs rel = .error e ∧ after = fs ∨
      ∃ cause, e = .write (s.outputPath rel) cause ∧ fs.Growth [] after := by
  unfold convert at failed
  split at failed
  · next cause missing =>
    obtain ⟨rfl, rfl⟩ : cause = e ∧ fs = after := by simpa using failed
    exact .inl ⟨missing, rfl⟩
  · simp only at failed
    split at failed
    · next cause changed refused =>
      obtain ⟨same, rfl⟩ : .write (s.outputPath rel) cause = e ∧ changed = after := by
        simpa using failed
      exact .inr ⟨cause, same.symm, FileSystem.growth_of_writeNested_error refused⟩
    · cases failed

/-- A batch goes on behind conversions that are done. -/
theorem convertAll_append (converts : s.Converts fs front records middle) (more : List String) :
    s.convertAll fs (front ++ more) =
      ((s.convertAll middle more).1.map (records ++ ·), (s.convertAll middle more).2) := by
  induction converts with
  | none fs =>
    rw [List.nil_append]
    rcases s.convertAll fs more with ⟨_ | _, _⟩ <;> rfl
  | @next _ _ after _ _ _ _ first _ ih =>
    simp only [List.cons_append, convertAll, first, ih]
    rcases s.convertAll after more with ⟨_ | _, _⟩ <;> rfl

/-- A batch that fails has done some conversions and failed in the next one. -/
theorem convertAll_error (failed : s.convertAll fs rels = (.error e, after)) :
    ∃ front rel rest records middle, rels = front ++ rel :: rest ∧
      s.Converts fs front records middle ∧ s.convert middle rel = (.error e, after) := by
  induction rels generalizing fs with
  | nil => simp [convertAll] at failed
  | cons own more ih =>
    rw [convertAll] at failed
    split at failed
    · next cause changed refused =>
      obtain ⟨rfl, rfl⟩ : cause = e ∧ changed = after := by simpa using failed
      exact ⟨[], own, more, [], fs, rfl, .none fs, refused⟩
    · next done written first =>
      split at failed
      · next cause changed behind =>
        obtain ⟨rfl, rfl⟩ : cause = e ∧ changed = after := by simpa using failed
        obtain ⟨front, rel, rest, records, middle, rfl, converts, refused⟩ := ih behind
        exact ⟨own :: front, rel, rest, _, middle, rfl, .next first converts, refused⟩
      · cases failed

/-- The files that a batch leaves where it fails behind some conversions have grown by the pages of
those. -/
theorem growth_convertAll_error (converts : s.Converts fs front records middle)
    (refused : s.convert middle rel = (.error e, after)) :
    fs.Growth (s.pagePlaces fs front) after := by
  obtain ⟨_, growth⟩ := growth_convertAll (converts_iff.1 converts)
  obtain ⟨_, rfl⟩ | ⟨_, _, rest⟩ := convert_error refused
  · exact growth
  · simpa using growth.trans rest

/-- A batch that fails has done the conversions of a front part of its relative paths one after the
other, and its error is that of the next one in the files which those have left. The relative paths
behind it do not matter, no file has changed but the pages of the front part, and unless a page
could not be written the files are those which the front part has left. The command for the batch,
however configuration files are read, prints nothing, ends with status one, and leaves the file in
the place of the index as it was if no page of the front part was written to that place. -/
theorem convertAll_fails (failed : s.convertAll fs rels = (.error e, after)) :
    ∃ front rel rest records middle, rels = front ++ rel :: rest ∧
      s.Converts fs front records middle ∧ s.convert middle rel = (.error e, after) ∧
      (∀ other, s.convertAll fs (front ++ rel :: other) = (.error e, after)) ∧
      fs.Growth (s.pagePlaces fs front) after ∧
      ((∀ path cause, e ≠ .write path cause) → after = middle) ∧
      ∀ parse config src dest index arguments,
        ((Command.findConfig parse fs config).bind fun config =>
          Command.settings config src dest index arguments) = .ok s →
        let outcome := Command.runWith parse fs (.convert config src dest index rels arguments)
        outcome.output = "" ∧ outcome.failure = some e.chain ∧ outcome.status = 1 ∧
          outcome.files = after ∧
          (fs.place s.indexPath ∉ s.pagePlaces fs front → ∀ bytes,
            outcome.files.find? (fs.place s.indexPath) = some (.file bytes) ↔
              fs.find? (fs.place s.indexPath) = some (.file bytes)) := by
  obtain ⟨front, rel, rest, records, middle, split, converts, refused⟩ := convertAll_error failed
  have growth := growth_convertAll_error converts refused
  refine ⟨front, rel, rest, records, middle, split, converts, refused, ?_, growth, ?_, ?_⟩
  · intro other
    simp only [convertAll_append converts, convertAll, refused, Except.map]
  · intro readable
    obtain ⟨_, same⟩ | ⟨cause, unwritten, _⟩ := convert_error refused
    · exact same
    · exact absurd unwritten (readable _ cause)
  · intro parse config src dest index arguments given
    have ran : Command.runWith parse fs (.convert config src dest index rels arguments) =
        { failure := some e.chain, files := after } := by
      simp only [Command.runWith, given, Command.runBatch, failed]
    simp only [ran, Outcome.status, Option.isSome_some, if_true, true_and]
    exact fun apart bytes => growth.file _ apart bytes

/-- A source is converted and the next one is missing: there are only the pages of the first and
the old index. -/
theorem convertAll_fails_sample :
    ∃ (fs : FileSystem) (outcome : Outcome),
      Command.run fs (.convert none (some "s") (some "o") none ["a", "m", "b"] []) = outcome ∧
      outcome.output = "" ∧ outcome.status = 1 ∧
      outcome.files.find? ["index.xml", "o"] = some (.file (Utf8.encode "x")) := by
  let fs : FileSystem := ⟨[(["s"], .directory), (["a", "s"], .file (Utf8.encode "---")),
    (["b", "s"], .file (Utf8.encode "---")), (["o"], .directory),
    (["index.xml", "o"], .file (Utf8.encode "x"))], []⟩
  let s : Settings := { src := "s/", dest := "o/", lookup := ⟨"s/"⟩ }
  let rels := ["a", "m", "b"]
  have given : ((Command.findConfig Config.ofText? fs none).bind fun config =>
      Command.settings config (some "s") (some "o") none []) = .ok s := by decide +kernel
  have cause : (s.convertAll fs rels).1 = .error (.read ⟨"s/m"⟩ .notFound) := by decide +kernel
  have failed : s.convertAll fs rels =
      (.error (.read ⟨"s/m"⟩ .notFound), (s.convertAll fs rels).2) := by
    rw [← cause]
  obtain ⟨front, rel, rest, _, _, split, _, _, _, _, _, command⟩ := convertAll_fails failed
  obtain ⟨silent, _, status, _, kept⟩ := command _ none (some "s") (some "o") none [] given
  have spot : fs.place s.indexPath = ["index.xml", "o"] := by decide +kernel
  have apart : fs.place s.indexPath ∉ s.pagePlaces fs front := by
    have all : fs.place s.indexPath ∉ s.pagePlaces fs rels := by decide +kernel
    intro member
    obtain ⟨other, listed, same⟩ := List.mem_map.1 member
    refine all (List.mem_map.2 ⟨other, ?_, same⟩)
    rw [split]
    exact List.mem_append_left _ listed
  rw [spot] at kept apart
  exact ⟨fs, _, rfl, silent, status, (kept apart _).2 (by decide +kernel)⟩

/-- A batch fails behind a conversion that has written its page to the place of the index. -/
theorem convert_overwrites_index :
    ∃ (fs : FileSystem) (s : Settings) (e : ConversionError) (after : FileSystem),
      ((Command.findConfig Config.ofText? fs none).bind fun config =>
        Command.settings config (some "s") (some "o") (some "a.wiki") []) = .ok s ∧
      s.convertAll fs ["a", "m"] = (.error e, after) ∧
      fs.bytesAt s.indexPath = .ok (Utf8.encode "x") ∧
      (Command.run fs (.convert none (some "s") (some "o") (some "a.wiki") ["a", "m"] [])).files.bytesAt
        s.indexPath ≠ .ok (Utf8.encode "x") := by
  let fs : FileSystem := ⟨[(["s"], .directory), (["a", "s"], .file (Utf8.encode "1")),
    (["o"], .directory), (["a.wiki", "o"], .file (Utf8.encode "x"))], []⟩
  let s : Settings :=
    { src := "s/", dest := "o/", indexName := some "a.wiki", lookup := ⟨"s/"⟩ }
  have cause : (s.convertAll fs ["a", "m"]).1 = .error (.read ⟨"s/m"⟩ .notFound) := by
    decide +kernel
  have failed : s.convertAll fs ["a", "m"] =
      (.error (.read ⟨"s/m"⟩ .notFound), (s.convertAll fs ["a", "m"]).2) := by
    rw [← cause]
  exact ⟨fs, s, _, _, by decide +kernel, failed, by decide +kernel, by decide +kernel⟩

end Settings

end WikiPress
