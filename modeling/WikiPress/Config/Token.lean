import WikiPress.Text.Split

/-!
# Tokens of configuration files

A configuration file is a sequence of bare words, quoted texts, punctuation and line ends; blanks
and comments between them mean nothing. Texts in double quotes have escapes, texts in single
quotes have none, and no text or comment holds a control character other than a tab. Three quotes in
a row open a text that may go over several lines; it ends at the next three.
-/

namespace WikiPress.Config

/-- A token. -/
inductive Token where
  | bare (text : List Char)
  | quoted (text : List Char)
  /-- A text that may go over several lines. -/
  | lined (text : List Char)
  | equals
  | comma
  | opening
  | closing
  | lineEnd
  deriving DecidableEq

/-- A character that may stand in a text or a comment. -/
def isPlain (c : Char) : Bool := (32 ≤ c.toNat && c.toNat ≠ 127) || c = '\t'

/-- A character of a bare word. -/
def isBare (c : Char) : Bool := c.isAlphanum || c = '_' || c = '-'

/-- The value of a hexadecimal digit. -/
def hexValue? (c : Char) : Option Nat :=
  if c.isDigit then some (c.toNat - 48)
  else if 97 ≤ c.toNat ∧ c.toNat ≤ 102 then some (c.toNat - 87)
  else if 65 ≤ c.toNat ∧ c.toNat ≤ 70 then some (c.toNat - 55)
  else none

/-- The character whose code point hexadecimal digits write. -/
def charOfHex? (digits : List Char) : Option Char := do
  let code ← digits.foldlM (fun n c => (hexValue? c).map (n * 16 + ·)) 0
  if Nat.isValidChar code then some (Char.ofNat code) else none

/-- The character that an escape of one letter stands for. -/
def escape? (c : Char) : Option Char :=
  if c = 'b' then some '\x08'
  else if c = 't' then some '\t'
  else if c = 'n' then some '\n'
  else if c = 'f' then some '\x0c'
  else if c = 'r' then some '\r'
  else if c = '"' then some '"'
  else if c = '\\' then some '\\'
  else none

/-- The number of digits that follow the letter of an escape by code point. -/
def digitCount? (c : Char) : Option Nat :=
  if c = 'u' then some 4 else if c = 'U' then some 8 else none

/-- An escape behind its backslash: its character and the text behind it. -/
def readEscape? : List Char → Option (Char × List Char)
  | [] => none
  | c :: rest =>
    match digitCount? c with
    | none => (escape? c).map (·, rest)
    | some n =>
      if (rest.take n).length = n then (charOfHex? (rest.take n)).map (·, rest.drop n) else none

/-- An escape takes characters. -/
theorem length_readEscape? {text behind : List Char} {c : Char}
    (h : readEscape? text = some (c, behind)) : behind.length < text.length := by
  unfold readEscape? at h
  split at h
  · simp at h
  · split at h
    · simp only [Option.map_eq_some_iff, Prod.mk.injEq] at h
      obtain ⟨_, _, _, rfl⟩ := h
      simp
    · split at h
      · simp only [Option.map_eq_some_iff, Prod.mk.injEq] at h
        obtain ⟨_, _, _, rfl⟩ := h
        simp only [List.length_cons, List.length_drop]
        omega
      · simp at h

/-- The text up to the closing double quote, and what is behind it. -/
def doubleQuoted? (source : List Char) : Option (List Char × List Char) :=
  match source with
  | [] => none
  | '"' :: rest => some ([], rest)
  | '\\' :: rest =>
    match _read : readEscape? rest with
    | none => none
    | some (c, behind) => (doubleQuoted? behind).map fun (text, after) => (c :: text, after)
  | c :: rest =>
    if isPlain c then (doubleQuoted? rest).map fun (text, after) => (c :: text, after) else none
termination_by source.length
decreasing_by
  · have := length_readEscape? _read
    simp only [List.length_cons]
    omega
  · simp

/-- The text in double quotes takes characters, its closing quote at least. -/
theorem length_doubleQuoted? {source text behind : List Char}
    (h : doubleQuoted? source = some (text, behind)) : behind.length < source.length := by
  fun_induction doubleQuoted? source generalizing text with
  | case1 => simp at h
  | case2 rest => simp_all
  | case3 rest read => simp at h
  | case4 rest c more read ih =>
    simp only [Option.map_eq_some_iff, Prod.exists, Prod.mk.injEq] at h
    obtain ⟨t, b, found, _, rfl⟩ := h
    have := ih found
    have := length_readEscape? read
    simp only [List.length_cons]
    omega
  | case5 c rest _ _ plain ih =>
    simp only [Option.map_eq_some_iff, Prod.exists, Prod.mk.injEq] at h
    obtain ⟨t, b, found, _, rfl⟩ := h
    have := ih found
    simp only [List.length_cons]
    omega
  | case6 => simp at h

/-- The text up to the closing single quote, and what is behind it. -/
def singleQuoted? (source : List Char) : Option (List Char × List Char) :=
  match Text.cut '\x27' source with
  | none => none
  | some (text, behind) => if text.all isPlain then some (text, behind) else none

/-- The text in single quotes takes characters, its closing quote at least. -/
theorem length_singleQuoted? {source text behind : List Char}
    (h : singleQuoted? source = some (text, behind)) : behind.length < source.length := by
  unfold singleQuoted? at h
  split at h
  · simp at h
  · next found =>
    split at h
    · simp only [Option.some.injEq, Prod.mk.injEq] at h
      obtain ⟨rfl, rfl⟩ := h
      rw [Text.cut_eq found]
      simp only [List.length_cons, List.length_append]
      omega
    · simp at h

/-- The text behind a line break, if the text starts with one. -/
def afterBreak? : List Char → Option (List Char)
  | '\n' :: rest => some rest
  | '\r' :: '\n' :: rest => some rest
  | _ => none

/-- A line break takes characters. -/
theorem length_afterBreak? {source behind : List Char} (h : afterBreak? source = some behind) :
    behind.length < source.length := by
  unfold afterBreak? at h
  split at h
  · obtain rfl := Option.some.inj h
    simp
  · obtain rfl := Option.some.inj h
    simp only [List.length_cons]
    omega
  · cases h

/-- A character that is not seen at the end of a line. -/
def isBlank (c : Char) : Bool := c = ' ' || c = '\t'

/-- The text without the blanks and line breaks in front. -/
def dropLines (source : List Char) : List Char :=
  match _ended : afterBreak? source with
  | some behind => dropLines behind
  | none =>
    match source with
    | [] => []
    | c :: rest => if isBlank c then dropLines rest else c :: rest
termination_by source.length
decreasing_by
  · exact length_afterBreak? _ended
  · simp

/-- Dropping adds no characters. -/
theorem length_dropLines (source : List Char) : (dropLines source).length ≤ source.length := by
  fun_induction dropLines source with
  | case1 source behind ended ih => exact Nat.le_trans ih (Nat.le_of_lt (length_afterBreak? ended))
  | case2 => exact Nat.le_refl _
  | case3 c rest _ blank ih =>
    rw [List.length_cons]
    omega
  | case4 => exact Nat.le_refl _

/-- The text behind an escaped line break, which takes all blanks and line breaks with it. -/
def joinedLine? (source : List Char) : Option (List Char) :=
  (afterBreak? (source.dropWhile isBlank)).map dropLines

/-- An escaped line break takes characters. -/
theorem length_joinedLine? {source behind : List Char} (h : joinedLine? source = some behind) :
    behind.length < source.length := by
  obtain ⟨rest, ended, rfl⟩ := Option.map_eq_some_iff.1 h
  have := length_afterBreak? ended
  have := length_dropLines rest
  have := (List.dropWhile_sublist isBlank (l := source)).length_le
  omega

/-- The number of quotes that a text starts with; more than five are never taken together. -/
def quotesOf (quote : Char) (source : List Char) : Nat :=
  min 5 (source.takeWhile (· = quote)).length

/-- The text of several lines up to three closing quotes, and what is behind them. Up to two more
quotes in front of these are of the text. -/
def lined? (quote : Char) (escapes : Bool) (source : List Char) : Option (List Char × List Char) :=
  match source with
  | [] => none
  | c :: rest =>
    if c = quote then
      if 3 ≤ quotesOf quote (c :: rest) then
        some (List.replicate (quotesOf quote (c :: rest) - 3) quote,
          (c :: rest).drop (quotesOf quote (c :: rest)))
      else (lined? quote escapes rest).map fun (text, after) => (c :: text, after)
    else if escapes ∧ c = '\\' then
      match _joined : joinedLine? rest with
      | some behind => lined? quote escapes behind
      | none =>
        match _read : readEscape? rest with
        | none => none
        | some (d, behind) =>
          (lined? quote escapes behind).map fun (text, after) => (d :: text, after)
    else
      match _ended : afterBreak? (c :: rest) with
      | some behind => (lined? quote escapes behind).map fun (text, after) => ('\n' :: text, after)
      | none =>
        if isPlain c then (lined? quote escapes rest).map fun (text, after) => (c :: text, after)
        else none
termination_by source.length
decreasing_by
  · simp
  · have := length_joinedLine? _joined
    rw [List.length_cons]
    omega
  · have := length_readEscape? _read
    rw [List.length_cons]
    omega
  · exact length_afterBreak? _ended
  · simp

/-- The text of several lines adds no characters. -/
theorem length_lined? {quote : Char} {escapes : Bool} {source text behind : List Char}
    (h : lined? quote escapes source = some (text, behind)) : behind.length ≤ source.length := by
  fun_induction lined? quote escapes source generalizing text with
  | case1 => cases h
  | case2 =>
    obtain ⟨_, rfl⟩ := Prod.mk.inj (Option.some.inj h)
    exact (List.drop_sublist _ _).length_le
  | case3 rest _ ih =>
    obtain ⟨⟨t, b⟩, found, same⟩ := Option.map_eq_some_iff.1 h
    obtain ⟨_, rfl⟩ := Prod.mk.inj same
    exact Nat.le_succ_of_le (ih found)
  | case4 c rest _ _ after joined ih =>
    have := length_joinedLine? joined
    have := ih h
    rw [List.length_cons]
    omega
  | case5 => cases h
  | case6 c rest _ _ _ d after read ih =>
    obtain ⟨⟨t, b⟩, found, same⟩ := Option.map_eq_some_iff.1 h
    obtain ⟨_, rfl⟩ := Prod.mk.inj same
    have := length_readEscape? read
    have := ih found
    rw [List.length_cons]
    omega
  | case7 c rest _ _ after ended ih =>
    obtain ⟨⟨t, b⟩, found, same⟩ := Option.map_eq_some_iff.1 h
    obtain ⟨_, rfl⟩ := Prod.mk.inj same
    have := length_afterBreak? ended
    have := ih found
    omega
  | case8 c rest _ _ _ plain ih =>
    obtain ⟨⟨t, b⟩, found, same⟩ := Option.map_eq_some_iff.1 h
    obtain ⟨_, rfl⟩ := Prod.mk.inj same
    exact Nat.le_succ_of_le (ih found)
  | case9 => cases h

/-- The punctuation mark that a character is. -/
def mark? (c : Char) : Option Token :=
  if c = '=' then some .equals
  else if c = ',' then some .comma
  else if c = '[' then some .opening
  else if c = ']' then some .closing
  else if c = '\n' then some .lineEnd
  else none

/-- The first token of a text, if it does not start with a blank, and the text behind the token
or blank. -/
def next? : List Char → Option (Option Token × List Char)
  | [] => none
  | '\r' :: '\n' :: rest => some (some .lineEnd, rest)
  | '"' :: '"' :: '"' :: rest =>
    (lined? '"' true ((afterBreak? rest).getD rest)).map fun (text, behind) =>
      (some (.lined text), behind)
  | '\x27' :: '\x27' :: '\x27' :: rest =>
    (lined? '\x27' false ((afterBreak? rest).getD rest)).map fun (text, behind) =>
      (some (.lined text), behind)
  | '"' :: rest => (doubleQuoted? rest).map fun (text, behind) => (some (.quoted text), behind)
  | '\x27' :: rest => (singleQuoted? rest).map fun (text, behind) => (some (.quoted text), behind)
  | '#' :: rest => some (none, rest.dropWhile isPlain)
  | c :: rest =>
    if isBlank c then some (none, rest)
    else if isBare c then
      some (some (.bare (c :: rest.takeWhile isBare)), rest.dropWhile isBare)
    else (mark? c).map fun token => (some token, rest)

/-- A token or blank takes characters. -/
theorem length_next? {source behind : List Char} {token : Option Token}
    (h : next? source = some (token, behind)) : behind.length < source.length := by
  have dropped (p : Char → Bool) (l : List Char) : (l.dropWhile p).length ≤ l.length :=
    (List.dropWhile_sublist p).length_le
  have opened (rest : List Char) : ((afterBreak? rest).getD rest).length ≤ rest.length := by
    cases ended : afterBreak? rest with
    | none => exact Nat.le_refl _
    | some after => exact Nat.le_of_lt (length_afterBreak? ended)
  have several {quote : Char} {escapes : Bool} {rest : List Char}
      (read : ((lined? quote escapes ((afterBreak? rest).getD rest)).map fun (text, behind) =>
        (some (Token.lined text), behind)) = some (token, behind)) :
      behind.length ≤ rest.length := by
    obtain ⟨⟨t, b⟩, found, same⟩ := Option.map_eq_some_iff.1 read
    obtain ⟨_, rfl⟩ := Prod.mk.inj same
    exact Nat.le_trans (length_lined? found) (opened rest)
  unfold next? at h
  split at h
  · simp at h
  · simp only [Option.some.injEq, Prod.mk.injEq] at h
    obtain ⟨_, rfl⟩ := h
    simp only [List.length_cons]
    omega
  · have := several h
    simp only [List.length_cons]
    omega
  · have := several h
    simp only [List.length_cons]
    omega
  · simp only [Option.map_eq_some_iff, Prod.exists, Prod.mk.injEq] at h
    obtain ⟨t, b, found, _, rfl⟩ := h
    have := length_doubleQuoted? found
    simp only [List.length_cons]
    omega
  · simp only [Option.map_eq_some_iff, Prod.exists, Prod.mk.injEq] at h
    obtain ⟨t, b, found, _, rfl⟩ := h
    have := length_singleQuoted? found
    simp only [List.length_cons]
    omega
  · simp only [Option.some.injEq, Prod.mk.injEq] at h
    obtain ⟨_, rfl⟩ := h
    have := dropped isPlain ‹List Char›
    simp only [List.length_cons]
    omega
  · next c rest _ _ _ _ _ _ =>
    split at h
    · simp_all
    · split at h
      · simp only [Option.some.injEq, Prod.mk.injEq] at h
        obtain ⟨_, rfl⟩ := h
        have := dropped isBare rest
        simp only [List.length_cons]
        omega
      · simp only [Option.map_eq_some_iff, Prod.mk.injEq] at h
        obtain ⟨_, _, _, rfl⟩ := h
        simp

/-- The tokens of a text. -/
def tokens? (source : List Char) : Option (List Token) :=
  if source = [] then some []
  else
    match _found : next? source with
    | none => none
    | some (token, behind) => (tokens? behind).map (token.toList ++ ·)
termination_by source.length
decreasing_by exact length_next? _found

end WikiPress.Config
