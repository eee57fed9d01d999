/-!
# UTF-8

Texts as bytes. Reading follows the table of well-formed byte sequences: the first byte fixes the
length of a sequence and the range of its second byte, and every later byte is a continuation.
A refusal tells where the offending sequence starts and either how many of its bytes could
have begun a well-formed one, or that the bytes ended inside it. Where bytes have to be shown
whatever they are, a mark stands for each such sequence.
-/

namespace WikiPress.Utf8

/-- Why bytes are no text. -/
inductive Fault where
  /-- The `length` bytes from `index` begin no character. -/
  | invalid (length index : Nat)
  /-- The bytes end inside the character that starts at `index`. -/
  | incomplete (index : Nat)
  deriving DecidableEq

/-- The wording of a fault. -/
def Fault.message : Fault → String
  | .invalid length index =>
    "invalid utf-8 sequence of " ++ toString length ++ " bytes from index " ++ toString index
  | .incomplete index => "incomplete utf-8 byte sequence from index " ++ toString index

/-- The bytes of a text. -/
def encode (text : String) : List UInt8 := text.toList.flatMap String.utf8EncodeChar

/-- A byte that continues a sequence. -/
def isContinuation (b : UInt8) : Bool := 0x80 ≤ b && b ≤ 0xBF

/-- How many bytes follow the first byte of a sequence; `none` if it starts none. -/
def following (first : UInt8) : Option Nat :=
  if first < 0x80 then some 0
  else if 0xC2 ≤ first && first ≤ 0xDF then some 1
  else if 0xE0 ≤ first && first ≤ 0xEF then some 2
  else if 0xF0 ≤ first && first ≤ 0xF4 then some 3
  else none

/-- The second byte fits the first one: no overlong form, no surrogate, nothing past the last
code point. -/
def fits (first second : UInt8) : Bool :=
  if first = 0xE0 then 0xA0 ≤ second && second ≤ 0xBF
  else if first = 0xED then 0x80 ≤ second && second ≤ 0x9F
  else if first = 0xF0 then 0x90 ≤ second && second ≤ 0xBF
  else if first = 0xF4 then 0x80 ≤ second && second ≤ 0x8F
  else isContinuation second

/-- The six bits that a continuation byte carries. -/
def payload (b : UInt8) : Nat := b.toNat % 64

/-- How many values the first byte of a sequence has room for, by the number of continuation bytes
behind the second byte. -/
def firstRoom : Nat → Nat
  | 0 => 32
  | 1 => 16
  | _ => 8

/-- What keeps bytes from being read as a character. -/
inductive Break where
  /-- The first `length` bytes begin no character. -/
  | wrong (length : Nat)
  /-- The bytes end too early. -/
  | short

/-- The code point that `n` continuation bytes complete, given what `taken` bytes before them
carried, and the bytes behind them. -/
def complete (value taken : Nat) : Nat → List UInt8 → Except Break (Nat × List UInt8)
  | 0, rest => .ok (value, rest)
  | _ + 1, [] => .error .short
  | n + 1, b :: rest =>
    if isContinuation b then complete (value * 64 + payload b) (taken + 1) n rest
    else .error (.wrong taken)

/-- The code point that a byte and the bytes behind it start with, and the bytes behind that. -/
def readPoint (first : UInt8) (rest : List UInt8) : Except Break (Nat × List UInt8) :=
  match following first with
  | none => .error (.wrong 1)
  | some 0 => .ok (first.toNat, rest)
  | some (n + 1) =>
    match rest with
    | [] => .error .short
    | second :: rest =>
      if fits first second then
        complete (first.toNat % firstRoom n * 64 + payload second) 2 n rest
      else .error (.wrong 1)

/-- Completing a code point takes bytes or leaves them as they are. -/
theorem length_complete {value taken n point : Nat} {bytes behind : List UInt8}
    (h : complete value taken n bytes = .ok (point, behind)) : behind.length ≤ bytes.length := by
  fun_induction complete value taken n bytes with
  | case1 => simp_all
  | case2 => simp at h
  | case3 value taken n b rest _ ih =>
    have := ih h
    simp only [List.length_cons]
    omega
  | case4 => simp at h

/-- Reading a code point adds no bytes to those behind its first one. -/
theorem length_readPoint {first : UInt8} {rest behind : List UInt8} {point : Nat}
    (h : readPoint first rest = .ok (point, behind)) : behind.length ≤ rest.length := by
  unfold readPoint at h
  split at h
  · simp at h
  · simp_all
  · split at h
    · simp at h
    · split at h
      · have := length_complete h
        simp only [List.length_cons]
        omega
      · simp at h

/-- The characters of the bytes at the end of `total` bytes, behind the characters read so far,
which are kept in reverse. -/
def decodeFrom (total : Nat) (soFar : List Char) : List UInt8 → Except Fault (List Char)
  | [] => .ok soFar.reverse
  | first :: rest =>
    match _read : readPoint first rest with
    | .error (.wrong length) => .error (.invalid length (total - (first :: rest).length))
    | .error .short => .error (.incomplete (total - (first :: rest).length))
    | .ok (point, behind) => decodeFrom total (Char.ofNat point :: soFar) behind
termination_by bytes => bytes.length
decreasing_by
  have := length_readPoint _read
  simp only [List.length_cons]
  omega

/-- The text that the bytes hold. -/
def decode (bytes : List UInt8) : Except Fault String :=
  (decodeFrom bytes.length [] bytes).map String.ofList

/-- The characters of the bytes where each stretch of bytes that no character can go on from is
replaced by one mark; the stretch is what a refusal would give the length of. -/
def lossyChars : List UInt8 → List Char
  | [] => []
  | first :: rest =>
    match _read : readPoint first rest with
    | .error (.wrong length) => '\uFFFD' :: lossyChars (rest.drop (length - 1))
    | .error .short => ['\uFFFD']
    | .ok (point, behind) => Char.ofNat point :: lossyChars behind
termination_by bytes => bytes.length
decreasing_by
  · rw [List.length_drop, List.length_cons]
    omega
  · have := length_readPoint _read
    rw [List.length_cons]
    omega

/-- A text for bytes that need not hold one. -/
def lossy (bytes : List UInt8) : String := String.ofList (lossyChars bytes)

end WikiPress.Utf8
