import Mathlib.Data.Nat.Basic
import WikiPress.Text.Utf8

/-!
# Bytes of texts as texts

Each byte of a character but the first carries six bits (`Utf8.trail`), and the first one tells how
many follow, so the bytes of a character are read as that character whatever stands behind them
(`Utf8.readPoint_encoded`). Hence bytes that hold a text are shown as that text (`Utf8.lossy_encode`).
-/

namespace WikiPress.Utf8

/-- The byte that continues a sequence with the last six of some bits. -/
def trail (bits : Nat) : UInt8 := UInt8.ofNat (bits % 64 + 128)

/-- The value of a byte that continues a sequence. -/
theorem toNat_trail (bits : Nat) : (trail bits).toNat = bits % 64 + 128 := by
  rw [trail, UInt8.toNat_ofNat', Nat.mod_eq_of_lt (by omega)]

/-- The value of a byte that starts a sequence. -/
theorem toNat_lead {n : Nat} (small : n < 256) : (UInt8.ofNat n).toNat = n := by
  rw [UInt8.toNat_ofNat', Nat.mod_eq_of_lt (by omega)]

/-- A byte that continues a sequence is taken for one. -/
theorem isContinuation_trail (bits : Nat) : isContinuation (trail bits) = true := by
  have low : 128 ≤ bits % 64 + 128 := by omega
  have high : bits % 64 + 128 ≤ 191 := by omega
  simp only [isContinuation, Bool.and_eq_true, decide_eq_true_eq, UInt8.le_iff_toNat_le, toNat_trail]
  exact ⟨low, high⟩

/-- The six bits are found again. -/
theorem payload_trail (bits : Nat) : payload (trail bits) = bits % 64 := by
  rw [payload, toNat_trail]
  omega

/-- A sequence that is complete has its value. -/
theorem complete_nil (value taken : Nat) (more : List UInt8) :
    complete value taken 0 more = .ok (value, more) := by
  rw [complete]

/-- A sequence goes on with six more bits. -/
theorem complete_trail (value taken n bits : Nat) (more : List UInt8) :
    complete value taken (n + 1) (trail bits :: more) =
      complete (value * 64 + bits % 64) (taken + 1) n more := by
  rw [complete, if_pos (isContinuation_trail bits), payload_trail]

/-- How many bytes follow the first one, by its value. -/
theorem following_eq (first : UInt8) : following first =
    if first.toNat < 128 then some 0
    else if 194 ≤ first.toNat ∧ first.toNat ≤ 223 then some 1
    else if 224 ≤ first.toNat ∧ first.toNat ≤ 239 then some 2
    else if 240 ≤ first.toNat ∧ first.toNat ≤ 244 then some 3
    else none := by
  simp only [following, Bool.and_eq_true, decide_eq_true_eq, UInt8.le_iff_toNat_le,
    UInt8.lt_iff_toNat_lt]
  rfl

/-- Which second bytes fit the first one, by their values. -/
theorem fits_iff (first second : UInt8) : fits first second = true ↔
    128 ≤ second.toNat ∧ second.toNat ≤ 191 ∧ (first.toNat = 224 → 160 ≤ second.toNat) ∧
      (first.toNat = 237 → second.toNat ≤ 159) ∧ (first.toNat = 240 → 144 ≤ second.toNat) ∧
      (first.toNat = 244 → second.toNat ≤ 143) := by
  simp only [fits, isContinuation, ← UInt8.toNat_inj, UInt8.le_iff_toNat_le, UInt8.reduceToNat]
  repeat' split
  all_goals
    simp only [Bool.and_eq_true, decide_eq_true_eq]
    omega

/-- A first byte that announces others and a second one that fits it begin a sequence. -/
theorem readPoint_lead {first : UInt8} {n bits : Nat} (length : following first = some (n + 1))
    (fit : fits first (trail bits) = true) (more : List UInt8) :
    readPoint first (trail bits :: more) =
      complete (first.toNat % firstRoom n * 64 + bits % 64) 2 n more := by
  simp only [readPoint, length, fit, if_true, payload_trail]

/-- The bytes of a character are read as that character, whatever follows. -/
theorem readPoint_encoded (c : Char) (more : List UInt8) : ∃ first rest,
    String.utf8EncodeChar c = first :: rest ∧ readPoint first (rest ++ more) = .ok (c.toNat, more) := by
  -- the number of a character is no surrogate, so the second byte always fits the first one
  have range : c.toNat < 55296 ∨ 57343 < c.toNat ∧ c.toNat < 1114112 := c.valid
  rw [String.utf8EncodeChar]
  show ∃ first rest, (if c.toNat ≤ 127 then [UInt8.ofNat c.toNat] else
    if c.toNat ≤ 2047 then [UInt8.ofNat (c.toNat / 64 % 32 + 192), trail c.toNat] else
    if c.toNat ≤ 65535 then
      [UInt8.ofNat (c.toNat / 4096 % 16 + 224), trail (c.toNat / 64), trail c.toNat] else
      [UInt8.ofNat (c.toNat / 262144 % 8 + 240), trail (c.toNat / 4096), trail (c.toNat / 64),
        trail c.toNat]) = first :: rest ∧ _
  generalize c.toNat = v at range ⊢
  split
  · have lead := toNat_lead (n := v) (by omega)
    have length : following (UInt8.ofNat v) = some 0 := by
      rw [following_eq, lead, if_pos (by omega)]
    exact ⟨_, _, rfl, by simp only [readPoint, length, lead, List.nil_append]⟩
  split
  · have lead := toNat_lead (n := v / 64 % 32 + 192) (by omega)
    have length : following (UInt8.ofNat (v / 64 % 32 + 192)) = some (0 + 1) := by
      rw [following_eq, lead, if_neg (by omega), if_pos (by omega)]
    have fit : fits (UInt8.ofNat (v / 64 % 32 + 192)) (trail v) = true := by
      rw [fits_iff, lead, toNat_trail]
      omega
    have value : (v / 64 % 32 + 192) % 32 * 64 + v % 64 = v := by omega
    refine ⟨_, _, rfl, (readPoint_lead length fit more).trans ?_⟩
    rw [complete_nil, lead, firstRoom, value]
  split
  · have lead := toNat_lead (n := v / 4096 % 16 + 224) (by omega)
    have length : following (UInt8.ofNat (v / 4096 % 16 + 224)) = some (1 + 1) := by
      rw [following_eq, lead, if_neg (by omega), if_neg (by omega), if_pos (by omega)]
    have fit : fits (UInt8.ofNat (v / 4096 % 16 + 224)) (trail (v / 64)) = true := by
      rw [fits_iff, lead, toNat_trail]
      omega
    have value : ((v / 4096 % 16 + 224) % 16 * 64 + v / 64 % 64) * 64 + v % 64 = v := by omega
    refine ⟨_, _, rfl, (readPoint_lead length fit (trail v :: more)).trans ?_⟩
    rw [complete_trail, complete_nil, lead, firstRoom, value]
  · have lead := toNat_lead (n := v / 262144 % 8 + 240) (by omega)
    have length : following (UInt8.ofNat (v / 262144 % 8 + 240)) = some (2 + 1) := by
      rw [following_eq, lead, if_neg (by omega), if_neg (by omega), if_neg (by omega),
        if_pos (by omega)]
    have fit : fits (UInt8.ofNat (v / 262144 % 8 + 240)) (trail (v / 4096)) = true := by
      rw [fits_iff, lead, toNat_trail]
      omega
    have value : (((v / 262144 % 8 + 240) % 8 * 64 + v / 4096 % 64) * 64 + v / 64 % 64) * 64 +
        v % 64 = v := by omega
    refine ⟨_, _, rfl, (readPoint_lead length fit (trail (v / 64) :: trail v :: more)).trans ?_⟩
    rw [complete_trail, complete_trail, complete_nil, lead, firstRoom, value]
    · exact (by decide : ¬ (2 : Nat) = 0)
    · exact (by decide : ¬ (2 : Nat) = 1)

/-- The bytes of a character are shown as that character. -/
theorem lossyChars_encoded (c : Char) (more : List UInt8) :
    lossyChars (String.utf8EncodeChar c ++ more) = c :: lossyChars more := by
  obtain ⟨first, rest, shape, read⟩ := readPoint_encoded c more
  rw [shape, List.cons_append, lossyChars]
  split
  · next failed => cases read.symm.trans failed
  · next failed => cases read.symm.trans failed
  · next point behind found =>
    obtain ⟨rfl, rfl⟩ := Prod.mk.inj (Except.ok.inj (read.symm.trans found))
    rw [Char.ofNat_toNat]

/-- The bytes of a text are shown as that text. -/
theorem lossy_encode (text : String) : lossy (encode text) = text := by
  have whole : ∀ chars : List Char, lossyChars (chars.flatMap String.utf8EncodeChar) = chars := by
    intro chars
    induction chars with
    | nil => rw [List.flatMap_nil, lossyChars]
    | cons c more ih => rw [List.flatMap_cons, lossyChars_encoded, ih]
  rw [lossy, encode, whole, String.ofList_toList]

end WikiPress.Utf8
