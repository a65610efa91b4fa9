import PdfObjects.Lexis
import PdfObjects.Name

/-! Escaping names. Every byte of a written name can stand inside a word, and undoing the escapes gives
the name back, up to the NUL bytes that no name has. -/
namespace PdfObjects.Name

theorem decode_plain {b : UInt8} (plain : b ≠ Byte.hash) (rest : Bytes) :
    decode (b :: rest) = b :: decode rest := by
  match rest with
  | [] => rfl
  | [c] => rfl
  | high :: low :: rest => simp [decode, plain]

/-- The digits of a byte give the byte back. -/
theorem hexPair_value : ∀ b : UInt8, Byte.hexValue? (Bytes.hexDigit (b / 16)) = some (b / 16) ∧
    Byte.hexValue? (Bytes.hexDigit (b % 16)) = some (b % 16) ∧ b / 16 * 16 + b % 16 = b := by
  decide +kernel

/-- What has no value as a digit is none of them. -/
theorem hexPair_ne {c : UInt8} (other : Byte.hexValue? c = none) (b : UInt8) :
    Bytes.hexDigit (b / 16) ≠ c ∧ Bytes.hexDigit (b % 16) ≠ c := by
  obtain ⟨high, low, _⟩ := hexPair_value b
  constructor
  · rintro rfl
    cases other.symm.trans high
  · rintro rfl
    cases other.symm.trans low

theorem decode_escaped {b : UInt8} (present : b ≠ 0) (rest : Bytes) :
    decode (Byte.hash :: Bytes.hexPair b ++ rest) = b :: decode rest := by
  obtain ⟨high, low, whole⟩ := hexPair_value b
  simp [Bytes.hexPair, decode, high, low, whole, present]

theorem isPlain_hash {b : UInt8} (plain : isPlain b = true) : b ≠ Byte.hash := by
  rintro rfl
  cases plain

theorem decode_encodeByte {b : UInt8} (present : b ≠ 0) (rest : Bytes) :
    decode (encodeByte b ++ rest) = b :: decode rest := by
  unfold encodeByte
  split
  · rename_i plain
    exact decode_plain (isPlain_hash plain) rest
  · exact decode_escaped present rest

/-- A NUL is written as an escape that stands for nothing. -/
theorem decode_nul (rest : Bytes) : decode (encodeByte 0 ++ rest) = decode rest := rfl

/-- What is written is read back without the NUL bytes. -/
theorem decode_encode_filter (name : Bytes) : decode (encode name) = name.filter (· ≠ 0) := by
  induction name with
  | nil => rfl
  | cons b name ih =>
    change decode (encodeByte b ++ encode name) = _
    by_cases nul : b = 0
    · subst nul
      rw [decode_nul, ih]
      rfl
    · rw [decode_encodeByte nul, ih, List.filter_cons_of_pos (by simpa using nul)]

/-- A name without NUL is read back from its escapes. -/
theorem decode_encode {name : Bytes} (clean : 0 ∉ name) : decode (encode name) = name := by
  rw [decode_encode_filter, List.filter_eq_self]
  intro b member
  simpa using fun nul : b = 0 => clean (nul ▸ member)

theorem whitespace_le {b : UInt8} (blank : Byte.isWhitespace b = true) : b ≤ Byte.space := by
  simp only [Byte.isWhitespace, Bool.or_eq_true, beq_iff_eq] at blank
  rcases blank with ((((rfl | rfl) | rfl) | rfl) | rfl) | rfl <;> decide

theorem plain_inner {b : UInt8} (plain : isPlain b = true) : Lexis.isInner b = true := by
  simp only [isPlain, Bool.and_eq_true, decide_eq_true_eq, Bool.not_eq_true'] at plain
  obtain ⟨⟨⟨above, _⟩, _⟩, delimiter⟩ := plain
  have blank : Byte.isWhitespace b = false :=
    Bool.eq_false_iff.mpr fun blank => absurd (whitespace_le blank) (UInt8.not_le.mpr above)
  simp [Lexis.isInner, delimiter, blank]

theorem outer_value {b : UInt8} (outer : Lexis.isInner b = false) : Byte.hexValue? b = none := by
  simp only [Lexis.isInner, Byte.isDelimiter, Byte.isWhitespace, Bool.not_eq_false',
    Bool.or_eq_true, beq_iff_eq] at outer
  rcases outer with
    (((((((((rfl | rfl) | rfl) | rfl) | rfl) | rfl) | rfl) | rfl) | rfl) | rfl) |
    (((((rfl | rfl) | rfl) | rfl) | rfl) | rfl) <;> rfl

theorem hexPair_inner (b : UInt8) : (Bytes.hexPair b).all Lexis.isInner = true := by
  obtain ⟨high, low, _⟩ := hexPair_value b
  have inner {digit value : UInt8} (valued : Byte.hexValue? digit = some value) :
      Lexis.isInner digit = true := by
    cases inside : Lexis.isInner digit with
    | true => rfl
    | false => cases (outer_value inside).symm.trans valued
  simp [Bytes.hexPair, inner high, inner low]

theorem encodeByte_inner (b : UInt8) : (encodeByte b).all Lexis.isInner = true := by
  unfold encodeByte
  split
  · rename_i plain
    simp [plain_inner plain]
  · rw [List.all_cons, hexPair_inner]
    rfl

/-- A written name is a single run. -/
theorem encode_inner (name : Bytes) : ∀ c ∈ encode name, Lexis.isInner c = true := by
  intro c member
  obtain ⟨b, _, within⟩ := List.mem_flatMap.mp member
  exact List.all_eq_true.mp (encodeByte_inner b) c within

end PdfObjects.Name
