import PdfObjects.Lexis
import PdfObjects.Lines
import PdfObjects.Literal
import PdfObjects.Object.Printer
import PdfObjects.Proofs.Names

/-! The spellings of strings, and that they are read. A literal string has many spellings, and where an
escape ends may depend on what follows it, so a spelling is one in front of some text. Groups in parentheses
are balanced however deep they nest, but a reader counts the parentheses in a word and loses count of those
that nest deeper. What is written is one of the spellings: in a literal string every byte is either plain or
an escape, so parentheses never open; in a hexadecimal one every byte is two digits. -/
namespace PdfObjects

namespace Lexis

/-- The letters that name a byte behind a backslash. -/
def letters : List (UInt8 × UInt8) :=
  [('n'.toUInt8, Byte.lineFeed), ('r'.toUInt8, Byte.carriageReturn), ('t'.toUInt8, Byte.tab),
    ('b'.toUInt8, Byte.backspace), ('f'.toUInt8, Byte.formFeed)]

/-- The number that octal digits write. -/
def octalValue (digits : Bytes) : Nat := digits.foldl (fun n b => 8 * n + Numeral.digitValue b) 0

/-- What may stand behind a backslash in front of some text, and the bytes that it stands for. -/
inductive Escapes : (escape value after : Bytes) → Prop where
  | letter {c b : UInt8} {after : Bytes} (listed : (c, b) ∈ letters) : Escapes [c] [b] after
  /-- The last of less than three digits is not followed by another one. What does not fit into a byte
  is lost. -/
  | octal {digits after : Bytes} (nonempty : digits ≠ []) (few : digits.length ≤ 3)
    (octal : ∀ c ∈ digits, Byte.isOctalDigit c = true)
    (ends : digits.length < 3 → ∀ c ∈ after.head?, Byte.isOctalDigit c = false) :
    Escapes digits [UInt8.ofNat (octalValue digits)] after
  /-- The string goes on in the next line. -/
  | line {ending after : Bytes} (ends : Terminates ending after) : Escapes ending [] after
  | other {c : UInt8} {after : Bytes} (unnamed : c ∉ letters.map Prod.fst)
    (noDigit : Byte.isOctalDigit c = false) (noEnding : Byte.isLineEnding c = false) :
    Escapes [c] [c] after

/-- The spellings of a literal string in front of some text, and how deep groups nest in them. -/
inductive Spells : (nesting : Nat) → (body value after : Bytes) → Prop where
  | nil {after : Bytes} : Spells 0 [] [] after
  | plain {nesting : Nat} {b : UInt8} {body value after : Bytes} (opening : b ≠ Byte.openParen)
    (closing : b ≠ Byte.closeParen) (escape : b ≠ Byte.backslash)
    (rest : Spells nesting body value after) : Spells nesting (b :: body) (b :: value) after
  | group {inside nesting : Nat} {inner meant body value after : Bytes}
    (group : Spells inside inner meant (Byte.closeParen :: (body ++ after)))
    (rest : Spells nesting body value after) :
    Spells (max (inside + 1) nesting) (Byte.openParen :: inner ++ Byte.closeParen :: body)
      (Byte.openParen :: meant ++ Byte.closeParen :: value) after
  | escape {nesting : Nat} {escape meant body value after : Bytes}
    (escapes : Escapes escape meant (body ++ after)) (rest : Spells nesting body value after) :
    Spells nesting (Byte.backslash :: escape ++ body) (meant ++ value) after

/-- The bytes that hexadecimal digits write, two digits each. A last digit alone is followed by a zero. -/
def pairs : (digits : Bytes) → Bytes
  | [] => []
  | [high] => [high * 16]
  | high :: low :: digits => (high * 16 + low) :: pairs digits

end Lexis

namespace PartialString
open Lexis (consume letters octalValue Escapes Spells Terminates)

variable {s t u : PartialString} {b c : UInt8} {nesting : Nat}
  {first second part body value escape meant after : Bytes}

/-- Reading a part of a text leads from one state to another. -/
def Passes (s : PartialString) (part : Bytes) (t : PartialString) (after : Bytes) : Prop :=
  consume step bytes s (part ++ after) =
    ((consume step bytes t after).1, (consume step bytes t after).2 + part.length)

namespace Passes

theorem nil : s.Passes [] s after := rfl

theorem trans (early : s.Passes first t (second ++ after)) (late : t.Passes second u after) :
    s.Passes (first ++ second) u after := by
  unfold Passes at *
  rw [List.append_assoc, early, late, List.length_append, Nat.add_assoc, Nat.add_comm first.length]

theorem byte (stepped : s.step b = .more t) : s.Passes [b] t after := by
  simp only [Passes, List.singleton_append, consume, stepped, List.length_singleton]

theorem cons (stepped : s.step b = .more t) (late : t.Passes part u after) :
    s.Passes (b :: part) u after :=
  (byte stepped).trans late

/-- Nothing is read where the next byte means the same in both states. -/
theorem settled (same : s.step c = t.step c) : s.Passes [] t (c :: after) := by
  simp only [Passes, List.nil_append, consume, same, List.length_nil, Nat.add_zero]

end Passes

/-- The string goes on by some bytes. -/
def grown (s : PartialString) (value : Bytes) : PartialString :=
  { s with mode := .plain, taken := value.reverse ++ s.taken }

theorem grown_nil (plain : s.mode = .plain) : s.grown [] = s := by
  obtain ⟨mode, depth, taken⟩ := s
  cases plain
  rfl

theorem grown_grown (s : PartialString) (first second : Bytes) :
    (s.grown first).grown second = s.grown (first ++ second) := by simp [grown]

theorem step_plain (plain : s.mode = .plain) (b : UInt8) : s.step b = s.stepPlain b := by
  simp only [step, plain]

theorem octalDigit_value : ∀ b : UInt8, Byte.isOctalDigit b = true →
    UInt8.ofNat (Numeral.digitValue b) = octalDigit b := by decide +kernel

/-- Octal digits add up as they are read, whatever part of the number is lost. -/
theorem octalValue_bytes {digits : Bytes} (octal : ∀ c ∈ digits, Byte.isOctalDigit c = true) :
    UInt8.ofNat (octalValue digits) = digits.foldl (fun value c => value * 8 + octalDigit c) 0 := by
  have onwards (n : Nat) : UInt8.ofNat (digits.foldl (fun n c => 8 * n + Numeral.digitValue c) n) =
      digits.foldl (fun value c => value * 8 + octalDigit c) (UInt8.ofNat n) := by
    induction digits generalizing n with
    | nil => rfl
    | cons c digits ih =>
      have digit := octalDigit_value c (octal c (List.mem_cons_self ..))
      rw [List.foldl_cons, List.foldl_cons, ih fun c further => octal c (List.mem_cons_of_mem _ further),
        UInt8.ofNat_add, UInt8.ofNat_mul, digit, UInt8.mul_comm]
      rfl
  exact onwards 0

/-- A letter that names a byte is none of the other escapes. -/
theorem stepEscaped_letter (listed : (c, b) ∈ letters) (s : PartialString) :
    s.stepEscaped c = s.grown [b] := by
  simp only [letters, List.mem_cons, Prod.mk.injEq, List.not_mem_nil, or_false] at listed
  rcases listed with ⟨rfl, rfl⟩ | ⟨rfl, rfl⟩ | ⟨rfl, rfl⟩ | ⟨rfl, rfl⟩ | ⟨rfl, rfl⟩ <;> rfl

theorem stepEscaped_other (unnamed : c ∉ letters.map Prod.fst) (noDigit : Byte.isOctalDigit c = false)
    (noEnding : Byte.isLineEnding c = false) (s : PartialString) : s.stepEscaped c = s.grown [c] := by
  simp only [letters, List.map_cons, List.map_nil, List.mem_cons, List.not_mem_nil, or_false,
    not_or] at unnamed
  simp only [Byte.isLineEnding, Bool.or_eq_false_iff, beq_eq_false_iff_ne] at noEnding
  simp [stepEscaped, noDigit, noEnding, unnamed, push, grown]

/-- An octal escape ends with its third digit, or with the next byte that is no digit. -/
theorem passes_octal {digits : Bytes} (escaped : s.mode = .escaped) (nonempty : digits ≠ [])
    (few : digits.length ≤ 3) (octal : ∀ c ∈ digits, Byte.isOctalDigit c = true)
    (ends : digits.length < 3 → ∀ c ∈ after.head?, Byte.isOctalDigit c = false) (more : after ≠ []) :
    s.Passes digits (s.grown [UInt8.ofNat (octalValue digits)]) after := by
  obtain ⟨next, rest, rfl⟩ := List.exists_cons_of_ne_nil more
  rw [octalValue_bytes octal]
  match digits, nonempty, few with
  | [a], _, _ =>
    have first := octal a (by simp)
    have stops := ends (by simp) next rfl
    have value : [a].foldl (fun value c => value * 8 + octalDigit c) 0 = octalDigit a := by simp
    refine .cons (t := { s with mode := .octal (octalDigit a) }) ?_ (.settled ?_)
    · simp only [step, escaped, stepEscaped, first, ↓reduceIte]
    · simp only [step, stops, Bool.false_eq_true, ↓reduceIte, value]
      rfl
  | [a, b], _, _ =>
    have first := octal a (by simp)
    have second := octal b (by simp)
    have stops := ends (by simp) next rfl
    have value : [a, b].foldl (fun value c => value * 8 + octalDigit c) 0 =
        octalDigit a * 8 + octalDigit b := by simp
    refine .cons (t := { s with mode := .octal (octalDigit a) }) ?_
      (.cons (t := { s with mode := .lastOctal (octalDigit a * 8 + octalDigit b) }) ?_ (.settled ?_))
    · simp only [step, escaped, stepEscaped, first, ↓reduceIte]
    · simp only [step, second, ↓reduceIte]
    · simp only [step, stops, Bool.false_eq_true, ↓reduceIte, value]
      rfl
  | [a, b, c], _, _ =>
    have first := octal a (by simp)
    have second := octal b (by simp)
    have third := octal c (by simp)
    have value : [a, b, c].foldl (fun value c => value * 8 + octalDigit c) 0 =
        (octalDigit a * 8 + octalDigit b) * 8 + octalDigit c := by simp
    refine .cons (t := { s with mode := .octal (octalDigit a) }) ?_
      (.cons (t := { s with mode := .lastOctal (octalDigit a * 8 + octalDigit b) }) ?_ (.byte ?_))
    · simp only [step, escaped, stepEscaped, first, ↓reduceIte]
    · simp only [step, second, ↓reduceIte]
    · simp only [step, third, ↓reduceIte, value]
      rfl

/-- A line that ends behind a backslash leaves nothing in the string. -/
theorem passes_line {ending : Bytes} (escaped : s.mode = .escaped) (ends : Terminates ending after)
    (more : after ≠ []) : s.Passes ending (s.grown []) after := by
  cases ends with
  | pair =>
    refine .cons (t := { s with mode := .continued }) ?_ (.byte ?_)
    · simp only [step, escaped]
      rfl
    · rfl
  | feed =>
    refine .byte ?_
    simp only [step, escaped]
    rfl
  | lone alone =>
    obtain ⟨next, rest, rfl⟩ := List.exists_cons_of_ne_nil more
    have other : next ≠ Byte.lineFeed := fun same => alone (congrArg some same)
    refine .cons (t := { s with mode := .continued }) ?_ (.settled ?_)
    · simp only [step, escaped]
      rfl
    · simp only [step, if_neg other]
      rfl

/-- What an escape stands for becomes a part of the string. -/
theorem passes_escape (escaped : s.mode = .escaped) (escapes : Escapes escape meant after)
    (more : after ≠ []) : s.Passes escape (s.grown meant) after := by
  cases escapes with
  | letter listed =>
    refine .byte ?_
    simp only [step, escaped, stepEscaped_letter listed]
  | octal nonempty few octal ends => exact passes_octal escaped nonempty few octal ends more
  | line ends => exact passes_line escaped ends more
  | other unnamed noDigit noEnding =>
    refine .byte ?_
    simp only [step, escaped, stepEscaped_other unnamed noDigit noEnding]

/-- The state in which a group is read, and that behind it. The counter is as before unless it has
wrapped. -/
def opened (s : PartialString) : PartialString := { s.grown [Byte.openParen] with depth := s.depth + 1 }

theorem step_open (plain : s.mode = .plain) : s.step Byte.openParen = .more s.opened := by
  rw [step_plain plain]
  rfl

theorem opened_depth (fits : s.depth.toNat + 1 < UInt32.size) : s.opened.depth.toNat = s.depth.toNat + 1 := by
  change (s.depth + 1).toNat = _
  rw [UInt32.toNat_add]
  exact Nat.mod_eq_of_lt fits

/-- The largest count is followed by zero. -/
theorem opened_wraps (last : UInt32.size ≤ s.depth.toNat + 1) : s.opened.depth = 0 := by
  have word := s.depth.toNat_lt
  have most : s.depth.toNat + 1 = UInt32.size := Nat.le_antisymm word last
  apply UInt32.toNat_inj.mp
  change (s.depth + 1).toNat = 0
  rw [UInt32.toNat_add, show s.depth.toNat + UInt32.toNat 1 = UInt32.size from most]
  exact Nat.mod_self _

theorem step_close (fits : s.depth.toNat + 1 < UInt32.size) (meant : Bytes) :
    (s.opened.grown meant).step Byte.closeParen =
      .more (s.grown (Byte.openParen :: meant ++ [Byte.closeParen])) := by
  have counted : s.opened.depth ≠ 0 := by
    intro none
    have positive := opened_depth fits
    rw [none] at positive
    cases positive
  have balanced : s.opened.depth - 1 = s.depth := UInt32.add_sub_cancel _ _
  change (s.opened.grown meant).stepPlain Byte.closeParen = _
  rw [stepPlain, if_pos rfl, if_neg (show ¬ (s.opened.grown meant).depth = 0 from counted)]
  change Scan.Verdict.more { (s.opened.grown meant).push Byte.closeParen with depth := s.opened.depth - 1 } = _
  rw [balanced]
  simp [opened, grown, push]

/-- A group is read with what is inside it. -/
theorem passes_group (plain : s.mode = .plain) (fits : s.depth.toNat + 1 < UInt32.size)
    (within : s.opened.Passes part (s.opened.grown meant) (Byte.closeParen :: after)) :
    s.Passes (Byte.openParen :: part ++ [Byte.closeParen])
      (s.grown (Byte.openParen :: meant ++ [Byte.closeParen])) after :=
  .cons (step_open plain) (.trans within (.byte (step_close fits meant)))

/-- A spelling is read as the string that it spells. Parentheses inside it are balanced, so the depth is
the same in the end, if it can be counted. -/
theorem passes_spelling (spells : Spells nesting body value after) (plain : s.mode = .plain)
    (fits : s.depth.toNat + nesting < UInt32.size) (more : after ≠ []) :
    s.Passes body (s.grown value) after := by
  induction spells generalizing s with
  | nil =>
    rw [grown_nil plain]
    exact .nil
  | @plain nesting b body value after opening closing escape rest ih =>
    have stepped : s.step b = .more (s.grown [b]) := by
      rw [step_plain plain, stepPlain, if_neg closing, if_neg opening, if_neg escape]
      rfl
    have later := @ih (s.grown [b]) rfl fits more
    rw [grown_grown] at later
    exact .cons stepped later
  | @group inside nesting inner meant body value after group rest ihGroup ihRest =>
    have room : s.depth.toNat + 1 < UInt32.size := by omega
    have within := @ihGroup s.opened rfl (by rw [opened_depth room]; omega) nofun
    have behind := @ihRest (s.grown (Byte.openParen :: meant ++ [Byte.closeParen])) rfl
      (by change s.depth.toNat + nesting < _; omega) more
    rw [grown_grown, ← List.append_cons] at behind
    rw [List.append_cons]
    exact (passes_group plain room within).trans behind
  | @escape nesting escape meant body value after escapes rest ih =>
    have named := passes_escape (s := { s with mode := .escaped }) rfl escapes (by simp [more])
    have later := @ih (s.grown meant) rfl fits more
    rw [grown_grown] at later
    refine .cons ?_ (named.trans later)
    rw [step_plain plain]
    rfl

/-- A spelling is read up to the parenthesis behind it. -/
theorem consume_spelling {rest : Bytes} (spells : Spells nesting body value (Byte.closeParen :: rest))
    (plain : s.mode = .plain) (outermost : s.depth = 0) (fits : nesting < UInt32.size) :
    consume step bytes s (body ++ Byte.closeParen :: rest) =
      (s.taken.reverse ++ value, body.length + 1) := by
  rw [passes_spelling spells plain (by rwa [outermost, UInt32.toNat_zero, Nat.zero_add]) nofun]
  simp [consume, grown, step, stepPlain, outermost, bytes, Nat.add_comm]

/-- What is read of a text whose first part passes. -/
theorem Passes.consumed (passes : s.Passes first t (second ++ after))
    (stops : (consume step bytes t (second ++ after)).2 ≤ second.length) :
    (consume step bytes s (first ++ second ++ after)).2 ≤ (first ++ second).length := by
  rw [List.append_assoc, passes, List.length_append, Nat.add_comm first.length]
  exact Nat.add_le_add_right stops _

/-- A spelling that nests deeper than can be counted is not read to its end. Either the counter wraps at the
parenthesis that opens a group, whose closing parenthesis then ends the string, or the group at hand or what
follows it nests too deep. -/
theorem consume_tooDeep (spells : Spells nesting body value after) (plain : s.mode = .plain)
    (deep : UInt32.size ≤ s.depth.toNat + nesting) (more : after ≠ []) :
    (consume step bytes s (body ++ after)).2 ≤ body.length := by
  induction spells generalizing s with
  | nil => exact absurd s.depth.toNat_lt (Nat.not_lt.mpr deep)
  | @plain nesting b body value after opening closing escape rest ih =>
    have stepped : s.step b = .more (s.grown [b]) := by
      rw [step_plain plain, stepPlain, if_neg closing, if_neg opening, if_neg escape]
      rfl
    exact (Passes.byte stepped).consumed (@ih (s.grown [b]) rfl deep more)
  | @group inside nesting inner meant body value after group rest ihGroup ihRest =>
    have early (stops : (consume step bytes s.opened
        (inner ++ Byte.closeParen :: (body ++ after))).2 ≤ inner.length + 1) :
        (consume step bytes s (Byte.openParen :: inner ++ Byte.closeParen :: body ++ after)).2 ≤
          (Byte.openParen :: inner ++ Byte.closeParen :: body).length := by
      rw [List.cons_append, List.cons_append, List.append_assoc, List.cons_append, consume, step_open plain]
      simp only [List.length_cons, List.length_append]
      omega
    by_cases room : s.depth.toNat + 1 < UInt32.size
    · by_cases fits : s.opened.depth.toNat + inside < UInt32.size
      · have within : s.opened.Passes inner (s.opened.grown meant) (Byte.closeParen :: (body ++ after)) :=
          passes_spelling group rfl fits nofun
        have behind := @ihRest (s.grown (Byte.openParen :: meant ++ [Byte.closeParen])) rfl
          (by rw [opened_depth room] at fits; change _ ≤ s.depth.toNat + nesting; omega) more
        rw [List.append_cons]
        exact (passes_group plain room within).consumed behind
      · exact early (Nat.le_succ_of_le (@ihGroup s.opened rfl (Nat.le_of_not_lt fits) nofun))
    · have wrapped := opened_wraps (Nat.le_of_not_lt room)
      by_cases fits : inside < UInt32.size
      · exact early (Nat.le_of_eq (congrArg Prod.snd (consume_spelling group rfl wrapped fits)))
      · refine early (Nat.le_succ_of_le (@ihGroup s.opened rfl ?_ nofun))
        rw [wrapped]
        omega
  | @escape nesting escape meant body value after escapes rest ih =>
    have opening : s.step Byte.backslash = .more { s with mode := .escaped } := by
      rw [step_plain plain]
      rfl
    have named := passes_escape (s := { s with mode := .escaped }) rfl escapes (by simp [more])
    exact (Passes.cons opening named).consumed (@ih (s.grown meant) rfl deep more)

theorem octalTriple_all : ∀ b : UInt8, (Bytes.octalTriple b).all Byte.isOctalDigit = true := by
  decide +kernel

theorem octalTriple_sum : ∀ b : UInt8,
    (octalDigit (0x30 + b / 64) * 8 + octalDigit (0x30 + b / 8 % 8)) * 8 +
      octalDigit (0x30 + b % 8) = b := by decide +kernel

/-- The digits of an octal escape give the byte back. -/
theorem octalTriple_value (b : UInt8) : UInt8.ofNat (octalValue (Bytes.octalTriple b)) = b := by
  rw [octalValue_bytes (List.all_eq_true.mp (octalTriple_all b))]
  simp only [Bytes.octalTriple, List.foldl_cons, List.foldl_nil, UInt8.zero_mul, UInt8.zero_add]
  exact octalTriple_sum b

/-- A byte is written as one of its spellings. -/
theorem spells_renderStringByte (b : UInt8) (rest : Spells nesting body value after) :
    Spells nesting (Object.renderStringByte b ++ body) (b :: value) after := by
  have letter {c : UInt8} (listed : (c, b) ∈ letters) :
      Spells nesting (Byte.backslash :: [c] ++ body) ([b] ++ value) after := .escape (.letter listed) rest
  unfold Object.renderStringByte
  by_cases delimits : b = Byte.openParen ∨ b = Byte.closeParen ∨ b = Byte.backslash
  · rw [if_pos delimits]
    have escapes : Escapes [b] [b] (body ++ after) := by
      rcases delimits with rfl | rfl | rfl <;> exact .other (by decide) rfl rfl
    exact .escape escapes rest
  rw [if_neg delimits]
  by_cases feed : b = Byte.lineFeed
  · rw [if_pos feed]
    exact letter (by simp [letters, feed])
  rw [if_neg feed]
  by_cases returned : b = Byte.carriageReturn
  · rw [if_pos returned]
    exact letter (by simp [letters, returned])
  rw [if_neg returned]
  by_cases tab : b = Byte.tab
  · rw [if_pos tab]
    exact letter (by simp [letters, tab])
  rw [if_neg tab]
  by_cases back : b = Byte.backspace
  · rw [if_pos back]
    exact letter (by simp [letters, back])
  rw [if_neg back]
  by_cases form : b = Byte.formFeed
  · rw [if_pos form]
    exact letter (by simp [letters, form])
  rw [if_neg form]
  split
  · obtain ⟨opening, others⟩ := not_or.mp delimits
    obtain ⟨closing, escape⟩ := not_or.mp others
    exact .plain opening closing escape rest
  · have escapes : Escapes (Bytes.octalTriple b) [b] (body ++ after) := by
      have triple := @Escapes.octal (Bytes.octalTriple b) (body ++ after) nofun (Nat.le_refl 3)
        (List.all_eq_true.mp (octalTriple_all b)) fun fewer => absurd fewer (Nat.lt_irrefl 3)
      rwa [octalTriple_value] at triple
    exact .escape escapes rest

theorem spells_renderString (string after : Bytes) :
    Spells 0 (string.flatMap Object.renderStringByte) string after := by
  induction string with
  | nil => exact .nil
  | cons b string ih => exact spells_renderStringByte b ih

/-- A literal string is read up to the parenthesis that was written to close it. -/
theorem consume_renderString (string rest : Bytes) (plain : s.mode = .plain) (outermost : s.depth = 0) :
    consume step bytes s (string.flatMap Object.renderStringByte ++ Byte.closeParen :: rest) =
      (s.taken.reverse ++ string, (string.flatMap Object.renderStringByte).length + 1) :=
  consume_spelling (spells_renderString string _) plain outermost (by decide)

end PartialString

namespace PartialHex
open Lexis (consume pairs)

variable {s : PartialHex} {body : Bytes}

/-- A hexadecimal string is read up to the first bracket, as the bytes that its digits write. -/
theorem consume_pairs (inside : Byte.greater ∉ body) (rest : Bytes) :
    consume step bytes s (body ++ Byte.greater :: rest) =
      (s.taken.reverse ++ pairs (s.high.toList ++ body.filterMap Byte.hexValue?), body.length + 1) := by
  induction body generalizing s with
  | nil => cases high : s.high <;> simp [consume, step, bytes, high, pairs]
  | cons b body ih =>
    have other : b ≠ Byte.greater := fun same => inside (same ▸ List.mem_cons_self)
    have later (s : PartialHex) := @ih s fun member => inside (List.mem_cons_of_mem b member)
    cases value : Byte.hexValue? b with
    | none => simp [consume, step, other, value, later]
    | some digit => cases high : s.high <;> simp [consume, step, other, value, high, later, pairs]

/-- A written byte is a pair of digits. -/
theorem pairs_renderHex (string : Bytes) :
    pairs ((string.flatMap Bytes.hexPair).filterMap Byte.hexValue?) = string := by
  induction string with
  | nil => rfl
  | cons b string ih =>
    obtain ⟨high, low, whole⟩ := Name.hexPair_value b
    simp [Bytes.hexPair, high, low, pairs, whole, ih]

/-- A hexadecimal string is read up to its closing bracket. -/
theorem consume_renderHex (string rest : Bytes) (even : s.high = none) :
    consume step bytes s (string.flatMap Bytes.hexPair ++ Byte.greater :: rest) =
      (s.taken.reverse ++ string, (string.flatMap Bytes.hexPair).length + 1) := by
  have inside : Byte.greater ∉ string.flatMap Bytes.hexPair := by
    intro member
    obtain ⟨b, _, digit⟩ := List.mem_flatMap.mp member
    obtain ⟨high, low⟩ := Name.hexPair_ne (c := Byte.greater) rfl b
    simp [Bytes.hexPair, high.symm, low.symm] at digit
  rw [consume_pairs inside, even, Option.toList_none, List.nil_append, pairs_renderHex]

end PartialHex
end PdfObjects
