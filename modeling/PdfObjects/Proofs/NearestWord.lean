import PdfObjects.Proofs.Occurrences

/-! Searching backward in a document. The bytes of a word are compared from its last one on. After a
disagreement the search starts over without asking how the word overlaps itself; all it keeps is whether the
byte at hand is the last one of the word. What it passes over in this way has bytes of the word beside it,
so it would not have counted, and the nearest occurrence that counts is found. A limit is added to the
places passed, and where that takes a sum past the largest word the search ends before it has begun. -/
namespace PdfObjects

namespace Lexis

/-- A place at which a word stands without regular or numeric bytes beside it. The word reaches no further
than a cursor, and the place is less than a limit in front of that. Zero is no limit. -/
structure Nearby (word text : Bytes) (cursor limit place : Nat) : Prop where
  occurs : word <+: text.drop place
  left : 0 < place → ∀ b, text[place - 1]? = some b → (Byte.isRegular b || Byte.isNumeric b) = false
  right : ∀ b, text[place + word.length]? = some b → (Byte.isRegular b || Byte.isNumeric b) = false
  before : place + word.length ≤ cursor + 1
  limited : limit = 0 ∨ cursor < place + limit

/-- The last place at which something holds, if there is one. -/
def Last (holds : Nat → Prop) : Option Nat → Prop
  | none => ∀ place, ¬ holds place
  | some found => holds found ∧ ∀ place, holds place → place ≤ found

/-- How far a backward search has come. The bytes of the word that have agreed stand right behind a place,
the others are missing, last one first, and no occurrence that counts ends further back in the text than
those that have agreed. -/
structure Retraced (word text : Bytes) (cursor limit place : Nat) (missing agreed : Bytes) : Prop where
  split : word = missing.reverse ++ agreed
  more : missing ≠ []
  stands : agreed <+: text.drop (place + 1)
  inside : place + agreed.length ≤ cursor
  behind : ∀ other, Nearby word text cursor limit other → other + word.length ≤ place + 1 + agreed.length

variable {word text missing agreed : Bytes} {cursor limit place earlier : Nat} {b expected : UInt8}

/-- Nothing has agreed yet. -/
theorem retraced_start (nonempty : word ≠ []) : Retraced word text cursor limit cursor word.reverse [] where
  split := by simp
  more := by simpa using nonempty
  stands := List.nil_prefix
  inside := Nat.le_refl _
  behind _ nearby := nearby.before

/-- The byte at which a word ends is the last one of the word. -/
theorem Nearby.last_byte {other : Nat} (nearby : Nearby word text cursor limit other) (nonempty : word ≠ [])
    (ends : other + word.length = place + 1) (byte : text[place]? = some b) :
    word.reverse.head? = some b := by
  obtain ⟨rest, same⟩ := nearby.occurs
  have positive := List.length_pos_iff.mpr nonempty
  have index : place = other + (word.length - 1) := by omega
  rw [List.head?_reverse, List.getLast?_eq_getElem?, ← byte, index, ← List.getElem?_drop, ← same,
    List.getElem?_append_left (by omega)]

namespace Retraced

theorem length (retraced : Retraced word text cursor limit place missing agreed) :
    word.length = missing.length + agreed.length := by
  have split := congrArg List.length retraced.split
  rwa [List.length_append, List.length_reverse] at split

/-- An occurrence that counts cannot start behind the byte at hand. -/
theorem le (retraced : Retraced word text cursor limit place missing agreed) {other : Nat}
    (nearby : Nearby word text cursor limit other) : other ≤ place := by
  have behind := retraced.behind other nearby
  have length := retraced.length
  have positive := List.length_pos_iff.mpr retraced.more
  omega

/-- Where the bytes of the word and those behind the place are one run, the next byte of the word is at
the place. -/
theorem byte (retraced : Retraced word text cursor limit place (expected :: missing) agreed) {other : Nat}
    (occurs : word <+: text.drop other) (ends : other + word.length = place + 1 + agreed.length) :
    text[place]? = some expected := by
  obtain ⟨rest, same⟩ := occurs
  have length := retraced.length
  have here : place = other + missing.length := by
    rw [List.length_cons] at length
    omega
  have split : word = missing.reverse ++ expected :: agreed := by simpa using retraced.split
  rw [here, ← List.getElem?_drop, ← same, split, List.append_assoc,
    List.getElem?_append_right (by simp), List.length_reverse, Nat.sub_self]
  rfl

/-- One more byte agrees. -/
theorem agrees (retraced : Retraced word text cursor limit (earlier + 1) (b :: missing) agreed)
    (byte : text[earlier + 1]? = some b) (more : missing ≠ []) :
    Retraced word text cursor limit earlier missing (b :: agreed) where
  split := by simpa using retraced.split
  more := more
  stands := by
    obtain ⟨inside, here⟩ := List.getElem?_eq_some_iff.mp byte
    rw [List.drop_eq_getElem_cons inside, here]
    exact List.cons_prefix_cons.mpr ⟨rfl, retraced.stands⟩
  inside := by
    have inside := retraced.inside
    rw [List.length_cons]
    omega
  behind other nearby := by
    have behind := retraced.behind other nearby
    rw [List.length_cons]
    omega

/-- If the occurrence looked at does not count, none counts that ends behind the byte at hand: it would
have a byte that has agreed beside it. -/
theorem refused (retraced : Retraced word text cursor limit place missing agreed) (solid : Solid word)
    (fails : ∀ other, Nearby word text cursor limit other →
      other + word.length ≠ place + 1 + agreed.length)
    {other : Nat} (nearby : Nearby word text cursor limit other) : other + word.length ≤ place + 1 := by
  by_contra further
  have behind := retraced.behind other nearby
  have apart := fails other nearby
  obtain ⟨rest, same⟩ := retraced.stands
  have index : other + word.length - (place + 1) < agreed.length := by omega
  have beside : text[other + word.length]? = some agreed[other + word.length - (place + 1)] := by
    have shifted : (text.drop (place + 1))[other + word.length - (place + 1)]? =
        text[other + word.length]? := by
      rw [List.getElem?_drop, Nat.add_sub_cancel' (by omega)]
    rw [← shifted, ← same, List.getElem?_append_left index, List.getElem?_eq_getElem index]
  have part : agreed ⊆ word := by
    rw [retraced.split]
    exact List.subset_append_right _ _
  have inner := List.all_eq_true.mp solid.inner _ (part (List.getElem_mem index))
  rw [isInner_class, nearby.right _ beside] at inner
  cases inner

/-- Then the search starts over in front of the byte at hand. That byte has agreed already if it is the last
one of the word. -/
theorem restart_last (retraced : Retraced word text cursor limit (earlier + 1) missing agreed)
    (refused : ∀ other, Nearby word text cursor limit other → other + word.length ≤ earlier + 1 + 1)
    (byte : text[earlier + 1]? = some b) {others : Bytes} (last : word.reverse = b :: others)
    (two : 2 ≤ word.length) : Retraced word text cursor limit earlier others [b] where
  split := by rw [← List.reverse_reverse word, last, List.reverse_cons]
  more := by
    rintro rfl
    rw [← List.length_reverse, last] at two
    contradiction
  stands := by
    obtain ⟨within, here⟩ := List.getElem?_eq_some_iff.mp byte
    rw [List.drop_eq_getElem_cons within, here]
    exact List.cons_prefix_cons.mpr ⟨rfl, List.nil_prefix⟩
  inside := by
    have inside := retraced.inside
    rw [List.length_singleton]
    omega
  behind := refused

/-- Otherwise nothing has agreed. A word that ends with the byte at hand has it for its last byte. If that is
not kept, the word has no other byte, and the occurrence is the one that did not count. -/
theorem restart_anew (retraced : Retraced word text cursor limit (earlier + 1) missing agreed)
    (solid : Solid word) (fails : ∀ other, Nearby word text cursor limit other →
      other + word.length ≠ earlier + 1 + 1 + agreed.length)
    (byte : text[earlier + 1]? = some b) (short : word.reverse.head? = some b → word.length < 2) :
    Retraced word text cursor limit earlier word.reverse [] where
  split := by rw [List.reverse_reverse, List.append_nil]
  more := fun none => solid.nonempty (List.reverse_eq_nil_iff.mp none)
  stands := List.nil_prefix
  inside := by
    have inside := retraced.inside
    rw [List.length_nil]
    omega
  behind other nearby := by
    have here := retraced.refused solid fails nearby
    have apart := fails other nearby
    have length := retraced.length
    have more := List.length_pos_iff.mpr retraced.more
    have positive := List.length_pos_iff.mpr solid.nonempty
    rw [List.length_nil]
    by_contra further
    have ends : other + word.length = earlier + 1 + 1 := by omega
    have single := short (nearby.last_byte solid.nonempty ends byte)
    omega

theorem restart (retraced : Retraced word text cursor limit (earlier + 1) missing agreed) (solid : Solid word)
    (fails : ∀ other, Nearby word text cursor limit other →
      other + word.length ≠ earlier + 1 + 1 + agreed.length)
    (byte : text[earlier + 1]? = some b) : ∃ again, Retraced word text cursor limit earlier
      (if word.reverse.head? = some b && 2 ≤ word.length then word.reverse.tail else word.reverse) again := by
  by_cases kept : (word.reverse.head? = some b && 2 ≤ word.length) = true
  · obtain ⟨last, two⟩ : word.reverse.head? = some b ∧ 2 ≤ word.length := by
      simpa only [Bool.and_eq_true, decide_eq_true_eq] using kept
    obtain ⟨others, split⟩ := List.head?_eq_some_iff.mp last
    rw [if_pos kept, split, List.tail_cons]
    exact ⟨[b], retraced.restart_last (fun _ => retraced.refused solid fails) byte split two⟩
  · have short : word.reverse.head? = some b → word.length < 2 := by simpa using kept
    rw [if_neg kept]
    exact ⟨[], retraced.restart_anew solid fails byte short⟩

/-- In front of the start of the text nothing is left. -/
theorem nowhere (retraced : Retraced word text cursor limit 0 missing agreed) (solid : Solid word)
    (fails : ∀ other, Nearby word text cursor limit other → other + word.length ≠ 0 + 1 + agreed.length) :
    Last (Nearby word text cursor limit) none := by
  intro other nearby
  have here := retraced.refused solid fails nearby
  have apart := fails other nearby
  have length := retraced.length
  have more := List.length_pos_iff.mpr retraced.more
  have positive := List.length_pos_iff.mpr solid.nonempty
  omega

end Retraced
end Lexis

namespace Scan
open Lexis (Last Nearby Retraced Solid)

variable {t : Resident} {word missing agreed : Bytes} {b : UInt8} {cursor limit place : Nat}

theorem isGlue_inner : ∀ b : UInt8, isGlue false b = (Byte.isRegular b || Byte.isNumeric b) := by
  decide +kernel

/-- Whether an occurrence counts is up to the bytes beside it. -/
theorem isWholeWord_iff (solid : Solid word) (occurs : word <+: t.bytes.drop place)
    (before : place + word.length ≤ cursor + 1) (limited : limit = 0 ∨ cursor < place + limit) :
    ∃ alone : Bool, (isWholeWord place t.bytes.length word false).run t = (alone, t) ∧
      (alone = true ↔ Nearby word t.bytes cursor limit place) := by
  have fits := occurs.length_le
  have positive := List.length_pos_iff.mpr solid.nonempty
  rw [List.length_drop] at fits
  refine ⟨_, isWholeWord_neighbours solid (by omega) false, ?_⟩
  simp only [Bool.and_eq_true, Bool.or_eq_true, beq_iff_eq, Bool.not_eq_true', Option.any_eq_false,
    isGlue_inner]
  constructor
  · rintro ⟨left, right⟩
    exact ⟨occurs, fun further => left.resolve_left (Nat.ne_of_gt further), right, before, limited⟩
  · intro nearby
    refine ⟨?_, nearby.right⟩
    rcases Nat.eq_zero_or_pos place with first | further
    · exact .inl first
    · exact .inr (nearby.left further)

/-- The byte at hand settles what becomes of the occurrence looked at, if no other byte is missing or the
byte does not agree. -/
theorem occurrence_settled {expected : UInt8} (solid : Solid word)
    (retraced : Retraced word t.bytes cursor limit place (expected :: missing) agreed)
    (allowed : limit = 0 ∨ cursor < place + limit) (byte : t.bytes[place]? = some b)
    (settles : b = expected → missing = []) : ∃ alone : Bool,
    (∀ rest : Bool → Scan Bool,
      (if b = expected then documentSize >>= fun size => isWholeWord place size word false >>= rest
        else pure false >>= rest).run t = (rest alone).run t) ∧
    (alone = true → Nearby word t.bytes cursor limit place) ∧
    (alone = false → ∀ other, Nearby word t.bytes cursor limit other →
      other + word.length ≠ place + 1 + agreed.length) := by
  by_cases same : b = expected
  · obtain rfl := settles same
    have split : word = expected :: agreed := retraced.split
    have occurs : word <+: t.bytes.drop place := by
      obtain ⟨within, here⟩ := List.getElem?_eq_some_iff.mp byte
      rw [List.drop_eq_getElem_cons within, here, same, split]
      exact List.cons_prefix_cons.mpr ⟨rfl, retraced.stands⟩
    have length : word.length = agreed.length + 1 := by rw [split, List.length_cons]
    have inside := retraced.inside
    obtain ⟨alone, checked, counts⟩ := isWholeWord_iff solid occurs (by omega) allowed
    refine ⟨alone, ?_, counts.mp, fun glued other nearby ends => ?_⟩
    · intro rest
      have size : documentSize.run t = (t.bytes.length, t) := rfl
      rw [if_pos same, run_bind, size, run_bind, checked]
    · obtain rfl : other = place := by omega
      rw [counts.mpr nearby] at glued
      cases glued
  · refine ⟨false, fun rest => by rw [if_neg same]; rfl, nofun, fun _ other nearby ends => ?_⟩
    have here := retraced.byte nearby.occurs ends
    exact same (Option.some.inj (byte.symm.trans here))

/-- From wherever it has come to, the search finds the last occurrence that counts, if the limit does not
take it past the largest word. -/
theorem searchBackFrom_last (solid : Solid word) (within : cursor < t.bytes.length)
    (fits : limit = 0 ∨ cursor + limit < UInt64.size)
    (retraced : Retraced word t.bytes cursor limit place missing agreed) : ∃ found,
    (searchBackFrom word cursor limit place missing).run t =
      (found.isSome, { t with position := found.getD t.position }) ∧
      Last (Nearby word t.bytes cursor limit) found := by
  induction place using Nat.strongRecOn generalizing missing agreed with
  | ind place ih =>
  have inside := retraced.inside
  unfold searchBackFrom
  have test : (0 < limit ∧ Machine.wrapped cursor (place + limit) ≤ cursor) ↔
      0 < limit ∧ place + limit ≤ cursor :=
    and_congr_right fun positive => by rw [Machine.wrapped_of_fits (by omega)]
  rw [if_congr test rfl rfl]
  by_cases stopped : 0 < limit ∧ place + limit ≤ cursor
  · rw [if_pos stopped]
    refine ⟨none, rfl, fun other nearby => ?_⟩
    have before := retraced.le nearby
    have limited := nearby.limited
    omega
  obtain ⟨b, byte⟩ : ∃ b, t.bytes[place]? = some b := ⟨_, List.getElem?_eq_getElem (by omega)⟩
  have read : (byteBehind place).run t = (some b, t) := congrArg (·, t) byte
  obtain ⟨expected, missing, rfl⟩ := List.exists_cons_of_ne_nil retraced.more
  rw [if_neg stopped, run_bind, read]
  dsimp only
  by_cases agrees : (b = expected && !missing.isEmpty) = true
  · rw [if_pos agrees]
    obtain ⟨rfl, more⟩ : b = expected ∧ missing ≠ [] := by simpa using agrees
    cases place with
    | zero =>
      -- A byte of the word is still missing, and there are no more bytes.
      refine ⟨none, rfl, fun other nearby => ?_⟩
      have behind := retraced.behind other nearby
      have length := retraced.length
      have positive := List.length_pos_iff.mpr more
      rw [List.length_cons] at length
      omega
    | succ earlier => exact ih earlier (Nat.lt_succ_self _) (retraced.agrees byte more)
  · obtain ⟨alone, checked, counts, fails⟩ := occurrence_settled solid retraced (by omega) byte
      (by simpa using agrees)
    rw [if_neg agrees, checked]
    cases alone with
    | true =>
      refine ⟨some place, ?_, counts rfl, fun other nearby => retraced.le nearby⟩
      rw [if_pos rfl, run_bind, seek_run (by omega)]
      rfl
    | false =>
      cases place with
      | zero => exact ⟨none, rfl, retraced.nowhere solid (fails rfl)⟩
      | succ earlier =>
        obtain ⟨again, restarted⟩ := retraced.restart solid (fails rfl) byte
        exact ih earlier (Nat.lt_succ_self _) restarted

/-- A backward search finds the last occurrence that counts, or that there is none, and does not move
then. -/
theorem searchBack_last (solid : Solid word) (within : t.position < t.bytes.length)
    (fits : limit = 0 ∨ t.position + limit < UInt64.size) :
    ∃ found, (searchBack word limit).run t =
        (found.isSome, { t with position := found.getD t.position }) ∧
      Last (Nearby word t.bytes t.position limit) found := by
  have nonempty : ¬ word.isEmpty = true := by simpa using solid.nonempty
  rw [searchBack, run_bind, position_run, if_neg nonempty]
  exact searchBackFrom_last solid within fits (Lexis.retraced_start solid.nonempty)

/-- A limit that takes the cursor past the largest word looks like one that is used up already. -/
theorem searchBack_overflow {limit : UInt64} (positive : limit ≠ 0)
    (overflow : UInt64.size ≤ t.position + limit.toNat) :
    (searchBack word limit.toNat).run t = (false, t) := by
  have more : 0 < limit.toNat := Nat.pos_of_ne_zero fun none => positive (UInt64.toNat_inj.mp none)
  have stopped : 0 < limit.toNat ∧ Machine.wrapped t.position (t.position + limit.toNat) ≤ t.position :=
    ⟨more, Machine.wrapped_of_overflow limit.toNat_lt overflow⟩
  rw [searchBack, run_bind, position_run]
  split
  · rfl
  · unfold searchBackFrom
    dsimp only
    rw [if_pos stopped]
    rfl

end Scan

namespace Reader
open Lexis (Nearby)

variable {document word : Bytes} {r : Reader}

/-- Occurrences beside delimiters, some that overlap behind a letter, and one in front of a digit. -/
def overlapsText : Bytes := Bytes.ofAscii "(abab)/abab xabababab abab1 ab".toList

/-- A reader of that text, two bytes into its source and with a narrow window, on the last byte. -/
def overlapsReader : Reader :=
  (ofGate { source := .memory (Bytes.ofAscii ['x', 'y'] ++ overlapsText).toArray } 2 { windowSize := 3 }).seek 29

end Reader
end PdfObjects
