import PdfObjects.Lexis
import PdfObjects.Object.WellFormed
import PdfObjects.Proofs.Levels
import PdfObjects.Proofs.Numbers
import PdfObjects.Proofs.Values

/-! Every object that is read is well formed, whatever the bytes are and whichever of them can be had.
What a word can become is bounded by the word; what is nested is read for one level less, and sorted out
by arrays and dictionaries before it gets into them. Recovery from damage leaves out elements and
entries, so it does no harm. Nothing in this is special to being well formed: it goes for every invariant
that words meet and arrays and dictionaries keep. -/
namespace PdfObjects

namespace Numeral

theorem bounded_le {limit n : Nat} {word : Bytes} (read : bounded limit word = some n) : n ≤ limit := by
  rw [bounded_eq] at read
  obtain ⟨fits, same⟩ := Option.ite_none_right_eq_some.mp read
  cases same
  exact fits

theorem bounded_getD_le {limit other : Nat} (word : Bytes) (fits : other ≤ limit) :
    (bounded limit word).getD other ≤ limit := by
  cases read : bounded limit word with
  | none => exact fits
  | some n => exact bounded_le read

theorem saturating_le (word : Bytes) : saturating word ≤ maxUnsigned :=
  bounded_getD_le _ (Nat.le_refl _)

theorem integer_fits (word : Bytes) : Fits (integer word) := by
  unfold integer Fits
  cases word with
  | nil => decide
  | cons b rest =>
    have positive := bounded_getD_le rest (Nat.zero_le maxSigned)
    have negative := bounded_getD_le rest (Nat.zero_le (maxSigned + 1))
    have unsigned := bounded_getD_le (b :: rest) (Nat.zero_le maxUnsigned)
    simp only [maxSigned, maxUnsigned] at positive negative unsigned ⊢
    split
    · omega
    · split <;> omega

end Numeral

namespace Name

/-- An escaped NUL stands for nothing. -/
theorem decode_clean {written : Bytes} (clean : 0 ∉ written) : 0 ∉ decode written := by
  fun_induction decode written <;> simp_all [eq_comm]

/-- Escapes are longer than what they stand for. -/
theorem decode_length (written : Bytes) : (decode written).length ≤ written.length := by
  fun_induction decode written <;> simp_all <;> omega

theorem kept_decode {limit : Nat} {written : Bytes} (clean : 0 ∉ written)
    (short : written.length + 1 ≤ limit) : Kept limit (decode written) :=
  ⟨decode_clean clean, Nat.le_trans (Nat.succ_le_succ (decode_length written)) short⟩

end Name

/-- Without a NUL behind its first byte. -/
def Bytes.Clean (bytes : Bytes) : Prop := 0 ∉ bytes.tail

/-- A word as it comes from a document: no longer than is kept of it, and clean. -/
structure Word.Proper (limit : Nat) (w : Word) : Prop where
  short : w.bytes.length ≤ limit
  clean : w.bytes.Clean

namespace Scan

variable {r : Reader}

/-- The bytes of a run while it is read, last one first. -/
def CleanSoFar (taken : Bytes) : Prop := taken ≠ [] ∧ 0 ∉ taken.dropLast

theorem CleanSoFar.push {b : UInt8} {taken : Bytes} (clean : CleanSoFar taken)
    (inner : Lexis.isInner b = true) : CleanSoFar (b :: taken) := by
  have present : 0 ≠ b := by
    rintro rfl
    revert inner
    decide
  refine ⟨List.cons_ne_nil b taken, ?_⟩
  rw [List.dropLast_cons_of_ne_nil clean.1]
  exact List.not_mem_cons_of_ne_of_not_mem present clean.2

theorem CleanSoFar.turn {taken : Bytes} (clean : CleanSoFar taken) : Bytes.Clean taken.reverse := by
  unfold Bytes.Clean
  rw [List.tail_reverse, List.mem_reverse]
  exact clean.2

theorem restOfRun_gives (b : UInt8) : Gives r (restOfRun [b]) Bytes.Clean := by
  refine gives_after fun fuel => ?_
  refine takeFrom_gives CleanSoFar ?_ ?_ ?_ (fun _ => CleanSoFar.turn) fuel [b]
    ⟨List.cons_ne_nil b [], List.not_mem_nil⟩
  · intro taken c taken' clean made
    split at made
    · cases made
    · rename_i outer
      cases made
      exact clean.push (by simpa [Lexis.isInner] using outer)
  · intro taken c answer clean made
    split at made
    · cases made
      exact clean.turn
    · cases made
  · intro taken c answer clean made
    split at made <;> cases made

/-- The second byte of a pair of brackets is a bracket. -/
theorem lexeme_gives : Gives r lexeme Bytes.Clean := by
  have single (b : UInt8) : Gives r (pure [b]) Bytes.Clean := gives_pure List.not_mem_nil
  unfold lexeme
  refine gives_after fun found => ?_
  cases found with
  | none => exact gives_pure List.not_mem_nil
  | some b =>
    refine gives_ite (fun _ => restOfRun_gives b) fun _ => ?_
    refine gives_ite (fun angle => ?_) fun _ => single b
    refine gives_after fun found => ?_
    cases found with
    | none => exact single b
    | some c =>
      refine gives_ite (fun same => gives_pure ?_) fun _ => gives_after fun _ => single b
      subst same
      intro member
      rw [List.tail_cons, List.mem_singleton] at member
      subst member
      revert angle
      decide

theorem rawWord_gives : Gives r rawWord (Word.Proper r.limits.wordLength) := by
  refine gives_after fun _ => ?_
  have asked : Gives r settings fun found => found = r.limits.toSettings :=
    fun _ bounds => congrArg Limits.toSettings bounds.limits
  refine asked.bind fun found same => ?_
  subst same
  refine lexeme_gives.bind fun bytes clean => ?_
  refine gives_after fun _ => gives_pure ⟨List.length_take_le _ _, fun member => clean ?_⟩
  exact (List.take_sublist r.limits.wordLength bytes).tail.mem member

/-- Words are proper, also where reading them fails. -/
theorem word_gives : Gives r word (Word.Proper r.limits.wordLength) := by
  refine rawWord_gives.session.bind fun result proper => ?_
  obtain ⟨word, problems⟩ := result
  cases problems with
  | true => exact gives_pure ⟨Nat.zero_le _, List.not_mem_nil⟩
  | false => exact gives_pure proper

end Scan
open Object (Within SoundEntry WellFormed)

variable {limit size levels : Nat}

/-- What one word can make: a name, a truth value or null. -/
theorem Lead.ofWord_whole {word : Bytes} {o : Object} (lead : Lead.ofWord word = .whole o) :
    (∃ rest, word = Byte.slash :: rest ∧ o = .name (Name.decode rest)) ∨
      (∃ value, o = .boolean value) ∨ o = .null := by
  cases word with
  | nil => cases lead
  | cons first rest =>
    unfold Lead.ofWord at lead
    by_cases slash : first = Byte.slash
    · subst slash
      cases lead
      exact .inl ⟨rest, rfl, rfl⟩
    · refine .inr ?_
      simp only [if_neg slash] at lead
      repeat' split at lead
      all_goals cases lead
      · exact .inl ⟨true, rfl⟩
      · exact .inl ⟨false, rfl⟩
      · exact .inr rfl

/-- A key starts with a slash. -/
theorem KeyWord.ofWord_key {word name : Bytes} (meaning : KeyWord.ofWord word = .key name) :
    ∃ rest, word = Byte.slash :: rest ∧ name = Name.decode rest := by
  cases word with
  | nil => cases meaning
  | cons first rest =>
    unfold KeyWord.ofWord at meaning
    by_cases slash : first = Byte.slash
    · subst slash
      cases meaning
      exact ⟨rest, rfl, rfl⟩
    · simp only [if_neg slash] at meaning
      repeat' split at meaning
      all_goals cases meaning

namespace Word

/-- What follows the slash is the written form of a name. -/
theorem Proper.kept {word : Word} {rest : Bytes} (proper : word.Proper limit)
    (same : word.bytes = Byte.slash :: rest) : Name.Kept limit (Name.decode rest) := by
  obtain ⟨short, clean⟩ := proper
  rw [same] at short clean
  exact Name.kept_decode clean short

end Word

namespace Object

/-- An object without parts takes no more than a level. -/
theorem within_leaf {o : Object} (sound : o.Sound limit size) (leaf : o.parts = [])
    (flat : o.height = 1) : Within limit size (levels + 1) o :=
  ⟨wellFormed_leaf sound leaf, by rw [flat]; exact Nat.le_add_left 1 levels⟩

/-- The entries of a dictionary while it is read. -/
structure Entries (limit size levels : Nat) (dict : Dictionary) : Prop where
  sound : ∀ entry ∈ dict, SoundEntry limit entry
  within : ∀ entry ∈ dict, Within limit size levels entry.2

theorem Entries.insert {dict : Dictionary} {key : Bytes} {value : Object}
    (entries : Entries limit size levels dict) (kept : Name.Kept limit key)
    (counts : Parse.isEntry key value = true) (within : Within limit size levels value) :
    Entries limit size levels (dict.insert key value) := by
  have sound : SoundEntry limit (key, value) := by
    simp only [Parse.isEntry, Bool.and_eq_true, Bool.not_eq_true'] at counts
    obtain ⟨⟨named, direct⟩, present⟩ := counts
    exact ⟨List.isEmpty_eq_false_iff.mp named, kept, direct, present⟩
  constructor
  · intro entry member
    rcases Keyed.mem_insert member with rfl | old
    · exact sound
    · exact entries.sound entry old
  · intro entry member
    rcases Keyed.mem_insert member with rfl | old
    · exact within
    · exact entries.within entry old

/-- Something that is true of everything that is read, by the levels that it may nest. It is true of all
that a single word can make, and arrays and dictionaries keep it. -/
structure Invariant (limit size : Nat) where
  holds : (levels : Nat) → Object → Prop
  /-- What is true of the entries of a dictionary while it is read. -/
  held : (levels : Nat) → Dictionary → Prop
  leaf {levels : Nat} {o : Object} (sound : Sound limit size o) (single : o.parts = []) (flat : o.height = 1) :
    holds (levels + 1) o
  array {levels : Nat} {elements : List Object} (positive : 0 < levels)
    (direct : ∀ element ∈ elements, element.isStream = false)
    (parts : ∀ element ∈ elements, holds levels element) : holds (levels + 1) (.array elements)
  empty (levels : Nat) : held levels []
  insert {levels : Nat} {dict : Dictionary} {key : Bytes} {value : Object} (entries : held levels dict)
    (kept : Name.Kept limit key) (counts : Parse.isEntry key value = true) (part : holds levels value) :
    held levels (dict.insert key value)
  dictionary {levels : Nat} {dict : Dictionary} (entries : held levels dict) :
    holds (levels + 1) (.dictionary dict)
  stream {levels : Nat} {dict : Dictionary} {payload : Bytes} (entries : held levels dict)
    (fits : payload.length ≤ size) : holds (levels + 1) (.stream dict payload)

/-- Being well formed, and nesting no deeper than it may. -/
def soundness : Invariant limit size where
  holds := Within limit size
  held := Entries limit size
  leaf := within_leaf
  array := within_array
  empty _ := ⟨nofun, nofun⟩
  insert := Entries.insert
  dictionary entries := within_dictionary entries.sound entries.within
  stream entries fits := within_stream entries.sound entries.within fits

namespace Invariant

variable (inv : Invariant limit size)

/-- What a word makes as a whole. -/
theorem lead {word : Word} {o : Object} (proper : word.Proper limit)
    (lead : Lead.ofWord word.bytes = .whole o) : inv.holds (levels + 1) o := by
  obtain ⟨rest, same, rfl⟩ | ⟨value, rfl⟩ | rfl := Lead.ofWord_whole lead
  · exact inv.leaf (proper.kept same) rfl rfl
  · exact inv.leaf trivial rfl rfl
  · exact inv.leaf trivial rfl rfl

theorem numeral (word : Bytes) : inv.holds (levels + 1) (ofNumeral word) := by
  unfold ofNumeral
  split
  · exact inv.leaf trivial rfl rfl
  · exact inv.leaf (Numeral.integer_fits word) rfl rfl

end Invariant

end Object

section Delivery

/-- What a source delivers is as long as what was asked for. -/
theorem Source.read_length {source after : Source} {offset length : Nat} {bytes : Array UInt8}
    (read : source.read offset length = (.ok bytes, after)) : bytes.size = length := by
  induction source generalizing after offset with
  | memory held =>
    unfold Source.read at read
    split at read
    · cases read
      rw [Array.size_extract]
      omega
    · cases read
  | stream held position =>
    unfold Source.read at read
    split at read
    · cases read
      rw [Array.size_extract]
      omega
    · cases read
  | window inner start size ih =>
    unfold Source.read at read
    split at read
    · cases inside : inner.read (start + offset) length with
      | mk result behind =>
        rw [inside] at read
        cases read
        exact ih inside
    · cases read

theorem Gate.read_length {g after : Gate} {offset length : Nat} {bytes : Array UInt8}
    (read : g.read offset length = (some bytes, after)) :
    bytes.size = length ∧ offset + length ≤ g.size := by
  unfold Gate.read at read
  split at read
  · cases read
  · rename_i inside
    split at read
    · cases read
    · split at read
      · rename_i delivered
        cases read
        exact ⟨Source.read_length delivered, Nat.le_of_not_lt inside⟩
      · cases read

/-- A block of a document is no longer than the document. -/
theorem Reader.block_length {t : Reader} {position length : Nat} {bytes : Bytes}
    (found : (t.block position length).1 = some bytes) : bytes.length ≤ t.size := by
  unfold Reader.block at found
  cases read : t.gate.read (position + t.origin) length with
  | mk result after =>
    rw [read] at found
    obtain ⟨block, rfl, rfl⟩ := Option.map_eq_some_iff.mp found
    obtain ⟨same, inside⟩ := Gate.read_length read
    rw [Array.length_toList, same]
    unfold Reader.size
    omega

end Delivery

namespace Parse
open Object (Invariant)

variable {r : Reader} {resolve : Resolver} {mode : Mode}

theorem payloadBytes_gives (start length : Nat) :
    Gives r (payloadBytes start length) fun bytes => bytes.length ≤ r.size := by
  have asked : Scan.Gives r (Scan.block start length) fun found =>
      ∀ bytes, found = some bytes → bytes.length ≤ r.size :=
    fun t bounds bytes found => bounds.size ▸ Reader.block_length found
  refine gives_ite (fun _ => gives_pure (Nat.zero_le _)) fun _ => ?_
  refine gives_lift_bind asked fun found fits => ?_
  cases found with
  | none => exact gives_throw _
  | some bytes => exact gives_pure (fits bytes rfl)

theorem payload_gives (dict : Dictionary) :
    Gives r (payload dict resolve) fun bytes => bytes.length ≤ r.size := by
  unfold payload
  refine gives_after fun _ => gives_after fun start => gives_after fun size => ?_
  refine (gives_any _).bind fun length _ => ?_
  refine (payloadBytes_gives start length).bind fun bytes fits => ?_
  exact gives_after fun _ => gives_pure fits

theorem numberOrReference_gives (inv : Invariant limit size) (first : Bytes) :
    Gives r (numberOrReference first) (inv.holds (levels + 1)) := by
  unfold numberOrReference
  refine gives_after fun here => gives_after fun tail => ?_
  cases tail with
  | none => exact gives_pure (inv.numeral first)
  | some generation =>
    refine gives_ite (fun _ => gives_throw _) fun valid => gives_pure ?_
    have bound := Numeral.saturating_le first
    refine inv.leaf ⟨?_, ?_, Nat.min_le_right _ _⟩ rfl rfl
    · omega
    · omega

/-- Nothing nests where no level is left: the first element already ends the array. -/
theorem elements_none (fuel : Nat) (taken : List Object) :
    Gives r (elements (body resolve 0 mode) (fuel + 1) taken) fun _ => False := by
  intro t _
  constructor
  · rintro objects u ⟨⟩
  · exact fun _ _ _ => trivial

theorem elements_gives {element : Parse Object} {kind : Object → Prop} (inner : Gives r element kind)
    (fuel : Nat) (taken : List Object) (direct : ∀ o ∈ taken, o.isStream = false)
    (alike : ∀ o ∈ taken, kind o) :
    Gives r (elements element fuel taken) fun objects =>
      (∀ o ∈ objects, o.isStream = false) ∧ ∀ o ∈ objects, kind o := by
  have turned : (∀ o ∈ taken.reverse, o.isStream = false) ∧ ∀ o ∈ taken.reverse, kind o := by
    simpa using ⟨direct, alike⟩
  induction fuel generalizing taken with
  | zero => exact gives_pure turned
  | succ fuel ih =>
    unfold elements
    refine inner.outcome.bind fun result made => ?_
    cases result with
    | error reason => exact gives_ite (fun _ => gives_throw _) fun _ => gives_pure turned
    | ok object =>
      dsimp only
      by_cases stream : object.isStream = true
      · rw [if_pos stream]
        exact ih taken direct alike turned
      · rw [if_neg stream]
        have first : object.isStream = false := by simpa using stream
        have more : ∀ o ∈ object :: taken, o.isStream = false :=
          List.forall_mem_cons.mpr ⟨first, direct⟩
        have deeper : ∀ o ∈ object :: taken, kind o :=
          List.forall_mem_cons.mpr ⟨made object rfl, alike⟩
        refine ih (object :: taken) more deeper ?_
        constructor
        · exact fun o member => more o (List.mem_reverse.mp member)
        · exact fun o member => deeper o (List.mem_reverse.mp member)

theorem array_gives (inv : Invariant limit size)
    (inner : Gives r (body resolve levels .loose) (inv.holds levels)) :
    Gives r (array (body resolve levels .loose) mode) (inv.holds (levels + 1)) := by
  unfold array
  refine gives_after fun left => ?_
  have read : Gives r (elements (body resolve levels .loose) (left + 1) []) fun objects =>
      0 < levels ∧ (∀ o ∈ objects, o.isStream = false) ∧ ∀ o ∈ objects, inv.holds levels o := by
    cases levels with
    | zero => exact (elements_none left []).mono fun _ never => never.elim
    | succ levels =>
      exact (elements_gives inner (left + 1) [] (fun _ => nofun) fun _ => nofun).mono
        fun _ holds => ⟨Nat.succ_pos levels, holds⟩
  refine read.bind fun objects made => ?_
  obtain ⟨positive, direct, parts⟩ := made
  refine gives_after fun last => gives_ite (fun _ => ?_) fun _ => gives_after fun _ => gives_throw _
  exact gives_pure (inv.array positive direct parts)

theorem entries_gives (inv : Invariant r.limits.wordLength size) {value : Parse Object}
    (inner : Gives r value (inv.holds levels)) (fuel : Nat) (dict : Dictionary)
    (held : inv.held levels dict) : Gives r (entries value mode fuel dict) (inv.held levels) := by
  induction fuel generalizing dict with
  | zero => exact gives_after fun _ => gives_throw _
  | succ fuel ih =>
    unfold entries
    refine gives_lift_bind Scan.word_gives fun word proper => gives_after fun here => ?_
    refine gives_ite (fun _ => gives_throw_bind _) fun _ => ?_
    dsimp only
    cases meaning : KeyWord.ofWord word.bytes with
    | close => exact gives_pure held
    | endObject => exact gives_after fun _ => gives_pure held
    | other => exact ih dict held
    | key name =>
      obtain ⟨rest, same, rfl⟩ := KeyWord.ofWord_key meaning
      refine gives_ite (fun _ => gives_after fun _ => gives_throw_bind _) fun _ => ?_
      refine inner.outcome.bind fun result made => ?_
      cases result with
      | ok object =>
        dsimp only
        by_cases counts : isEntry (Name.decode rest) object = true
        · rw [if_pos counts]
          exact ih _ (inv.insert held (proper.kept same) counts (made object rfl))
        · rw [if_neg counts]
          exact ih dict held
      | error reason =>
        refine gives_ite (fun _ => gives_throw _) fun _ => ?_
        exact gives_ite (fun _ => ih dict held) fun _ => gives_after fun _ => gives_throw _

theorem dictionary_gives (inv : Invariant r.limits.wordLength r.size) {value : Parse Object}
    (inner : Gives r value (inv.holds levels)) :
    Gives r (dictionary value resolve mode) (inv.holds (levels + 1)) := by
  unfold dictionary
  refine gives_after fun left => ?_
  refine (entries_gives inv inner (left + 1) [] (inv.empty levels)).bind fun dict held => ?_
  refine gives_after fun found => gives_ite (fun _ => ?_) fun _ => ?_
  · exact (payload_gives dict).bind fun bytes fits => gives_pure (inv.stream held fits)
  · exact gives_pure (inv.dictionary held)

theorem rewinding_gives {start : Nat} {program : Parse Object} {kind : Object → Prop}
    (inner : Gives r program kind) : Gives r (rewinding start program) kind := by
  refine inner.outcome.bind fun result made => ?_
  cases result with
  | ok object => exact gives_pure (made object rfl)
  | error reason =>
    exact gives_ite (fun _ => gives_after fun _ => gives_throw _) fun _ => gives_throw _

/-- An invariant holds of every object that is read, for the levels it has. -/
theorem body_keeps (inv : Invariant r.limits.wordLength r.size) (levels : Nat) (mode : Mode) :
    Gives r (body resolve levels mode) (inv.holds levels) := by
  induction levels generalizing mode with
  | zero => exact gives_after fun _ => gives_throw _
  | succ levels ih =>
    unfold body announced
    refine gives_after fun start => gives_lift_bind Scan.word_gives fun word proper => ?_
    refine gives_ite (fun _ => gives_after fun _ => gives_throw_bind _) fun _ => ?_
    refine gives_ite (fun _ => numberOrReference_gives inv word.bytes) fun _ => ?_
    cases lead : Lead.ofWord word.bytes with
    | whole object => exact gives_pure (inv.lead proper lead)
    | literalString => exact gives_after fun _ => gives_pure (inv.leaf trivial rfl rfl)
    | hexString => exact gives_after fun _ => gives_pure (inv.leaf trivial rfl rfl)
    | array => exact rewinding_gives (array_gives inv (ih .loose))
    | dictionary => exact rewinding_gives (dictionary_gives inv (ih .loose))
    | dictionaryEnd => exact gives_after fun _ => gives_throw _
    | nothing => exact gives_throw _

theorem anyObject_keeps (inv : Invariant r.limits.wordLength r.size) : Gives r (anyObject resolve mode)
    (inv.holds (r.limits.nesting - r.limits.depth)) := by
  intro t bounds
  have read : (anyObject resolve mode).run.run t =
      (body resolve (t.limits.nesting - t.limits.depth) mode).run.run t := anyObject_levels Reader.nesting t
  rw [bounds.limits] at read
  exact (body_keeps inv _ mode t bounds).alike read

theorem headerAndObject_keeps (inv : Invariant r.limits.wordLength r.size) :
    Gives r (headerAndObject resolve mode) fun i =>
      inv.holds (r.limits.nesting - r.limits.depth) i.object := by
  unfold headerAndObject
  refine gives_after fun start => (gives_any _).bind fun number _ => ?_
  refine (gives_any _).bind fun generation _ => gives_after fun keyword => ?_
  refine gives_ite (fun _ => gives_after fun _ => gives_throw_bind _) fun _ => ?_
  exact (anyObject_keeps inv).bind fun object made => gives_pure made

theorem anyObject_gives : Gives r (anyObject resolve mode)
    (Within r.limits.wordLength r.size (r.limits.nesting - r.limits.depth)) :=
  anyObject_keeps Object.soundness

theorem headerAndObject_gives : Gives r (headerAndObject resolve mode) fun i =>
    Within r.limits.wordLength r.size (r.limits.nesting - r.limits.depth) i.object :=
  headerAndObject_keeps Object.soundness

theorem whole_gives {program : Parse α} {kind : α → Prop} (inner : Gives r program kind) :
    Gives r (whole program) kind := by
  have tried : Scan.Gives r program.run fun result => ∀ value, result = .ok value → kind value := by
    intro t bounds value same
    exact (inner t bounds).value value _ (Prod.ext same rfl)
  refine gives_lift_bind tried.session fun result made => ?_
  obtain ⟨result, problems⟩ := result
  refine gives_ite (fun _ => gives_throw_bind _) fun _ => ?_
  cases result with
  | ok value => exact gives_pure (made value rfl)
  | error reason => exact gives_throw _

/-- What a reader returns has every invariant, for the levels that it has left. -/
theorem returned_keeps (inv : Invariant r.limits.wordLength r.size) :
    (∀ o t, (object resolve).run.run r = (.ok o, t) → inv.holds (r.limits.nesting - r.limits.depth) o) ∧
    ∀ mode i t, (indirect resolve mode).run.run r = (.ok i, t) →
      inv.holds (r.limits.nesting - r.limits.depth) i.object := by
  have self : r.SameBounds r := ⟨rfl, rfl⟩
  constructor
  · intro o t ran
    exact (whole_gives (anyObject_keeps inv) r self).value o t ran
  · intro mode i t ran
    exact (whole_gives (headerAndObject_keeps inv) r self).value i t ran

/-- Within the levels that a reader has left. -/
private theorem within_reader {o : Object}
    (within : Within r.limits.wordLength r.size (r.limits.nesting - r.limits.depth) o) :
    o.WellFormed r.options.effectiveWordLength r.size ∧ o.height + r.depth ≤ r.options.maxDepth := by
  obtain ⟨wellFormed, shallow⟩ := within
  have some := o.height_pos
  simp only [Reader.limits] at shallow
  exact ⟨wellFormed, by omega⟩

/-- What a reader returns is well formed, whatever its document holds and wherever its cursor is, and nests
no deeper than its settings allow, the levels included that are already taken. -/
theorem returned_wellFormed (r : Reader) (resolve : Resolver) :
    (∀ o t, (object resolve).run.run r = (.ok o, t) →
      o.WellFormed r.options.effectiveWordLength r.size ∧
        o.height + r.depth ≤ r.options.maxDepth) ∧
    ∀ mode i t, (indirect resolve mode).run.run r = (.ok i, t) →
      i.object.WellFormed r.options.effectiveWordLength r.size ∧
        i.object.height + r.depth ≤ r.options.maxDepth := by
  have self : r.SameBounds r := ⟨rfl, rfl⟩
  constructor
  · intro o t ran
    exact within_reader ((whole_gives anyObject_gives r self).value o t ran)
  · intro mode i t ran
    exact within_reader ((whole_gives headerAndObject_gives r self).value i t ran)

/-- An array without its bracket, in which there are an empty key, a number out of range, a null entry and
a stream. -/
def damagedArray : Reader :=
  let text := "[<</#00 2/K 99999999999/Z null>><<>>stream\nx\nendstream 1 0 R"
  Reader.ofGate { source := .memory (Bytes.ofAscii text.toList).toArray } 0 { maxDepth := 3 }

/-- A stream that does not declare its length. -/
def looseStream : Reader :=
  let text := "7 0 obj<</K[2]>>stream\nx\nendstream"
  Reader.ofGate { source := .memory (Bytes.ofAscii text.toList).toArray } 0 { maxDepth := 3 }

private theorem damagedArray_read : ((object Resolver.empty).run.run damagedArray).1 =
    .ok (.array [.dictionary [(Bytes.ofAscii ['K'], .integer 0)], .reference 1 0]) := by rfl

private theorem looseStream_read : ((indirect Resolver.empty .strict).run.run looseStream).1 =
    .ok ⟨7, 0, .stream [(Bytes.ofAscii ['K'], .array [.integer 2])] (Bytes.ofAscii ['x'])⟩ := by rfl

private theorem answered {result : Except Error α × Reader} {value : α} (same : result.1 = .ok value) :
    result = (.ok value, result.2) := by rw [← same]

/-- What is left of the one, and all of the other. -/
theorem returned_wellFormed_damaged :
    let found := Object.array [.dictionary [(Bytes.ofAscii ['K'], .integer 0)], .reference 1 0]
    let filled := Object.stream [(Bytes.ofAscii ['K'], .array [.integer 2])] (Bytes.ofAscii ['x'])
    ((object Resolver.empty).run.run damagedArray).1 = .ok found ∧
      found.WellFormed 255 damagedArray.size ∧ found.height ≤ 3 ∧
      ((indirect Resolver.empty .strict).run.run looseStream).1 = .ok ⟨7, 0, filled⟩ ∧
      filled.WellFormed 255 looseStream.size ∧ filled.height ≤ 3 := by
  intro found filled
  have array := returned_wellFormed damagedArray Resolver.empty
  have stream := returned_wellFormed looseStream Resolver.empty
  obtain ⟨foundSound, foundFlat⟩ := array.1 found _ (answered damagedArray_read)
  obtain ⟨filledSound, filledFlat⟩ := stream.2 .strict _ _ (answered looseStream_read)
  exact ⟨damagedArray_read, foundSound, foundFlat, looseStream_read, filledSound, filledFlat⟩

end Parse
end PdfObjects
