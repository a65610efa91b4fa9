import PdfObjects.Proofs.Names
import PdfObjects.Proofs.Soundness
import PdfObjects.Proofs.Tokens

/-! Writing names is a code. Every byte that would end the name, or start an escape, is itself escaped, so
what is written is one word, and it is read as the name that was written, but for the NUL bytes. It follows
that names without NUL can be told apart by how they are written. All keys that are read are such names, and
a dictionary has each of its keys once, so no two of them are written alike. -/
namespace PdfObjects

namespace Name

/-- Names without NUL can be told apart. -/
theorem encode_injective {name other : Bytes} (clean : 0 ∉ name) (cleanOther : 0 ∉ other)
    (same : encode name = encode other) : name = other := by
  rw [← decode_encode clean, same, decode_encode cleanOther]

theorem render_injective {name other : Bytes} (clean : 0 ∉ name) (cleanOther : 0 ∉ other)
    (same : render name = render other) : name = other :=
  encode_injective clean cleanOther (List.cons_injective same)

theorem encode_bytes (name : Bytes) : ∀ b ∈ encode name, (Byte.isRegular b || Byte.isNumeric b) = true :=
  fun b member => (Lexis.isInner_class b).symm.trans (encode_inner name b member)

/-- A written name is a word wherever a word can end behind it. -/
theorem render_lexeme (name : Bytes) {after : Bytes}
    (ends : ∀ b ∈ after.head?, (Byte.isWhitespace b || Byte.isDelimiter b) = true) :
    Lexis.Lexeme (render name) after := by
  refine .name (encode_bytes name) fun b next => ?_
  rw [← Lexis.isInner_class, Lexis.isInner_outer, ends b next, Bool.not_true]

end Name

namespace Object

/-- An object itself, its parts, and theirs. -/
inductive Inside : (inner outer : Object) → Prop where
  | self {o : Object} : Inside o o
  | part {inner part o : Object} (inside : Inside inner part) (member : part ∈ o.parts) : Inside inner o

/-- Entries in the order of their keys, none of which has a NUL. -/
structure Listed (entries : Dictionary) : Prop where
  ordered : Keyed.Ordered entries
  clean : ∀ entry ∈ entries, 0 ∉ entry.1

/-- The dictionaries in an object, at any depth, are such lists. -/
def HasListed (o : Object) : Prop :=
  ∀ inner entries, Inside inner o → inner.asDictionary = some entries → Listed entries

variable {limit size : Nat} {o : Object} {entries : Dictionary}

theorem hasListed_of_parts (own : ∀ entries, o.asDictionary = some entries → Listed entries)
    (parts : ∀ part ∈ o.parts, part.HasListed) : o.HasListed := by
  intro inner entries inside found
  cases inside with
  | self => exact own entries found
  | part inside member => exact parts _ member inner entries inside found

theorem asDictionary_parts (found : o.asDictionary = some entries) : o.parts = entries.map Prod.snd := by
  cases o <;> cases found <;> rfl

theorem hasListed_of_entries (found : o.asDictionary = some entries) (listed : Listed entries)
    (parts : ∀ entry ∈ entries, entry.2.HasListed) : o.HasListed := by
  refine hasListed_of_parts (fun other again => ?_) ?_
  · cases found.symm.trans again
    exact listed
  · rw [asDictionary_parts found]
    exact List.forall_mem_map.mpr parts

theorem listed_insert {key : Bytes} {value : Object} (listed : Listed entries) (clean : 0 ∉ key) :
    Listed (entries.insert key value) := by
  refine ⟨Keyed.insert_ordered listed.ordered, fun entry member => ?_⟩
  rcases Keyed.mem_insert member with rfl | old
  · exact clean
  · exact listed.clean entry old

/-- Dictionaries are lists of the kind, whatever they are read from. -/
def listing : Invariant limit size where
  holds _ o := o.HasListed
  held _ entries := Listed entries ∧ ∀ entry ∈ entries, entry.2.HasListed
  leaf := by
    intro levels o sound single flat
    refine hasListed_of_parts (fun entries found => ?_) (by simp [single])
    have none : entries = [] := List.map_eq_nil_iff.mp ((asDictionary_parts found).symm.trans single)
    rw [none]
    exact ⟨.nil, nofun⟩
  array _ _ parts := hasListed_of_parts nofun parts
  empty _ := ⟨⟨.nil, nofun⟩, nofun⟩
  insert := by
    rintro levels dict key value ⟨listed, parts⟩ kept counts part
    refine ⟨listed_insert listed kept.1, fun entry member => ?_⟩
    rcases Keyed.mem_insert member with rfl | old
    · exact part
    · exact parts entry old
  dictionary entries := hasListed_of_entries rfl entries.1 entries.2
  stream entries _ := hasListed_of_entries rfl entries.1 entries.2

/-- A key of a dictionary in an object, at any depth. -/
def HasKey (o : Object) (key : Bytes) : Prop :=
  ∃ inner entries value, Inside inner o ∧ inner.asDictionary = some entries ∧ (key, value) ∈ entries

/-- Keys can be told apart by how they are written, and each dictionary has its keys once. -/
structure KeysApart (o : Object) : Prop where
  apart : ∀ key other, o.HasKey key → o.HasKey other → key ≠ other →
    Name.render key ≠ Name.render other
  once : ∀ inner entries, Inside inner o → inner.asDictionary = some entries →
    (entries.map fun entry => Name.render entry.1).Nodup

theorem HasListed.keysApart (listed : o.HasListed) : o.KeysApart := by
  constructor
  · rintro key other ⟨inner, entries, value, inside, found, member⟩
      ⟨inner', entries', value', inside', found', member'⟩ different same
    have clean := (listed inner entries inside found).clean _ member
    have cleanOther := (listed inner' entries' inside' found').clean _ member'
    exact different (Name.render_injective clean cleanOther same)
  · intro inner entries inside found
    obtain ⟨ordered, clean⟩ := listed inner entries inside found
    refine List.pairwise_map.mpr (ordered.imp_of_mem fun {a b} first second below same => ?_)
    have equal := Name.render_injective (clean a first) (clean b second) same
    rw [equal] at below
    exact List.lt_irrefl _ below

end Object

namespace Name
open Object (KeysApart)

/-- Writing names is a code that can be relied on. What is written is read back, but for the NUL bytes. It is
made of regular and numeric bytes, so with its slash it is one word in front of a blank, a delimiter or the
end of the data, and the reader of a whole document takes just this word. What is read from any bytes without
NUL has none either, is no longer than they are, and is read back when it is written. So names without NUL
that differ are written differently, and so are the keys of every object that is read. -/
theorem encodes_faithfully :
    (∀ name, decode (encode name) = name.filter (· ≠ 0)) ∧
    (∀ name, ∀ b ∈ encode name, (Byte.isRegular b || Byte.isNumeric b) = true) ∧
    (∀ name after : Bytes, (∀ b ∈ after.head?, (Byte.isWhitespace b || Byte.isDelimiter b) = true) →
      Lexis.Lexeme (render name) after ∧
      ∀ (document : Bytes) (r : Reader), r.Whole document →
        (document.drop r.origin).drop r.position = render name ++ after →
        (Scan.word.run r).1 = ⟨(render name).take (max r.options.maxWordLength 16), false⟩ ∧
          (Scan.word.run r).2.position = r.position + (render name).length) ∧
    (∀ body, 0 ∉ body → 0 ∉ decode body ∧ (decode body).length ≤ body.length ∧
      decode (encode (decode body)) = decode body) ∧
    (∀ name other, 0 ∉ name → 0 ∉ other → name ≠ other → encode name ≠ encode other) ∧
    (∀ (r : Reader) resolve o t, (Parse.object resolve).run.run r = (.ok o, t) → o.KeysApart) ∧
    ∀ (r : Reader) resolve mode i t, (Parse.indirect resolve mode).run.run r = (.ok i, t) →
      i.object.KeysApart := by
  refine ⟨decode_encode_filter, encode_bytes, fun name after ends => ⟨render_lexeme name ends, ?_⟩,
    ?_, ?_, ?_, ?_⟩
  · intro document r whole stands
    have cuts : Lexis.Cuts ((document.drop r.origin).drop r.position) [] (render name) after :=
      ⟨stands, .nil, .inl (render_lexeme name ends)⟩
    obtain ⟨read, place⟩ := whole.reads_cut cuts
    rw [List.length_nil, Nat.zero_add] at place
    exact ⟨read, place⟩
  · intro body clean
    exact ⟨decode_clean clean, decode_length body, decode_encode (decode_clean clean)⟩
  · intro name other clean cleanOther different same
    exact different (encode_injective clean cleanOther same)
  · exact fun r resolve o t ran => ((Parse.returned_keeps Object.listing).1 o t ran).keysApart
  · exact fun r resolve mode i t ran => ((Parse.returned_keeps Object.listing).2 mode i t ran).keysApart

/-- A dictionary with two keys, of which one reads as the other one is written. Inside there is one that has
the same key twice. -/
def escapedText : Bytes := Bytes.ofAscii "<</A#20B 1/A#2320B<</#43 2/C#00 3>>>>".toList

/-- A reader of that text from some place on. -/
def escapedReader (start : Nat) : Reader := Reader.ofGate { source := .memory escapedText.toArray } start {}

/-- What is read from its beginning. -/
def escapedObject : Object :=
  .dictionary [(Bytes.ofAscii ['A', ' ', 'B'], .integer 1),
    (Bytes.ofAscii ['A', '#', '2', '0', 'B'], .dictionary [(Bytes.ofAscii ['C'], .integer 3)])]

private theorem escapedReader_read : (Parse.object Resolver.empty).run.run (escapedReader 0) =
    (.ok escapedObject, ((Parse.object Resolver.empty).run.run (escapedReader 0)).2) := Prod.ext rfl rfl

/-- The second key is read as one word, and all keys are told apart. -/
theorem escapedReader_distinguishes :
    let name := Bytes.ofAscii ['A', '#', '2', '0', 'B']
    let body := Bytes.ofAscii ['A', '#', '2', '3', '2', '0', 'B']
    decode (encode (0 :: name)) = name ∧
      (Scan.word.run (escapedReader 10)).1 = ⟨Byte.slash :: body, false⟩ ∧
      (Scan.word.run (escapedReader 10)).2.position = 8 ∧
      (0 ∉ body ∧ decode body = name ∧ decode (encode (decode body)) = decode body) ∧
      (name ≠ decode name ∧ encode name ≠ encode (decode name)) ∧
      escapedObject.KeysApart := by
  intro name body
  obtain ⟨plain, _, word, raw, apart, object, _⟩ := encodes_faithfully
  have holds : (Source.memory escapedText.toArray).Holds escapedText := rfl
  have whole : (escapedReader 10).Whole escapedText := Reader.ofGate_whole holds 10 {}
  have ends : ∀ b ∈ (escapedText.drop 18).head?, (Byte.isWhitespace b || Byte.isDelimiter b) = true := by
    rintro _ ⟨⟩
    rfl
  obtain ⟨read, place⟩ := (word name (escapedText.drop 18) ends).2 escapedText _ whole rfl
  have clean : 0 ∉ name ∧ 0 ∉ decode name ∧ 0 ∉ body ∧ name ≠ decode name := by decide
  obtain ⟨cleanName, cleanDecoded, cleanBody, different⟩ := clean
  exact ⟨plain (0 :: name), read, place, ⟨cleanBody, rfl, (raw body cleanBody).2.2⟩,
    ⟨different, apart name (decode name) cleanName cleanDecoded different⟩,
    object _ _ _ _ escapedReader_read⟩

end Name
end PdfObjects
