import PdfObjects.Flate.Huffman

/-! Expanding a deflate stream. The stream is a sequence of blocks, the last of them marked. A block
either stores its bytes or codes them by literals and by repetitions of bytes written earlier, with a
fixed pair of prefix codes or with a pair given in the block itself. -/
namespace PdfObjects.Flate

/-- The prefix codes of a block. -/
structure Codes where
  literals : PrefixCode
  distances : PrefixCode

/-- A base value and the number of extra bits to be added to it. -/
structure Scale where
  base : Nat
  extra : Nat

/-- The lengths of repetitions, for the symbols from 257. -/
def lengthScales : Array Scale :=
  #[⟨3, 0⟩, ⟨4, 0⟩, ⟨5, 0⟩, ⟨6, 0⟩, ⟨7, 0⟩, ⟨8, 0⟩, ⟨9, 0⟩, ⟨10, 0⟩, ⟨11, 1⟩, ⟨13, 1⟩, ⟨15, 1⟩,
    ⟨17, 1⟩, ⟨19, 2⟩, ⟨23, 2⟩, ⟨27, 2⟩, ⟨31, 2⟩, ⟨35, 3⟩, ⟨43, 3⟩, ⟨51, 3⟩, ⟨59, 3⟩, ⟨67, 4⟩, ⟨83, 4⟩,
    ⟨99, 4⟩, ⟨115, 4⟩, ⟨131, 5⟩, ⟨163, 5⟩, ⟨195, 5⟩, ⟨227, 5⟩, ⟨258, 0⟩]

/-- The distances of repetitions. -/
def distanceScales : Array Scale :=
  #[⟨1, 0⟩, ⟨2, 0⟩, ⟨3, 0⟩, ⟨4, 0⟩, ⟨5, 1⟩, ⟨7, 1⟩, ⟨9, 2⟩, ⟨13, 2⟩, ⟨17, 3⟩, ⟨25, 3⟩, ⟨33, 4⟩, ⟨49, 4⟩,
    ⟨65, 5⟩, ⟨97, 5⟩, ⟨129, 6⟩, ⟨193, 6⟩, ⟨257, 7⟩, ⟨385, 7⟩, ⟨513, 8⟩, ⟨769, 8⟩, ⟨1025, 9⟩, ⟨1537, 9⟩,
    ⟨2049, 10⟩, ⟨3073, 10⟩, ⟨4097, 11⟩, ⟨6145, 11⟩, ⟨8193, 12⟩, ⟨12289, 12⟩, ⟨16385, 13⟩, ⟨24577, 13⟩]

/-- The codes that every reader knows. -/
def fixedCodes : Codes :=
  { literals := PrefixCode.ofLengths
      (Array.replicate 144 8 ++ Array.replicate 112 9 ++ Array.replicate 24 7 ++ Array.replicate 8 8)
    distances := PrefixCode.ofLengths (Array.replicate 32 5) }

/-- A value on one of the scales; a symbol beyond the scale is an error. -/
def scaled (scales : Array Scale) (symbol : Nat) : Decoder Nat := do
  match scales[symbol]? with
  | some scale => pure (scale.base + (← Decoder.bits scale.extra))
  | none => failure

/-- Repeats the byte that stands `distance` before the end, as often as asked. The bytes just written
take part, so a distance of one fills with one byte. -/
def repeatBack (distance : Nat) : Nat → Array UInt8 → Array UInt8
  | 0, out => out
  | n + 1, out => repeatBack distance n (out.push (out[out.size - distance]?.getD 0))

/-- The symbols of a coded block, at most `fuel` of them. Each takes at least one bit. -/
def codedFrom (codes : Codes) : Nat → Array UInt8 → Decoder (Array UInt8)
  | 0, _ => failure
  | fuel + 1, out => do
    let symbol ← codes.literals.decode
    if symbol < 256 then codedFrom codes fuel (out.push symbol.toUInt8)
    else if symbol = 256 then pure out
    else
      let length ← scaled lengthScales (symbol - 257)
      let distance ← scaled distanceScales (← codes.distances.decode)
      if out.size < distance then failure
      else codedFrom codes fuel (repeatBack distance length out)

/-- A block coded by prefix codes, up to its end symbol. -/
def coded (codes : Codes) (out : Array UInt8) : Decoder (Array UInt8) := do
  codedFrom codes (← Decoder.remaining) out

/-- Bytes stored as they are. -/
def storedFrom : Nat → Array UInt8 → Decoder (Array UInt8)
  | 0, out => pure out
  | n + 1, out => do
    let b ← Decoder.bits 8
    storedFrom n (out.push b.toUInt8)

/-- A stored block. Its length is given twice, the second time inverted. -/
def stored (out : Array UInt8) : Decoder (Array UInt8) := do
  Decoder.align
  let length ← Decoder.word
  let check ← Decoder.word
  if length + check = 65535 then storedFrom length out else failure

/-- The order in which the lengths of the code for code lengths are given. -/
def lengthOrder : List Nat := [16, 17, 18, 0, 8, 7, 9, 6, 10, 5, 11, 4, 12, 3, 13, 2, 14, 1, 15]

/-- The lengths of the code for code lengths. What is not given has no codeword. -/
def lengthCodeLengths : List Nat → Nat → Array Nat → Decoder (Array Nat)
  | symbol :: later, n + 1, lengths => do
    let length ← Decoder.bits 3
    lengthCodeLengths later n (lengths.setIfInBounds symbol length)
  | _, _, lengths => pure lengths

/-- Codeword lengths, themselves coded: a symbol is a length, or says how often the last length or
zero is repeated. A repetition must not go past the last length wanted. -/
def codeLengthsFrom (code : PrefixCode) (count : Nat) : Nat → Array Nat → Decoder (Array Nat)
  | 0, _ => failure
  | fuel + 1, lengths => do
    if count ≤ lengths.size then
      if lengths.size = count then pure lengths else failure
    else
      let symbol ← code.decode
      if symbol < 16 then codeLengthsFrom code count fuel (lengths.push symbol)
      else if symbol = 16 then
        match lengths.back? with
        | some last =>
          let n ← Decoder.bits 2
          codeLengthsFrom code count fuel (lengths ++ Array.replicate (3 + n) last)
        | none => failure
      else if symbol = 17 then
        let n ← Decoder.bits 3
        codeLengthsFrom code count fuel (lengths ++ Array.replicate (3 + n) 0)
      else
        let n ← Decoder.bits 7
        codeLengthsFrom code count fuel (lengths ++ Array.replicate (11 + n) 0)

/-- A code is usable if it is complete, or if it has at most one symbol. -/
def isUsable (code : PrefixCode) : Bool := code.isComplete || code.size ≤ 1

/-- The codes given at the start of a block. -/
def givenCodes : Decoder Codes := do
  let literalCount := 257 + (← Decoder.bits 5)
  let distanceCount := 1 + (← Decoder.bits 5)
  let lengthCount := 4 + (← Decoder.bits 4)
  if 286 < literalCount ∨ 30 < distanceCount then failure
  let lengths ← lengthCodeLengths lengthOrder lengthCount (Array.replicate 19 0)
  let lengthCode := PrefixCode.ofLengths lengths
  if !lengthCode.isComplete then failure
  let count := literalCount + distanceCount
  let lengths ← codeLengthsFrom lengthCode count (count + 1) #[]
  let codes : Codes :=
    { literals := PrefixCode.ofLengths (lengths.extract 0 literalCount)
      distances := PrefixCode.ofLengths (lengths.extract literalCount count) }
  if isUsable codes.literals && isUsable codes.distances then pure codes else failure

/-- The content of one block. -/
def block (out : Array UInt8) : Decoder (Array UInt8) := do
  match ← Decoder.bits 2 with
  | 0 => stored out
  | 1 => coded fixedCodes out
  | 2 => do coded (← givenCodes) out
  | _ => failure

/-- The blocks up to the last one, at most `fuel` of them. -/
def blocksFrom : Nat → Array UInt8 → Decoder (Array UInt8)
  | 0, _ => failure
  | fuel + 1, out => do
    let last ← Decoder.bit
    let out ← block out
    if last = 1 then pure out else blocksFrom fuel out

/-- Expands a deflate stream. Each block takes at least three bits. -/
def inflate : Decoder (Array UInt8) := do
  blocksFrom (← Decoder.remaining) #[]

end PdfObjects.Flate
