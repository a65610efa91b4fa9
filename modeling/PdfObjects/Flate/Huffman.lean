import PdfObjects.Flate.Bits

/-! Canonical prefix codes. A code is given by the length of each symbol's codeword alone: shorter
codewords come first, and among equals the smaller symbol. So the codewords of each length are
consecutive numbers, and a codeword is recognised by counting. -/
namespace PdfObjects.Flate

/-- A prefix code: for each length from one upwards, the symbols with a codeword of that length in the
order of their codewords. -/
abbrev PrefixCode := List (Array Nat)

namespace PrefixCode

/-- The longest codeword. -/
def maxLength : Nat := 15

/-- The symbols whose codeword has a given length. -/
def symbolsOf (lengths : Array Nat) (length : Nat) : Array Nat :=
  (Array.range lengths.size).filter fun symbol => lengths[symbol]? == some length

/-- How much of the space of all codewords is taken, in units of the longest codeword. -/
def weight : PrefixCode → Nat
  | [] => 0
  | symbols :: longer => (symbols.size <<< longer.length) + weight longer

/-- How many symbols have a codeword. -/
def size (code : PrefixCode) : Nat := code.foldl (fun n symbols => n + symbols.size) 0

/-- The code with the given codeword lengths, where zero stands for no codeword. -/
def ofLengths (lengths : Array Nat) : PrefixCode :=
  (List.range maxLength).map fun n => symbolsOf lengths (n + 1)

/-- Whether every sequence of bits begins with exactly one codeword. -/
def isComplete (code : PrefixCode) : Bool := code.weight = 1 <<< code.length

/-- Reads a symbol. `code` is the value of the bits read so far and `first` the least codeword of
their length, both doubled; each bit either completes a codeword or goes on to the longer ones. -/
def decodeFrom : PrefixCode → (code first : Nat) → Decoder Nat
  | [], _, _ => failure
  | symbols :: longer, code, first => do
    let code := code + (← Decoder.bit)
    match symbols[code - first]? with
    | some symbol => pure symbol
    | none => decodeFrom longer (2 * code) (2 * (first + symbols.size))

/-- Reads a symbol; fails if the bits begin with no codeword. -/
def decode (code : PrefixCode) : Decoder Nat := decodeFrom code 0 0

end PrefixCode
end PdfObjects.Flate
