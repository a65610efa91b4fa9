import PdfObjects.Machine
import PdfObjects.Word

/-! Searching for keywords in the bytes of a document, whatever they are part of. This finds the end of
a payload whose length is wrong, and objects and trailers in a damaged document. An occurrence counts
as a word if the bytes beside it could not belong to the same word. -/
namespace PdfObjects.Scan

/-- Reads bytes as long as they agree with a tag. `none` if the data run out, else whether all agree. -/
def agrees : Bytes → Scan (Option Bool)
  | [] => pure (some true)
  | expected :: tag => do
    match ← next with
    | none => pure none
    | some b => if b = expected then agrees tag else pure (some false)

/-- Looks for a tag at the cursor and at the places behind it, at most `fuel` of them. -/
def findFrom (tag : Bytes) : Nat → Scan (Option Nat)
  | 0 => pure none
  | fuel + 1 => do
    let here ← position
    match ← agrees tag with
    | none => pure none
    | some true => pure (some here)
    | some false =>
      seek (here + 1)
      findFrom tag fuel

/-- Looks for a tag from the cursor on, and moves behind it. The answer is the distance to it. An empty
tag is never found. -/
def findTag (tag : Bytes) : Scan (Option Nat) := do
  if tag.isEmpty then pure none
  else
    let start ← position
    pure ((← findFrom tag (← remaining)).map (· - start))

/-- Whether a byte next to a keyword would belong to it. For a keyword proper that includes
delimiters. -/
def isGlue (keyword : Bool) (b : UInt8) : Bool :=
  Byte.isNumeric b || Byte.isRegular b || (keyword && Byte.isDelimiter b)

/-- Whether the byte at an end of a tag can be continued by a byte next to it. -/
def canGlue (b : UInt8) : Bool := !Byte.isDelimiter b && !Byte.isWhitespace b

/-- Whether the byte at a position, if there is one, is glued to its neighbour. -/
def isGluedAt (keyword : Bool) (position : Nat) : Scan Bool := do
  match ← byteAt position with
  | some b => pure (isGlue keyword b)
  | none => pure false

/-- Whether a tag that occurs at `start` is a word there. An end that is blank or a delimiter needs no
check; nor does the right end if it lies past `limit`. Nobody keeps the right end from wrapping. -/
def isWholeWord (start limit : Nat) (tag : Bytes) (keyword : Bool) : Scan Bool := do
  match tag.head?, tag.getLast? with
  | some first, some last =>
    let stop := Machine.wrapped limit (start + tag.length)
    let gluedRight ← if canGlue last && stop ≤ limit then isGluedAt keyword stop else pure false
    if gluedRight then pure false
    else
      let gluedLeft ← if canGlue first && 0 < start then isGluedAt keyword (start - 1) else pure false
      pure (!gluedLeft)
  | _, _ => pure false

/-- Goes from one occurrence of a word to the next until one stands alone. -/
def findWordFrom (word : Bytes) (limit : Nat) : Nat → Scan (Option Nat)
  | 0 => pure none
  | fuel + 1 => do
    match ← findTag word with
    | none => pure none
    | some _ =>
      let start := (← position) - word.length
      if ← isWholeWord start limit word true then pure (some start)
      else findWordFrom word limit fuel

/-- The position of the next occurrence of a keyword that stands alone. The cursor stays. -/
def findWord (word : Bytes) : Scan (Option Nat) :=
  lookahead do findWordFrom word (← documentSize) (← remaining)

/-- Goes from one occurrence that stands alone to the next, at most `fuel` of them. -/
def occurrencesFrom (word : Bytes) : (fuel : Nat) → (found : List Nat) → Scan (List Nat)
  | 0, found => pure found.reverse
  | fuel + 1, found => do
    match ← findWord word with
    | none => pure found.reverse
    | some start =>
      seek (start + word.length)
      occurrencesFrom word fuel (start :: found)

/-- The positions of all occurrences of a keyword, from the cursor on, that stand alone. The cursor
ends up behind the last of them. Each takes at least one byte, so `fuel` need not exceed those left. -/
def occurrences (word : Bytes) : Scan (List Nat) := do occurrencesFrom word (← remaining) []

/-- Searches backward. `missing` holds the bytes of the word that have yet to agree, last one first,
the next of them at `position`; after a disagreement the search for the whole word starts over one
place further back, with what the byte at hand already gives. -/
def searchBackFrom (word : Bytes) (origin limit : Nat) :
    (position : Nat) → (missing : Bytes) → Scan Bool
  | position, missing => do
    if 0 < limit ∧ Machine.wrapped origin (position + limit) ≤ origin then pure false
    else
      match ← byteBehind position with
      | none => pure false
      | some b =>
        match missing with
        | [] => pure false
        | expected :: rest =>
          if b = expected && !rest.isEmpty then
            match position with
            | 0 => pure false
            | earlier + 1 => searchBackFrom word origin limit earlier rest
          else
            let found ←
              if b = expected then isWholeWord position (← documentSize) word false else pure false
            if found then
              seek position
              pure true
            else
              match position with
              | 0 => pure false
              | earlier + 1 =>
                let backward := word.reverse
                let missing :=
                  if backward.head? = some b && 2 ≤ word.length then backward.tail else backward
                searchBackFrom word origin limit earlier missing

/-- Searches backward from the cursor for a word that stands alone, and moves to it. A limit other than
zero bounds how far back the search goes; one that takes the cursor past the largest word ends it at once. -/
def searchBack (word : Bytes) (limit : Nat) : Scan Bool := do
  let origin ← position
  if word.isEmpty then pure false
  else searchBackFrom word origin limit origin word.reverse

end PdfObjects.Scan
