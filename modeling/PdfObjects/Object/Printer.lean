import PdfObjects.Name
import PdfObjects.Object

/-! The written form of objects. Everything but a stream is written in the syntax in which it is read:
strings with all unprintable bytes escaped, names with their escapes, dictionaries in the order of
their keys. Of a stream only the dictionary and the length of the payload are shown. -/
namespace PdfObjects.Object

/-- A byte of a literal string, escaped unless it is printable and cannot end the string. -/
def renderStringByte (b : UInt8) : Bytes :=
  if b = Byte.openParen ∨ b = Byte.closeParen ∨ b = Byte.backslash then [Byte.backslash, b]
  else if b = Byte.lineFeed then Bytes.ofAscii ['\\', 'n']
  else if b = Byte.carriageReturn then Bytes.ofAscii ['\\', 'r']
  else if b = Byte.tab then Bytes.ofAscii ['\\', 't']
  else if b = Byte.backspace then Bytes.ofAscii ['\\', 'b']
  else if b = Byte.formFeed then Bytes.ofAscii ['\\', 'f']
  else if 0x20 ≤ b ∧ b ≤ 0x7E then [b]
  else Byte.backslash :: Bytes.octalTriple b

/-- A string in the form in which it was written. -/
def renderString (bytes : Bytes) (hex : Bool) : Bytes :=
  if hex then Byte.less :: bytes.flatMap Bytes.hexPair ++ [Byte.greater]
  else Byte.openParen :: bytes.flatMap renderStringByte ++ [Byte.closeParen]

/-- A reference to an object. -/
def renderReference (number generation : Nat) : Bytes :=
  Bytes.decimal number ++ Byte.space :: Bytes.decimal generation ++ Bytes.ofAscii [' ', 'R']

mutual

/-- The written form of an object. -/
def render : Object → Bytes
  | .null => Bytes.ofAscii ['n', 'u', 'l', 'l']
  | .boolean true => Bytes.ofAscii ['t', 'r', 'u', 'e']
  | .boolean false => Bytes.ofAscii ['f', 'a', 'l', 's', 'e']
  | .integer n => Bytes.signedDecimal n
  | .real x => x.text
  | .string bytes hex => renderString bytes hex
  | .name bytes => Name.render bytes
  | .array [] => [Byte.openBracket, Byte.closeBracket]
  | .array (first :: rest) => Byte.openBracket :: render first ++ renderElements rest
  | .dictionary entries => Byte.less :: Byte.less :: renderEntries entries
  | .stream entries payload =>
    Byte.less :: Byte.less :: renderEntries entries ++
      Bytes.ofAscii [' ', 's', 't', 'r', 'e', 'a', 'm', '['] ++ Bytes.decimal payload.length ++
      Bytes.ofAscii [' ', 'b', 'y', 't', 'e', 's', ']']
  | .reference number generation => renderReference number generation

/-- The elements after the first, each behind a space, and the closing bracket. -/
def renderElements : List Object → Bytes
  | [] => [Byte.closeBracket]
  | element :: rest => Byte.space :: render element ++ renderElements rest

/-- The entries, each behind a space, and the closing brackets. -/
def renderEntries : List (Bytes × Object) → Bytes
  | [] => [Byte.space, Byte.greater, Byte.greater]
  | entry :: rest => Byte.space :: renderEntry entry ++ renderEntries rest

/-- A key and its value. -/
def renderEntry : Bytes × Object → Bytes
  | (key, value) => Name.render key ++ Byte.space :: render value

end

theorem render_name (name : Bytes) : render (.name name) = Name.render name := by rw [render]

theorem render_string (string : Bytes) (hex : Bool) :
    render (.string string hex) = renderString string hex := by rw [render]

theorem render_reference (number generation : Nat) :
    render (.reference number generation) = renderReference number generation := by rw [render]

/-- The written form as text. All its bytes are ASCII. -/
def text (o : Object) : String := o.render.toText

end PdfObjects.Object
