import PdfObjects.ByteClass

/-! Escapes in names. A name is any byte string without NUL; when it is written, a number sign and two
hexadecimal digits stand for each byte that would end the name or could be misread. -/
namespace PdfObjects.Name

/-- Undoes the escapes in the body of a name. A number sign without two hexadecimal digits after it
stands for itself, and an escaped NUL stands for nothing, since no name contains one. -/
def decode : Bytes → Bytes
  | [] => []
  | [b] => [b]
  | [b, c] => [b, c]
  | b :: high :: low :: rest =>
    if b = Byte.hash then
      match Byte.hexValue? high, Byte.hexValue? low with
      | some h, some l =>
        let c := h * 16 + l
        if c = 0 then decode rest else c :: decode rest
      | _, _ => b :: decode (high :: low :: rest)
    else b :: decode (high :: low :: rest)

/-- Whether a byte may stand unescaped: visible ASCII, no delimiter and no number sign. -/
def isPlain (b : UInt8) : Bool :=
  Byte.space < b && b < 0x7F && b != Byte.hash && !Byte.isDelimiter b

/-- The written form of one byte. -/
def encodeByte (b : UInt8) : Bytes := if isPlain b then [b] else Byte.hash :: Bytes.hexPair b

/-- The written form of a name, without the slash in front of it. -/
def encode (name : Bytes) : Bytes := name.flatMap encodeByte

/-- The written form of a name. -/
def render (name : Bytes) : Bytes := Byte.slash :: encode name

end PdfObjects.Name
