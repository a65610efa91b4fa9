import PdfObjects.Word

/-! The words of a text, apart from how it is read. Between words stand blanks and comments; which bytes
make the next word follows from the bytes ahead alone. -/
namespace PdfObjects.Lexis

/-- How many of the bytes ahead are blank or part of a comment, in which the text may already be. -/
def skipped : (comment : Bool) → Bytes → Nat
  | _, [] => 0
  | false, b :: rest =>
    if Byte.isWhitespace b then skipped false rest + 1
    else if b = Byte.percent then skipped true rest + 1
    else 0
  | true, b :: rest => skipped (!Byte.isLineEnding b) rest + 1

/-- Whether a byte can stand inside a run: it neither separates words nor is one of its own. -/
def isInner (b : UInt8) : Bool := !(Byte.isDelimiter b || Byte.isWhitespace b)

/-- All bytes of the word with which a text starts. -/
def lexeme : Bytes → Bytes
  | [] => []
  | b :: rest =>
    if b = Byte.slash || !Byte.isDelimiter b then b :: rest.takeWhile isInner
    else if (b = Byte.less || b = Byte.greater) && rest.head? = some b then [b, b]
    else [b]

/-- The next word of a text, of which at most `limit` bytes are kept. -/
def word (limit : Nat) (text : Bytes) : Word :=
  Word.ofLexeme limit (lexeme (text.drop (skipped false text)))

/-- How far the next word of a text reaches, what is skipped before it included. -/
def reach (text : Bytes) : Nat :=
  skipped false text + (lexeme (text.drop (skipped false text))).length

/-- What follows the next word of a text. -/
def rest (text : Bytes) : Bytes := text.drop (reach text)

/-- What becomes of bytes that are taken one by one: the answer, and how many belong to it. -/
def consume {σ α : Type} (step : σ → UInt8 → Scan.Verdict σ α) (finish : σ → α) :
    σ → Bytes → α × Nat
  | state, [] => (finish state, 0)
  | state, b :: text =>
    match step state b with
    | .more state => ((consume step finish state text).1, (consume step finish state text).2 + 1)
    | .before answer => (answer, 0)
    | .through answer => (answer, 1)

end PdfObjects.Lexis
