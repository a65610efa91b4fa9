import PdfObjects.Object.Printer
import PdfObjects.Reader
import PdfObjects.Survey

/-! The command line. A run is decided by its arguments and the content of the one file that they name,
and yields an exit code and two texts, so all of it is a function; only reading the file and writing
the texts are left to the program around it. -/
namespace PdfObjects.CommandLine

/-- The version of the program. -/
def version : String := "0.3.0"

/-- What to do with a document. -/
inductive Task where
  /-- List the objects from an offset on, at most so many. -/
  | objects (offset : Nat) (limit : Option Nat)
  /-- Print the object at an offset. -/
  | object (offset : Nat)
  /-- List the ends of the trailers. -/
  | trailers
  deriving DecidableEq, Repr

/-- What the arguments ask for. -/
inductive Request where
  | version
  | help
  | run (headerOffset : Option Nat) (path : String) (task : Task)
  deriving DecidableEq, Repr

/-- What a run yields. -/
structure Outcome where
  code : UInt32 := 0
  stdout : String := ""
  stderr : String := ""

/-- A number of 64 bits in decimal. A plus sign in front is allowed. -/
def number? (text : String) : Option Nat :=
  let digits :=
    match text.toList with
    | '+' :: rest => rest
    | all => all
  if digits.isEmpty || !digits.all Char.isDigit then none
  else
    let value := digits.foldl (fun n c => 10 * n + (c.toNat - '0'.toNat)) 0
    if value < Nat.pow 2 64 then some value else none

/-- The options that take a number, by long name and, for some, by letter. -/
structure Flag where
  long : String
  short : Option Char := none

def headerOffsetFlag : Flag := { long := "header-offset" }

def offsetFlag : Flag := { long := "offset", short := some 'o' }

def limitFlag : Flag := { long := "limit", short := some 'l' }

def atFlag : Flag := { long := "at", short := some 'a' }

/-- An argument as it is written: an option, perhaps with its value attached, or anything else. -/
inductive Argument where
  | long (name : String) (value : Option String)
  | short (letter : Char) (value : Option String)
  /-- Two dashes: no options follow. -/
  | separator
  | plain (text : String)

def Argument.ofString (text : String) : Argument :=
  match text.toList with
  | '-' :: '-' :: [] => .separator
  | '-' :: '-' :: rest =>
    let name := rest.takeWhile (· != '=')
    let value :=
      match rest.drop name.length with
      | _ :: value => some (String.ofList value)
      | [] => none
    .long (String.ofList name) value
  | '-' :: letter :: rest =>
    let value :=
      match rest with
      | [] => none
      | '=' :: value => some (String.ofList value)
      | value => some (String.ofList value)
    .short letter value
  | _ => .plain text

/-- Whether an argument is an option given by one of a flag's names, and the value attached to it. -/
def Flag.match? (flag : Flag) : Argument → Option (Option String)
  | .long name value => if name = flag.long then some value else none
  | .short letter value => if some letter = flag.short then some value else none
  | _ => none

/-- The arguments of a command after sorting: the numbers given by options, and the plain ones. -/
structure Sorted where
  numbers : List (String × Nat) := []
  plain : List String := []

def Sorted.number? (s : Sorted) (flag : Flag) : Option Nat := s.numbers.lookup flag.long

/-- Sorts the arguments of a command that knows the given options. An unknown option, one given twice,
or one without a proper number is an error. -/
def sortArguments (flags : List Flag) : List String → Sorted → Option Sorted
  | [], sorted => some sorted
  | text :: rest, sorted =>
    match Argument.ofString text with
    | .separator => some { sorted with plain := sorted.plain ++ rest }
    | .plain text => sortArguments flags rest { sorted with plain := sorted.plain ++ [text] }
    | option =>
      match flags.findSome? fun flag => (flag.match? option).map (flag.long, ·) with
      | none => none
      | some (name, attached) =>
        if (sorted.numbers.lookup name).isSome then none
        else
          match attached, rest with
          | some value, rest => do
            sortArguments flags rest { sorted with numbers := (name, ← number? value) :: sorted.numbers }
          | none, value :: rest => do
            sortArguments flags rest { sorted with numbers := (name, ← number? value) :: sorted.numbers }
          | none, [] => none

/-- A command and the options it knows. -/
def command? (name : String) : Option (List Flag × (Sorted → Option Task)) :=
  match name with
  | "objects" =>
    some ([offsetFlag, limitFlag], fun s =>
      some (.objects ((s.number? offsetFlag).getD 0) (s.number? limitFlag)))
  | "object" => some ([atFlag], fun s => (s.number? atFlag).map .object)
  | "trailers" => some ([], fun _ => some .trailers)
  | _ => none

/-- The request made by a command, its arguments, and the header offset given before it. One given
behind the command counts more. -/
def commandRequest (outer : Option Nat) (name : String) (args : List String) : Option Request := do
  let (flags, task) ← command? name
  if args.contains "--help" || args.contains "-h" then pure .help
  else
    let sorted ← sortArguments (headerOffsetFlag :: flags) args {}
    let task ← task sorted
    match sorted.plain with
    | [path] =>
      if path.isEmpty then none
      else pure (.run ((sorted.number? headerOffsetFlag).or outer) path task)
    | _ => none

/-- The request made by the arguments, after the header offset found so far; `none` if they make no
sense. -/
def requestFrom (outer : Option Nat) : List String → Option Request
  | [] => none
  | text :: rest =>
    match Argument.ofString text with
    | .plain name => if name = "help" then some .help else commandRequest outer name rest
    | .separator => none
    | .long "version" none | .short 'V' none => some .version
    | .long "help" none | .short 'h' none => some .help
    | option =>
      match headerOffsetFlag.match? option, outer, rest with
      | some (some value), none, rest => do requestFrom (some (← number? value)) rest
      | some none, none, value :: rest => do requestFrom (some (← number? value)) rest
      | _, _, _ => none

/-- The request made by the arguments. -/
def request? (args : List String) : Option Request := requestFrom none args

/-- A run that fails with a message and perhaps its cause. -/
def failure (message : String) (cause : Option String) : Outcome :=
  let reason :=
    match cause with
    | some cause => s!"\nCaused by:\n    {cause}\n"
    | none => ""
  { code := 1, stderr := s!"Error: {message}\n" ++ reason }

/-- How far into a file the document may start. -/
def headerReach : Nat := 1024

def headerMark : Bytes := Bytes.ofAscii ['%', 'P', 'D', 'F', '-']

/-- The distance to the first place in the bytes where the mark stands. -/
def distanceTo? (mark : Bytes) : Bytes → Option Nat
  | [] => none
  | b :: rest =>
    if mark.isPrefixOf (b :: rest) then some 0 else (distanceTo? mark rest).map (· + 1)

/-- Where the document starts in a file: at its mark, or with the file if that is not near. -/
def locateHeader (content : Array UInt8) : Nat :=
  (distanceTo? headerMark (content.extract 0 headerReach).toList).getD 0

/-- A number with blanks in front, at least ten characters wide. -/
def column (n : Nat) : String :=
  let digits := Nat.toDigits 10 n
  String.ofList (List.replicate (10 - digits.length) ' ' ++ digits)

/-- The line about an object that was read. -/
def objectLine (start : Nat) (indirect : Indirect) : String :=
  let size :=
    match indirect.object.asStream with
    | some payload => s!"  ({payload.length} bytes)"
    | none => ""
  s!"{column start}  {indirect.number} {indirect.generation} obj  {indirect.object.kind.text}{size}\n"

/-- The line about a place where an object was read. -/
def success? (s : Sighting) : Option String :=
  match s.outcome with
  | .ok indirect => some (objectLine s.start indirect)
  | .error _ => none

/-- The line about a place where none was read. -/
def failure? (s : Sighting) : Option String :=
  match s.outcome with
  | .ok _ => none
  | .error e => some s!"{column s.start}  error: {e.message}\n"

/-- The listing of objects: one line for each on the first text, and for each failure on the second. -/
def listing (sightings : List Sighting) : Outcome :=
  let lines := sightings.filterMap success?
  { stdout := String.join lines ++ s!"{lines.length} object(s)\n"
    stderr := String.join (sightings.filterMap failure?) }

/-- The listing of trailers: their ends, and the last place where their keyword stands. -/
def trailerListing (ends : List Nat) (last : Option Nat) : Outcome :=
  let notice := if ends.isEmpty then "no %%EOF markers found\n" else ""
  let lines := ends.map fun stop => s!"%%EOF ends at {stop}\n"
  let keyword :=
    match last with
    | some position => s!"last trailer keyword at {position}\n"
    | none => ""
  { stdout := notice ++ String.join lines ++ keyword }

def trailerKeyword : Bytes := Bytes.ofAscii ['t', 'r', 'a', 'i', 'l', 'e', 'r']

/-- The position of the last keyword of a trailer. -/
def lastTrailer : Scan (Option Nat) := do
  let size ← Scan.documentSize
  if size = 0 then pure none
  else
    Scan.seek (size - 1)
    if ← Scan.searchBack trailerKeyword 0 then pure (some (← Scan.position)) else pure none

/-- Does a task with a document. -/
def perform (task : Task) (reader : Reader) : Outcome :=
  match task with
  | .objects offset limit => listing ((Scan.objects offset limit).run reader).1
  | .object offset =>
    if reader.size ≤ offset then
      failure s!"offset {offset} is past the end of the document ({reader.size} bytes)" none
    else
      match ((Parse.indirectAt offset Resolver.empty).run.run reader).1 with
      | .ok indirect =>
        { stdout := s!"{indirect.number} {indirect.generation} obj\n{indirect.object.text}\nendobj\n" }
      | .error e => failure s!"no indirect object at offset {offset}" (some e.message)
  | .trailers =>
    let (ends, reader) := (Scan.allWords.run reader).2.takeTrailerEnds
    trailerListing ends (lastTrailer.run reader).1

/-- How a document is read for a task. -/
def options (task : Task) : Options := { Options.forDamaged with recordTrailers := task = .trailers }

/-- The reason for which a file that is not there cannot be read. -/
def missingFile : String := "No such file or directory (os error 2)"

/-- Serves a request. A file is given by its content, or by the reason for which it cannot be read. -/
def serve (request : Request) (file : String → Except String (Array UInt8)) : Outcome :=
  match request with
  | .version => { stdout := s!"pdfsyntax {version}\n" }
  | .help => { stdout := "usage: pdfsyntax [--header-offset N] objects|object|trailers FILE\n" }
  | .run headerOffset path task =>
    match file path with
    | .error reason => failure s!"failed to open {path}" (some reason)
    | .ok content =>
      let start := headerOffset.getD (locateHeader content)
      if content.size < start then failure s!"header offset {start} is past the end of {path}" none
      else perform task (Reader.ofGate { source := .stream content 0 } start (options task))

/-- A run with arguments that make no sense. -/
def misuse : Outcome := { code := 2 }

end PdfObjects.CommandLine
