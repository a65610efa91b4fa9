import PdfObjects.Bytes
import PdfObjects.Error
import PdfObjects.Options

/-! Reading programs. A program says what to read and what to make of it, but not where the bytes come
from: its commands are carried out by whatever kind of reader it is run over, one with a window on a
distant source or one that has the whole document at hand. Programs are data, so what holds of every
command carries over to every program by one induction over `Scan`. -/
namespace PdfObjects

/-- What a program may know about the settings of its reader. -/
structure Settings where
  wordLength : Nat
  /-- How deep objects may nest. -/
  nesting : Nat
  mode : Mode
  deriving DecidableEq, Repr

/-- What limits a reader: its settings and the levels of nesting already taken. -/
structure Limits extends Settings where
  depth : Nat
  deriving DecidableEq, Repr

/-- The commands of reading programs. Positions count from the start of the document proper. -/
inductive Command : Type → Type where
  /-- The byte at the cursor, which moves behind it; `none` and no move if it cannot be had. -/
  | next : Command (Option UInt8)
  /-- The byte at a position, wherever the cursor is. -/
  | byteAt (position : Nat) : Command (Option UInt8)
  /-- The byte at a position, for a reader that goes on towards the start of the document. -/
  | byteBehind (position : Nat) : Command (Option UInt8)
  | position : Command Nat
  /-- Moves the cursor, though never past the end of the document. -/
  | seek (position : Nat) : Command Unit
  | documentSize : Command Nat
  | settings : Command Settings
  /-- A whole range of bytes; `none` if it cannot be had. -/
  | block (position length : Nat) : Command (Option Bytes)
  /-- Whether a range has arrived. Nothing is missing of an empty one. -/
  | check (position length : Nat) : Command Bool
  /-- Keeps a word as the last one read. -/
  | keepWord (word : Bytes) : Command Unit
  | lastWord : Command Bytes
  /-- Notes that the cursor is just behind the first byte of the line ending of a trailer marker. -/
  | noteTrailer (ending : UInt8) : Command Unit

/-- Reading programs. A session runs a program and also says whether it met any read problem. Nesting runs
a program one level deeper, or another one if no level is left; a program cannot see how deep it is. -/
inductive Scan : Type → Type 1 where
  | pure (value : α) : Scan α
  | bind (first : Scan α) (rest : α → Scan β) : Scan β
  | perform (command : Command α) : Scan α
  | session (body : Scan α) : Scan (α × Bool)
  | nested (body refused : Scan α) : Scan α

instance : Monad Scan where
  pure := Scan.pure
  bind := Scan.bind

/-- Readers that can run programs. -/
class Readable (σ : Type) where
  /-- Carries out one command. -/
  perform : {α : Type} → Command α → σ → α × σ
  /-- Starts a session: the problems so far are put aside. -/
  openSession : σ → σ
  /-- Ends the session begun in the first state: says whether there were problems, and adds those put
  aside. -/
  closeSession : σ → σ → Bool × σ
  /-- Takes one level of nesting, if one is left. -/
  enter : σ → Option σ
  /-- Gives a level of nesting back. -/
  leave : σ → σ

namespace Scan

/-- Runs a program. -/
def run {σ : Type} [Readable σ] : Scan α → σ → α × σ
  | .pure value, s => (value, s)
  | .bind first rest, s => (rest (first.run s).1).run (first.run s).2
  | .perform command, s => Readable.perform command s
  | .session body, s =>
    let (value, after) := body.run (Readable.openSession s)
    let (problems, closed) := Readable.closeSession s after
    ((value, problems), closed)
  | .nested body refused, s =>
    match Readable.enter s with
    | some inside => ((body.run inside).1, Readable.leave (body.run inside).2)
    | none => refused.run s

section Run
variable {σ α β : Type} [Readable σ]

@[simp] theorem pure_eq (value : α) : (Pure.pure value : Scan α) = Scan.pure value := rfl

@[simp] theorem run_pure (value : α) (s : σ) : (pure value : Scan α).run s = (value, s) := rfl

@[simp] theorem run_bind (first : Scan α) (rest : α → Scan β) (s : σ) :
    (first >>= rest).run s = (rest (first.run s).1).run (first.run s).2 := rfl

@[simp] theorem run_perform (command : Command α) (s : σ) :
    (Scan.perform command).run s = Readable.perform command s := rfl

variable {body refused : Scan α} {s inside : σ}

theorem run_entered (entered : Readable.enter s = some inside) : (Scan.nested body refused).run s =
    ((body.run inside).1, Readable.leave (body.run inside).2) := by rw [run, entered]

theorem run_refused (full : Readable.enter s = none) :
    (Scan.nested body refused).run s = refused.run s := by rw [run, full]

end Run

def next : Scan (Option UInt8) := .perform .next

def byteAt (position : Nat) : Scan (Option UInt8) := .perform (.byteAt position)

def byteBehind (position : Nat) : Scan (Option UInt8) := .perform (.byteBehind position)

def position : Scan Nat := .perform .position

def seek (position : Nat) : Scan Unit := .perform (.seek position)

def documentSize : Scan Nat := .perform .documentSize

def settings : Scan Settings := .perform .settings

def block (position length : Nat) : Scan (Option Bytes) := .perform (.block position length)

def check (position length : Nat) : Scan Bool := .perform (.check position length)

def keepWord (word : Bytes) : Scan Unit := .perform (.keepWord word)

def lastWord : Scan Bytes := .perform .lastWord

def noteTrailer (ending : UInt8) : Scan Unit := .perform (.noteTrailer ending)

/-- How many bytes there are from the cursor on. No loop over bytes runs longer. -/
def remaining : Scan Nat := do
  let size ← documentSize
  let here ← position
  pure (size - here)

/-- Puts the byte just read back. -/
def unread : Scan Unit := do
  let here ← position
  seek (here - 1)

/-- Runs a program and puts the cursor back. -/
def lookahead (body : Scan α) : Scan α := do
  let here ← position
  let value ← body
  seek here
  pure value

/-- Runs a program that may turn out not to apply, in which case the cursor is put back. -/
def attempt (body : Scan (Option α)) : Scan (Option α) := do
  let here ← position
  match ← body with
  | some value => pure (some value)
  | none =>
    seek here
    pure none

/-- The bytes of a block at the cursor, which moves behind it; `none` and no move if any of them cannot
be had. -/
def takeBlock (length : Nat) : Scan (Option Bytes) := do
  let here ← position
  match ← block here length with
  | some bytes =>
    seek (here + length)
    pure (some bytes)
  | none => pure none

/-- What is made of a byte: more bytes are wanted, or the answer is there and the byte at hand belongs
to it or not. -/
inductive Verdict (σ α : Type) where
  | more (state : σ)
  | before (answer : α)
  | through (answer : α)

/-- Takes bytes one by one, at most `fuel` of them, until there is an answer. At the end of the data
`finish` gives it. -/
def takeFrom {σ α : Type} (step : σ → UInt8 → Verdict σ α) (finish : σ → α) :
    (fuel : Nat) → σ → Scan α
  | 0, state => pure (finish state)
  | fuel + 1, state => do
    match ← next with
    | none => pure (finish state)
    | some b =>
      match step state b with
      | .more state => takeFrom step finish fuel state
      | .before answer =>
        unread
        pure answer
      | .through answer => pure answer

/-- Takes bytes one by one until there is an answer. -/
def take {σ α : Type} (step : σ → UInt8 → Verdict σ α) (finish : σ → α) (state : σ) : Scan α := do
  takeFrom step finish (← remaining) state

end Scan

/-- Programs that may fail. Failing does not undo what has been read. -/
abbrev Parse := ExceptT Error Scan

end PdfObjects
