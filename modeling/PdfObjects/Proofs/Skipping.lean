import PdfObjects.Operation
import PdfObjects.Scan.Parsing

/-! Where trailers are noted, and where levels of nesting are taken. Of all the programs that calls are made of,
only the one that skips blanks notes the end of a trailer; the others get at the record through it alone. So
an invariant of the record need be shown for single commands and for skipping as a whole, and holds of every
call. And only the program that reads objects takes levels. -/
namespace PdfObjects

/-- Whether a command leaves the record of trailers alone. -/
def Command.Silent : Command α → Prop
  | .noteTrailer _ => False
  | _ => True

/-- Programs that note trailers where they skip blanks, and nowhere else. Whether they may take levels of
nesting is told beforehand. -/
inductive Scan.Skipping (nests : Prop) : {α : Type} → Scan α → Prop where
  | pure (value : α) : Skipping nests (.pure value)
  | bind {first : Scan α} {rest : α → Scan β} (skipping : Skipping nests first)
    (later : ∀ value, Skipping nests (rest value)) : Skipping nests (.bind first rest)
  | perform {command : Command α} (silent : command.Silent) : Skipping nests (.perform command)
  | session {body : Scan α} (skipping : Skipping nests body) : Skipping nests (.session body)
  | nested (allowed : nests) {body refused : Scan α} (skipping : Skipping nests body)
    (otherwise : Skipping nests refused) : Skipping nests (.nested body refused)
  | skipBlanks : Skipping nests skipBlanks

namespace Scan

variable {nests : Prop} {α β : Type}

theorem Skipping.andThen {first : Scan α} {rest : α → Scan β} (skipping : Skipping nests first)
    (later : ∀ value, Skipping nests (rest value)) : Skipping nests (first >>= rest) := .bind skipping later

theorem skipping_ite {condition : Prop} [Decidable condition] {first other : Scan α}
    (skipping : Skipping nests first) (otherwise : Skipping nests other) :
    Skipping nests (if condition then first else other) :=
  iteInduction (fun _ => skipping) fun _ => otherwise

/-- Two ways to the value that the rest goes on with. -/
theorem skipping_either {condition : Prop} [Decidable condition] {first other : Scan α}
    {rest : α → Scan β} (skipping : Skipping nests first) (otherwise : Skipping nests other)
    (later : ∀ value, Skipping nests (rest value)) :
    Skipping nests (if condition then first >>= rest else other >>= rest) :=
  skipping_ite (skipping.andThen later) (otherwise.andThen later)

theorem next_skipping : Skipping nests next := .perform trivial

theorem position_skipping : Skipping nests position := .perform trivial

theorem seek_skipping (place : Nat) : Skipping nests (seek place) := .perform trivial

theorem remaining_skipping : Skipping nests remaining :=
  .bind (.perform trivial) fun _ => .bind position_skipping fun _ => .pure _

theorem unread_skipping : Skipping nests unread := position_skipping.andThen fun _ => seek_skipping _

theorem takeFrom_skipping {σ : Type} (step : σ → UInt8 → Verdict σ α) (finish : σ → α) (fuel : Nat)
    (state : σ) : Skipping nests (takeFrom step finish fuel state) := by
  induction fuel generalizing state with
  | zero => exact .pure _
  | succ fuel ih =>
    refine next_skipping.andThen fun found => ?_
    cases found with
    | none => exact .pure _
    | some b =>
      dsimp only
      cases step state b with
      | more state => exact ih state
      | before answer => exact unread_skipping.andThen fun _ => .pure _
      | through answer => exact .pure _

theorem take_skipping {σ : Type} (step : σ → UInt8 → Verdict σ α) (finish : σ → α) (state : σ) :
    Skipping nests (take step finish state) :=
  remaining_skipping.andThen fun _ => takeFrom_skipping _ _ _ _

theorem lookahead_skipping {body : Scan α} (skipping : Skipping nests body) :
    Skipping nests (lookahead body) :=
  position_skipping.andThen fun _ => skipping.andThen fun _ =>
    (seek_skipping _).andThen fun _ => .pure _

theorem attempt_skipping {body : Scan (Option α)} (skipping : Skipping nests body) :
    Skipping nests (attempt body) := by
  refine position_skipping.andThen fun _ => skipping.andThen fun found => ?_
  cases found with
  | none => exact (seek_skipping _).andThen fun _ => .pure _
  | some value => exact .pure _

theorem lexeme_skipping : Skipping nests lexeme := by
  refine next_skipping.andThen fun found => ?_
  cases found with
  | none => exact .pure _
  | some b =>
    refine skipping_ite (take_skipping _ _ _) (skipping_ite ?_ (.pure _))
    refine next_skipping.andThen fun found => ?_
    cases found with
    | none => exact .pure _
    | some c => exact skipping_ite (.pure _) (unread_skipping.andThen fun _ => .pure _)

theorem rawWord_skipping : Skipping nests rawWord :=
  Skipping.skipBlanks.andThen fun _ => Skipping.andThen (.perform trivial) fun _ =>
    lexeme_skipping.andThen fun _ => Skipping.andThen (.perform trivial) fun _ => .pure _

theorem word_skipping : Skipping nests word :=
  (Skipping.session rawWord_skipping).andThen fun _ => .pure _

theorem peekWord_skipping : Skipping nests peekWord := lookahead_skipping word_skipping

theorem nextLine_skipping : Skipping nests nextLine := take_skipping _ _ _

theorem referenceTail_skipping : Skipping nests referenceTail := by
  refine attempt_skipping (word_skipping.andThen fun generation => ?_)
  exact skipping_ite (.pure _) (word_skipping.andThen fun _ => .pure _)

theorem accept_skipping (keyword : Bytes) : Skipping nests (accept keyword) :=
  (attempt_skipping (word_skipping.andThen fun _ => .pure _)).andThen fun _ => .pure _

theorem agrees_skipping (tag : Bytes) : Skipping nests (agrees tag) := by
  induction tag with
  | nil => exact .pure _
  | cons expected tag ih =>
    refine next_skipping.andThen fun found => ?_
    cases found with
    | none => exact .pure _
    | some b => exact skipping_ite ih (.pure _)

theorem findFrom_skipping (tag : Bytes) (fuel : Nat) : Skipping nests (findFrom tag fuel) := by
  induction fuel with
  | zero => exact .pure _
  | succ fuel ih =>
    refine position_skipping.andThen fun _ => (agrees_skipping tag).andThen fun found => ?_
    match found with
    | none | some true => exact .pure _
    | some false => exact (seek_skipping _).andThen fun _ => ih

theorem findTag_skipping (tag : Bytes) : Skipping nests (findTag tag) := by
  refine skipping_ite (.pure _) (position_skipping.andThen fun _ => ?_)
  exact remaining_skipping.andThen fun _ => (findFrom_skipping tag _).andThen fun _ => .pure _

theorem isGluedAt_skipping (keyword : Bool) (place : Nat) : Skipping nests (isGluedAt keyword place) := by
  refine Skipping.andThen (.perform trivial) fun found => ?_
  cases found <;> exact .pure _

theorem isWholeWord_skipping (start limit : Nat) (tag : Bytes) (keyword : Bool) :
    Skipping nests (isWholeWord start limit tag keyword) := by
  have glued (place : Nat) : Skipping nests (isGluedAt keyword place) := isGluedAt_skipping keyword place
  unfold isWholeWord
  split
  · refine skipping_either (glued _) (.pure _) fun _ => skipping_ite (.pure _) ?_
    exact skipping_either (glued _) (.pure _) fun _ => .pure _
  · exact .pure _

theorem findWordFrom_skipping (word : Bytes) (limit fuel : Nat) :
    Skipping nests (findWordFrom word limit fuel) := by
  induction fuel with
  | zero => exact .pure _
  | succ fuel ih =>
    refine (findTag_skipping word).andThen fun found => ?_
    cases found with
    | none => exact .pure _
    | some distance =>
      exact position_skipping.andThen fun _ => (isWholeWord_skipping _ _ _ _).andThen fun _ =>
        skipping_ite (.pure _) ih

theorem findWord_skipping (word : Bytes) : Skipping nests (findWord word) :=
  lookahead_skipping (Skipping.andThen (.perform trivial) fun _ =>
    remaining_skipping.andThen fun _ => findWordFrom_skipping _ _ _)

theorem lineEndingAt_skipping (place : Nat) : Skipping nests (lineEndingAt place) :=
  Skipping.andThen (.perform trivial) fun _ => Skipping.andThen (.perform trivial) fun _ => .pure _

theorem payloadEnd_skipping : Skipping nests payloadEnd := by
  have trimmed (stop : Nat) : Skipping nests (payloadEnd.trim stop) := by
    unfold payloadEnd.trim
    refine skipping_either (lineEndingAt_skipping _) (.pure _) fun _ => ?_
    refine skipping_either (lineEndingAt_skipping _) (.pure _) fun _ => ?_
    exact position_skipping.andThen fun _ => .pure _
  refine (findWord_skipping _).andThen fun stream => (findWord_skipping _).andThen fun object => ?_
  match stream, object with
  | none, none => exact .pure _
  | some _, none | none, some _ | some _, some _ => exact trimmed _

theorem endStreamFollows_skipping : Skipping nests endStreamFollows :=
  .session (position_skipping.andThen fun _ => (lineEndingAt_skipping _).andThen fun _ =>
    (seek_skipping _).andThen fun _ => rawWord_skipping.andThen fun _ => .pure _)

end Scan

namespace Parse
open Scan

variable {nests : Prop} {α β : Type}

/-- The same of programs that may fail. -/
def Skipping (nests : Prop) (program : Parse α) : Prop := Scan.Skipping nests program.run

theorem skipping_pure (value : α) : Skipping nests (pure value) := .pure _

theorem skipping_throw (error : Error) : Skipping nests (throw error : Parse α) := .pure _

theorem skipping_lift {scan : Scan α} (skipping : scan.Skipping nests) :
    Skipping nests (liftM scan : Parse α) :=
  .bind skipping fun _ => .pure _

theorem Skipping.andThen {first : Parse α} {rest : α → Parse β} (skipping : Skipping nests first)
    (later : ∀ value, Skipping nests (rest value)) : Skipping nests (first >>= rest) := by
  change Scan.Skipping nests (first.run >>= ExceptT.bindCont rest)
  refine Scan.Skipping.andThen skipping fun result => ?_
  cases result with
  | ok value => exact later value
  | error error => exact .pure _

theorem skipping_lift_andThen {scan : Scan α} {rest : α → Parse β} (skipping : scan.Skipping nests)
    (later : ∀ value, Skipping nests (rest value)) : Skipping nests ((liftM scan : Parse α) >>= rest) :=
  (skipping_lift skipping).andThen later

theorem skipping_outcome {body : Parse α} (skipping : Skipping nests body) : Skipping nests (outcome body) :=
  .bind skipping fun _ => .pure _

theorem skipping_ite {condition : Prop} [Decidable condition] {first other : Parse α}
    (skipping : Skipping nests first) (otherwise : Skipping nests other) :
    Skipping nests (if condition then first else other) :=
  iteInduction (fun _ => skipping) fun _ => otherwise

/-- What follows a check, and would follow its failure too if that did not end the program. -/
theorem skipping_guard {condition : Prop} [Decidable condition] {error : Error} {rest : Parse α}
    (skipping : Skipping nests rest) :
    Skipping nests (if condition then (throw error : Parse PUnit) >>= fun _ => rest else rest) :=
  skipping_ite ((skipping_throw _).andThen fun _ => skipping) skipping

/-- The same of a check that does something before it fails. -/
theorem skipping_unless {condition : Prop} [Decidable condition] {scan : Scan β} {error : β → Error}
    {rest : Parse α} (before : scan.Skipping nests) (skipping : Skipping nests rest) :
    Skipping nests (if condition then
      (liftM scan : Parse β) >>= fun found => (throw (error found) : Parse PUnit) >>= fun _ => rest
      else rest) :=
  skipping_ite (skipping_lift_andThen before fun _ => (skipping_throw _).andThen fun _ => skipping)
    skipping

theorem numberOrReference_skipping (first : Bytes) : Skipping nests (numberOrReference first) := by
  refine skipping_lift_andThen position_skipping fun _ =>
    skipping_lift_andThen referenceTail_skipping fun found => ?_
  cases found with
  | none => exact skipping_pure _
  | some generation => exact skipping_ite (skipping_throw _) (skipping_pure _)

theorem elements_skipping {element : Parse Object} (skipping : Skipping nests element) (fuel : Nat)
    (taken : List Object) : Skipping nests (elements element fuel taken) := by
  induction fuel generalizing taken with
  | zero => exact skipping_pure _
  | succ fuel ih =>
    refine (skipping_outcome skipping).andThen fun result => ?_
    cases result with
    | ok object => exact ih _
    | error error => exact skipping_ite (skipping_throw _) (skipping_pure _)

theorem array_skipping {element : Parse Object} (skipping : Skipping nests element) (mode : Mode) :
    Skipping nests (array element mode) := by
  refine skipping_lift_andThen remaining_skipping fun _ =>
    (elements_skipping skipping _ _).andThen fun _ =>
      skipping_lift_andThen (.perform trivial) fun _ => ?_
  exact skipping_ite (skipping_pure _)
    (skipping_lift_andThen position_skipping fun _ => skipping_throw _)

theorem entries_skipping {value : Parse Object} (skipping : Skipping nests value) (mode : Mode) (fuel : Nat)
    (dict : Dictionary) : Skipping nests (entries value mode fuel dict) := by
  induction fuel generalizing dict with
  | zero => exact skipping_lift_andThen position_skipping fun _ => skipping_throw _
  | succ fuel ih =>
    refine skipping_lift_andThen word_skipping fun word =>
      skipping_lift_andThen position_skipping fun here => ?_
    refine skipping_guard ?_
    cases KeyWord.ofWord word.bytes with
    | close => exact skipping_pure _
    | endObject => exact skipping_lift_andThen (seek_skipping _) fun _ => skipping_pure _
    | other => exact ih _
    | key key =>
      have failing (error : Error) : Skipping nests (do nextLine; throw error : Parse Dictionary) :=
        skipping_lift_andThen nextLine_skipping fun _ => skipping_throw _
      refine skipping_unless nextLine_skipping ((skipping_outcome skipping).andThen fun result => ?_)
      cases result with
      | ok object => exact ih _
      | error error =>
        exact skipping_ite (skipping_throw _) (skipping_ite (ih _) (failing _))

theorem skipPayload_skipping (start length : Nat) : Skipping nests (skipPayload start length) := by
  refine skipping_ite ?_ (skipping_pure _)
  refine skipping_lift_andThen (seek_skipping _) fun _ =>
    skipping_lift_andThen (.perform trivial) fun _ => ?_
  exact skipping_ite (skipping_lift (seek_skipping _)) (skipping_throw _)

theorem searchedLength_skipping (start : Nat) : Skipping nests (searchedLength start) := by
  refine skipping_lift_andThen payloadEnd_skipping fun found => ?_
  cases found with
  | none => exact skipping_throw _
  | some stop => exact (skipPayload_skipping _ _).andThen fun _ => skipping_pure _

theorem payloadLength_skipping (start : Nat) (declared : Option Nat) :
    Skipping nests (payloadLength start declared) := by
  cases declared with
  | none => exact searchedLength_skipping start
  | some length =>
    refine (skipPayload_skipping _ _).andThen fun _ =>
      skipping_lift_andThen endStreamFollows_skipping fun found => ?_
    refine skipping_guard (skipping_ite (skipping_pure _) ?_)
    exact skipping_lift_andThen (seek_skipping _) fun _ => searchedLength_skipping start

theorem payloadBytes_skipping (start length : Nat) : Skipping nests (payloadBytes start length) := by
  refine skipping_ite (skipping_pure _) (skipping_lift_andThen (.perform trivial) fun found => ?_)
  cases found with
  | none => exact skipping_throw _
  | some bytes => exact skipping_pure _

theorem skipEndStream_skipping : Scan.Skipping nests skipEndStream := by
  refine position_skipping.andThen fun _ => rawWord_skipping.andThen fun _ =>
    (take_skipping _ _ _).andThen fun _ => unread_skipping.andThen fun _ => ?_
  exact position_skipping.andThen fun _ => (lineEndingAt_skipping _).andThen fun _ =>
    Scan.skipping_ite (seek_skipping _) (.pure _)

theorem payload_skipping (dict : Dictionary) (resolve : Resolver) :
    Skipping nests (payload dict resolve) :=
  skipping_lift_andThen nextLine_skipping fun _ =>
    skipping_lift_andThen position_skipping fun _ =>
      skipping_lift_andThen (.perform trivial) fun _ =>
        (payloadLength_skipping _ _).andThen fun _ =>
          (payloadBytes_skipping _ _).andThen fun _ =>
            skipping_lift_andThen skipEndStream_skipping fun _ => skipping_pure _

theorem dictionary_skipping {value : Parse Object} (skipping : Skipping nests value) (resolve : Resolver)
    (mode : Mode) : Skipping nests (dictionary value resolve mode) := by
  refine skipping_lift_andThen remaining_skipping fun _ =>
    (entries_skipping skipping _ _ _).andThen fun dict =>
      skipping_lift_andThen (accept_skipping _) fun _ => ?_
  exact skipping_ite ((payload_skipping _ _).andThen fun _ => skipping_pure _) (skipping_pure _)

theorem rewinding_skipping {body : Parse Object} (skipping : Skipping nests body) (start : Nat) :
    Skipping nests (rewinding start body) := by
  refine (skipping_outcome skipping).andThen fun result => ?_
  cases result with
  | ok object => exact skipping_pure _
  | error error =>
    exact skipping_ite (skipping_lift_andThen (seek_skipping _) fun _ => skipping_throw _)
      (skipping_throw _)

theorem announced_skipping {inner : Parse Object} (skipping : Skipping nests inner) (resolve : Resolver)
    (mode : Mode) : Skipping nests (announced resolve inner mode) := by
  refine skipping_lift_andThen position_skipping fun start =>
    skipping_lift_andThen word_skipping fun word => ?_
  refine skipping_unless position_skipping (skipping_ite (numberOrReference_skipping _) ?_)
  cases Lead.ofWord word.bytes with
  | whole object => exact skipping_pure _
  | literalString | hexString =>
    exact skipping_lift_andThen (take_skipping _ _ _) fun _ => skipping_pure _
  | array => exact rewinding_skipping (array_skipping skipping _) _
  | dictionary => exact rewinding_skipping (dictionary_skipping skipping _ _) _
  | dictionaryEnd => exact skipping_lift_andThen (seek_skipping _) fun _ => skipping_throw _
  | nothing => exact skipping_throw _

theorem tooDeep_skipping : Skipping nests (tooDeep : Parse α) :=
  skipping_lift_andThen (.perform trivial) fun _ => skipping_throw _

theorem bodyFrom_skipping (resolve : Resolver) (fuel : Nat) (mode : Mode) :
    Skipping True (bodyFrom resolve fuel mode) := by
  induction fuel generalizing mode with
  | zero => exact tooDeep_skipping
  | succ fuel ih => exact .nested trivial (announced_skipping (ih .loose) resolve mode) tooDeep_skipping

theorem anyObject_skipping (resolve : Resolver) (mode : Mode) :
    Skipping True (anyObject resolve mode) :=
  skipping_lift_andThen (.perform trivial) fun _ => bodyFrom_skipping _ _ _

theorem headerNumber_skipping (start : Nat) (fault : SyntaxFault) :
    Skipping nests (headerNumber start fault) := by
  refine skipping_lift_andThen word_skipping fun word => skipping_ite (skipping_pure _) ?_
  exact skipping_lift_andThen (seek_skipping _) fun _ => skipping_throw _

theorem headerAndObject_skipping (resolve : Resolver) (mode : Mode) :
    Skipping True (headerAndObject resolve mode) := by
  refine skipping_lift_andThen position_skipping fun start =>
    (headerNumber_skipping _ _).andThen fun number =>
      (headerNumber_skipping _ _).andThen fun generation =>
        skipping_lift_andThen word_skipping fun keyword => ?_
  refine skipping_unless (seek_skipping _) ?_
  exact (anyObject_skipping _ _).andThen fun _ => skipping_pure _

theorem whole_skipping {body : Parse α} (skipping : Skipping nests body) : Skipping nests (whole body) := by
  refine skipping_lift_andThen (.session skipping) fun result => ?_
  refine skipping_guard ?_
  cases result.1 with
  | ok value => exact skipping_pure _
  | error error => exact skipping_throw _

end Parse

/-- Calls that go on from where the cursor is and read words or objects, or look ahead at a word. -/
def Call.Forward : Call → Prop
  | .word | .peekWord | .object _ | .indirect _ _ => True
  | _ => False

theorem Call.Forward.skipping {call : Call} (forward : call.Forward) : call.program.Skipping True := by
  cases call with
  | word => exact Scan.word_skipping.andThen fun _ => .pure _
  | peekWord => exact Scan.peekWord_skipping.andThen fun _ => .pure _
  | object resolve =>
    exact Scan.Skipping.andThen (Parse.whole_skipping (Parse.anyObject_skipping _ _)) fun _ => .pure _
  | indirect resolve mode =>
    exact Scan.Skipping.andThen (Parse.whole_skipping (Parse.headerAndObject_skipping _ _))
      fun _ => .pure _
  | _ => exact forward.elim

end PdfObjects
