import PdfObjects.Proofs.Passage
import PdfObjects.Proofs.Skipping
import PdfObjects.Scan.Nesting

/-! Objects read with their levels of nesting counted down. An object takes a level while it is read. Here the
same is read by programs that take none, and are told how many are left instead; a reader that has so many
left cannot tell the difference. -/
namespace PdfObjects

namespace Scan

/-- Skipping takes no levels. -/
theorem skipBlanks_counted (levels : Nat) : skipBlanks.counted levels = skipBlanks := by
  have loop (fuel : Nat) (state : Option Marker) :
      (skipFrom fuel state).counted levels = skipFrom fuel state := by
    induction fuel generalizing state with
    | zero => rfl
    | succ fuel ih =>
      refine congrArg (Scan.bind next) (funext fun found => ?_)
      cases found with
      | none => rfl
      | some b =>
        cases state with
        | none =>
          dsimp only
          split
          · exact ih none
          · split
            · exact ih _
            · rfl
        | some marker =>
          dsimp only
          split
          · split
            · exact congrArg (Scan.bind _) (funext fun _ => ih none)
            · exact ih none
          · exact ih _
  exact congrArg (Scan.bind remaining) (funext fun fuel => loop fuel none)

/-- A program that takes no levels stays as it is when they are counted. -/
theorem Skipping.counted {program : Scan α} (skipping : program.Skipping False) (levels : Nat) :
    program.counted levels = program := by
  induction skipping with
  | pure value => rfl
  | bind _ _ ihFirst ihRest =>
    rw [Scan.counted, ihFirst]
    exact congrArg (Scan.bind _) (funext ihRest)
  | perform _ => rfl
  | session _ ih => rw [Scan.counted, ih]
  | nested allowed => exact allowed.elim
  | skipBlanks => exact skipBlanks_counted levels

end Scan

namespace Parse
open Scan

/-- An object that may nest `levels` deep. -/
def body (resolve : Resolver) : (levels : Nat) → Mode → Parse Object
  | 0, _ => tooDeep
  | levels + 1, mode => announced resolve (body resolve levels .loose) mode

/-- A program turns into another when levels are counted. -/
def Flattens (levels : Nat) (program other : Parse α) : Prop := program.run.counted levels = other.run

section Flattens

variable {α β : Type} {levels : Nat} {program other : Parse α} {rest after : α → Parse β}

theorem flattens_self (skipping : Skipping False program) : Flattens levels program program :=
  Scan.Skipping.counted skipping levels

theorem Flattens.andThen (flattens : Flattens levels program other)
    (later : ∀ value, Flattens levels (rest value) (after value)) :
    Flattens levels (program >>= rest) (other >>= after) := by
  change Scan.bind (program.run.counted levels) _ = Scan.bind other.run _
  rw [flattens]
  refine congrArg (Scan.bind other.run) (funext fun result => ?_)
  cases result with
  | ok value => exact later value
  | error error => rfl

theorem flattens_lift_andThen {scan : Scan α} (skipping : scan.Skipping False)
    (later : ∀ value, Flattens levels (rest value) (after value)) :
    Flattens levels ((liftM scan : Parse α) >>= rest) ((liftM scan : Parse α) >>= after) :=
  (flattens_self (skipping_lift skipping)).andThen later

theorem flattens_outcome (flattens : Flattens levels program other) :
    Flattens levels (outcome program) (outcome other) := by
  change Scan.bind (program.run.counted levels) _ = Scan.bind other.run _
  rw [flattens]
  rfl

theorem flattens_ite {condition : Prop} [Decidable condition] {first second : Parse α}
    (yes : Flattens levels program first) (no : Flattens levels other second) :
    Flattens levels (if condition then program else other) (if condition then first else second) := by
  split
  · exact yes
  · exact no

/-- What follows a check. -/
theorem flattens_guard {condition : Prop} [Decidable condition] {error : Error}
    (flattens : Flattens levels program other) :
    Flattens levels (if condition then (throw error : Parse PUnit) >>= fun _ => program else program)
      (if condition then (throw error : Parse PUnit) >>= fun _ => other else other) :=
  flattens_ite ((flattens_self (skipping_throw _)).andThen fun _ => flattens) flattens

/-- The same of a check that does something before it fails. -/
theorem flattens_unless {condition : Prop} [Decidable condition] {scan : Scan β} {error : β → Error}
    (before : scan.Skipping False) (flattens : Flattens levels program other) :
    Flattens levels
      (if condition then
        (liftM scan : Parse β) >>= fun found => (throw (error found) : Parse PUnit) >>= fun _ => program
        else program)
      (if condition then
        (liftM scan : Parse β) >>= fun found => (throw (error found) : Parse PUnit) >>= fun _ => other
        else other) :=
  flattens_ite
    (flattens_lift_andThen before fun _ => (flattens_self (skipping_throw _)).andThen fun _ => flattens) flattens

end Flattens

variable {resolve : Resolver} {levels : Nat} {inner other : Parse Object} {mode : Mode}

theorem elements_flattens (flattens : Flattens levels inner other) (fuel : Nat) (taken : List Object) :
    Flattens levels (elements inner fuel taken) (elements other fuel taken) := by
  induction fuel generalizing taken with
  | zero => rfl
  | succ fuel ih =>
    refine (flattens_outcome flattens).andThen fun result => ?_
    cases result with
    | ok object => exact ih _
    | error error => exact flattens_self (skipping_ite (skipping_throw _) (skipping_pure _))

theorem array_flattens (flattens : Flattens levels inner other) :
    Flattens levels (array inner mode) (array other mode) := by
  refine flattens_lift_andThen remaining_skipping fun _ => (elements_flattens flattens _ _).andThen fun _ => ?_
  refine flattens_self (skipping_lift_andThen (.perform trivial) fun _ => ?_)
  exact skipping_ite (skipping_pure _) (skipping_lift_andThen position_skipping fun _ => skipping_throw _)

theorem entries_flattens (flattens : Flattens levels inner other) (fuel : Nat) (dict : Dictionary) :
    Flattens levels (entries inner mode fuel dict) (entries other mode fuel dict) := by
  induction fuel generalizing dict with
  | zero => exact flattens_self (skipping_lift_andThen position_skipping fun _ => skipping_throw _)
  | succ fuel ih =>
    refine flattens_lift_andThen word_skipping fun word => flattens_lift_andThen position_skipping fun here => ?_
    refine flattens_guard ?_
    cases KeyWord.ofWord word.bytes with
    | close => exact flattens_self (skipping_pure _)
    | endObject => exact flattens_self (skipping_lift_andThen (seek_skipping _) fun _ => skipping_pure _)
    | other => exact ih _
    | key key =>
      have failing (error : Error) : Skipping False (do nextLine; throw error : Parse Dictionary) :=
        skipping_lift_andThen nextLine_skipping fun _ => skipping_throw _
      refine flattens_unless nextLine_skipping ((flattens_outcome flattens).andThen fun result => ?_)
      cases result with
      | ok object => exact ih _
      | error error =>
        exact flattens_ite (flattens_self (skipping_throw _)) (flattens_ite (ih _) (flattens_self (failing _)))

theorem dictionary_flattens (flattens : Flattens levels inner other) :
    Flattens levels (dictionary inner resolve mode) (dictionary other resolve mode) := by
  refine flattens_lift_andThen remaining_skipping fun _ => (entries_flattens flattens _ _).andThen fun dict => ?_
  refine flattens_self (skipping_lift_andThen (accept_skipping _) fun _ => ?_)
  exact skipping_ite ((payload_skipping _ _).andThen fun _ => skipping_pure _) (skipping_pure _)

theorem rewinding_flattens (flattens : Flattens levels inner other) (start : Nat) :
    Flattens levels (rewinding start inner) (rewinding start other) := by
  refine (flattens_outcome flattens).andThen fun result => flattens_self ?_
  cases result with
  | ok object => exact skipping_pure _
  | error error =>
    exact skipping_ite (skipping_lift_andThen (seek_skipping _) fun _ => skipping_throw _)
      (skipping_throw _)

theorem announced_flattens (flattens : Flattens levels inner other) :
    Flattens levels (announced resolve inner mode) (announced resolve other mode) := by
  refine flattens_lift_andThen position_skipping fun start => flattens_lift_andThen word_skipping fun word => ?_
  refine flattens_unless position_skipping (flattens_ite (flattens_self (numberOrReference_skipping _)) ?_)
  cases Lead.ofWord word.bytes with
  | array => exact rewinding_flattens (array_flattens flattens) _
  | dictionary => exact rewinding_flattens (dictionary_flattens flattens) _
  | whole object => exact flattens_self (skipping_pure _)
  | literalString | hexString =>
    exact flattens_self (skipping_lift_andThen (take_skipping _ _ _) fun _ => skipping_pure _)
  | dictionaryEnd =>
    exact flattens_self (skipping_lift_andThen (seek_skipping _) fun _ => skipping_throw _)
  | nothing => exact flattens_self (skipping_throw _)

/-- Every level that is counted is one that would be taken, as far as the fuel goes. -/
theorem bodyFrom_flattens (fuel levels : Nat) :
    Flattens levels (bodyFrom resolve fuel mode) (body resolve (min fuel levels) mode) := by
  induction fuel generalizing levels mode with
  | zero =>
    rw [Nat.zero_min]
    exact flattens_self tooDeep_skipping
  | succ fuel ih =>
    cases levels with
    | zero => exact flattens_self tooDeep_skipping
    | succ levels =>
      rw [Nat.succ_min_succ]
      exact announced_flattens (ih levels)

section Nesting

variable {σ α : Type} [Readable σ] {limits : σ → Limits} {atDepth : σ → Nat → σ} {s : σ}

/-- What takes a level fails where none is left, -/
theorem guarded_none (nesting : Nesting limits atDepth) (full : (limits s).nesting - (limits s).depth = 0)
    (program : Parse α) : (guarded program).run.run s = (.error (.nestingLimit (limits s).nesting), s) := by
  have enters := nesting.enter s
  rw [if_neg (by omega)] at enters
  change (Scan.nested program.run tooDeep.run).run s = _
  rw [run_refused enters, tooDeep, run_bind_lift, nesting.settings]
  rfl

/-- and else does what it does with one level less. -/
theorem guarded_some (nesting : Nesting limits atDepth) {program other : Parse α}
    (left : (limits s).nesting - (limits s).depth = levels + 1) (flattens : Flattens levels program other) :
    (guarded program).run.run s = other.run.run s := by
  rw [nesting.run_counted _ left, ← flattens]
  rfl

theorem bodyFrom_levels (nesting : Nesting limits atDepth) (fuel : Nat) (s : σ) :
    (bodyFrom resolve fuel mode).run.run s =
      (body resolve (min fuel ((limits s).nesting - (limits s).depth)) mode).run.run s := by
  rw [nesting.run_counted _ rfl, bodyFrom_flattens]

/-- An object is read within the levels that are left, however many are taken already. -/
theorem anyObject_levels (nesting : Nesting limits atDepth) (s : σ) : (anyObject resolve mode).run.run s =
    (body resolve ((limits s).nesting - (limits s).depth) mode).run.run s := by
  have enough : (limits s).nesting - (limits s).depth ≤ (limits s).nesting + 1 := by omega
  rw [anyObject, run_bind_lift, nesting.settings, bodyFrom_levels nesting]
  exact congrArg (fun levels => (body resolve levels mode).run.run s) (Nat.min_eq_right enough)

end Nesting
end Parse

namespace Reader

/-- The reader at another depth. -/
def atDepth (r : Reader) (depth : Nat) : Reader := { r with depth }

theorem refill_atDepth (r : Reader) (depth start : Nat) :
    (r.atDepth depth).refill start = (r.refill start).atDepth depth := by
  have gate : (r.atDepth depth).gate = r.gate := rfl
  have options : (r.atDepth depth).options = r.options := rfl
  simp only [refill, gate, options]
  cases r.gate.read start (min r.options.effectiveWindow (r.gate.size - start)) with
  | mk answer gate => cases answer <;> rfl

theorem fetch_atDepth (r : Reader) (depth offset start : Nat) : (r.atDepth depth).fetch offset start =
    ((r.fetch offset start).1, (r.fetch offset start).2.atDepth depth) := by
  have gate : (r.atDepth depth).gate = r.gate := rfl
  have window : (r.atDepth depth).window = r.window := rfl
  unfold fetch
  rw [gate, window]
  split
  · rfl
  · split
    · rfl
    · rw [refill_atDepth]
      rfl

theorem byteAt_atDepth (r : Reader) (depth position : Nat) : (r.atDepth depth).byteAt position =
    ((r.byteAt position).1, (r.byteAt position).2.atDepth depth) :=
  r.fetch_atDepth depth _ _

/-- No command sees the depth. -/
theorem perform_atDepth (command : Command α) (r : Reader) (depth : Nat) :
    Readable.perform command (r.atDepth depth) =
      ((Readable.perform command r).1, (Readable.perform command r).2.atDepth depth) := by
  have byte : (r.atDepth depth).byteAt (r.atDepth depth).position = _ := r.byteAt_atDepth depth r.position
  cases command with
  | next =>
    simp only [Readable.perform, next, byte]
    cases r.byteAt r.position with
    | mk answer after => cases answer <;> rfl
  | byteAt position => exact r.byteAt_atDepth depth position
  | byteBehind position => exact r.fetch_atDepth depth _ _
  | noteTrailer ending =>
    have ends : (r.atDepth depth).trailerEnds = r.trailerEnds := rfl
    simp only [Readable.perform, noteTrailer, byte, ends]
    split
    · rfl
    · split <;> rfl
  | check position length =>
    simp only [Readable.perform, check]
    split <;> rfl
  | block | position | seek | documentSize | settings | keepWord | lastWord => rfl

theorem nesting : Scan.Nesting limits atDepth where
  enter r := by
    change r.enter.toOption = _
    unfold enter
    change _ = if r.depth < r.options.maxDepth then _ else _
    split <;> rfl
  leave _ := rfl
  deeper _ _ := rfl
  kept program r := (continues.run program r).limits
  settings _ := rfl
  perform := perform_atDepth
  opened _ := rfl
  openSession _ _ := rfl
  closeSession _ _ _ := rfl

end Reader

/-- The depth does not matter to who is told how many levels are left. -/
theorem Parse.body_atDepth (r : Reader) (depth : Nat) :
    (body resolve levels mode).run.run (r.atDepth depth) =
      (((body resolve levels mode).run.run r).1, ((body resolve levels mode).run.run r).2.atDepth depth) := by
  have flattens : Flattens levels (bodyFrom resolve levels mode) (body resolve (min levels levels) mode) :=
    bodyFrom_flattens levels levels
  rw [Nat.min_self] at flattens
  rw [← flattens]
  exact Reader.nesting.counted_run _ r depth

end PdfObjects
