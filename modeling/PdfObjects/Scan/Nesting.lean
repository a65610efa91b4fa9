import PdfObjects.Scan

/-! Levels of nesting. A program takes a level before it nests and gives it back afterwards. It cannot see how
deep it is, so as long as it takes no level it does the same at every depth; and with the levels counted
beforehand it does the same without taking any. -/
namespace PdfObjects.Scan

/-- The program with its levels counted down from those that are left. Where it would take one, it goes on
without, or with the other program if none is left. -/
def counted : (levels : Nat) → Scan α → Scan α
  | _, .pure value => .pure value
  | levels, .bind first rest => .bind (first.counted levels) fun value => (rest value).counted levels
  | _, .perform command => .perform command
  | levels, .session body => .session (body.counted levels)
  | 0, .nested _ refused => refused.counted 0
  | levels + 1, .nested body _ => body.counted levels

variable {σ : Type} [Readable σ]

/-- Readers with a depth that is counted up from level to level. Nothing else sees it. -/
structure Nesting (limits : σ → Limits) (atDepth : σ → Nat → σ) : Prop where
  enter : ∀ s, Readable.enter s =
    if (limits s).depth < (limits s).nesting then some (atDepth s ((limits s).depth + 1)) else none
  leave : ∀ s, Readable.leave (atDepth s ((limits s).depth + 1)) = s
  deeper : ∀ s depth, limits (atDepth s depth) = { limits s with depth }
  kept : ∀ {α : Type} (program : Scan α) s, limits (program.run s).2 = limits s
  settings : ∀ s, Scan.settings.run s = ((limits s).toSettings, s)
  perform : ∀ {α : Type} (command : Command α) s depth, Readable.perform command (atDepth s depth) =
    ((Readable.perform command s).1, atDepth (Readable.perform command s).2 depth)
  opened : ∀ s, limits (Readable.openSession s) = limits s
  openSession : ∀ s depth, Readable.openSession (atDepth s depth) = atDepth (Readable.openSession s) depth
  closeSession : ∀ s after depth, Readable.closeSession (atDepth s depth) (atDepth after depth) =
    ((Readable.closeSession s after).1, atDepth (Readable.closeSession s after).2 depth)

namespace Nesting

variable {limits : σ → Limits} {atDepth : σ → Nat → σ} {levels : Nat} {α : Type}

/-- With levels counted, a program does the same at every depth. -/
theorem counted_run (nesting : Nesting limits atDepth) (program : Scan α) (s : σ) (depth : Nat) :
    (program.counted levels).run (atDepth s depth) =
      (((program.counted levels).run s).1, atDepth ((program.counted levels).run s).2 depth) := by
  induction program generalizing levels s with
  | pure value => rfl
  | bind first rest ihFirst ihRest => simp only [counted, run, ihFirst, ihRest]
  | perform command => exact nesting.perform command s depth
  | session body ih => simp only [counted, run, nesting.openSession, ih, nesting.closeSession]
  | nested body refused ihBody ihRefused =>
    cases levels with
    | zero => exact ihRefused s
    | succ levels => exact ihBody s

/-- Counting the levels that are left makes no difference. -/
theorem run_counted (nesting : Nesting limits atDepth) (program : Scan α) {s : σ}
    (left : (limits s).nesting - (limits s).depth = levels) :
    program.run s = (program.counted levels).run s := by
  induction program generalizing levels s with
  | pure value => rfl
  | bind first rest ihFirst ihRest =>
    have kept := nesting.kept first s
    simp only [run, counted]
    rw [← ihFirst left]
    exact ihRest _ (by rwa [kept])
  | perform command => rfl
  | session body ih =>
    have inside := @ih levels (Readable.openSession s) (by rwa [nesting.opened])
    simp only [run, counted, inside]
  | nested body refused ihBody ihRefused =>
    have enters := nesting.enter s
    cases levels with
    | zero =>
      rw [if_neg (by omega)] at enters
      rw [run_refused enters]
      exact ihRefused left
    | succ levels =>
      rw [if_pos (by omega)] at enters
      have fewer : (limits (atDepth s ((limits s).depth + 1))).nesting -
          (limits (atDepth s ((limits s).depth + 1))).depth = levels := by
        rw [nesting.deeper]
        change (limits s).nesting - ((limits s).depth + 1) = levels
        omega
      have kept : limits ((body.counted levels).run s).2 = limits s := nesting.kept _ s
      rw [run_entered enters, ihBody fewer, nesting.counted_run, ← kept, nesting.leave]
      rfl

end Nesting
end PdfObjects.Scan
