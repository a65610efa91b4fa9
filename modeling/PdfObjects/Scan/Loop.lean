import PdfObjects.Scan

/-! Loops without a counter. The programs here carry a bound on the rounds of each loop, so that they are
functions; whether a loop needs its bound is another question. A loop as such is a round that is run again
and again, each time from where it ended before, and it comes to an end or it does not. If every round
that is not the last one brings the end nearer, it does, and a counter that starts high enough is never
used up. -/
namespace PdfObjects.Scan

/-- What a round of a loop comes to. -/
inductive Round (β α : Type) where
  | again (state : β)
  | done (value : α)

section Finishes

variable {σ α β : Type} [Readable σ]

/-- A loop that comes to an end by itself, with its last answer and the state in which it is left. -/
inductive Finishes (round : β → Scan (Round β α)) : β → σ → α → σ → Prop where
  | done (ran : (round state).run s = (.done value, t)) : Finishes round state s value t
  | again (ran : (round state).run s = (.again state', t)) (later : Finishes round state' t value u) :
    Finishes round state s value u

variable {round : β → Scan (Round β α)} {loop : Nat → β → Scan α} {left : σ → Nat} {good : σ → Prop}

/-- There is one way only in which a loop can end. -/
theorem Finishes.unique {state : β} {s t u : σ} {value other : α}
    (finishes : Finishes round state s value t) (again : Finishes round state s other u) :
    value = other ∧ t = u := by
  induction finishes with
  | done ran =>
    cases again with
    | done same => cases ran.symm.trans same; exact ⟨rfl, rfl⟩
    | again same _ => cases ran.symm.trans same
  | again ran _ ih =>
    cases again with
    | done same => cases ran.symm.trans same
    | again same later => cases ran.symm.trans same; exact ih later

/-- Some rounds of a loop, none of them the last one, lead from one state to another. -/
inductive Reaches (round : β → Scan (Round β α)) : β → σ → β → σ → Prop where
  | here (state : β) (s : σ) : Reaches round state s state s
  | again (earlier : Reaches round state s state' t) (ran : (round state').run t = (.again last, u)) :
    Reaches round state s last u

/-- A loop ends as it does from wherever it has come to. -/
theorem Reaches.finishes {state last : β} {s t u : σ} {value : α} (reaches : Reaches round state s last t)
    (finishes : Finishes round last t value u) : Finishes round state s value u := by
  induction reaches with
  | here => exact finishes
  | again _ ran ih => exact ih (.again ran finishes)

theorem Reaches.prepend {state state' last : β} {s t u : σ} (ran : (round state).run s = (.again state', t))
    (later : Reaches round state' t last u) : Reaches round state s last u := by
  induction later with
  | here => exact .again (.here _ _) ran
  | again _ next ih => exact .again ih next

/-- A loop that ends comes to its last round. -/
theorem Finishes.reaches {state : β} {s t : σ} {value : α} (finishes : Finishes round state s value t) :
    ∃ last u, Reaches round state s last u ∧ (round last).run u = (.done value, t) := by
  induction finishes with
  | done ran => exact ⟨_, _, .here _ _, ran⟩
  | again ran _ ih =>
    obtain ⟨last, u, reaches, ends⟩ := ih
    exact ⟨last, u, reaches.prepend ran, ends⟩

/-- What every round keeps holds wherever the loop comes to, -/
theorem Reaches.preserves (kept : ∀ state s, good s → good ((round state).run s).2) {state last : β} {s t : σ}
    (reaches : Reaches round state s last t) (start : good s) : good t := by
  induction reaches with
  | here => exact start
  | @again state' t last u _ ran ih =>
    have after := kept state' t ih
    rwa [ran] at after

/-- and where it ends. -/
theorem Finishes.preserves (kept : ∀ state s, good s → good ((round state).run s).2) {state : β} {s t : σ}
    {value : α} (finishes : Finishes round state s value t) (start : good s) : good t := by
  induction finishes with
  | @done state s value t ran =>
    have after := kept state s start
    rwa [ran] at after
  | @again state s state' t value u ran _ ih =>
    have after := kept state s start
    rw [ran] at after
    exact ih after

/-- A counted loop whose first round is this one. -/
def Counts (loop : Nat → β → Scan α) (round : β → Scan (Round β α)) (s : σ) : Prop :=
  ∀ fuel state, (loop (fuel + 1) state).run s =
    match (round state).run s with
    | (.again state', t) => (loop fuel state').run t
    | (.done value, t) => (value, t)

/-- A loop whose counter is never used up, since every round but the last leaves less than there was. Where
nothing is left the counter may be zero, if stopping there is what the last round would do. -/
theorem finishes_of_idle (counts : ∀ s, good s → Counts loop round s)
    (on : ∀ state s state' t, good s → (round state).run s = (.again state', t) →
      good t ∧ left t < left s)
    (idle : ∀ state s, good s → left s = 0 →
      (round state).run s = (.done ((loop 0 state).run s).1, ((loop 0 state).run s).2))
    (fuel : Nat) (state : β) (s : σ) (start : good s) (enough : left s ≤ fuel) :
    Finishes round state s ((loop fuel state).run s).1 ((loop fuel state).run s).2 := by
  induction fuel generalizing state s with
  | zero => exact .done (idle state s start (Nat.le_zero.mp enough))
  | succ fuel ih =>
    rw [counts s start]
    cases ran : (round state).run s with
    | mk result t =>
      cases result with
      | done value => exact .done ran
      | again state' =>
        obtain ⟨stays, less⟩ := on state s state' t start ran
        exact .again ran (ih state' t stays (Nat.le_of_lt_succ (Nat.lt_of_lt_of_le less enough)))

/-- The same with a counter that starts above what is left. -/
theorem finishes_of_lt (counts : ∀ s, good s → Counts loop round s)
    (on : ∀ state s state' t, good s → (round state).run s = (.again state', t) →
      good t ∧ left t < left s)
    (fuel : Nat) (state : β) (s : σ) (start : good s) (enough : left s < fuel) :
    Finishes round state s ((loop fuel state).run s).1 ((loop fuel state).run s).2 := by
  obtain ⟨fuel, rfl⟩ := Nat.exists_eq_succ_of_ne_zero (Nat.ne_of_gt (Nat.zero_lt_of_lt enough))
  have sooner (s : σ) (start : good s) : Counts (fun fuel => loop (fuel + 1)) round s :=
    fun fuel => counts s start (fuel + 1)
  refine finishes_of_idle sooner on ?_ fuel state s start (Nat.le_of_lt_succ enough)
  intro state s start empty
  rw [counts s start]
  cases ran : (round state).run s with
  | mk result t =>
    cases result with
    | done value => rfl
    | again state' =>
      have less := (on state s state' t start ran).2
      omega

end Finishes
end PdfObjects.Scan
