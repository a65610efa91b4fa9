import PdfObjects.Proofs.Rewinding

/-! Reading strictly and loosely. The two ways of reading part only where strict reading fails: at an array
without its bracket, at an empty key and at a value that is none. So whatever is read strictly is read
loosely too, by the same steps, whichever bytes have arrived; and nesting that is too deep for strict reading
is too deep for loose reading. -/
namespace PdfObjects

namespace Parse

variable {σ α β : Type} [Readable σ] {resolve : Resolver} {s : σ}

/-- A program does the same as another, or it fails, but not because nesting is too deep. -/
def Refines (strict loose : Parse α) (s : σ) : Prop :=
  strict.run.run s = loose.run.run s ∨
    ∃ e t, strict.run.run s = (.error e, t) ∧ e.isNestingLimit = false

theorem refines_refl (program : Parse α) (s : σ) : Refines program program s := .inl rfl

/-- The one that fails need not be compared. -/
theorem refines_fail {strict loose : Parse α} {e : Error} {t : σ} (failed : strict.run.run s = (.error e, t))
    (flat : e.isNestingLimit = false) : Refines strict loose s := .inr ⟨e, t, failed, flat⟩

/-- Whatever the one comes to, the other comes to, apart from errors that have nothing to do with nesting. -/
theorem Refines.settled {strict loose : Parse α} {result : Except Error α} {t : σ}
    (refines : Refines strict loose s) (ran : strict.run.run s = (result, t))
    (settled : ∀ e, result = .error e → e.isNestingLimit = true) : loose.run.run s = (result, t) := by
  rcases refines with same | ⟨e, u, failed, flat⟩
  · exact same.symm.trans ran
  · cases ran.symm.trans failed
    cases flat.symm.trans (settled e rfl)

theorem Refines.bind {strict loose : Parse α} {next other : α → Parse β} (first : Refines strict loose s)
    (later : ∀ value t, strict.run.run s = (.ok value, t) → Refines (next value) (other value) t) :
    Refines (strict >>= next) (loose >>= other) s := by
  rcases first with same | ⟨e, t, failed, flat⟩
  · cases ran : strict.run.run s with
    | mk result t =>
      rw [ran] at same
      cases result with
      | ok value =>
        rw [Refines, run_bind_ok ran, run_bind_ok same.symm]
        exact later value t ran
      | error e =>
        rw [Refines, run_bind_error ran, run_bind_error same.symm]
        exact .inl rfl
  · exact refines_fail (run_bind_error failed) flat

/-- A step that both take. -/
theorem refines_after {program : Parse α} {next other : α → Parse β}
    (later : ∀ value (t : σ), Refines (next value) (other value) t) :
    Refines (program >>= next) (program >>= other) s :=
  (refines_refl program s).bind fun value t _ => later value t

/-- Whatever is done with the outcome in both, if an error that has nothing to do with nesting stays one. -/
theorem Refines.outcome {strict loose : Parse α} {next : Except Error α → Parse β}
    (refines : Refines strict loose s)
    (fails : ∀ e (t : σ), e.isNestingLimit = false →
      ∃ reason u, (next (.error e)).run.run t = (.error reason, u) ∧ reason.isNestingLimit = false) :
    Refines (outcome strict >>= next) (outcome loose >>= next) s := by
  rw [Refines, run_bind_outcome, run_bind_outcome]
  rcases refines with same | ⟨e, t, failed, flat⟩
  · rw [same]
    exact .inl rfl
  · rw [failed]
    exact .inr (fails e t flat)

variable {element value : Parse Object}

theorem array_refines (element : Parse Object) (s : σ) :
    Refines (array element .strict) (array element .loose) s := by
  refine refines_after fun left _ => refines_after fun objects _ => refines_after fun last t => ?_
  by_cases closed : last.head? = some Byte.closeBracket
  · rw [if_pos (.inr closed), if_pos (.inl rfl)]
    exact refines_refl _ t
  · rw [if_neg (by simp [closed])]
    exact refines_fail rfl rfl

theorem entries_refines (value : Parse Object) (fuel : Nat) (dict : Dictionary) (s : σ) :
    Refines (entries value .strict fuel dict) (entries value .loose fuel dict) s := by
  induction fuel generalizing dict s with
  | zero => exact refines_refl _ s
  | succ fuel ih =>
    refine refines_after fun word _ => refines_after fun here t => ?_
    dsimp only
    by_cases empty : word.isEmpty = true
    · rw [if_pos empty, if_pos empty]
      exact refines_refl _ t
    rw [if_neg empty, if_neg empty]
    cases KeyWord.ofWord word.bytes with
    | close => exact refines_refl _ t
    | endObject => exact refines_refl _ t
    | other => exact ih dict t
    | key name =>
      dsimp only
      by_cases unnamed : name.isEmpty = true
      · rw [if_pos (by simp [unnamed])]
        exact refines_fail rfl rfl
      rw [if_neg (by simp [unnamed]), if_neg (by simp [unnamed])]
      refine refines_after fun result u => ?_
      cases result with
      | ok object => exact ih _ u
      | error e =>
        dsimp only
        by_cases deep : e.isNestingLimit = true
        · rw [if_pos deep, if_pos deep]
          exact refines_refl _ u
        rw [if_neg deep, if_neg deep, if_neg nofun]
        exact refines_fail rfl (Bool.eq_false_iff.mpr deep)

theorem dictionary_refines (value : Parse Object) (s : σ) :
    Refines (dictionary value resolve .strict) (dictionary value resolve .loose) s :=
  refines_after fun _ _ => (entries_refines value _ _ _).bind fun _ t _ => refines_refl _ t

theorem rewinding_refines {strict loose : Parse Object} (start : Nat) (refines : Refines strict loose s) :
    Refines (rewinding start strict) (rewinding start loose) s := by
  refine refines.outcome fun e t flat => ⟨e, t, ?_, flat⟩
  dsimp only
  rw [if_neg (Bool.eq_false_iff.mp flat)]
  rfl

/-- Only the outermost array or dictionary is read in another way. -/
theorem announced_refines (inner : Parse Object) (s : σ) :
    Refines (announced resolve inner .strict) (announced resolve inner .loose) s := by
  refine refines_after fun start _ => refines_after fun word t => ?_
  by_cases empty : word.isEmpty = true
  · rw [if_pos empty, if_pos empty]
    exact refines_refl _ t
  by_cases numeric : word.numeric = true
  · rw [if_neg empty, if_neg empty, if_pos numeric, if_pos numeric]
    exact refines_refl _ t
  rw [if_neg empty, if_neg empty, if_neg numeric, if_neg numeric]
  cases Lead.ofWord word.bytes with
  | array => exact rewinding_refines start (array_refines _ t)
  | dictionary => exact rewinding_refines start (dictionary_refines _ t)
  | whole object | literalString | hexString | dictionaryEnd | nothing => exact refines_refl _ t

/-- A level is taken by both or by neither. -/
theorem guarded_refines {strict loose : Parse α} (inside : ∀ t : σ, Refines strict loose t) (s : σ) :
    Refines (guarded strict) (guarded loose) s := by
  cases entered : Readable.enter s with
  | none => exact .inl ((Scan.run_refused entered).trans (Scan.run_refused entered).symm)
  | some t =>
    have ran (program : Parse α) : (guarded program).run.run s =
        ((program.run.run t).1, Readable.leave (program.run.run t).2) := Scan.run_entered entered
    rcases inside t with same | ⟨e, u, failed, flat⟩
    · rw [Refines, ran, ran, same]
      exact .inl rfl
    · have out : (guarded strict).run.run s = (.error e, Readable.leave u) := by rw [ran, failed]
      exact refines_fail out flat

theorem bodyFrom_refines (fuel : Nat) (s : σ) :
    Refines (bodyFrom resolve fuel .strict) (bodyFrom resolve fuel .loose) s := by
  cases fuel with
  | zero => exact refines_refl _ s
  | succ fuel => exact guarded_refines (announced_refines _) s

theorem anyObject_refines (s : σ) : Refines (anyObject resolve .strict) (anyObject resolve .loose) s :=
  refines_after fun _ t => bodyFrom_refines _ t

theorem headerAndObject_refines (s : σ) :
    Refines (headerAndObject resolve .strict) (headerAndObject resolve .loose) s := by
  rw [Refines, headerAndObject_eq, headerAndObject_eq]
  exact refines_after fun _ t => (anyObject_refines t).bind fun object u _ => refines_refl _ u

theorem whole_refines {strict loose : Parse α} (refines : Refines strict loose (Readable.openSession s)) :
    Refines (whole strict) (whole loose) s := by
  have ran (body : Parse α) : (Scan.session body.run).run s =
      (((body.run.run (Readable.openSession s)).1,
        (Readable.closeSession s (body.run.run (Readable.openSession s)).2).1),
        (Readable.closeSession s (body.run.run (Readable.openSession s)).2).2) := rfl
  rw [Refines, whole, whole, run_bind_lift, run_bind_lift, ran, ran]
  rcases refines with same | ⟨e, t, failed, flat⟩
  · rw [same]
    exact .inl rfl
  · rw [failed]
    refine .inr ?_
    dsimp only
    by_cases problems : (Readable.closeSession s t).1 = true
    · rw [if_pos problems]
      exact ⟨_, _, rfl, rfl⟩
    · rw [if_neg problems]
      exact ⟨_, _, rfl, flat⟩

/-- Strict reading refines loose reading. Whatever of a document has arrived, and from wherever a reader
starts, what it reads strictly it reads loosely as well, and ends in the same state, the cursor included; and
if nesting is too deep for the one, it is for the other, with the same state again. -/
theorem indirect_strict (resolve : Resolver) (r : Reader) :
    (∀ i last, (indirect resolve .strict).run.run r = (.ok i, last) →
      (indirect resolve .loose).run.run r = (.ok i, last)) ∧
    (∀ limit last, (indirect resolve .strict).run.run r = (.error (.nestingLimit limit), last) →
      (indirect resolve .loose).run.run r = (.error (.nestingLimit limit), last)) := by
  have refines : Refines (indirect resolve .strict) (indirect resolve .loose) r :=
    whole_refines (headerAndObject_refines _)
  constructor
  · intro i last ran
    exact refines.settled ran nofun
  · intro limit last ran
    refine refines.settled ran fun e same => ?_
    cases same
    rfl

/-- An array that is closed, and one that is not. -/
def closedArrayText : Bytes := Bytes.ofAscii "1 0 obj[[2]]".toList

def openArrayText : Bytes := Bytes.ofAscii "1 0 obj[[2]".toList

/-- The closed array is read in both ways, the other one only loosely, and with a single level of nesting
neither way is open. -/
theorem indirect_strict_array :
    let read text mode depth := (indirect (fun _ => none) mode).run.run (Reader.ofText text { maxDepth := depth })
    (read closedArrayText .strict 3).1 = .ok ⟨1, 0, .array [.array [.integer 2]]⟩ ∧
      (read closedArrayText .loose 3).1 = .ok ⟨1, 0, .array [.array [.integer 2]]⟩ ∧
      (read closedArrayText .loose 3).2.position = 12 ∧
      (read openArrayText .strict 3).1 = .error (.badSyntax 11 .arrayNotTerminated) ∧
      (read openArrayText .loose 3).1 = .ok ⟨1, 0, .array [.array [.integer 2]]⟩ ∧
      (read closedArrayText .loose 1).1 = .error (.nestingLimit 1) := by
  intro read
  have strict : (read closedArrayText .strict 3).1 = .ok ⟨1, 0, .array [.array [.integer 2]]⟩ := rfl
  have deep : (read closedArrayText .strict 1).1 = .error (.nestingLimit 1) := rfl
  have loose :=
    (indirect_strict _ (Reader.ofText closedArrayText { maxDepth := 3 })).1 _ _ (Prod.ext strict rfl)
  have looseDeep :=
    (indirect_strict _ (Reader.ofText closedArrayText { maxDepth := 1 })).2 _ _ (Prod.ext deep rfl)
  have place := (congrArg (fun result => result.2.position) loose).trans rfl
  exact ⟨strict, congrArg Prod.fst loose, place, rfl, rfl, congrArg Prod.fst looseDeep⟩

end Parse
end PdfObjects
