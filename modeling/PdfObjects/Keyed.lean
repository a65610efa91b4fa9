/-! Collections of keyed values, kept in ascending order of their keys. The order makes the
representation unique: two collections hold the same entries exactly when they are equal, and they are
printed in the order in which they are stored. -/
namespace PdfObjects.Keyed

variable {κ α : Type}

/-- The value of a key. -/
def get? [DecidableEq κ] (key : κ) : List (κ × α) → Option α
  | [] => none
  | (k, v) :: rest => if k = key then some v else get? key rest

/-- Puts a value under a key, in the place of the value it had. -/
def insert [LT κ] [DecidableLT κ] (key : κ) (value : α) : List (κ × α) → List (κ × α)
  | [] => [(key, value)]
  | (k, v) :: rest =>
    if key < k then (key, value) :: (k, v) :: rest
    else if k < key then (k, v) :: insert key value rest
    else (key, value) :: rest

/-- Each key is smaller than the next. -/
def Ordered [LT κ] (entries : List (κ × α)) : Prop := entries.Pairwise fun a b => a.1 < b.1

/-- A key above all others goes to the end. -/
theorem insert_last [LT κ] [DecidableLT κ] [Std.Asymm (fun a b : κ => a < b)] {key : κ} {value : α}
    {entries : List (κ × α)} (last : ∀ entry ∈ entries, entry.1 < key) :
    insert key value entries = entries ++ [(key, value)] := by
  induction entries with
  | nil => rfl
  | cons first rest ih =>
    have below := last first List.mem_cons_self
    have above : ¬ key < first.1 := Std.Asymm.asymm (r := fun a b : κ => a < b) _ _ below
    have later := ih fun entry member => last entry (List.mem_cons_of_mem first member)
    simp [insert, above, below, later]

/-- What is put in is the only thing new. -/
theorem mem_insert [LT κ] [DecidableLT κ] {key : κ} {value : α} {entries : List (κ × α)} {entry : κ × α}
    (member : entry ∈ insert key value entries) : entry = (key, value) ∨ entry ∈ entries := by
  fun_induction insert key value entries with
  | case1 => exact .inl (List.mem_singleton.mp member)
  | case2 k v rest below => exact List.mem_cons.mp member
  | case3 k v rest _ above ih =>
    rcases List.mem_cons.mp member with first | later
    · exact .inr (first ▸ List.mem_cons_self)
    · rcases ih later with new | old
      · exact .inl new
      · exact .inr (List.mem_cons_of_mem _ old)
  | case4 k v rest =>
    rcases List.mem_cons.mp member with new | old
    · exact .inl new
    · exact .inr (List.mem_cons_of_mem _ old)

/-- What is put in is found under its key, and under the other keys what was found there before. -/
theorem get?_insert [DecidableEq κ] [LT κ] [DecidableLT κ] [Std.Irrefl (fun a b : κ => a < b)]
    [Std.Trichotomous (fun a b : κ => a < b)] {key : κ} {value : α} {entries : List (κ × α)} (other : κ) :
    get? other (insert key value entries) = if key = other then some value else get? other entries := by
  fun_induction insert key value entries with
  | case1 => rfl
  | case2 k v rest below => rfl
  | case3 k v rest _ above ih =>
    have apart : key ≠ k := by
      rintro rfl
      exact Std.Irrefl.irrefl (r := fun a b : κ => a < b) key above
    rw [get?, get?, ih]
    by_cases first : k = other
    · rw [if_pos first, if_pos first, if_neg (first ▸ apart)]
    · rw [if_neg first, if_neg first]
  | case4 k v rest below behind =>
    have same : key = k := Std.Trichotomous.trichotomous (r := fun a b : κ => a < b) key k below behind
    subst same
    rw [get?, get?]
    split <;> rfl

/-- Entries stay in order, and so there is at most one of each key. -/
theorem insert_ordered [LT κ] [DecidableLT κ]
    [Trans (fun a b : κ => a < b) (fun a b : κ => a < b) (fun a b : κ => a < b)]
    [Std.Trichotomous (fun a b : κ => a < b)] {key : κ} {value : α} {entries : List (κ × α)}
    (ordered : Ordered entries) : Ordered (insert key value entries) := by
  fun_induction insert key value entries with
  | case1 => exact List.pairwise_singleton _ _
  | case2 k v rest below =>
    obtain ⟨above, _⟩ := List.pairwise_cons.mp ordered
    refine List.pairwise_cons.mpr ⟨fun entry member => ?_, ordered⟩
    rcases List.mem_cons.mp member with rfl | later
    · exact below
    · exact Trans.trans below (above entry later)
  | case3 k v rest _ behind ih =>
    obtain ⟨above, ordered⟩ := List.pairwise_cons.mp ordered
    refine List.pairwise_cons.mpr ⟨fun entry member => ?_, ih ordered⟩
    rcases mem_insert member with rfl | old
    · exact behind
    · exact above entry old
  | case4 k v rest below behind =>
    -- Neither key is the smaller one, so the value takes the place of another one.
    have same : key = k := Std.Trichotomous.trichotomous (r := fun a b : κ => a < b) key k below behind
    subst same
    exact List.pairwise_cons.mpr (List.pairwise_cons.mp ordered)

end PdfObjects.Keyed
