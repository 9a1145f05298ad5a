import Easel.Error

/-! What the answers and the faults of a computation can be, step by step. -/

namespace Easel

def Gives {α : Type} (good : α → Prop) (first : Except Error α) : Prop :=
  ∀ a, first = .ok a → good a

def Faults {α : Type} (bad : Error → Prop) (first : Except Error α) : Prop :=
  ∀ fault, first = .error fault → bad fault

variable {α β : Type} {good : α → Prop} {bad : Error → Prop}

theorem bind_eq_ok {first : Except Error β} {next : β → Except Error α} {a : α} :
    (first >>= next) = .ok a ↔ ∃ b, first = .ok b ∧ next b = .ok a := by
  cases first <;> simp [bind, Except.bind]

theorem bind_eq_error {first : Except Error β} {next : β → Except Error α} {fault : Error} :
    (first >>= next) = .error fault ↔
      first = .error fault ∨ ∃ b, first = .ok b ∧ next b = .error fault := by
  cases first <;> simp [bind, Except.bind]

theorem foldlM_eq_error {next : α → β → Except Error α} {list : List β} {a : α} {fault : Error}
    (failed : list.foldlM next a = .error fault) :
    ∃ front item back middle, list = front ++ item :: back ∧ front.foldlM next a = .ok middle ∧
      next middle item = .error fault := by
  induction list generalizing a with
  | nil => cases failed
  | cons head tail ih =>
      rw [List.foldlM_cons] at failed
      obtain first | ⟨b, first, failed⟩ := bind_eq_error.mp failed
      · exact ⟨[], head, tail, a, rfl, rfl, first⟩
      · obtain ⟨front, item, back, middle, rfl, passed, last⟩ := ih failed
        refine ⟨head :: front, item, back, middle, rfl, ?_, last⟩
        rw [List.foldlM_cons]
        exact bind_eq_ok.mpr ⟨b, first, passed⟩

namespace Gives

theorem ok {a : α} (holds : good a) : Gives good (.ok a) := by
  intro b same
  cases same
  exact holds

theorem pure {a : α} (holds : good a) : Gives good (Pure.pure a) := ok holds

theorem error {fault : Error} : Gives good (.error fault) := by
  intro a same
  cases same

theorem itself (first : Except Error α) : Gives (fun a => first = .ok a) first :=
  fun _ found => found

theorem bind {first : Except Error β} {next : β → Except Error α}
    (after : ∀ b, Gives good (next b)) : Gives good (first >>= next) := by
  cases first with
  | ok b => exact after b
  | error fault => exact error

theorem andThen {fine : β → Prop} {first : Except Error β} {next : β → Except Error α}
    (before : Gives fine first) (after : ∀ b, fine b → Gives good (next b)) :
    Gives good (first >>= next) := by
  cases first with
  | ok b => exact after b (before b rfl)
  | error fault => exact error

theorem mapM {each : β → Except Error α} (gives : ∀ b, Gives good (each b)) (list : List β) :
    Gives (fun answers => ∀ a ∈ answers, good a) (list.mapM each) := by
  induction list with
  | nil => exact pure nofun
  | cons head tail ih =>
      rw [List.mapM_cons]
      refine andThen (gives head) fun a first => andThen ih fun answers rest => pure ?_
      exact List.forall_mem_cons.mpr ⟨first, rest⟩

theorem foldlM {next : α → β → Except Error α} (keeps : ∀ a b, good a → Gives good (next a b))
    (list : List β) (a : α) (holds : good a) : Gives good (list.foldlM next a) := by
  induction list generalizing a with
  | nil => exact ok holds
  | cons head tail ih =>
      rw [List.foldlM_cons]
      exact andThen (keeps a head holds) ih

end Gives

namespace Faults

theorem ok {a : α} : Faults bad (.ok a) := by
  intro fault same
  cases same

theorem pure {a : α} : Faults bad (Pure.pure a : Except Error α) := ok

theorem error {fault : Error} (holds : bad fault) : Faults bad (.error fault : Except Error α) := by
  intro other same
  cases same
  exact holds

theorem throw {fault : Error} (holds : bad fault) :
    Faults bad (MonadExcept.throw fault : Except Error α) := error holds

theorem mono {worse : Error → Prop} {first : Except Error α} (faults : Faults bad first)
    (weaker : ∀ fault, bad fault → worse fault) : Faults worse first :=
  fun fault failed => weaker fault (faults fault failed)

theorem bind {first : Except Error β} {next : β → Except Error α} (before : Faults bad first)
    (after : ∀ b, first = .ok b → Faults bad (next b)) : Faults bad (first >>= next) := by
  cases first with
  | ok b => exact after b rfl
  | error fault => exact error (before fault rfl)

theorem map {first : Except Error β} {f : β → α} (before : Faults bad first) :
    Faults bad (f <$> first) := by
  cases first with
  | ok b => exact ok
  | error fault => exact error (before fault rfl)

theorem mapM {each : β → Except Error α} (faults : ∀ b, Faults bad (each b)) (list : List β) :
    Faults bad (list.mapM each) := by
  induction list with
  | nil => exact pure
  | cons head tail ih =>
      rw [List.mapM_cons]
      exact bind (faults head) fun _ _ => bind ih fun _ _ => pure

end Faults

structure Settles (good : α → Prop) (bad : Error → Prop) (first : Except Error α) : Prop where
  gives : Gives good first
  faults : Faults bad first

namespace Settles

theorem ok {a : α} (holds : good a) : Settles good bad (.ok a) := ⟨.ok holds, .ok⟩

theorem pure {a : α} (holds : good a) : Settles good bad (Pure.pure a) := ok holds

theorem error {fault : Error} (holds : bad fault) : Settles good bad (.error fault) :=
  ⟨.error, .error holds⟩

theorem throw {fault : Error} (holds : bad fault) :
    Settles good bad (MonadExcept.throw fault) := error holds

theorem bind {fine : β → Prop} {first : Except Error β} {next : β → Except Error α}
    (before : Settles fine bad first) (after : ∀ b, fine b → Settles good bad (next b)) :
    Settles good bad (first >>= next) where
  gives := before.gives.andThen fun b holds => (after b holds).gives
  faults := before.faults.bind fun b found => (after b (before.gives b found)).faults

theorem pure_bind {b : β} {next : β → Except Error α} (after : Settles good bad (next b)) :
    Settles good bad (Pure.pure b >>= next) := after

theorem bind_throw {fault : Error} {next : β → Except Error α} (holds : bad fault) :
    Settles good bad (MonadExcept.throw fault >>= next) := error holds

theorem foldlM {next : α → β → Except Error α}
    (keeps : ∀ a b, good a → Settles good bad (next a b)) (list : List β) (a : α)
    (holds : good a) : Settles good bad (list.foldlM next a) := by
  induction list generalizing a with
  | nil => exact ok holds
  | cons head tail ih =>
      rw [List.foldlM_cons]
      exact bind (keeps a head holds) ih

end Settles

/-! ### One change after another -/

/-- Makes all changes, unless one of them fails. -/
def makeAll (changes : List (α → Except Error α)) (a : α) : Except Error α :=
  changes.foldlM (fun a change => change a) a

/-- One of the changes fails when those before it are made, and they stay made. -/
inductive Breaks : List (α → Except Error α) → α → Error → α → Prop
  | here {change : α → Except Error α} {rest : List (α → Except Error α)} {a : α} {fault : Error}
      (failed : change a = .error fault) : Breaks (change :: rest) a fault a
  | later {change : α → Except Error α} {rest : List (α → Except Error α)} {a middle after : α}
      {fault : Error} (made : change a = .ok middle) (breaks : Breaks rest middle fault after) :
      Breaks (change :: rest) a fault after

section Changes

variable {change : α → Except Error α} {changes early late : List (α → Except Error α)}
  {a after : α} {fault : Error}

theorem makeAll_cons : makeAll (change :: changes) a = change a >>= makeAll changes :=
  List.foldlM_cons ..

theorem makeAll_singleton : makeAll [change] a = change a := by
  rw [makeAll_cons]
  cases change a <;> rfl

theorem makeAll_append : makeAll (early ++ late) a = makeAll early a >>= makeAll late :=
  List.foldlM_append ..

theorem makeAll_map (edit : β → α → Except Error α) (list : List β) :
    makeAll (list.map edit) a = list.foldlM (fun a b => edit b a) a := by
  rw [makeAll, List.foldlM_map]

theorem Gives.makeAll (keeps : ∀ change ∈ changes, ∀ b, good b → Gives good (change b))
    (holds : good a) : Gives good (makeAll changes a) := by
  induction changes generalizing a with
  | nil => exact ok holds
  | cons change changes ih =>
      rw [makeAll_cons]
      rw [List.forall_mem_cons] at keeps
      exact andThen (keeps.1 a holds) fun b held => ih keeps.2 held

theorem exists_breaks (failed : makeAll changes a = .error fault) :
    ∃ after, Breaks changes a fault after := by
  induction changes generalizing a with
  | nil => cases failed
  | cons change changes ih =>
      rw [makeAll_cons] at failed
      obtain first | ⟨middle, made, failed⟩ := bind_eq_error.mp failed
      · exact ⟨a, .here first⟩
      · obtain ⟨after, breaks⟩ := ih failed
        exact ⟨after, .later made breaks⟩

namespace Breaks

theorem singleton (breaks : Breaks [change] a fault after) :
    change a = .error fault ∧ after = a := by
  obtain failed | ⟨-, ⟨⟩⟩ := breaks
  exact ⟨failed, rfl⟩

theorem append (breaks : Breaks (early ++ late) a fault after) :
    Breaks early a fault after ∨ ∃ middle, makeAll early a = .ok middle ∧
      Breaks late middle fault after := by
  induction early generalizing a with
  | nil => exact .inr ⟨a, rfl, breaks⟩
  | cons change early ih =>
      cases breaks with
      | here failed => exact .inl (.here failed)
      | later made breaks =>
          refine (ih breaks).imp (.later made) fun ⟨middle, rest, breaks⟩ => ⟨middle, ?_, breaks⟩
          rw [makeAll_cons]
          exact bind_eq_ok.mpr ⟨_, made, rest⟩

/-- The last of the changes is never made, so that only the others have to keep what holds. -/
theorem keeps (breaks : Breaks changes a fault after)
    (keeps : ∀ change ∈ changes.dropLast, ∀ b, good b → Gives good (change b)) (holds : good a) :
    good after := by
  induction breaks with
  | here failed => exact holds
  | @later change rest a middle after fault made breaks ih =>
      have more : rest ≠ [] := by
        rintro rfl
        cases breaks
      rw [List.dropLast_cons_of_ne_nil more, List.forall_mem_cons] at keeps
      exact ih keeps.2 (keeps.1 a holds middle made)

theorem holds (breaks : Breaks changes a fault after)
    (keeps : ∀ change ∈ changes, ∀ b, good b → Gives good (change b)) (holds : good a) :
    good after :=
  breaks.keeps (fun change member => keeps change (List.dropLast_subset _ member)) holds

theorem faults (breaks : Breaks changes a fault after)
    (faults : ∀ change ∈ changes, ∀ b, Faults bad (change b)) : bad fault := by
  induction breaks with
  | here failed => exact faults _ List.mem_cons_self _ _ failed
  | later made breaks ih => exact ih fun change member => faults change (.tail _ member)

end Breaks

end Changes

end Easel
