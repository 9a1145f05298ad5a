import Easel.Proofs.Session.Batches
import Easel.Proofs.Session.Operations

/-! What is left of a session when something has been run, also where it failed half-way, and the
states of a run, with the one that a fault leaves as the last of them. -/

namespace Easel.Session

/-! ### Sessions after an action -/

/-- Whether it fails or not, the action leaves such a session. -/
def Leaves {α : Type} (good : Session → Prop) (action : Action α) (session : Session) : Prop :=
  good (left (action session))

namespace Leaves

variable {α β : Type} {good : Session → Prop} {session : Session}

theorem bind {action : Action α} {next : α → Action β} (first : Leaves good action session)
    (second : ∀ a after, good after → Leaves good (next a) after) :
    Leaves good (action >>= next) session := by
  unfold Leaves at first ⊢
  rw [bind_apply]
  cases result : action session with
  | error fault stopped =>
      rw [result] at first
      exact first
  | ok a after =>
      rw [result] at first
      exact second a after first

theorem change {edit : Variables → Except Error Variables} (holds : good session)
    (edits : Gives (fun vars => good { session with vars }) (edit session.vars)) :
    Leaves good (Session.change edit) session := by
  unfold Leaves Session.change
  cases edited : edit session.vars with
  | error fault => exact holds
  | ok vars => exact edits vars edited

theorem forM {each : α → Action Unit} (list : List α) (holds : good session)
    (keeps : ∀ a ∈ list, ∀ session, good session → Leaves good (each a) session) :
    Leaves good (list.forM each) session := by
  induction list generalizing session with
  | nil => exact holds
  | cons head tail ih =>
      refine bind (keeps head List.mem_cons_self session holds) fun _ after held => ?_
      exact ih held fun a member => keeps a (List.mem_cons_of_mem head member)

theorem execute (holds : good session)
    (next : ∀ before after, good before → Next before after → good after)
    (crashes : ∀ before fault after, good before → Crashes before fault after → good after)
    (n : Nat) : Leaves good (execute n) session := by
  unfold Leaves
  induction n generalizing session with
  | zero => exact holds
  | succ n ih =>
      rcases halted_or_next_or_crashes session with halted | ⟨after, ran⟩ | ⟨fault, after, failed⟩
      · rw [execute_halted halted]
        exact holds
      · rw [execute_next ran]
        exact ih (next session after holds ran)
      · rw [execute_crashes failed]
        exact crashes session fault after holds failed

theorem run (holds : good session)
    (executes : ∀ before, good before → Leaves good (Session.execute batchSize) before)
    (batches : Nat) : Leaves good (run batches) session := by
  induction batches generalizing session with
  | zero => exact holds
  | succ batches ih =>
      refine bind (executes session holds) fun event after held => ?_
      cases event with
      | running => exact ih held
      | stopped => exact held

end Leaves

/-! ### The states of a run -/

/-- The state after so many statements, or else the one that a fault before has left. -/
def stateAfter (session : Session) (n : Nat) : Session := left (execute n session)

variable {session after : Session}

/-- One statement more changes nothing where the run has ended. Otherwise the run has come here
without a fault, and the statement runs or fails. -/
theorem stateAfter_succ (session : Session) (n : Nat) :
    session.stateAfter (n + 1) = session.stateAfter n ∨
      (∃ k, Steps k session (session.stateAfter n)) ∧
        (Next (session.stateAfter n) (session.stateAfter (n + 1)) ∨
          ∃ fault, Crashes (session.stateAfter n) fault (session.stateAfter (n + 1))) := by
  unfold stateAfter
  cases ran : execute n session with
  | error fault stopped =>
      left
      rw [execute_add_error ran 1]
  | ok event middle =>
      obtain ⟨k, -, steps, -⟩ := steps_of_execute ran
      rw [execute_add_ok ran 1]
      rcases halted_or_next_or_crashes middle with halted | ⟨after, next⟩ | ⟨fault, after, crashes⟩
      · left
        rw [execute_halted halted]
        rfl
      · right
        rw [execute_next next 0]
        exact ⟨⟨k, steps⟩, .inl next⟩
      · right
        rw [execute_crashes crashes 0]
        exact ⟨⟨k, steps⟩, .inr ⟨fault, crashes⟩⟩

def faultWithin? (session : Session) (n : Nat) : Option Error :=
  match execute n session with
  | .ok _ _ => none
  | .error fault _ => some fault

theorem execute_of_faultWithin {n : Nat} {fault : Error}
    (failed : session.faultWithin? n = some fault) :
    execute n session = .error fault (session.stateAfter n) := by
  unfold faultWithin? at failed
  unfold stateAfter
  cases ran : execute n session with
  | ok event after =>
      rw [ran] at failed
      cases failed
  | error cause after =>
      rw [ran] at failed
      cases failed
      rfl

end Easel.Session
