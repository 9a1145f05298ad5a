import Easel.Proofs.Session.Moves

/-! Runs as sequences of steps. -/

namespace Easel.Session

variable {session after : Session} {statement : Statement}

theorem step_eq_ok {command : Command} :
    step command session = .ok () after ↔
      perform session.pc command.statement session.past = .ok () after := by
  unfold step past
  cases perform session.pc command.statement { session with pc := session.pc + 1 } <;> simp

/-- A fault gets the line of the statement, and the session is put behind the last one. -/
theorem step_eq_error {command : Command} {fault : Error} :
    step command session = .error fault after ↔
      ∃ cause stopped, perform session.pc command.statement session.past = .error cause stopped ∧
        cause.inLine command.line = fault ∧ { stopped with pc := stopped.program.size } = after := by
  unfold step past
  cases perform session.pc command.statement { session with pc := session.pc + 1 } <;> simp

def Next (session after : Session) : Prop :=
  ∃ command, session.program.commands[session.pc]? = some command ∧
    step command session = .ok () after

def Crashes (session : Session) (fault : Error) (after : Session) : Prop :=
  ∃ command, session.program.commands[session.pc]? = some command ∧
    step command session = .error fault after

theorem Next.moves (next : Next session after) :
    ∃ statement, session.program.statement? session.pc = some statement ∧
      Moves session statement after := by
  obtain ⟨command, found, ran⟩ := next
  refine ⟨command.statement, ?_, perform_eq_ok.mp (step_eq_ok.mp ran)⟩
  rw [Program.statement?, found]
  rfl

theorem Moves.next {line : Nat} (moves : Moves session statement after)
    (found : session.program.commands[session.pc]? = some ⟨line, statement⟩) : Next session after :=
  ⟨_, found, step_eq_ok.mpr (perform_of_moves moves)⟩

theorem Crashes.fails {fault : Error} (crashes : Crashes session fault after) :
    ∃ command cause stopped, session.program.commands[session.pc]? = some command ∧
      Fails session command.statement cause stopped ∧ cause.inLine command.line = fault ∧
      { stopped with pc := stopped.program.size } = after := by
  obtain ⟨command, found, ran⟩ := crashes
  obtain ⟨cause, stopped, failed, blamed, same⟩ := step_eq_error.mp ran
  exact ⟨command, cause, stopped, found, perform_eq_error.mp failed, blamed, same⟩

theorem Fails.crashes {line : Nat} {fault : Error} (fails : Fails session statement fault after)
    (found : session.program.commands[session.pc]? = some ⟨line, statement⟩) :
    Crashes session (fault.inLine line) { after with pc := after.program.size } :=
  ⟨_, found, step_eq_error.mpr ⟨fault, after, perform_of_fails fails, rfl, rfl⟩⟩

theorem Moves.program_eq (moves : Moves session statement after) :
    after.program = session.program := by
  cases moves <;> rfl

/-- So many statements run without a fault. -/
inductive Steps : Nat → Session → Session → Prop
  | refl (session : Session) : Steps 0 session session
  | head {n : Nat} {session middle after : Session} (next : Next session middle)
      (rest : Steps n middle after) : Steps (n + 1) session after

namespace Steps

variable {middle : Session} {m n : Nat}

theorem one (next : Next session after) : Steps 1 session after := .head next (.refl after)

theorem trans (early : Steps m session middle) (late : Steps n middle after) :
    Steps (m + n) session after := by
  induction early with
  | refl => rwa [Nat.zero_add]
  | @head m session other middle next rest ih =>
      rw [Nat.add_right_comm]
      exact .head next (ih late)

theorem tail (steps : Steps n session middle) (next : Next middle after) :
    Steps (n + 1) session after := steps.trans (one next)

theorem keeps (steps : Steps n session after) (holds : Session → Prop) (first : holds session)
    (keeps : ∀ before after, holds before → Next before after → holds after) : holds after := by
  induction steps with
  | refl => exact first
  | head next rest ih => exact ih (keeps _ _ first next)

end Steps

theorem Next.unique {first second : Session} (left : Next session first)
    (right : Next session second) : first = second := by
  obtain ⟨command, found, ran⟩ := left
  obtain ⟨other, found', ran'⟩ := right
  rw [found] at found'
  cases found'
  rw [ran] at ran'
  cases ran'
  rfl

theorem Steps.unique {n : Nat} {first second : Session} (left : Steps n session first)
    (right : Steps n session second) : first = second := by
  induction left with
  | refl =>
      cases right
      rfl
  | head next rest ih =>
      cases right with
      | head next' rest' =>
          cases next.unique next'
          exact ih rest'

def Halted (session : Session) : Prop := session.program.size ≤ session.pc

theorem halted_iff : session.Halted ↔ session.program.commands[session.pc]? = none :=
  Array.getElem?_eq_none_iff.symm

theorem Next.not_halted (next : Next session after) : ¬ session.Halted := by
  obtain ⟨command, found, -⟩ := next
  intro halted
  rw [halted_iff.mp halted] at found
  cases found

theorem Crashes.not_halted {fault : Error} (crashes : Crashes session fault after) :
    ¬ session.Halted := by
  obtain ⟨command, found, -⟩ := crashes
  intro halted
  rw [halted_iff.mp halted] at found
  cases found

theorem execute_halted (halted : session.Halted) (n : Nat) :
    execute n session = .ok .stopped session := by
  cases n with
  | zero =>
      unfold execute
      rw [get_bind]
      rw [if_neg (Nat.not_lt.mpr halted)]
      rfl
  | succ n =>
      unfold execute
      rw [get_bind]
      rw [halted_iff.mp halted]
      rfl

theorem execute_zero (running : ¬ session.Halted) : execute 0 session = .ok .running session := by
  unfold execute
  rw [get_bind]
  rw [if_pos (Nat.not_le.mp running)]
  rfl

theorem execute_next (next : Next session after) (n : Nat) :
    execute (n + 1) session = execute n after := by
  obtain ⟨command, found, ran⟩ := next
  conv => lhs; unfold execute
  rw [get_bind]
  rw [found]
  dsimp only
  rw [bind_apply, ran]

theorem execute_crashes {fault : Error} (crashes : Crashes session fault after) (n : Nat) :
    execute (n + 1) session = .error fault after := by
  obtain ⟨command, found, ran⟩ := crashes
  unfold execute
  rw [get_bind]
  rw [found]
  dsimp only
  rw [bind_apply, ran]

theorem halted_or_next_or_crashes (session : Session) :
    session.Halted ∨ (∃ after, Next session after) ∨ ∃ fault after, Crashes session fault after := by
  cases found : session.program.commands[session.pc]? with
  | none => exact .inl (halted_iff.mpr found)
  | some command =>
      cases ran : step command session with
      | ok done after => exact .inr (.inl ⟨after, command, found, ran⟩)
      | error fault after => exact .inr (.inr ⟨fault, after, command, found, ran⟩)

theorem execute_steps {n : Nat} (steps : Steps n session after) (m : Nat) :
    execute (n + m) session = execute m after := by
  induction steps with
  | refl => rw [Nat.zero_add]
  | @head n session middle after next rest ih => rw [Nat.add_right_comm, execute_next next, ih]

/-- A run that does not fail is a sequence of steps, shorter than allowed only if it halts. -/
theorem steps_of_execute {n : Nat} {event : Event} (ran : execute n session = .ok event after) :
    ∃ k, k ≤ n ∧ Steps k session after ∧ (k < n ∨ event = .stopped → after.Halted) := by
  induction n generalizing session with
  | zero =>
      by_cases halted : session.Halted
      · rw [execute_halted halted] at ran
        cases ran
        exact ⟨0, Nat.le_refl 0, .refl _, fun _ => halted⟩
      · rw [execute_zero halted] at ran
        cases ran
        exact ⟨0, Nat.le_refl 0, .refl _, by simp⟩
  | succ n ih =>
      rcases halted_or_next_or_crashes session with halted | ⟨middle, next⟩ | ⟨fault, stopped, crashes⟩
      · rw [execute_halted halted] at ran
        cases ran
        exact ⟨0, Nat.zero_le _, .refl _, fun _ => halted⟩
      · rw [execute_next next] at ran
        obtain ⟨k, bound, steps, ends⟩ := ih ran
        refine ⟨k + 1, by omega, .head next steps, fun early => ends ?_⟩
        exact early.imp (fun fewer => by omega) id
      · rw [execute_crashes crashes] at ran
        cases ran

theorem stopped_iff_halted {n : Nat} {event : Event} (ran : execute n session = .ok event after) :
    event = .stopped ↔ after.Halted := by
  obtain ⟨k, bound, steps, ends⟩ := steps_of_execute ran
  refine ⟨fun stopped => ends (.inr stopped), fun halted => ?_⟩
  have rest := execute_steps steps (n - k)
  rw [Nat.add_sub_cancel' bound, ran, execute_halted halted] at rest
  cases rest
  rfl

theorem crashes_of_execute {n : Nat} {fault : Error}
    (failed : execute n session = .error fault after) :
    ∃ k middle, k < n ∧ Steps k session middle ∧ Crashes middle fault after := by
  induction n generalizing session with
  | zero =>
      by_cases halted : session.Halted
      · rw [execute_halted halted] at failed
        cases failed
      · rw [execute_zero halted] at failed
        cases failed
  | succ n ih =>
      rcases halted_or_next_or_crashes session with halted | ⟨middle, next⟩ | ⟨cause, stopped, crashes⟩
      · rw [execute_halted halted] at failed
        cases failed
      · rw [execute_next next] at failed
        obtain ⟨k, last, bound, steps, crashes⟩ := ih failed
        exact ⟨k + 1, last, by omega, .head next steps, crashes⟩
      · rw [execute_crashes crashes] at failed
        cases failed
        exact ⟨0, session, by omega, .refl _, crashes⟩

/-- Whether a source compiles, starts and runs so many statements to a state of some kind. -/
def reaches (source : String) (cycles : Nat) (good : Session → Bool) : Bool :=
  match Program.compile source with
  | .error _ => false
  | .ok program => match start { empty with program } with
    | .error _ _ => false
    | .ok () first => match execute cycles first with
      | .error _ _ => false
      | .ok _ last => good last

theorem exists_of_reaches {source : String} {cycles : Nat} {good : Session → Bool}
    (reached : reaches source cycles good = true) :
    ∃ session first event last, Program.compile source = .ok session.program ∧
      start session = .ok () first ∧ execute cycles first = .ok event last ∧ good last = true := by
  unfold reaches at reached
  cases compiled : Program.compile source with
  | error fault =>
      rw [compiled] at reached
      cases reached
  | ok program =>
      rw [compiled] at reached
      dsimp only at reached
      cases started : start { empty with program } with
      | error fault stopped =>
          rw [started] at reached
          cases reached
      | ok _ first =>
          rw [started] at reached
          dsimp only at reached
          cases ran : execute cycles first with
          | error fault stopped =>
              rw [ran] at reached
              cases reached
          | ok event last =>
              rw [ran] at reached
              exact ⟨{ empty with program }, first, event, last, rfl, started, ran, reached⟩

end Easel.Session
