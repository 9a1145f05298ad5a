import Easel.Proofs.Session.Steps

/-! Runs cut into batches. A batch goes on where the one before it ended, and since no statement hears
what the canvas was asked to do before, the canvas may be emptied between them. -/

namespace Easel.Session

variable {α β : Type}

/-! ### The canvas is not asked -/

def behind (strokes : Array Stroke) (session : Session) : Session :=
  { session with strokes := strokes ++ session.strokes }

@[simp] theorem behind_program (strokes : Array Stroke) (session : Session) :
    (session.behind strokes).program = session.program := rfl
@[simp] theorem behind_pc (strokes : Array Stroke) (session : Session) :
    (session.behind strokes).pc = session.pc := rfl

/-- The same result, with strokes in front. -/
def resultBehind (strokes : Array Stroke) :
    EStateM.Result Error Session α → EStateM.Result Error Session α
  | .ok a after => .ok a (after.behind strokes)
  | .error fault after => .error fault (after.behind strokes)

/-- Earlier strokes make no difference to the action. -/
def Unheeding (action : Action α) : Prop :=
  ∀ strokes session, action (session.behind strokes) = resultBehind strokes (action session)

namespace Unheeding

theorem bind {action : Action α} {next : α → Action β} (first : Unheeding action)
    (second : ∀ a, Unheeding (next a)) : Unheeding (action >>= next) := by
  intro strokes session
  rw [bind_apply, bind_apply, first]
  cases action session with
  | ok a after => exact second a strokes after
  | error fault after => rfl

theorem get_bind {next : Session → Action β}
    (each : ∀ strokes session, next (session.behind strokes) (session.behind strokes) =
      resultBehind strokes (next session session)) : Unheeding (get >>= next) := each

end Unheeding

section Statements

variable {session after : Session} {statement : Statement} (strokes : Array Stroke)

theorem change_behind {before after : Scene} {edit : Variables → Except Error Variables}
    (changed : before.change edit = .ok after) :
    Scene.change { before with strokes := strokes ++ before.strokes } edit =
      .ok { after with strokes := strokes ++ after.strokes } := by
  obtain ⟨vars, edited, same⟩ := bind_eq_ok.mp changed
  cases same
  exact bind_eq_ok.mpr ⟨vars, edited, rfl⟩

theorem draw_behind {before after : Scene} {stroke : Variables → Except Error Stroke}
    (drawn : before.draw stroke = .ok after) :
    Scene.draw { before with strokes := strokes ++ before.strokes } stroke =
      .ok { after with strokes := strokes ++ after.strokes } := by
  obtain ⟨last, found, same⟩ := bind_eq_ok.mp drawn
  cases same
  refine bind_eq_ok.mpr ⟨last, found, ?_⟩
  rw [Array.push_append]
  rfl

theorem effect_behind (act : Simple) {before after : Scene}
    (effect : act.effect before = .ok after) :
    act.effect { before with strokes := strokes ++ before.strokes } =
      .ok { after with strokes := strokes ++ after.strokes } := by
  cases act with
  | declare | array | poke | peek =>
      rw [Simple.effect] at effect ⊢
      exact change_behind strokes effect
  | draw | write =>
      rw [Simple.effect] at effect ⊢
      exact draw_behind strokes effect

theorem Moves.behind (moves : Moves session statement after) :
    Moves (session.behind strokes) statement (after.behind strokes) := by
  cases moves with
  | @simple statement act closures scene plain effect =>
      exact @Moves.simple (session.behind strokes) _ act closures _ plain
        (effect_behind strokes act effect)
  | enters tests holds => exact .enters tests holds
  | skips tests fails linked => exact .skips tests fails linked
  | leaves linked => exact .leaves linked
  | begins bounds running assigned => exact .begins bounds running assigned
  | passes bounds ended linked => exact .passes bounds ended linked
  | declares linked => exact .declares linked
  | calls known evaluated entered pushed => exact .calls known evaluated entered pushed
  | ends plain => exact .ends plain
  | tests linked => exact .tests linked
  | repeats linked opens stored advanced assigned =>
      exact .repeats linked opens stored advanced assigned
  | finishes linked opens ended => exact .finishes linked opens ended
  | falls linked idle => exact .falls linked idle
  | returns linked popped => exact .returns linked popped

theorem Fails.behind {fault : Error} (fails : Fails session statement fault after) :
    Fails (session.behind strokes) statement fault (after.behind strokes) := by
  cases fails with
  | simple plain breaks => exact .simple plain breaks
  | asks tests failed => exact .asks tests failed
  | skips tests fails unlinked => exact .skips tests fails unlinked
  | leaves unlinked => exact .leaves unlinked
  | counts failed => exact .counts failed
  | begins bounds running failed => exact .begins bounds running failed
  | passes bounds ended unlinked => exact .passes bounds ended unlinked
  | declares unlinked => exact .declares unlinked
  | unknown absent => exact .unknown absent
  | refuses known refused => exact .refuses known refused
  | binds known evaluated breaks => exact .binds known evaluated breaks
  | overflows known evaluated entered full => exact .overflows known evaluated entered full
  | unopened plain unlinked => exact .unopened plain unlinked
  | strays linked other => exact .strays linked other
  | repeats linked opens stored advanced failed =>
      exact .repeats linked opens stored advanced failed
  | misplaced linked popped other => exact .misplaced linked popped other

theorem perform_behind (session : Session) (statement : Statement) :
    perform session.pc statement (session.past.behind strokes) =
      resultBehind strokes (perform session.pc statement session.past) := by
  cases ran : perform session.pc statement session.past with
  | ok done after => exact perform_of_moves ((perform_eq_ok.mp ran).behind strokes)
  | error fault after => exact perform_of_fails ((perform_eq_error.mp ran).behind strokes)

end Statements

theorem step_unheeding (command : Command) : Unheeding (step command) := by
  intro strokes session
  have same := perform_behind strokes session command.statement
  unfold past behind at same
  unfold step behind
  rw [same]
  cases perform session.pc command.statement { session with pc := session.pc + 1 } <;> rfl

theorem execute_unheeding (n : Nat) : Unheeding (execute n) := by
  induction n with
  | zero =>
      apply Unheeding.get_bind
      intro strokes session
      rfl
  | succ n ih =>
      unfold execute
      apply Unheeding.get_bind
      intro strokes session
      rw [behind_program, behind_pc]
      cases session.program.commands[session.pc]? with
      | none => rfl
      | some command => exact Unheeding.bind (step_unheeding command) (fun _ => ih) strokes session

/-! ### One batch after another -/

variable {session after : Session} {n m : Nat}

theorem execute_add_ok {event : Event} (ran : execute n session = .ok event after) (m : Nat) :
    execute (n + m) session = execute m after := by
  obtain ⟨k, bound, steps, ends⟩ := steps_of_execute ran
  have whole : execute (n + m) session = execute (n - k + m) after := by
    rw [← execute_steps steps]
    congr 1
    omega
  rw [whole]
  by_cases early : k < n
  · have halted := ends (.inl early)
    rw [execute_halted halted, execute_halted halted]
  · congr 1
    omega

theorem execute_add_error {fault : Error} (failed : execute n session = .error fault after)
    (m : Nat) : execute (n + m) session = .error fault after := by
  obtain ⟨k, middle, bound, steps, crashes⟩ := crashes_of_execute failed
  have rest : n + m = k + (n - k - 1 + m + 1) := by omega
  rw [rest, execute_steps steps, execute_crashes crashes]

/-- Emptying the canvas after a batch only keeps its strokes apart from those of the next. -/
theorem execute_add_emptied {event : Event} (ran : execute n session = .ok event after) (m : Nat) :
    execute (n + m) session = resultBehind after.takeStrokes.1 (execute m after.takeStrokes.2) := by
  have whole : after.takeStrokes.2.behind after.takeStrokes.1 = after := by
    simp [takeStrokes, behind]
  rw [execute_add_ok ran, ← execute_unheeding, whole]

/-- How a run has ended, and what the canvas was asked to do by then; there is no answer as long as
it goes on. -/
def ending? : EStateM.Result Error Session Event → Option (Except Error Unit × Array Stroke)
  | .ok .running _ => none
  | .ok .stopped after => some (.ok (), after.strokes)
  | .error fault after => some (.error fault, after.strokes)

theorem execute_add_ended (ended : (ending? (execute n session)).isSome = true) (m : Nat) :
    execute (n + m) session = execute n session := by
  cases ran : execute n session with
  | error fault after => exact execute_add_error ran m
  | ok event after =>
      rw [ran] at ended
      cases event with
      | running => cases ended
      | stopped =>
          rw [execute_add_ok ran]
          exact execute_halted ((stopped_iff_halted ran).mp rfl) m

theorem execute_eq_of_ended (first : (ending? (execute n session)).isSome = true)
    (second : (ending? (execute m session)).isSome = true) :
    execute n session = execute m session := by
  rw [← execute_add_ended first m, ← execute_add_ended second n, Nat.add_comm]

theorem le_of_running (ran : execute n session = .ok .running after)
    (ended : (ending? (execute m session)).isSome = true) : n ≤ m := by
  by_contra more
  have same := execute_add_ended ended (n - m)
  rw [Nat.add_sub_cancel' (by omega), ran] at same
  rw [← same] at ended
  cases ended

theorem ending?_resultBehind (strokes : Array Stroke) (result : EStateM.Result Error Session Event) :
    ending? (resultBehind strokes result) =
      (ending? result).map fun ending => (ending.1, strokes ++ ending.2) := by
  cases result with
  | error fault after => rfl
  | ok event after => cases event <;> rfl

end Easel.Session
