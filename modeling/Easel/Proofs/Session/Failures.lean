import Easel.Proofs.Session.Changes
import Easel.Proofs.Source.Numbering

/-! Statements that fail. Whatever can go wrong in a statement is found out before it has an effect,
so that it leaves variables, methods, calls and canvas as they were. A declaration of several names
is the exception: those without a value are made first. -/

namespace Easel

/-- Some of the further names of the declaration, which had no entry, have got a zero of its kind.
-/
def Variables.PartlyDeclared (declaration : Declaration) (before after : Variables) : Prop :=
  ∀ name, after.get? name = before.get? name ∨
    name ∈ declaration.extra ∧ before.get? name = none ∧
      after.get? name = some ⟨.zero declaration.kind, .global⟩

namespace Variables

variable {declaration : Declaration}

theorem PartlyDeclared.trans {before middle after : Variables}
    (early : before.PartlyDeclared declaration middle)
    (late : middle.PartlyDeclared declaration after) :
    before.PartlyDeclared declaration after := by
  intro name
  rcases early name with same | ⟨listed, absent, zero⟩
  · rcases late name with same' | ⟨listed, absent, zero⟩
    · exact .inl (same'.trans same)
    · exact .inr ⟨listed, same ▸ absent, zero⟩
  · rcases late name with same | ⟨-, absent', -⟩
    · exact .inr ⟨listed, absent, same.trans zero⟩
    · rw [zero] at absent'
      cases absent'

theorem ensure_partlyDeclared (vars : Variables) {name : String}
    (listed : name ∈ declaration.extra) :
    Gives (PartlyDeclared declaration vars) (vars.ensure name declaration.kind) := by
  unfold ensure
  split
  · exact .ok fun _ => .inl rfl
  · rename_i absent
    intro after added other
    have found := get?_add added other
    by_cases same : name = other
    · subst same
      rw [if_pos rfl] at found
      exact .inr ⟨listed, contains_eq_false.mp (Bool.eq_false_iff.mpr absent), found⟩
    · rw [if_neg same] at found
      exact .inl found

end Variables

namespace Session

variable {session stopped : Session} {fault : Error}

/-- Whatever a simple statement does is done by its last edit, but for a declaration. -/
theorem Fails.vars_eq {statement : Statement} (fails : Fails session statement fault stopped)
    (noCall : ∀ name arguments, statement ≠ .call name arguments) :
    stopped.vars = session.vars ∨ ∃ declaration, statement = .declare declaration ∧
      session.vars.PartlyDeclared declaration stopped.vars := by
  cases fails with
  | @simple statement act fault vars plain breaks =>
      cases act with
      | declare declaration =>
          refine .inr ⟨declaration, plain, breaks.keeps ?_ fun _ => .inl rfl⟩
          intro edit member middle partly
          rw [Simple.edits, Declaration.edits, List.dropLast_concat] at member
          obtain ⟨name, listed, rfl⟩ := List.mem_map.mp member
          intro after ensured
          exact partly.trans (middle.ensure_partlyDeclared listed after ensured)
      | array | poke | peek | draw | write => exact .inl breaks.singleton.2
  | unknown | refuses | binds | overflows => exact absurd rfl (noCall _ _)
  | _ => exact .inl rfl

theorem line_of_failure {source : String} {command : Command}
    (compiled : Program.compile source = .ok session.program)
    (found : session.program.commands[session.pc]? = some command)
    (fails : Fails session command.statement fault stopped) :
    (fault.inLine command.line).line = some command.line := by
  have legal := Program.compile_legal source _ compiled command (Array.mem_of_getElem? found)
  have unplaced : fault.line = none := by
    rcases fails.ordinary (Program.compile_paired source _ compiled) legal
      (Program.statement?_of_command found) with ordinary | ⟨-, ⟨-, unplaced⟩, -⟩
    · exact ordinary.2
    · exact unplaced
  rw [Error.inLine, unplaced]
  rfl

theorem fails_of_execute_one {after : Session} {statement : Statement}
    (stands : session.program.statement? session.pc = some statement)
    (failed : execute 1 session = .error fault after) :
    ∃ command cause stopped, session.program.commands[session.pc]? = some command ∧
      command.statement = statement ∧ Fails session statement cause stopped ∧
      cause.inLine command.line = fault ∧ { stopped with pc := stopped.program.size } = after := by
  obtain ⟨k, middle, bound, steps, crashes⟩ := crashes_of_execute failed
  obtain rfl : k = 0 := by omega
  cases steps
  obtain ⟨command, cause, stopped, found, fails, blamed, same⟩ := crashes.fails
  rw [Program.statement?_of_command found] at stands
  cases stands
  exact ⟨command, cause, stopped, found, rfl, fails, blamed, same⟩

/-- A statement that fails, unless it is a call, is the last of its run and does nothing else: the
fault names its line, and variables, methods, calls and canvas are left as they were, but that a
declaration of several names may have made some of those that it declares without a value. -/
theorem failing_statement_leaves_no_trace (source : String) (session after : Session)
    (statement : Statement) (fault : Error)
    (compiled : Program.compile source = .ok session.program)
    (stands : session.program.statement? session.pc = some statement)
    (noCall : ∀ name arguments, statement ≠ .call name arguments)
    (failed : execute 1 session = .error fault after) :
    (fault.line = session.program.line? session.pc ∧
      ∃ k line, (Line.all source)[k]? = some line ∧ line.statement = .ok statement ∧
        fault.line = some (k + 1)) ∧
    after.pc = session.program.size ∧ (∀ n, execute n after = .ok .stopped after) ∧
    after.strokes = session.strokes ∧ after.methods = session.methods ∧
    after.frames = session.frames ∧
    (after.vars = session.vars ∨ ∃ declaration, statement = .declare declaration ∧
      ∀ name, after.vars.get? name = session.vars.get? name ∨
        name ∈ declaration.extra ∧ session.vars.get? name = none ∧
          after.vars.get? name = some ⟨.zero declaration.kind, .global⟩) := by
  obtain ⟨command, cause, stopped, found, rfl, fails, rfl, rfl⟩ := fails_of_execute_one stands failed
  have place := line_of_failure compiled found fails
  have partly := fails.vars_eq noCall
  obtain ⟨vars, loops, rfl⟩ := fails.left_eq
  obtain ⟨line, listed, number, said⟩ :=
    (Program.compile_says compiled).mem (Array.mem_of_getElem? found).val
  obtain ⟨k, listed⟩ := List.getElem?_of_mem (List.mem_filter.mp listed).1
  have halted : Halted { session.past with vars, loops, pc := session.program.size } :=
    Nat.le_refl _
  refine ⟨⟨?_, k, line, listed, said, ?_⟩, rfl, execute_halted halted, rfl, rfl, rfl, partly⟩
  · rw [place, Program.line?, found]
    rfl
  · rw [place, ← number, Source.number_of_all listed]

/-- The second line declares two names, of which the first is an array by then. -/
def arrayDeclaredAnew : String := "array int a 2\nint a, b"

theorem array_declared_anew_leaves_array :
    ∃ session first event before declaration fault after,
      Program.compile arrayDeclaredAnew = .ok session.program ∧ start session = .ok () first ∧
      execute 1 first = .ok event before ∧
      before.program.statement? before.pc = some (.declare declaration) ∧
      declaration.extra = ["b"] ∧ execute 1 before = .error fault after ∧ fault.line = some 2 ∧
      after.pc = 2 ∧ after.frames = before.frames ∧
      after.vars.get? "a" = before.vars.get? "a" ∧ before.vars.get? "b" = none ∧
      after.vars.get? "b" = some ⟨.int 0, .global⟩ := by
  have reached : reaches arrayDeclaredAnew 1 (fun before =>
      before.program.statement? before.pc == some (.declare ⟨.int, "a", "0", ["b"]⟩) &&
      before.program.line? before.pc == some 2 && before.program.size == 2 &&
      !before.vars.contains "b" && (before.stateAfter 1).vars.contains "b" &&
      (before.faultWithin? 1).isSome) = true := by
    decide +kernel
  obtain ⟨session, first, event, before, compiled, started, ran, checked⟩ :=
    exists_of_reaches reached
  simp only [Bool.and_eq_true, beq_iff_eq, Bool.not_eq_true'] at checked
  obtain ⟨⟨⟨⟨⟨stands, place⟩, size⟩, absent⟩, present⟩, failed⟩ := checked
  obtain ⟨fault, failed⟩ := Option.isSome_iff_exists.mp failed
  have failed := execute_of_faultWithin failed
  have program : before.program = session.program := by
    obtain ⟨k, -, steps, -⟩ := steps_of_execute ran
    exact ((sound_start compiled started).steps steps).2.trans (start_program started)
  obtain ⟨⟨line, -⟩, pc, -, -, -, frames, vars⟩ := failing_statement_leaves_no_trace
    arrayDeclaredAnew before (before.stateAfter 1) _ fault (program ▸ compiled) stands (by simp)
    failed
  have absent := Variables.contains_eq_false.mp absent
  have made : (before.stateAfter 1).vars.get? "b" ≠ none := by
    intro missing
    rw [Variables.contains_eq_false.mpr missing] at present
    cases present
  obtain ⟨declaration, same, each⟩ : ∃ declaration,
      Statement.declare ⟨.int, "a", "0", ["b"]⟩ = .declare declaration ∧
        before.vars.PartlyDeclared declaration (before.stateAfter 1).vars := by
    rcases vars with vars | declared
    · rw [vars] at made
      exact absurd absent made
    · exact declared
  cases same
  refine ⟨session, first, event, before, _, fault, _, compiled, started, ran, stands, rfl, failed,
    line.trans place, pc.trans size, frames, ?_, absent, ?_⟩
  · rcases each "a" with same | ⟨listed, -⟩
    · exact same
    · simp at listed
  · rcases each "b" with same | ⟨-, -, zero⟩
    · exact absurd (same.trans absent) made
    · exact zero

end Session

end Easel
