import Easel.Proofs.Session.Actions

/-! Everything that a statement can do, with a fault and without one. -/

namespace Easel

def Statement.condition? : Statement → Option String
  | ifThen condition | whileDo condition => some condition
  | _ => none

namespace Session

/-- The session as a statement finds it, with `pc` behind the statement. -/
def past (session : Session) : Session := { session with pc := session.pc + 1 }

@[simp] theorem past_program (session : Session) : session.past.program = session.program := rfl
@[simp] theorem past_vars (session : Session) : session.past.vars = session.vars := rfl
@[simp] theorem past_frames (session : Session) : session.past.frames = session.frames := rfl
@[simp] theorem past_loops (session : Session) : session.past.loops = session.loops := rfl

/-- What a statement can make of a session. -/
inductive Moves (session : Session) : Statement → Session → Prop
  | simple {statement : Statement} {act : Simple} {closures : Closures} {scene : Scene}
      (plain : statement = act.statement)
      (effect : act.effect ⟨session.vars, closures, session.strokes⟩ = .ok scene) :
      Moves session statement
        { session with pc := session.pc + 1, vars := scene.vars, strokes := scene.strokes }
  | enters {statement : Statement} {condition : String}
      (tests : statement.condition? = some condition)
      (holds : session.vars.boolean condition = .ok true) :
      Moves session statement { session with pc := session.pc + 1 }
  | skips {statement : Statement} {condition : String} {target : Nat}
      (tests : statement.condition? = some condition)
      (fails : session.vars.boolean condition = .ok false)
      (linked : session.program.targets[session.pc]? = some target) :
      Moves session statement { session with pc := target + 1 }
  | leaves {target : Nat} (linked : session.program.targets[session.pc]? = some target) :
      Moves session .otherwise { session with pc := target + 1 }
  | begins {header : ForHeader} {counter : Counter} {vars : Variables}
      (bounds : session.vars.counter header = .ok counter) (running : counter.isRunning = true)
      (assigned : session.vars.assign header.counter (.int counter.current) = .ok vars) :
      Moves session (.forNext header)
        { session with
          pc := session.pc + 1, vars, loops := session.loops.insert session.pc counter }
  | passes {header : ForHeader} {counter : Counter} {target : Nat}
      (bounds : session.vars.counter header = .ok counter) (ended : counter.isRunning = false)
      (linked : session.program.targets[session.pc]? = some target) :
      Moves session (.forNext header)
        { session with pc := target + 1, loops := session.loops.erase session.pc }
  | declares {signature : Signature} {last : Nat}
      (linked : session.program.targets[session.pc]? = some last) :
      Moves session (.method signature)
        { session with
          pc := last + 1, methods := session.methods.register ⟨signature, session.pc, last⟩ }
  | calls {name : String} {arguments : List String} {method : Method}
      {bindings : List (String × Value)} {vars : Variables} {frames : Stack Frame}
      (known : session.methods.get? name = some method)
      (evaluated : session.vars.bindings method.signature arguments = .ok bindings)
      (entered : session.vars.enter method.signature arguments = .ok vars)
      (pushed : session.frames.push (session.past.frameFor method bindings) = .ok frames) :
      Moves session (.call name arguments)
        { session with pc := method.address + 1, vars, frames }
  | ends {block : Block} (plain : block = .ifBlock ∨ block = .elseBlock) :
      Moves session (.endOf block) { session with pc := session.pc + 1 }
  | tests {opener : Nat} (linked : session.program.openers[session.pc]? = some opener) :
      Moves session (.endOf .whileBlock) { session with pc := opener }
  | repeats {opener : Nat} {header : ForHeader} {counter next : Counter} {vars : Variables}
      (linked : session.program.openers[session.pc]? = some opener)
      (opens : session.program.statement? opener = some (.forNext header))
      (stored : session.loops[opener]? = some counter)
      (advanced : counter.next?.filter (·.isRunning) = some next)
      (assigned : session.vars.assign header.counter (.int next.current) = .ok vars) :
      Moves session (.endOf .forBlock)
        { session with pc := opener + 1, vars, loops := session.loops.insert opener next }
  | finishes {opener : Nat} {header : ForHeader}
      (linked : session.program.openers[session.pc]? = some opener)
      (opens : session.program.statement? opener = some (.forNext header))
      (ended : ∀ counter, session.loops[opener]? = some counter →
        counter.next?.filter (·.isRunning) = none) :
      Moves session (.endOf .forBlock)
        { session with pc := session.pc + 1, loops := session.loops.erase opener }
  | falls {opener : Nat} (linked : session.program.openers[session.pc]? = some opener)
      (idle : session.frames.items = []) :
      Moves session (.endOf .methodBlock) { session with pc := session.pc + 1 }
  | returns {frame : Frame} {frames : Stack Frame}
      (linked : session.program.openers[session.pc]? = some frame.method.address)
      (popped : session.frames.pop = .ok (frame, frames)) :
      Moves session (.endOf .methodBlock)
        { session with
          pc := frame.returnTo, frames, vars := unbindLocals frame session.vars }

/-- What a statement that fails can leave of a session. -/
inductive Fails (session : Session) : Statement → Error → Session → Prop
  | simple {statement : Statement} {act : Simple} {fault : Error} {vars : Variables}
      (plain : statement = act.statement) (breaks : Breaks act.edits session.vars fault vars) :
      Fails session statement fault { session.past with vars }
  | asks {statement : Statement} {condition : String} {fault : Error}
      (tests : statement.condition? = some condition)
      (failed : session.vars.boolean condition = .error fault) :
      Fails session statement fault session.past
  | skips {statement : Statement} {condition : String} {fault : Error}
      (tests : statement.condition? = some condition)
      (fails : session.vars.boolean condition = .ok false)
      (unlinked : session.program.target session.pc = .error fault) :
      Fails session statement fault session.past
  | leaves {fault : Error} (unlinked : session.program.target session.pc = .error fault) :
      Fails session .otherwise fault session.past
  | counts {header : ForHeader} {fault : Error}
      (failed : session.vars.counter header = .error fault) :
      Fails session (.forNext header) fault session.past
  | begins {header : ForHeader} {counter : Counter} {fault : Error}
      (bounds : session.vars.counter header = .ok counter) (running : counter.isRunning = true)
      (failed : session.vars.assign header.counter (.int counter.current) = .error fault) :
      Fails session (.forNext header) fault session.past
  | passes {header : ForHeader} {counter : Counter} {fault : Error}
      (bounds : session.vars.counter header = .ok counter) (ended : counter.isRunning = false)
      (unlinked : session.program.target session.pc = .error fault) :
      Fails session (.forNext header) fault
        { session.past with loops := session.loops.erase session.pc }
  | declares {signature : Signature} {fault : Error}
      (unlinked : session.program.target session.pc = .error fault) :
      Fails session (.method signature) fault session.past
  | unknown {name : String} {arguments : List String}
      (absent : session.methods.get? name = none) :
      Fails session (.call name arguments) (.unknownMethod name) session.past
  | refuses {name : String} {arguments : List String} {method : Method} {fault : Error}
      (known : session.methods.get? name = some method)
      (refused : session.vars.bindings method.signature arguments = .error fault) :
      Fails session (.call name arguments) fault session.past
  | binds {name : String} {arguments : List String} {method : Method}
      {bindings : List (String × Value)} {fault : Error} {vars : Variables}
      (known : session.methods.get? name = some method)
      (evaluated : session.vars.bindings method.signature arguments = .ok bindings)
      (breaks : Breaks (method.signature.edits bindings) session.vars fault vars) :
      Fails session (.call name arguments) fault { session.past with vars }
  | overflows {name : String} {arguments : List String} {method : Method}
      {bindings : List (String × Value)} {vars : Variables} {fault : Error}
      (known : session.methods.get? name = some method)
      (evaluated : session.vars.bindings method.signature arguments = .ok bindings)
      (entered : session.vars.enter method.signature arguments = .ok vars)
      (full : session.frames.push (session.past.frameFor method bindings) = .error fault) :
      Fails session (.call name arguments) fault { session.past with vars }
  | unopened {block : Block} {fault : Error} (plain : block ≠ .ifBlock ∧ block ≠ .elseBlock)
      (unlinked : session.program.opener session.pc = .error fault) :
      Fails session (.endOf block) fault session.past
  | strays {opener : Nat} (linked : session.program.openers[session.pc]? = some opener)
      (other : ∀ header, session.program.statement? opener ≠ some (.forNext header)) :
      Fails session (.endOf .forBlock) .endForWithoutFor session.past
  | repeats {opener : Nat} {header : ForHeader} {counter next : Counter} {fault : Error}
      (linked : session.program.openers[session.pc]? = some opener)
      (opens : session.program.statement? opener = some (.forNext header))
      (stored : session.loops[opener]? = some counter)
      (advanced : counter.next?.filter (·.isRunning) = some next)
      (failed : session.vars.assign header.counter (.int next.current) = .error fault) :
      Fails session (.endOf .forBlock) fault
        { session.past with loops := session.loops.insert opener next }
  | misplaced {opener : Nat} {frame : Frame} {frames : Stack Frame}
      (linked : session.program.openers[session.pc]? = some opener)
      (popped : session.frames.pop = .ok (frame, frames))
      (other : frame.method.address ≠ opener) :
      Fails session (.endOf .methodBlock) (.returnOutside frame.method.signature.name) session.past

theorem erase_absent {loops : Std.ExtTreeMap Nat Counter} {address : Nat}
    (absent : loops[address]? = none) : loops.erase address = loops := by
  refine Std.ExtTreeMap.ext_getElem? fun {other} => ?_
  rw [Std.ExtTreeMap.getElem?_erase]
  split
  · rename_i same
    rw [← Std.LawfulEqCmp.eq_of_compare same, absent]
  · rfl

variable {session after : Session} {statement : Statement} {fault : Error}

theorem perform_of_moves (moves : Moves session statement after) :
    perform session.pc statement session.past = .ok () after := by
  cases moves with
  | simple plain effect =>
      rw [plain]
      exact (perform_simple session.past _ _ effect).1
  | @enters statement condition tests holds =>
      have entered : enterIf session.pc condition session.past = .ok () session.past := by
        rw [enterIf_eq, past_vars, holds]
      cases statement <;> cases tests <;> exact entered
  | @skips statement condition target tests fails linked =>
      have skipped : enterIf session.pc condition session.past =
          .ok () { session with pc := target + 1 } := by
        rw [enterIf_eq, past_vars, fails]
        dsimp only
        rw [skipBlock_eq, past_program, Program.target_eq_ok.mpr linked]
        rfl
      cases statement <;> cases tests <;> exact skipped
  | leaves linked =>
      rw [perform, skipBlock_eq, past_program, Program.target_eq_ok.mpr linked]
      rfl
  | begins bounds running assigned =>
      rw [perform, enterFor_eq]
      simp only [past_vars, bounds, running, ↓reduceIte, assigned]
      rfl
  | passes bounds ended linked =>
      rw [perform, enterFor_eq]
      simp only [past_vars, bounds, ended, Bool.false_eq_true, ↓reduceIte]
      rw [skipBlock_eq]
      simp only [past_program, Program.target_eq_ok.mpr linked]
      rfl
  | declares linked =>
      rw [perform, register_eq, past_program, Program.target_eq_ok.mpr linked]
      rfl
  | calls known evaluated entered pushed =>
      rw [perform, call_eq session.past known evaluated entered, past_frames, pushed]
      rfl
  | ends plain => rcases plain with rfl | rfl <;> rfl
  | tests linked =>
      rw [perform, endWhile_eq, past_program, Program.opener_eq_ok.mpr linked]
      rfl
  | repeats linked opens stored advanced assigned =>
      rw [perform, endFor_eq, past_program, Program.opener_eq_ok.mpr linked]
      dsimp only
      rw [advance_eq session.past opens]
      simp only [past_loops, past_vars, stored, advanced, assigned]
      rfl
  | @finishes opener header linked opens ended =>
      rw [perform, endFor_eq, past_program, Program.opener_eq_ok.mpr linked]
      dsimp only
      rw [advance_eq session.past opens, past_loops]
      cases stored : session.loops[opener]? with
      | none =>
          rw [erase_absent stored]
          rfl
      | some counter =>
          simp only [ended counter stored]
          rfl
  | falls linked idle =>
      rw [perform, endMethod_eq, past_program, Program.opener_eq_ok.mpr linked]
      dsimp only
      rw [returnFrom_eq, past_frames, Stack.pop_error.mpr ⟨idle, rfl⟩]
      rfl
  | returns linked popped =>
      rw [perform, endMethod_eq, past_program, Program.opener_eq_ok.mpr linked]
      dsimp only
      rw [returnFrom_eq, past_frames, popped]
      simp only [↓reduceIte]
      rfl

theorem perform_of_fails (fails : Fails session statement fault after) :
    perform session.pc statement session.past = .error fault after := by
  cases fails with
  | simple plain breaks =>
      rw [plain]
      exact perform_simple_breaks session.past _ _ breaks
  | @asks statement condition fault tests failed =>
      have stopped : enterIf session.pc condition session.past = .error fault session.past := by
        rw [enterIf_eq, past_vars, failed]
      cases statement <;> cases tests <;> exact stopped
  | @skips statement condition fault tests fails unlinked =>
      have stopped : enterIf session.pc condition session.past = .error fault session.past := by
        rw [enterIf_eq, past_vars, fails]
        dsimp only
        rw [skipBlock_eq, past_program, unlinked]
      cases statement <;> cases tests <;> exact stopped
  | leaves unlinked => rw [perform, skipBlock_eq, past_program, unlinked]
  | counts failed => rw [perform, enterFor_eq, past_vars, failed]
  | begins bounds running failed =>
      rw [perform, enterFor_eq]
      simp only [past_vars, bounds, running, ↓reduceIte, failed]
  | passes bounds ended unlinked =>
      rw [perform, enterFor_eq]
      simp only [past_vars, bounds, ended, Bool.false_eq_true, ↓reduceIte]
      rw [skipBlock_eq]
      simp only [past_program, unlinked, past_loops]
  | declares unlinked => rw [perform, register_eq, past_program, unlinked]
  | unknown absent => rw [perform, call_unknown session.past _ absent]
  | refuses known refused => rw [perform, call_refuses session.past known refused]
  | binds known evaluated breaks => rw [perform, call_breaks session.past known evaluated breaks]
  | overflows known evaluated entered full =>
      rw [perform, call_eq session.past known evaluated entered, past_frames, full]
      rfl
  | @unopened block fault plain unlinked =>
      cases block with
      | ifBlock => exact absurd rfl plain.1
      | elseBlock => exact absurd rfl plain.2
      | whileBlock => rw [perform, endWhile_eq, past_program, unlinked]
      | forBlock => rw [perform, endFor_eq, past_program, unlinked]
      | methodBlock => rw [perform, endMethod_eq, past_program, unlinked]
  | strays linked other =>
      rw [perform, endFor_eq, past_program, Program.opener_eq_ok.mpr linked]
      dsimp only
      rw [advance_other session.past other]
  | repeats linked opens stored advanced failed =>
      rw [perform, endFor_eq, past_program, Program.opener_eq_ok.mpr linked]
      dsimp only
      rw [advance_eq session.past opens]
      simp only [past_loops, past_vars, stored, advanced, failed]
  | misplaced linked popped other =>
      rw [perform, endMethod_eq, past_program, Program.opener_eq_ok.mpr linked]
      dsimp only
      rw [returnFrom_eq, past_frames, popped]
      simp only [other, ↓reduceIte]

theorem Fails.left_eq (fails : Fails session statement fault after) :
    ∃ vars loops, after = { session.past with vars, loops } := by
  cases fails <;> exact ⟨_, _, rfl⟩

theorem fails_of_enter {name : String} {arguments : List String} {method : Method}
    (known : session.methods.get? name = some method)
    (failed : session.vars.enter method.signature arguments = .error fault) :
    ∃ stopped, Fails session (.call name arguments) fault stopped := by
  obtain refused | ⟨bindings, evaluated, -⟩ := bind_eq_error.mp failed
  · exact ⟨_, .refuses known refused⟩
  · rw [Variables.enter_eq evaluated] at failed
    obtain ⟨vars, breaks⟩ := exists_breaks failed
    exact ⟨_, .binds known evaluated breaks⟩

/-! ### There is nothing else -/

def MovesOrFails (session : Session) (statement : Statement) : Prop :=
  (∃ after, Moves session statement after) ∨ ∃ fault after, Fails session statement fault after

namespace MovesOrFails

theorem moves (moves : Moves session statement after) : MovesOrFails session statement :=
  .inl ⟨after, moves⟩

theorem fails (fails : Fails session statement fault after) : MovesOrFails session statement :=
  .inr ⟨fault, after, fails⟩

variable (session)

theorem simple (act : Simple) : MovesOrFails session act.statement := by
  cases effect : act.effect ⟨session.vars, ∅, session.strokes⟩ with
  | ok scene => exact .moves (.simple rfl effect)
  | error fault =>
      obtain ⟨vars, breaks⟩ := Simple.breaks_of_effect effect
      exact .fails (.simple rfl breaks)

theorem test {condition : String} (tests : statement.condition? = some condition) :
    MovesOrFails session statement := by
  cases holds : session.vars.boolean condition with
  | error fault => exact .fails (.asks tests holds)
  | ok truth =>
      cases truth with
      | true => exact .moves (.enters tests holds)
      | false =>
          cases linked : session.program.target session.pc with
          | error fault => exact .fails (.skips tests holds linked)
          | ok target => exact .moves (.skips tests holds (Program.target_eq_ok.mp linked))

theorem otherwise : MovesOrFails session .otherwise := by
  cases linked : session.program.target session.pc with
  | error fault => exact .fails (.leaves linked)
  | ok target => exact .moves (.leaves (Program.target_eq_ok.mp linked))

theorem forNext (header : ForHeader) : MovesOrFails session (.forNext header) := by
  cases bounds : session.vars.counter header with
  | error fault => exact .fails (.counts bounds)
  | ok counter =>
      cases running : counter.isRunning with
      | true =>
          cases assigned : session.vars.assign header.counter (.int counter.current) with
          | error fault => exact .fails (.begins bounds running assigned)
          | ok vars => exact .moves (.begins bounds running assigned)
      | false =>
          cases linked : session.program.target session.pc with
          | error fault => exact .fails (.passes bounds running linked)
          | ok target => exact .moves (.passes bounds running (Program.target_eq_ok.mp linked))

theorem method (signature : Signature) : MovesOrFails session (.method signature) := by
  cases linked : session.program.target session.pc with
  | error fault => exact .fails (.declares linked)
  | ok last => exact .moves (.declares (Program.target_eq_ok.mp linked))

theorem call (name : String) (arguments : List String) :
    MovesOrFails session (.call name arguments) := by
  cases known : session.methods.get? name with
  | none => exact .fails (.unknown known)
  | some method =>
      cases entered : session.vars.enter method.signature arguments with
      | error fault =>
          obtain ⟨stopped, fails⟩ := fails_of_enter known entered
          exact .fails fails
      | ok vars =>
          obtain ⟨bindings, evaluated, -⟩ := bind_eq_ok.mp entered
          cases pushed : session.frames.push (session.past.frameFor method bindings) with
          | error fault => exact .fails (.overflows known evaluated entered pushed)
          | ok frames => exact .moves (.calls known evaluated entered pushed)

theorem endFor {opener : Nat} (linked : session.program.openers[session.pc]? = some opener) :
    MovesOrFails session (.endOf .forBlock) := by
  by_cases opens : ∃ header, session.program.statement? opener = some (.forNext header)
  · obtain ⟨header, opens⟩ := opens
    cases stored : session.loops[opener]? with
    | none => exact .moves (.finishes linked opens (by simp [stored]))
    | some counter =>
        cases advanced : counter.next?.filter (·.isRunning) with
        | none =>
            refine .moves (.finishes linked opens fun other found => ?_)
            cases stored.symm.trans found
            exact advanced
        | some next =>
            cases assigned : session.vars.assign header.counter (.int next.current) with
            | error fault => exact .fails (.repeats linked opens stored advanced assigned)
            | ok vars => exact .moves (.repeats linked opens stored advanced assigned)
  · exact .fails (.strays linked (not_exists.mp opens))

theorem endMethod {opener : Nat} (linked : session.program.openers[session.pc]? = some opener) :
    MovesOrFails session (.endOf .methodBlock) := by
  cases popped : session.frames.pop with
  | error fault => exact .moves (.falls linked (Stack.pop_error.mp popped).1)
  | ok result =>
      obtain ⟨frame, frames⟩ := result
      by_cases own : frame.method.address = opener
      · exact .moves (.returns (own ▸ linked) popped)
      · exact .fails (.misplaced linked popped own)

theorem endOf (block : Block) : MovesOrFails session (.endOf block) := by
  by_cases plain : block = .ifBlock ∨ block = .elseBlock
  · exact .moves (.ends plain)
  · cases linked : session.program.opener session.pc with
    | error fault => exact .fails (.unopened (not_or.mp plain) linked)
    | ok opener =>
        have linked := Program.opener_eq_ok.mp linked
        cases block with
        | ifBlock | elseBlock => exact absurd (by simp) plain
        | whileBlock => exact .moves (.tests linked)
        | forBlock => exact endFor session linked
        | methodBlock => exact endMethod session linked

end MovesOrFails

theorem moves_or_fails (session : Session) (statement : Statement) :
    MovesOrFails session statement := by
  cases statement with
  | declare declaration => exact .simple session (.declare declaration)
  | array declaration => exact .simple session (.array declaration)
  | poke cell => exact .simple session (.poke cell)
  | peek cell => exact .simple session (.peek cell)
  | draw drawing arguments => exact .simple session (.draw drawing arguments)
  | write expression => exact .simple session (.write expression)
  | ifThen condition => exact .test session rfl
  | whileDo condition => exact .test session rfl
  | otherwise => exact .otherwise session
  | forNext header => exact .forNext session header
  | method signature => exact .method session signature
  | call name arguments => exact .call session name arguments
  | endOf block => exact .endOf session block

/-- The statements that come to an end are those that move. -/
theorem perform_eq_ok :
    perform session.pc statement session.past = .ok () after ↔ Moves session statement after := by
  refine ⟨fun ran => ?_, perform_of_moves⟩
  obtain ⟨other, moves⟩ | ⟨fault, stopped, fails⟩ := moves_or_fails session statement
  · cases ran.symm.trans (perform_of_moves moves)
    exact moves
  · cases ran.symm.trans (perform_of_fails fails)

theorem perform_eq_error :
    perform session.pc statement session.past = .error fault after ↔
      Fails session statement fault after := by
  refine ⟨fun failed => ?_, perform_of_fails⟩
  obtain ⟨other, moves⟩ | ⟨cause, stopped, fails⟩ := moves_or_fails session statement
  · cases failed.symm.trans (perform_of_moves moves)
  · cases failed.symm.trans (perform_of_fails fails)
    exact fails

def Distinct (methods : Methods) : Prop :=
  ∀ name method, methods.get? name = some method →
    (method.signature.parameters.map (·.name)).Nodup

theorem Moves.of_call {name : String} {arguments : List String}
    (moves : Moves session (.call name arguments) after) :
    ∃ method bindings vars frames, session.methods.get? name = some method ∧
      session.vars.bindings method.signature arguments = .ok bindings ∧
      session.vars.enter method.signature arguments = .ok vars ∧
      session.frames.push (session.past.frameFor method bindings) = .ok frames ∧
      after = { session with pc := method.address + 1, vars, frames } := by
  cases moves with
  | @simple _ act _ _ plain effect => cases act <;> cases plain
  | enters tests | skips tests => cases tests
  | calls known evaluated entered pushed =>
      exact ⟨_, _, _, _, known, evaluated, entered, pushed, rfl⟩

end Session

end Easel
