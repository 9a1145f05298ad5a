import Easel.Proofs.Blocks.Acceptance
import Easel.Proofs.Faults

/-! What a host can do to a session: enter and run programs, stop them, go on at any address, and
edit the variables. Whatever it does and in whatever order, also after faults, program and methods
stay such that no fault lies with the session itself. -/

namespace Easel.Session

inductive Operation where
  | enter (source : String)
  | start
  | execute (cycles : Nat)
  | run (batches : Nat)
  | interrupt
  | setPc (address : Nat)
  | add (name : String) (value : Value) (scope : Scope)
  | update (name : String) (value : Value)
  | delete (name : String)
  | restore (name : String) (entry : Entry)
  | setCell (array : String) (row column : Int32) (value : Value)

def Operation.action : Operation → Action Unit
  | enter source => Session.enter source
  | start => Session.start
  | execute cycles => do let _ ← Session.execute cycles
  | run batches => do let _ ← Session.run batches
  | interrupt => modify Session.interrupt
  | setPc address => goTo address
  | add name value scope => change (·.add name value scope)
  | update name value => change (·.update name value)
  | delete name => change fun vars => .ok (vars.erase name)
  | restore name entry => change fun vars => .ok (vars.restore name entry)
  | setCell array row column value => change (·.setCell array row column value)

/-- The faults of one operation after the other. A fault does not keep the host from going on. -/
def faults : List Operation → Session → List Error
  | [], _ => []
  | operation :: rest, session =>
    match operation.action session with
    | .ok () after => faults rest after
    | .error fault after => fault :: faults rest after

/-! ### What is left -/

def left {α : Type} : EStateM.Result Error Session α → Session
  | .ok _ after => after
  | .error _ after => after

theorem left_change (edit : Variables → Except Error Variables) (session : Session) :
    ∃ vars, left (change edit session) = { session with vars } := by
  unfold change
  cases edit session.vars with
  | ok vars => exact ⟨vars, rfl⟩
  | error fault => exact ⟨session.vars, rfl⟩

theorem left_start (session : Session) :
    ∃ vars, left (start session) = { session.fresh with vars } := by
  cases grown : Variables.seeded session.program.seeds.toList with
  | ok vars => exact ⟨vars, by rw [start_ok session grown]; rfl⟩
  | error fault =>
      obtain ⟨vars, stopped⟩ := start_error session grown
      exact ⟨vars, by rw [stopped]; rfl⟩

/-! ### What every operation keeps -/

structure SameCode (session after : Session) : Prop where
  program : after.program = session.program
  methods : after.methods = session.methods

/-- The blocks of the program are linked, its statements are whole, and no method that is known has
two parameters of one name. -/
structure Intact (session : Session) : Prop where
  paired : session.program.Paired
  legal : ∀ command ∈ session.program.commands, command.statement.Legal
  distinct : Distinct session.methods

namespace Intact

variable {session after : Session}

theorem of_sameCode (intact : session.Intact) (same : SameCode session after) : after.Intact := by
  obtain ⟨program, methods⟩ := same
  exact ⟨program ▸ intact.paired, program ▸ intact.legal, methods ▸ intact.distinct⟩

theorem moves (intact : session.Intact) {statement : Statement} (legal : statement.Legal)
    (moves : Moves session statement after) : after.Intact := by
  cases moves with
  | declares linked =>
      refine ⟨intact.paired, intact.legal, ?_⟩
      intro name method known
      change (session.methods.register _).get? name = some method at known
      rw [Methods.get?, Methods.register, Std.ExtTreeMap.getElem?_insert] at known
      split at known
      · cases known
        exact legal
      · exact intact.distinct name method known
  | _ => exact intact.of_sameCode ⟨rfl, rfl⟩

theorem fails (intact : session.Intact) {statement : Statement} {fault : Error}
    (fails : Fails session statement fault after) : after.Intact := by
  cases fails <;> exact intact.of_sameCode ⟨rfl, rfl⟩

theorem next (intact : session.Intact) (next : Next session after) : after.Intact := by
  obtain ⟨statement, stands, moves⟩ := next.moves
  obtain ⟨command, found, rfl⟩ := Option.map_eq_some_iff.mp stands
  exact intact.moves (intact.legal command (Array.mem_of_getElem? found)) moves

theorem crashes (intact : session.Intact) {fault : Error} (crashes : Crashes session fault after) :
    after.Intact ∧ fault.code ≠ .internalError := by
  obtain ⟨command, cause, stopped, found, fails, rfl, rfl⟩ := crashes.fails
  refine ⟨(intact.fails fails).of_sameCode ⟨rfl, rfl⟩, ?_⟩
  have legal := intact.legal command (Array.mem_of_getElem? found)
  rcases fails.ordinary intact.paired legal (Program.statement?_of_command found) with
    ordinary | ⟨-, ⟨code, -⟩, -⟩
  · exact ordinary.1.1
  · intro internal
    change cause.code = .internalError at internal
    rw [code] at internal
    cases internal

end Intact

/-- The action keeps the session intact, and a fault does not lie with the session. -/
structure Safe {α : Type} (action : Action α) (session : Session) : Prop where
  intact : (left (action session)).Intact
  blameless : ∀ fault after, action session = .error fault after → fault.code ≠ .internalError

namespace Safe

variable {α β : Type} {session : Session}

theorem pure (intact : session.Intact) (a : α) : Safe (Pure.pure a) session := ⟨intact, nofun⟩

theorem bind {action : Action α} {next : α → Action β} (first : Safe action session)
    (second : ∀ a after, after.Intact → Safe (next a) after) : Safe (action >>= next) session := by
  obtain ⟨intact, blameless⟩ := first
  cases result : action session with
  | error fault stopped =>
      rw [result] at intact
      refine ⟨?_, ?_⟩
      · rw [bind_apply, result]
        exact intact
      · intro other after failed
        rw [bind_apply, result] at failed
        cases failed
        exact blameless fault stopped result
  | ok a after =>
      rw [result] at intact
      have rest := second a after intact
      refine ⟨?_, ?_⟩
      · rw [bind_apply, result]
        exact rest.intact
      · intro fault stopped failed
        rw [bind_apply, result] at failed
        exact rest.blameless fault stopped failed

theorem modify {f : Session → Session} (intact : (f session).Intact) :
    Safe (modify f) session := ⟨intact, nofun⟩

theorem change {edit : Variables → Except Error Variables} (intact : session.Intact)
    (ordinary : ∀ vars, Faults Error.Ordinary (edit vars)) :
    Safe (Session.change edit) session := by
  obtain ⟨vars, same⟩ := left_change edit session
  refine ⟨same ▸ intact.of_sameCode ⟨rfl, rfl⟩, ?_⟩
  intro fault after failed
  unfold Session.change at failed
  cases edited : edit session.vars with
  | ok vars =>
      rw [edited] at failed
      cases failed
  | error cause =>
      rw [edited] at failed
      cases failed
      exact (ordinary _ fault edited).1.1

theorem forM {each : α → Action Unit} (safe : ∀ a session, session.Intact → Safe (each a) session)
    (list : List α) (intact : session.Intact) : Safe (list.forM each) session := by
  induction list generalizing session with
  | nil => exact pure intact ()
  | cons head tail ih => exact bind (safe head session intact) fun _ after kept => ih kept

theorem start (intact : session.Intact) : Safe start session := by
  have fresh : session.fresh.Intact := ⟨intact.paired, intact.legal, nofun⟩
  have seeds := forM (fun (seed : String × Value) _ kept => change kept
    fun vars => vars.add_ordinary seed.1 seed.2 .global) session.program.seeds.toList fresh
  refine ⟨?_, ?_⟩
  · rw [start_eq]
    exact seeds.intact
  · rw [start_eq]
    exact seeds.blameless

theorem enter (intact : session.Intact) (source : String) : Safe (enter source) session := by
  unfold Session.enter
  cases compiled : Program.compile source with
  | error fault =>
      refine ⟨intact, ?_⟩
      intro other after failed
      cases failed
      rcases Program.compile_faults source fault compiled with code | code <;> simp [code]
  | ok program =>
      refine bind (modify ⟨?_, ?_, intact.distinct⟩) fun _ after kept => start kept
      · exact Program.compile_paired source program compiled
      · exact Program.compile_legal source program compiled

theorem execute (intact : session.Intact) (cycles : Nat) : Safe (execute cycles) session := by
  induction cycles generalizing session with
  | zero => exact ⟨intact, nofun⟩
  | succ cycles ih =>
      rcases halted_or_next_or_crashes session with halted | ⟨after, next⟩ | ⟨fault, after, crashes⟩
      · refine ⟨?_, ?_⟩ <;> rw [execute_halted halted]
        · exact intact
        · nofun
      · have rest := ih (intact.next next)
        refine ⟨?_, ?_⟩ <;> rw [execute_next next]
        · exact rest.intact
        · exact rest.blameless
      · obtain ⟨kept, code⟩ := intact.crashes crashes
        refine ⟨?_, ?_⟩ <;> rw [execute_crashes crashes]
        · exact kept
        · intro other stopped failed
          cases failed
          exact code

theorem run (intact : session.Intact) (batches : Nat) : Safe (run batches) session := by
  induction batches generalizing session with
  | zero => exact pure intact _
  | succ batches ih =>
      refine bind (execute intact batchSize) fun event after kept => ?_
      cases event with
      | running => exact ih kept
      | stopped => exact pure kept _

theorem operation (intact : session.Intact) (operation : Operation) :
    Safe operation.action session := by
  unfold Operation.action
  cases operation with
  | enter source => exact enter intact source
  | start => exact start intact
  | execute cycles => exact bind (execute intact cycles) fun _ _ kept => pure kept ()
  | run batches => exact bind (run intact batches) fun _ _ kept => pure kept ()
  | interrupt => exact modify (intact.of_sameCode ⟨rfl, rfl⟩)
  | setPc address => exact modify (intact.of_sameCode ⟨rfl, rfl⟩)
  | add name value scope => exact change intact fun vars => vars.add_ordinary name value scope
  | update name value => exact change intact fun vars => vars.update_ordinary name value
  | delete name => exact change intact fun _ => .ok
  | restore name entry => exact change intact fun _ => .ok
  | setCell array row column value =>
      exact change intact fun vars => vars.setCell_ordinary array row column value

end Safe

theorem intact_empty : empty.Intact := by
  have compiled : Program.compile "" = .ok .empty := rfl
  exact ⟨Program.compile_paired _ _ compiled, Program.compile_legal _ _ compiled, nofun⟩

theorem Intact.faults {session : Session} (intact : session.Intact) (operations : List Operation) :
    ∀ fault ∈ faults operations session, fault.code ≠ .internalError := by
  induction operations generalizing session with
  | nil => nofun
  | cons operation rest ih =>
      have safe := Safe.operation intact operation
      have kept := safe.intact
      unfold Session.faults
      cases result : operation.action session with
      | ok done after =>
          rw [result] at kept
          exact ih kept
      | error fault after =>
          rw [result] at kept
          intro other member
          rcases List.mem_cons.mp member with rfl | member
          · exact safe.blameless _ after result
          · exact ih kept other member

/-- Whatever is done to a session, and in whatever order, no fault lies with the session itself. -/
theorem operations_never_internal (operations : List Operation) :
    ∀ fault ∈ faults operations empty, fault.code ≠ .internalError :=
  intact_empty.faults operations

/-- Goes from inside one method to the end of another, and assigns to a variable that is none. -/
def strayOperations : List Operation :=
  [.enter "method int f\nclear\nend method\nmethod int g\nend method\ncall f", .execute 3,
    .setPc 4, .execute 1, .update "x" (.int 1), .enter "end for"]

theorem stray_operations_not_internal :
    ∃ fault ∈ faults strayOperations empty, fault.code = .callStackUnderflow ∧
      fault.code ≠ .internalError := by
  have codes : (faults strayOperations empty).map (·.code) =
      [.callStackUnderflow, .unknownIdentifier, .compileError] := by decide +kernel
  have member : ErrorCode.callStackUnderflow ∈ (faults strayOperations empty).map (·.code) := by
    rw [codes]
    decide
  obtain ⟨fault, member, code⟩ := List.mem_map.mp member
  exact ⟨fault, member, code, operations_never_internal strayOperations fault member⟩

end Easel.Session
