import Easel.Proofs.Session.Binding

/-! Calls that fail. An unknown method and arguments that do not fit or have no value are found out
before anything is done. The limits of the table and of the stack are met later, when parameters are
bound already, and what was bound stays. -/

namespace Easel

theorem Stack.full_of_push_error {α : Type} {stack : Stack α} {item : α} {fault : Error}
    (failed : stack.push item = .error fault) : stack.limit ≤ stack.size := by
  by_contra room
  obtain ⟨after, pushed, -⟩ := Stack.push_room (Nat.not_le.mp room) item
  rw [pushed] at failed
  cases failed

namespace Variables

variable {vars : Variables}

theorem size_restore_le (vars : Variables) (name : String) (entry : Entry) :
    (vars.restore name entry).size ≤ vars.size + 1 :=
  Std.ExtTreeMap.size_insert_le

theorem size_bound_le (bindings : List (String × Value)) (vars : Variables) :
    (vars.bound bindings).size ≤ vars.size + bindings.length := by
  induction bindings generalizing vars with
  | nil => exact Nat.le_refl _
  | cons binding bindings ih =>
      have first := vars.size_restore_le binding.1 ⟨binding.2, .local⟩
      have rest := ih (vars.restore binding.1 ⟨binding.2, .local⟩)
      rw [List.length_cons]
      change ((vars.restore binding.1 ⟨binding.2, .local⟩).bound bindings).size ≤ _
      omega

theorem size_ensured_le (vars : Variables) (name : String) (kind : Kind) :
    (vars.ensured name kind).size ≤ vars.size + 1 := by
  unfold ensured
  split
  · exact Nat.le_succ _
  · exact size_restore_le vars name _

theorem size_entered_le (vars : Variables) (signature : Signature)
    (bindings : List (String × Value)) :
    (vars.entered signature bindings).size ≤ vars.size + bindings.length + 1 :=
  Nat.le_trans (size_ensured_le _ _ _) (Nat.succ_le_succ (size_bound_le bindings vars))

theorem add_of_room (room : vars.size < maxSize) (name : String) (value : Value) (scope : Scope) :
    vars.add name value scope = .ok (vars.restore name ⟨value, scope⟩) := by
  rw [add, if_pos room]
  rfl

theorem add_of_full (full : maxSize ≤ vars.size) (name : String) (value : Value) (scope : Scope) :
    vars.add name value scope = .error .tooManyVariables := by
  rw [add, if_neg (Nat.not_lt.mpr full)]

theorem ensure_ends (vars : Variables) (name : String) (kind : Kind) :
    (vars.ensure name kind = .ok (vars.ensured name kind) ∧
      (vars.contains name = true ∨ vars.size < maxSize)) ∨
    vars.ensure name kind = .error .tooManyVariables ∧ maxSize ≤ vars.size := by
  unfold ensure ensured
  split
  · rename_i present
    exact .inl ⟨rfl, .inl present⟩
  · by_cases room : vars.size < maxSize
    · exact .inl ⟨add_of_room room name _ .global, .inr room⟩
    · have full := Nat.not_lt.mp room
      exact .inr ⟨add_of_full full name _ .global, full⟩

theorem enter_of_room {signature : Signature} {arguments : List String}
    {bindings : List (String × Value)}
    (evaluated : vars.bindings signature arguments = .ok bindings)
    (room : vars.size + bindings.length < maxSize) :
    vars.enter signature arguments = .ok (vars.entered signature bindings) := by
  have added : vars.addLocals bindings = .ok (vars.bound bindings) := by
    clear evaluated
    induction bindings generalizing vars with
    | nil => rfl
    | cons binding bindings ih =>
        rw [List.length_cons] at room
        have grown := vars.size_restore_le binding.1 ⟨binding.2, .local⟩
        rw [addLocals, List.foldlM_cons, add_of_room (by omega)]
        exact ih (by omega)
  have ensured : (vars.bound bindings).ensure signature.name signature.returns =
      .ok (vars.entered signature bindings) := by
    have grown := vars.size_bound_le bindings
    rcases (vars.bound bindings).ensure_ends signature.name signature.returns with
      ⟨made, -⟩ | ⟨-, full⟩
    · exact made
    · omega
  unfold enter
  rw [evaluated]
  change (vars.addLocals bindings >>= _) = _
  rw [added]
  exact ensured

/-- The table takes the first `k` of the parameters. -/
def Takes (bindings : List (String × Value)) (k : Nat) (vars : Variables) : Prop :=
  ∀ j < k, (vars.bound (bindings.take j)).size < maxSize

theorem Takes.cons {binding : String × Value} {bindings : List (String × Value)} {k : Nat}
    (room : vars.size < maxSize)
    (takes : (vars.restore binding.1 ⟨binding.2, .local⟩).Takes bindings k) :
    vars.Takes (binding :: bindings) (k + 1) := by
  intro j fewer
  cases j with
  | zero => exact room
  | succ j => exact takes j (Nat.lt_of_succ_lt_succ fewer)

theorem add_eq_error {name : String} {value : Value} {scope : Scope} {fault : Error}
    (failed : vars.add name value scope = .error fault) :
    fault = .tooManyVariables ∧ maxSize ≤ vars.size := by
  by_cases room : vars.size < maxSize
  · cases failed.symm.trans (add_of_room room name value scope)
  · have full := Nat.not_lt.mp room
    cases failed.symm.trans (add_of_full full name value scope)
    exact ⟨rfl, full⟩

theorem room_of_add {after : Variables} {name : String} {value : Value} {scope : Scope}
    (added : vars.add name value scope = .ok after) : vars.size < maxSize := by
  by_contra room
  rw [add_of_full (Nat.not_lt.mp room)] at added
  cases added

section Entering

variable {after : Variables} {signature : Signature} {bindings : List (String × Value)}

/-- Parameters are bound one by one, and it is only the table that can refuse one. -/
theorem breaks_entering {vars : Variables} {fault : Error}
    (breaks : Breaks (signature.edits bindings) vars fault after) :
    fault = .tooManyVariables ∧ ∃ k ≤ bindings.length, after = vars.bound (bindings.take k) ∧
      maxSize ≤ (vars.bound (bindings.take k)).size ∧ vars.Takes bindings k := by
  induction bindings generalizing vars with
  | nil =>
      obtain ⟨failed, rfl⟩ := breaks.singleton
      rcases after.ensure_ends signature.name signature.returns with ⟨made, -⟩ | ⟨made, full⟩
      · cases failed.symm.trans made
      · cases failed.symm.trans made
        exact ⟨rfl, 0, Nat.le_refl 0, rfl, full, nofun⟩
  | cons binding bindings ih =>
      cases breaks with
      | here failed =>
          obtain ⟨same, full⟩ := add_eq_error failed
          exact ⟨same, 0, Nat.zero_le _, rfl, full, nofun⟩
      | later added breaks =>
          rw [add_eq_ok added] at breaks
          obtain ⟨same, k, some, bound, full, takes⟩ := ih breaks
          exact ⟨same, k + 1, Nat.succ_le_succ some, bound, full, takes.cons (room_of_add added)⟩

theorem takes_of_edits {vars : Variables}
    (entered : makeAll (signature.edits bindings) vars = .ok after) :
    vars.Takes bindings bindings.length ∧
      ((vars.bound bindings).contains signature.name = true ∨
        (vars.bound bindings).size < maxSize) := by
  induction bindings generalizing vars with
  | nil =>
      rcases vars.ensure_ends signature.name signature.returns with ⟨-, last⟩ | ⟨made, -⟩
      · exact ⟨nofun, last⟩
      · cases entered.symm.trans (makeAll_singleton.trans made)
  | cons binding bindings ih =>
      obtain ⟨middle, added, entered⟩ := bind_eq_ok.mp entered
      rw [add_eq_ok added] at entered
      obtain ⟨takes, last⟩ := ih entered
      exact ⟨takes.cons (room_of_add added), last⟩

end Entering

theorem bindings_length {signature : Signature} {arguments : List String}
    {bindings : List (String × Value)}
    (evaluated : vars.bindings signature arguments = .ok bindings) :
    bindings.length = arguments.length := by
  have names := congrArg List.length (bindings_names evaluated)
  rw [List.length_map, List.length_map] at names
  exact names.trans (bindings_eq_ok evaluated).1

end Variables

namespace Session

variable {session after stopped : Session} {fault : Error} {name : String} {arguments : List String}

/-- The stack of calls has the limit that the empty session begins with. -/
structure Limited (frames : Stack Frame) : Prop where
  limit : frames.limit = maxCallDepth
  overflow : frames.overflow = Error.callsTooDeep
  depth : frames.size ≤ maxCallDepth

namespace Limited

variable {frames after : Stack Frame} {frame : Frame}

theorem clear (limited : Limited frames) : Limited frames.clear :=
  ⟨limited.limit, limited.overflow, Nat.zero_le _⟩

theorem push (limited : Limited frames) (pushed : frames.push frame = .ok after) :
    Limited after := by
  unfold Stack.push at pushed
  split at pushed
  · rename_i room
    cases pushed
    exact ⟨limited.limit, limited.overflow, limited.limit ▸ room⟩
  · cases pushed

theorem pop (limited : Limited frames) (popped : frames.pop = .ok (frame, after)) :
    Limited after := by
  obtain ⟨limit, overflow, items, size, size_eq⟩ := frames
  cases items with
  | nil => cases popped
  | cons first rest =>
      cases popped
      exact ⟨limited.limit, limited.overflow, Nat.le_trans (Nat.sub_le _ _) limited.depth⟩

end Limited

/-- Why a call fails, and the variables that it leaves. -/
inductive CallFails (session : Session) (name : String) (arguments : List String) :
    Error → Variables → Prop
  | unknown (absent : session.methods.get? name = none) :
      CallFails session name arguments (.unknownMethod name) session.vars
  | refused {method : Method} {fault : Error} (known : session.methods.get? name = some method)
      (refused : session.vars.bindings method.signature arguments = .error fault) :
      CallFails session name arguments fault session.vars
  | full {method : Method} {bindings : List (String × Value)} {k : Nat}
      (known : session.methods.get? name = some method)
      (evaluated : session.vars.bindings method.signature arguments = .ok bindings)
      (some : k ≤ bindings.length)
      (full : Variables.maxSize ≤ (session.vars.bound (bindings.take k)).size)
      (takes : session.vars.Takes bindings k) :
      CallFails session name arguments .tooManyVariables (session.vars.bound (bindings.take k))
  | deep {method : Method} {bindings : List (String × Value)}
      (known : session.methods.get? name = some method)
      (evaluated : session.vars.bindings method.signature arguments = .ok bindings)
      (takes : session.vars.Takes bindings bindings.length)
      (last : (session.vars.bound bindings).contains method.signature.name = true ∨
        (session.vars.bound bindings).size < Variables.maxSize)
      (deep : session.frames.limit ≤ session.frames.size) :
      CallFails session name arguments (.outOfMemory session.frames.overflow)
        (session.vars.entered method.signature bindings)

namespace CallFails

variable {vars : Variables}

/-- Only where a limit is met can there be a parameter bound already, and never in a table that was
full before. -/
theorem vars_eq (fails : CallFails session name arguments fault vars)
    (limited : Limited session.frames) :
    vars = session.vars ∨ session.vars.size < Variables.maxSize ∧ ∃ method bindings,
      session.methods.get? name = some method ∧
      session.vars.bindings method.signature arguments = .ok bindings ∧
      ((fault.message = "TOO MANY VARIABLES" ∧ ∃ k ≤ bindings.length,
          vars = session.vars.bound (bindings.take k) ∧ Variables.maxSize ≤ vars.size) ∨
        fault.message = "CALL STACK OVERFLOW" ∧ session.depth = maxCallDepth ∧
          vars = session.vars.entered method.signature bindings) := by
  cases fails with
  | unknown | refused => exact .inl rfl
  | @full method bindings k known evaluated some full takes =>
      cases k with
      | zero => exact .inl rfl
      | succ k =>
          exact .inr ⟨takes 0 (Nat.succ_pos k), method, bindings, known, evaluated,
            .inl ⟨rfl, k + 1, some, rfl, full⟩⟩
  | @deep method bindings known evaluated takes last deep =>
      by_cases room : session.vars.size < Variables.maxSize
      · have deep : maxCallDepth ≤ session.depth := limited.limit ▸ deep
        exact .inr ⟨room, method, bindings, known, evaluated,
          .inr ⟨limited.overflow, Nat.le_antisymm limited.depth deep, rfl⟩⟩
      · -- Nothing can have been added, so that there was nothing to add.
        obtain rfl : bindings = [] := by
          by_contra filled
          exact room (takes 0 (List.length_pos_iff.mpr filled))
        have present := last.resolve_right room
        exact .inl (if_pos present)

theorem vars_eq_of_room (fails : CallFails session name arguments fault vars)
    (limited : Limited session.frames) (shallow : session.depth < maxCallDepth)
    (room : session.vars.size + arguments.length < Variables.maxSize) : vars = session.vars := by
  rcases fails.vars_eq limited with same | ⟨-, method, bindings, known, evaluated, late⟩
  · exact same
  · rcases late with ⟨-, k, some, bound, full⟩ | ⟨-, deep, -⟩
    · have grown := session.vars.size_bound_le (bindings.take k)
      have count := Variables.bindings_length evaluated
      rw [List.length_take, ← bound] at grown
      omega
    · exact absurd deep (Nat.ne_of_lt shallow)

end CallFails

theorem Fails.callFails (fails : Fails session (.call name arguments) fault stopped) :
    ∃ vars, stopped = { session.past with vars } ∧ CallFails session name arguments fault vars := by
  cases fails with
  | @simple _ act _ _ plain breaks => cases act <;> cases plain
  | asks tests failed | skips tests failed unlinked => cases tests
  | unknown absent => exact ⟨_, rfl, .unknown absent⟩
  | refuses known refused => exact ⟨_, rfl, .refused known refused⟩
  | binds known evaluated breaks =>
      obtain ⟨rfl, k, some, rfl, full, takes⟩ := Variables.breaks_entering breaks
      exact ⟨_, rfl, .full known evaluated some full takes⟩
  | overflows known evaluated entered deep =>
      obtain rfl := Variables.enter_eq_ok evaluated entered
      rw [Variables.enter_eq evaluated] at entered
      obtain ⟨takes, last⟩ := Variables.takes_of_edits entered
      cases Stack.push_error deep
      exact ⟨_, rfl, .deep known evaluated takes last (Stack.full_of_push_error deep)⟩

/-! ### Sessions that a host can reach -/

/-- A host begins with the empty session. Operations may fail on the way. -/
inductive Reachable : Session → Prop
  | empty : Reachable Session.empty
  | after {session : Session} (reached : Reachable session) (operation : Operation) :
      Reachable (left (operation.action session))

/-- What holds of a session whatever a host does to it. -/
structure Orderly (session : Session) : Prop where
  intact : session.Intact
  limited : Limited session.frames

namespace Orderly

theorem next (orderly : session.Orderly) (next : Next session after) : after.Orderly := by
  refine ⟨orderly.intact.next next, ?_⟩
  obtain ⟨statement, -, moves⟩ := next.moves
  cases moves with
  | calls known evaluated entered pushed => exact orderly.limited.push pushed
  | returns linked popped => exact orderly.limited.pop popped
  | _ => exact orderly.limited

theorem crashes (orderly : session.Orderly) (crashes : Crashes session fault after) :
    after.Orderly := by
  refine ⟨(orderly.intact.crashes crashes).1, ?_⟩
  obtain ⟨command, cause, stopped, -, fails, -, rfl⟩ := crashes.fails
  obtain ⟨vars, loops, rfl⟩ := fails.left_eq
  exact orderly.limited

theorem execute (orderly : session.Orderly) (n : Nat) : Leaves Orderly (execute n) session :=
  .execute orderly (fun _ _ held ran => held.next ran) (fun _ _ _ held failed => held.crashes failed)
    n

theorem run (orderly : session.Orderly) (batches : Nat) : Leaves Orderly (run batches) session :=
  .run orderly (fun _ held => held.execute batchSize) batches

theorem start_limited (session : Session) (limited : Limited session.frames) :
    Limited (left (start session)).frames := by
  obtain ⟨vars, same⟩ := left_start session
  rw [same]
  exact limited.clear

theorem enter_limited (limited : Limited session.frames) (source : String) :
    Limited (left (enter source session)).frames := by
  unfold enter
  cases compiled : Program.compile source with
  | error fault => exact limited
  | ok program => exact start_limited { session with program } limited

theorem operation (orderly : session.Orderly) (operation : Operation) :
    (left (operation.action session)).Orderly := by
  refine ⟨(Safe.operation orderly.intact operation).intact, ?_⟩
  have edited (edit : Variables → Except Error Variables) :
      Limited (left (change edit session)).frames := by
    obtain ⟨vars, same⟩ := left_change edit session
    rw [same]
    exact orderly.limited
  have unit {α : Type} (action : Action α) :
      left ((do let _ ← action : Action Unit) session) = left (action session) := by
    rw [bind_apply]
    cases action session <;> rfl
  unfold Operation.action
  cases operation with
  | enter source => exact enter_limited orderly.limited source
  | start => exact start_limited session orderly.limited
  | execute cycles => exact (unit (Session.execute cycles)).symm ▸ (orderly.execute cycles).limited
  | run batches => exact (unit (Session.run batches)).symm ▸ (orderly.run batches).limited
  | interrupt => exact orderly.limited.clear
  | setPc address => exact orderly.limited
  | add | update | delete | restore | setCell => exact edited _

end Orderly

theorem Reachable.orderly (reached : Reachable session) : session.Orderly := by
  induction reached with
  | empty => exact ⟨intact_empty, rfl, rfl, Nat.zero_le _⟩
  | after reached operation orderly => exact orderly.operation operation

/-- A call that fails leaves the variables as they were, unless it meets one of two limits when its
arguments have their values: then the parameters bound so far stay, in place of what they hide. -/
theorem failing_call_rebinds_only_at_limits (session after : Session) (name : String)
    (arguments : List String) (fault : Error) (reached : Reachable session)
    (stands : session.program.statement? session.pc = some (.call name arguments))
    (failed : execute 1 session = .error fault after) :
    (∃ vars, after = { session with vars, pc := session.program.size }) ∧
    (after.vars = session.vars ∨ session.vars.size < Variables.maxSize ∧ ∃ method bindings,
      session.methods.get? name = some method ∧
      session.vars.bindings method.signature arguments = .ok bindings ∧
      ((fault.message = "TOO MANY VARIABLES" ∧ ∃ k ≤ bindings.length,
          after.vars = session.vars.bound (bindings.take k) ∧
            Variables.maxSize ≤ after.vars.size) ∨
        fault.message = "CALL STACK OVERFLOW" ∧ session.depth = maxCallDepth ∧
          after.vars = session.vars.entered method.signature bindings)) ∧
    (session.depth < maxCallDepth →
      session.vars.size + arguments.length < Variables.maxSize → after.vars = session.vars) := by
  obtain ⟨command, cause, stopped, -, -, fails, rfl, rfl⟩ := fails_of_execute_one stands failed
  obtain ⟨vars, rfl, callFails⟩ := fails.callFails
  have limited := reached.orderly.limited
  exact ⟨⟨vars, rfl⟩, callFails.vars_eq limited, callFails.vars_eq_of_room limited⟩

theorem Reachable.execute {n : Nat} {event : Event} (reached : Reachable session)
    (ran : execute n session = .ok event after) : Reachable after := by
  have executed := reached.after (.execute n)
  have same : (Operation.execute n).action session = .ok () after := by
    change (Session.execute n >>= fun _ => pure ()) session = _
    rw [bind_apply, ran]
    rfl
  rw [same] at executed
  exact executed

theorem exists_reachable {source : String} {cycles : Nat} {good : Session → Bool}
    (reached : reaches source cycles good = true) :
    ∃ session, Reachable session ∧ good session = true := by
  unfold reaches at reached
  split at reached
  · cases reached
  · rename_i program compiled
    split at reached
    · cases reached
    · rename_i first started
      split at reached
      · cases reached
      · rename_i event last ran
        have entered := Reachable.empty.after (.enter source)
        have same : (Operation.enter source).action Session.empty = .ok () first := by
          change enter source Session.empty = _
          unfold enter
          rw [compiled]
          exact started
        rw [same] at entered
        exact ⟨last, entered.execute ran, reached⟩

def argumentWithoutValue : String :=
  "int a = 5\nmethod int f int a, int b\nend method\ncall f 1, 1/0"

theorem call_without_value_leaves_variables :
    ∃ session fault after, Reachable session ∧
      session.program.statement? session.pc = some (.call "f" ["1", "1/0"]) ∧
      session.vars.contains "a" = true ∧ execute 1 session = .error fault after ∧
      after.vars = session.vars ∧ after.pc = 4 := by
  have reached : reaches argumentWithoutValue 2 (fun session =>
      session.program.statement? session.pc == some (.call "f" ["1", "1/0"]) &&
      session.vars.contains "a" && (session.faultWithin? 1).isSome && session.depth == 0 &&
      session.vars.size == 1 && session.program.size == 4) = true := by
    decide +kernel
  obtain ⟨session, reached, checked⟩ := exists_reachable reached
  simp only [Bool.and_eq_true, beq_iff_eq] at checked
  obtain ⟨⟨⟨⟨⟨stands, present⟩, failed⟩, depth⟩, count⟩, size⟩ := checked
  obtain ⟨fault, failed⟩ := Option.isSome_iff_exists.mp failed
  have failed := execute_of_faultWithin failed
  obtain ⟨⟨vars, same⟩, -, kept⟩ :=
    failing_call_rebinds_only_at_limits session _ "f" _ fault reached stands failed
  refine ⟨session, fault, session.stateAfter 1, reached, stands, present, failed, ?_, ?_⟩
  · exact kept (by rw [depth]; decide) (by rw [count]; decide)
  · rw [same]
    exact size

/-! ### A call too deep -/

variable {method : Method} {bindings : List (String × Value)}

theorem call_next (session : Session)
    (stands : session.program.statement? session.pc = some (.call name arguments))
    (known : session.methods.get? name = some method)
    (evaluated : session.vars.bindings method.signature arguments = .ok bindings)
    (room : session.vars.size + bindings.length < Variables.maxSize)
    (shallow : session.frames.size < session.frames.limit) :
    ∃ frames, frames.limit = session.frames.limit ∧ frames.size = session.frames.size + 1 ∧
      Next session { session with
        vars := session.vars.entered method.signature bindings, frames,
        pc := method.address + 1 } := by
  obtain ⟨⟨line, statement⟩, found, rfl⟩ := Option.map_eq_some_iff.mp stands
  obtain ⟨frames, pushed, limit, -, size, -⟩ :=
    Stack.push_room shallow (session.past.frameFor method bindings)
  refine ⟨frames, limit, size, ?_⟩
  exact (Moves.calls known evaluated (Variables.enter_of_room evaluated room) pushed).next found

theorem call_crashes (stands : session.program.statement? session.pc = some (.call name arguments))
    (known : session.methods.get? name = some method)
    (evaluated : session.vars.bindings method.signature arguments = .ok bindings)
    (room : session.vars.size + bindings.length < Variables.maxSize)
    (deep : session.frames.limit ≤ session.frames.size) :
    ∃ fault, Crashes session fault { session with
      vars := session.vars.entered method.signature bindings, pc := session.program.size } := by
  obtain ⟨⟨line, statement⟩, found, rfl⟩ := Option.map_eq_some_iff.mp stands
  have full := Stack.push_full deep (session.past.frameFor method bindings)
  have entered := Variables.enter_of_room evaluated room
  exact ⟨_, (Fails.overflows known evaluated entered full).crashes found⟩

/-- Two methods that call each other without end, with different arguments. -/
def mutualCalls : String :=
  "method int f int a\ncall g 2\nend method\nmethod int g int a\ncall f 1\nend method\ncall f 1"

def takesInt (name : String) (address last : Nat) : Method :=
  ⟨⟨name, .int, [⟨"int", "a"⟩]⟩, address, last⟩

/-- The second method stands at its call of the first one. -/
structure Bounces (session : Session) : Prop where
  pc : session.pc = 4
  outer : session.program.statement? 4 = some (.call "f" ["1"])
  inner : session.program.statement? 1 = some (.call "g" ["2"])
  first : session.methods.get? "f" = some (takesInt "f" 0 2)
  second : session.methods.get? "g" = some (takesInt "g" 3 5)
  parameter : session.vars.get? "a" = some ⟨.int 2, .local⟩
  results : session.vars.get? "f" ≠ none ∧ session.vars.get? "g" ≠ none
  few : session.vars.size ≤ 3

namespace Bounces

theorem bindings_one (vars : Variables) (name : String) (address last : Nat) :
    vars.bindings (takesInt name address last).signature ["1"] = .ok [("a", .int 1)] := rfl

theorem bindings_two (vars : Variables) (name : String) (address last : Nat) :
    vars.bindings (takesInt name address last).signature ["2"] = .ok [("a", .int 2)] := rfl

theorem get?_entered (vars : Variables) (name : String) (address last : Nat) (n : Int32)
    (other : String) :
    (vars.entered (takesInt name address last).signature [("a", .int n)]).get? other =
      if "a" = other then some ⟨.int n, .local⟩
      else if other = name ∧ vars.get? other = none then some ⟨.int 0, .global⟩
      else vars.get? other := by
  have bound : (vars.bound [("a", .int n)]).get? other =
      if "a" = other then some ⟨.int n, .local⟩ else vars.get? other :=
    vars.get?_restore "a" other ⟨.int n, .local⟩
  rw [Variables.entered, Variables.get?_ensured, bound]
  by_cases same : "a" = other
  · simp [same]
  · simp only [same, ↓reduceIte]
    rfl

theorem vars_eq (bounces : session.Bounces) :
    (session.vars.entered (takesInt "f" 0 2).signature [("a", .int 1)]).entered
      (takesInt "g" 3 5).signature [("a", .int 2)] = session.vars := by
  have first (name : String) : ¬ (name = "f" ∧ session.vars.get? name = none) := by
    rintro ⟨rfl, absent⟩
    exact bounces.results.1 absent
  have second (name : String) : ¬ (name = "g" ∧ session.vars.get? name = none) := by
    rintro ⟨rfl, absent⟩
    exact bounces.results.2 absent
  refine Variables.ext_get? fun name => ?_
  rw [get?_entered, get?_entered]
  by_cases same : "a" = name
  · rw [if_pos same, ← same, bounces.parameter]
  · rw [if_neg same, if_neg same, if_neg (first name), if_neg (second name)]

theorem round (bounces : session.Bounces)
    (shallow : session.frames.size + 1 < session.frames.limit) :
    ∃ after, Steps 2 session after ∧ after.Bounces ∧ after.frames.limit = session.frames.limit ∧
      after.frames.size = session.frames.size + 2 := by
  have few := bounces.few
  have most : 6 < Variables.maxSize := by decide
  have begins : session.vars.size + 1 < Variables.maxSize := by omega
  obtain ⟨frames, limit, size, first⟩ := call_next session (bounces.pc ▸ bounces.outer)
    bounces.first (bindings_one _ _ _ _) begins (by omega)
  have grown := session.vars.size_entered_le (takesInt "f" 0 2).signature [("a", .int 1)]
  rw [List.length_singleton] at grown
  have goes : (session.vars.entered (takesInt "f" 0 2).signature [("a", .int 1)]).size + 1 <
      Variables.maxSize := by
    omega
  have room : frames.size < frames.limit := by omega
  obtain ⟨frames', limit', size', second⟩ := call_next { session with
      vars := session.vars.entered (takesInt "f" 0 2).signature [("a", .int 1)], frames, pc := 1 }
    bounces.inner bounces.second (bindings_two _ _ _ _) goes room
  dsimp only at second
  rw [bounces.vars_eq] at second
  refine ⟨_, .head first (.one second), ?_, limit'.trans limit, ?_⟩
  · exact ⟨rfl, bounces.outer, bounces.inner, bounces.first, bounces.second, bounces.parameter,
      bounces.results, bounces.few⟩
  · change frames'.size = _
    rw [size', size]

theorem rounds (n : Nat) (bounces : session.Bounces)
    (shallow : session.frames.size + 2 * n ≤ session.frames.limit) :
    ∃ after, Steps (2 * n) session after ∧ after.Bounces ∧
      after.frames.limit = session.frames.limit ∧
      after.frames.size = session.frames.size + 2 * n := by
  induction n generalizing session with
  | zero => exact ⟨session, .refl _, bounces, rfl, rfl⟩
  | succ n ih =>
      obtain ⟨middle, early, bounces, limit, size⟩ := bounces.round (by omega)
      obtain ⟨after, late, bounces, limit', size'⟩ := ih bounces (by omega)
      refine ⟨after, ?_, bounces, limit'.trans limit, by omega⟩
      rw [Nat.mul_succ, Nat.add_comm]
      exact early.trans late

end Bounces

def isLocalInt (session : Session) (name : String) (n : Int32) : Bool :=
  match session.vars.get? name with
  | some ⟨.int m, .local⟩ => m == n
  | _ => false

theorem isLocalInt_iff {n : Int32} : session.isLocalInt name n = true ↔
    session.vars.get? name = some ⟨.int n, .local⟩ := by
  unfold isLocalInt
  split
  · rename_i m found
    simp [found]
  · rename_i other
    constructor
    · nofun
    · intro found
      exact absurd found (other n)

theorem overflowing_call_rebinds_parameter :
    ∃ session fault after, Reachable session ∧
      session.program.statement? session.pc = some (.call "f" ["1"]) ∧
      execute 1 session = .error fault after ∧
      session.vars.get? "a" = some ⟨.int 2, .local⟩ ∧
      after.vars.get? "a" = some ⟨.int 1, .local⟩ ∧ after.vars ≠ session.vars := by
  have reached : reaches mutualCalls 4 (fun session =>
      session.pc == 4 && session.program.statement? 4 == some (.call "f" ["1"]) &&
      session.program.statement? 1 == some (.call "g" ["2"]) &&
      session.methods.get? "f" == some (takesInt "f" 0 2) &&
      session.methods.get? "g" == some (takesInt "g" 3 5) && session.isLocalInt "a" 2 &&
      session.vars.contains "f" && session.vars.contains "g" && session.vars.size == 3 &&
      session.depth == 2) = true := by
    decide +kernel
  obtain ⟨session, reached, checked⟩ := exists_reachable reached
  simp only [Bool.and_eq_true, beq_iff_eq, isLocalInt_iff] at checked
  obtain ⟨⟨⟨⟨⟨⟨⟨⟨⟨pc, outer⟩, inner⟩, first⟩, second⟩, parameter⟩, f⟩, g⟩, few⟩, depth⟩ := checked
  have present {name : String} (inside : session.vars.contains name = true) :
      session.vars.get? name ≠ none := by
    intro absent
    rw [Variables.contains_eq_false.mpr absent] at inside
    cases inside
  have bounces : session.Bounces :=
    ⟨pc, outer, inner, first, second, parameter, ⟨present f, present g⟩, Nat.le_of_eq few⟩
  have limit : session.frames.limit = 4096 := reached.orderly.limited.limit
  have size : session.frames.size = 2 := depth
  obtain ⟨last, steps, bounces, limit', size'⟩ := bounces.rounds 2047 (by omega)
  have reached : Reachable last := by
    by_cases halted : last.Halted
    · exact reached.execute ((execute_steps steps 0).trans (execute_halted halted 0))
    · exact reached.execute ((execute_steps steps 0).trans (execute_zero halted))
  have few := bounces.few
  have room : last.vars.size + 1 < Variables.maxSize := by
    have most : 6 < Variables.maxSize := by decide
    omega
  have stands := bounces.pc ▸ bounces.outer
  obtain ⟨fault, crashes⟩ := call_crashes stands bounces.first (Bounces.bindings_one _ _ _ _) room
    (by omega)
  have bound := Bounces.get?_entered last.vars "f" 0 2 1 "a"
  rw [if_pos rfl] at bound
  refine ⟨last, fault, _, reached, stands, execute_crashes crashes 0, bounces.parameter, bound, ?_⟩
  intro same
  dsimp only at same
  rw [same, bounces.parameter] at bound
  cases bound

end Session

end Easel
