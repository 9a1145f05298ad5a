import Easel.Proofs.Session.Failures

/-! Entering a method. All arguments have their values in the variables of the caller, whatever
their order and whichever parameters take the place of the names that they mention, and the frame
keeps just the entries that the parameters hide. -/

namespace Easel

theorem exists_of_mapM {α β : Type} {each : α → Except Error β} {list : List α}
    {answers : List β} (found : list.mapM each = .ok answers) {a : α} (member : a ∈ list) :
    ∃ b ∈ answers, each a = .ok b := by
  induction list generalizing answers with
  | nil => cases member
  | cons head tail ih =>
      rw [List.mapM_cons] at found
      obtain ⟨first, answered, found⟩ := bind_eq_ok.mp found
      obtain ⟨rest, others, found⟩ := bind_eq_ok.mp found
      cases found
      rcases List.mem_cons.mp member with rfl | member
      · exact ⟨first, List.mem_cons_self, answered⟩
      · obtain ⟨b, listed, answered⟩ := ih others member
        exact ⟨b, List.mem_cons_of_mem first listed, answered⟩

theorem map_eq_ok {α β : Type} {f : α → β} {first : Except Error α} {b : β} :
    f <$> first = .ok b ↔ ∃ a, first = .ok a ∧ f a = b := by
  cases first <;> simp [Functor.map, Except.map]

namespace Variables

/-- An argument passes the value that its expression has by the rules of the parameter's kind, but a
boolean as an integer. -/
inductive Passes (vars : Variables) (parameter : Parameter) (expression : String) : Value → Prop
  | int {n : Int32} (kind : Kind.ofKeyword? parameter.kind = some .int)
      (evaluated : Expression.int vars expression.toList = .ok n) :
      Passes vars parameter expression (.int n)
  | real {x : Float} (kind : Kind.ofKeyword? parameter.kind = some .real)
      (evaluated : Expression.real vars expression.toList = .ok x) :
      Passes vars parameter expression (.real x)
  | boolean {b : Bool} (kind : Kind.ofKeyword? parameter.kind = some .boolean)
      (evaluated : Expression.boolean vars expression.toList = .ok b) :
      Passes vars parameter expression (.int (if b then 1 else 0))

variable {vars after : Variables}

theorem passes_of_argument {parameter : Parameter} {expression : String} {value : Value}
    (passed : vars.argument parameter expression = .ok value) :
    vars.Passes parameter expression value := by
  unfold argument at passed
  split at passed
  · rename_i kind
    obtain ⟨n, evaluated, rfl⟩ := map_eq_ok.mp passed
    exact .int kind evaluated
  · rename_i kind
    obtain ⟨x, evaluated, rfl⟩ := map_eq_ok.mp passed
    exact .real kind evaluated
  · rename_i kind
    obtain ⟨b, evaluated, passed⟩ := bind_eq_ok.mp passed
    cases passed
    exact .boolean kind evaluated
  · cases passed

theorem bindings_eq_ok {signature : Signature} {arguments : List String}
    {bindings : List (String × Value)}
    (evaluated : vars.bindings signature arguments = .ok bindings) :
    signature.parameters.length = arguments.length ∧
      ∀ pair ∈ signature.parameters.zip arguments, ∃ value, (pair.1.name, value) ∈ bindings ∧
        vars.Passes pair.1 pair.2 value := by
  unfold Variables.bindings at evaluated
  split at evaluated
  · rename_i fits
    refine ⟨fits, fun pair member => ?_⟩
    obtain ⟨binding, listed, paired⟩ := exists_of_mapM evaluated member
    obtain ⟨value, passed, same⟩ := bind_eq_ok.mp paired
    cases same
    exact ⟨value, listed, passes_of_argument passed⟩
  · cases evaluated

/-! ### Parameters -/

def bound (bindings : List (String × Value)) (vars : Variables) : Variables :=
  bindings.foldl (fun vars binding => vars.restore binding.1 ⟨binding.2, .local⟩) vars

theorem get?_bound_other {bindings : List (String × Value)} {name : String}
    (other : name ∉ bindings.map (·.1)) : (vars.bound bindings).get? name = vars.get? name := by
  induction bindings generalizing vars with
  | nil => rfl
  | cons binding bindings ih =>
      rw [List.map_cons, List.mem_cons, not_or] at other
      change ((vars.restore binding.1 _).bound bindings).get? name = _
      rw [ih other.2, get?_restore, if_neg (Ne.symm other.1)]

theorem get?_bound {bindings : List (String × Value)} (distinct : (bindings.map (·.1)).Nodup)
    {binding : String × Value} (member : binding ∈ bindings) :
    (vars.bound bindings).get? binding.1 = some ⟨binding.2, .local⟩ := by
  induction bindings generalizing vars with
  | nil => cases member
  | cons first bindings ih =>
      rw [List.map_cons, List.nodup_cons] at distinct
      change ((vars.restore first.1 _).bound bindings).get? binding.1 = _
      rcases List.mem_cons.mp member with rfl | member
      · rw [get?_bound_other distinct.1, get?_restore, if_pos rfl]
      · exact ih distinct.2 member

theorem addLocals_eq_ok {bindings : List (String × Value)}
    (added : vars.addLocals bindings = .ok after) : after = vars.bound bindings := by
  induction bindings generalizing vars with
  | nil =>
      cases added
      rfl
  | cons binding bindings ih =>
      rw [addLocals, List.foldlM_cons] at added
      obtain ⟨middle, first, added⟩ := bind_eq_ok.mp added
      rw [add_eq_ok first] at added
      exact ih added

/-! ### The variable of the method -/

/-- The variables with one for the result of a method, if there was none of its name. -/
def ensured (name : String) (kind : Kind) (vars : Variables) : Variables :=
  if vars.contains name then vars else vars.restore name ⟨.zero kind, .global⟩

theorem get?_ensured (vars : Variables) (name other : String) (kind : Kind) :
    (vars.ensured name kind).get? other =
      if other = name ∧ vars.get? other = none then some ⟨.zero kind, .global⟩
      else vars.get? other := by
  unfold ensured
  split
  · rename_i present
    rw [if_neg]
    rintro ⟨rfl, absent⟩
    rw [contains_eq_false.mpr absent] at present
    cases present
  · rename_i absent
    rw [get?_restore]
    by_cases same : name = other
    · subst same
      rw [if_pos rfl, if_pos ⟨rfl, contains_eq_false.mp (Bool.eq_false_iff.mpr absent)⟩]
    · rw [if_neg same, if_neg fun both => same both.1.symm]

theorem ensure_eq_ok {name : String} {kind : Kind} (made : vars.ensure name kind = .ok after) :
    after = vars.ensured name kind := by
  unfold ensure at made
  unfold ensured
  split at made
  · rename_i present
    rw [if_pos present]
    exact (Except.ok.inj made).symm
  · rename_i absent
    rw [if_neg absent]
    exact add_eq_ok made

/-- The variables as the body of a method finds them. -/
def entered (signature : Signature) (bindings : List (String × Value)) (vars : Variables) :
    Variables :=
  (vars.bound bindings).ensured signature.name signature.returns

theorem enter_eq_ok {signature : Signature} {arguments : List String}
    {bindings : List (String × Value)}
    (evaluated : vars.bindings signature arguments = .ok bindings)
    (made : vars.enter signature arguments = .ok after) :
    after = vars.entered signature bindings := by
  rw [enter_eq evaluated, signature.makeAll_edits] at made
  obtain ⟨middle, added, made⟩ := bind_eq_ok.mp made
  rw [addLocals_eq_ok added] at made
  exact ensure_eq_ok made

theorem get?_entered {signature : Signature} {arguments : List String}
    {bindings : List (String × Value)}
    (evaluated : vars.bindings signature arguments = .ok bindings)
    (distinct : (signature.parameters.map (·.name)).Nodup) :
    (∀ pair ∈ signature.parameters.zip arguments, ∃ value, vars.Passes pair.1 pair.2 value ∧
      (vars.entered signature bindings).get? pair.1.name = some ⟨value, .local⟩) ∧
    ∀ other ∉ signature.parameters.map (·.name),
      (vars.entered signature bindings).get? other =
        if other = signature.name ∧ vars.get? other = none then
          some ⟨.zero signature.returns, .global⟩
        else vars.get? other := by
  have names := bindings_names evaluated
  constructor
  · intro pair member
    obtain ⟨value, listed, passed⟩ := (bindings_eq_ok evaluated).2 pair member
    have found : (vars.bound bindings).get? pair.1.name = some ⟨value, .local⟩ :=
      get?_bound (names ▸ distinct) listed
    refine ⟨value, passed, ?_⟩
    rw [entered, get?_ensured, found, if_neg (by simp)]
  · intro other outside
    rw [entered, get?_ensured, get?_bound_other (names ▸ outside)]

theorem mem_entries {names : List String} {name : String} {entry : Entry} :
    (name, entry) ∈ vars.entries names ↔ name ∈ names ∧ vars.get? name = some entry := by
  unfold entries
  rw [List.mem_filterMap]
  constructor
  · rintro ⟨other, member, found⟩
    obtain ⟨entry, found, same⟩ := Option.map_eq_some_iff.mp found
    cases same
    exact ⟨member, found⟩
  · rintro ⟨member, found⟩
    exact ⟨name, member, by rw [found]; rfl⟩

theorem entries_sublist (names : List String) :
    ((vars.entries names).map (·.1)).Sublist names := by
  induction names with
  | nil => exact .slnil
  | cons name names ih =>
      unfold entries at ih ⊢
      cases found : vars.get? name with
      | none =>
          rw [List.filterMap_cons_none (by rw [found]; rfl)]
          exact ih.cons name
      | some entry =>
          rw [List.filterMap_cons_some (by rw [found]; rfl)]
          exact ih.cons_cons name

end Variables

theorem Program.Declares.distinct {source : String} {program : Program} {method : Method}
    (declared : program.Declares method) (compiled : Program.compile source = .ok program) :
    (method.signature.parameters.map (·.name)).Nodup := by
  obtain ⟨command, found, same⟩ := Option.map_eq_some_iff.mp declared.statement
  have legal := Program.compile_legal source _ compiled command (Array.mem_of_getElem? found)
  rw [same] at legal
  exact legal

namespace Session

variable {session after : Session}

theorem next_of_execute_one {statement : Statement} {event : Event}
    (stands : session.program.statement? session.pc = some statement)
    (ran : execute 1 session = .ok event after) : Next session after := by
  rcases halted_or_next_or_crashes session with halted | ⟨middle, next⟩ | ⟨fault, stopped, crashes⟩
  · rw [Program.statement?, halted_iff.mp halted] at stands
    cases stands
  · rw [execute_next next] at ran
    obtain ⟨k, bound, steps, -⟩ := steps_of_execute ran
    obtain rfl : k = 0 := by omega
    cases steps
    exact next
  · rw [execute_crashes crashes] at ran
    cases ran

/-- A call that succeeds binds all parameters at once. Each has the value that its argument had in
the variables of the caller, and besides them only the name of the method may be new. The frame
keeps the entries that the parameters hide, and the address behind the call. -/
theorem call_binds_parameters_at_once (source : String) (session after : Session) (name : String)
    (arguments : List String) (method : Method) (event : Event)
    (compiled : Program.compile source = .ok session.program)
    (stands : session.program.statement? session.pc = some (.call name arguments))
    (known : session.methods.get? name = some method)
    (declared : session.program.Declares method)
    (ran : execute 1 session = .ok event after) :
    method.signature.parameters.length = arguments.length ∧
    (∀ pair ∈ method.signature.parameters.zip arguments, ∃ value,
      session.vars.Passes pair.1 pair.2 value ∧
        after.vars.get? pair.1.name = some ⟨value, .local⟩) ∧
    (∀ other ∉ method.signature.parameters.map (·.name), after.vars.get? other =
      if other = method.signature.name ∧ session.vars.get? other = none then
        some ⟨.zero method.signature.returns, .global⟩
      else session.vars.get? other) ∧
    (∃ frame, after.frames.items = frame :: session.frames.items ∧ frame.method = method ∧
      frame.returnTo = session.pc + 1 ∧
      frame.locals = method.signature.parameters.map (·.name) ∧
      (frame.shadowed.map (·.1)).Sublist frame.locals ∧
      ∀ parameter entry, (parameter, entry) ∈ frame.shadowed ↔
        parameter ∈ frame.locals ∧ session.vars.get? parameter = some entry) ∧
    after.pc = method.address + 1 ∧ after.program = session.program ∧
    after.methods = session.methods ∧ after.loops = session.loops ∧
    after.strokes = session.strokes := by
  obtain ⟨statement, found, moves⟩ := (next_of_execute_one stands ran).moves
  cases stands.symm.trans found
  obtain ⟨_, bindings, vars, frames, known', evaluated, entered, pushed, rfl⟩ := moves.of_call
  cases known.symm.trans known'
  have distinct := declared.distinct compiled
  rw [frameFor_eq session.past distinct evaluated] at pushed
  obtain rfl := Variables.enter_eq_ok evaluated entered
  obtain ⟨passed, others⟩ := Variables.get?_entered evaluated distinct
  refine ⟨(Variables.bindings_eq_ok evaluated).1, passed, others, ?_, rfl, rfl, rfl, rfl, rfl⟩
  refine ⟨_, Stack.push_ok _ _ _ pushed, rfl, rfl, rfl, Variables.entries_sublist _, ?_⟩
  intro parameter entry
  exact Variables.mem_entries

theorem execute_of_no_fault {n : Nat} (fine : session.faultWithin? n = none) :
    ∃ event, execute n session = .ok event (session.stateAfter n) := by
  unfold faultWithin? at fine
  unfold stateAfter
  cases ran : execute n session with
  | ok event after => exact ⟨event, rfl⟩
  | error fault after =>
      rw [ran] at fine
      cases fine

def textOf? (session : Session) (name : String) : Option String :=
  (session.vars.get? name).map (·.value.text)

/-- The arguments are the caller's variables of the parameters' names, in another order. -/
def swappingCall : String :=
  "int a = 1\nreal b = 2.5\nmethod int f real a, int b, boolean c\nend method\n" ++
    "call f b, a, a<b"

theorem call_binds_swapped_variables :
    ∃ session after method event, Program.compile swappingCall = .ok session.program ∧
      session.program.statement? session.pc = some (.call "f" ["b", "a", "a<b"]) ∧
      session.methods.get? "f" = some method ∧ session.program.Declares method ∧
      execute 1 session = .ok event after ∧
      method.signature.parameters = [⟨"real", "a"⟩, ⟨"int", "b"⟩, ⟨"boolean", "c"⟩] ∧
      session.textOf? "a" = some "1" ∧ session.textOf? "b" = some "2.5" ∧
      after.textOf? "a" = some "2.5" ∧ after.textOf? "b" = some "1" ∧
      after.textOf? "c" = some "1" ∧
      (∃ value, session.vars.Passes ⟨"boolean", "c"⟩ "a<b" value ∧
        after.vars.get? "c" = some ⟨value, .local⟩) ∧
      ∃ frame, after.frames.items = frame :: session.frames.items ∧
        ∀ parameter entry, (parameter, entry) ∈ frame.shadowed ↔
          parameter ∈ ["a", "b", "c"] ∧ session.vars.get? parameter = some entry := by
  have reached : reaches swappingCall 3 (fun session =>
      session.program.statement? session.pc == some (.call "f" ["b", "a", "a<b"]) &&
      (session.methods.get? "f").map (·.signature.parameters) ==
        some [⟨"real", "a"⟩, ⟨"int", "b"⟩, ⟨"boolean", "c"⟩] &&
      session.textOf? "a" == some "1" && session.textOf? "b" == some "2.5" &&
      (session.faultWithin? 1).isNone && (session.stateAfter 1).textOf? "a" == some "2.5" &&
      (session.stateAfter 1).textOf? "b" == some "1" &&
      (session.stateAfter 1).textOf? "c" == some "1") = true := by
    decide +kernel
  obtain ⟨blank, first, event, session, compiled, started, ran, checked⟩ :=
    exists_of_reaches reached
  simp only [Bool.and_eq_true, beq_iff_eq] at checked
  obtain ⟨⟨⟨⟨⟨⟨⟨stands, known⟩, a⟩, b⟩, fine⟩, a'⟩, b'⟩, c'⟩ := checked
  obtain ⟨method, known, parameters⟩ := Option.map_eq_some_iff.mp known
  obtain ⟨k, -, steps, -⟩ := steps_of_execute ran
  obtain ⟨sound, program⟩ := (sound_start compiled started).steps steps
  rw [← program.trans (start_program started)] at compiled
  obtain ⟨event, ran⟩ := execute_of_no_fault (Option.isNone_iff_eq_none.mp fine)
  have declared := sound.registered "f" method known
  obtain ⟨-, passed, -, ⟨frame, pushed, -, -, locals, -, shadowed⟩, -⟩ :=
    call_binds_parameters_at_once swappingCall session _ "f" _ method event compiled stands known
      declared ran
  rw [parameters] at passed locals
  refine ⟨session, session.stateAfter 1, method, event, compiled, stands, known, declared, ran,
    parameters, a, b, a', b', c', passed (⟨"boolean", "c"⟩, "a<b") (by decide), frame, pushed, ?_⟩
  rw [locals] at shadowed
  exact shadowed

end Session

end Easel
