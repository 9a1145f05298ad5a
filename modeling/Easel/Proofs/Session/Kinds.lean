import Easel.Proofs.Session.Changes
import Easel.Proofs.Session.Frames

/-! A variable that no method takes as a parameter and no statement makes an array stays what it is:
it is global, and it keeps the kind that it came into being with. -/

namespace Easel

def Statement.rebinds (name : String) : Statement → Bool
  | method signature => (signature.parameters.map (·.name)).contains name
  | array declaration => declaration.name == name
  | _ => false

/-- No statement makes a parameter or an array of the name. -/
def Program.Plain (program : Program) (name : String) : Prop :=
  ∀ command ∈ program.commands, command.statement.rebinds name = false

theorem Program.Plain.statement {program : Program} {name : String} (plain : program.Plain name)
    {address : Nat} {statement : Statement} (found : program.statement? address = some statement) :
    statement.rebinds name = false := by
  rw [statement?, Option.map_eq_some_iff] at found
  obtain ⟨command, found, rfl⟩ := found
  exact plain command (Array.mem_of_getElem? found)

theorem Value.kind_zero (kind : Kind) : (Value.zero kind).kind = kind := by cases kind <;> rfl

theorem Grid.get_kind (grid : Grid) (row column : Int32) :
    Gives (fun value => value.kind = grid.kind) (grid.get row column) := by
  apply Gives.bind
  intro index
  apply Gives.pure
  unfold Grid.kind
  cases grid.cells <;> rfl

namespace Variables

/-- What may become of a name: an entry keeps its scope and the kind of its value, and a new one is
global and of a kind that fits. -/
structure Evolves (name : String) (fits : Kind → Prop) (before after : Variables) : Prop where
  keeps : ∀ entry, before.get? name = some entry → ∃ later, after.get? name = some later ∧
    later.scope = entry.scope ∧ later.value.kind = entry.value.kind
  begins : before.get? name = none → ∀ later, after.get? name = some later →
    later.scope = .global ∧ fits later.value.kind

variable {name : String} {fits : Kind → Prop} {before after : Variables}

theorem Evolves.of_same (same : after.get? name = before.get? name) :
    Evolves name fits before after := by
  constructor
  · intro entry found
    exact ⟨entry, same.trans found, rfl, rfl⟩
  · intro absent later found
    rw [same, absent] at found
    cases found

theorem Evolves.trans {middle : Variables} (early : Evolves name fits before middle)
    (late : Evolves name fits middle after) : Evolves name fits before after := by
  constructor
  · intro entry found
    obtain ⟨second, found, scope, kind⟩ := early.keeps entry found
    obtain ⟨third, found, scope', kind'⟩ := late.keeps second found
    exact ⟨third, found, scope'.trans scope, kind'.trans kind⟩
  · intro absent later found
    cases reached : middle.get? name with
    | none => exact late.begins reached later found
    | some second =>
        obtain ⟨scope, kind⟩ := early.begins absent second reached
        obtain ⟨third, same, scope', kind'⟩ := late.keeps second reached
        cases found.symm.trans same
        exact ⟨scope'.trans scope, kind' ▸ kind⟩

section Edits

variable {edits : List (Variables → Except Error Variables)}

theorem Evolves.makeAll (each : ∀ edit ∈ edits, ∀ vars, Gives (Evolves name fits vars) (edit vars)) :
    Gives (Evolves name fits before) (makeAll edits before) :=
  Gives.makeAll (fun edit member middle early vars edited =>
    early.trans (each edit member middle vars edited)) (.of_same rfl)

theorem Evolves.breaks {fault : Error} (breaks : Breaks edits before fault after)
    (each : ∀ edit ∈ edits, ∀ vars, Gives (Evolves name fits vars) (edit vars)) :
    Evolves name fits before after :=
  breaks.holds (fun edit member middle early vars edited =>
    early.trans (each edit member middle vars edited)) (.of_same rfl)

end Edits

/-! ### Changes of the variables -/

theorem add_other_evolves (vars : Variables) {target : String} (other : target ≠ name)
    (value : Value) (scope : Scope) :
    Gives (Evolves name fits vars) (vars.add target value scope) := by
  intro after added
  apply Evolves.of_same
  rw [get?_add added, if_neg other]

theorem add_global_evolves (vars : Variables) {target : String} {value : Value}
    (absent : vars.get? target = none) (fit : target = name → fits value.kind) :
    Gives (Evolves name fits vars) (vars.add target value .global) := by
  by_cases same : target = name
  · intro after added
    have found := get?_add added name
    rw [if_pos same] at found
    subst same
    constructor
    · intro entry present
      rw [absent] at present
      cases present
    · intro _ later present
      cases found.symm.trans present
      exact ⟨rfl, fit rfl⟩
  · exact add_other_evolves vars same value .global

theorem update_evolves (vars : Variables) (target : String) (value : Value) :
    Gives (Evolves name fits vars) (vars.update target value) := by
  intro after updated
  obtain ⟨entry, stored, found, coerced, restored⟩ := update_eq_ok updated
  have kind := Grid.kind_of_coerce coerced
  have lookup := get?_restore vars target name { entry with value := stored }
  rw [restored] at lookup
  by_cases same : target = name
  · subst same
    rw [if_pos rfl] at lookup
    constructor
    · intro old present
      cases found.symm.trans present
      exact ⟨_, lookup, rfl, kind⟩
    · intro absent
      rw [found] at absent
      cases absent
  · rw [if_neg same] at lookup
    exact .of_same lookup

theorem assign_evolves (vars : Variables) {target : String} {value : Value}
    (fit : target = name → fits value.kind) :
    Gives (Evolves name fits vars) (vars.assign target value) := by
  unfold assign
  split
  · exact update_evolves vars target value
  · rename_i absent
    exact add_global_evolves vars (contains_eq_false.mp (Bool.eq_false_iff.mpr absent)) fit

theorem ensure_evolves (vars : Variables) {target : String} {kind : Kind}
    (fit : target = name → fits kind) :
    Gives (Evolves name fits vars) (vars.ensure target kind) := by
  unfold ensure
  split
  · exact .ok (.of_same rfl)
  · rename_i absent
    apply add_global_evolves vars (contains_eq_false.mp (Bool.eq_false_iff.mpr absent))
    rw [Value.kind_zero]
    exact fit

theorem makeArray_evolves (vars : Variables) {declaration : ArrayDeclaration}
    (other : declaration.name ≠ name) :
    Gives (Evolves name fits vars) (vars.makeArray declaration) := by
  refine .bind fun rows => ?_
  extract_lets scope finish
  have each (columns : Int32) : Gives (Evolves name fits vars) (finish columns) :=
    .bind fun grid => add_other_evolves vars other (.array grid) scope
  split
  · exact .bind each
  · exact .bind each

theorem putCell_evolves (vars : Variables) (array : String) (index : Nat) (value : Value) :
    Evolves name fits vars (vars.putCell array index value) := by
  unfold putCell
  by_cases same : array = name
  · subst same
    constructor
    · intro entry found
      rw [get?_modify, if_pos rfl, found]
      refine ⟨_, rfl, ?_⟩
      obtain ⟨value, scope⟩ := entry
      cases value <;> exact ⟨rfl, rfl⟩
    · intro absent later found
      rw [get?_modify, if_pos rfl, absent] at found
      cases found
  · apply Evolves.of_same
    rw [get?_modify, if_neg same]

theorem peek_evolves (vars : Variables) {cell : Peek}
    (fit : ∀ grid, vars.grid cell.array = .ok grid → cell.target = name → fits grid.kind) :
    Gives (Evolves name fits vars) (vars.peek cell) := by
  refine .bind fun row => .bind fun column => ?_
  refine .andThen (Gives.itself _) fun grid found => ?_
  refine .andThen (grid.get_kind row column) fun value kind => ?_
  apply assign_evolves
  intro same
  rw [kind]
  exact fit grid found same

theorem evaluate_kind (vars : Variables) (kind : Kind) (expression : String) :
    Gives (fun value => value.kind = kind) (vars.evaluate kind expression) := by
  have mapped {α : Type} {make : α → Value} (result : Except Error α)
      (made : ∀ a, (make a).kind = kind) :
      Gives (fun value => value.kind = kind) (make <$> result) := by
    cases result with
    | ok a => exact .ok (made a)
    | error fault => exact .error
  cases kind with
  | int => exact mapped _ fun _ => rfl
  | real => exact mapped _ fun _ => rfl
  | boolean => exact mapped _ fun _ => rfl
  | array => exact .error

theorem seeded_get? (seeds : List (String × Value)) :
    Gives (fun vars => ∀ name entry, vars.get? name = some entry →
      entry.scope = .global ∧ (name, entry.value) ∈ seeds) (seeded seeds) := by
  -- Every seed that is still to be added is one of all the seeds.
  suffices added : ∀ list ⊆ seeds, ∀ vars : Variables,
      (∀ name entry, vars.get? name = some entry →
        entry.scope = .global ∧ (name, entry.value) ∈ seeds) →
      Gives (fun vars => ∀ name entry, vars.get? name = some entry →
        entry.scope = .global ∧ (name, entry.value) ∈ seeds)
        (list.foldlM (fun vars seed => vars.add seed.1 seed.2 .global) vars) by
    apply added seeds (List.Subset.refl seeds) empty
    intro name entry found
    cases found
  intro list
  induction list with
  | nil => exact fun _ vars holds => .ok holds
  | cons seed list ih =>
      intro listed vars holds
      rw [List.foldlM_cons]
      refine .andThen (Gives.itself _) fun middle added => ?_
      apply ih (List.subset_of_cons_subset listed)
      intro name entry found
      rw [get?_add added] at found
      by_cases same : seed.1 = name
      · rw [if_pos same] at found
        cases found
        subst same
        exact ⟨rfl, listed List.mem_cons_self⟩
      · rw [if_neg same] at found
        exact holds name entry found

end Variables

namespace Session

/-- How a statement can bring a variable into being, and the kind that it has then: as a variable
that is declared, as the counter of a loop, as the target of a peek, or as the name of a method. -/
inductive Introduces (session : Session) (name : String) : Statement → Kind → Prop
  | declared {declaration : Declaration}
      (named : declaration.name = name ∨ name ∈ declaration.extra) :
      Introduces session name (.declare declaration) declaration.kind
  | counts {header : ForHeader} (named : header.counter = name) :
      Introduces session name (.forNext header) .int
  | countsOn {opener : Nat} {header : ForHeader}
      (linked : session.program.openers[session.pc]? = some opener)
      (opens : session.program.statement? opener = some (.forNext header))
      (named : header.counter = name) : Introduces session name (.endOf .forBlock) .int
  | peeked {cell : Peek} {grid : Grid} (named : cell.target = name)
      (found : session.vars.grid cell.array = .ok grid) :
      Introduces session name (.peek cell) grid.kind
  | called {method : String} {arguments : List String} {target : Method}
      (known : session.methods.get? method = some target) (named : target.signature.name = name) :
      Introduces session name (.call method arguments) target.signature.returns

def Untouched (name : String) (frames : List Frame) : Prop :=
  ∀ frame ∈ frames, name ∉ frame.locals ∧ name ∉ frame.shadowed.map (·.1)

variable {name : String} {session after : Session}

theorem get?_unbindLocals {frame : Frame} (vars : Variables) (unbound : name ∉ frame.locals)
    (shadowed : name ∉ frame.shadowed.map (·.1)) :
    (unbindLocals frame vars).get? name = vars.get? name := by
  unfold unbindLocals
  generalize frame.shadowed = saved at shadowed
  induction saved with
  | nil =>
      change (frame.locals.foldl Variables.erase vars).get? name = _
      rw [Variables.get?_erases, if_neg unbound]
  | cons binding saved ih =>
      rw [List.map_cons, List.mem_cons, not_or] at shadowed
      rw [List.foldr_cons, Variables.get?_restore, if_neg (Ne.symm shadowed.1)]
      exact ih shadowed.2

/-! ### What each statement does to a name -/

variable {fits : Kind → Prop} {statement : Statement}

theorem declare_evolves (declaration : Declaration)
    (fit : declaration.name = name ∨ name ∈ declaration.extra → fits declaration.kind) :
    ∀ edit ∈ declaration.edits, ∀ vars, Gives (Variables.Evolves name fits vars) (edit vars) := by
  apply Declaration.forall_edits
  · intro extra listed vars
    exact vars.ensure_evolves fun same => fit (.inr (same ▸ listed))
  · intro vars
    refine .andThen (vars.evaluate_kind _ _) fun value kind => ?_
    exact vars.assign_evolves fun same => kind ▸ fit (.inl same)

theorem simple_evolves (act : Simple) (other : act.statement.rebinds name = false) :
    Gives (Variables.Evolves name (Introduces session name act.statement) session.vars)
      (makeAll act.edits session.vars) := by
  cases act with
  | declare declaration => exact Variables.Evolves.makeAll (declare_evolves declaration .declared)
  | array declaration =>
      rw [Simple.edits, makeAll_singleton]
      exact Variables.makeArray_evolves _ (ne_of_beq_false other)
  | poke cell =>
      rw [Simple.edits, makeAll_singleton]
      exact .bind fun place => .pure (Variables.putCell_evolves _ _ _ _)
  | peek cell =>
      rw [Simple.edits, makeAll_singleton]
      exact Variables.peek_evolves _ fun grid found same => .peeked same found
  | draw drawing arguments =>
      rw [Simple.edits, makeAll_singleton]
      exact .bind fun _ => .pure (.of_same rfl)
  | write expression =>
      rw [Simple.edits, makeAll_singleton]
      exact .bind fun _ => .pure (.of_same rfl)

theorem simple_breaks_evolves {act : Simple} {fault : Error} {vars : Variables}
    (breaks : Breaks act.edits session.vars fault vars) :
    Variables.Evolves name (Introduces session name act.statement) session.vars vars := by
  cases act with
  | declare declaration => exact .breaks breaks (declare_evolves declaration .declared)
  | array | poke | peek | draw | write => exact .of_same (by rw [breaks.singleton.2])

theorem Sound.no_parameter (sound : session.Sound) (plain : session.program.Plain name)
    {key : String} {method : Method} (known : session.methods.get? key = some method) :
    name ∉ method.signature.parameters.map (·.name) := by
  have declared := (sound.registered key method known).statement
  have other := plain.statement declared
  intro member
  rw [Statement.rebinds, List.contains_iff_mem.mpr member] at other
  cases other

theorem call_evolves (sound : session.Sound) (plain : session.program.Plain name) {key : String}
    {arguments : List String} {method : Method} {bindings : List (String × Value)}
    (known : session.methods.get? key = some method)
    (evaluated : session.vars.bindings method.signature arguments = .ok bindings) :
    ∀ edit ∈ method.signature.edits bindings, ∀ vars,
      Gives (Variables.Evolves name (Introduces session name (.call key arguments)) vars)
        (edit vars) := by
  have other := sound.no_parameter plain known
  rw [← Variables.bindings_names evaluated] at other
  apply Signature.forall_edits
  · intro binding listed vars
    refine vars.add_other_evolves ?_ _ _
    rintro rfl
    exact other (List.mem_map_of_mem listed)
  · intro vars
    exact vars.ensure_evolves (.called known)

theorem enter_evolves (sound : session.Sound) (plain : session.program.Plain name) {key : String}
    {arguments : List String} {method : Method} (known : session.methods.get? key = some method) :
    Gives (Variables.Evolves name (Introduces session name (.call key arguments)) session.vars)
      (session.vars.enter method.signature arguments) := by
  intro vars entered
  obtain ⟨bindings, evaluated, -⟩ := bind_eq_ok.mp entered
  rw [Variables.enter_eq evaluated] at entered
  exact Variables.Evolves.makeAll (call_evolves sound plain known evaluated) vars entered

theorem Moves.evolves (moves : Moves session statement after) (sound : session.Sound)
    (plain : session.program.Plain name) (untouched : Untouched name session.frames.items)
    (found : session.program.statement? session.pc = some statement) :
    Variables.Evolves name (Introduces session name statement) session.vars after.vars := by
  cases moves with
  | @simple statement act closures scene same effect =>
      subst same
      exact simple_evolves act (plain.statement found) _ (Simple.makeAll_of_effect effect)
  | begins bounds running assigned => exact Variables.assign_evolves _ .counts _ assigned
  | repeats linked opens stored advanced assigned =>
      exact Variables.assign_evolves _ (.countsOn linked opens) _ assigned
  | calls known evaluated entered pushed => exact enter_evolves sound plain known _ entered
  | @returns frame frames linked popped =>
      obtain ⟨locals, shadowed⟩ := untouched frame
        (Stack.pop_ok _ _ _ popped ▸ List.mem_cons_self)
      exact .of_same (get?_unbindLocals session.vars locals shadowed)
  | _ => exact .of_same rfl

theorem Fails.evolves {fault : Error} (fails : Fails session statement fault after)
    (sound : session.Sound) (plain : session.program.Plain name) :
    Variables.Evolves name (Introduces session name statement) session.vars after.vars := by
  cases fails with
  | simple same breaks =>
      subst same
      exact simple_breaks_evolves breaks
  | binds known evaluated breaks => exact .breaks breaks (call_evolves sound plain known evaluated)
  | overflows known evaluated entered full => exact enter_evolves sound plain known _ entered
  | _ => exact .of_same rfl

/-! ### Runs -/

theorem Untouched.next (untouched : Untouched name session.frames.items) (sound : session.Sound)
    (plain : session.program.Plain name) (next : Next session after) :
    Untouched name after.frames.items := by
  obtain ⟨statement, -, moves⟩ := next.moves
  cases moves with
  | simple | enters | skips | leaves | begins | passes | declares | ends | tests | repeats
  | finishes | falls => exact untouched
  | @calls key arguments method bindings vars frames known evaluated entered pushed =>
      have other := sound.no_parameter plain known
      rw [frameFor_eq session.past (sound.distinct key method known) evaluated] at pushed
      intro frame member
      rw [Stack.push_ok _ _ _ pushed] at member
      rcases List.mem_cons.mp member with rfl | member
      · refine ⟨other, ?_⟩
        intro saved
        obtain ⟨binding, listed, rfl⟩ := List.mem_map.mp saved
        obtain ⟨parameter, named, entry⟩ := List.mem_filterMap.mp listed
        obtain ⟨old, -, rfl⟩ := Option.map_eq_some_iff.mp entry
        exact other named
      · exact untouched frame member
  | @returns frame frames linked popped =>
      rw [Stack.pop_ok _ _ _ popped] at untouched
      exact fun other member => untouched other (List.mem_cons_of_mem _ member)

variable {source : String} {first : Session}

theorem untouched_of_steps (compiled : Program.compile source = .ok session.program)
    (started : start session = .ok () first) (plain : session.program.Plain name) {n : Nat}
    (steps : Steps n first after) :
    after.Sound ∧ after.program = session.program ∧ Untouched name after.frames.items := by
  have sound := sound_start compiled started
  have idle : Untouched name first.frames.items := by
    obtain ⟨vars, rfl⟩ := start_fresh started
    nofun
  refine steps.keeps (fun reached => reached.Sound ∧ reached.program = session.program ∧
    Untouched name reached.frames.items) ⟨sound, start_program started, idle⟩ ?_
  intro before after holds next
  obtain ⟨sound, program, untouched⟩ := holds
  obtain ⟨sound', same⟩ := sound.steps (.one next)
  exact ⟨sound', same.trans program, untouched.next sound (program ▸ plain) next⟩

theorem stateAfter_evolves (compiled : Program.compile source = .ok session.program)
    (started : start session = .ok () first) (plain : session.program.Plain name) (n : Nat) :
    first.stateAfter (n + 1) = first.stateAfter n ∨
      ∃ statement, session.program.statement? (first.stateAfter n).pc = some statement ∧
        Variables.Evolves name (Introduces (first.stateAfter n) name statement)
          (first.stateAfter n).vars (first.stateAfter (n + 1)).vars := by
  rcases stateAfter_succ first n with same | ⟨⟨k, steps⟩, moved⟩
  · exact .inl same
  · right
    obtain ⟨sound, program, untouched⟩ := untouched_of_steps compiled started plain steps
    rcases moved with next | ⟨fault, crashes⟩
    · obtain ⟨statement, found, moves⟩ := next.moves
      exact ⟨statement, program ▸ found, moves.evolves sound (program ▸ plain) untouched found⟩
    · obtain ⟨command, cause, stopped, found, fails, -, same⟩ := crashes.fails
      refine ⟨command.statement, program ▸ Program.statement?_of_command found, ?_⟩
      rw [← same]
      exact fails.evolves sound (program ▸ plain)

theorem kind_kept (compiled : Program.compile source = .ok session.program)
    (started : start session = .ok () first) (plain : session.program.Plain name) {n : Nat}
    {entry : Entry} (found : (first.stateAfter n).vars.get? name = some entry) (more : Nat) :
    ∃ later, (first.stateAfter (n + more)).vars.get? name = some later ∧
      later.scope = entry.scope ∧ later.value.kind = entry.value.kind := by
  induction more with
  | zero => exact ⟨entry, found, rfl, rfl⟩
  | succ more ih =>
      obtain ⟨middle, found, scope, kind⟩ := ih
      rcases stateAfter_evolves compiled started plain (n + more) with same | ⟨_, -, evolves⟩
      · rw [← Nat.add_assoc, same]
        exact ⟨middle, found, scope, kind⟩
      · obtain ⟨later, found, scope', kind'⟩ := evolves.keeps middle found
        exact ⟨later, found, scope'.trans scope, kind'.trans kind⟩

theorem origin_of_entry (compiled : Program.compile source = .ok session.program)
    (started : start session = .ok () first) (plain : session.program.Plain name) {n : Nat}
    {entry : Entry} (found : (first.stateAfter n).vars.get? name = some entry) :
    entry.scope = .global ∧
      ((∃ value, (name, value) ∈ session.program.seeds ∧ value.kind = entry.value.kind) ∨
        ∃ k statement, k < n ∧ (first.stateAfter k).vars.get? name = none ∧
          session.program.statement? (first.stateAfter k).pc = some statement ∧
          Introduces (first.stateAfter k) name statement entry.value.kind) := by
  induction n generalizing entry with
  | zero =>
      obtain ⟨vars, seeded, rfl⟩ := start_seeded started
      obtain ⟨scope, seed⟩ := Variables.seeded_get? _ vars seeded name entry found
      exact ⟨scope, .inl ⟨entry.value, Array.mem_toList_iff.mp seed, rfl⟩⟩
  | succ n ih =>
      cases before : (first.stateAfter n).vars.get? name with
      | some old =>
          obtain ⟨later, found', scope, kind⟩ := kind_kept compiled started plain before 1
          cases found.symm.trans found'
          obtain ⟨scope', origin⟩ := ih before
          rw [kind]
          refine ⟨scope.trans scope', origin.imp_right ?_⟩
          rintro ⟨k, statement, earlier, absent, stands, introduces⟩
          exact ⟨k, statement, by omega, absent, stands, introduces⟩
      | none =>
          rcases stateAfter_evolves compiled started plain n with
            same | ⟨statement, stands, evolves⟩
          · rw [same, before] at found
            cases found
          · obtain ⟨scope, introduces⟩ := evolves.begins before entry found
            exact ⟨scope, .inr ⟨n, statement, Nat.lt_succ_self n, before, stands, introduces⟩⟩

/-- A variable whose name is neither a parameter of a method nor an array of the program is global
from the moment it exists, and exists in all states that follow, also in the one that a fault
leaves, always with the kind that its seed or the statement that brought it into being gave it. -/
theorem globals_keep_kind (source : String) (session first : Session) (name : String)
    (compiled : Program.compile source = .ok session.program)
    (started : start session = .ok () first) (plain : session.program.Plain name)
    (n : Nat) (entry : Entry) (found : (first.stateAfter n).vars.get? name = some entry) :
    entry.scope = .global ∧
      (∀ more, ∃ later, (first.stateAfter (n + more)).vars.get? name = some later ∧
        later.scope = .global ∧ later.value.kind = entry.value.kind) ∧
      ((∃ value, (name, value) ∈ session.program.seeds ∧ value.kind = entry.value.kind) ∨
        ∃ k statement, k < n ∧ (first.stateAfter k).vars.get? name = none ∧
          session.program.statement? (first.stateAfter k).pc = some statement ∧
          Introduces (first.stateAfter k) name statement entry.value.kind) := by
  obtain ⟨scope, origin⟩ := origin_of_entry compiled started plain found
  refine ⟨scope, ?_, origin⟩
  intro more
  obtain ⟨later, found, scope', kind⟩ := kind_kept compiled started plain found more
  exact ⟨later, found, scope'.trans scope, kind⟩

def kindOf? (session : Session) (name : String) : Option Kind :=
  (session.vars.get? name).map (·.value.kind)

/-- The counter `i` comes into being in a call and outlives it. The run ends with a call of a method
that is not there. -/
def counterInCall : String :=
  "int x = 1\nmethod int f int p\nboolean x = true\nfor i = 1 to 2\nend for\nend method\n" ++
    "call f 3\ncall g"

theorem counter_keeps_kind_until_fault :
    ∃ session first entry fault, Program.compile counterInCall = .ok session.program ∧
      start session = .ok () first ∧ session.program.Plain "i" ∧
      (first.stateAfter 4).vars.get? "i" = none ∧ (first.stateAfter 5).depth = 1 ∧
      (first.stateAfter 5).vars.get? "i" = some entry ∧ entry.value.kind = .int ∧
      execute 9 first = .error fault (first.stateAfter 9) ∧
      ∃ later, (first.stateAfter 9).vars.get? "i" = some later ∧ later.scope = .global ∧
        later.value.kind = .int := by
  have reached : reaches counterInCall 0 (fun first =>
      first.program.commands.all (!·.statement.rebinds "i") &&
      (first.stateAfter 4).kindOf? "i" == none && (first.stateAfter 5).depth == 1 &&
      (first.stateAfter 5).kindOf? "i" == some .int && (first.faultWithin? 9).isSome) = true := by
    decide +kernel
  obtain ⟨session, first, event, last, compiled, started, ran, checked⟩ := exists_of_reaches reached
  cases ran
  simp only [Bool.and_eq_true, beq_iff_eq, Array.all_eq_true', Bool.not_eq_true'] at checked
  obtain ⟨⟨⟨⟨plain, absent⟩, deep⟩, kind⟩, failed⟩ := checked
  rw [start_program started] at plain
  obtain ⟨entry, found, kind⟩ := Option.map_eq_some_iff.mp kind
  obtain ⟨fault, failed⟩ := Option.isSome_iff_exists.mp failed
  obtain ⟨-, later, -⟩ := globals_keep_kind counterInCall session first "i" compiled started
    plain 5 entry found
  exact ⟨session, first, entry, fault, compiled, started, plain,
    Option.map_eq_none_iff.mp absent, deep, found, kind, execute_of_faultWithin failed,
    kind ▸ later 4⟩

end Session

end Easel
