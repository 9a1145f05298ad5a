import Mathlib.Algebra.Group.Nat.Defs
import Easel.Proofs.Session.CallFailures
import Easel.Proofs.Session.Cells
import Easel.Proofs.Session.Scopes
import Easel.Proofs.Session.Seeds
import Easel.Proofs.Session.Termination

/-! The limits that a session keeps, whatever programs a host enters, runs, stops and starts again:
on the number of variables, on the size of arrays, on the calls under way, and on the loops that
have a counter.

Only a return puts entries into the table without asking for room. It does not need any, because
the parameters of the call are still there to be taken out first (`Settled`), and that holds of every
session that has a statement left to run. -/

namespace Easel

/-! ### Arrays -/

/-- The grid has a size that a program can ask for. -/
structure Grid.Fits (grid : Grid) : Prop where
  cells : grid.rows * grid.columns ≤ maxCells
  columns : 1 ≤ grid.columns

def Value.Fits (value : Value) : Prop := ∀ grid, value = .array grid → grid.Fits

theorem Grid.dimension_fits (kind : Kind) (rows columns : Int32) :
    Gives Fits (dimension kind rows columns) := by
  unfold dimension
  extract_lets rows columns
  split
  · rename_i small
    have least : 1 ≤ columns := Nat.le_max_right _ _
    apply Gives.ok
    unfold zero
    split <;> exact ⟨small, least⟩
  · exact .error

theorem Grid.Fits.put {grid : Grid} (fits : grid.Fits) (index : Nat) (value : Value) :
    (grid.put index value).Fits := by
  constructor
  · rw [rows_put, columns_put]
    exact fits.cells
  · rw [columns_put]
    exact fits.columns

namespace Value

theorem fits_of_kind {value : Value} (other : value.kind ≠ .array) : value.Fits := by
  rintro grid rfl
  exact absurd rfl other

theorem int_fits (n : Int32) : (int n).Fits := fits_of_kind (by simp [kind])

theorem zero_fits (kind : Kind) : (zero kind).Fits := by
  cases kind with
  | int | real | boolean => exact fits_of_kind (by decide)
  | array =>
      rintro grid ⟨⟩
      exact ⟨by decide, by decide⟩

theorem Fits.coerce {value : Value} (fits : value.Fits) (kind : Kind) :
    Gives Fits (value.coerce kind) := by
  intro stored coerced
  rintro grid rfl
  have same : value = .array grid := by
    cases Grid.kind_of_coerce coerced
    cases value <;> cases coerced
    rfl
  exact fits grid same

end Value

theorem Literal.fits {kind : Kind} {s : List Char} {value : Value} (literal : Literal kind s value) :
    value.Fits := by
  cases literal <;> exact Value.fits_of_kind (by simp [Value.kind])

theorem Program.compile_fits {source : String} {program : Program}
    (compiled : compile source = .ok program) : ∀ seed ∈ program.seeds.toList, seed.2.Fits := by
  obtain ⟨origins, -, seeds⟩ := compile_seeds compiled
  rw [seeds]
  intro seed member
  obtain ⟨origin, -, rfl⟩ := List.mem_map.mp member
  rcases seed_begins origin.2 with literal | ⟨-, zero⟩
  · exact literal.fits
  · rw [zero]
    exact Value.zero_fits origin.2.kind

/-! ### Tables -/

namespace Variables

/-- The table is no larger than it may be, and neither are the arrays in it. -/
structure Modest (vars : Variables) : Prop where
  size : vars.size ≤ maxSize
  values : ∀ name entry, vars.get? name = some entry → entry.value.Fits

variable {vars after : Variables} {name : String} {value : Value}

theorem modest_empty : empty.Modest := by
  refine ⟨by decide, ?_⟩
  intro name entry found
  cases found

theorem size_restore (name : String) (entry : Entry) :
    (vars.restore name entry).size = if vars.contains name then vars.size else vars.size + 1 :=
  Std.ExtTreeMap.size_insert

theorem size_erase (name : String) :
    (vars.erase name).size = if vars.contains name then vars.size - 1 else vars.size :=
  Std.ExtTreeMap.size_erase

theorem size_pos_of_contains (vars : Variables) (inside : vars.contains name = true) :
    0 < vars.size := by
  apply Nat.pos_of_ne_zero
  intro empty
  exact Std.ExtTreeMap.ne_empty_of_mem inside (Std.ExtTreeMap.eq_empty_iff_size_eq_zero.mpr empty)

namespace Modest

theorem values_restore (modest : vars.Modest) {entry : Entry} (fits : entry.value.Fits) :
    ∀ other found, (vars.restore name entry).get? other = some found → found.value.Fits := by
  intro other found present
  rw [get?_restore] at present
  split at present
  · cases present
    exact fits
  · exact modest.values other found present

theorem add (modest : vars.Modest) (fits : value.Fits) (name : String) (scope : Scope) :
    Gives Modest (vars.add name value scope) := by
  intro after added
  by_cases room : vars.size < maxSize
  · rw [add_of_room room] at added
    cases added
    have grown := size_restore_le vars name ⟨value, scope⟩
    exact ⟨by omega, modest.values_restore fits⟩
  · rw [add_of_full (Nat.not_lt.mp room)] at added
    cases added

theorem update (modest : vars.Modest) (fits : value.Fits) (name : String) :
    Gives Modest (vars.update name value) := by
  intro after updated
  obtain ⟨entry, stored, found, coerced, rfl⟩ := update_eq_ok updated
  have present : vars.contains name = true := by
    rw [← Bool.not_eq_false, contains_eq_false, found]
    simp
  refine ⟨?_, modest.values_restore (fits.coerce entry.value.kind stored coerced)⟩
  rw [size_restore, if_pos present]
  exact modest.size

theorem assign (modest : vars.Modest) (fits : value.Fits) (name : String) :
    Gives Modest (vars.assign name value) := by
  unfold Variables.assign
  split
  · exact modest.update fits name
  · exact modest.add fits name .global

theorem ensure (modest : vars.Modest) (name : String) (kind : Kind) :
    Gives Modest (vars.ensure name kind) := by
  unfold Variables.ensure
  split
  · exact .ok modest
  · exact modest.add (Value.zero_fits kind) name .global

theorem makeArray (modest : vars.Modest) (declaration : ArrayDeclaration) :
    Gives Modest (vars.makeArray declaration) := by
  refine .bind fun rows => ?_
  extract_lets scope finish
  have each (columns : Int32) : Gives Modest (finish columns) := by
    refine .andThen (Grid.dimension_fits declaration.kind rows columns) fun grid fits => ?_
    refine modest.add ?_ declaration.name scope
    rintro _ ⟨⟩
    exact fits
  split
  · exact .bind each
  · exact .bind each

theorem putCell (modest : vars.Modest) (array : String) (index : Nat) (value : Value) :
    (vars.putCell array index value).Modest := by
  refine ⟨size_putCell vars array index value ▸ modest.size, ?_⟩
  intro name entry found
  unfold Variables.putCell at found
  rw [get?_modify] at found
  split at found
  · obtain ⟨old, present, rfl⟩ := Option.map_eq_some_iff.mp found
    have fits := modest.values array old present
    split
    · rename_i grid scope
      rintro _ ⟨⟩
      exact (fits grid rfl).put index value
    · exact fits
  · exact modest.values name entry found

theorem peek (modest : vars.Modest) (cell : Peek) : Gives Modest (vars.peek cell) := by
  refine .bind fun row => .bind fun column => .bind fun grid => ?_
  refine .andThen (grid.get_kind row column) fun value kind => ?_
  refine modest.assign (Value.fits_of_kind ?_) cell.target
  rw [kind]
  unfold Grid.kind
  split <;> decide

end Modest

theorem evaluate_fits (vars : Variables) (kind : Kind) (expression : String) :
    Gives Value.Fits (vars.evaluate kind expression) := by
  intro value evaluated
  apply Value.fits_of_kind
  rw [evaluate_kind vars kind expression value evaluated]
  rintro rfl
  cases evaluated

theorem argument_fits (vars : Variables) (parameter : Parameter) (expression : String) :
    Gives Value.Fits (vars.argument parameter expression) := by
  intro value passed
  cases passes_of_argument passed <;> exact Value.fits_of_kind (by simp [Value.kind])

theorem bindings_fits (vars : Variables) (signature : Signature) (arguments : List String) :
    Gives (fun bindings => ∀ binding ∈ bindings, binding.2.Fits)
      (vars.bindings signature arguments) := by
  unfold bindings
  split
  · refine Gives.mapM ?_ _
    rintro ⟨parameter, expression⟩
    exact .andThen (vars.argument_fits parameter expression) fun value fits => .pure fits
  · exact .error

end Variables

theorem Simple.edits_modest (act : Simple) :
    ∀ edit ∈ act.edits, ∀ vars, vars.Modest → Gives Variables.Modest (edit vars) := by
  cases act with
  | declare declaration =>
      refine Declaration.forall_edits (fun name _ _ modest => modest.ensure name _) ?_
      intro vars modest
      exact .andThen (vars.evaluate_fits _ _) fun value fits => modest.assign fits declaration.name
  | array declaration =>
      exact List.forall_mem_singleton.mpr fun vars modest => modest.makeArray declaration
  | poke cell =>
      refine List.forall_mem_singleton.mpr fun vars modest => .bind fun place => .pure ?_
      exact modest.putCell cell.array place.1 place.2
  | peek cell => exact List.forall_mem_singleton.mpr fun vars modest => modest.peek cell
  | draw | write =>
      exact List.forall_mem_singleton.mpr fun vars modest => .bind fun _ => .pure modest

theorem Signature.edits_modest (signature : Signature) {bindings : List (String × Value)}
    (fits : ∀ binding ∈ bindings, binding.2.Fits) :
    ∀ edit ∈ signature.edits bindings, ∀ vars, vars.Modest →
      Gives Variables.Modest (edit vars) :=
  forall_edits (fun binding listed _ modest => modest.add (fits binding listed) binding.1 .local)
    fun _ modest => modest.ensure signature.name signature.returns

theorem Variables.Modest.enter {vars : Variables} (modest : vars.Modest) (signature : Signature)
    (arguments : List String) : Gives Modest (vars.enter signature arguments) := by
  intro after entered
  obtain ⟨bindings, evaluated, -⟩ := bind_eq_ok.mp entered
  have fits := vars.bindings_fits signature arguments bindings evaluated
  rw [enter_eq evaluated] at entered
  exact Gives.makeAll (signature.edits_modest fits) modest after entered

/-! ### Returns -/

/-- The frame has a parameter of its own for each entry that it puts back. -/
structure Frame.Covers (frame : Frame) : Prop where
  distinct : frame.locals.Nodup
  fewer : frame.shadowed.length ≤ frame.locals.length

namespace Session

variable {session after : Session}

theorem size_erases {vars : Variables} {names : List String} (distinct : names.Nodup)
    (present : ∀ name ∈ names, vars.get? name ≠ none) :
    (names.foldl Variables.erase vars).size + names.length = vars.size := by
  induction names generalizing vars with
  | nil => rfl
  | cons name names ih =>
      obtain ⟨once, distinct⟩ := List.nodup_cons.mp distinct
      obtain ⟨first, present⟩ := List.forall_mem_cons.mp present
      have others : ∀ other ∈ names, (vars.erase name).get? other ≠ none := by
        intro other member
        have different : name ≠ other := fun same => once (same ▸ member)
        rw [Variables.get?_erase, if_neg different]
        exact present other member
      have rest := ih distinct others
      have inside : vars.contains name = true := by
        rw [← Bool.not_eq_false, Variables.contains_eq_false]
        exact first
      have removed := vars.size_erase name
      have filled := vars.size_pos_of_contains inside
      rw [if_pos inside] at removed
      rw [List.foldl_cons, List.length_cons]
      omega

theorem size_unbindLocals_le {frame : Frame} (covers : frame.Covers) {vars : Variables}
    (present : ∀ name ∈ frame.locals, vars.get? name ≠ none) :
    (unbindLocals frame vars).size ≤ vars.size := by
  have erased := size_erases covers.distinct present
  have restored : (unbindLocals frame vars).size ≤
      (frame.locals.foldl Variables.erase vars).size + frame.shadowed.length := by
    unfold unbindLocals
    induction frame.shadowed with
    | nil => exact Nat.le_refl _
    | cons binding saved ih =>
        exact Nat.le_trans (Variables.size_restore_le _ _ _) (Nat.succ_le_succ ih)
  have fewer := covers.fewer
  omega

theorem values_unbindLocals {frame : Frame} {vars : Variables} (modest : vars.Modest)
    (displaced : ∀ saved ∈ frame.shadowed, saved.2.value.Fits) :
    ∀ name entry, (unbindLocals frame vars).get? name = some entry → entry.value.Fits := by
  intro name entry found
  unfold unbindLocals at found
  generalize frame.shadowed = bindings at displaced found
  induction bindings with
  | nil =>
      change (frame.locals.foldl Variables.erase vars).get? name = _ at found
      rw [Variables.get?_erases] at found
      split at found
      · cases found
      · exact modest.values name entry found
  | cons binding bindings ih =>
      obtain ⟨first, displaced⟩ := List.forall_mem_cons.mp displaced
      rw [List.foldr_cons, Variables.get?_restore] at found
      split at found
      · cases found
        exact first
      · exact ih displaced found

/-- The parameters of the calls under way are in the table, for the returns to take out. -/
structure Settled (session : Session) : Prop where
  locals : session.vars.HasLocals session.frames.items
  covers : ∀ frame ∈ session.frames.items, frame.Covers

structure Idle (session : Session) : Prop where
  frames : session.frames.items = []
  globals : ∀ name, ¬ session.vars.IsLocal name

namespace Settled

theorem of_idle (idle : session.Idle) : session.Settled := by
  constructor
  · rw [idle.frames]
    exact idle.globals
  · rw [idle.frames]
    simp

theorem moves {statement : Statement} (settled : session.Settled)
    (distinct : Distinct session.methods) (moves : Moves session statement after) :
    after.Settled := by
  refine ⟨moves.locals distinct settled.locals, ?_⟩
  cases moves with
  | @calls name arguments method bindings vars frames known evaluated entered pushed =>
      rw [frameFor_eq session.past (distinct name method known) evaluated] at pushed
      intro frame member
      dsimp only at member
      rw [Stack.push_ok _ _ _ pushed] at member
      rcases List.mem_cons.mp member with rfl | member
      · have fewer := (session.vars.entries_sublist
          (method.signature.parameters.map (·.name))).length_le
        rw [List.length_map] at fewer
        exact ⟨distinct name method known, fewer⟩
      · exact settled.covers frame member
  | returns linked popped =>
      intro frame member
      apply settled.covers
      rw [Stack.pop_ok _ _ _ popped]
      exact List.mem_cons_of_mem _ member
  | _ => exact settled.covers

end Settled

theorem unbindLocals_modest (settled : session.Settled) (modest : session.vars.Modest)
    {frame : Frame} {rest : List Frame} (active : session.frames.items = frame :: rest)
    (displaced : ∀ saved ∈ frame.shadowed, saved.2.value.Fits) :
    (unbindLocals frame session.vars).Modest := by
  have covers : frame.Covers := settled.covers frame (active ▸ List.mem_cons_self)
  have present : ∀ name ∈ frame.locals, session.vars.get? name ≠ none := by
    intro name bound absent
    refine Variables.not_isLocal_of_absent absent ?_
    rw [settled.locals.isLocal_iff, active]
    exact ⟨frame, List.mem_cons_self, bound⟩
  exact ⟨Nat.le_trans (size_unbindLocals_le covers present) modest.size,
    values_unbindLocals modest displaced⟩

/-! ### Statements -/

/-- The tables of the session keep to what they may hold, and so do the values that its calls have
displaced and the seeds of its program. -/
structure Bounded (session : Session) : Prop where
  vars : session.vars.Modest
  displaced : ∀ frame ∈ session.frames.items, ∀ saved ∈ frame.shadowed, saved.2.value.Fits
  loops : ∀ address counter, session.loops[address]? = some counter →
    (∃ header, session.program.statement? address = some (.forNext header)) ∧ counter.step ≠ 0
  seeds : ∀ seed ∈ session.program.seeds.toList, seed.2.Fits

namespace Bounded

variable {address : Nat} {counter : Counter}

theorem goTo (bounded : session.Bounded) (address : Nat) :
    Bounded { session with pc := address } :=
  ⟨bounded.vars, bounded.displaced, bounded.loops, bounded.seeds⟩

theorem edit (bounded : session.Bounded) {vars : Variables} (modest : vars.Modest) :
    Bounded { session with vars } :=
  ⟨modest, bounded.displaced, bounded.loops, bounded.seeds⟩

theorem count (bounded : session.Bounded)
    (opens : ∃ header, session.program.statement? address = some (.forNext header))
    (moves : counter.step ≠ 0) :
    Bounded { session with loops := session.loops.insert address counter } := by
  refine ⟨bounded.vars, bounded.displaced, ?_, bounded.seeds⟩
  intro other found stored
  dsimp only at stored
  rw [Std.ExtTreeMap.getElem?_insert] at stored
  split at stored
  · rename_i same
    cases stored
    rw [← Std.LawfulEqCmp.eq_of_compare same]
    exact ⟨opens, moves⟩
  · exact bounded.loops other found stored

theorem step_next (bounded : session.Bounded) {next : Counter}
    (stored : session.loops[address]? = some counter)
    (advanced : counter.next?.filter (·.isRunning) = some next) : next.step ≠ 0 := by
  have moving := (bounded.loops address counter stored).2
  exact (Counter.remaining_lt moving advanced).1 ▸ moving

theorem forget (bounded : session.Bounded) (address : Nat) :
    Bounded { session with loops := session.loops.erase address } := by
  refine ⟨bounded.vars, bounded.displaced, ?_, bounded.seeds⟩
  intro other found stored
  dsimp only at stored
  rw [Std.ExtTreeMap.getElem?_erase] at stored
  split at stored
  · cases stored
  · exact bounded.loops other found stored

theorem moves (bounded : session.Bounded) (settled : session.Settled)
    (distinct : Distinct session.methods) {statement : Statement}
    (stands : session.program.statement? session.pc = some statement)
    (moves : Moves session statement after) : after.Bounded := by
  cases moves with
  | @simple statement act closures scene plain effect =>
      have modest := Gives.makeAll act.edits_modest bounded.vars _ (Simple.makeAll_of_effect effect)
      exact ⟨modest, bounded.displaced, bounded.loops, bounded.seeds⟩
  | begins bounds running assigned =>
      have modest := bounded.vars.assign (Value.int_fits _) _ _ assigned
      exact ((bounded.edit modest).count ⟨_, stands⟩ (Variables.step_of_counter bounds)).goTo _
  | passes => exact (bounded.forget session.pc).goTo _
  | @calls name arguments method bindings vars frames known evaluated entered pushed =>
      have modest := bounded.vars.enter method.signature arguments vars entered
      rw [frameFor_eq session.past (distinct name method known) evaluated] at pushed
      refine ⟨modest, ?_, bounded.loops, bounded.seeds⟩
      intro frame member
      rw [Stack.push_ok _ _ _ pushed] at member
      rcases List.mem_cons.mp member with rfl | member
      · rintro ⟨parameter, entry⟩ saved
        exact bounded.vars.values parameter entry (Variables.mem_entries.mp saved).2
      · exact bounded.displaced frame member
  | @repeats opener header counter next vars linked opens stored advanced assigned =>
      have modest := bounded.vars.assign (Value.int_fits _) _ _ assigned
      have moving := bounded.step_next stored advanced
      exact ((bounded.edit modest).count ⟨header, opens⟩ moving).goTo _
  | finishes linked opens ended => exact (bounded.forget _).goTo _
  | returns linked popped =>
      have items := Stack.pop_ok _ _ _ popped
      have displaced := bounded.displaced
      rw [items, List.forall_mem_cons] at displaced
      have modest := unbindLocals_modest settled bounded.vars items displaced.1
      exact ⟨modest, displaced.2, bounded.loops, bounded.seeds⟩
  | _ => exact ⟨bounded.vars, bounded.displaced, bounded.loops, bounded.seeds⟩

theorem fails (bounded : session.Bounded) {statement : Statement} {fault : Error}
    (fails : Fails session statement fault after) : after.Bounded := by
  cases fails with
  | simple plain breaks =>
      exact (bounded.edit (breaks.holds (Simple.edits_modest _) bounded.vars)).goTo _
  | passes => exact (bounded.forget session.pc).goTo _
  | @binds name arguments method bindings fault vars known evaluated breaks =>
      have fits := session.vars.bindings_fits _ _ bindings evaluated
      have modest := breaks.holds (method.signature.edits_modest fits) bounded.vars
      exact (bounded.edit modest).goTo _
  | overflows known evaluated entered full =>
      exact (bounded.edit (bounded.vars.enter _ _ _ entered)).goTo _
  | @repeats opener header counter next fault linked opens stored advanced failed =>
      exact (bounded.count ⟨header, opens⟩ (bounded.step_next stored advanced)).goTo _
  | _ => exact bounded.goTo _

end Bounded

theorem start_bounded (seeds : ∀ seed ∈ session.program.seeds.toList, seed.2.Fits) :
    Leaves (fun after => after.Bounded ∧ after.Idle) start session := by
  have fresh : session.fresh.Bounded ∧ session.fresh.Idle := by
    refine ⟨⟨Variables.modest_empty, ?_, ?_, seeds⟩, rfl, ?_⟩
    · intro frame member
      cases member
    · intro address counter stored
      cases stored
    · intro name
      exact Variables.not_isLocal_of_absent rfl
  have seeded : Leaves (fun after => after.Bounded ∧ after.Idle) (session.program.seeds.toList.forM
      fun seed => change (·.add seed.1 seed.2 .global)) session.fresh := by
    refine .forM _ fresh fun seed member middle held => ?_
    obtain ⟨bounded, idle⟩ := held
    refine .change ⟨bounded, idle⟩ fun vars added => ?_
    have modest := bounded.vars.add (seeds seed member) seed.1 .global vars added
    have globals := Variables.add_global_isLocal idle.globals seed.1 seed.2 vars added
    exact ⟨bounded.edit modest, idle.frames, globals⟩
  unfold Leaves at seeded ⊢
  rw [start_eq]
  exact seeded

/-! ### Sessions -/

/-- What holds of a session that only its programs change. Where a call fails, its parameters can be
in the table without a frame, but then no statement is left to run. -/
structure Steady (session : Session) : Prop where
  orderly : session.Orderly
  bounded : session.Bounded
  settled : session.Halted ∨ session.Settled

namespace Steady

theorem next (steady : session.Steady) (next : Next session after) : after.Steady := by
  have settled := steady.settled.resolve_left next.not_halted
  have distinct := steady.orderly.intact.distinct
  have orderly := steady.orderly.next next
  obtain ⟨statement, stands, moves⟩ := next.moves
  exact ⟨orderly, steady.bounded.moves settled distinct stands moves,
    .inr (settled.moves distinct moves)⟩

theorem crashes {fault : Error} (steady : session.Steady)
    (crashes : Crashes session fault after) : after.Steady := by
  have orderly := steady.orderly.crashes crashes
  obtain ⟨command, cause, stopped, found, fails, -, rfl⟩ := crashes.fails
  exact ⟨orderly, (steady.bounded.fails fails).goTo _, .inl (Nat.le_refl _)⟩

theorem execute (steady : session.Steady) (n : Nat) : Leaves Steady (execute n) session :=
  .execute steady (fun _ _ held ran => held.next ran) (fun _ _ _ held failed => held.crashes failed)
    n

theorem run (steady : session.Steady) (batches : Nat) : Leaves Steady (run batches) session :=
  .run steady (fun _ held => held.execute batchSize) batches

theorem start (steady : session.Steady) : Leaves Steady start session := by
  obtain ⟨bounded, idle⟩ := start_bounded steady.bounded.seeds
  exact ⟨steady.orderly.operation .start, bounded, .inr (.of_idle idle)⟩

theorem enter (steady : session.Steady) (source : String) : Leaves Steady (enter source) session := by
  have orderly := steady.orderly.operation (.enter source)
  change (left (Session.enter source session)).Orderly at orderly
  unfold Leaves
  unfold Session.enter at orderly ⊢
  cases compiled : Program.compile source with
  | error fault => exact steady
  | ok program =>
      rw [compiled] at orderly
      have started : Leaves _ Session.start { session with program } :=
        start_bounded (Program.compile_fits compiled)
      exact ⟨orderly, started.1, .inr (.of_idle started.2)⟩

theorem interrupt (steady : session.Steady) : session.interrupt.Steady := by
  refine ⟨steady.orderly.operation .interrupt, ⟨steady.bounded.vars, ?_, ?_, steady.bounded.seeds⟩,
    .inl (Nat.le_refl _)⟩
  · intro frame member
    cases member
  · intro address counter stored
    cases stored

theorem empty : Session.empty.Steady := by
  refine ⟨Reachable.empty.orderly, ⟨Variables.modest_empty, ?_, ?_, ?_⟩, .inl (Nat.le_refl _)⟩
  · intro frame member
    cases member
  · intro address counter stored
    cases stored
  · intro seed member
    cases member

end Steady

/-- Whether the operation leaves the variables and the address to the program. -/
def Operation.drives : Operation → Bool
  | enter _ | start | execute _ | run _ | interrupt => true
  | _ => false

/-- What is left when the operations have been done, each of them whether or not those before failed. -/
def afterAll (operations : List Operation) (session : Session) : Session :=
  operations.foldl (fun session operation => left (operation.action session)) session

namespace Steady

theorem operation (steady : session.Steady) {operation : Operation}
    (drives : operation.drives = true) : Leaves Steady operation.action session := by
  cases operation with
  | enter source => exact steady.enter source
  | start => exact steady.start
  | execute cycles => exact .bind (steady.execute cycles) fun _ after held => held
  | run batches => exact .bind (steady.run batches) fun _ after held => held
  | interrupt => exact steady.interrupt
  | setPc | add | update | delete | restore | setCell => cases drives

theorem afterAll (steady : session.Steady) {operations : List Operation}
    (driven : ∀ operation ∈ operations, operation.drives = true) :
    (session.afterAll operations).Steady := by
  induction operations generalizing session with
  | nil => exact steady
  | cons operation operations ih =>
      obtain ⟨first, driven⟩ := List.forall_mem_cons.mp driven
      exact ih (steady.operation first) driven

end Steady

/-- A host that only enters, starts, runs and stops programs finds every limit kept, whatever has
failed on the way: on the number of variables and of calls, on the arrays that variables hold or
calls have displaced, and on the loops that have a counter. -/
theorem limits_hold_after_operations (operations : List Operation)
    (driven : ∀ operation ∈ operations, operation.drives = true) :
    (empty.afterAll operations).vars.size ≤ 65536 ∧
    (empty.afterAll operations).frames.items.length ≤ 4096 ∧
    (∀ grid, ((∃ name entry, (empty.afterAll operations).vars.get? name = some entry ∧
          entry.value = .array grid) ∨
        ∃ frame ∈ (empty.afterAll operations).frames.items, ∃ saved ∈ frame.shadowed,
          saved.2.value = .array grid) →
      grid.cells.size = grid.rows * grid.columns ∧ grid.rows * grid.columns ≤ 2 ^ 20 ∧
        1 ≤ grid.columns) ∧
    ∀ address counter, (empty.afterAll operations).loops[address]? = some counter →
      (∃ header, (empty.afterAll operations).program.statement? address =
        some (.forNext header)) ∧ counter.step ≠ 0 := by
  have steady := Steady.empty.afterAll driven
  have bounded := steady.bounded
  refine ⟨bounded.vars.size, ?_, ?_, bounded.loops⟩
  · rw [← Stack.size_eq]
    exact steady.orderly.limited.depth
  · intro grid held
    have fits : grid.Fits := by
      rcases held with ⟨name, entry, found, array⟩ | ⟨frame, active, saved, member, array⟩
      · exact bounded.vars.values name entry found grid array
      · exact bounded.displaced frame active saved member grid array
    exact ⟨grid.size_eq, fits.cells, fits.columns⟩

/-- A parameter takes the place of an array while a loop counts down. The run is stopped there once,
and the source entered then does not compile. -/
def arrayDisplaced : List Operation :=
  [.enter ("array int a 2 3\nmethod int f int a\nfor i = 3 to 1 step -1\nclear\nend for\n" ++
      "end method\ncall f 1"),
    .execute 5, .interrupt, .enter "end for", .start, .run 0, .execute 6]

theorem limits_hold_with_array_displaced :
    (∀ operation ∈ arrayDisplaced, operation.drives = true) ∧
    (∃ frame ∈ (empty.afterAll arrayDisplaced).frames.items, ∃ saved ∈ frame.shadowed, ∃ grid,
      saved.2.value = .array grid ∧ grid.cells.size = grid.rows * grid.columns ∧
        grid.rows * grid.columns ≤ 2 ^ 20 ∧ 1 ≤ grid.columns) ∧
    ∃ counter, (empty.afterAll arrayDisplaced).loops[2]? = some counter ∧ counter.step ≠ 0 := by
  have driven : ∀ operation ∈ arrayDisplaced, operation.drives = true := by
    simp [arrayDisplaced, Operation.drives]
  obtain ⟨-, -, arrays, loops⟩ := limits_hold_after_operations arrayDisplaced driven
  have checked : ((empty.afterAll arrayDisplaced).frames.items.any (fun frame =>
      frame.shadowed.any fun saved => saved.2.value.kind == .array) &&
      (empty.afterAll arrayDisplaced).loops[2]?.isSome) = true := by
    decide +kernel
  simp only [Bool.and_eq_true, List.any_eq_true, beq_iff_eq] at checked
  obtain ⟨⟨frame, active, saved, member, kind⟩, stored⟩ := checked
  obtain ⟨grid, array⟩ : ∃ grid, saved.2.value = .array grid := by
    generalize saved.2.value = value at kind
    cases value <;> cases kind
    exact ⟨_, rfl⟩
  obtain ⟨counter, stored⟩ := Option.isSome_iff_exists.mp stored
  refine ⟨driven, ⟨frame, active, saved, member, grid, array, ?_⟩, counter, stored, ?_⟩
  · exact arrays grid (.inr ⟨frame, active, saved, member, array⟩)
  · exact (loops 2 counter stored).2

end Session

end Easel
