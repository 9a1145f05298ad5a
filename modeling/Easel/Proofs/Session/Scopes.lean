import Easel.Proofs.Session.Calls

/-! Which variables are local: those that are parameters of a call under way. An entry keeps its scope
through every change of its value, and what a call displaces comes back with the scope it had. -/

namespace Easel

namespace Variables

def IsLocal (vars : Variables) (name : String) : Prop :=
  ∃ entry, vars.get? name = some entry ∧ entry.scope = .local

def SameLocals (before after : Variables) : Prop :=
  ∀ name, before.IsLocal name ↔ after.IsLocal name

variable {before after : Variables}

theorem isLocal_of_get? {name : String} {entry : Entry} (found : before.get? name = some entry) :
    before.IsLocal name ↔ entry.scope = .local := by
  constructor
  · intro found'
    obtain ⟨other, found', isLocal⟩ := found'
    rw [found] at found'
    cases found'
    exact isLocal
  · intro isLocal
    exact ⟨entry, found, isLocal⟩

theorem not_isLocal_of_absent {name : String} (absent : before.get? name = none) :
    ¬ before.IsLocal name := by
  intro isLocal
  obtain ⟨entry, found, -⟩ := isLocal
  rw [absent] at found
  cases found

theorem isLocal_congr {name : String} (same : before.get? name = after.get? name) :
    before.IsLocal name ↔ after.IsLocal name := by
  unfold IsLocal
  rw [same]

theorem isLocal_restore (vars : Variables) (name p : String) (entry : Entry) :
    (vars.restore name entry).IsLocal p ↔
      if name = p then entry.scope = .local else vars.IsLocal p := by
  have found := get?_restore vars name p entry
  split
  · rename_i same
    rw [if_pos same] at found
    exact isLocal_of_get? found
  · rename_i other
    rw [if_neg other] at found
    exact isLocal_congr found

theorem isLocal_erase (vars : Variables) (name p : String) :
    (vars.erase name).IsLocal p ↔ name ≠ p ∧ vars.IsLocal p := by
  have found := get?_erase vars name p
  by_cases same : name = p
  · rw [if_pos same] at found
    have absent := not_isLocal_of_absent found
    simp [same] at absent ⊢
    exact absent
  · rw [if_neg same] at found
    rw [isLocal_congr found]
    exact (and_iff_right same).symm

namespace SameLocals

theorem refl (vars : Variables) : SameLocals vars vars := fun _ => Iff.rfl

theorem trans {middle : Variables} (early : SameLocals before middle)
    (late : SameLocals middle after) : SameLocals before after :=
  fun name => (early name).trans (late name)

theorem erase (same : SameLocals before after) (name : String) :
    SameLocals (before.erase name) (after.erase name) := by
  intro p
  rw [isLocal_erase, isLocal_erase, same p]

theorem restore (same : SameLocals before after) (name : String) (entry : Entry) :
    SameLocals (before.restore name entry) (after.restore name entry) := by
  intro p
  rw [isLocal_restore, isLocal_restore, same p]

theorem of_restore (name : String) (entry : Entry)
    (scope : before.IsLocal name ↔ entry.scope = .local) :
    SameLocals before (before.restore name entry) := by
  intro p
  rw [isLocal_restore]
  split
  · rename_i same
    subst same
    exact scope
  · exact Iff.rfl

theorem unbind (same : SameLocals before after) (frame : Frame) :
    SameLocals (Session.unbindLocals frame before) (Session.unbindLocals frame after) := by
  have erased : SameLocals (frame.locals.foldl Variables.erase before)
      (frame.locals.foldl Variables.erase after) := by
    induction frame.locals generalizing before after with
    | nil => exact same
    | cons name names ih => exact ih (same.erase name)
  unfold Session.unbindLocals
  induction frame.shadowed with
  | nil => exact erased
  | cons binding bindings ih => exact ih.restore binding.1 binding.2

end SameLocals

/-! ### Changes of the variables -/

theorem add_sameLocals (vars : Variables) (name : String) (value : Value) {scope : Scope}
    (fits : vars.IsLocal name ↔ scope = .local) :
    Gives (SameLocals vars) (vars.add name value scope) := by
  unfold add
  split
  · exact .ok (SameLocals.of_restore name ⟨value, scope⟩ fits)
  · exact .error

theorem add_global_sameLocals (vars : Variables) (name : String) (value : Value)
    (absent : vars.contains name = false) :
    Gives (SameLocals vars) (vars.add name value .global) := by
  apply add_sameLocals
  simp [not_isLocal_of_absent (contains_eq_false.mp absent)]

theorem update_sameLocals (vars : Variables) (name : String) (value : Value) :
    Gives (SameLocals vars) (vars.update name value) := by
  refine .andThen (Gives.itself _) fun entry found => .bind fun coerced => .pure ?_
  have scope : vars.IsLocal name ↔ entry.scope = .local := isLocal_of_get? (entry_eq_ok.mp found)
  exact SameLocals.of_restore name { entry with value := coerced } scope

theorem assign_sameLocals (vars : Variables) (name : String) (value : Value) :
    Gives (SameLocals vars) (vars.assign name value) := by
  unfold assign
  split
  · exact update_sameLocals vars name value
  · rename_i absent
    exact add_global_sameLocals vars name value (Bool.eq_false_iff.mpr absent)

theorem ensure_sameLocals (vars : Variables) (name : String) (kind : Kind) :
    Gives (SameLocals vars) (vars.ensure name kind) := by
  unfold ensure
  split
  · exact .ok (.refl vars)
  · rename_i absent
    exact add_global_sameLocals vars name _ (Bool.eq_false_iff.mpr absent)

theorem declare_sameLocals (vars : Variables) (declaration : Declaration) :
    Gives (SameLocals vars) (vars.declare declaration) := by
  have extras : Gives (SameLocals vars)
      (declaration.extra.foldlM (fun vars name => vars.ensure name declaration.kind) vars) := by
    refine Gives.foldlM ?_ declaration.extra vars (SameLocals.refl vars)
    intro middle name same after ensured
    exact same.trans (ensure_sameLocals middle name declaration.kind after ensured)
  refine .andThen extras fun middle same => .bind fun value after assigned => ?_
  exact same.trans (assign_sameLocals middle declaration.name value after assigned)

theorem makeArray_sameLocals (vars : Variables) (declaration : ArrayDeclaration) :
    Gives (SameLocals vars) (vars.makeArray declaration) := by
  refine .bind fun rows => ?_
  extract_lets scope finish
  have fits : vars.IsLocal declaration.name ↔ scope = .local := by
    unfold scope
    split
    · rename_i entry found
      exact isLocal_of_get? found
    · rename_i absent
      simp [not_isLocal_of_absent absent]
  have each (columns : Int32) : Gives (SameLocals vars) (finish columns) :=
    .bind fun grid => add_sameLocals vars declaration.name (.array grid) fits
  split
  · exact .bind each
  · exact .bind each

theorem modify_sameLocals (vars : Variables) (name : String) {change : Entry → Entry}
    (keeps : ∀ entry, (change entry).scope = entry.scope) :
    SameLocals vars ⟨vars.table.modify name change⟩ := by
  intro p
  have found := get?_modify vars name p change
  by_cases same : name = p
  · subst same
    rw [if_pos rfl] at found
    cases entry : vars.get? name with
    | none =>
        rw [entry] at found
        simp [not_isLocal_of_absent entry, not_isLocal_of_absent found]
    | some old =>
        rw [entry] at found
        rw [isLocal_of_get? entry, isLocal_of_get? found, keeps]
  · rw [if_neg same] at found
    exact isLocal_congr found.symm

theorem putCell_sameLocals (vars : Variables) (name : String) (index : Nat) (value : Value) :
    SameLocals vars (vars.putCell name index value) := by
  apply modify_sameLocals
  intro entry
  split <;> rfl

theorem peek_sameLocals (vars : Variables) (cell : Peek) :
    Gives (SameLocals vars) (vars.peek cell) := by
  unfold peek
  refine .bind fun row => .bind fun column => .bind fun grid => .bind fun value => ?_
  exact assign_sameLocals vars cell.target value

theorem addLocals_isLocal (bindings : List (String × Value)) (vars : Variables) :
    Gives (fun after => ∀ p, after.IsLocal p ↔ p ∈ bindings.map (·.1) ∨ vars.IsLocal p)
      (vars.addLocals bindings) := by
  induction bindings generalizing vars with
  | nil => exact .ok (by simp)
  | cons binding bindings ih =>
      unfold addLocals
      rw [List.foldlM_cons]
      refine .andThen (Gives.itself _) fun middle added after bound p => ?_
      have middleLocal : middle.IsLocal p ↔ p = binding.1 ∨ vars.IsLocal p := by
        have found := get?_add added p
        by_cases same : binding.1 = p
        · rw [if_pos same] at found
          simp [isLocal_of_get? found, same]
        · rw [if_neg same] at found
          simp [isLocal_congr found, Ne.symm same]
      rw [ih middle after bound p, middleLocal, List.map_cons, List.mem_cons, or_left_comm, or_assoc]

theorem enter_isLocal (vars : Variables) (signature : Signature) (arguments : List String) :
    Gives (fun after => ∀ p, after.IsLocal p ↔
        p ∈ signature.parameters.map (·.name) ∨ vars.IsLocal p)
      (vars.enter signature arguments) := by
  refine .andThen (Gives.itself _) fun bindings bound => ?_
  refine .andThen (addLocals_isLocal bindings vars) fun middle isLocal after ensured p => ?_
  rw [← ensure_sameLocals middle _ _ after ensured p, isLocal p, bindings_names bound]

theorem add_global_isLocal {vars : Variables} (none : ∀ name, ¬ vars.IsLocal name) (name : String)
    (value : Value) :
    Gives (fun after => ∀ other, ¬ after.IsLocal other) (vars.add name value .global) := by
  intro after added other
  have found := get?_add added other
  by_cases same : name = other
  · rw [if_pos same] at found
    simp [isLocal_of_get? found]
  · rw [if_neg same] at found
    rw [isLocal_congr found]
    exact none other

theorem seeded_isLocal (seeds : List (String × Value)) :
    Gives (fun vars => ∀ name, ¬ vars.IsLocal name) (seeded seeds) := by
  apply Gives.foldlM
  · intro vars seed none
    exact add_global_isLocal none seed.1 seed.2
  · intro name
    exact not_isLocal_of_absent rfl

/-- The local names of a table are those of the frames, now and after each return to come. -/
def HasLocals : Variables → List Frame → Prop
  | vars, [] => ∀ name, ¬ vars.IsLocal name
  | vars, frame :: rest =>
    (∀ name, vars.IsLocal name ↔ name ∈ frame.locals ∨ ∃ active ∈ rest, name ∈ active.locals) ∧
      HasLocals (Session.unbindLocals frame vars) rest

namespace HasLocals

variable {vars : Variables} {frames : List Frame}

theorem isLocal_iff (locals : HasLocals vars frames) (name : String) :
    vars.IsLocal name ↔ ∃ active ∈ frames, name ∈ active.locals := by
  cases frames with
  | nil =>
      have none := locals name
      simp [none]
  | cons frame rest =>
      rw [locals.1 name]
      simp

/-- What a table becomes at a return depends on its local names alone. -/
theorem congr (locals : HasLocals before frames) (same : SameLocals before after) :
    HasLocals after frames := by
  induction frames generalizing before after with
  | nil =>
      intro name isLocal
      exact locals name ((same name).mpr isLocal)
  | cons frame rest ih =>
      refine ⟨fun name => ?_, ih locals.2 (same.unbind frame)⟩
      rw [← same name]
      exact locals.1 name

end HasLocals

end Variables

theorem Simple.effect_sameLocals (act : Simple) (scene : Scene) :
    Gives (fun after => scene.vars.SameLocals after.vars) (act.effect scene) := by
  cases act with
  | declare declaration =>
      exact .andThen (scene.vars.declare_sameLocals declaration) fun vars same => .pure same
  | array declaration =>
      exact .andThen (scene.vars.makeArray_sameLocals declaration) fun vars same => .pure same
  | poke cell =>
      refine .andThen ?_ fun vars (same : scene.vars.SameLocals vars) => .pure same
      exact .bind fun place => .pure (scene.vars.putCell_sameLocals cell.array place.1 place.2)
  | peek cell =>
      exact .andThen (scene.vars.peek_sameLocals cell) fun vars same => .pure same
  | draw drawing arguments => exact .bind fun stroke => .pure (.refl scene.vars)
  | write expression => exact .bind fun stroke => .pure (.refl scene.vars)

namespace Session

variable {session after : Session}

theorem locals_call {method : Method} {arguments : List String} {vars : Variables}
    (locals : session.vars.HasLocals session.frames.items)
    (entered : session.vars.enter method.signature arguments = .ok vars) :
    vars.HasLocals (session.past.frameOf method :: session.frames.items) := by
  have isLocal := session.vars.enter_isLocal method.signature arguments vars entered
  refine ⟨fun name => ?_, locals.congr fun name => ?_⟩
  · rw [isLocal name, locals.isLocal_iff name]
    rfl
  · rw [unbindLocals_eq session.vars vars rfl]
    have recovered := Variables.get?_recover (session.past.frameOf method).locals session.vars vars name
    by_cases bound : name ∈ (session.past.frameOf method).locals
    · rw [if_pos bound] at recovered
      exact Variables.isLocal_congr recovered.symm
    · rw [if_neg bound] at recovered
      rw [Variables.isLocal_congr recovered, isLocal name]
      exact (or_iff_right bound).symm

theorem Moves.locals {statement : Statement} (moves : Moves session statement after)
    (distinct : Distinct session.methods) (locals : session.vars.HasLocals session.frames.items) :
    after.vars.HasLocals after.frames.items := by
  cases moves with
  | @simple statement act closures scene plain effect =>
      exact locals.congr (act.effect_sameLocals _ scene effect)
  | enters | skips | leaves | passes | declares | ends | tests | finishes | falls => exact locals
  | @begins header counter vars bounds running assigned =>
      exact locals.congr (session.vars.assign_sameLocals _ _ vars assigned)
  | @repeats opener header counter next vars linked opens stored advanced assigned =>
      exact locals.congr (session.vars.assign_sameLocals _ _ vars assigned)
  | @calls name arguments method bindings vars frames known evaluated entered pushed =>
      rw [frameFor_eq session.past (distinct name method known) evaluated] at pushed
      have entered := locals_call locals entered
      rw [← Stack.push_ok _ _ _ pushed] at entered
      exact entered
  | returns linked popped =>
      rw [Stack.pop_ok _ _ _ popped] at locals
      exact locals.2

theorem locals_of_execute {source : String} {first last : Session} {cycles : Nat}
    {event : Event} (compiled : Program.compile source = .ok session.program)
    (started : start session = .ok () first) (ran : execute cycles first = .ok event last) :
    last.vars.HasLocals last.frames.items := by
  obtain ⟨k, -, steps, -⟩ := steps_of_execute ran
  have sound := sound_start compiled started
  have initial : first.vars.HasLocals first.frames.items := by
    obtain ⟨vars, seeded, rfl⟩ := start_seeded started
    exact Variables.seeded_isLocal _ vars seeded
  have invariant := steps.keeps
    (fun reached => reached.Sound ∧ reached.vars.HasLocals reached.frames.items) ⟨sound, initial⟩
  refine (invariant ?_).2
  intro before after holds next
  obtain ⟨statement, found, moves⟩ := next.moves
  exact ⟨holds.1.moves found moves, moves.locals holds.1.distinct holds.2⟩

/-- In every state that a run reaches without a fault, the local variables are the parameters of the
calls under way, and none is left when the run has stopped. -/
theorem local_iff_parameter_of_active_call (source : String) (session first last : Session)
    (cycles : Nat) (event : Event) (compiled : Program.compile source = .ok session.program)
    (started : start session = .ok () first) (ran : execute cycles first = .ok event last) :
    (∀ name, (∃ entry, last.vars.get? name = some entry ∧ entry.scope = .local) ↔
        ∃ frame ∈ last.frames.items, name ∈ frame.locals) ∧
      (event = .stopped → ∀ name entry, last.vars.get? name = some entry →
        entry.scope = .global) := by
  have locals := locals_of_execute compiled started ran
  refine ⟨locals.isLocal_iff, ?_⟩
  intro stopped name entry found
  obtain ⟨k, -, steps, halts⟩ := steps_of_execute ran
  have sound := sound_of_execute compiled started ran
  have idle : last.frames.items = [] := by
    have depth := sound.idle_of_halted (halts (.inr stopped))
    rw [Session.depth, last.frames.size_eq] at depth
    exact List.eq_nil_of_length_eq_zero depth
  rw [idle] at locals
  cases scope : entry.scope
  · rfl
  · exact absurd ⟨entry, found, scope⟩ (locals name)

def localArray : String :=
  "int n = 5\nmethod int g int m\nclear\nend method\nmethod int f int n\narray int n 2\n" ++
    "call g 1\nend method\ncall f 3"

theorem local_iff_parameter_of_local_array :
    (∃ session first event last, Program.compile localArray = .ok session.program ∧
      start session = .ok () first ∧ execute 6 first = .ok event last ∧ last.depth = 2 ∧
      ∃ entry, last.vars.get? "n" = some entry ∧ entry.scope = .local) ∧
    ∃ session first last, Program.compile localArray = .ok session.program ∧
      start session = .ok () first ∧ execute 10 first = .ok .stopped last ∧
      last.vars.contains "n" = true ∧
      ∀ name entry, last.vars.get? name = some entry → entry.scope = .global := by
  constructor
  · have reached : reaches localArray 6 (fun last => last.depth == 2 &&
        last.frames.items.any (·.locals.contains "n")) = true := by decide +kernel
    obtain ⟨session, first, event, last, compiled, started, ran, checked⟩ :=
      exists_of_reaches reached
    simp only [Bool.and_eq_true, beq_iff_eq, List.any_eq_true, List.contains_iff_mem] at checked
    have scopes := local_iff_parameter_of_active_call localArray session first last 6 event compiled
      started ran
    exact ⟨session, first, event, last, compiled, started, ran, checked.1,
      (scopes.1 "n").mpr checked.2⟩
  · have reached : reaches localArray 10 (fun last =>
        decide (last.program.size ≤ last.pc) && last.vars.contains "n") = true := by
      decide +kernel
    obtain ⟨session, first, event, last, compiled, started, ran, checked⟩ :=
      exists_of_reaches reached
    simp only [Bool.and_eq_true, decide_eq_true_eq] at checked
    have stopped : event = .stopped := (stopped_iff_halted ran).mpr checked.1
    subst stopped
    have scopes := local_iff_parameter_of_active_call localArray session first last 10 .stopped
      compiled started ran
    exact ⟨session, first, last, compiled, started, ran, checked.2, scopes.2 rfl⟩

end Session

end Easel
