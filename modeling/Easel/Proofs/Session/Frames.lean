import Easel.Proofs.Faults

/-! Where a run is while calls are under way: in the body of the method that was called last, and
each caller waits in the body of the method that was called before. -/

namespace Easel

def Method.Covers (method : Method) (address : Nat) : Prop :=
  method.address < address ∧ address ≤ method.last

namespace Program

structure Declares (program : Program) (method : Method) : Prop where
  statement : program.statement? method.address = some (.method method.signature)
  target : program.targets[method.address]? = some method.last

/-- Of the bodies around an address, the one of this method is the innermost. -/
structure Innermost (program : Program) (method : Method) (address : Nat) : Prop where
  declared : program.Declares method
  covers : method.Covers address
  inside : ∀ other, program.Declares other → other.Covers address →
    other.address ≤ method.address ∧ method.last ≤ other.last

/-- The address lies in the body of the first frame's method and in no body inside it, and each
frame's return address in the same sense in the body of the next frame's method. Without a frame, the
address lies in no body at all. -/
def Encloses (program : Program) : Nat → List Frame → Prop
  | address, [] => ∀ method, program.Declares method → ¬ method.Covers address
  | address, frame :: rest =>
    program.Innermost frame.method address ∧ program.Encloses frame.returnTo rest

def SameBodies (program : Program) (first second : Nat) : Prop :=
  ∀ method, program.Declares method → (method.Covers first ↔ method.Covers second)

variable {program : Program} {address first last : Nat} {frames : List Frame}

theorem SameBodies.symm {second : Nat} (same : program.SameBodies first second) :
    program.SameBodies second first :=
  fun method declared => (same method declared).symm

theorem SameBodies.trans {second third : Nat} (left : program.SameBodies first second)
    (right : program.SameBodies second third) : program.SameBodies first third :=
  fun method declared => (left method declared).trans (right method declared)

theorem Encloses.congr {second : Nat} (encloses : program.Encloses first frames)
    (same : program.SameBodies first second) : program.Encloses second frames := by
  cases frames with
  | nil =>
      intro method declared covers
      exact encloses method declared ((same method declared).mpr covers)
  | cons frame rest =>
      obtain ⟨innermost, below⟩ := encloses
      refine ⟨⟨innermost.declared, (same _ innermost.declared).mp innermost.covers, ?_⟩, below⟩
      intro other declared covers
      exact innermost.inside other declared ((same other declared).mpr covers)

namespace Declares

variable {method : Method}

theorem bounds (declared : program.Declares method) (paired : program.Paired) :
    method.address < method.last ∧ method.last < program.size :=
  paired.bounds declared.target

theorem ends (declared : program.Declares method) (paired : program.Paired) :
    program.statement? method.last = some (.endOf .methodBlock) := by
  obtain ⟨opening, block, found, opens, closes | ⟨rfl, -⟩⟩ := paired.kinds declared.target
  · rw [declared.statement] at found
    cases found
    cases opens
    exact closes
  · rw [declared.statement] at found
    cases found
    cases opens

end Declares

namespace Paired

theorem sameBodies_succ (paired : program.Paired) {statement : Statement}
    (found : program.statement? address = some statement)
    (noMethod : ∀ signature, statement ≠ .method signature)
    (noEnd : statement ≠ .endOf .methodBlock) : program.SameBodies address (address + 1) := by
  intro method declared
  have notFirst : method.address ≠ address := by
    rintro rfl
    rw [declared.statement] at found
    exact noMethod _ (Option.some.inj found).symm
  have notLast : method.last ≠ address := by
    rintro rfl
    rw [declared.ends paired] at found
    exact noEnd (Option.some.inj found).symm
  unfold Method.Covers
  omega

theorem sameBodies_skip (paired : program.Paired) (linked : program.targets[first]? = some last) :
    program.SameBodies first (last + 1) := by
  intro method declared
  have bounds := paired.bounds linked
  have inner := declared.bounds paired
  obtain ⟨opening, block, opens, kind, closes⟩ := paired.kinds linked
  have notLast : method.last ≠ first := by
    rintro rfl
    rw [declared.ends paired] at opens
    cases opens
    cases kind
  have notFirst : method.address ≠ last := by
    rintro rfl
    rw [declared.statement] at closes
    rcases closes with closes | ⟨-, closes⟩ <;> cases closes
  unfold Method.Covers
  obtain before | same | behind := Nat.lt_trichotomy method.address first
  · have apart := paired.nested declared.target linked before
    omega
  · have target := declared.target
    rw [same, linked] at target
    cases target
    omega
  · have apart := paired.nested linked declared.target behind
    omega

theorem sameBodies_back (paired : program.Paired) (linked : program.openers[last]? = some first)
    {block : Block} (ends : program.statement? last = some (.endOf block))
    (other : block ≠ .methodBlock) : program.SameBodies last first := by
  have around := paired.sameBodies_skip (paired.opener linked)
  have behind := paired.sameBodies_succ ends nofun fun same => other (Statement.endOf.inj same)
  exact behind.trans around.symm

theorem innermost_first (paired : program.Paired) {method : Method}
    (declared : program.Declares method) : program.Innermost method (method.address + 1) := by
  have bounds := declared.bounds paired
  refine ⟨declared, ⟨by omega, by omega⟩, fun other declared' covers => ?_⟩
  unfold Method.Covers at covers
  obtain before | same | behind := Nat.lt_trichotomy other.address method.address
  · have apart := paired.nested declared'.target declared.target before
    omega
  · have target := declared'.target
    rw [same, declared.target] at target
    have last := Option.some.inj target
    omega
  · omega

theorem address_of_innermost (paired : program.Paired) {method : Method}
    (ends : program.statement? last = some (.endOf .methodBlock))
    (linked : program.openers[last]? = some first)
    (innermost : program.Innermost method last) : method.address = first := by
  obtain ⟨signature, opens⟩ := paired.method_of_end ends linked
  have target := paired.opener linked
  have covers : Method.Covers ⟨signature, first, last⟩ last := ⟨(paired.bounds target).1, Nat.le_refl _⟩
  have inside : first ≤ method.address ∧ method.last ≤ last :=
    innermost.inside ⟨signature, first, last⟩ ⟨opens, target⟩ covers
  have own := innermost.covers
  unfold Method.Covers at own
  obtain same | later : first = method.address ∨ first < method.address := by omega
  · exact same.symm
  · have apart := paired.nested target innermost.declared.target later
    omega

theorem not_encloses_end (paired : program.Paired)
    (ends : program.statement? last = some (.endOf .methodBlock)) : ¬ program.Encloses last [] := by
  intro outside
  obtain ⟨first, linked⟩ := paired.ends ends
  obtain ⟨signature, opens⟩ := paired.method_of_end ends linked
  have target := paired.opener linked
  exact outside ⟨signature, first, last⟩ ⟨opens, target⟩ ⟨(paired.bounds target).1, Nat.le_refl _⟩

end Paired

end Program

namespace Session

/-- What every state of a run has: linked blocks, known methods that stand in the program, and calls
under way that are where they should be. -/
structure Sound (session : Session) : Prop where
  paired : session.program.Paired
  legal : ∀ command ∈ session.program.commands, command.statement.Legal
  registered : ∀ name method, session.methods.get? name = some method →
    session.program.Declares method
  enclosed : session.program.Encloses session.pc session.frames.items

namespace Sound

variable {session after : Session}

theorem legal_statement (sound : session.Sound) {address : Nat} {statement : Statement}
    (found : session.program.statement? address = some statement) : statement.Legal := by
  rw [Program.statement?, Option.map_eq_some_iff] at found
  obtain ⟨command, found, rfl⟩ := found
  exact sound.legal command (Array.mem_of_getElem? found)

theorem distinct (sound : session.Sound) : Distinct session.methods :=
  fun name method known => sound.legal_statement (sound.registered name method known).statement

theorem of_sameBodies (sound : session.Sound) (program : after.program = session.program)
    (methods : after.methods = session.methods) (frames : after.frames = session.frames)
    (same : session.program.SameBodies session.pc after.pc) : after.Sound := by
  refine ⟨program ▸ sound.paired, program ▸ sound.legal, ?_, ?_⟩
  · rw [methods, program]
    exact sound.registered
  · rw [frames, program]
    exact sound.enclosed.congr same

theorem registered_register (sound : session.Sound) {method : Method}
    (declared : session.program.Declares method) (name : String) (other : Method)
    (known : (session.methods.register method).get? name = some other) :
    session.program.Declares other := by
  rw [Methods.get?, Methods.register, Std.ExtTreeMap.getElem?_insert] at known
  split at known
  · cases known
    exact declared
  · exact sound.registered name other known

theorem moves (sound : session.Sound) {statement : Statement}
    (found : session.program.statement? session.pc = some statement)
    (moves : Moves session statement after) : after.Sound := by
  have paired := sound.paired
  have succ := paired.sameBodies_succ found
  cases moves with
  | @simple statement act closures scene plain effect =>
      subst plain
      exact sound.of_sameBodies rfl rfl rfl (succ (by cases act <;> nofun) (by cases act <;> nofun))
  | enters tests holds =>
      refine sound.of_sameBodies rfl rfl rfl (succ ?_ ?_)
      · rintro signature rfl
        cases tests
      · rintro rfl
        cases tests
  | skips tests fails linked | leaves linked | passes bounds ended linked =>
      exact sound.of_sameBodies rfl rfl rfl (paired.sameBodies_skip linked)
  | begins bounds running assigned =>
      exact sound.of_sameBodies rfl rfl rfl (succ nofun nofun)
  | declares linked =>
      refine ⟨paired, sound.legal, sound.registered_register ⟨found, linked⟩, ?_⟩
      exact sound.enclosed.congr (paired.sameBodies_skip linked)
  | @calls name arguments method bindings vars frames known evaluated entered pushed =>
      have declared := sound.registered name method known
      refine ⟨paired, sound.legal, sound.registered, ?_⟩
      change session.program.Encloses (method.address + 1) frames.items
      rw [Stack.push_ok _ _ _ pushed]
      exact ⟨paired.innermost_first declared, sound.enclosed.congr (succ nofun nofun)⟩
  | @ends block plain =>
      refine sound.of_sameBodies rfl rfl rfl (succ nofun ?_)
      rintro ⟨⟩
      rcases plain with plain | plain <;> cases plain
  | tests linked =>
      exact sound.of_sameBodies rfl rfl rfl (paired.sameBodies_back linked found nofun)
  | @repeats opener header counter next vars linked opens stored advanced assigned =>
      have back := paired.sameBodies_back linked found nofun
      exact sound.of_sameBodies rfl rfl rfl (back.trans (paired.sameBodies_succ opens nofun nofun))
  | finishes linked opens ended =>
      exact sound.of_sameBodies rfl rfl rfl (succ nofun nofun)
  | falls linked idle =>
      have outside := sound.enclosed
      rw [idle] at outside
      exact absurd outside (paired.not_encloses_end found)
  | @returns frame frames linked popped =>
      have enclosed := sound.enclosed
      rw [Stack.pop_ok _ _ _ popped] at enclosed
      exact ⟨paired, sound.legal, sound.registered, enclosed.2⟩

theorem next (sound : session.Sound) (next : Next session after) : after.Sound := by
  obtain ⟨statement, found, moves⟩ := next.moves
  exact sound.moves found moves

theorem steps (sound : session.Sound) {n : Nat} (steps : Steps n session after) :
    after.Sound ∧ after.program = session.program := by
  refine steps.keeps (fun reached => reached.Sound ∧ reached.program = session.program)
    ⟨sound, rfl⟩ ?_
  rintro before after ⟨sound, same⟩ next
  obtain ⟨statement, found, moves⟩ := next.moves
  exact ⟨sound.moves found moves, moves.program_eq.trans same⟩

theorem not_misplaced (sound : session.Sound)
    (ends : session.program.statement? session.pc = some (.endOf .methodBlock)) :
    ¬ session.Misplaced := by
  rintro ⟨opener, frame, frames, linked, popped, other⟩
  have enclosed := sound.enclosed
  rw [Stack.pop_ok _ _ _ popped] at enclosed
  exact other (sound.paired.address_of_innermost ends linked enclosed.1)

theorem idle_of_halted (sound : session.Sound) (halted : session.Halted) : session.depth = 0 := by
  have enclosed := sound.enclosed
  rw [depth, session.frames.size_eq]
  cases frames : session.frames.items with
  | nil => rfl
  | cons frame rest =>
      rw [frames] at enclosed
      have covers := enclosed.1.covers
      have bounds := enclosed.1.declared.bounds sound.paired
      unfold Method.Covers at covers
      unfold Halted at halted
      omega

theorem crashes (sound : session.Sound) {fault : Error} (crashes : Crashes session fault after) :
    fault.Blameless := by
  obtain ⟨command, cause, stopped, found, fails, rfl, -⟩ := crashes.fails
  have statement := Program.statement?_of_command found
  rcases fails.ordinary sound.paired (sound.legal_statement statement) statement with
    ordinary | ⟨ends, -, misplaced⟩
  · exact ordinary.1
  · rw [ends] at statement
    exact absurd misplaced (sound.not_misplaced statement)

theorem line_of_crash (sound : session.Sound) {fault : Error}
    (crashes : Crashes session fault after) :
    ∃ command, session.program.commands[session.pc]? = some command ∧
      fault.line = some command.line := by
  obtain ⟨command, cause, stopped, found, fails, rfl, -⟩ := crashes.fails
  have statement := Program.statement?_of_command found
  have unplaced : cause.line = none := by
    rcases fails.ordinary sound.paired (sound.legal_statement statement) statement with
      ordinary | ⟨-, ⟨-, unplaced⟩, -⟩
    · exact ordinary.2
    · exact unplaced
  refine ⟨command, found, ?_⟩
  rw [Error.inLine, unplaced]
  rfl

end Sound

theorem start_seeded {session first : Session} (started : start session = .ok () first) :
    ∃ vars, Variables.seeded session.program.seeds.toList = .ok vars ∧
      first = { session.fresh with vars } := by
  cases grown : Variables.seeded session.program.seeds.toList with
  | error fault =>
      obtain ⟨vars, failed⟩ := start_error session grown
      rw [failed] at started
      cases started
  | ok vars =>
      rw [start_ok session grown] at started
      cases started
      exact ⟨vars, rfl, rfl⟩

theorem start_fresh {session first : Session} (started : start session = .ok () first) :
    ∃ vars, first = { session.fresh with vars } := by
  obtain ⟨vars, -, fresh⟩ := start_seeded started
  exact ⟨vars, fresh⟩

theorem start_program {session first : Session} (started : start session = .ok () first) :
    first.program = session.program := by
  obtain ⟨vars, rfl⟩ := start_fresh started
  rfl

theorem sound_fresh {source : String} {session : Session}
    (compiled : Program.compile source = .ok session.program) (vars : Variables) :
    { session.fresh with vars }.Sound := by
  refine ⟨Program.compile_paired source _ compiled, Program.compile_legal source _ compiled, ?_, ?_⟩
  · intro name method known
    cases known
  · rintro method - ⟨before, -⟩
    cases before

theorem sound_start {source : String} {session first : Session}
    (compiled : Program.compile source = .ok session.program)
    (started : start session = .ok () first) : first.Sound := by
  obtain ⟨vars, rfl⟩ := start_fresh started
  exact sound_fresh compiled vars

/-- In every state that a run reaches without a fault, the calls under way are where they should be:
the run never comes to the end of a method that was not called, and all calls have returned when
there is no statement left. -/
theorem frames_enclose_pc (source : String) (session first last : Session) (cycles : Nat)
    (event : Event) (compiled : Program.compile source = .ok session.program)
    (started : start session = .ok () first) (ran : execute cycles first = .ok event last) :
    session.program.Encloses last.pc last.frames.items ∧
      (∀ more fault stopped, execute more last = .error fault stopped →
        fault.code ≠ .callStackUnderflow) ∧
      (session.program.statement? last.pc = some (.endOf .methodBlock) → last.frames.items ≠ []) ∧
      (session.program.size ≤ last.pc → last.depth = 0) := by
  obtain ⟨k, -, steps, -⟩ := steps_of_execute ran
  obtain ⟨sound, same⟩ := (sound_start compiled started).steps steps
  have program : last.program = session.program := by
    obtain ⟨vars, rfl⟩ := start_fresh started
    exact same
  rw [← program]
  refine ⟨sound.enclosed, fun more fault stopped failed => ?_, fun ends idle => ?_, fun halted => ?_⟩
  · obtain ⟨k, middle, -, steps, crashes⟩ := crashes_of_execute failed
    exact ((sound.steps steps).1.crashes crashes).2
  · have outside := sound.enclosed
    rw [idle] at outside
    exact sound.paired.not_encloses_end ends outside
  · exact sound.idle_of_halted halted

def nestedCalls : String :=
  "method int f\nmethod int g\nclear\nend method\ncall g\nend method\ncall f\nclear"

theorem frames_enclose_pc_two_calls_deep :
    ∃ session first event last, Program.compile nestedCalls = .ok session.program ∧
      start session = .ok () first ∧ execute 4 first = .ok event last ∧ last.depth = 2 ∧
      session.program.Encloses last.pc last.frames.items := by
  have reached : reaches nestedCalls 4 (fun last => last.depth == 2) = true := by decide +kernel
  obtain ⟨session, first, event, last, compiled, started, ran, deep⟩ := exists_of_reaches reached
  have invariant := frames_enclose_pc nestedCalls session first last 4 event compiled started ran
  exact ⟨session, first, event, last, compiled, started, ran, beq_iff_eq.mp deep, invariant.1⟩

end Session

end Easel
