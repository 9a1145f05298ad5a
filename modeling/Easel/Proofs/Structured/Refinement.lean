import Easel.Proofs.Structured.Simulation

/-! A program runs as its block tree means: jumping from address to address comes to the same end as
running blocks inside each other, for all programs whose `for` loops contain no call. -/

namespace Easel.Session

variable {session first second : Session} {m n : Nat}

theorem Steps.le_of_final (ended : Steps m session first) (final : ∀ after, ¬ Next first after)
    (steps : Steps n session second) : n ≤ m := by
  induction ended generalizing n with
  | refl session =>
      cases steps with
      | refl => exact Nat.le_refl 0
      | head next rest => exact absurd next (final _)
  | head next rest ih =>
      cases steps with
      | refl => exact Nat.zero_le _
      | head next' rest' =>
          cases next.unique next'
          exact Nat.succ_le_succ (ih final rest')

theorem Steps.final_unique (ended : Steps m session first) (final : ∀ after, ¬ Next first after)
    (ended' : Steps n session second) (final' : ∀ after, ¬ Next second after) : first = second := by
  have fewer : m ≤ n := ended'.le_of_final final' ended
  have more : n ≤ m := ended.le_of_final final ended'
  obtain rfl : m = n := Nat.le_antisymm fewer more
  exact ended.unique ended'

theorem Halted.final (halted : session.Halted) (after : Session) : ¬ Next session after :=
  fun next => next.not_halted halted

theorem Crashes.final {fault : Error} (crashes : Crashes session fault first) (after : Session) :
    ¬ Next session after := by
  rintro ⟨command, found, ran⟩
  obtain ⟨other, found', failed⟩ := crashes
  rw [found] at found'
  cases found'
  rw [ran] at failed
  cases failed

theorem Crashes.unique {fault fault' : Error} (left : Crashes session fault first)
    (right : Crashes session fault' second) : fault = fault' ∧ first = second := by
  obtain ⟨command, found, failed⟩ := left
  obtain ⟨other, found', failed'⟩ := right
  rw [found] at found'
  cases found'
  rw [failed] at failed'
  cases failed'
  exact ⟨rfl, rfl⟩

theorem methods_empty : Closures.methods ∅ = Methods.empty := by
  unfold Closures.methods Methods.empty
  congr 1

theorem agrees_fresh {source : String} {tree : Tree}
    (compiled : Program.compile source = .ok session.program) (has : session.program.HasTree tree)
    (outside : tree.CallsOutsideLoops) (vars : Variables) (fuel : Nat) :
    Agrees session.program session.frames.overflow session.frames.limit fuel session.program.size
      (tree.Touches 0) { session.fresh with vars }
      (tree.run session.frames.overflow fuel session.frames.limit 0
        ⟨vars, ∅, session.strokes⟩) := by
  have legal := Program.compile_legal source session.program compiled
  have matched : Matches session.program session.frames.overflow session.frames.limit
      { session.fresh with vars } ⟨vars, ∅, session.strokes⟩ := by
    refine ⟨rfl, rfl, methods_empty.symm, rfl, ?_, Nat.zero_add _, rfl⟩
    intro key closure known
    cases known
  have agrees := follows legal fuel session.frames.limit 0 tree _ _ has.at outside rfl matched
  rw [Nat.zero_add, ← has.size] at agrees
  exact agrees

def startAndExecute (cycles : Nat) : Action Event := do
  start
  execute cycles

theorem startAndExecute_eq {vars : Variables}
    (grown : Variables.seeded session.program.seeds.toList = .ok vars) (cycles : Nat) :
    startAndExecute cycles session = execute cycles { session.fresh with vars } := by
  unfold startAndExecute
  rw [bind_apply, start_ok session grown]

theorem startAndExecute_stops {fault : Error}
    (failed : Variables.seeded session.program.seeds.toList = .error fault) (cycles : Nat) :
    ∃ last, startAndExecute cycles session = .error fault last ∧
      last.strokes = session.strokes := by
  obtain ⟨vars, stopped⟩ := start_error session failed
  refine ⟨{ session.fresh with vars }, ?_, rfl⟩
  unfold startAndExecute
  rw [bind_apply, stopped]

section Ends

variable {program : Program} {overflow : String} {room : Nat} {touched : Nat → Prop}
  {last : Session} {scene : Scene} {outcome : Nat → Outcome}

theorem Matches.halted (matched : Matches program overflow room last scene)
    (pc : last.pc = program.size) : last.Halted := by
  have size : last.program.size = last.pc := by rw [matched.runs, pc]
  exact Nat.le_of_eq size

/-- Where the fuel ran out, the session does not end with fewer statements than there was fuel. -/
theorem Agrees.not_steps {stop k : Nat}
    (agrees : Agrees program overflow room (k + 1) stop touched session .unfinished)
    (final : ∀ after, ¬ Next last after) : ¬ Steps k session last := by
  intro steps
  obtain ⟨n, after, enough, longer⟩ := agrees
  have bound : n ≤ k := steps.le_of_final final longer
  omega

theorem finished_iff (agrees : ∀ fuel,
      Agrees program overflow room fuel program.size touched session (outcome fuel))
    (vars : Variables) (methods : Methods) (strokes : Array Stroke) :
    (∃ cycles last, execute cycles session = .ok .stopped last ∧ last.vars = vars ∧
        last.methods = methods ∧ last.strokes = strokes) ↔
      ∃ fuel closures, outcome fuel = .finished ⟨vars, closures, strokes⟩ ∧
        closures.methods = methods := by
  constructor
  · rintro ⟨cycles, last, ran, rfl, rfl, rfl⟩
    obtain ⟨k, -, steps, ends⟩ := steps_of_execute ran
    have halted := ends (.inr rfl)
    have agrees := agrees (k + 1)
    cases result : outcome (k + 1) with
    | unfinished =>
        rw [result] at agrees
        exact absurd steps (agrees.not_steps halted.final)
    | failed fault strokes =>
        rw [result] at agrees
        obtain ⟨n, middle, after, other, crashes, -⟩ := agrees
        cases steps.final_unique halted.final other crashes.final
        exact absurd halted crashes.not_halted
    | finished scene =>
        rw [result] at agrees
        obtain ⟨n, after, other, pc, -, matched, -⟩ := agrees
        cases steps.final_unique halted.final other (matched.halted pc).final
        refine ⟨k + 1, scene.closures, ?_, matched.methods.symm⟩
        rw [result, matched.scene_eq]
  · rintro ⟨fuel, closures, result, rfl⟩
    have agrees := agrees fuel
    rw [result] at agrees
    obtain ⟨n, after, steps, pc, -, matched, -⟩ := agrees
    refine ⟨n, after, ?_, matched.vars, matched.methods, matched.strokes⟩
    exact (execute_steps steps 0).trans (execute_halted (matched.halted pc) 0)

theorem failed_iff (agrees : ∀ fuel,
      Agrees program overflow room fuel program.size touched session (outcome fuel))
    (fault : Error) (strokes : Array Stroke) :
    (∃ cycles last, execute cycles session = .error fault last ∧ last.strokes = strokes) ↔
      ∃ fuel, outcome fuel = .failed fault strokes := by
  constructor
  · rintro ⟨cycles, last, failed, rfl⟩
    obtain ⟨k, middle, -, steps, crashes⟩ := crashes_of_execute failed
    have agrees := agrees (k + 1)
    cases result : outcome (k + 1) with
    | unfinished =>
        rw [result] at agrees
        exact absurd steps (agrees.not_steps crashes.final)
    | failed cause strokes =>
        rw [result] at agrees
        obtain ⟨n, other, after, steps', crashes', rfl⟩ := agrees
        cases steps.final_unique crashes.final steps' crashes'.final
        obtain ⟨rfl, rfl⟩ := crashes.unique crashes'
        exact ⟨k + 1, result⟩
    | finished scene =>
        rw [result] at agrees
        obtain ⟨n, after, other, pc, -, matched, -⟩ := agrees
        have halted := matched.halted pc
        cases steps.final_unique crashes.final other halted.final
        exact absurd halted crashes.not_halted
  · rintro ⟨fuel, result⟩
    have agrees := agrees fuel
    rw [result] at agrees
    obtain ⟨n, middle, after, steps, crashes, same⟩ := agrees
    exact ⟨n + 1, after, (execute_steps steps 1).trans (execute_crashes crashes 0), same⟩

end Ends

/-- A compiled program has one block tree. If the bodies of its `for` loops are free of calls, then a
run from the start stops exactly if the interpretation of the tree finishes, with the same variables,
methods and strokes, and it fails exactly if the interpretation does, with the same fault after the
same strokes. -/
theorem run_refines_block_tree (source : String) (session : Session)
    (compiled : Program.compile source = .ok session.program) :
    (∃! tree : Tree, tree.commands = session.program.commands.toList) ∧
    ∀ tree : Tree, tree.commands = session.program.commands.toList → tree.CallsOutsideLoops →
      (∀ vars methods strokes,
        (∃ cycles last, startAndExecute cycles session = .ok .stopped last ∧ last.vars = vars ∧
          last.methods = methods ∧ last.strokes = strokes) ↔
        ∃ fuel closures, tree.interpret session.frames.overflow fuel session.frames.limit
            session.program.seeds.toList session.strokes = .finished ⟨vars, closures, strokes⟩ ∧
          closures.methods = methods) ∧
      (∀ fault strokes,
        (∃ cycles last, startAndExecute cycles session = .error fault last ∧
          last.strokes = strokes) ↔
        ∃ fuel, tree.interpret session.frames.overflow fuel session.frames.limit
          session.program.seeds.toList session.strokes = .failed fault strokes) := by
  obtain ⟨tree, has⟩ := Program.compile_hasTree source session.program compiled
  have only : ∀ other : Tree, other.commands = session.program.commands.toList → other = tree :=
    fun other same => other.eq_of_commands_eq tree (same.trans has.commands)
  refine ⟨⟨tree, has.commands.symm, only⟩, ?_⟩
  intro other same outside
  cases only other same
  unfold Tree.interpret
  cases grown : Variables.seeded session.program.seeds.toList with
  | ok vars =>
      have agrees := agrees_fresh compiled has outside vars
      simp only [startAndExecute_eq grown]
      exact ⟨finished_iff agrees, failed_iff agrees⟩
  | error fault =>
      -- There are too many seeds, and both end before the first statement.
      have stops := startAndExecute_stops grown
      constructor
      · intro vars methods strokes
        constructor
        · rintro ⟨cycles, last, ran, -⟩
          obtain ⟨stopped, failed, -⟩ := stops cycles
          rw [failed] at ran
          cases ran
        · rintro ⟨fuel, closures, impossible, -⟩
          cases impossible
      · intro cause strokes
        constructor
        · rintro ⟨cycles, last, failed, rfl⟩
          obtain ⟨stopped, failed', strokes⟩ := stops cycles
          rw [failed'] at failed
          cases failed
          exact ⟨0, congrArg _ strokes.symm⟩
        · rintro ⟨fuel, failed⟩
          cases failed
          obtain ⟨stopped, failed, strokes⟩ := stops 0
          exact ⟨0, stopped, failed, strokes⟩

def allBlocks : String :=
  "method int f int n\nif true\nclear\nelse\nmoveto 1,2\nend if\nend method\nfor i = 1 to 2\n" ++
    "clear\nend for\nwhile false\nclear\nend while\nif true\ncall f 3\nend if"

def allBlocksTree : Tree :=
  .method 1 ⟨"f", .int, [⟨"int", "n"⟩]⟩
    (.ifElse 2 "true" (.simple 3 (.draw .clear []) .done) 4
      (.simple 5 (.draw .moveTo ["1", "2"]) .done) 6 .done) 7
    (.forNext 8 ⟨"i", "1", "2", "1"⟩ (.simple 9 (.draw .clear []) .done) 10
      (.whileDo 11 "false" (.simple 12 (.draw .clear []) .done) 13
        (.ifThen 14 "true" (.call 15 "f" ["3"] .done) 16 .done)))

theorem run_refines_block_tree_all_blocks :
    ∃ session : Session, Program.compile allBlocks = .ok session.program ∧
      allBlocksTree.commands = session.program.commands.toList ∧
      allBlocksTree.CallsOutsideLoops ∧
      ∃ fuel scene, allBlocksTree.interpret session.frames.overflow fuel session.frames.limit
          session.program.seeds.toList session.strokes = .finished scene ∧
        scene.strokes.size = 3 := by
  have reached : reaches allBlocks 20 (fun last => last.program.size ≤ last.pc &&
      last.program.commands.toList == allBlocksTree.commands && last.strokes.size == 3) = true := by
    decide +kernel
  obtain ⟨session, first, event, last, compiled, started, ran, checked⟩ := exists_of_reaches reached
  simp only [Bool.and_eq_true, decide_eq_true_eq, beq_iff_eq] at checked
  obtain ⟨⟨halted, same⟩, three⟩ := checked
  obtain ⟨k, -, steps, -⟩ := steps_of_execute ran
  have kept : last.program = session.program := by
    obtain ⟨vars, rfl⟩ := start_fresh started
    exact ((sound_start compiled started).steps steps).2
  have stopped : startAndExecute k session = .ok .stopped last := by
    unfold startAndExecute
    rw [bind_apply, started]
    exact (execute_steps steps 0).trans (execute_halted halted 0)
  rw [kept] at same
  have outside : allBlocksTree.CallsOutsideLoops := by
    simp [allBlocksTree, Tree.CallsOutsideLoops, Tree.CallFree]
  obtain ⟨finishes, -⟩ :=
    (run_refines_block_tree allBlocks session compiled).2 allBlocksTree same.symm outside
  obtain ⟨fuel, closures, finished, -⟩ :=
    (finishes last.vars last.methods last.strokes).mp ⟨k, last, stopped, rfl, rfl, rfl⟩
  exact ⟨session, compiled, same.symm, outside, fuel, _, finished, three⟩

end Easel.Session
