import Easel.Proofs.Session.Frames

/-! Statement after statement, a session does what the meaning of its block tree says.

The comparison goes by the fuel of the meaning. Where that ends, the session comes to the same end;
where the fuel runs out, the session has run at least as many statements as there was fuel. -/

namespace Easel

namespace Closures

theorem get?_methods (closures : Closures) (name : String) :
    closures.methods.get? name = closures[lowercase name]?.map (·.method) :=
  Std.ExtTreeMap.getElem?_map

theorem methods_insert (closures : Closures) (closure : Closure) :
    Closures.methods (closures.insert (lowercase closure.method.signature.name) closure) =
      closures.methods.register closure.method := by
  unfold Closures.methods Methods.register
  congr 1
  refine Std.ExtTreeMap.ext_getElem? fun {key} => ?_
  rw [Std.ExtTreeMap.getElem?_map, Std.ExtTreeMap.getElem?_insert, Std.ExtTreeMap.getElem?_insert,
    Std.ExtTreeMap.getElem?_map]
  split <;> rfl

end Closures

structure Closure.Placed (program : Program) (closure : Closure) : Prop where
  body : closure.body.At program (closure.method.address + 1)
  last : closure.method.last = closure.method.address + closure.body.size + 1
  ends : ∃ line, program.commands[closure.method.last]? = some ⟨line, .endOf .methodBlock⟩
  opener : program.openers[closure.method.last]? = some closure.method.address
  outside : closure.body.CallsOutsideLoops
  distinct : (closure.method.signature.parameters.map (·.name)).Nodup

/-- Where loops may be stored or discarded by the run of a tree: at its own addresses if it calls
nothing, and otherwise anywhere. -/
def Tree.Touches (start : Nat) (tree : Tree) (address : Nat) : Prop :=
  tree.CallFree → start ≤ address ∧ address < start + tree.size

theorem Tree.Touches.mono {start start' : Nat} {tree whole : Tree} {address : Nat}
    (touches : tree.Touches start' address) (free : whole.CallFree → tree.CallFree)
    (first : start ≤ start') (last : start' + tree.size ≤ start + whole.size) :
    whole.Touches start address := by
  intro wholeFree
  have inside := touches (free wholeFree)
  omega

theorem Tree.CallFree.outside {tree : Tree} (free : tree.CallFree) : tree.CallsOutsideLoops := by
  induction tree with
  | done => trivial
  | simple line act rest ih => exact ih free
  | call => exact free.elim
  | ifElse line condition body middle other close rest first second third =>
      exact ⟨first free.1, second free.2.1, third free.2.2⟩
  | forNext line header body close rest inner outer => exact ⟨free.1, outer free.2⟩
  | ifThen line condition body close rest inner outer
  | whileDo line condition body close rest inner outer
  | method line signature body close rest inner outer => exact ⟨inner free.1, outer free.2⟩

namespace Session

/-- The session has made of its program what the scene says, and there is room for so many calls
more. -/
structure Matches (program : Program) (overflow : String) (room : Nat) (session : Session)
    (scene : Scene) : Prop where
  runs : session.program = program
  vars : session.vars = scene.vars
  methods : session.methods = scene.closures.methods
  strokes : session.strokes = scene.strokes
  placed : ∀ (key : String) (closure : Closure), scene.closures[key]? = some closure →
    closure.Placed program
  room : session.frames.size + room = session.frames.limit
  overflow : session.frames.overflow = overflow

variable {program : Program} {overflow : String} {room : Nat} {session middle after : Session}
  {scene : Scene}

namespace Matches

theorem update (matched : Matches program overflow room session scene)
    (sameProgram : after.program = session.program) (methods : after.methods = session.methods)
    (frames : after.frames = session.frames) :
    Matches program overflow room after ⟨after.vars, scene.closures, after.strokes⟩ where
  runs := sameProgram.trans matched.runs
  vars := rfl
  methods := methods.trans matched.methods
  strokes := rfl
  placed := matched.placed
  room := by rw [frames, matched.room]
  overflow := by rw [frames, matched.overflow]

theorem scene_eq (matched : Matches program overflow room session scene) :
    (⟨session.vars, scene.closures, session.strokes⟩ : Scene) = scene := by
  rw [matched.vars, matched.strokes]

theorem assign (matched : Matches program overflow room session scene)
    (sameProgram : after.program = session.program) (methods : after.methods = session.methods)
    (frames : after.frames = session.frames) (strokes : after.strokes = session.strokes) :
    Matches program overflow room after { scene with vars := after.vars } := by
  have updated := matched.update sameProgram methods frames
  rw [strokes, matched.strokes] at updated
  exact updated

theorem move (matched : Matches program overflow room session scene)
    (sameProgram : after.program = session.program) (vars : after.vars = session.vars)
    (methods : after.methods = session.methods) (frames : after.frames = session.frames)
    (strokes : after.strokes = session.strokes) : Matches program overflow room after scene := by
  have updated := matched.update sameProgram methods frames
  rw [vars, strokes, matched.scene_eq] at updated
  exact updated

end Matches

/-- The session runs to the outcome: to the given address with the frames it has, or to the fault, or
for as many statements as there is fuel. -/
def Agrees (program : Program) (overflow : String) (room fuel stop : Nat) (touched : Nat → Prop)
    (session : Session) : Outcome → Prop
  | .finished scene => ∃ n after, Steps n session after ∧ after.pc = stop ∧
      after.frames = session.frames ∧ Matches program overflow room after scene ∧
      ∀ address, ¬ touched address → after.loops[address]? = session.loops[address]?
  | .failed fault strokes => ∃ n middle after, Steps n session middle ∧
      Crashes middle fault after ∧ after.strokes = strokes
  | .unfinished => ∃ n after, fuel ≤ n ∧ Steps n session after

namespace Agrees

variable {fuel stop : Nat} {touched : Nat → Prop} {outcome : Outcome}

theorem widen {touched' : Nat → Prop} {fewer : Nat}
    (agrees : Agrees program overflow room fuel stop touched session outcome)
    (wider : ∀ address, touched address → touched' address) (less : fewer ≤ fuel) :
    Agrees program overflow room fewer stop touched' session outcome := by
  cases outcome with
  | finished scene =>
      obtain ⟨n, after, steps, pc, frames, matched, loops⟩ := agrees
      exact ⟨n, after, steps, pc, frames, matched,
        fun address other => loops address fun inside => other (wider address inside)⟩
  | failed fault strokes => exact agrees
  | unfinished =>
      obtain ⟨n, after, enough, steps⟩ := agrees
      exact ⟨n, after, Nat.le_trans less enough, steps⟩

theorem prepend {n more : Nat}
    (agrees : Agrees program overflow room fuel stop touched middle outcome)
    (steps : Steps n session middle) (frames : middle.frames = session.frames)
    (loops : ∀ address, ¬ touched address → middle.loops[address]? = session.loops[address]?)
    (enough : more ≤ n + fuel) :
    Agrees program overflow room more stop touched session outcome := by
  cases outcome with
  | finished scene =>
      obtain ⟨m, after, late, pc, frames', matched, loops'⟩ := agrees
      exact ⟨n + m, after, steps.trans late, pc, frames'.trans frames, matched,
        fun address other => (loops' address other).trans (loops address other)⟩
  | failed fault strokes =>
      obtain ⟨m, last, after, late, crashes, same⟩ := agrees
      exact ⟨n + m, last, after, steps.trans late, crashes, same⟩
  | unfinished =>
      obtain ⟨m, after, least, late⟩ := agrees
      exact ⟨n + m, after, by omega, steps.trans late⟩

theorem andThen {next : Scene → Outcome} {inner : Nat → Prop} (between : Nat)
    (agrees : Agrees program overflow room fuel between inner session outcome)
    (wider : ∀ address, inner address → touched address)
    (later : ∀ scene middle, middle.pc = between → Matches program overflow room middle scene →
      (∀ address, ¬ inner address → middle.loops[address]? = session.loops[address]?) →
      Agrees program overflow room fuel stop touched middle (next scene)) :
    Agrees program overflow room fuel stop touched session (outcome.andThen next) := by
  cases outcome with
  | failed fault strokes => exact agrees
  | unfinished => exact agrees
  | finished scene =>
      obtain ⟨n, middle, steps, pc, frames, matched, loops⟩ := agrees
      have agrees := later scene middle pc matched loops
      exact agrees.prepend steps frames
        (fun address other => loops address fun inside => other (wider address inside)) (by omega)

theorem seq {next : Scene → Outcome} (between : Nat)
    (agrees : Agrees program overflow room fuel between touched session outcome)
    (later : ∀ scene middle, middle.pc = between → Matches program overflow room middle scene →
      Agrees program overflow room fuel stop touched middle (next scene)) :
    Agrees program overflow room fuel stop touched session (outcome.andThen next) :=
  agrees.andThen between (fun _ inside => inside)
    fun scene middle pc matched _ => later scene middle pc matched

theorem fail (matched : Matches program overflow room session scene) {line : Nat}
    {statement : Statement} {fault : Error} {stopped : Session}
    (found : session.program.commands[session.pc]? = some ⟨line, statement⟩)
    (fails : Fails session statement fault stopped) :
    Agrees program overflow room fuel stop touched session (scene.fail line fault) := by
  have crashes := fails.crashes found
  obtain ⟨vars, loops, rfl⟩ := fails.left_eq
  exact ⟨0, session, _, .refl session, crashes, matched.strokes⟩

end Agrees

/-- With so much fuel, every tree of the program runs as it means. -/
def Follows (program : Program) (overflow : String) (fuel : Nat) : Prop :=
  ∀ (room start : Nat) (tree : Tree) (scene : Scene) (session : Session),
    tree.At program start → tree.CallsOutsideLoops → session.pc = start →
    Matches program overflow room session scene →
    Agrees program overflow room fuel (start + tree.size) (tree.Touches start) session
      (tree.run overflow fuel room start scene)

variable {fuel start line close stop : Nat} {condition : String} {body other rest whole : Tree}

theorem Follows.part (follows : Follows program overflow fuel) {inner : Nat} {part : Tree}
    (placed : part.At program inner) (outside : part.CallsOutsideLoops)
    (free : whole.CallFree → part.CallFree) (bounds : start ≤ inner ∧ stop = inner + part.size ∧
      inner + part.size ≤ start + whole.size) (pc : session.pc = inner)
    (matched : Matches program overflow room session scene) :
    Agrees program overflow room fuel stop (whole.Touches start) session
      (part.run overflow fuel room inner scene) := by
  obtain ⟨first, rfl, last⟩ := bounds
  have agrees := follows room inner part scene session placed outside pc matched
  exact agrees.widen (fun address touches => touches.mono free first last) (Nat.le_refl fuel)

theorem Follows.jump (follows : Follows program overflow fuel) {target inner : Nat} {part : Tree}
    (next : Next session { session with pc := target }) (placed : part.At program inner)
    (outside : part.CallsOutsideLoops) (free : whole.CallFree → part.CallFree)
    (arrives : target = inner) (bounds : start ≤ inner ∧ stop = inner + part.size ∧
      inner + part.size ≤ start + whole.size)
    (matched : Matches program overflow room session scene) :
    Agrees program overflow room (fuel + 1) stop (whole.Touches start) session
      (part.run overflow fuel room inner scene) := by
  have moved : Matches program overflow room { session with pc := target } scene :=
    matched.move rfl rfl rfl rfl rfl
  have later := follows.part placed outside free bounds arrives moved
  exact later.prepend (.one next) rfl (fun _ _ => rfl) (Nat.le_of_eq (Nat.add_comm fuel 1))

theorem Matches.found (matched : Matches program overflow room session scene)
    {statement : Statement} {address : Nat} (pc : session.pc = address)
    (found : program.commands[address]? = some ⟨line, statement⟩) :
    session.program.commands[session.pc]? = some ⟨line, statement⟩ := by
  rw [matched.runs, pc]
  exact found

theorem Matches.target (matched : Matches program overflow room session scene)
    {address target : Nat} (pc : session.pc = address)
    (linked : program.targets[address]? = some target) :
    session.program.targets[session.pc]? = some target := by
  rw [matched.runs, pc]
  exact linked

theorem Matches.opener (matched : Matches program overflow room session scene)
    {address opener : Nat} (pc : session.pc = address)
    (linked : program.openers[address]? = some opener) :
    session.program.openers[session.pc]? = some opener := by
  rw [matched.runs, pc]
  exact linked

theorem follows_simple (follows : Follows program overflow fuel) {act : Simple}
    (placed : (Tree.simple line act rest).At program start)
    (outside : (Tree.simple line act rest).CallsOutsideLoops) (pc : session.pc = start)
    (matched : Matches program overflow room session scene) :
    Agrees program overflow room (fuel + 1) (start + (Tree.simple line act rest).size)
      ((Tree.simple line act rest).Touches start) session
      ((Tree.simple line act rest).run overflow (fuel + 1) room start scene) := by
  obtain ⟨found, inRest⟩ := placed
  have here := matched.found pc found
  unfold Tree.run
  cases effect : act.effect scene with
  | error fault =>
      rw [← matched.scene_eq] at effect
      obtain ⟨vars, breaks⟩ := Simple.breaks_of_effect effect
      exact .fail matched here (.simple rfl breaks)
  | ok result =>
      rw [← matched.scene_eq] at effect
      have closures := (perform_simple session.past act session.pc effect).2
      have next := (Moves.simple rfl effect).next here
      have updated : Matches program overflow room { session with
          pc := session.pc + 1, vars := result.vars, strokes := result.strokes } result := by
        obtain ⟨vars, others, strokes⟩ := result
        cases closures
        exact matched.update rfl rfl rfl
      refine (follows.part inRest outside (fun free : (Tree.simple line act rest).CallFree => free) ?_
        (congrArg (· + 1) pc) updated).prepend (.one next) rfl (fun _ _ => rfl)
        (Nat.le_of_eq (Nat.add_comm fuel 1))
      simp only [Tree.size]
      omega

theorem follows_ifThen (follows : Follows program overflow fuel)
    (placed : (Tree.ifThen line condition body close rest).At program start)
    (outside : (Tree.ifThen line condition body close rest).CallsOutsideLoops)
    (pc : session.pc = start) (matched : Matches program overflow room session scene) :
    Agrees program overflow room (fuel + 1)
      (start + (Tree.ifThen line condition body close rest).size)
      ((Tree.ifThen line condition body close rest).Touches start) session
      ((Tree.ifThen line condition body close rest).run overflow (fuel + 1) room start scene) := by
  obtain ⟨found, linked, inBody, closes, inRest⟩ := placed
  obtain ⟨bodyOutside, restOutside⟩ := outside
  have here := matched.found pc found
  unfold Tree.run
  rw [← matched.vars]
  cases holds : session.vars.boolean condition with
  | error fault => exact .fail matched here (.asks rfl holds)
  | ok truth =>
      cases truth with
      | true =>
          have enters := (Moves.enters rfl holds).next here
          refine Agrees.seq (start + body.size + 1) (follows.jump enters inBody bodyOutside
            And.left (congrArg (· + 1) pc) ?_ matched) ?_
          · simp only [Tree.size]
            omega
          · intro scene middle pc matched
            have ends := (Moves.ends (.inl rfl)).next (matched.found pc closes)
            refine follows.jump ends inRest restOutside And.right (congrArg (· + 1) pc) ?_ matched
            simp only [Tree.size]
            omega
      | false =>
          have target := matched.target pc linked
          have skips := (Moves.skips rfl holds target).next here
          refine follows.jump skips inRest restOutside And.right rfl ?_ matched
          simp only [Tree.size]
          omega

theorem follows_ifElse (follows : Follows program overflow fuel) {middle : Nat}
    (placed : (Tree.ifElse line condition body middle other close rest).At program start)
    (outside : (Tree.ifElse line condition body middle other close rest).CallsOutsideLoops)
    (pc : session.pc = start) (matched : Matches program overflow room session scene) :
    Agrees program overflow room (fuel + 1)
      (start + (Tree.ifElse line condition body middle other close rest).size)
      ((Tree.ifElse line condition body middle other close rest).Touches start) session
      ((Tree.ifElse line condition body middle other close rest).run overflow (fuel + 1) room start
        scene) := by
  obtain ⟨found, linked, inBody, elses, elseLinked, inOther, closes, inRest⟩ := placed
  obtain ⟨bodyOutside, otherOutside, restOutside⟩ := outside
  have here := matched.found pc found
  unfold Tree.run
  rw [← matched.vars]
  cases holds : session.vars.boolean condition with
  | error fault => exact .fail matched here (.asks rfl holds)
  | ok truth =>
      cases truth with
      | true =>
          have enters := (Moves.enters rfl holds).next here
          refine Agrees.seq (start + body.size + 1) (follows.jump enters inBody bodyOutside
            And.left (congrArg (· + 1) pc) ?_ matched) ?_
          · simp only [Tree.size]
            omega
          · intro scene middle pc matched
            have target := matched.target pc elseLinked
            have leaves := (Moves.leaves target).next (matched.found pc elses)
            refine follows.jump leaves inRest restOutside (fun free => free.2.2) rfl ?_ matched
            simp only [Tree.size]
            omega
      | false =>
          have target := matched.target pc linked
          have skips := (Moves.skips rfl holds target).next here
          refine Agrees.seq (start + body.size + other.size + 2) (follows.jump skips inOther
            otherOutside (fun free => free.2.1) rfl ?_ matched) ?_
          · simp only [Tree.size]
            omega
          · intro scene middle pc matched
            have ends := (Moves.ends (.inl rfl)).next (matched.found pc closes)
            refine follows.jump ends inRest restOutside (fun free => free.2.2)
              (congrArg (· + 1) pc) ?_ matched
            simp only [Tree.size]
            omega

theorem follows_whileDo (follows : Follows program overflow fuel)
    (placed : (Tree.whileDo line condition body close rest).At program start)
    (outside : (Tree.whileDo line condition body close rest).CallsOutsideLoops)
    (pc : session.pc = start) (matched : Matches program overflow room session scene) :
    Agrees program overflow room (fuel + 1)
      (start + (Tree.whileDo line condition body close rest).size)
      ((Tree.whileDo line condition body close rest).Touches start) session
      ((Tree.whileDo line condition body close rest).run overflow (fuel + 1) room start scene) := by
  have whole := placed
  obtain ⟨found, linked, inBody, closes, back, inRest⟩ := placed
  have here := matched.found pc found
  unfold Tree.run
  rw [← matched.vars]
  cases holds : session.vars.boolean condition with
  | error fault => exact .fail matched here (.asks rfl holds)
  | ok truth =>
      cases truth with
      | true =>
          have enters := (Moves.enters rfl holds).next here
          refine Agrees.seq (start + body.size + 1) (follows.jump enters inBody outside.1
            And.left (congrArg (· + 1) pc) ?_ matched) ?_
          · simp only [Tree.size]
            omega
          · -- Behind its body the loop is the same tree again.
            intro scene middle pc matched
            have opener := matched.opener pc back
            have tests := (Moves.tests opener).next (matched.found pc closes)
            exact follows.jump tests whole outside (fun free => free) rfl
              ⟨Nat.le_refl start, rfl, Nat.le_refl _⟩ matched
      | false =>
          have target := matched.target pc linked
          have skips := (Moves.skips rfl holds target).next here
          refine follows.jump skips inRest outside.2 And.right rfl ?_ matched
          simp only [Tree.size]
          omega

theorem rounds_agree (follows : Follows program overflow fuel) {header : ForHeader}
    (opens : program.statement? start = some (.forNext header))
    (inBody : body.At program (start + 1)) (free : body.CallFree)
    (closes : program.commands[start + body.size + 1]? = some ⟨close, .endOf .forBlock⟩)
    (back : program.openers[start + body.size + 1]? = some start) (k : Nat) (fewer : k ≤ fuel)
    {counter : Counter} (pc : session.pc = start + 1)
    (matched : Matches program overflow room session scene)
    (stored : session.loops[start]? = some counter) :
    Agrees program overflow room k (start + body.size + 2)
      (fun address => start ≤ address ∧ address < start + body.size + 2) session
      (Tree.rounds (Tree.run overflow fuel room (start + 1) body) header close k counter scene) := by
  induction k generalizing session scene counter with
  | zero => exact ⟨0, session, Nat.zero_le _, .refl session⟩
  | succ k ih =>
      have agrees := follows room (start + 1) body scene session inBody free.outside pc matched
      rw [Nat.add_right_comm] at agrees
      rw [Tree.rounds]
      refine Agrees.andThen (start + body.size + 1) (agrees.widen (fun _ touches => touches) fewer)
        (fun address touches => ?_) ?_
      · have inside := touches free
        omega
      · intro scene middle pc matched loops
        have kept : middle.loops[start]? = some counter := by
          rw [loops start fun touches => ?_, stored]
          have inside := touches free
          omega
        have here := matched.found pc closes
        have opener := matched.opener pc back
        have opens' : middle.program.statement? start = some (.forNext header) := by
          rw [matched.runs]
          exact opens
        cases advanced : counter.next?.filter (·.isRunning) with
        | none =>
            have ended : ∀ other, middle.loops[start]? = some other →
                other.next?.filter (·.isRunning) = none := by
              intro other found
              cases kept.symm.trans found
              exact advanced
            have next := (Moves.finishes opener opens' ended).next here
            refine ⟨1, _, .one next, congrArg (· + 1) pc, rfl, matched.move rfl rfl rfl rfl rfl, ?_⟩
            intro address apart
            rw [Std.ExtTreeMap.getElem?_erase, if_neg]
            simp only [Nat.compare_eq_eq]
            omega
        | some counter =>
            dsimp only
            rw [← matched.vars]
            cases assigned : middle.vars.assign header.counter (.int counter.current) with
            | error fault =>
                exact .fail matched here (.repeats opener opens' kept advanced assigned)
            | ok vars =>
                have next := (Moves.repeats opener opens' kept advanced assigned).next here
                have updated : Matches program overflow room { middle with
                    pc := start + 1, vars, loops := middle.loops.insert start counter }
                    { scene with vars } := matched.assign rfl rfl rfl rfl
                have again := ih (by omega) rfl updated Std.ExtTreeMap.getElem?_insert_self
                refine again.prepend (.one next) rfl (fun address apart => ?_) (by omega)
                rw [Std.ExtTreeMap.getElem?_insert, if_neg]
                simp only [Nat.compare_eq_eq]
                omega

theorem follows_forNext (follows : Follows program overflow fuel) {header : ForHeader}
    (placed : (Tree.forNext line header body close rest).At program start)
    (outside : (Tree.forNext line header body close rest).CallsOutsideLoops)
    (pc : session.pc = start) (matched : Matches program overflow room session scene) :
    Agrees program overflow room (fuel + 1)
      (start + (Tree.forNext line header body close rest).size)
      ((Tree.forNext line header body close rest).Touches start) session
      ((Tree.forNext line header body close rest).run overflow (fuel + 1) room start scene) := by
  obtain ⟨found, linked, inBody, closes, back, inRest⟩ := placed
  obtain ⟨bodyFree, restOutside⟩ := outside
  have here := matched.found pc found
  have own : (Tree.forNext line header body close rest).Touches start start := by
    intro free
    simp only [Tree.size]
    omega
  unfold Tree.run
  rw [← matched.vars]
  cases bounds : session.vars.counter header with
  | error fault => exact .fail matched here (.counts bounds)
  | ok counter =>
      dsimp only
      cases running : counter.isRunning with
      | true =>
          simp only [↓reduceIte]
          cases assigned : session.vars.assign header.counter (.int counter.current) with
          | error fault =>
              exact .fail matched here (.begins bounds running assigned)
          | ok vars =>
              have next := (Moves.begins bounds running assigned).next here
              have begun : Matches program overflow room { session with
                  pc := session.pc + 1, vars, loops := session.loops.insert session.pc counter }
                  { scene with vars } := matched.assign rfl rfl rfl rfl
              have stored : (session.loops.insert session.pc counter)[start]? = some counter := by
                rw [pc, Std.ExtTreeMap.getElem?_insert_self]
              have rounds := rounds_agree follows (Program.statement?_of_command found) inBody
                bodyFree closes back fuel (Nat.le_refl fuel) (congrArg (· + 1) pc) begun stored
              refine (rounds.andThen (start + body.size + 2) ?_ ?_).prepend (.one next) rfl ?_
                (Nat.le_of_eq (Nat.add_comm fuel 1))
              · intro address inside free
                simp only [Tree.size]
                omega
              · intro scene middle pc matched loops
                refine follows.part inRest restOutside And.right ?_ pc matched
                simp only [Tree.size]
                omega
              · intro address apart
                rw [Std.ExtTreeMap.getElem?_insert, if_neg]
                simp only [Nat.compare_eq_eq]
                rintro rfl
                exact apart (pc ▸ own)
      | false =>
          have next := (Moves.passes bounds running (matched.target pc linked)).next here
          have moved : Matches program overflow room { session with
              pc := start + body.size + 2, loops := session.loops.erase session.pc } scene :=
            matched.move rfl rfl rfl rfl rfl
          refine (follows.part inRest restOutside And.right ?_ rfl moved).prepend (.one next) rfl
            (fun address apart => ?_) (Nat.le_of_eq (Nat.add_comm fuel 1))
          · simp only [Tree.size]
            omega
          · rw [Std.ExtTreeMap.getElem?_erase, if_neg]
            simp only [Nat.compare_eq_eq]
            rintro rfl
            exact apart (pc ▸ own)

theorem follows_method (follows : Follows program overflow fuel) {signature : Signature}
    (legal : ∀ command ∈ program.commands, command.statement.Legal)
    (placed : (Tree.method line signature body close rest).At program start)
    (outside : (Tree.method line signature body close rest).CallsOutsideLoops)
    (pc : session.pc = start) (matched : Matches program overflow room session scene) :
    Agrees program overflow room (fuel + 1)
      (start + (Tree.method line signature body close rest).size)
      ((Tree.method line signature body close rest).Touches start) session
      ((Tree.method line signature body close rest).run overflow (fuel + 1) room start scene) := by
  obtain ⟨found, linked, inBody, closes, back, inRest⟩ := placed
  obtain ⟨bodyOutside, restOutside⟩ := outside
  have next := (Moves.declares (matched.target pc linked)).next
    (matched.found pc found)
  have distinct : (signature.parameters.map (·.name)).Nodup :=
    legal _ (Array.mem_of_getElem? found)
  have declared : Closure.Placed program ⟨⟨signature, start, start + body.size + 1⟩, body⟩ :=
    ⟨inBody, rfl, ⟨close, closes⟩, back, bodyOutside, distinct⟩
  have registered : Matches program overflow room { session with
      pc := start + body.size + 2
      methods := session.methods.register ⟨signature, session.pc, start + body.size + 1⟩ }
      { scene with
        closures := scene.closures.insert (lowercase signature.name)
          ⟨⟨signature, start, start + body.size + 1⟩, body⟩ } := by
    refine ⟨matched.runs, matched.vars, ?_, matched.strokes, ?_, matched.room, matched.overflow⟩
    · dsimp only
      rw [matched.methods, pc]
      exact (Closures.methods_insert scene.closures
        ⟨⟨signature, start, start + body.size + 1⟩, body⟩).symm
    · intro key closure known
      rw [Std.ExtTreeMap.getElem?_insert] at known
      split at known
      · cases known
        exact declared
      · exact matched.placed key closure known
  unfold Tree.run
  refine (follows.part inRest restOutside And.right ?_ rfl registered).prepend (.one next) rfl
    (fun _ _ => rfl) (Nat.le_of_eq (Nat.add_comm fuel 1))
  simp only [Tree.size]
  omega

theorem next_return {closure : Closure} {inner : Nat} {result : Scene}
    (placed : closure.Placed program) (pc : middle.pc = closure.method.last)
    (popped : middle.frames.pop = .ok (session.past.frameOf closure.method, session.frames))
    (matched : Matches program overflow room session scene)
    (ended : Matches program overflow inner middle result) :
    ∃ after, Next middle after ∧ after.pc = session.pc + 1 ∧ after.frames = session.frames ∧
      Matches program overflow room after { result with
        vars := Variables.recover (closure.method.signature.parameters.map (·.name)) scene.vars
          result.vars } := by
  obtain ⟨line, ends⟩ := placed.ends
  have opener := ended.opener pc placed.opener
  have next := (Moves.returns opener popped).next (ended.found pc ends)
  refine ⟨_, next, rfl, rfl, ended.runs, ?_, ended.methods, ended.strokes, ended.placed,
    matched.room, matched.overflow⟩
  dsimp only
  rw [← ended.vars, ← matched.vars]
  exact unbindLocals_eq session.vars middle.vars rfl

theorem follows_call (follows : Follows program overflow fuel) {name : String}
    {arguments : List String} (placed : (Tree.call line name arguments rest).At program start)
    (outside : (Tree.call line name arguments rest).CallsOutsideLoops) (pc : session.pc = start)
    (matched : Matches program overflow room session scene) :
    Agrees program overflow room (fuel + 1)
      (start + (Tree.call line name arguments rest).size)
      ((Tree.call line name arguments rest).Touches start) session
      ((Tree.call line name arguments rest).run overflow (fuel + 1) room start scene) := by
  obtain ⟨found, inRest⟩ := placed
  have here := matched.found pc found
  have anywhere (address : Nat) : (Tree.call line name arguments rest).Touches start address :=
    fun free => free.elim
  unfold Tree.run
  rw [← matched.vars]
  cases known : scene.closures[lowercase name]? with
  | none =>
      have unknown : session.methods.get? name = none := by
        rw [matched.methods, Closures.get?_methods, known]
        rfl
      exact .fail matched here (.unknown unknown)
  | some closure =>
      dsimp only
      have declared := matched.placed _ closure known
      have registered : session.methods.get? name = some closure.method := by
        rw [matched.methods, Closures.get?_methods, known]
        rfl
      cases entered : session.vars.enter closure.method.signature arguments with
      | error fault =>
          obtain ⟨stopped, fails⟩ := fails_of_enter registered entered
          exact .fail matched here fails
      | ok vars =>
          obtain ⟨bindings, evaluated, -⟩ := bind_eq_ok.mp entered
          have frame := frameFor_eq session.past declared.distinct evaluated
          cases room with
          | zero =>
              have full := Stack.push_full (Nat.le_of_eq matched.room.symm)
                (session.past.frameFor closure.method bindings)
              rw [matched.overflow] at full
              exact .fail matched here (.overflows registered evaluated entered full)
          | succ inner =>
              have space : session.frames.size < session.frames.limit := by
                have sum := matched.room
                omega
              obtain ⟨frames, pushed, limit, overflows, size, popped⟩ :=
                Stack.push_room space (session.past.frameOf closure.method)
              have next := (Moves.calls registered evaluated entered (frame ▸ pushed)).next here
              have inside : Matches program overflow inner { session with
                  pc := closure.method.address + 1, vars, frames } { scene with vars } := by
                refine ⟨matched.runs, rfl, matched.methods, matched.strokes, matched.placed, ?_,
                  overflows.trans matched.overflow⟩
                have sum := matched.room
                dsimp only
                omega
              have body := follows inner (closure.method.address + 1) closure.body _ _ declared.body
                declared.outside rfl inside
              dsimp only
              rw [matched.vars]
              cases outcome : closure.body.run overflow fuel inner (closure.method.address + 1)
                { scene with vars } with
              | failed fault strokes =>
                  rw [outcome] at body
                  obtain ⟨n, last, after, steps, crashes, same⟩ := body
                  exact ⟨n + 1, last, after, .head next steps, crashes, same⟩
              | unfinished =>
                  rw [outcome] at body
                  obtain ⟨n, after, enough, steps⟩ := body
                  exact ⟨n + 1, after, Nat.succ_le_succ enough, .head next steps⟩
              | finished result =>
                  rw [outcome] at body
                  obtain ⟨n, middle, steps, pc', frames', ended, -⟩ := body
                  have atEnd : middle.pc = closure.method.last := by
                    rw [pc', declared.last]
                    omega
                  have top := (congrArg Stack.pop frames').trans popped
                  obtain ⟨after, back, behind, below, returned⟩ :=
                    next_return declared atEnd top matched ended
                  refine (follows.part inRest outside
                    (fun free : (Tree.call line name arguments rest).CallFree => free.elim) ?_
                    (behind.trans (congrArg (· + 1) pc)) returned).prepend
                    (.head next (steps.tail back)) below
                    (fun address apart => absurd (anywhere address) apart) (by omega)
                  simp only [Tree.size]
                  omega

/-- The fuel goes down with each statement on the way in, so that it is what the induction is on. -/
theorem follows (legal : ∀ command ∈ program.commands, command.statement.Legal) (fuel : Nat) :
    Follows program overflow fuel := by
  induction fuel with
  | zero =>
      intro room start tree scene session placed outside pc matched
      exact ⟨0, session, Nat.zero_le _, .refl session⟩
  | succ fuel ih =>
      intro room start tree scene session placed outside pc matched
      cases tree with
      | done => exact ⟨0, session, .refl session, pc, rfl, matched, fun _ _ => rfl⟩
      | simple line act rest => exact follows_simple ih placed outside pc matched
      | call line name arguments rest => exact follows_call ih placed outside pc matched
      | ifThen line condition body close rest => exact follows_ifThen ih placed outside pc matched
      | ifElse line condition body middle other close rest =>
          exact follows_ifElse ih placed outside pc matched
      | whileDo line condition body close rest =>
          exact follows_whileDo ih placed outside pc matched
      | forNext line header body close rest =>
          exact follows_forNext ih placed outside pc matched
      | method line signature body close rest =>
          exact follows_method ih legal placed outside pc matched

end Session

end Easel
