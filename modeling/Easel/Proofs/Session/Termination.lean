import Easel.Proofs.Session.Batches
import Easel.Proofs.Session.Frames

/-! Without `while`, every run comes to an end. What bounds it is the room for calls, then the tree
that is run, then what is left to count in a loop. A call may discard a loop around it, but it never
sets one back. -/

namespace Easel

namespace Counter

variable {counter next : Counter}

def remaining (counter : Counter) : Nat :=
  if 0 < counter.step then (counter.limit.toInt - counter.current.toInt).toNat
  else (counter.current.toInt - counter.limit.toInt).toNat

theorem next?_eq_some (advanced : counter.next? = some next) :
    next.current.toInt = counter.current.toInt + counter.step.toInt ∧
      next.limit = counter.limit ∧ next.step = counter.step := by
  unfold next? at advanced
  simp only [Bool.and_eq_true, decide_eq_true_eq, Option.ite_none_right_eq_some] at advanced
  obtain ⟨⟨above, below⟩, advanced⟩ := advanced
  cases advanced
  refine ⟨?_, rfl, rfl⟩
  exact Int32.toInt_ofInt_of_le above (Int.lt_of_le_of_lt below (by decide))

theorem step_toInt_ne (moving : counter.step ≠ 0) : counter.step.toInt ≠ 0 :=
  fun same => moving (Int32.toInt_inj.mp same)

theorem remaining_lt (moving : counter.step ≠ 0)
    (advanced : counter.next?.filter (·.isRunning) = some next) :
    next.step = counter.step ∧ next.remaining < counter.remaining := by
  obtain ⟨stepped, running⟩ := Option.filter_eq_some_iff.mp advanced
  obtain ⟨current, limit, step⟩ := next?_eq_some stepped
  refine ⟨step, ?_⟩
  have moves := step_toInt_ne moving
  unfold isRunning at running
  unfold remaining
  rw [step, limit] at running
  rw [step, limit]
  by_cases up : 0 < counter.step
  · rw [if_pos up, decide_eq_true_eq, Int32.le_iff_toInt_le] at running
    rw [if_pos up, if_pos up]
    rw [Int32.lt_iff_toInt_lt] at up
    have zero : (0 : Int32).toInt = 0 := rfl
    omega
  · rw [if_neg up, decide_eq_true_eq, Int32.le_iff_toInt_le] at running
    rw [if_neg up, if_neg up]
    rw [Int32.lt_iff_toInt_lt] at up
    have zero : (0 : Int32).toInt = 0 := rfl
    omega

end Counter

theorem Variables.step_of_counter {vars : Variables} {header : ForHeader} {counter : Counter}
    (bounds : vars.counter header = .ok counter) : counter.step ≠ 0 := by
  unfold Variables.counter at bounds
  obtain ⟨current, -, bounds⟩ := bind_eq_ok.mp bounds
  obtain ⟨limit, -, bounds⟩ := bind_eq_ok.mp bounds
  obtain ⟨step, -, bounds⟩ := bind_eq_ok.mp bounds
  cases bounds
  dsimp only
  split
  · decide
  · assumption

structure Program.HasBody (program : Program) (method : Method) (body : Tree) : Prop where
  inside : body.At program (method.address + 1)
  last : method.last = method.address + body.size + 1
  ends : ∃ line, program.commands[method.last]? = some ⟨line, .endOf .methodBlock⟩

namespace Tree

variable {program : Program} {start : Nat} {method : Method}

theorem body_of_declared (tree : Tree) (placed : tree.At program start)
    (declared : program.Declares method) (above : start ≤ method.address)
    (below : method.address < start + tree.size) : ∃ body, program.HasBody method body := by
  have other {address line : Nat} {statement : Statement}
      (found : program.commands[address]? = some ⟨line, statement⟩)
      (differs : statement ≠ .method method.signature) : method.address ≠ address := by
    rintro rfl
    have same := declared.statement
    rw [Program.statement?_of_command found] at same
    exact differs (Option.some.inj same)
  induction tree generalizing start with
  | done =>
      simp only [size] at below
      omega
  | simple line act rest ih =>
      have notHere := other placed.1 (by cases act <;> simp [Simple.statement])
      simp only [size] at below
      exact ih placed.2 (by omega) (by omega)
  | call line name arguments rest ih =>
      have notHere := other placed.1 (by simp)
      simp only [size] at below
      exact ih placed.2 (by omega) (by omega)
  | ifElse line condition body middle other' close rest first second third =>
      obtain ⟨opens, -, inBody, elses, -, inOther, closes, inRest⟩ := placed
      have notFirst := other opens (by simp)
      have notMiddle := other elses (by simp)
      have notLast := other closes (by simp)
      simp only [size] at below
      by_cases early : method.address < start + body.size + 1
      · exact first inBody (by omega) (by omega)
      · by_cases late : method.address < start + body.size + other'.size + 2
        · exact second inOther (by omega) (by omega)
        · exact third inRest (by omega) (by omega)
  | ifThen line condition body close rest inner outer =>
      obtain ⟨opens, -, inBody, closes, inRest⟩ := placed
      have notFirst := other opens (by simp)
      have notLast := other closes (by simp)
      simp only [size] at below
      by_cases early : method.address < start + body.size + 1
      · exact inner inBody (by omega) (by omega)
      · exact outer inRest (by omega) (by omega)
  | whileDo line condition body close rest inner outer
  | forNext line header body close rest inner outer =>
      obtain ⟨opens, -, inBody, closes, -, inRest⟩ := placed
      have notFirst := other opens (by simp)
      have notLast := other closes (by simp)
      simp only [size] at below
      by_cases early : method.address < start + body.size + 1
      · exact inner inBody (by omega) (by omega)
      · exact outer inRest (by omega) (by omega)
  | method line signature body close rest inner outer =>
      obtain ⟨opens, linked, inBody, closes, -, inRest⟩ := placed
      have notLast := other closes (by simp)
      simp only [size] at below
      by_cases here : method.address = start
      · have target := declared.target
        rw [here, linked] at target
        have last := Option.some.inj target
        exact ⟨body, here ▸ inBody, by omega, close, by rw [← last]; exact closes⟩
      · by_cases early : method.address < start + body.size + 1
        · exact inner inBody (by omega) (by omega)
        · exact outer inRest (by omega) (by omega)

end Tree

theorem Program.HasTree.body_of_declared {program : Program} {tree : Tree} {method : Method}
    (has : program.HasTree tree) (declared : program.Declares method) :
    ∃ body, program.HasBody method body := by
  have below := Program.statement?_lt declared.statement
  rw [has.size] at below
  exact tree.body_of_declared has.at declared (Nat.zero_le _) (by omega)

namespace Session

def Within (fewer more : Std.ExtTreeMap Nat Counter) : Prop :=
  ∀ (address : Nat) (counter : Counter), fewer[address]? = some counter →
    more[address]? = some counter

namespace Within

variable {fewer more : Std.ExtTreeMap Nat Counter} {first : Nat} {counter : Counter}

theorem erase (within : Within fewer more) (first : Nat) : Within (fewer.erase first) more := by
  intro address counter found
  rw [Std.ExtTreeMap.getElem?_erase] at found
  split at found
  · cases found
  · exact within address counter found

theorem erase_insert (within : Within fewer (more.insert first counter)) :
    Within (fewer.erase first) more := by
  intro address counter found
  rw [Std.ExtTreeMap.getElem?_erase] at found
  split at found
  · cases found
  · rename_i apart
    have stored := within address counter found
    rw [Std.ExtTreeMap.getElem?_insert, if_neg apart] at stored
    exact stored

theorem insert (within : Within (fewer.erase first) more) (counter : Counter) :
    Within (fewer.insert first counter) (more.insert first counter) := by
  intro address other found
  rw [Std.ExtTreeMap.getElem?_insert] at found ⊢
  by_cases same : compare first address = .eq
  · rw [if_pos same] at found ⊢
    exact found
  · rw [if_neg same] at found ⊢
    apply within address other
    rw [Std.ExtTreeMap.getElem?_erase, if_neg same]
    exact found

end Within

/-! ### What the statements of a block do -/

namespace Moves

variable {session after : Session}

theorem of_simple {act : Simple} (moves : Moves session act.statement after) :
    after.pc = session.pc + 1 ∧ after.frames = session.frames ∧ after.loops = session.loops := by
  cases act <;> cases moves
  all_goals first
    | exact ⟨rfl, rfl, rfl⟩
    | contradiction

theorem of_ifThen {condition : String} (moves : Moves session (.ifThen condition) after) :
    after = session.past ∨ ∃ target, session.program.targets[session.pc]? = some target ∧
      after = { session with pc := target + 1 } := by
  cases moves with
  | @simple _ act _ _ plain effect => cases act <;> cases plain
  | enters tests holds => exact .inl rfl
  | skips tests fails linked => exact .inr ⟨_, linked, rfl⟩

theorem of_otherwise (moves : Moves session .otherwise after) :
    ∃ target, session.program.targets[session.pc]? = some target ∧
      after = { session with pc := target + 1 } := by
  cases moves with
  | @simple _ act _ _ plain effect => cases act <;> cases plain
  | enters tests | skips tests => cases tests
  | leaves linked => exact ⟨_, linked, rfl⟩

theorem of_endIf (moves : Moves session (.endOf .ifBlock) after) : after = session.past := by
  cases moves with
  | @simple _ act _ _ plain effect => cases act <;> cases plain
  | enters tests | skips tests => cases tests
  | ends plain => rfl

theorem of_forNext {header : ForHeader} (moves : Moves session (.forNext header) after) :
    ∃ counter, session.vars.counter header = .ok counter ∧
      ((counter.isRunning = true ∧ ∃ vars,
          session.vars.assign header.counter (.int counter.current) = .ok vars ∧
          after = { session with
            pc := session.pc + 1, vars, loops := session.loops.insert session.pc counter }) ∨
        counter.isRunning = false ∧ ∃ target, session.program.targets[session.pc]? = some target ∧
          after = { session with pc := target + 1, loops := session.loops.erase session.pc }) := by
  cases moves with
  | @simple _ act _ _ plain effect => cases act <;> cases plain
  | enters tests | skips tests => cases tests
  | begins bounds running assigned => exact ⟨_, bounds, .inl ⟨running, _, assigned, rfl⟩⟩
  | passes bounds ended linked => exact ⟨_, bounds, .inr ⟨ended, _, linked, rfl⟩⟩

theorem of_endFor {opener : Nat} (linked : session.program.openers[session.pc]? = some opener)
    (moves : Moves session (.endOf .forBlock) after) :
    ∃ header, session.program.statement? opener = some (.forNext header) ∧
      ((∃ counter next vars, session.loops[opener]? = some counter ∧
          counter.next?.filter (·.isRunning) = some next ∧
          session.vars.assign header.counter (.int next.current) = .ok vars ∧
          after = { session with
            pc := opener + 1, vars, loops := session.loops.insert opener next }) ∨
        (∀ counter, session.loops[opener]? = some counter →
          counter.next?.filter (·.isRunning) = none) ∧
          after = { session with pc := session.pc + 1, loops := session.loops.erase opener }) := by
  cases moves with
  | @simple _ act _ _ plain effect => cases act <;> cases plain
  | enters tests | skips tests => cases tests
  | ends plain => rcases plain with plain | plain <;> cases plain
  | repeats linked' opens stored advanced assigned =>
      cases linked.symm.trans linked'
      exact ⟨_, opens, .inl ⟨_, _, _, stored, advanced, assigned, rfl⟩⟩
  | finishes linked' opens ended =>
      cases linked.symm.trans linked'
      exact ⟨_, opens, .inr ⟨ended, rfl⟩⟩

theorem of_method {signature : Signature} (moves : Moves session (.method signature) after) :
    ∃ last, session.program.targets[session.pc]? = some last ∧
      after.pc = last + 1 ∧ after.frames = session.frames ∧ after.loops = session.loops := by
  cases moves with
  | @simple _ act _ _ plain effect => cases act <;> cases plain
  | enters tests | skips tests => cases tests
  | declares linked => exact ⟨_, linked, rfl, rfl, rfl⟩

theorem of_endMethod (moves : Moves session (.endOf .methodBlock) after) {frame : Frame}
    {frames : Stack Frame} (popped : session.frames.pop = .ok (frame, frames)) :
    after.pc = frame.returnTo ∧ after.frames = frames ∧ after.loops = session.loops := by
  cases moves with
  | @simple _ act _ _ plain effect => cases act <;> cases plain
  | enters tests | skips tests => cases tests
  | ends plain => rcases plain with plain | plain <;> cases plain
  | falls linked idle =>
      rw [Stack.pop_ok _ _ _ popped] at idle
      cases idle
  | returns linked popped' =>
      cases popped.symm.trans popped'
      exact ⟨rfl, rfl, rfl⟩

end Moves

/-! ### Trees run to their end -/

section Trees

/-- The session runs the program and is at the address, with the frames and with no loops but these. -/
structure Stands (program : Program) (address : Nat) (frames : Stack Frame)
    (loops : Std.ExtTreeMap Nat Counter) (session : Session) : Prop where
  sound : session.Sound
  runs : session.program = program
  pc : session.pc = address
  frames : session.frames = frames
  loops : Within session.loops loops

/-- The run comes to such a state, or fails before. -/
def Arrives (program : Program) (address : Nat) (frames : Stack Frame)
    (loops : Std.ExtTreeMap Nat Counter) (session : Session) : Prop :=
  (∃ n middle fault after, Steps n session middle ∧ Crashes middle fault after) ∨
    ∃ n after, Steps n session after ∧ Stands program address frames loops after

variable {program : Program} {start stop line close room : Nat} {frames outer : Stack Frame}
  {loops others : Std.ExtTreeMap Nat Counter} {session after : Session} {body other rest : Tree}

theorem Stands.move (stands : Stands program start frames loops session) (sound : after.Sound)
    (runs : after.program = program) (pc : after.pc = stop)
    (sameFrames : after.frames = session.frames) (sameLoops : after.loops = session.loops) :
    Stands program stop frames loops after where
  sound := sound
  runs := runs
  pc := pc
  frames := sameFrames.trans stands.frames
  loops := sameLoops ▸ stands.loops

theorem Stands.target_eq (stands : Stands program start frames loops session) {last target : Nat}
    (linked : program.targets[start]? = some last)
    (found : session.program.targets[session.pc]? = some target) : target = last := by
  rw [stands.runs, stands.pc, linked] at found
  exact (Option.some.inj found).symm

namespace Arrives

theorem here (stands : Stands program stop frames loops session) :
    Arrives program stop frames loops session :=
  .inr ⟨0, session, .refl session, stands⟩

theorem prepend {n : Nat} {middle : Session} (steps : Steps n session middle)
    (arrives : Arrives program stop frames loops middle) :
    Arrives program stop frames loops session := by
  rcases arrives with ⟨m, last, fault, after, late, crashes⟩ | ⟨m, after, late, stands⟩
  · exact .inl ⟨n + m, last, fault, after, steps.trans late, crashes⟩
  · exact .inr ⟨n + m, after, steps.trans late, stands⟩

theorem andThen (arrives : Arrives program start outer others session)
    (later : ∀ middle, Stands program start outer others middle →
      Arrives program stop frames loops middle) : Arrives program stop frames loops session := by
  rcases arrives with crashes | ⟨n, middle, steps, stands⟩
  · exact .inl crashes
  · exact prepend steps (later middle stands)

theorem step {statement : Statement} (stands : Stands program start outer others session)
    (found : program.commands[start]? = some ⟨line, statement⟩)
    (later : ∀ after, Moves session statement after → after.Sound → after.program = program →
      Arrives program stop frames loops after) : Arrives program stop frames loops session := by
  have sound := stands.sound
  have here : session.program.commands[session.pc]? = some ⟨line, statement⟩ := by
    rw [stands.runs, stands.pc]
    exact found
  rcases halted_or_next_or_crashes session with halted | ⟨after, next⟩ | ⟨fault, after, crashes⟩
  · rw [halted_iff.mp halted] at here
    cases here
  · obtain ⟨statement', found', moves⟩ := next.moves
    rw [Program.statement?_of_command here] at found'
    cases found'
    exact prepend (.one next)
      (later after moves (sound.next next) (moves.program_eq.trans stands.runs))
  · exact .inl ⟨0, session, fault, after, .refl session, crashes⟩

end Arrives

/-- Where there is room for no more than so many calls, the tree runs to its end or fails. -/
def Ends (program : Program) (room start : Nat) (tree : Tree) : Prop :=
  ∀ frames loops session stop, frames.limit ≤ frames.size + room → stop = start + tree.size →
    Stands program start frames loops session → Arrives program stop frames loops session

theorem ends_done : Ends program room start .done := by
  intro frames loops session stop bound size stands
  subst size
  exact .here stands

theorem ends_simple {act : Simple} (placed : (Tree.simple line act rest).At program start)
    (later : Ends program room (start + 1) rest) :
    Ends program room start (.simple line act rest) := by
  intro frames loops session stop bound size stands
  apply Arrives.step stands placed.1
  intro after moves sound runs
  obtain ⟨pc, sameFrames, sameLoops⟩ := moves.of_simple
  rw [stands.pc] at pc
  apply later frames loops after stop bound
  · simp only [Tree.size] at size
    omega
  · exact stands.move sound runs pc sameFrames sameLoops

theorem arrives_endIf {last : Nat} (stands : Stands program last frames loops session)
    (bound : frames.limit ≤ frames.size + room)
    (closes : program.commands[last]? = some ⟨close, .endOf .ifBlock⟩)
    (later : Ends program room (last + 1) rest) (size : stop = last + 1 + rest.size) :
    Arrives program stop frames loops session := by
  apply Arrives.step stands closes
  intro after moves sound runs
  cases moves.of_endIf
  apply later frames loops session.past stop bound size
  exact stands.move sound runs (congrArg (· + 1) stands.pc) rfl rfl

theorem ends_ifThen {condition : String}
    (placed : (Tree.ifThen line condition body close rest).At program start)
    (inner : Ends program room (start + 1) body)
    (later : Ends program room (start + body.size + 2) rest) :
    Ends program room start (.ifThen line condition body close rest) := by
  obtain ⟨opens, linked, -, closes, -⟩ := placed
  intro frames loops session stop bound size stands
  simp only [Tree.size] at size
  apply Arrives.step stands opens
  intro after moves sound runs
  rcases moves.of_ifThen with rfl | ⟨target, linked', rfl⟩
  · have entered := inner frames loops session.past (start + body.size + 1) bound (by omega)
      (stands.move sound runs (congrArg (· + 1) stands.pc) rfl rfl)
    apply entered.andThen
    intro middle stands
    exact arrives_endIf stands bound closes later (by omega)
  · cases stands.target_eq linked linked'
    exact later frames loops _ stop bound (by omega) (stands.move sound runs rfl rfl rfl)

theorem ends_ifElse {condition : String} {between : Nat}
    (placed : (Tree.ifElse line condition body between other close rest).At program start)
    (first : Ends program room (start + 1) body)
    (second : Ends program room (start + body.size + 2) other)
    (later : Ends program room (start + body.size + other.size + 3) rest) :
    Ends program room start (.ifElse line condition body between other close rest) := by
  obtain ⟨opens, linked, -, elses, skips, -, closes, -⟩ := placed
  intro frames loops session stop bound size stands
  simp only [Tree.size] at size
  apply Arrives.step stands opens
  intro after moves sound runs
  rcases moves.of_ifThen with rfl | ⟨target, linked', rfl⟩
  · have entered := first frames loops session.past (start + body.size + 1) bound (by omega)
      (stands.move sound runs (congrArg (· + 1) stands.pc) rfl rfl)
    apply entered.andThen
    intro middle stands
    apply Arrives.step stands elses
    intro after moves sound runs
    obtain ⟨target, linked', rfl⟩ := moves.of_otherwise
    cases stands.target_eq skips linked'
    exact later frames loops _ stop bound (by omega) (stands.move sound runs rfl rfl rfl)
  · cases stands.target_eq linked linked'
    have entered := second frames loops _ (start + body.size + other.size + 2) bound (by omega)
      (stands.move sound runs rfl rfl rfl)
    apply entered.andThen
    intro middle stands
    exact arrives_endIf stands bound closes later (by omega)

/-- The rounds of a loop from the beginning of its body. If the loop is still stored at the end of a
round, then as it was at the beginning, so that the next round has less to count. -/
theorem arrives_rounds {header : ForHeader} {counter : Counter}
    (placed : (Tree.forNext line header body close rest).At program start)
    (inner : Ends program room (start + 1) body)
    (later : Ends program room (start + body.size + 2) rest)
    (bound : frames.limit ≤ frames.size + room) (size : stop = start + body.size + 2 + rest.size)
    (moving : counter.step ≠ 0)
    (stands : Stands program (start + 1) frames (loops.insert start counter) session) :
    Arrives program stop frames loops session := by
  have ⟨_, _, _, closes, back, _⟩ := placed
  induction left : counter.remaining using Nat.strongRecOn generalizing counter session with
  | ind distance ih =>
      have round := inner frames _ session (start + body.size + 1) bound (by omega) stands
      apply round.andThen
      intro middle stands
      apply Arrives.step stands closes
      intro after moves sound runs
      have linked : middle.program.openers[middle.pc]? = some start := by
        rw [stands.runs, stands.pc]
        exact back
      have behind := stands.loops.erase_insert
      obtain ⟨_, -, ⟨counter', next, vars, stored, advanced, -, rfl⟩ | ⟨-, rfl⟩⟩ :=
        moves.of_endFor linked
      · have same := stands.loops start counter' stored
        rw [Std.ExtTreeMap.getElem?_insert_self] at same
        cases same
        obtain ⟨step, less⟩ := Counter.remaining_lt moving advanced
        exact ih next.remaining (left ▸ less) (step ▸ moving)
          ⟨sound, runs, rfl, stands.frames, behind.insert next⟩ rfl
      · exact later frames loops _ stop bound size
          ⟨sound, runs, congrArg (· + 1) stands.pc, stands.frames, behind⟩

theorem ends_forNext {header : ForHeader}
    (placed : (Tree.forNext line header body close rest).At program start)
    (inner : Ends program room (start + 1) body)
    (later : Ends program room (start + body.size + 2) rest) :
    Ends program room start (.forNext line header body close rest) := by
  have ⟨opens, linked, _⟩ := placed
  intro frames loops session stop bound size stands
  simp only [Tree.size] at size
  apply Arrives.step stands opens
  intro after moves sound runs
  have behind := stands.loops.erase start
  obtain ⟨counter, bounds, ⟨-, vars, -, rfl⟩ | ⟨-, target, linked', rfl⟩⟩ := moves.of_forNext
  · have moving := Variables.step_of_counter bounds
    apply arrives_rounds placed inner later bound (by omega) moving
    refine ⟨sound, runs, congrArg (· + 1) stands.pc, stands.frames, ?_⟩
    rw [stands.pc]
    exact behind.insert counter
  · cases stands.target_eq linked linked'
    rw [← stands.pc] at behind
    exact later frames loops _ stop bound (by omega) ⟨sound, runs, rfl, stands.frames, behind⟩

theorem ends_method {signature : Signature}
    (placed : (Tree.method line signature body close rest).At program start)
    (later : Ends program room (start + body.size + 2) rest) :
    Ends program room start (.method line signature body close rest) := by
  obtain ⟨opens, linked, -⟩ := placed
  intro frames loops session stop bound size stands
  simp only [Tree.size] at size
  apply Arrives.step stands opens
  intro after moves sound runs
  obtain ⟨last, linked', pc, sameFrames, sameLoops⟩ := moves.of_method
  cases stands.target_eq linked linked'
  exact later frames loops after stop bound (by omega)
    (stands.move sound runs pc sameFrames sameLoops)

theorem ends_call {name : String} {arguments : List String}
    (placed : (Tree.call line name arguments rest).At program start)
    (bodies : ∀ method, program.Declares method → ∃ body, program.HasBody method body)
    (deeper : ∀ fewer, fewer < room → ∀ (tree : Tree) (inner : Nat), tree.At program inner →
      Ends program fewer inner tree)
    (later : Ends program room (start + 1) rest) :
    Ends program room start (.call line name arguments rest) := by
  intro frames loops session stop bound size stands
  simp only [Tree.size] at size
  apply Arrives.step stands placed.1
  intro after moves sound runs
  obtain ⟨method, bindings, vars, pushed', known, -, -, pushed, rfl⟩ := moves.of_call
  obtain ⟨body, hasBody⟩ := bodies method (stands.runs ▸ stands.sound.registered name method known)
  obtain ⟨close, closes⟩ := hasBody.ends
  rw [stands.frames] at pushed
  have space : frames.size < frames.limit := by
    by_contra full
    rw [Stack.push_full (Nat.not_lt.mp full)] at pushed
    cases pushed
  obtain ⟨_, same, limit, -, grown, popped⟩ :=
    Stack.push_room space (session.past.frameFor method bindings)
  cases pushed.symm.trans same
  have entered := deeper (room - 1) (by omega) body (method.address + 1) hasBody.inside
    pushed' loops _ method.last (by omega) (by have := hasBody.last; omega)
    ⟨sound, runs, rfl, rfl, stands.loops⟩
  apply entered.andThen
  intro middle inside
  apply Arrives.step inside closes
  intro final moves sound runs
  rw [← inside.frames] at popped
  obtain ⟨pc, sameFrames, sameLoops⟩ := moves.of_endMethod popped
  exact later frames loops final stop bound (by omega)
    ⟨sound, runs, pc.trans (congrArg (· + 1) stands.pc), sameFrames, sameLoops ▸ inside.loops⟩

theorem ends (bodies : ∀ method, program.Declares method → ∃ body, program.HasBody method body)
    (noWhile : ∀ address condition, program.statement? address ≠ some (.whileDo condition))
    (room : Nat) (tree : Tree) (start : Nat) (placed : tree.At program start) :
    Ends program room start tree := by
  induction room using Nat.strongRecOn generalizing tree start with
  | ind room deeper =>
      induction tree generalizing start with
      | done => exact ends_done
      | simple line act rest ih => exact ends_simple placed (ih _ placed.2)
      | call line name arguments rest ih => exact ends_call placed bodies deeper (ih _ placed.2)
      | ifThen line condition body close rest inner outer =>
          have ⟨_, _, inBody, _, inRest⟩ := placed
          exact ends_ifThen placed (inner _ inBody) (outer _ inRest)
      | ifElse line condition body middle other close rest first second third =>
          have ⟨_, _, inBody, _, _, inOther, _, inRest⟩ := placed
          exact ends_ifElse placed (first _ inBody) (second _ inOther) (third _ inRest)
      | whileDo line condition body close rest inner outer =>
          exact absurd (Program.statement?_of_command placed.1) (noWhile start condition)
      | forNext line header body close rest inner outer =>
          have ⟨_, _, inBody, _, _, inRest⟩ := placed
          exact ends_forNext placed (inner _ inBody) (outer _ inRest)
      | method line signature body close rest inner outer =>
          exact ends_method placed (outer _ placed.2.2.2.2.2)

theorem Arrives.ending (arrives : Arrives program program.size frames loops session) :
    ∃ n, (ending? (execute n session)).isSome = true := by
  rcases arrives with ⟨n, middle, fault, after, steps, crashes⟩ | ⟨n, after, steps, stands⟩
  · refine ⟨n + 1, ?_⟩
    rw [execute_steps steps, execute_crashes crashes]
    rfl
  · have halted : after.Halted := Nat.le_of_eq (by rw [stands.runs, stands.pc])
    refine ⟨n + 0, ?_⟩
    rw [execute_steps steps, execute_halted halted]
    rfl

end Trees

/-! ### Whole runs -/

variable {session : Session}

theorem fresh_of_start {first : Session}
    (started : start session = .ok () first ∨ ∃ fault, start session = .error fault first) :
    ∃ vars, first = { session.fresh with vars } := by
  rcases started with started | ⟨fault, failed⟩
  · exact start_fresh started
  · cases grown : Variables.seeded session.program.seeds.toList with
    | ok vars =>
        rw [start_ok session grown] at failed
        cases failed
    | error cause =>
        obtain ⟨vars, stopped⟩ := start_error session grown
        rw [stopped] at failed
        cases failed
        exact ⟨vars, rfl⟩

theorem fresh_ends {source : String} (session : Session)
    (compiled : Program.compile source = .ok session.program)
    (noWhile : ∀ command ∈ session.program.commands, ∀ condition,
      command.statement ≠ .whileDo condition) (vars : Variables) :
    ∃ n, (ending? (execute n { session.fresh with vars })).isSome = true := by
  obtain ⟨tree, has⟩ := Program.compile_hasTree source session.program compiled
  have none : ∀ address condition,
      session.program.statement? address ≠ some (.whileDo condition) := by
    intro address condition found
    obtain ⟨command, found, same⟩ := Option.map_eq_some_iff.mp found
    exact noWhile command (Array.mem_of_getElem? found) condition same
  have whole := ends (fun _ => has.body_of_declared) none session.frames.limit tree 0 has.at
  apply Arrives.ending
  apply whole session.frames.clear ∅
  · exact Nat.le_add_left _ _
  · rw [has.size, Nat.zero_add]
  · exact ⟨sound_fresh compiled vars, rfl, rfl, rfl, fun _ _ found => found⟩

theorem ended_canvas (n : Nat) (session : Session) (strokes : Array Stroke) :
    (ending? (execute n { session with strokes })).isSome =
      (ending? (execute n session)).isSome := by
  have alike : ∀ canvas, (ending? (execute n { session with strokes := canvas })).isSome =
      (ending? (execute n { session with strokes := #[] })).isSome := by
    intro canvas
    have behind : { session with strokes := canvas } =
        { session with strokes := #[] }.behind canvas := by
      simp [Session.behind]
    rw [behind, execute_unheeding, ending?_resultBehind, Option.isSome_map]
  rw [alike strokes, ← alike session.strokes]

theorem ended_iff {result : EStateM.Result Error Session Event} :
    (ending? result).isSome = true ↔
      (∃ last, result = .ok .stopped last) ∨ ∃ fault last, result = .error fault last := by
  cases result with
  | error fault last => simp [ending?]
  | ok event last => cases event <;> simp [ending?]

/-- A program without `while` comes to an end, by itself or with a fault, within a number of
statements that does not depend on the canvas, however its methods call each other. -/
theorem run_without_while_ends (source : String) (session first : Session)
    (compiled : Program.compile source = .ok session.program)
    (noWhile : ∀ command ∈ session.program.commands, ∀ condition,
      command.statement ≠ .whileDo condition)
    (started : start session = .ok () first ∨ ∃ fault, start session = .error fault first) :
    ∃ n, ∀ strokes, (∃ last, execute n { first with strokes } = .ok .stopped last) ∨
      ∃ fault last, execute n { first with strokes } = .error fault last := by
  obtain ⟨vars, rfl⟩ := fresh_of_start started
  obtain ⟨n, ended⟩ := fresh_ends session compiled noWhile vars
  refine ⟨n, fun strokes => ?_⟩
  apply ended_iff.mp
  rw [ended_canvas]
  exact ended

def mutualLoops : String :=
  "method int f\nfor i = 1 to 9\ncall g\nend for\nend method\n" ++
    "method int g\nif i < 5\ncall f\nend if\nend method\ncall f"

theorem run_of_mutual_loops_ends :
    ∃ session first, Program.compile mutualLoops = .ok session.program ∧
      (∀ command ∈ session.program.commands, ∀ condition,
        command.statement ≠ .whileDo condition) ∧
      start session = .ok () first ∧
      ∃ n, ∀ strokes, (∃ last, execute n { first with strokes } = .ok .stopped last) ∨
        ∃ fault last, execute n { first with strokes } = .error fault last := by
  have compiles : Program.compilesTo mutualLoops (fun program => program.seeds.isEmpty &&
      program.commands.all (·.statement.opens? != some .whileBlock)) = true := by decide +kernel
  obtain ⟨program, compiled, checked⟩ := Program.exists_of_compilesTo compiles
  simp only [Bool.and_eq_true, Array.isEmpty_iff, Array.all_eq_true_iff_forall_mem, bne_iff_ne]
    at checked
  obtain ⟨seedless, free⟩ := checked
  have noWhile : ∀ command ∈ program.commands, ∀ condition,
      command.statement ≠ .whileDo condition := by
    intro command member condition same
    apply free command member
    rw [same]
    rfl
  have grown : Variables.seeded program.seeds.toList = .ok .empty := by
    rw [seedless]
    rfl
  have started := start_ok { empty with program } grown
  exact ⟨{ empty with program }, _, compiled, noWhile, started,
    run_without_while_ends mutualLoops _ _ compiled noWhile (.inl started)⟩

end Session

end Easel
