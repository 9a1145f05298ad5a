import Easel.Proofs.Session.Frames

/-! Calls from their beginning to their return. While a call is under way its frame and all frames
below it stay on the stack, whatever is called and returns above them. -/

namespace Easel

namespace Stack

variable {α : Type}

theorem ext_items {first second : Stack α} (limit : first.limit = second.limit)
    (overflow : first.overflow = second.overflow) (items : first.items = second.items) :
    first = second := by
  obtain ⟨limit₁, overflow₁, items₁, size₁, size_eq₁⟩ := first
  obtain ⟨limit₂, overflow₂, items₂, size₂, size_eq₂⟩ := second
  cases limit
  cases overflow
  cases items
  cases size_eq₁
  cases size_eq₂
  rfl

/-- The item lies on the stack right above all that the base holds. -/
def Keeps (item : α) (base stack : Stack α) : Prop :=
  stack.limit = base.limit ∧ stack.overflow = base.overflow ∧
    ∃ above, stack.items = above ++ item :: base.items

theorem keeps_push {item : α} {base stack : Stack α} (pushed : base.push item = .ok stack) :
    Keeps item base stack := by
  refine ⟨?_, ?_, [], push_ok _ _ _ pushed⟩ <;> unfold push at pushed <;> split at pushed <;>
    cases pushed <;> rfl

namespace Keeps

variable {item other : α} {base stack after : Stack α}

theorem size_lt (keeps : Keeps item base stack) : base.size < stack.size := by
  obtain ⟨-, -, above, items⟩ := keeps
  rw [base.size_eq, stack.size_eq, items, List.length_append, List.length_cons]
  omega

theorem push (keeps : Keeps item base stack) (pushed : stack.push other = .ok after) :
    Keeps item base after := by
  obtain ⟨limit, overflow, above, items⟩ := keeps
  obtain ⟨limit', overflow', top, items'⟩ := keeps_push pushed
  have pushedItems := push_ok _ _ _ pushed
  refine ⟨limit'.trans limit, overflow'.trans overflow, other :: above, ?_⟩
  rw [pushedItems, items, List.cons_append]

theorem pop (keeps : Keeps item base stack) (popped : stack.pop = .ok (other, after)) :
    Keeps item base after ∨ other = item ∧ after = base := by
  obtain ⟨limit, overflow, above, items⟩ := keeps
  have rest := pop_ok _ _ _ popped
  have same : after.limit = stack.limit ∧ after.overflow = stack.overflow := by
    unfold Stack.pop at popped
    split at popped <;> cases popped
    exact ⟨rfl, rfl⟩
  rw [items] at rest
  cases above with
  | nil =>
      rw [List.nil_append] at rest
      injection rest with top tail
      exact .inr ⟨top.symm, ext_items (same.1.trans limit) (same.2.trans overflow) tail.symm⟩
  | cons top above =>
      rw [List.cons_append] at rest
      injection rest with _ tail
      exact .inl ⟨same.1.trans limit, same.2.trans overflow, above, tail.symm⟩

end Keeps

end Stack

namespace Session

/-- A call is run until its frame is gone for the first time. -/
structure RunsCall (before : Session) (method : Method) (cycles : Nat) (after : Session) :
    Prop where
  calls : ∃ name arguments, before.program.statement? before.pc = some (.call name arguments) ∧
    before.methods.get? name = some method
  begun : 0 < cycles
  ran : ∃ event, execute cycles before = .ok event after
  inside : ∀ i event middle, 0 < i → i < cycles → execute i before = .ok event middle →
    before.depth < middle.depth
  returned : after.depth ≤ before.depth

/-- The last step of a call: its frame is popped and its parameters are undone. -/
structure Returned (frame : Frame) (base : Stack Frame) (last after : Session) : Prop where
  frames : after.frames = base
  pc : after.pc = frame.returnTo
  vars : after.vars = unbindLocals frame last.vars
  loops : after.loops = last.loops

variable {session after : Session} {frame : Frame} {base : Stack Frame}

theorem keeps_or_returned (keeps : Stack.Keeps frame base session.frames)
    (next : Next session after) :
    Stack.Keeps frame base after.frames ∨ Returned frame base session after := by
  obtain ⟨statement, found, moves⟩ := next.moves
  cases moves with
  | simple | enters | skips | leaves | begins | passes | declares | ends | tests | repeats
  | finishes | falls => exact .inl keeps
  | calls known evaluated entered pushed => exact .inl (keeps.push pushed)
  | @returns top frames linked popped =>
      rcases keeps.pop popped with keeps | ⟨rfl, rfl⟩
      · exact .inl keeps
      · exact .inr ⟨rfl, rfl, rfl, rfl⟩

theorem steps_until_returned {n : Nat} (steps : Steps n session after) (sound : session.Sound)
    (keeps : Stack.Keeps frame base session.frames)
    (inside : ∀ i middle, i < n → Steps i session middle → base.size < middle.depth)
    (gone : after.depth ≤ base.size) :
    ∃ m last, n = m + 1 ∧ Steps m session last ∧ Returned frame base last after ∧
      ∀ i middle, i ≤ m → Steps i session middle → Stack.Keeps frame base middle.frames := by
  induction steps with
  | refl session =>
      have deep : base.size < session.depth := keeps.size_lt
      omega
  | @head n session middle after next rest ih =>
      rcases keeps_or_returned keeps next with keeps' | returned
      · have inside' : ∀ i other, i < n → Steps i middle other → base.size < other.depth :=
          fun i other bound steps => inside (i + 1) other (by omega) (.head next steps)
        obtain ⟨m, last, rfl, steps, returned, waits⟩ := ih (sound.next next) keeps' inside' gone
        refine ⟨m + 1, last, rfl, .head next steps, returned, fun i other bound reached => ?_⟩
        cases reached with
        | refl => exact keeps
        | head next' steps' =>
            cases next.unique next'
            exact waits _ other (by omega) steps'
      · cases rest with
        | refl =>
            refine ⟨0, session, rfl, .refl session, returned, fun i other bound reached => ?_⟩
            obtain rfl : i = 0 := by omega
            cases reached
            exact keeps
        | @head n =>
            have deep := inside 1 middle (by omega) (.one next)
            rw [depth, returned.frames] at deep
            exact absurd deep (Nat.lt_irrefl _)

theorem execute_of_steps {n : Nat} (steps : Steps n session after) :
    ∃ event, execute n session = .ok event after := by
  have ran := execute_steps steps 0
  by_cases halted : after.Halted
  · exact ⟨.stopped, ran.trans (execute_halted halted 0)⟩
  · exact ⟨.running, ran.trans (execute_zero halted)⟩

namespace RunsCall

variable {before entered : Session} {method : Method} {cycles : Nat}

theorem not_halted (run : RunsCall before method cycles after) : ¬ before.Halted := by
  obtain ⟨name, arguments, found, -⟩ := run.calls
  exact Nat.not_le.mpr (Program.statement?_lt found)

theorem enters (run : RunsCall before method cycles after) (sound : before.Sound)
    (next : Next before entered) :
    Stack.Keeps (before.past.frameOf method) before.frames entered.frames ∧
      entered.loops = before.loops := by
  obtain ⟨name, arguments, found, known⟩ := run.calls
  obtain ⟨statement, found', moves⟩ := next.moves
  rw [found] at found'
  cases found'
  obtain ⟨_, bindings, vars, frames, known', evaluated, -, pushed, rfl⟩ := moves.of_call
  cases known.symm.trans known'
  rw [frameFor_eq before.past (sound.distinct name method known) evaluated] at pushed
  exact ⟨Stack.keeps_push pushed, rfl⟩

theorem decompose (run : RunsCall before method cycles after) (sound : before.Sound) :
    ∃ m entered last, m + 1 < cycles ∧ Next before entered ∧ Steps m entered last ∧
      Returned (before.past.frameOf method) before.frames last after ∧
      entered.loops = before.loops ∧
      ∀ i middle, i ≤ m → Steps i entered middle →
        Stack.Keeps (before.past.frameOf method) before.frames middle.frames := by
  obtain ⟨event, ran⟩ := run.ran
  obtain ⟨k, bound, steps, ends⟩ := steps_of_execute ran
  cases steps with
  | refl => exact absurd (ends (.inl run.begun)) run.not_halted
  | @head n before entered after next steps =>
      obtain ⟨keeps, loops⟩ := run.enters sound next
      have inside : ∀ i middle, i < n → Steps i entered middle →
          before.frames.size < middle.depth := by
        intro i middle fewer steps
        obtain ⟨event, ran⟩ := execute_of_steps (.head next steps)
        exact run.inside (i + 1) event middle (by omega) (by omega) ran
      obtain ⟨m, last, rfl, steps, returned, waits⟩ :=
        steps_until_returned steps (sound.next next) keeps inside run.returned
      exact ⟨m, entered, last, by omega, next, steps, returned, loops, waits⟩

end RunsCall

theorem sound_of_execute {source : String} {session first last : Session} {cycles : Nat}
    {event : Event} (compiled : Program.compile source = .ok session.program)
    (started : start session = .ok () first) (ran : execute cycles first = .ok event last) :
    last.Sound := by
  obtain ⟨k, -, steps, -⟩ := steps_of_execute ran
  exact ((sound_start compiled started).steps steps).1

/-- A call that returns does so behind itself, leaves the calls below it as they were, and gives the
names of its parameters back the entries that they had, or none where they had none. -/
theorem call_restores_parameters (source : String) (session first before after : Session)
    (method : Method) (reach cycles : Nat) (event : Event)
    (compiled : Program.compile source = .ok session.program)
    (started : start session = .ok () first) (reached : execute reach first = .ok event before)
    (run : RunsCall before method cycles after) :
    after.pc = before.pc + 1 ∧ after.frames = before.frames ∧
      ∀ parameter ∈ method.signature.parameters,
        after.vars.get? parameter.name = before.vars.get? parameter.name := by
  have sound := sound_of_execute compiled started reached
  obtain ⟨m, entered, last, -, -, -, returned, -⟩ := run.decompose sound
  refine ⟨returned.pc, returned.frames, fun parameter member => ?_⟩
  have name : parameter.name ∈ method.signature.parameters.map (·.name) :=
    List.mem_map_of_mem member
  have undone : after.vars = Variables.recover (method.signature.parameters.map (·.name))
      before.vars last.vars :=
    returned.vars.trans (unbindLocals_eq before.vars last.vars rfl)
  rw [undone, Variables.get?_recover, if_pos name]

/-! ### Calls of a given source -/

def called? (session : Session) : Option Method :=
  match session.program.statement? session.pc with
  | some (.call name _) => session.methods.get? name
  | _ => none

/-- Whether a run of a source comes to a call, and that call returns after so many statements. -/
def reachesCall (source : String) (reach cycles : Nat)
    (good : Session → Method → Session → Bool) : Bool :=
  reaches source reach fun before => match before.called?, execute cycles before with
    | some method, .ok _ after =>
      0 < cycles && after.depth ≤ before.depth && good before method after &&
        (List.range cycles).all fun i => match execute i before with
          | .ok _ middle => i == 0 || before.depth < middle.depth
          | .error _ _ => true
    | _, _ => false

theorem exists_of_reachesCall {source : String} {reach cycles : Nat}
    {good : Session → Method → Session → Bool}
    (reached : reachesCall source reach cycles good = true) :
    ∃ session first event before method after, Program.compile source = .ok session.program ∧
      start session = .ok () first ∧ execute reach first = .ok event before ∧
      RunsCall before method cycles after ∧ good before method after = true := by
  obtain ⟨session, first, event, before, compiled, started, ran, checked⟩ :=
    exists_of_reaches reached
  split at checked
  · rename_i method event' after called ran'
    simp only [Bool.and_eq_true, decide_eq_true_eq, List.all_eq_true, List.mem_range] at checked
    obtain ⟨⟨⟨begun, returned⟩, fine⟩, inside⟩ := checked
    refine ⟨session, first, event, before, method, after, compiled, started, ran, ?_, fine⟩
    refine ⟨?_, begun, ⟨event', ran'⟩, fun i event middle some fewer ran => ?_, returned⟩
    · unfold called? at called
      split at called
      · rename_i name arguments found
        exact ⟨name, arguments, found, called⟩
      · cases called
    · have deeper := inside i fewer
      rw [ran] at deeper
      simp only [Bool.or_eq_true, beq_iff_eq, decide_eq_true_eq] at deeper
      omega
  · cases checked

/-- The parameter `n` of `f` hides a variable; another method writes it and an array takes its place
before the call returns. -/
def hidingCall : String :=
  "int n = 5\nmethod int g\nint n = 9\nend method\nmethod int f int n\ncall g\narray int n 2\n" ++
    "end method\ncall f 3"

theorem call_restores_hidden_variable :
    ∃ session first event before method after,
      Program.compile hidingCall = .ok session.program ∧ start session = .ok () first ∧
      execute 3 first = .ok event before ∧ RunsCall before method 6 after ∧
      method.signature.parameters = [⟨"int", "n"⟩] ∧ before.vars.contains "n" = true ∧
      after.pc = before.pc + 1 ∧ after.frames = before.frames ∧
      after.vars.get? "n" = before.vars.get? "n" := by
  have reached : reachesCall hidingCall 3 6 (fun before method _ =>
      method.signature.parameters == [⟨"int", "n"⟩] && before.vars.contains "n") = true := by
    decide +kernel
  obtain ⟨session, first, event, before, method, after, compiled, started, ran, run, checked⟩ :=
    exists_of_reachesCall reached
  simp only [Bool.and_eq_true, beq_iff_eq] at checked
  obtain ⟨parameters, present⟩ := checked
  obtain ⟨pc, frames, restored⟩ := call_restores_parameters hidingCall session first before after
    method 3 6 event compiled started ran run
  have same := restored ⟨"int", "n"⟩ (parameters ▸ List.mem_singleton_self _)
  exact ⟨session, first, event, before, method, after, compiled, started, ran, run, parameters,
    present, pc, frames, same⟩

end Session

end Easel
