import Easel.Proofs.Session.Calls

/-! The `for` loops around a call. A loop is stored under its address, so that all calls under way of
one method share what is stored for a loop of that method. -/

namespace Easel

namespace Program

variable {program : Program} {first last : Nat}

theorem Innermost.unique {method other : Method} {address : Nat}
    (inner : program.Innermost method address) (inner' : program.Innermost other address) :
    method = other := by
  have below := inner.inside other inner'.declared inner'.covers
  have above := inner'.inside method inner.declared inner.covers
  have address : method.address = other.address := by omega
  have last : method.last = other.last := by omega
  have statement := inner.declared.statement
  rw [address, inner'.declared.statement] at statement
  have signature := Statement.method.inj (Option.some.inj statement)
  cases method
  cases other
  cases address
  cases last
  cases signature
  rfl

theorem Paired.opener_of_for (paired : program.Paired) {header : ForHeader}
    (opens : program.statement? first = some (.forNext header))
    (linked : program.targets[first]? = some last) :
    program.statement? last = some (.endOf .forBlock) ∧ program.openers[last]? = some first := by
  have ends : program.statement? last = some (.endOf .forBlock) := by
    obtain ⟨opening, block, found, kind, closes | ⟨rfl, -⟩⟩ := paired.kinds linked
    · rw [opens] at found
      cases found
      cases kind
      exact closes
    · rw [opens] at found
      cases found
      cases kind
  refine ⟨ends, ?_⟩
  obtain ⟨other, opener⟩ := paired.ends ends
  have linked' := paired.opener opener
  have bounds := paired.bounds linked
  have bounds' := paired.bounds linked'
  obtain before | same | behind := Nat.lt_trichotomy first other
  · have apart := paired.nested linked linked' before
    omega
  · exact same ▸ opener
  · have apart := paired.nested linked' linked behind
    omega

end Program

namespace Session

/-- The session is in the body of a loop, and the loop is one of the body that is run. -/
structure InLoop (session : Session) (first last : Nat) : Prop where
  opens : ∃ header, session.program.statement? first = some (.forNext header)
  linked : session.program.targets[first]? = some last
  inside : first < session.pc ∧ session.pc < last
  own : session.program.Encloses first session.frames.items

variable {session after : Session} {first last : Nat}

theorem loops_eq_of_next (sound : session.Sound) (next : Next session after)
    (linked : session.program.targets[first]? = some last) (notFirst : session.pc ≠ first)
    (notLast : session.pc ≠ last) : after.loops[first]? = session.loops[first]? := by
  obtain ⟨statement, found, moves⟩ := next.moves
  have other {opener : Nat} (back : session.program.openers[session.pc]? = some opener) :
      opener ≠ first := by
    rintro rfl
    have target := sound.paired.opener back
    rw [linked] at target
    exact notLast (Option.some.inj target).symm
  cases moves with
  | begins bounds running assigned =>
      rw [Std.ExtTreeMap.getElem?_insert, if_neg (by simpa using notFirst)]
  | passes bounds ended linked =>
      rw [Std.ExtTreeMap.getElem?_erase, if_neg (by simpa using notFirst)]
  | repeats back opens stored advanced assigned =>
      rw [Std.ExtTreeMap.getElem?_insert, if_neg (by simpa using other back)]
  | finishes back opens ended =>
      rw [Std.ExtTreeMap.getElem?_erase, if_neg (by simpa using other back)]
  | _ => rfl

theorem InLoop.same_method (within : session.InLoop first last) (sound : after.Sound)
    (program : after.program = session.program) {frame : Frame} {rest : List Frame}
    (frames : after.frames.items = frame :: rest) (ends : after.pc = first ∨ after.pc = last) :
    ∃ outer, session.frames.top? = some outer ∧ frame.method = outer.method := by
  have paired := sound.paired
  have enclosed := sound.enclosed
  rw [frames] at enclosed
  have innermost : after.program.Encloses first (frame :: rest) := by
    rcases ends with ends | ends
    · rw [← ends]
      exact enclosed
    · obtain ⟨header, opens⟩ := within.opens
      have closes := paired.opener_of_for (program ▸ opens) (program ▸ within.linked)
      rw [ends] at enclosed
      exact enclosed.congr (paired.sameBodies_back closes.2 closes.1 nofun)
  have own := within.own
  rw [← program] at own
  unfold Stack.top?
  cases items : session.frames.items with
  | nil =>
      rw [items] at own
      exact absurd innermost.1.covers (own frame.method innermost.1.declared)
  | cons outer below =>
      rw [items] at own
      exact ⟨outer, rfl, innermost.1.unique own.1⟩

theorem loops_eq_of_steps {n : Nat} (steps : Steps n session after) (sound : session.Sound)
    (linked : session.program.targets[first]? = some last)
    (apart : ∀ i middle, i < n → Steps i session middle → middle.pc ≠ first ∧ middle.pc ≠ last) :
    after.loops[first]? = session.loops[first]? := by
  induction steps with
  | refl => rfl
  | @head n session middle after next rest ih =>
      have here := apart 0 session (by omega) (.refl session)
      have program := (sound.steps (.one next)).2
      have later := ih (sound.next next) (program ▸ linked) fun i other bound steps =>
        apart (i + 1) other (by omega) (.head next steps)
      exact later.trans (loops_eq_of_next sound next linked here.1 here.2)

/-- A call leaves a loop around it as it was, unless it comes back to an end of that very loop in
another call of the method that the loop belongs to. In particular a loop outside all methods is
never disturbed, and no loop by a callee that does not call its method again. -/
theorem call_keeps_loop (source : String) (session initial before after : Session)
    (method : Method) (reach cycles : Nat) (event : Event) (first last : Nat)
    (compiled : Program.compile source = .ok session.program)
    (started : start session = .ok () initial) (reached : execute reach initial = .ok event before)
    (run : RunsCall before method cycles after) (within : before.InLoop first last) :
    after.loops[first]? = before.loops[first]? ∨
      ∃ i event middle outer inner, 0 < i ∧ i < cycles ∧ execute i before = .ok event middle ∧
        before.frames.top? = some outer ∧ middle.frames.top? = some inner ∧
        inner.method = outer.method ∧ (middle.pc = first ∨ middle.pc = last) := by
  have sound := sound_of_execute compiled started reached
  obtain ⟨m, entered, final, bound, next, steps, returned, loops, waits⟩ := run.decompose sound
  obtain ⟨soundEntered, program⟩ := sound.steps (.one next)
  by_cases apart : ∀ i middle, i < m → Steps i entered middle →
      middle.pc ≠ first ∧ middle.pc ≠ last
  · left
    have kept := loops_eq_of_steps steps soundEntered (program ▸ within.linked) apart
    rw [returned.loops, kept, loops]
  · right
    simp only [not_forall] at apart
    obtain ⟨i, middle, fewer, reached, ends⟩ := apart
    have ends : middle.pc = first ∨ middle.pc = last := by omega
    obtain ⟨soundMiddle, program'⟩ := soundEntered.steps reached
    obtain ⟨-, -, above, items⟩ := waits i middle (by omega) reached
    obtain ⟨inner, rest, items⟩ : ∃ inner rest, middle.frames.items = inner :: rest := by
      cases above with
      | nil => exact ⟨_, _, items⟩
      | cons top above => exact ⟨_, _, items⟩
    obtain ⟨outer, top, same⟩ :=
      within.same_method soundMiddle (program'.trans program) items ends
    obtain ⟨event, ran⟩ := execute_of_steps (.head next reached)
    refine ⟨i + 1, event, middle, outer, inner, by omega, by omega, ran, top, ?_, same, ends⟩
    rw [Stack.top?, items]
    rfl

def loopAroundCall : String :=
  "method int f\nclear\nend method\nfor i = 1 to 2\ncall f\nend for"

theorem call_keeps_outermost_loop :
    ∃ session initial event before method after,
      Program.compile loopAroundCall = .ok session.program ∧ start session = .ok () initial ∧
      execute 2 initial = .ok event before ∧ RunsCall before method 3 after ∧ before.InLoop 3 5 ∧
      before.loops[3]? = some ⟨1, 2, 1⟩ ∧ after.loops[3]? = before.loops[3]? := by
  have reached : reachesCall loopAroundCall 2 3 (fun before _ _ =>
      before.program.statement? 3 == some (.forNext ⟨"i", "1", "2", "1"⟩) &&
      before.program.targets[3]? == some 5 && before.pc == 4 && before.depth == 0 &&
      before.loops[3]? == some ⟨1, 2, 1⟩) = true := by
    decide +kernel
  obtain ⟨session, initial, event, before, method, after, compiled, started, ran, run, checked⟩ :=
    exists_of_reachesCall reached
  simp only [Bool.and_eq_true, beq_iff_eq] at checked
  obtain ⟨⟨⟨⟨opens, linked⟩, pc⟩, idle⟩, stored⟩ := checked
  have sound := sound_of_execute compiled started ran
  have empty : before.frames.items = [] := by
    rw [depth, before.frames.size_eq] at idle
    exact List.eq_nil_of_length_eq_zero idle
  have own : before.program.Encloses 3 before.frames.items := by
    have enclosed := sound.enclosed
    rw [pc] at enclosed
    exact enclosed.congr (sound.paired.sameBodies_succ opens (by simp) (by simp)).symm
  have within : before.InLoop 3 5 := ⟨⟨_, opens⟩, linked, by omega, own⟩
  refine ⟨session, initial, event, before, method, after, compiled, started, ran, run, within,
    stored, ?_⟩
  rcases call_keeps_loop loopAroundCall session initial before after method 2 3 event 3 5 compiled
    started ran run within with kept | ⟨i, event, middle, outer, inner, -, -, -, top, -⟩
  · exact kept
  · rw [Stack.top?, empty] at top
    cases top

/-- The loop of `f` calls `g`, which calls `f` again, for once: `g` is declared anew before. -/
def loopInRecursion : String :=
  "method int f\nfor i = 1 to 2\nclear\ncall g\nend for\nend method\nmethod int g\nmethod int g\n" ++
    "end method\ncall f\nend method\ncall f"

theorem recursive_call_loses_loop :
    ∃ session initial event before method after,
      Program.compile loopInRecursion = .ok session.program ∧ start session = .ok () initial ∧
      execute 5 initial = .ok event before ∧ RunsCall before method 14 after ∧ before.InLoop 1 4 ∧
      before.loops[1]? = some ⟨1, 2, 1⟩ ∧ after.loops[1]? = none := by
  have reached : reachesCall loopInRecursion 5 14 (fun before _ after =>
      before.program.statement? 1 == some (.forNext ⟨"i", "1", "2", "1"⟩) &&
      before.program.statement? 2 == some (.draw .clear []) &&
      before.program.targets[1]? == some 4 && before.pc == 3 &&
      before.loops[1]? == some ⟨1, 2, 1⟩ && after.loops[1]? == none) = true := by
    decide +kernel
  obtain ⟨session, initial, event, before, method, after, compiled, started, ran, run, checked⟩ :=
    exists_of_reachesCall reached
  simp only [Bool.and_eq_true, beq_iff_eq] at checked
  obtain ⟨⟨⟨⟨⟨opens, draws⟩, linked⟩, pc⟩, stored⟩, lost⟩ := checked
  have sound := sound_of_execute compiled started ran
  have own : before.program.Encloses 1 before.frames.items := by
    have enclosed := sound.enclosed
    rw [pc] at enclosed
    have into := sound.paired.sameBodies_succ opens (by simp) (by simp)
    have on := sound.paired.sameBodies_succ draws (by simp) (by simp)
    exact enclosed.congr (into.trans on).symm
  have within : before.InLoop 1 4 := ⟨⟨_, opens⟩, linked, by omega, own⟩
  exact ⟨session, initial, event, before, method, after, compiled, started, ran, run, within, stored,
    lost⟩

end Session

end Easel
