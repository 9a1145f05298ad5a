import Easel.Proofs.Session.Loops
import Easel.Proofs.Session.Termination

/-! The rounds of a `for` loop. What is stored for a loop is changed at its two ends only, so the
body may assign what it likes, and the counter stops short of the end of the integers. -/

namespace Easel

namespace Counter

variable {counter next : Counter}

/-- How often a body is entered, from this value of the counter on. -/
def rounds (counter : Counter) : Nat :=
  ((counter.limit.toInt - counter.current.toInt).fdiv counter.step.toInt + 1).toNat

end Counter

namespace Program

structure HasLoop (program : Program) (header : ForHeader) (first last : Nat) : Prop where
  opens : program.statement? first = some (.forNext header)
  linked : program.targets[first]? = some last

variable {program : Program} {header : ForHeader} {first last address target : Nat}

def InBody (first last address : Nat) : Prop := first < address ∧ address ≤ last

theorem inBody_succ (notFirst : address ≠ first) (notLast : address ≠ last) :
    InBody first last address ↔ InBody first last (address + 1) := by
  unfold InBody
  omega

theorem HasLoop.inBody_skip (loop : program.HasLoop header first last) (paired : program.Paired)
    (linked : program.targets[address]? = some target) (notFirst : address ≠ first) :
    InBody first last address ↔ InBody first last (target + 1) := by
  have bounds := paired.bounds loop.linked
  have bounds' := paired.bounds linked
  obtain ⟨opening, block, found, kind, closes⟩ := paired.kinds linked
  have ends := (paired.opener_of_for loop.opens loop.linked).1
  have notLast : address ≠ last := by
    rintro rfl
    rw [ends] at found
    cases found
    cases kind
  have apart : target ≠ first := by
    rintro rfl
    rw [loop.opens] at closes
    rcases closes with closes | ⟨-, closes⟩ <;> cases closes
  unfold InBody
  obtain before | behind : address < first ∨ first < address := by omega
  · have nested := paired.nested linked loop.linked before
    omega
  · have nested := paired.nested loop.linked linked behind
    omega

theorem HasLoop.inBody_back (loop : program.HasLoop header first last) (paired : program.Paired)
    (linked : program.openers[address]? = some target) (notFirst : address ≠ first)
    (notLast : address ≠ last) : target ≠ first ∧ (InBody first last address ↔
      InBody first last target) := by
  have target' := paired.opener linked
  have other : target ≠ first := by
    rintro rfl
    rw [loop.linked] at target'
    exact notLast (Option.some.inj target').symm
  exact ⟨other, (inBody_succ notFirst notLast).trans (loop.inBody_skip paired target' other).symm⟩

end Program

namespace Session

open Program (InBody)

/-- Where the calls made from a loop are: the last of them stands in the body only if its method is
declared there, and so on down to the first, which returns into the body. -/
def InsideLoop (first last : Nat) : Nat → List Frame → Prop
  | address, [] => InBody first last address
  | address, frame :: above =>
    (InBody first last address → first < frame.method.address) ∧
      InsideLoop first last frame.returnTo above

/-- The loop is under way: its body or its `end` comes next, or a call was made from there. -/
def Looping (first last depth : Nat) (session : Session) : Prop :=
  depth < session.depth ∨ session.depth = depth ∧ InBody first last session.pc

variable {session after : Session} {header : ForHeader} {first last : Nat} {above base : List Frame}
variable {counter : Counter}

theorem InsideLoop.congr {address other : Nat} (within : InsideLoop first last address above)
    (same : InBody first last address ↔ InBody first last other) :
    InsideLoop first last other above := by
  cases above with
  | nil => exact same.mp within
  | cons frame above => exact ⟨fun inside => within.1 (same.mpr inside), within.2⟩

theorem looping_of_within (items : session.frames.items = above ++ base)
    (within : InsideLoop first last session.pc above) : Looping first last base.length session := by
  have depth : session.depth = above.length + base.length := by
    rw [Session.depth, session.frames.size_eq, items, List.length_append]
  cases above with
  | nil =>
      apply Or.inr
      exact ⟨by simpa using depth, within⟩
  | cons frame above =>
      apply Or.inl
      rw [depth, List.length_cons]
      omega

theorem not_looping_of_behind (first : Nat) {depth : Nat} (level : session.depth = depth)
    (behind : session.pc = last + 1) : ¬ Looping first last depth session := by
  rintro (deeper | ⟨-, -, below⟩) <;> omega

theorem within_last (sound : session.Sound) (loop : session.program.HasLoop header first last)
    (items : session.frames.items = above ++ base) (within : InsideLoop first last session.pc above)
    (ends : session.pc = last) : above = [] := by
  cases above with
  | nil => rfl
  | cons frame above =>
      have bounds := sound.paired.bounds loop.linked
      have enclosed := sound.enclosed
      rw [items, List.cons_append] at enclosed
      have covers := enclosed.1.covers
      have inner := within.1 ⟨by omega, by omega⟩
      have nested := sound.paired.nested loop.linked enclosed.1.declared.target inner
      unfold Method.Covers at covers
      omega

theorem within_of_next (sound : session.Sound) (loop : session.program.HasLoop header first last)
    (own : session.program.Encloses first base) (items : session.frames.items = above ++ base)
    (within : InsideLoop first last session.pc above) (notFirst : session.pc ≠ first)
    (notLast : session.pc ≠ last) (next : Next session after) :
    ∃ above, after.frames.items = above ++ base ∧ InsideLoop first last after.pc above := by
  obtain ⟨statement, found, moves⟩ := next.moves
  have paired := sound.paired
  have succ := Program.inBody_succ notFirst notLast
  cases moves with
  | simple | enters | begins | ends | finishes => exact ⟨above, items, within.congr succ⟩
  | skips tests fails linked | leaves linked | passes bounds ended linked | declares linked =>
      exact ⟨above, items, within.congr (loop.inBody_skip paired linked notFirst)⟩
  | @calls name arguments method bindings vars frames known evaluated entered pushed =>
      have declared := sound.registered name method known
      have other : method.address ≠ first := by
        intro same
        have statement := declared.statement
        rw [same, loop.opens] at statement
        cases statement
      refine ⟨session.past.frameFor method bindings :: above, ?_, ?_, within.congr succ⟩
      · rw [Stack.push_ok _ _ _ pushed, items, List.cons_append]
      · rintro ⟨behind, -⟩
        change first < method.address + 1 at behind
        change first < method.address
        omega
  | tests linked =>
      exact ⟨above, items, within.congr (loop.inBody_back paired linked notFirst notLast).2⟩
  | @repeats opener header' counter next vars linked opens stored advanced assigned =>
      obtain ⟨other, back⟩ := loop.inBody_back paired linked notFirst notLast
      have ends := (paired.opener_of_for loop.opens loop.linked).1
      have other' : opener ≠ last := by
        rintro rfl
        rw [ends] at opens
        cases opens
      exact ⟨above, items, within.congr (back.trans (Program.inBody_succ other other'))⟩
  | falls linked idle =>
      have outside := sound.enclosed
      rw [idle] at outside
      exact absurd outside (paired.not_encloses_end found)
  | @returns frame frames linked popped =>
      have rest := Stack.pop_ok _ _ _ popped
      rw [items] at rest
      cases above with
      | cons top above =>
          rw [List.cons_append] at rest
          injection rest with top rest
          subst top
          exact ⟨above, rest.symm, within.2⟩
      | nil =>
          -- The method that would return here begins before the loop and ends in its body.
          rw [List.nil_append] at rest
          rw [rest] at own
          have covers := own.1.covers
          have nested := paired.nested (paired.opener linked) loop.linked covers.1
          have inside : InBody first last session.pc := within
          unfold InBody at inside
          omega

/-- A round begins: the counter is stored, and the loop variable was given its value. -/
structure Enters (first : Nat) (header : ForHeader) (counter : Counter)
    (previous entered : Session) : Prop where
  stored : entered.loops[first]? = some counter
  assigned : previous.vars.assign header.counter (.int counter.current) = .ok entered.vars

inductive Rounds (first : Nat) (header : ForHeader) : Counter → List (Session × Session) → Prop
  | last {counter : Counter} (ended : counter.next?.filter (·.isRunning) = none) :
      Rounds first header counter []
  | next {counter next : Counter} {previous entered : Session} {rest : List (Session × Session)}
      (advanced : counter.next?.filter (·.isRunning) = some next)
      (enters : Enters first header next previous entered)
      (others : Rounds first header next rest) :
      Rounds first header counter ((previous, entered) :: rest)

/-- The steps of a run that enter the body of a loop, each with the state before it and the state
behind it. -/
def bodyEntries (first last : Nat) : Nat → Session → List (Session × Session)
  | 0, _ => []
  | n + 1, session => match execute 1 session with
    | .ok _ after =>
      if (session.pc = first ∨ session.pc = last) ∧ after.pc = first + 1 then
        (session, after) :: bodyEntries first last n after
      else bodyEntries first last n after
    | .error _ _ => []

theorem bodyEntries_next (next : Next session after) (n : Nat) :
    bodyEntries first last (n + 1) session =
      if (session.pc = first ∨ session.pc = last) ∧ after.pc = first + 1 then
        (session, after) :: bodyEntries first last n after
      else bodyEntries first last n after := by
  obtain ⟨event, ran⟩ := execute_of_steps (.one next)
  rw [bodyEntries, ran]

theorem rounds_of_end (sound : session.Sound) (loop : session.program.HasLoop header first last)
    (ends : session.pc = last) (stored : session.loops[first]? = some counter)
    (next : Next session after) :
    after.frames = session.frames ∧
      ((∃ advanced, counter.next?.filter (·.isRunning) = some advanced ∧
          Enters first header advanced session after ∧ after.pc = first + 1) ∨
        counter.next?.filter (·.isRunning) = none ∧ after.loops[first]? = none ∧
          after.pc = last + 1) := by
  obtain ⟨statement, found, moves⟩ := next.moves
  obtain ⟨closes, back⟩ := sound.paired.opener_of_for loop.opens loop.linked
  rw [← ends] at closes back
  cases closes.symm.trans found
  obtain ⟨header', opens, ⟨counter', later, vars, stored', advanced, assigned, rfl⟩ | ⟨ended, rfl⟩⟩ :=
    moves.of_endFor back
  · cases loop.opens.symm.trans opens
    cases stored.symm.trans stored'
    exact ⟨rfl, .inl ⟨later, advanced, ⟨Std.ExtTreeMap.getElem?_insert_self, assigned⟩, rfl⟩⟩
  · refine ⟨rfl, .inr ⟨ended counter stored, Std.ExtTreeMap.getElem?_erase_self, ?_⟩⟩
    rw [← ends]

theorem rounds_of_steps {n : Nat} (steps : Steps n session after) (sound : session.Sound)
    (loop : session.program.HasLoop header first last)
    (own : session.program.Encloses first base) (items : session.frames.items = above ++ base)
    (within : InsideLoop first last session.pc above)
    (stored : session.loops[first]? = some counter)
    (inside : ∀ i middle, i < n → Steps i session middle →
      Looping first last base.length middle ∧ middle.pc ≠ first)
    (left : ¬ Looping first last base.length after) :
    Rounds first header counter (bodyEntries first last n session) ∧
      after.loops[first]? = none := by
  induction steps generalizing above counter with
  | refl session => exact absurd (looping_of_within items within) left
  | @head n session middle after next rest ih =>
      have notFirst := (inside 0 session (by omega) (.refl session)).2
      have program := (sound.steps (.one next)).2
      have later : ∀ i other, i < n → Steps i middle other →
          Looping first last base.length other ∧ other.pc ≠ first :=
        fun i other bound steps => inside (i + 1) other (by omega) (.head next steps)
      have ih := fun above counter items within stored => @ih above counter (sound.next next)
        (program ▸ loop) (program ▸ own) items within stored later left
      rw [bodyEntries_next next]
      by_cases ends : session.pc = last
      · cases within_last sound loop items within ends
        obtain ⟨frames, ⟨advanced, counts, enters, entered⟩ | ⟨ended, gone, behind⟩⟩ :=
          rounds_of_end sound loop ends stored next
        · have bounds := sound.paired.bounds loop.linked
          rw [if_pos ⟨.inr ends, entered⟩]
          obtain ⟨others, gone⟩ := ih [] advanced (frames ▸ items)
            (show InBody first last middle.pc from ⟨by omega, by omega⟩) enters.stored
          exact ⟨.next counts enters others, gone⟩
        · have bounds := sound.paired.bounds loop.linked
          have level : middle.depth = base.length := by
            rw [depth, middle.frames.size_eq, frames, items, List.nil_append]
          have outside := not_looping_of_behind first level behind
          cases rest with
          | head next' rest' => exact absurd (later 0 middle (by omega) (.refl middle)).1 outside
          | refl =>
              rw [if_neg (by omega)]
              exact ⟨.last ended, gone⟩
      · rw [if_neg (by omega)]
        obtain ⟨above, items, within⟩ :=
          within_of_next sound loop own items within notFirst ends next
        have kept := loops_eq_of_next sound next loop.linked notFirst ends
        exact ih above counter items within (kept.trans stored)

namespace Rounds

variable {entries : List (Session × Session)}

theorem getElem? (rounds : Rounds first header counter entries) {k : Nat}
    {previous entered : Session} (found : entries[k]? = some (previous, entered)) :
    ∃ later : Counter,
      later.current.toInt = counter.current.toInt + (k + 1 : Nat) * counter.step.toInt ∧
      Enters first header later previous entered := by
  induction rounds generalizing k with
  | last ended => cases found
  | @next counter next _ _ rest advanced enters others ih =>
      obtain ⟨stepped, -⟩ := Option.filter_eq_some_iff.mp advanced
      obtain ⟨current, limit, step⟩ := Counter.next?_eq_some stepped
      cases k with
      | zero =>
          cases found
          refine ⟨next, ?_, enters⟩
          rw [current]
          omega
      | succ k =>
          obtain ⟨later, counted, enters⟩ := ih found
          refine ⟨later, ?_, enters⟩
          calc
            later.current.toInt = next.current.toInt + (k + 1 : Nat) * next.step.toInt := counted
            _ = counter.current.toInt + counter.step.toInt + (k + 1 : Nat) * counter.step.toInt := by
              rw [current, step]
            _ = counter.current.toInt + (k + 1 + 1 : Nat) * counter.step.toInt := by
              simp only [Int.natCast_add, Int.natCast_one, Int.add_mul, Int.one_mul]
              omega

end Rounds

theorem rounds_of_begin (loop : session.program.HasLoop header first last)
    (begins : session.pc = first) (bounds : session.vars.counter header = .ok counter)
    (next : Next session after) :
    after.frames = session.frames ∧
      ((counter.isRunning = true ∧ Enters first header counter session after ∧
          after.pc = first + 1) ∨
        counter.isRunning = false ∧ after.loops[first]? = none ∧ after.pc = last + 1) := by
  obtain ⟨statement, found, moves⟩ := next.moves
  subst begins
  cases loop.opens.symm.trans found
  obtain ⟨counter', bounds', ⟨running, vars, assigned, rfl⟩ | ⟨ended, target, linked, rfl⟩⟩ :=
    moves.of_forNext
  · cases bounds.symm.trans bounds'
    exact ⟨rfl, .inl ⟨running, ⟨Std.ExtTreeMap.getElem?_insert_self, assigned⟩, rfl⟩⟩
  · cases bounds.symm.trans bounds'
    cases loop.linked.symm.trans linked
    exact ⟨rfl, .inr ⟨ended, Std.ExtTreeMap.getElem?_erase_self, rfl⟩⟩

/-- A loop is run until it is left for the first time, and is not begun again before. -/
structure RunsLoop (before : Session) (header : ForHeader) (first last cycles : Nat)
    (after : Session) : Prop where
  begins : before.pc = first
  loop : before.program.HasLoop header first last
  begun : 0 < cycles
  ran : ∃ event, execute cycles before = .ok event after
  inside : ∀ i event middle, 0 < i → i < cycles → execute i before = .ok event middle →
    Looping first last before.depth middle ∧ middle.pc ≠ first
  left : ¬ Looping first last before.depth after

theorem RunsLoop.steps {before : Session} {cycles : Nat}
    (run : RunsLoop before header first last cycles after) :
    ∃ n entered, cycles = n + 1 ∧ Next before entered ∧ Steps n entered after ∧
      ∀ i middle, i < n → Steps i entered middle →
        Looping first last before.depth middle ∧ middle.pc ≠ first := by
  obtain ⟨event, ran⟩ := run.ran
  obtain ⟨k, bound, steps, halts⟩ := steps_of_execute ran
  have inside : ∀ i middle, 0 < i → i < cycles → Steps i before middle →
      Looping first last before.depth middle ∧ middle.pc ≠ first := by
    intro i middle some fewer steps
    obtain ⟨event, ran⟩ := execute_of_steps steps
    exact run.inside i event middle some fewer ran
  have begun := run.begun
  cases steps with
  | refl =>
      have found := run.loop.opens
      rw [← run.begins] at found
      exact absurd (halts (.inl run.begun)) (Nat.not_le.mpr (Program.statement?_lt found))
  | @head n before entered after next rest =>
      obtain rfl | fewer : cycles = n + 1 ∨ n + 1 < cycles := by omega
      · exact ⟨n, entered, rfl, next, rest, fun i middle fewer steps =>
          inside (i + 1) middle (by omega) (by omega) (.head next steps)⟩
      · exact absurd (inside (n + 1) after (by omega) fewer (.head next rest)).1 run.left

theorem RunsLoop.rounds {before : Session} {cycles : Nat}
    (run : RunsLoop before header first last cycles after) (sound : before.Sound)
    (bounds : before.vars.counter header = .ok counter) :
    after.loops[first]? = none ∧
      ((counter.isRunning = true ∧ ∃ entered rest,
          bodyEntries first last cycles before = (before, entered) :: rest ∧
          Enters first header counter before entered ∧ Rounds first header counter rest) ∨
        counter.isRunning = false ∧ bodyEntries first last cycles before = []) := by
  obtain ⟨n, entered, rfl, next, steps, inside⟩ := run.steps
  have program := (sound.steps (.one next)).2
  have closed := sound.paired.bounds run.loop.linked
  rw [bodyEntries_next next]
  obtain ⟨frames, ⟨running, enters, begun⟩ | ⟨ended, gone, passed⟩⟩ :=
    rounds_of_begin run.loop run.begins bounds next
  · have own := sound.enclosed
    rw [run.begins] at own
    have depth : before.depth = before.frames.items.length := before.frames.size_eq
    have within : InsideLoop first last entered.pc [] := ⟨by omega, by omega⟩
    obtain ⟨rounds, gone⟩ := rounds_of_steps steps (sound.next next) (program ▸ run.loop)
      (program ▸ own) (frames ▸ rfl) within enters.stored (depth ▸ inside) (depth ▸ run.left)
    rw [if_pos ⟨.inl run.begins, begun⟩]
    exact ⟨gone, .inl ⟨running, entered, _, rfl, enters, rounds⟩⟩
  · have level : entered.depth = before.depth := by rw [depth, frames, ← depth]
    have outside := not_looping_of_behind first level passed
    cases steps with
    | head next' rest => exact absurd (inside 0 entered (by omega) (.refl entered)).1 outside
    | refl =>
        rw [if_neg (by omega)]
        exact ⟨gone, .inr ⟨ended, rfl⟩⟩

instance (first last address : Nat) : Decidable (InBody first last address) :=
  inferInstanceAs (Decidable (_ ∧ _))

instance (first last depth : Nat) (session : Session) :
    Decidable (Looping first last depth session) :=
  inferInstanceAs (Decidable (_ ∨ _))

end Session

end Easel
