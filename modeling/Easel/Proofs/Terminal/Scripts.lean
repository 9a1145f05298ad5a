import Easel.Proofs.Session.Batches
import Easel.Proofs.Session.Frames
import Easel.Terminal.Transcript

/-! Scripts on a console where no break is asked for. Each batch shows what it has drawn before the
next one is run, so that the lines of all batches are those of one long run. -/

namespace Easel.Terminal

namespace Screen

def append (shown : Array String × Screen) (stroke : Stroke) : Array String × Screen :=
  (shown.1.push (shown.2.report stroke).1, (shown.2.report stroke).2)

theorem reportAll_eq (screen : Screen) (strokes : Array Stroke) :
    screen.reportAll strokes = strokes.toList.foldl append (#[], screen) := by
  rw [Array.foldl_toList]
  rfl

theorem foldl_append_lines (strokes : List Stroke) (lines : Array String) (screen : Screen) :
    strokes.foldl append (lines, screen) =
      (lines ++ (strokes.foldl append (#[], screen)).1,
        (strokes.foldl append (#[], screen)).2) := by
  induction strokes generalizing lines screen with
  | nil => simp
  | cons stroke strokes ih =>
      have next (lines : Array String) : append (lines, screen) stroke =
          (lines.push (screen.report stroke).1, (screen.report stroke).2) := rfl
      rw [List.foldl_cons, List.foldl_cons, next, next, ih, ih (#[].push _)]
      simp

theorem reportAll_append (screen : Screen) (first second : Array Stroke) :
    screen.reportAll (first ++ second) =
      ((screen.reportAll first).1 ++ ((screen.reportAll first).2.reportAll second).1,
        ((screen.reportAll first).2.reportAll second).2) := by
  simp only [reportAll_eq, Array.toList_append, List.foldl_append]
  exact foldl_append_lines _ _ _

end Screen

namespace Transcript

/-- No break was asked for, and none will be. -/
structure Calm (transcript : Transcript) : Prop where
  now : transcript.breakAsked = false
  later : transcript.breakAfter = none

def showing (transcript : Transcript) (lines : List String) : Transcript :=
  { transcript with written := transcript.written ++ (lines.map (· ++ "\n")).toArray }

variable {transcript : Transcript}

theorem showing_nil (transcript : Transcript) : transcript.showing [] = transcript := by
  simp [showing]

theorem showing_showing (transcript : Transcript) (first second : List String) :
    (transcript.showing first).showing second = transcript.showing (first ++ second) := by
  simp [showing]

theorem Calm.showing (calm : transcript.Calm) (lines : List String) :
    (transcript.showing lines).Calm := ⟨calm.now, calm.later⟩

theorem Calm.write (calm : transcript.Calm) (line : String) :
    transcript.write line = transcript.showing [line] := by
  simp [Transcript.write, Transcript.showing, calm.later]

theorem bind_eq {α β : Type} {first : StateM Transcript α} {next : α → StateM Transcript β}
    {a : α} {after : Transcript} (ran : first transcript = (a, after)) :
    (first >>= next) transcript = next a after := by
  change (match first transcript with | (a, after) => next a after) = _
  rw [ran]

theorem Calm.takeBreak (calm : transcript.Calm) :
    (Console.takeBreak : StateM Transcript Bool) transcript = (false, transcript) := by
  change (transcript.breakAsked, { transcript with breakAsked := false }) = _
  rw [← calm.now]

theorem Calm.forM_write (calm : transcript.Calm) (lines : List String) :
    (lines.forM Console.write : StateM Transcript Unit) transcript =
      ((), transcript.showing lines) := by
  induction lines generalizing transcript with
  | nil => rw [showing_nil]; rfl
  | cons line lines ih =>
      change (lines.forM Console.write : StateM Transcript Unit) (transcript.write line) = _
      rw [calm.write, ih (calm.showing _), showing_showing]
      rfl

theorem Calm.showBatch (calm : transcript.Calm) (view : Display) (cycles : Nat) :
    (showBatch view cycles : StateM Transcript _) transcript =
      (((view.batch cycles).1, (view.batch cycles).2.2),
        transcript.showing (view.batch cycles).2.1.toList) := by
  unfold Terminal.showBatch
  rw [bind_eq calm.takeBreak, if_neg Bool.false_ne_true]
  exact (bind_eq rfl).trans (bind_eq (calm.forM_write (view.batch cycles).2.1.toList))

end Transcript

open Session

theorem Display.batch_ok {session after : Session} {screen : Screen} {cycles : Nat} {event : Event}
    (ran : execute cycles session = .ok event after) :
    Display.batch ⟨session, screen⟩ cycles =
      (.ok event, (screen.reportAll after.strokes).1,
        ⟨after.takeStrokes.2, (screen.reportAll after.strokes).2⟩) := by
  unfold Display.batch
  simp only [ran]
  rfl

theorem Display.batch_error {session after : Session} {screen : Screen} {cycles : Nat}
    {fault : Error} (failed : execute cycles session = .error fault after) :
    Display.batch ⟨session, screen⟩ cycles =
      (.error fault, (screen.reportAll after.strokes).1,
        ⟨after.takeStrokes.2, (screen.reportAll after.strokes).2⟩) := by
  unfold Display.batch
  simp only [failed]
  rfl

/-- Batch by batch, a run that ends shows all that it has drawn, and nothing else. -/
theorem showRun_eq {transcript : Transcript} (calm : transcript.Calm) {cycles batches n : Nat}
    {session : Session} (screen : Screen) {result : Except Error Unit} {strokes : Array Stroke}
    (ended : ending? (execute n session) = some (result, strokes))
    (fresh : session.strokes = #[]) (enough : n ≤ cycles * batches) :
    (showRun cycles batches ⟨session, screen⟩ : StateM Transcript _) transcript =
      (result, transcript.showing (screen.reportAll strokes).1.toList) := by
  induction batches generalizing transcript session screen n strokes with
  | zero =>
      obtain rfl : n = 0 := by omega
      by_cases halted : session.Halted
      · rw [execute_halted halted] at ended
        cases ended
        rw [fresh]
        exact congrArg (Prod.mk (Except.ok ())) transcript.showing_nil.symm
      · rw [execute_zero halted] at ended
        cases ended
  | succ batches ih =>
      have shown := calm.showBatch ⟨session, screen⟩ cycles
      rw [showRun, Transcript.bind_eq shown]
      cases ran : execute cycles session with
      | error fault after =>
          have same := execute_eq_of_ended (Option.isSome_of_eq_some ended)
            (m := cycles) (by rw [ran]; rfl)
          rw [same, ran] at ended
          cases ended
          rw [Display.batch_error ran]
          rfl
      | ok event after =>
          rw [Display.batch_ok ran]
          cases event with
          | stopped =>
              have same := execute_eq_of_ended (Option.isSome_of_eq_some ended)
                (m := cycles) (by rw [ran]; rfl)
              rw [same, ran] at ended
              cases ended
              rfl
          | running =>
              have more := le_of_running ran (Option.isSome_of_eq_some ended)
              have rest := execute_add_emptied ran (n - cycles)
              rw [Nat.add_sub_cancel' more] at rest
              rw [rest, ending?_resultBehind, Option.map_eq_some_iff] at ended
              obtain ⟨⟨result, later⟩, ended, same⟩ := ended
              cases same
              have enough : n - cycles ≤ cycles * batches := by
                rw [Nat.mul_succ] at enough
                omega
              have next := ih (calm.showing (screen.reportAll after.strokes).1.toList)
                (screen.reportAll after.strokes).2 ended rfl enough
              refine next.trans ?_
              rw [Transcript.showing_showing, ← Array.toList_append]
              congr 3
              exact (congrArg Prod.fst (screen.reportAll_append after.strokes later)).symm

theorem strokes_of_enter {source : String} {session : Session}
    (entered : enter source .empty = .ok () session) : session.strokes = #[] := by
  unfold enter at entered
  cases compiled : Program.compile source with
  | error fault =>
      rw [compiled] at entered
      cases entered
  | ok program =>
      rw [compiled] at entered
      have started : start { Session.empty with program } = .ok () session := entered
      obtain ⟨vars, rfl⟩ := start_fresh started
      rfl

/-- How a script ends and what it has drawn by then, if it ends within so many statements. -/
def Transcript.ending? (transcript : Transcript) (file : String) (n : Nat) :
    Option (Except Error Unit × Array Stroke) :=
  match transcript.load file with
  | .error fault => some (.error fault, #[])
  | .ok source => match enter (Source.prepare source) .empty with
    | .error fault _ => some (.error fault, #[])
    | .ok () session => Session.ending? (execute n session)

theorem runScript_eq {transcript : Transcript} (calm : transcript.Calm) {file : String}
    {options : Options} (runs : options.check = false) {n batches : Nat}
    {result : Except Error Unit} {strokes : Array Stroke}
    (ended : transcript.ending? file n = some (result, strokes))
    (enough : n ≤ options.cycles * batches) :
    (runScript options file batches : StateM Transcript _) transcript =
      (result, transcript.showing (Screen.empty.reportAll strokes).1.toList) := by
  have loads : (Console.load file : StateM Transcript _) transcript =
      (transcript.load file, transcript) := rfl
  unfold Transcript.ending? at ended
  rw [runScript, Transcript.bind_eq loads]
  cases loaded : transcript.load file with
  | error fault =>
      rw [loaded] at ended
      cases ended
      exact congrArg (Prod.mk (Except.error fault)) transcript.showing_nil.symm
  | ok source =>
      simp only [loaded] at ended
      simp only [runs, Bool.false_eq_true, ↓reduceIte]
      cases entered : enter (Source.prepare source) .empty with
      | error fault stopped =>
          simp only [entered] at ended
          cases ended
          exact congrArg (Prod.mk (Except.error fault)) transcript.showing_nil.symm
      | ok done session =>
          simp only [entered] at ended
          exact showRun_eq calm .empty ended (strokes_of_enter entered) enough

/-- A run may be cut into batches anywhere: two batches do what one of their joint length does, with
the canvas emptied in between or not, and a run that has failed stays failed. Hence the lines that a
script shows and its result are those of one long run, whatever the number of statements in a batch. -/
theorem run_same_for_all_batch_sizes :
    (∀ (session after : Session) (n m : Nat) (event : Event),
      execute n session = .ok event after →
        execute (n + m) session = execute m after ∧
        execute (n + m) session =
          resultBehind after.takeStrokes.1 (execute m after.takeStrokes.2)) ∧
    (∀ (session after : Session) (n m : Nat) (fault : Error),
      execute n session = .error fault after →
        execute (n + m) session = .error fault after) ∧
    ∀ (transcript : Transcript) (file : String) (n : Nat) (result : Except Error Unit)
      (strokes : Array Stroke), transcript.Calm →
      transcript.ending? file n = some (result, strokes) →
        ∀ (options : Options) (batches : Nat), options.check = false → 1 ≤ options.cycles →
          n ≤ batches →
          (runScript options file batches : StateM Transcript _) transcript =
            (result, transcript.showing (Screen.empty.reportAll strokes).1.toList) := by
  refine ⟨?_, ?_, ?_⟩
  · intro session after n m event ran
    exact ⟨execute_add_ok ran m, execute_add_emptied ran m⟩
  · intro session after n m fault failed
    exact execute_add_error failed m
  · intro transcript file n result strokes calm ended options batches runs positive enough
    apply runScript_eq calm runs ended
    calc
      n ≤ 1 * batches := by omega
      _ ≤ options.cycles * batches := Nat.mul_le_mul_right batches positive

def failingScript : String := "for i = 1 to 2\nclear\nend for\ncall g"

def failingTranscript : Transcript :=
  ⟨[], ⟨(∅ : Std.ExtTreeMap String ByteArray).insert "s" failingScript.toUTF8⟩, #[], #[], false, none⟩

def failsNext (session : Session) : Bool :=
  match execute 1 session with
  | .ok _ _ => false
  | .error _ _ => true

theorem failing_script_same_for_all_batch_sizes :
    (∃ session first event last fault stopped,
      Program.compile failingScript = .ok session.program ∧ start session = .ok () first ∧
      execute 5 first = .ok event last ∧ execute (5 + 4) first = execute 4 last ∧
      execute 1 last = .error fault stopped ∧ execute (1 + 3) last = .error fault stopped) ∧
    ∀ cycles, 1 ≤ cycles →
      (runScript ⟨none, false, cycles⟩ "s" 9 : StateM Transcript _) failingTranscript =
        (.error ((Error.unknownMethod "g").inLine (some 4)),
          failingTranscript.showing [dim "clear", dim "clear"]) := by
  obtain ⟨composes, fails, shows⟩ := run_same_for_all_batch_sizes
  constructor
  · have reached : reaches failingScript 5 failsNext = true := by decide +kernel
    obtain ⟨session, first, event, last, compiled, started, ran, failing⟩ :=
      exists_of_reaches reached
    cases next : execute 1 last with
    | ok event after =>
        rw [failsNext, next] at failing
        cases failing
    | error fault stopped =>
        exact ⟨session, first, event, last, fault, stopped, compiled, started, ran,
          (composes first last 5 4 event ran).1, next, fails last stopped 1 3 fault next⟩
  · intro cycles positive
    have ended : failingTranscript.ending? "s" 9 =
        some (.error ((Error.unknownMethod "g").inLine (some 4)), #[.clear, .clear]) := by
      decide +kernel
    exact shows failingTranscript "s" 9 _ _ ⟨rfl, rfl⟩ ended ⟨none, false, cycles⟩ 9 rfl positive
      (Nat.le_refl 9)

end Easel.Terminal
