import Easel.Proofs.Blocks.Acceptance
import Easel.Proofs.Session.Frames
import Easel.Proofs.Source.Lines

/-! Line numbers. The lines of a prepared source are numbered like those of the file, when the empty
ones in front of the file do not count, and the faults of a prepared source name them by these
numbers. -/

namespace Easel

/-! ### Faults name lines -/

namespace Line

theorem all_getElem? (source : String) (k : Nat) :
    (all source)[k]? = (Text.lines source.toList)[k]?.map (ofText (k + 1)) :=
  List.getElem?_mapIdx

theorem Say.mem {lines : List Line} {commands : List Command} (say : Say lines commands)
    {command : Command} (member : command ∈ commands) :
    ∃ line ∈ lines, line.number = command.line ∧ line.statement = .ok command.statement := by
  induction say with
  | nil => cases member
  | cons head tail ih =>
      rcases List.mem_cons.mp member with rfl | member
      · exact ⟨_, List.mem_cons_self, head⟩
      · obtain ⟨line, listed, said⟩ := ih member
        exact ⟨line, List.mem_cons_of_mem _ listed, said⟩

end Line

namespace Program

variable {source : String} {program : Program} {fault : Error}

theorem compile_says (compiled : compile source = .ok program) :
    Line.Say (Line.filled source) program.commands.toList := by
  rw [compile_eq] at compiled
  obtain ⟨draft, added, finished⟩ := bind_eq_ok.mp compiled
  obtain ⟨commands, opened, say, follows⟩ :=
    Draft.follows_empty.addLines _ (fun _ => mem_filled) added
  have same : program.commands = draft.commands := by
    unfold Draft.finish at finished
    obtain ⟨⟨tables, pairing⟩, -, given⟩ := bind_eq_ok.mp finished
    cases given
    rfl
  rw [same, follows.holds]
  exact say

theorem compile_fault_line {n : Nat} (failed : compile source = .error fault)
    (place : fault.line = some n) : ∃ line ∈ Line.filled source, line.number = n := by
  rw [compile_eq] at failed
  obtain failed | ⟨draft, added, failed⟩ := bind_eq_error.mp failed
  · obtain ⟨front, line, back, lines, ⟨-, -, place'⟩ | ⟨-, unplaced, -⟩⟩ := addLines_error failed
    · rw [place] at place'
      refine ⟨line, ?_, (Option.some.inj place').symm⟩
      rw [lines]
      exact List.mem_append_right front List.mem_cons_self
    · rw [place] at unplaced
      cases unplaced
  · obtain ⟨commands, opened, outline, tree, say, follows, shows⟩ :=
      Draft.addLines_reads (fun _ => mem_filled) added
    obtain ⟨top, below, items, -, place'⟩ := Draft.finish_error failed
    obtain ⟨opening, ⟨front, inner, rfl, -⟩, opened⟩ := follows.stillOpen shows items
    obtain ⟨line, listed, number, -⟩ := say.mem (List.mem_append_right front List.mem_cons_self)
    refine ⟨line, listed, number.trans ?_⟩
    rw [place, opened] at place'
    exact (Option.some.inj place').symm

end Program

namespace Session

theorem execute_fault_line {source : String} {session first after : Session} {cycles : Nat}
    {fault : Error} (compiled : Program.compile source = .ok session.program)
    (started : start session = .ok () first) (failed : execute cycles first = .error fault after) :
    ∃ earlier middle command, execute earlier first = .ok .running middle ∧
      session.program.commands[middle.pc]? = some command ∧ fault.line = some command.line := by
  obtain ⟨earlier, middle, -, steps, crashes⟩ := crashes_of_execute failed
  obtain ⟨sound, same⟩ := (sound_start compiled started).steps steps
  obtain ⟨command, found, place⟩ := sound.line_of_crash crashes
  refine ⟨earlier, middle, command, ?_, ?_, place⟩
  · have ran := execute_steps steps 0
    rw [Nat.add_zero, execute_zero crashes.not_halted] at ran
    exact ran
  · obtain ⟨vars, rfl⟩ := start_fresh started
    rw [same] at found
    exact found

end Session

/-! ### Numbers of lines -/

namespace Source

open Text

variable {source : String} {k : Nat}

/-- The line at this place of the prepared source is the one of the file that is as far behind the
first one with text. -/
structure Stands (source : String) (k : Nat) (row line : List Char) : Prop where
  prepared : (lines (prepare source).toList)[k]? = some line
  file : (fileLines source)[emptyLines source + k]? = some row
  passes : Passes row line

theorem stands_of_plain {plain : Line} (found : (plainLines source)[k]? = some plain) :
    Stands source k plain.text.toList
      (annotateLine (Kinds.ofLines (plainLines source)) plain).toList := by
  refine ⟨?_, fileLines_of_plainLines found, passes_annotateLine _ plain⟩
  rw [lines_prepare, List.getElem?_map, found]
  rfl

theorem exists_stands {line : List Char}
    (found : (lines (prepare source).toList)[k]? = some line) : ∃ row, Stands source k row line := by
  rw [lines_prepare, List.getElem?_map] at found
  obtain ⟨plain, found, same⟩ := Option.map_eq_some_iff.mp found
  have stands := stands_of_plain found
  rw [same] at stands
  exact ⟨_, stands⟩

theorem stands_of_mem {line : Line} (member : line ∈ Line.all (prepare source)) :
    ∃ k row text, line = Line.ofText (k + 1) text ∧ Stands source k row text := by
  obtain ⟨k, found⟩ := List.getElem?_of_mem member
  rw [Line.all_getElem?] at found
  obtain ⟨text, found, same⟩ := Option.map_eq_some_iff.mp found
  obtain ⟨row, stands⟩ := exists_stands found
  exact ⟨k, row, text, same.symm, stands⟩

/-- Up to the last line with text, every line of the file but for the empty ones in front is in the
prepared source, in the same order and with no other line between them. A fault of the prepared
source that has a line number has that of the line in question. -/
theorem prepare_numbers_lines (source : String) :
    (∀ k row i later, (fileLines source)[emptyLines source + k]? = some row →
      emptyLines source + k ≤ i → (fileLines source)[i]? = some later → later ≠ [] →
        ∃ line, Stands source k row line) ∧
    (∀ k line, (lines (prepare source).toList)[k]? = some line → ∃ row, Stands source k row line) ∧
    (∀ fault n, Program.compile (prepare source) = .error fault → fault.line = some n →
      ∃ k row line, n = k + 1 ∧ Stands source k row line ∧
        (Line.ofText n line).isBlank = false) ∧
    ∀ session first cycles fault after,
      Program.compile (prepare source) = .ok session.program → Session.start session = .ok () first →
      Session.execute cycles first = .error fault after →
        ∃ earlier middle command k row line, Session.execute earlier first = .ok .running middle ∧
          session.program.commands[middle.pc]? = some command ∧ fault.line = some (k + 1) ∧
          Stands source k row line ∧
          (Line.ofText (k + 1) line).statement = .ok command.statement := by
  refine ⟨?_, fun k line => exists_stands, ?_, ?_⟩
  · intro k row i later found above text filled
    obtain ⟨plain, same, rfl⟩ := plainLines_of_fileLines found text filled above
    exact ⟨_, stands_of_plain same⟩
  · intro fault n failed place
    obtain ⟨line, listed, rfl⟩ := Program.compile_fault_line failed place
    obtain ⟨k, row, text, rfl, stands⟩ := stands_of_mem (List.mem_filter.mp listed).1
    exact ⟨k, row, text, rfl, stands, Program.mem_filled listed⟩
  · intro session first cycles fault after compiled started failed
    obtain ⟨earlier, middle, command, ran, found, place⟩ :=
      Session.execute_fault_line compiled started failed
    obtain ⟨line, listed, number, said⟩ :=
      (Program.compile_says compiled).mem (Array.mem_of_getElem? found).val
    obtain ⟨k, row, text, rfl, stands⟩ := stands_of_mem (List.mem_filter.mp listed).1
    exact ⟨earlier, middle, command, k, row, text, ran, found, place.trans (congrArg some number.symm),
      stands, said⟩

def shifted : String := "\nfoo"

theorem empty_line_shifts_numbers :
    fileLines shifted = [[], "foo".toList] ∧ lines (prepare shifted).toList = ["foo".toList] ∧
      ¬ Passes [] "foo".toList ∧
      ∃ fault, Program.compile (prepare shifted) = .error fault ∧ fault.line = some 1 := by
  refine ⟨by decide +kernel, by decide +kernel, ?_, ?_⟩
  · rintro (same | ⟨filled, -⟩)
    · cases same
    · exact filled rfl
  · have found : (Program.faultOf (prepare shifted)).map (·.line) = some (some 1) := by
      decide +kernel
    obtain ⟨fault, found, place⟩ := Option.map_eq_some_iff.mp found
    exact ⟨fault, Program.compile_eq_error found, place⟩

def scattered : String := "\n \nint x = 1\r\n\r  x = y"

def lineOfFault (cycles : Nat) (first : Session) : Option Nat :=
  match Session.execute cycles first with
  | .ok _ _ => none
  | .error fault _ => fault.line

theorem execute_of_lineOfFault {cycles n : Nat} {first : Session}
    (place : lineOfFault cycles first = some n) :
    ∃ fault after, Session.execute cycles first = .error fault after ∧ fault.line = some n := by
  unfold lineOfFault at place
  split at place
  · cases place
  · exact ⟨_, _, ‹_›, place⟩

theorem prepare_numbers_scattered_lines :
    emptyLines scattered = 2 ∧ (fileLines scattered)[4]? = some "x = y".toList ∧
      ∃ session first fault after, Program.compile (prepare scattered) = .ok session.program ∧
        Session.start session = .ok () first ∧ Session.execute 9 first = .error fault after ∧
        fault.line = some 3 ∧ Stands scattered 2 "x = y".toList "int x = y".toList := by
  have file : (fileLines scattered)[4]? = some "x = y".toList := by decide +kernel
  have prepared : (lines (prepare scattered).toList)[2]? = some "int x = y".toList := by
    decide +kernel
  refine ⟨by decide +kernel, file, ?_⟩
  have fails : Session.reaches (prepare scattered) 0 (lineOfFault 9 · == some 3) = true := by
    decide +kernel
  obtain ⟨session, first, event, last, compiled, started, ran, place⟩ :=
    Session.exists_of_reaches fails
  cases ran
  obtain ⟨fault, after, failed, place⟩ := execute_of_lineOfFault (beq_iff_eq.mp place)
  obtain ⟨-, -, -, numbers⟩ := prepare_numbers_lines scattered
  obtain ⟨earlier, middle, command, k, row, line, -, -, same, stands, -⟩ :=
    numbers session first 9 fault after compiled started failed
  rw [place] at same
  cases same
  have sameRow := stands.file.symm.trans file
  have sameLine := stands.prepared.symm.trans prepared
  cases sameRow
  cases sameLine
  exact ⟨session, first, fault, after, compiled, started, failed, place, stands⟩

end Source

end Easel
