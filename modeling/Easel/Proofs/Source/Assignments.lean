import Easel.Proofs.Source.Lines
import Easel.Proofs.Statement.Declaring

/-! Bare assignments: lines that name a variable but not its kind. Preparing puts the kind in front of
them, so that they are read as declarations of that variable. -/

namespace Easel.Source

open Text

/-- A name, a single `=`, and something behind it. -/
structure Assignment (row : List Char) (name : String) (gap expression : List Char) : Prop where
  text : row = name.toList ++ (gap ++ '=' :: expression)
  named : isName name.toList = true
  blank : gap.all isBlank = true
  single : expression.head? ≠ some '='
  filled : trim expression ≠ []

def letters (name : String) : List Char := name.toList.takeWhile Char.isAlpha

def ending (name : String) : List Char := name.toList.dropWhile Char.isAlpha

theorem letters_append_ending (name : String) : letters name ++ ending name = name.toList :=
  List.takeWhile_append_dropWhile

theorem isAlpha_of_ending {name : String} {c : Char} (next : (ending name).head? = some c) :
    c.isAlpha = false := by
  have stops := List.head?_dropWhile_not Char.isAlpha name.toList
  unfold ending at next
  rw [next] at stops
  exact stops

variable {row gap expression : List Char} {name : String}

namespace Assignment

variable (assignment : Assignment row name gap expression)

include assignment

theorem visible : ∀ c ∈ name.toList, isBlank c = false := fun c member =>
  visible_of_isNameChar (isNameChar_of_isName assignment.named c member)

theorem no_equals {part : List Char} (inside : part ⊆ name.toList) : '=' ∉ part ++ gap := by
  rw [List.mem_append]
  rintro (member | member)
  · have named := isNameChar_of_isName assignment.named '=' (inside member)
    cases named
  · have blank := List.all_eq_true.mp assignment.blank '=' member
    cases blank

theorem cut : cut? '=' row = some (name.toList ++ gap, expression) := by
  rw [assignment.text, ← List.append_assoc]
  exact cut?_append (assignment.no_equals (List.Subset.refl _)) expression

theorem lastWord_part {part : List Char} (inside : part ⊆ name.toList) :
    lastWord (part ++ gap) = part := by
  have split : words (part ++ gap) = words part := fields_append_separators part assignment.blank
  by_cases empty : part = []
  · rw [lastWord, split, empty]
    rfl
  · rw [lastWord, split, words, fields_whole empty fun c member =>
      assignment.visible c (inside member)]
    rfl

theorem readDeclaration (kind : Kind) : Statement.readDeclaration kind row =
    .ok (.declare ⟨kind, name, String.ofList (trim expression), []⟩) := by
  have named : Statement.name (lastWord (name.toList ++ gap)) = .ok name := by
    rw [assignment.lastWord_part (List.Subset.refl _), Statement.name, if_pos assignment.named,
      String.ofList_toList]
  have filled : (trim expression).isEmpty = false := by
    simpa using assignment.filled
  rw [Statement.readDeclaration, assignment.cut]
  simp only [named, filled]
  rfl

theorem keyword {line : Line} (same : line.text.toList = row) :
    line.keyword = String.ofList (letters name) ∧
      line.parameters = String.ofList (trim (ending name ++ (gap ++ '=' :: expression))) := by
  have inside : (letters name).all Char.isAlpha = true := List.all_takeWhile
  have stops : ∀ c, (ending name ++ (gap ++ '=' :: expression)).head? = some c →
      c.isAlpha = false := by
    intro c next
    rw [List.head?_append, List.head?_append] at next
    cases first : (ending name).head? with
    | some d =>
        rw [first] at next
        cases next
        exact isAlpha_of_ending first
    | none =>
        rw [first] at next
        cases second : gap.head? with
        | some d =>
            rw [second] at next
            cases next
            have blank := List.all_eq_true.mp assignment.blank c (List.mem_of_head? second)
            exact not_isAlpha_of_isBlank blank
        | none =>
            rw [second] at next
            cases next
            rfl
  obtain ⟨taken, dropped⟩ := takeWhile_run inside stops
  rw [← List.append_assoc, letters_append_ending, ← assignment.text, ← same] at taken dropped
  rw [Line.keyword, Line.parameters, taken, dropped]
  exact ⟨rfl, rfl⟩

theorem assigned {line : Line} (same : line.text.toList = row) : assigned? line =
    if Statement.isCommand (String.ofList (letters name)) then none else some name := by
  have filled : line.isBlank = false := by
    have named := assignment.named
    rw [Line.isBlank, same, assignment.text]
    cases chars : name.toList with
    | nil =>
        rw [chars] at named
        cases named
    | cons c rest =>
        rw [chars, isName, Bool.and_eq_true] at named
        change (c == '*') = false
        rw [beq_eq_false_iff_ne]
        rintro rfl
        cases named.1
  have single : (expression.head? != some '=') = true := by
    simpa using assignment.single
  have trimmed : trim (name.toList ++ gap) = name.toList := by
    rw [trim_append_blanks _ assignment.blank]
    exact (trimmed_of_visible assignment.visible).trim_eq
  rw [assigned?, filled, (assignment.keyword same).1, Bool.false_or, same, assignment.cut]
  simp only [single, trimmed, assignment.named, String.ofList_toList]
  rfl

theorem statement {kind : Kind} (scalar : kind ≠ .array) (trimmed : Trimmed row) {line : Line}
    (text : line.text.toList = kind.keyword.toList ++ ' ' :: row) :
    line.statement = .ok (.declare ⟨kind, name, String.ofList (trim expression), []⟩) := by
  have inside : kind.keyword.toList.all Char.isAlpha = true := by cases kind <;> decide
  have stops : ∀ c, (' ' :: row).head? = some c → c.isAlpha = false := by
    rintro c ⟨⟩
    rfl
  obtain ⟨taken, dropped⟩ := takeWhile_run inside stops
  have behind : trim (' ' :: row) = row := by
    have blank : [' '].all isBlank = true := by decide
    exact (trim_blanks blank row).trans trimmed.trim_eq
  have read : Statement.read kind.keyword (String.ofList row) =
      Statement.readDeclaration kind row := by
    cases kind with
    | array => exact absurd rfl scalar
    | _ => exact congrArg (Statement.readDeclaration _) String.toList_ofList
  rw [Line.statement, Line.keyword, Line.parameters, text, taken, dropped, behind,
    String.ofList_toList, read, assignment.readDeclaration]
  rfl

theorem cut_ending (trimmed : Trimmed row) :
    ∃ left, cut? '=' (trim (ending name ++ (gap ++ '=' :: expression))) =
      some (left, expression) ∧ lastWord left = ending name := by
  have shorter : ending name ⊆ name.toList := List.dropWhile_subset _
  rw [assignment.text, ← letters_append_ending, List.append_assoc] at trimmed
  by_cases empty : ending name = []
  · rw [empty, List.nil_append] at trimmed ⊢
    rw [← List.append_assoc] at trimmed
    have behind : Trimmed ('=' :: expression) := trimmed.suffix (by rintro c ⟨⟩; rfl)
    rw [trim_blanks assignment.blank, behind.trim_eq]
    exact ⟨[], cut?_append List.not_mem_nil expression, rfl⟩
  · have behind : Trimmed (ending name ++ (gap ++ '=' :: expression)) := by
      refine trimmed.suffix fun c next => ?_
      rw [List.head?_append, List.head?_eq_some_head empty] at next
      cases next
      exact assignment.visible _ (shorter (List.head_mem empty))
    rw [behind.trim_eq, ← List.append_assoc]
    exact ⟨ending name ++ gap, cut?_append (assignment.no_equals shorter) expression,
      assignment.lastWord_part shorter⟩

theorem declares_other (trimmed : Trimmed row) {line : Line} (same : line.text.toList = row)
    (command : Statement.isCommand (String.ofList (letters name)) = true)
    {declaration : Declaration} (said : line.statement = .ok (.declare declaration)) :
    declaration.name ≠ name := by
  obtain ⟨left, cut, last⟩ := assignment.cut_ending trimmed
  obtain ⟨-, -, read⟩ := Line.declares said
  rw [(assignment.keyword same).2, String.toList_ofList] at read
  rintro rfl
  have alone : ending declaration.name = declaration.name.toList := by
    obtain ⟨-, ⟨left', right, cut', last'⟩ | ⟨uncut, -⟩⟩ := Statement.readDeclaration_eq_ok read
    · rw [cut] at cut'
      cases cut'
      rw [← last, last']
    · rw [cut] at uncut
      cases uncut
  have none : letters declaration.name = [] := by
    have whole := letters_append_ending declaration.name
    rw [alone] at whole
    exact List.append_left_eq_self.mp whole
  rw [none] at command
  cases command

end Assignment

theorem toList_annotateLine {kinds : Kinds} {line : Line} {kind : Kind}
    (found : (assigned? line).bind (kinds[·]?) = some kind) :
    (annotateLine kinds line).toList = kind.keyword.toList ++ ' ' :: line.text.toList := by
  rw [annotateLine, found]
  simp [toString]

/-- A line that assigns to a variable of a known kind is read as a declaration of that variable with
this kind, unless the letters in front of its name are a command. Then the line stays as it is, and
does not declare the variable. -/
theorem prepare_reads_assignment (source : String) (k : Nat) (row : List Char) (name : String)
    (gap expression : List Char) (kind : Kind)
    (found : (fileLines source)[emptyLines source + k]? = some row)
    (assignment : Assignment row name gap expression)
    (known : (Kinds.ofLines (plainLines source))[name]? = some kind) (scalar : kind ≠ .array) :
    ∃ line, (Line.all (prepare source))[k]? = some line ∧
      (Statement.isCommand (String.ofList (letters name)) = false →
        line.statement = .ok (.declare ⟨kind, name, String.ofList (trim expression), []⟩)) ∧
      (Statement.isCommand (String.ofList (letters name)) = true →
        line.text.toList = row ∧ ∀ declaration, line.statement = .ok (.declare declaration) →
          declaration.name ≠ name) := by
  have filled : row ≠ [] := by simp [assignment.text]
  obtain ⟨plain, same, text⟩ := plainLines_of_fileLines found found filled (Nat.le_refl _)
  have trimmed : Trimmed row := text ▸ (text_of_mem (List.mem_of_getElem? same)).1
  have assigned := assignment.assigned text
  refine ⟨⟨plain.number, annotateLine (Kinds.ofLines (plainLines source)) plain⟩, ?_, ?_, ?_⟩
  · rw [all_prepare, List.getElem?_map, same]
    rfl
  · intro plainName
    rw [plainName, if_neg (by decide)] at assigned
    apply assignment.statement scalar trimmed
    rw [← text]
    apply toList_annotateLine
    rw [assigned]
    exact known
  · intro command
    rw [command, if_pos rfl] at assigned
    have unchanged : annotateLine (Kinds.ofLines (plainLines source)) plain = plain.text := by
      rw [annotateLine, assigned]
      rfl
    rw [unchanged]
    exact ⟨text, fun declaration => assignment.declares_other trimmed text command⟩

theorem assignment_declares_other_name :
    (Kinds.ofLines (plainLines "int int_a = 1\nint_a = 5"))["int_a"]? = some .int ∧
      Statement.isCommand "int_a" = false ∧
      (Line.all (prepare "int int_a = 1\nint_a = 5"))[1]? = some ⟨2, "int_a = 5"⟩ ∧
      Line.statement ⟨2, "int_a = 5"⟩ = .ok (.declare ⟨.int, "_a", "5", []⟩) := by
  refine ⟨?_, ?_, ?_, ?_⟩ <;> decide +kernel

theorem prepare_reads_assignment_x1 :
    Assignment "x1 \t=  x1 + 2".toList "x1" " \t".toList "  x1 + 2".toList ∧
      ∃ line, (Line.all (prepare "\nmethod int f real x1\n\n  x1 \t=  x1 + 2 \nend method"))[2]? =
        some line ∧ line.statement = .ok (.declare ⟨.real, "x1", "x1 + 2", []⟩) := by
  have assignment : Assignment "x1 \t=  x1 + 2".toList "x1" " \t".toList "  x1 + 2".toList :=
    ⟨rfl, by decide, by decide, by decide, by decide⟩
  obtain ⟨line, prepared, declares, -⟩ := prepare_reads_assignment
    "\nmethod int f real x1\n\n  x1 \t=  x1 + 2 \nend method" 2 _ "x1" _ _ .real (by decide +kernel)
    assignment (by decide +kernel) nofun
  exact ⟨assignment, line, prepared, declares (by decide +kernel)⟩

end Easel.Source
