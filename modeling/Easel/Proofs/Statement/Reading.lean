import Easel.Line
import Easel.Proofs.Outcomes

/-! Which statements lines can say, and which faults there are in lines that say none. -/

namespace Easel

/-- The fault is one of the source, and its line is still to be named. -/
def Error.Unplaced (fault : Error) : Prop := fault.code = .compileError ∧ fault.line = none

namespace Statement

/-- An `end` names a kind of block that has one (what an `else` opens ends with the `if`), no two
parameters of a method share a name, and a drawing statement has as many as it takes. -/
def Legal : Statement → Prop
  | endOf block => block ≠ .elseBlock
  | method signature => (signature.parameters.map (·.name)).Nodup
  | draw drawing arguments =>
    drawing.arity.1 ≤ arguments.length ∧ arguments.length ≤ drawing.arity.2
  | _ => True

def keywords : Statement → List String
  | declare declaration =>
    ([Kind.int, .real, .boolean].filter (· == declaration.kind)).map Kind.keyword
  | array _ => ["array"]
  | poke _ => ["poke"]
  | peek _ => ["peek"]
  | ifThen _ => ["if"]
  | otherwise => ["else"]
  | whileDo _ => ["while"]
  | forNext _ => ["for"]
  | endOf _ => ["end"]
  | method _ => ["method"]
  | call _ _ => ["call"]
  | draw .pen _ => ["pen", "pencolour"]
  | draw drawing _ => [drawing.keyword]
  | write _ => ["write"]

/-- Behind this word, the text is read as a legal statement or has a fault of its own. -/
abbrev Reads (word : String) (reading : Except Error Statement) : Prop :=
  Settles (fun statement => statement.Legal ∧ word ∈ statement.keywords) Error.Unplaced reading

theorem name_settles (word : List Char) :
    Settles (fun _ => True) Error.Unplaced (name word) := by
  unfold name
  split
  · exact .ok trivial
  · exact .error ⟨rfl, rfl⟩

theorem readDeclaration_reads (kind : Kind) (scalar : kind ≠ .array) (s : List Char) :
    Reads kind.keyword (readDeclaration kind s) := by
  have keyword (name expression : String) (extra : List String) :
      kind.keyword ∈ (declare ⟨kind, name, expression, extra⟩).keywords := by
    cases kind with
    | array => exact absurd rfl scalar
    | _ => exact .head _
  unfold readDeclaration
  split
  · refine .bind (name_settles _) fun name _ => ?_
    dsimp only
    split
    · exact .bind_throw ⟨rfl, rfl⟩
    · exact .pure ⟨trivial, keyword _ _ _⟩
  · refine .bind ⟨fun _ _ => trivial, .mapM (fun word => (name_settles word).faults) _⟩ fun names _ => ?_
    split
    · exact .throw ⟨rfl, rfl⟩
    · exact .pure ⟨trivial, keyword _ _ _⟩

theorem readArray_reads (s : List Char) : Reads "array" (readArray s) := by
  unfold readArray
  split
  split
  · exact .throw ⟨rfl, rfl⟩
  · exact .throw ⟨rfl, rfl⟩
  · exact .bind (name_settles _) fun _ _ => .pure ⟨trivial, .head _⟩
  · exact .bind (name_settles _) fun _ _ => .pure ⟨trivial, .head _⟩
  · exact .throw ⟨rfl, rfl⟩

theorem readPoke_reads (s : List Char) : Reads "poke" (readPoke s) := by
  unfold readPoke
  extract_lets finish
  have each (found : List (List Char) × List Char) : Reads "poke" (finish found) := by
    unfold finish
    split
    split
    · exact .bind (name_settles _) fun _ _ => .pure ⟨trivial, .head _⟩
    · exact .throw ⟨rfl, rfl⟩
  split
  · split
    · exact .bind_throw ⟨rfl, rfl⟩
    · exact .pure_bind (each (_, _))
  · split
    · exact .pure_bind (each (_, _))
    · exact .bind_throw ⟨rfl, rfl⟩

theorem readPeek_reads (s : List Char) : Reads "peek" (readPeek s) := by
  unfold readPeek
  extract_lets words finish
  have each (found : List Char × List (List Char)) : Reads "peek" (finish found) := by
    unfold finish
    split
    split
    · exact .bind (name_settles _) fun _ _ => .bind (name_settles _) fun _ _ => .pure ⟨trivial, .head _⟩
    · exact .throw ⟨rfl, rfl⟩
  split
  · exact .bind_throw ⟨rfl, rfl⟩
  · exact .pure_bind (each (_, _))
  · exact .pure_bind (each (_, _))

theorem readConditional_reads (block : String → Statement) {keyword : String}
    (fits : ∀ s, (block s).Legal ∧ keyword ∈ (block s).keywords) (word : String) (s : List Char) :
    Reads keyword (block <$> readCondition word s) := by
  unfold readCondition
  split
  · exact .error ⟨rfl, rfl⟩
  · exact .ok (fits _)

theorem readElse_reads (s : List Char) : Reads "else" (readElse s) := by
  unfold readElse
  split
  · exact .ok ⟨trivial, .head _⟩
  · exact .error ⟨rfl, rfl⟩

theorem readFor_reads (s : List Char) : Reads "for" (readFor s) := by
  unfold readFor
  extract_lets finish
  have each (found : PUnit) : Reads "for" (finish found) := by
    unfold finish
    split
    -- With at most one comma, the header is written with words.
    case h_1 | h_2 | h_3 =>
      cases ForHeader.ofWords? s with
      | some header => exact .pure ⟨trivial, .head _⟩
      | none => exact .throw ⟨rfl, rfl⟩
    · exact .bind (name_settles _) fun _ _ => .pure ⟨trivial, .head _⟩
    · exact .bind (name_settles _) fun _ _ => .pure ⟨trivial, .head _⟩
    · exact .throw ⟨rfl, rfl⟩
  split
  · exact .bind_throw ⟨rfl, rfl⟩
  · exact each ()

theorem readEnd_reads (s : List Char) : Reads "end" (readEnd s) := by
  unfold readEnd
  split
  · rename_i block found
    have listed := List.mem_of_find?_eq_some found
    refine .ok ⟨?_, .head _⟩
    rintro rfl
    simp at listed
  · exact .error ⟨rfl, rfl⟩

theorem readParameter_settles (earlier : List Parameter) (s : List Char) :
    Settles (fun parameter => parameter.name ∉ earlier.map (·.name)) Error.Unplaced
      (readParameter earlier s) := by
  unfold readParameter
  split
  · refine .bind (name_settles _) fun name _ => ?_
    dsimp only
    split
    · exact .bind_throw ⟨rfl, rfl⟩
    · rename_i absent
      refine .pure ?_
      simpa using absent
  · exact .throw ⟨rfl, rfl⟩

theorem readParameters_settles (s : List Char) :
    Settles (fun parameters => (parameters.map (·.name)).Nodup) Error.Unplaced
      (readParameters s) := by
  refine .foldlM (fun earlier part distinct => ?_) _ _ .nil
  refine .bind (readParameter_settles earlier part) fun parameter absent => .pure ?_
  rw [List.map_append, List.nodup_append]
  refine ⟨distinct, by simp, ?_⟩
  rintro name member _ (_ | ⟨_, ⟨⟩⟩) rfl
  exact absent member

theorem readMethod_reads (s : List Char) : Reads "method" (readMethod s) := by
  unfold readMethod
  split
  · extract_lets finish
    have each (kind : Kind) : Reads "method" (finish kind) :=
      .bind (name_settles _) fun _ _ => .bind (readParameters_settles _) fun _ distinct =>
        .pure ⟨distinct, .head _⟩
    split
    · exact .bind_throw ⟨rfl, rfl⟩
    · exact .bind_throw ⟨rfl, rfl⟩
    · exact .pure_bind (each _)
  · exact .throw ⟨rfl, rfl⟩

theorem readCall_reads (s : List Char) : Reads "call" (readCall s) := by
  unfold readCall
  split
  · exact .throw ⟨rfl, rfl⟩
  · exact .bind (name_settles _) fun _ _ => .pure ⟨trivial, .head _⟩

theorem readDrawing_reads (drawing : Drawing) {word : String}
    (named : ∀ arguments, word ∈ (draw drawing arguments).keywords) (s : List Char) :
    Reads word (readDrawing drawing s) := by
  unfold readDrawing
  extract_lets arguments finish check
  have checked (found : PUnit) : Reads word (check found) := by
    unfold check
    split
    rename_i least most arity
    split
    · exact .bind_throw ⟨rfl, rfl⟩
    · rename_i fits
      simp only [Bool.or_eq_true, decide_eq_true_eq, not_or, Nat.not_lt] at fits
      refine .pure ⟨?_, named _⟩
      simpa [Legal, arity] using fits
  split
  · exact .bind_throw ⟨rfl, rfl⟩
  · exact checked ()

theorem readWrite_reads (s : List Char) : Reads "write" (readWrite s) := by
  unfold readWrite
  split
  · exact .error ⟨rfl, rfl⟩
  · exact .ok ⟨trivial, .head _⟩

theorem commands_read : ∀ command ∈ commands, ∀ s, Reads command.1 (command.2 s) := by
  simp only [commands, List.forall_mem_cons, List.not_mem_nil, false_imp_iff, implies_true,
    and_true]
  have alone {word : String} : word ∈ [word] := .head _
  exact ⟨readDeclaration_reads .int nofun, readDeclaration_reads .real nofun,
    readDeclaration_reads .boolean nofun, readArray_reads, readPoke_reads, readPeek_reads,
    readConditional_reads ifThen (fun _ => ⟨trivial, alone⟩) "IF", readElse_reads,
    readConditional_reads whileDo (fun _ => ⟨trivial, alone⟩) "WHILE", readFor_reads,
    readEnd_reads, readMethod_reads, readCall_reads, readDrawing_reads .moveTo fun _ => alone,
    readDrawing_reads .drawTo fun _ => alone, readDrawing_reads .circle fun _ => alone,
    readDrawing_reads .rect fun _ => alone, readDrawing_reads .tri fun _ => alone,
    readDrawing_reads .pen fun _ => .head _, readDrawing_reads .pen fun _ => .tail _ alone,
    readDrawing_reads .clear fun _ => alone, readWrite_reads⟩

theorem read_reads (keyword parameters : String) :
    Reads (lowercase keyword) (read keyword parameters) := by
  unfold read
  split
  · rename_i reader found
    obtain ⟨before, after, listed, _⟩ := List.lookup_eq_some_iff.mp found
    have member : (lowercase keyword, reader) ∈ commands := by simp [listed]
    exact commands_read _ member parameters.toList
  · split <;> exact .error ⟨rfl, rfl⟩

end Statement

theorem Line.statement_settles (line : Line) :
    Settles Statement.Legal
      (fun fault => fault.code = .compileError ∧ fault.line = some line.number)
      line.statement := by
  have reads := Statement.read_reads line.keyword line.parameters
  unfold Line.statement
  cases read : Statement.read line.keyword line.parameters with
  | ok statement => exact .ok (reads.gives statement read).1
  | error fault =>
      obtain ⟨code, unplaced⟩ := reads.faults fault read
      refine .error ⟨code, ?_⟩
      rw [Error.inLine, unplaced]
      rfl

theorem Line.read_of_statement {line : Line} {statement : Statement}
    (said : line.statement = .ok statement) :
    Statement.read line.keyword line.parameters = .ok statement := by
  unfold Line.statement at said
  cases read : Statement.read line.keyword line.parameters with
  | ok found =>
      rw [read] at said
      exact said
  | error fault =>
      rw [read] at said
      cases said

theorem Line.keyword_of_statement {line : Line} {statement : Statement}
    (said : line.statement = .ok statement) : lowercase line.keyword ∈ statement.keywords :=
  ((Statement.read_reads _ _).gives statement (read_of_statement said)).2

end Easel
