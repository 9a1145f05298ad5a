import Easel.Proofs.Blocks.Nesting
import Easel.Proofs.Session.Steps

/-! Which faults a run can have: those that lie with the program that is run. Evaluation has no
others, and of the statements only the end of a method can find itself where it should not be. -/

namespace Easel

/-- The fault lies with the program that is run. -/
def Error.Blameless (fault : Error) : Prop :=
  fault.code ≠ .internalError ∧ fault.code ≠ .callStackUnderflow

/-- Such a fault as evaluation finds it, without a line. -/
def Error.Ordinary (fault : Error) : Prop := fault.Blameless ∧ fault.line = none

namespace Expression

variable (vars : Variables)

theorem number_ordinary (name : String) : Faults Error.Ordinary (number vars name) := by
  refine .bind (.bind ?_ fun _ _ => .pure) fun value _ => ?_
  · unfold Variables.entry
    split
    · exact .ok
    · exact .error ⟨⟨nofun, nofun⟩, rfl⟩
  · cases value with
    | int n => exact .pure
    | real x => exact .pure
    | boolean b => exact .pure
    | array grid => exact .throw ⟨⟨nofun, nofun⟩, rfl⟩

theorem value_ordinary (digits : List Char) : Faults Error.Ordinary (Token.value digits) := by
  unfold Token.value
  split
  · exact .ok
  · exact .error ⟨⟨nofun, nofun⟩, rfl⟩

theorem operandExpected_ordinary (s : List Char) : (operandExpected s).Ordinary := by
  unfold operandExpected
  split <;> exact ⟨⟨nofun, nofun⟩, rfl⟩

structure Arithmetic (fuel : Nat) : Prop where
  sum : ∀ s, Faults Error.Ordinary (sum vars fuel s)
  sumFrom : ∀ left s, Faults Error.Ordinary (sumFrom vars fuel left s)
  product : ∀ s, Faults Error.Ordinary (product vars fuel s)
  productFrom : ∀ left s, Faults Error.Ordinary (productFrom vars fuel left s)
  signed : ∀ s, Faults Error.Ordinary (signed vars fuel s)
  operand : ∀ s, Faults Error.Ordinary (operand vars fuel s)

theorem arithmetic_zero : Arithmetic vars 0 := by
  constructor <;> intros <;> exact .error ⟨⟨nofun, nofun⟩, rfl⟩

theorem arithmetic_succ (fuel : Nat) (inner : Arithmetic vars fuel) :
    Arithmetic vars (fuel + 1) where
  sum s := .bind (inner.product s) fun _ _ => inner.sumFrom _ _
  sumFrom left s := by
    unfold Expression.sumFrom
    split
    · exact .bind (inner.product _) fun _ _ => inner.sumFrom _ _
    · split
      · exact .bind (inner.product _) fun _ _ => inner.sumFrom _ _
      · exact .ok
  product s := .bind (inner.signed s) fun _ _ => inner.productFrom _ _
  productFrom left s := by
    unfold Expression.productFrom
    split
    · exact .bind (inner.signed _) fun _ _ => inner.productFrom _ _
    · split
      · refine .bind (inner.signed _) fun right _ => ?_
        dsimp only
        split
        · exact .bind (.throw ⟨⟨nofun, nofun⟩, rfl⟩) fun _ _ => inner.productFrom _ _
        · exact inner.productFrom _ _
      · exact .ok
  signed s := by
    unfold Expression.signed
    split
    · exact .bind (inner.signed _) fun _ _ => .pure
    · split
      · exact inner.signed _
      · exact inner.operand _
  operand s := by
    unfold Expression.operand
    split
    · refine .bind (inner.sum _) fun _ _ => ?_
      dsimp only
      split
      · exact .pure
      · exact .throw ⟨⟨nofun, nofun⟩, rfl⟩
    · split
      · exact .bind (value_ordinary _) fun _ _ => .pure
      · split
        · exact .bind (number_ordinary vars _) fun _ _ => .pure
        · exact .error (operandExpected_ordinary _)

theorem arithmetic (fuel : Nat) : Arithmetic vars fuel := by
  induction fuel with
  | zero => exact arithmetic_zero vars
  | succ fuel ih => exact arithmetic_succ vars fuel ih

theorem complete_ordinary {α : Type} (reading : Reading α) :
    Faults Error.Ordinary (complete reading) := by
  obtain ⟨a, s⟩ := reading
  simp only [complete]
  split
  · exact .ok
  · exact .error ⟨⟨nofun, nofun⟩, rfl⟩

theorem roundInt_ordinary (x : Float) : Faults Error.Ordinary (roundInt x) := by
  unfold roundInt
  split
  · split
    · exact .ok
    · exact .error ⟨⟨nofun, nofun⟩, rfl⟩
  · exact .error ⟨⟨nofun, nofun⟩, rfl⟩

theorem real_ordinary (s : List Char) : Faults Error.Ordinary (real vars s) := by
  unfold real
  extract_lets trimmed
  split
  · exact .error ⟨⟨nofun, nofun⟩, rfl⟩
  · split
    · exact .ok
    · refine .bind ((arithmetic vars _).sum _) fun reading _ => ?_
      refine .bind (complete_ordinary reading) fun x _ => ?_
      unfold finite
      split
      · exact .ok
      · exact .error ⟨⟨nofun, nofun⟩, rfl⟩

theorem int_ordinary (s : List Char) : Faults Error.Ordinary (int vars s) := by
  unfold int
  split
  · exact .ok
  · exact .bind (real_ordinary vars s) fun x _ => roundInt_ordinary x

theorem comparison_ordinary (fuel : Nat) (s : List Char) :
    Faults Error.Ordinary (comparison vars fuel s) := by
  refine .bind ((arithmetic vars fuel).sum s) fun left _ => ?_
  dsimp only
  split
  · exact .bind ((arithmetic vars fuel).sum _) fun _ _ => .pure
  · exact .pure

structure Conditions (fuel : Nat) : Prop where
  disjunction : ∀ s, Faults Error.Ordinary (disjunction vars fuel s)
  disjunctionFrom : ∀ left s, Faults Error.Ordinary (disjunctionFrom vars fuel left s)
  conjunction : ∀ s, Faults Error.Ordinary (conjunction vars fuel s)
  conjunctionFrom : ∀ left s, Faults Error.Ordinary (conjunctionFrom vars fuel left s)
  negation : ∀ s, Faults Error.Ordinary (negation vars fuel s)
  atom : ∀ s, Faults Error.Ordinary (atom vars fuel s)

theorem conditions_zero : Conditions vars 0 := by
  constructor <;> intros <;> exact .error ⟨⟨nofun, nofun⟩, rfl⟩

theorem conditions_succ (fuel : Nat) (inner : Conditions vars fuel) :
    Conditions vars (fuel + 1) where
  disjunction s := .bind (inner.conjunction s) fun _ _ => inner.disjunctionFrom _ _
  disjunctionFrom left s := by
    unfold Expression.disjunctionFrom
    split
    · exact .bind (inner.conjunction _) fun _ _ => inner.disjunctionFrom _ _
    · exact .ok
  conjunction s := .bind (inner.negation s) fun _ _ => inner.conjunctionFrom _ _
  conjunctionFrom left s := by
    unfold Expression.conjunctionFrom
    split
    · exact .bind (inner.negation _) fun _ _ => inner.conjunctionFrom _ _
    · exact .ok
  negation s := by
    unfold Expression.negation
    split
    · exact .bind (inner.negation _) fun _ _ => .pure
    · exact inner.atom _
  atom s := by
    have compares := comparison_ordinary vars fuel s
    unfold Expression.atom
    split
    · exact .ok
    · split
      · exact .ok
      · split
        · exact compares
        · split
          · exact compares
          · split
            · exact compares
            · split
              · exact compares
              · exact .ok

theorem conditions (fuel : Nat) : Conditions vars fuel := by
  induction fuel with
  | zero => exact conditions_zero vars
  | succ fuel ih => exact conditions_succ vars fuel ih

theorem boolean_ordinary (s : List Char) : Faults Error.Ordinary (boolean vars s) := by
  unfold boolean
  split
  · exact .error ⟨⟨nofun, nofun⟩, rfl⟩
  · exact .bind ((conditions vars _).disjunction _) fun reading _ => complete_ordinary reading

theorem text_ordinary (s : List Char) : Faults Error.Ordinary (text vars s) := by
  unfold text
  extract_lets trimmed
  split
  · exact .ok
  · split
    · exact .ok
    · rename_i fault failed
      split
      · exact .ok
      · exact .error (real_ordinary vars _ fault failed)

end Expression

theorem Value.coerce_ordinary (kind : Kind) (value : Value) :
    Faults Error.Ordinary (value.coerce kind) := by
  cases kind <;> cases value
  case int.real x => exact .map (Expression.roundInt_ordinary x)
  case int.array | real.array | boolean.array | array.int | array.real | array.boolean =>
    exact .error ⟨⟨nofun, nofun⟩, rfl⟩
  all_goals exact .ok

namespace Grid

theorem dimension_ordinary (kind : Kind) (rows columns : Int32) :
    Faults Error.Ordinary (dimension kind rows columns) := by
  unfold dimension
  extract_lets height width
  split
  · exact .ok
  · exact .error ⟨⟨nofun, nofun⟩, rfl⟩

theorem index_ordinary (grid : Grid) (row column : Int32) :
    Faults Error.Ordinary (grid.index row column) := by
  unfold index
  split
  · exact .error ⟨⟨nofun, nofun⟩, rfl⟩
  · split
    · exact .error ⟨⟨nofun, nofun⟩, rfl⟩
    · exact .ok

theorem kind_of_coerce {kind : Kind} {value stored : Value}
    (coerced : value.coerce kind = .ok stored) : stored.kind = kind := by
  cases kind <;> cases value
  case int.real x =>
    change Value.int <$> roundInt x = .ok stored at coerced
    cases rounded : roundInt x with
    | error fault =>
        rw [rounded] at coerced
        cases coerced
    | ok n =>
        rw [rounded] at coerced
        cases coerced
        rfl
  all_goals cases coerced <;> rfl

theorem cell_ordinary (grid : Grid) (row column : Int32) (value : Value) :
    Faults Error.Ordinary (grid.cell row column value) := by
  refine .bind (grid.index_ordinary row column) fun index _ => ?_
  refine .bind (Value.coerce_ordinary grid.kind value) fun stored coerced => ?_
  have fits := kind_of_coerce coerced
  obtain ⟨rows, columns, cells⟩ := grid
  cases cells <;> cases stored
  case ints.int | reals.real => exact .pure
  all_goals cases fits

end Grid

namespace Variables

theorem entry_ordinary (vars : Variables) (name : String) :
    Faults Error.Ordinary (vars.entry name) := by
  unfold entry
  split
  · exact .ok
  · exact .error ⟨⟨nofun, nofun⟩, rfl⟩

theorem add_ordinary (vars : Variables) (name : String) (value : Value) (scope : Scope) :
    Faults Error.Ordinary (vars.add name value scope) := by
  unfold add
  split
  · exact .ok
  · exact .error ⟨⟨nofun, nofun⟩, rfl⟩

theorem update_ordinary (vars : Variables) (name : String) (value : Value) :
    Faults Error.Ordinary (vars.update name value) := by
  refine .bind (vars.entry_ordinary name) fun entry _ => ?_
  exact .bind (Value.coerce_ordinary entry.value.kind value) fun _ _ => .pure

theorem assign_ordinary (vars : Variables) (name : String) (value : Value) :
    Faults Error.Ordinary (vars.assign name value) := by
  unfold assign
  split
  · exact vars.update_ordinary name value
  · exact vars.add_ordinary name value .global

theorem ensure_ordinary (vars : Variables) (name : String) (kind : Kind) :
    Faults Error.Ordinary (vars.ensure name kind) := by
  unfold ensure
  split
  · exact .ok
  · exact vars.add_ordinary name _ .global

theorem grid_ordinary (vars : Variables) (name : String) :
    Faults Error.Ordinary (vars.grid name) := by
  refine .bind (.bind (vars.entry_ordinary name) fun _ _ => .pure) fun value _ => ?_
  cases value with
  | array grid => exact .pure
  | int n => exact .throw ⟨⟨nofun, nofun⟩, rfl⟩
  | real x => exact .throw ⟨⟨nofun, nofun⟩, rfl⟩
  | boolean b => exact .throw ⟨⟨nofun, nofun⟩, rfl⟩

theorem setCell_ordinary (vars : Variables) (name : String) (row column : Int32) (value : Value) :
    Faults Error.Ordinary (vars.setCell name row column value) := by
  refine .bind (vars.grid_ordinary name) fun grid _ => ?_
  exact .bind (grid.cell_ordinary row column value) fun _ _ => .pure

theorem evaluate_ordinary (vars : Variables) (kind : Kind) (expression : String) :
    Faults Error.Ordinary (vars.evaluate kind expression) := by
  cases kind with
  | int => exact .map (Expression.int_ordinary vars _)
  | real => exact .map (Expression.real_ordinary vars _)
  | boolean => exact .map (Expression.boolean_ordinary vars _)
  | array => exact .error ⟨⟨nofun, nofun⟩, rfl⟩

theorem makeArray_ordinary (vars : Variables) (declaration : ArrayDeclaration) :
    Faults Error.Ordinary (vars.makeArray declaration) := by
  refine .bind (Expression.int_ordinary vars _) fun rows _ => ?_
  extract_lets scope finish
  have each (columns : Int32) : Faults Error.Ordinary (finish columns) :=
    .bind (Grid.dimension_ordinary _ _ _) fun _ _ => vars.add_ordinary _ _ _
  split
  · exact .bind (Expression.int_ordinary vars _) fun columns _ => each columns
  · exact .bind .pure fun columns _ => each columns

theorem poked_ordinary (vars : Variables) (cell : Poke) :
    Faults Error.Ordinary (vars.poked cell) := by
  refine .bind (vars.grid_ordinary cell.array) fun grid _ => ?_
  refine .bind (Expression.int_ordinary vars _) fun row _ => ?_
  refine .bind (Expression.int_ordinary vars _) fun column _ => ?_
  refine .bind (vars.evaluate_ordinary grid.kind cell.value) fun value _ => ?_
  exact grid.cell_ordinary row column value

theorem peek_ordinary (vars : Variables) (cell : Peek) :
    Faults Error.Ordinary (vars.peek cell) := by
  refine .bind (Expression.int_ordinary vars _) fun row _ => ?_
  refine .bind (Expression.int_ordinary vars _) fun column _ => ?_
  refine .bind (vars.grid_ordinary cell.array) fun grid _ => ?_
  refine .bind (.bind (grid.index_ordinary row column) fun _ _ => .pure) fun value _ => ?_
  exact vars.assign_ordinary cell.target value

theorem argument_ordinary (vars : Variables) (parameter : Parameter) (expression : String) :
    Faults Error.Ordinary (vars.argument parameter expression) := by
  unfold argument
  split
  · exact .map (Expression.int_ordinary vars _)
  · exact .map (Expression.real_ordinary vars _)
  · exact .bind (Expression.boolean_ordinary vars _) fun _ _ => .pure
  · exact .error ⟨⟨nofun, nofun⟩, rfl⟩

theorem bindings_ordinary (vars : Variables) (signature : Signature) (arguments : List String) :
    Faults Error.Ordinary (vars.bindings signature arguments) := by
  unfold bindings
  split
  · refine .mapM (fun pair => ?_) _
    obtain ⟨parameter, expression⟩ := pair
    exact .bind (vars.argument_ordinary parameter expression) fun _ _ => .pure
  · exact .error ⟨⟨nofun, nofun⟩, rfl⟩

theorem written_ordinary (vars : Variables) (expression : String) :
    Faults Error.Ordinary (vars.written expression) := by
  unfold written
  split
  · exact .ok
  · exact Expression.text_ordinary vars _

theorem stroke_ordinary (vars : Variables) (drawing : Drawing) (arguments : List String)
    (enough : drawing.arity.1 ≤ arguments.length) :
    Faults Error.Ordinary (vars.stroke drawing arguments) := by
  unfold stroke
  extract_lets int filled
  have number (i : Nat) (given : i < drawing.arity.1) : Faults Error.Ordinary (int i) := by
    unfold int
    rw [List.getElem?_eq_getElem (Nat.lt_of_lt_of_le given enough)]
    exact Expression.int_ordinary vars _
  have flag (i : Nat) : Faults Error.Ordinary (filled i) := by
    unfold filled
    split
    · exact Expression.boolean_ordinary vars _
    · exact .ok
  cases drawing with
  | moveTo =>
      exact .bind (number 0 (by decide)) fun _ _ => .bind (number 1 (by decide)) fun _ _ => .pure
  | drawTo =>
      exact .bind (number 0 (by decide)) fun _ _ => .bind (number 1 (by decide)) fun _ _ => .pure
  | circle => exact .bind (number 0 (by decide)) fun _ _ => .bind (flag 1) fun _ _ => .pure
  | rect =>
      exact .bind (number 0 (by decide)) fun _ _ => .bind (number 1 (by decide)) fun _ _ =>
        .bind (flag 2) fun _ _ => .pure
  | tri =>
      exact .bind (number 0 (by decide)) fun _ _ => .bind (number 1 (by decide)) fun _ _ => .pure
  | pen =>
      exact .bind (number 0 (by decide)) fun _ _ => .bind (number 1 (by decide)) fun _ _ =>
        .bind (number 2 (by decide)) fun _ _ => .pure
  | clear => exact .pure

theorem counter_ordinary (vars : Variables) (header : ForHeader) :
    Faults Error.Ordinary (vars.counter header) := by
  refine .bind (Expression.int_ordinary vars _) fun current _ => ?_
  refine .bind (Expression.int_ordinary vars _) fun limit _ => ?_
  exact .bind (Expression.int_ordinary vars _) fun step _ => .pure

end Variables

theorem Simple.edits_ordinary (act : Simple) (legal : act.statement.Legal) :
    ∀ edit ∈ act.edits, ∀ vars, Faults Error.Ordinary (edit vars) := by
  cases act with
  | declare declaration =>
      refine Declaration.forall_edits (fun name _ vars => vars.ensure_ordinary name _) fun vars => ?_
      exact .bind (vars.evaluate_ordinary _ _) fun value _ => vars.assign_ordinary _ value
  | array declaration =>
      exact List.forall_mem_singleton.mpr fun vars => vars.makeArray_ordinary declaration
  | poke cell =>
      exact List.forall_mem_singleton.mpr fun vars =>
        .bind (vars.poked_ordinary cell) fun _ _ => .pure
  | peek cell => exact List.forall_mem_singleton.mpr fun vars => vars.peek_ordinary cell
  | draw drawing arguments =>
      exact List.forall_mem_singleton.mpr fun vars =>
        .bind (vars.stroke_ordinary drawing arguments legal.1) fun _ _ => .pure
  | write expression =>
      exact List.forall_mem_singleton.mpr fun vars =>
        .bind (vars.written_ordinary expression) fun _ _ => .pure

theorem Signature.edits_ordinary (signature : Signature) (bindings : List (String × Value)) :
    ∀ edit ∈ signature.edits bindings, ∀ vars, Faults Error.Ordinary (edit vars) :=
  forall_edits (fun binding _ vars => vars.add_ordinary binding.1 binding.2 .local)
    fun vars => vars.ensure_ordinary signature.name signature.returns

namespace Session

/-- The end of a method is reached while another method is the one that was called last. -/
def Misplaced (session : Session) : Prop :=
  ∃ opener frame frames, session.program.openers[session.pc]? = some opener ∧
    session.frames.pop = .ok (frame, frames) ∧ frame.method.address ≠ opener

variable {session stopped : Session} {statement : Statement} {fault : Error}

theorem target_ne_error (paired : session.program.Paired)
    (found : session.program.statement? session.pc = some statement)
    (opens : statement.opens?.isSome = true) : session.program.target session.pc ≠ .error fault := by
  obtain ⟨block, opens⟩ := Option.isSome_iff_exists.mp opens
  obtain ⟨target, linked⟩ := paired.opens found opens
  rw [Program.target_eq_ok.mpr linked]
  nofun

/-- What can go wrong in a statement of a program whose blocks are linked. -/
theorem Fails.ordinary (fails : Fails session statement fault stopped)
    (paired : session.program.Paired) (legal : statement.Legal)
    (found : session.program.statement? session.pc = some statement) :
    fault.Ordinary ∨ statement = .endOf .methodBlock ∧
      (fault.code = .callStackUnderflow ∧ fault.line = none) ∧ session.Misplaced := by
  cases fails with
  | @simple statement act fault vars plain breaks =>
      subst plain
      exact .inl (breaks.faults (act.edits_ordinary legal))
  | asks tests failed => exact .inl (Expression.boolean_ordinary _ _ fault failed)
  | @skips statement condition fault tests fails unlinked =>
      have opens : statement.opens?.isSome = true := by cases statement <;> cases tests <;> rfl
      exact absurd unlinked (target_ne_error paired found opens)
  | leaves unlinked | passes bounds ended unlinked | declares unlinked =>
      exact absurd unlinked (target_ne_error paired found rfl)
  | counts failed => exact .inl (session.vars.counter_ordinary _ fault failed)
  | begins bounds running failed | repeats linked opens stored advanced failed =>
      exact .inl (session.vars.assign_ordinary _ _ fault failed)
  | unknown => exact .inl ⟨⟨nofun, nofun⟩, rfl⟩
  | refuses known refused => exact .inl (session.vars.bindings_ordinary _ _ fault refused)
  | binds known evaluated breaks => exact .inl (breaks.faults (Signature.edits_ordinary _ _))
  | overflows known evaluated entered full =>
      rw [Stack.push_error full]
      exact .inl ⟨⟨nofun, nofun⟩, rfl⟩
  | unopened plain unlinked =>
      obtain ⟨opener, linked⟩ := paired.ends found
      rw [Program.opener_eq_ok.mpr linked] at unlinked
      cases unlinked
  | strays linked other =>
      obtain ⟨header, opens⟩ := paired.for_of_end found linked
      exact absurd opens (other header)
  | misplaced linked popped other =>
      exact .inr ⟨rfl, ⟨rfl, rfl⟩, _, _, _, linked, popped, other⟩

end Session

end Easel
