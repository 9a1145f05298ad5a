import Mathlib.Logic.Relation
import Easel.Proofs.Session.Binding
import Easel.Proofs.Session.Kinds

/-! The cells of an array. Every place of a grid belongs to one row and one column, so that a value
which is written can be read again, and all other cells are as they were. -/

namespace Easel

namespace Grid

variable {grid changed : Grid} {row column row' column' : Int32} {index : Nat} {value stored : Value}

/-! ### Places -/

/-- The grid has a cell in that row and column. -/
def Has (grid : Grid) (row column : Int32) : Prop :=
  (0 ≤ row.toInt ∧ row.toInt < grid.rows) ∧ 0 ≤ column.toInt ∧ column.toInt < grid.columns

instance (grid : Grid) (row column : Int32) : Decidable (grid.Has row column) :=
  inferInstanceAs (Decidable (_ ∧ _))

def place (grid : Grid) (row column : Int32) : Nat :=
  row.toInt.toNat * grid.columns + column.toInt.toNat

theorem index_of_has (has : grid.Has row column) :
    grid.index row column = .ok (grid.place row column) := by
  obtain ⟨⟨low, high⟩, left, right⟩ := has
  unfold index
  rw [if_neg (by simp; omega), if_neg (by simp; omega)]
  rfl

theorem index_of_not_has (outside : ¬ grid.Has row column) :
    ∃ fault, fault.code = .indexOutOfRange ∧ grid.index row column = .error fault := by
  unfold index
  split
  · exact ⟨_, rfl, rfl⟩
  · split
    · exact ⟨_, rfl, rfl⟩
    · rename_i rowInside columnInside
      simp only [Bool.or_eq_true, decide_eq_true_eq, not_or, Int.not_lt, Int.not_le]
        at rowInside columnInside
      exact absurd ⟨rowInside, columnInside⟩ outside

theorem place_lt (has : grid.Has row column) :
    grid.place row column < grid.rows * grid.columns := by
  obtain ⟨⟨low, high⟩, left, right⟩ := has
  have rowInside : row.toInt.toNat + 1 ≤ grid.rows := by omega
  have columnInside : column.toInt.toNat < grid.columns := by omega
  calc grid.place row column
      < row.toInt.toNat * grid.columns + grid.columns := Nat.add_lt_add_left columnInside _
    _ = (row.toInt.toNat + 1) * grid.columns := (Nat.succ_mul _ _).symm
    _ ≤ grid.rows * grid.columns := Nat.mul_le_mul_right _ rowInside

theorem place_div_mod (has : grid.Has row column) :
    grid.place row column / grid.columns = row.toInt.toNat ∧
      grid.place row column % grid.columns = column.toInt.toNat := by
  obtain ⟨-, left, right⟩ := has
  have inside : column.toInt.toNat < grid.columns := by omega
  apply (Nat.div_mod_unique (Nat.zero_lt_of_lt inside)).mpr
  exact ⟨by rw [place, Nat.mul_comm, Nat.add_comm], inside⟩

theorem place_injective (has : grid.Has row column) (has' : grid.Has row' column')
    (same : grid.place row column = grid.place row' column') : row = row' ∧ column = column' := by
  have rows : row.toInt.toNat = row'.toInt.toNat := by
    rw [← (place_div_mod has).1, same, (place_div_mod has').1]
  have columns : column.toInt.toNat = column'.toInt.toNat := by
    rw [← (place_div_mod has).2, same, (place_div_mod has').2]
  obtain ⟨⟨low, -⟩, left, -⟩ := has
  obtain ⟨⟨low', -⟩, left', -⟩ := has'
  exact ⟨Int32.toInt_inj.mp (by omega), Int32.toInt_inj.mp (by omega)⟩

/-! ### Reading and writing -/

def valueAt (grid : Grid) (index : Nat) : Value :=
  match grid.cells with
  | .ints cells => .int (cells[index]?.getD 0)
  | .reals cells => .real (cells[index]?.getD 0)

theorem get_of_has (has : grid.Has row column) :
    grid.get row column = .ok (grid.valueAt (grid.place row column)) := by
  unfold get
  rw [index_of_has has]
  rfl

@[simp] theorem rows_put (grid : Grid) (index : Nat) (value : Value) :
    (grid.put index value).rows = grid.rows := by
  unfold put
  split <;> rfl

@[simp] theorem columns_put (grid : Grid) (index : Nat) (value : Value) :
    (grid.put index value).columns = grid.columns := by
  unfold put
  split <;> rfl

@[simp] theorem kind_put (grid : Grid) (index : Nat) (value : Value) :
    (grid.put index value).kind = grid.kind := by
  unfold put
  split <;> rfl

@[simp] theorem has_put (grid : Grid) (index : Nat) (value : Value) :
    (grid.put index value).Has row column ↔ grid.Has row column := by
  unfold Has
  rw [rows_put, columns_put]

@[simp] theorem index_put (grid : Grid) (index : Nat) (value : Value) :
    (grid.put index value).index row column = grid.index row column := by
  unfold Grid.index
  rw [rows_put, columns_put]

@[simp] theorem place_put (grid : Grid) (index : Nat) (value : Value) :
    (grid.put index value).place row column = grid.place row column := by
  unfold place
  rw [columns_put]

theorem getD_setIfInBounds {α : Type} {cells : Array α} (inside : index < cells.size)
    (stored missing : α) (other : Nat) : (cells.setIfInBounds index stored)[other]?.getD missing =
      if index = other then stored else cells[other]?.getD missing := by
  by_cases same : index = other
  · subst same
    rw [if_pos rfl, Array.getElem?_setIfInBounds_self_of_lt inside]
    rfl
  · rw [if_neg same, Array.getElem?_setIfInBounds_ne same]

theorem valueAt_put (inside : index < grid.rows * grid.columns) (fits : value.kind = grid.kind)
    (other : Nat) :
    (grid.put index value).valueAt other = if index = other then value else grid.valueAt other := by
  obtain ⟨rows, columns, cells, size_eq⟩ := grid
  rw [← size_eq] at inside
  cases cells with
  | ints cells =>
      cases value with
      | int n =>
          change Value.int ((cells.setIfInBounds index n)[other]?.getD 0) = _
          rw [getD_setIfInBounds inside, apply_ite Value.int]
          rfl
      | _ => cases fits
  | reals cells =>
      cases value with
      | real x =>
          change Value.real ((cells.setIfInBounds index x)[other]?.getD 0) = _
          rw [getD_setIfInBounds inside, apply_ite Value.real]
          rfl
      | _ => cases fits

theorem get_put (has : grid.Has row column) (fits : value.kind = grid.kind)
    (row' column' : Int32) :
    (grid.put (grid.place row column) value).get row' column' =
      if row = row' ∧ column = column' then .ok value else grid.get row' column' := by
  by_cases has' : grid.Has row' column'
  · rw [get_of_has (has_put grid _ _ |>.mpr has'), place_put, valueAt_put (place_lt has) fits]
    by_cases same : row = row' ∧ column = column'
    · obtain ⟨rfl, rfl⟩ := same
      simp
    · have apart : grid.place row column ≠ grid.place row' column' := fun equal =>
        same (place_injective has has' equal)
      rw [if_neg same, if_neg apart, get_of_has has']
  · have other : ¬ (row = row' ∧ column = column') := by
      rintro ⟨rfl, rfl⟩
      exact has' has
    obtain ⟨fault, -, failed⟩ := index_of_not_has has'
    unfold get
    rw [if_neg other, index_put, failed]
    rfl

theorem cell_of_has (has : grid.Has row column) (coerced : value.coerce grid.kind = .ok stored) :
    grid.cell row column value = .ok (grid.place row column, stored) := by
  have fits := kind_of_coerce coerced
  unfold cell
  rw [index_of_has has, coerced]
  obtain ⟨rows, columns, cells, size_eq⟩ := grid
  cases cells <;> cases stored
  case ints.int | reals.real => rfl
  all_goals cases fits

theorem cell_of_not_has (outside : ¬ grid.Has row column) :
    ∃ fault, fault.code = .indexOutOfRange ∧ grid.get row column = .error fault ∧
      ∀ value, grid.cell row column value = .error fault := by
  obtain ⟨fault, code, failed⟩ := index_of_not_has outside
  refine ⟨fault, code, ?_, fun value => ?_⟩
  · unfold get
    rw [failed]
    rfl
  · unfold cell
    rw [failed]
    rfl

theorem cell_eq_ok {answer : Nat × Value} (found : grid.cell row column value = .ok answer) :
    grid.Has row column ∧ value.coerce grid.kind = .ok answer.2 ∧
      answer.1 = grid.place row column := by
  by_cases has : grid.Has row column
  · cases coerced : value.coerce grid.kind with
    | ok stored =>
        rw [cell_of_has has coerced] at found
        cases found
        exact ⟨has, rfl, rfl⟩
    | error fault =>
        unfold cell at found
        rw [index_of_has has, coerced] at found
        cases found
  · obtain ⟨fault, -, -, failed⟩ := cell_of_not_has has
    rw [failed] at found
    cases found

theorem exists_get_iff : (∃ value, grid.get row column = .ok value) ↔ grid.Has row column := by
  constructor
  · rintro ⟨value, found⟩
    by_contra outside
    obtain ⟨fault, -, failed, -⟩ := cell_of_not_has outside
    rw [failed] at found
    cases found
  · intro has
    exact ⟨_, get_of_has has⟩

theorem exists_set_iff (coerced : value.coerce grid.kind = .ok stored) :
    (∃ changed, grid.set row column value = .ok changed) ↔ grid.Has row column := by
  constructor
  · rintro ⟨changed, changes⟩
    obtain ⟨answer, found, -⟩ := bind_eq_ok.mp changes
    exact (cell_eq_ok found).1
  · intro has
    exact ⟨_, bind_eq_ok.mpr ⟨_, cell_of_has has coerced, rfl⟩⟩

/-! ### Grids that a program makes -/

def Writes (grid changed : Grid) : Prop := ∃ row column value, grid.set row column value = .ok changed

theorem Writes.shape (writes : Writes grid changed) :
    changed.rows = grid.rows ∧ changed.columns = grid.columns := by
  obtain ⟨row, column, value, changes⟩ := writes
  obtain ⟨⟨index, stored⟩, -, same⟩ := bind_eq_ok.mp changes
  cases same
  exact ⟨rows_put grid index stored, columns_put grid index stored⟩

theorem shape_of_writes {kind : Kind} {rows columns : Int32} {first : Grid}
    (made : dimension kind rows columns = .ok first)
    (writes : Relation.ReflTransGen Writes first grid) :
    grid.rows = rows.toInt.toNat ∧ grid.columns = max columns.toInt.toNat 1 := by
  induction writes with
  | refl =>
      unfold dimension at made
      dsimp only at made
      split at made
      · cases made
        cases kind <;> exact ⟨rfl, rfl⟩
      · cases made
  | tail _ last ih =>
      obtain ⟨height, width⟩ := last.shape
      exact ⟨height.trans ih.1, width.trans ih.2⟩

end Grid

/-! ### Arithmetic while arrays change -/

namespace Expression

variable {vars after : Variables}

structure Agree (vars after : Variables) (fuel : Nat) : Prop where
  sum : sum vars fuel = sum after fuel
  sumFrom : sumFrom vars fuel = sumFrom after fuel
  product : product vars fuel = product after fuel
  productFrom : productFrom vars fuel = productFrom after fuel
  signed : signed vars fuel = signed after fuel
  operand : operand vars fuel = operand after fuel

theorem agree (same : ∀ name, number vars name = number after name) (fuel : Nat) :
    Agree vars after fuel := by
  induction fuel with
  | zero => constructor <;> rfl
  | succ fuel ih =>
      constructor
      · funext s
        simp only [Expression.sum, ih.product, ih.sumFrom]
      · funext left s
        simp only [Expression.sumFrom, ih.product, ih.sumFrom]
      · funext s
        simp only [Expression.product, ih.signed, ih.productFrom]
      · funext left s
        simp only [Expression.productFrom, ih.signed, ih.productFrom]
      · funext s
        simp only [Expression.signed, ih.signed, ih.operand]
      · funext s
        simp only [Expression.operand, ih.sum, same]

theorem real_congr (same : ∀ name, number vars name = number after name) (s : List Char) :
    real vars s = real after s := by
  unfold real
  dsimp only
  rw [(agree same _).sum]

/-- Arithmetic sees no more of the variables than the numbers that they stand for. -/
theorem int_congr (same : ∀ name, number vars name = number after name) (s : List Char) :
    int vars s = int after s := by
  unfold int
  rw [real_congr same]

end Expression

theorem Value.coerce_kind (value : Value) : value.coerce value.kind = .ok value := by
  cases value <;> rfl

namespace Variables

variable {vars after : Variables} {array target : String} {grid : Grid} {scope : Scope}
  {value : Value}

theorem grid_eq_ok : vars.grid array = .ok grid ↔
    ∃ scope, vars.get? array = some ⟨.array grid, scope⟩ := by
  unfold Variables.grid fetch entry
  cases vars.get? array with
  | none => simp [bind, Except.bind]
  | some entry =>
      obtain ⟨value, scope⟩ := entry
      cases value <;> simp [bind, Except.bind, pure, Except.pure, throw, throwThe, MonadExceptOf.throw]

theorem get?_putCell (found : vars.get? array = some ⟨.array grid, scope⟩) (index : Nat)
    (value : Value) (name : String) :
    (vars.putCell array index value).get? name =
      if array = name then some ⟨.array (grid.put index value), scope⟩ else vars.get? name := by
  unfold putCell
  rw [get?_modify, found]
  rfl

theorem size_putCell (vars : Variables) (array : String) (index : Nat) (value : Value) :
    (vars.putCell array index value).size = vars.size := Std.ExtTreeMap.size_modify

theorem number_putCell (found : vars.get? array = some ⟨.array grid, scope⟩) (index : Nat)
    (value : Value) (name : String) :
    Expression.number (vars.putCell array index value) name = Expression.number vars name := by
  unfold Expression.number fetch entry
  rw [get?_putCell found]
  by_cases same : array = name
  · subst same
    rw [if_pos rfl, found]
    rfl
  · rw [if_neg same]

theorem int_putCell (found : vars.get? array = some ⟨.array grid, scope⟩) (index : Nat)
    (value : Value) (expression : String) :
    (vars.putCell array index value).int expression = vars.int expression :=
  Expression.int_congr (number_putCell found index value) expression.toList

theorem poked_eq_ok {cell : Poke} {answer : Nat × Value} (found : vars.poked cell = .ok answer) :
    ∃ grid scope row column value, vars.get? cell.array = some ⟨.array grid, scope⟩ ∧
      vars.int cell.row = .ok row ∧ vars.int cell.column = .ok column ∧
      vars.evaluate grid.kind cell.value = .ok value ∧ value.kind = grid.kind ∧
      grid.Has row column ∧ answer = (grid.place row column, value) := by
  obtain ⟨grid, arrays, found⟩ := bind_eq_ok.mp found
  obtain ⟨row, rows, found⟩ := bind_eq_ok.mp found
  obtain ⟨column, columns, found⟩ := bind_eq_ok.mp found
  obtain ⟨value, evaluated, found⟩ := bind_eq_ok.mp found
  obtain ⟨scope, arrays⟩ := grid_eq_ok.mp arrays
  have kind := vars.evaluate_kind grid.kind cell.value value evaluated
  obtain ⟨has, coerced, place⟩ := Grid.cell_eq_ok found
  rw [← kind, value.coerce_kind] at coerced
  have same : answer = (grid.place row column, value) :=
    Prod.ext place (Except.ok.inj coerced).symm
  exact ⟨grid, scope, row, column, value, arrays, rows, columns, evaluated, kind, has, same⟩

/-- An assignment of a value of that kind to the name will go through unchanged. -/
def Accepts (vars : Variables) (name : String) (kind : Kind) : Prop :=
  vars.get? name = none ∧ vars.size < maxSize ∨
    ∃ entry, vars.get? name = some entry ∧ entry.value.kind = kind

theorem assign_of_accepts (accepts : vars.Accepts target value.kind) :
    ∃ after scope, vars.assign target value = .ok after ∧
      ∀ name, after.get? name = if target = name then some ⟨value, scope⟩ else vars.get? name := by
  unfold assign
  rcases accepts with ⟨absent, room⟩ | ⟨entry, present, kind⟩
  · rw [contains_eq_false.mpr absent, if_neg Bool.false_ne_true]
    have added : vars.add target value .global = .ok (vars.restore target ⟨value, .global⟩) :=
      if_pos room
    exact ⟨_, .global, added, get?_add added⟩
  · have contains : vars.contains target = true := by
      cases known : vars.contains target with
      | true => rfl
      | false => simp [contains_eq_false.mp known] at present
    have updated : vars.update target value = .ok (vars.restore target ⟨value, entry.scope⟩) := by
      unfold update
      rw [entry_eq_ok.mpr present]
      change (value.coerce entry.value.kind >>= _) = _
      rw [kind, value.coerce_kind]
      rfl
    rw [contains, if_pos rfl]
    exact ⟨_, entry.scope, updated, fun name => get?_restore vars target name _⟩

theorem Accepts.ne_array (accepts : vars.Accepts target grid.kind)
    (found : vars.get? array = some ⟨.array grid, scope⟩) : array ≠ target := by
  rintro rfl
  rcases accepts with ⟨absent, -⟩ | ⟨entry, present, kind⟩
  · rw [found] at absent
    cases absent
  · cases found.symm.trans present
    unfold Grid.kind at kind
    cases cells : grid.cells <;> rw [cells] at kind <;> cases kind

theorem Accepts.putCell (accepts : vars.Accepts target grid.kind)
    (found : vars.get? array = some ⟨.array grid, scope⟩) (index : Nat) (value : Value) :
    (vars.putCell array index value).Accepts target grid.kind := by
  unfold Accepts
  rw [get?_putCell found, if_neg (accepts.ne_array found), size_putCell]
  exact accepts

theorem peek_putCell {row column : String} {i j : Int32}
    (found : vars.get? array = some ⟨.array grid, scope⟩) (rows : vars.int row = .ok i)
    (columns : vars.int column = .ok j) (has : grid.Has i j) (fits : value.kind = grid.kind)
    (accepts : vars.Accepts target grid.kind) :
    ∃ after scope,
      (vars.putCell array (grid.place i j) value).peek ⟨target, array, row, column⟩ = .ok after ∧
        ∀ name, after.get? name = if target = name then some ⟨value, scope⟩
          else (vars.putCell array (grid.place i j) value).get? name := by
  have stored := get?_putCell found (grid.place i j) value array
  rw [if_pos rfl] at stored
  have read := Grid.get_put has fits i j
  rw [if_pos ⟨rfl, rfl⟩] at read
  have accepted := accepts.putCell found (grid.place i j) value
  rw [← fits] at accepted
  obtain ⟨after, scope', assigned, entries⟩ := assign_of_accepts accepted
  refine ⟨after, scope', ?_, entries⟩
  unfold peek
  rw [int_putCell found, rows, int_putCell found, columns, grid_eq_ok.mpr ⟨scope, stored⟩]
  change (Grid.get _ i j >>= _) = _
  rw [read]
  exact assigned

end Variables

namespace Session

variable {session after : Session}

theorem poke_eq_ok {cell : Poke} (ran : poke cell session = .ok () after) :
    ∃ answer, session.vars.poked cell = .ok answer ∧
      after = { session with vars := session.vars.putCell cell.array answer.1 answer.2 } := by
  unfold poke at ran
  rw [ask_bind] at ran
  cases found : session.vars.poked cell with
  | error fault =>
      rw [found] at ran
      cases ran
  | ok answer =>
      rw [found] at ran
      cases ran
      exact ⟨answer, rfl, rfl⟩

theorem performed_of_execute_one {statement : Statement} {event : Event}
    (stands : session.program.statement? session.pc = some statement)
    (ran : execute 1 session = .ok event after) :
    perform session.pc statement session.past = .ok () after := by
  obtain ⟨command, found, stepped⟩ := next_of_execute_one stands ran
  rw [Program.statement?_of_command found] at stands
  cases stands
  exact step_eq_ok.mp stepped

theorem execute_one_of_performed {statement : Statement}
    (stands : session.program.statement? session.pc = some statement)
    (performed : perform session.pc statement session.past = .ok () after) :
    ∃ event, execute 1 session = .ok event after := by
  obtain ⟨command, found, rfl⟩ := Option.map_eq_some_iff.mp stands
  have next : Next session after := ⟨command, found, step_eq_ok.mpr performed⟩
  rw [execute_next next 0]
  by_cases halted : after.Halted
  · exact ⟨_, execute_halted halted 0⟩
  · exact ⟨_, execute_zero halted⟩

theorem vars_of_failed_poke {cell : Poke} {fault : Error}
    (stands : session.program.statement? session.pc = some (.poke cell))
    (failed : execute 1 session = .error fault after) : after.vars = session.vars := by
  obtain ⟨command, cause, stopped, -, -, fails, -, rfl⟩ := fails_of_execute_one stands failed
  obtain same | ⟨declaration, impossible, -⟩ := fails.vars_eq (by simp)
  · exact same
  · cases impossible

theorem setCell_outside {grid : Grid} {name : String} {scope : Scope} {row column : Int32}
    {value : Value} {fault : Error}
    (found : session.vars.get? name = some ⟨.array grid, scope⟩)
    (failed : grid.cell row column value = .error fault) :
    (Operation.setCell name row column value).action session = .error fault session := by
  have refused : session.vars.setCell name row column value = .error fault := by
    unfold Variables.setCell
    rw [Variables.grid_eq_ok.mpr ⟨scope, found⟩]
    change (grid.cell row column value >>= _) = _
    rw [failed]
    rfl
  change change (·.setCell name row column value) session = _
  unfold change
  dsimp only
  rw [refused]

/-- A poke that succeeds changes the cell that it names and nothing else, and the next peek at that
cell makes a variable of the kind of the cells hold the value, and changes nothing else. Cells of a
grid can be read and written in the rows and columns that it was made with, and nowhere else. -/
theorem peek_reads_what_poke_wrote :
    (∀ (session after : Session) (event : Event) (cell : Poke),
      session.program.statement? session.pc = some (.poke cell) →
      execute 1 session = .ok event after →
      ∃ grid changed scope row column value,
        session.vars.get? cell.array = some ⟨.array grid, scope⟩ ∧
        session.vars.int cell.row = .ok row ∧ session.vars.int cell.column = .ok column ∧
        session.vars.evaluate grid.kind cell.value = .ok value ∧
        after = { session with pc := session.pc + 1, vars := after.vars } ∧
        after.vars.get? cell.array = some ⟨.array changed, scope⟩ ∧
        (∀ name, cell.array ≠ name → after.vars.get? name = session.vars.get? name) ∧
        changed.rows = grid.rows ∧ changed.columns = grid.columns ∧ changed.kind = grid.kind ∧
        changed.get row column = .ok value ∧
        (∀ row' column', ¬ (row = row' ∧ column = column') →
          changed.get row' column' = grid.get row' column') ∧
        ∀ (later : Session) (target : String), later.vars = after.vars →
          later.program.statement? later.pc =
            some (.peek ⟨target, cell.array, cell.row, cell.column⟩) →
          session.vars.Accepts target grid.kind →
          ∃ event final scope, execute 1 later = .ok event final ∧
            final = { later with pc := later.pc + 1, vars := final.vars } ∧
            final.vars.get? target = some ⟨value, scope⟩ ∧
            ∀ name, target ≠ name → final.vars.get? name = later.vars.get? name) ∧
    (∀ (session after : Session) (fault : Error) (cell : Poke),
      session.program.statement? session.pc = some (.poke cell) →
      execute 1 session = .error fault after → after.vars = session.vars) ∧
    ∀ (kind : Kind) (rows columns : Int32) (first grid : Grid),
      Grid.dimension kind rows columns = .ok first →
      Relation.ReflTransGen Grid.Writes first grid →
      grid.rows = rows.toInt.toNat ∧ grid.columns = max columns.toInt.toNat 1 ∧
      ∀ row column : Int32,
        ((∃ value, grid.get row column = .ok value) ↔ grid.Has row column) ∧
        (∀ value stored, value.coerce grid.kind = .ok stored →
          ((∃ changed, grid.set row column value = .ok changed) ↔ grid.Has row column)) ∧
        (¬ grid.Has row column → ∃ fault, fault.code = .indexOutOfRange ∧
          grid.get row column = .error fault ∧ ∀ value, grid.set row column value = .error fault ∧
            ∀ (session : Session) (name : String) (scope : Scope),
              session.vars.get? name = some ⟨.array grid, scope⟩ →
              (Operation.setCell name row column value).action session =
                .error fault session) := by
  refine ⟨?_, fun _ _ _ _ stands failed => vars_of_failed_poke stands failed, ?_⟩
  · intro session after event cell stands ran
    obtain ⟨answer, poked, rfl⟩ := poke_eq_ok (performed_of_execute_one stands ran)
    obtain ⟨grid, scope, row, column, value, found, rows, columns, evaluated, fits, has, rfl⟩ :=
      Variables.poked_eq_ok poked
    have entries := Variables.get?_putCell found (grid.place row column) value
    have cells := Grid.get_put has fits
    refine ⟨grid, grid.put (grid.place row column) value, scope, row, column, value, found, rows,
      columns, evaluated, rfl, (entries _).trans (if_pos rfl),
      fun name other => (entries name).trans (if_neg other), Grid.rows_put .., Grid.columns_put ..,
      Grid.kind_put .., (cells row column).trans (if_pos ⟨rfl, rfl⟩),
      fun row' column' other => (cells row' column').trans (if_neg other), ?_⟩
    intro later target same stands accepts
    obtain ⟨vars, scope, peeked, left⟩ := Variables.peek_putCell found rows columns has fits accepts
    have edited : later.past.vars.peek ⟨target, cell.array, cell.row, cell.column⟩ = .ok vars := by
      rw [past_vars, same]
      exact peeked
    obtain ⟨event, ran⟩ := execute_one_of_performed stands
      ((Edits.change _).ok (makeAll_singleton.trans edited))
    refine ⟨event, _, scope, ran, rfl, (left target).trans (if_pos rfl), fun name other => ?_⟩
    rw [same]
    exact (left name).trans (if_neg other)
  · intro kind rows columns first grid made writes
    obtain ⟨height, width⟩ := Grid.shape_of_writes made writes
    refine ⟨height, width, fun row column => ⟨Grid.exists_get_iff,
      fun value stored coerced => Grid.exists_set_iff coerced, fun outside => ?_⟩⟩
    obtain ⟨fault, code, unread, unwritten⟩ := Grid.cell_of_not_has outside
    refine ⟨fault, code, unread, fun value => ⟨?_, fun session name scope found =>
      setCell_outside found (unwritten value)⟩⟩
    unfold Grid.set
    rw [unwritten]
    rfl

def lastCell : String :=
  "array real a 2 3\nint i = 1\npoke a(i,i+1) = i/2\npeek t = a i i+1"

theorem peek_reads_last_cell :
    (∃ session after last event event' value scope,
      Program.compile lastCell = .ok session.program ∧
      session.program.statement? session.pc = some (.poke ⟨"a", "i", "i+1", "i/2"⟩) ∧
      execute 1 session = .ok event after ∧
      after.program.statement? after.pc = some (.peek ⟨"t", "a", "i", "i+1"⟩) ∧
      session.vars.get? "t" = none ∧ session.vars.size < Variables.maxSize ∧
      execute 1 after = .ok event' last ∧ last.textOf? "t" = some "0.5" ∧
      last.vars.get? "t" = some ⟨value, scope⟩ ∧
      ∀ name, "t" ≠ name → last.vars.get? name = after.vars.get? name) ∧
    ∃ first grid, Grid.dimension .int 2 (-3) = .ok first ∧ first.Writes grid ∧
      grid.columns = 1 ∧ grid.Has 1 0 ∧ (∃ value, grid.get 1 0 = .ok value) ∧
      ¬ grid.Has 0 1 ∧ ∃ fault, fault.code = .indexOutOfRange ∧ grid.get 0 1 = .error fault := by
  constructor
  · have reached : reaches lastCell 2 (fun session =>
        session.program.statement? session.pc == some (.poke ⟨"a", "i", "i+1", "i/2"⟩) &&
        (session.faultWithin? 1).isNone &&
        (session.stateAfter 1).program.statement? (session.stateAfter 1).pc ==
          some (.peek ⟨"t", "a", "i", "i+1"⟩) &&
        !session.vars.contains "t" && decide (session.vars.size < Variables.maxSize) &&
        ((session.stateAfter 1).stateAfter 1).textOf? "t" == some "0.5") = true := by
      decide +kernel
    obtain ⟨blank, first, event, session, compiled, started, ran, checked⟩ :=
      exists_of_reaches reached
    simp only [Bool.and_eq_true, beq_iff_eq, Bool.not_eq_true', decide_eq_true_eq] at checked
    obtain ⟨⟨⟨⟨⟨stands, fine⟩, follows⟩, absent⟩, room⟩, shown⟩ := checked
    have absent := Variables.contains_eq_false.mp absent
    obtain ⟨k, -, steps, -⟩ := steps_of_execute ran
    obtain ⟨-, program⟩ := (sound_start compiled started).steps steps
    rw [← program.trans (start_program started)] at compiled
    obtain ⟨event, ran⟩ := execute_of_no_fault (Option.isNone_iff_eq_none.mp fine)
    obtain ⟨grid, -, -, -, -, value, -, -, -, -, -, -, -, -, -, -, -, -, peeks⟩ :=
      peek_reads_what_poke_wrote.1 session _ event _ stands ran
    obtain ⟨event', last, scope, ran', -, holds, others⟩ :=
      peeks _ "t" rfl follows (.inl ⟨absent, room⟩)
    rw [stateAfter, ran'] at shown
    exact ⟨session, _, last, event, event', value, scope, compiled, stands, ran, follows, absent,
      room, ran', shown, holds, others⟩
  · have written : Grid.Writes (Grid.zero .int 2 1) ((Grid.zero .int 2 1).put 1 (.int 7)) :=
      ⟨1, 0, .int 7, rfl⟩
    obtain ⟨-, columns, cells⟩ := peek_reads_what_poke_wrote.2.2 .int 2 (-3) (Grid.zero .int 2 1) _
      rfl (.single written)
    have inside : ((Grid.zero .int 2 1).put 1 (.int 7)).Has 1 0 := by decide
    have outside : ¬ ((Grid.zero .int 2 1).put 1 (.int 7)).Has 0 1 := by decide
    obtain ⟨fault, code, unread, -⟩ := (cells 0 1).2.2 outside
    exact ⟨_, _, rfl, written, columns, inside, (cells 1 0).1.mpr inside, outside, fault, code,
      unread⟩

end Session

end Easel
