import Mathlib.Data.List.Forall2
import Easel.Proofs.Blocks.Nesting

/-! The grammar of blocks. A sequence of statements is read against it by keeping the blocks that
are open, the innermost first: it is a sentence just if none is left open, and the beginning of one
as long as every statement finds the block that it belongs to. -/

namespace Easel

/-- Statements in which every block is closed. -/
inductive Sentence : List Statement → Prop
  | empty : Sentence []
  | simple {statement : Statement} {rest : List Statement} (plain : statement.opens? = none)
      (inside : ∀ block, statement ≠ .endOf block) (more : Sentence rest) :
      Sentence (statement :: rest)
  | ifThen {condition : String} {body rest : List Statement} (inner : Sentence body)
      (more : Sentence rest) : Sentence (.ifThen condition :: body ++ .endOf .ifBlock :: rest)
  | ifElse {condition : String} {body other rest : List Statement} (inner : Sentence body)
      (between : Sentence other) (more : Sentence rest) :
      Sentence (.ifThen condition :: body ++ .otherwise :: other ++ .endOf .ifBlock :: rest)
  | whileDo {condition : String} {body rest : List Statement} (inner : Sentence body)
      (more : Sentence rest) : Sentence (.whileDo condition :: body ++ .endOf .whileBlock :: rest)
  | forNext {header : ForHeader} {body rest : List Statement} (inner : Sentence body)
      (more : Sentence rest) : Sentence (.forNext header :: body ++ .endOf .forBlock :: rest)
  | method {signature : Signature} {body rest : List Statement} (inner : Sentence body)
      (more : Sentence rest) : Sentence (.method signature :: body ++ .endOf .methodBlock :: rest)

/-- The statements can be completed to a sentence. -/
def Viable (statements : List Statement) : Prop := ∃ rest, Sentence (statements ++ rest)

namespace Statement

def opensAnother (statement : Statement) : Bool := statement.opens?.any (· != .elseBlock)

def isEnd : Statement → Bool
  | endOf _ => true
  | _ => false

theorem opensAnother_iff {statement : Statement} : statement.opensAnother = true ↔
    ∃ block, statement.opens? = some block ∧ block ≠ .elseBlock := by
  unfold opensAnother
  cases statement.opens? <;> simp

end Statement

/-- How many blocks are open behind the statements. -/
def openBlocks (statements : List Statement) : Nat :=
  statements.countP (·.opensAnother) - statements.countP (·.isEnd)

namespace Block

/-! ### Reading against the grammar -/

/-- The blocks that are open behind a statement, unless it belongs to none of those before it. -/
def behind? (opened : List Block) : Statement → Option (List Block)
  | .otherwise => match opened with
    | .ifBlock :: outer => some (.elseBlock :: outer)
    | _ => none
  | .endOf block => match opened with
    | inner :: outer => if inner.ending = block then some outer else none
    | [] => none
  | statement => some (statement.opens?.toList ++ opened)

def behindAll? (opened : List Block) (statements : List Statement) : Option (List Block) :=
  statements.foldlM behind? opened

variable {opened after outer : List Block} {statement : Statement} {statements : List Statement}

theorem behindAll?_cons : behindAll? opened (statement :: statements) =
    (behind? opened statement).bind (behindAll? · statements) := rfl

theorem behindAll?_one (opened : List Block) (statement : Statement) :
    behindAll? opened [statement] = behind? opened statement := by
  rw [behindAll?_cons]
  cases behind? opened statement <;> rfl

theorem behindAll?_append (more : List Statement) : behindAll? opened (statements ++ more) =
    (behindAll? opened statements).bind (behindAll? · more) := by
  simp only [behindAll?, List.foldlM_append]
  rfl

theorem behind?_plain (plain : statement.opens? = none)
    (inside : ∀ block, statement ≠ .endOf block) : behind? opened statement = some opened := by
  cases statement with
  | endOf block => exact absurd rfl (inside block)
  | ifThen | otherwise | whileDo | forNext | method => cases plain
  | declare | array | poke | peek | call | draw | write => rfl

theorem behindAll?_block (block : Block) {opening : Statement} {body rest : List Statement}
    (opens : behind? opened opening = some (block :: outer))
    (inner : ∀ opened, behindAll? opened body = some opened)
    (more : ∀ opened, behindAll? opened rest = some opened) :
    behindAll? opened (opening :: body ++ .endOf block.ending :: rest) = some outer := by
  rw [List.cons_append, behindAll?_cons, opens, Option.bind_some, behindAll?_append, inner,
    Option.bind_some, behindAll?_cons]
  change (if block.ending = block.ending then some outer else none).bind _ = _
  rw [if_pos rfl, Option.bind_some, more]

theorem behindAll?_sentence (sentence : Sentence statements) (opened : List Block) :
    behindAll? opened statements = some opened := by
  induction sentence generalizing opened with
  | empty => rfl
  | simple plain inside more ih =>
      rw [behindAll?_cons, behind?_plain plain inside]
      exact ih opened
  | ifThen inner more innerIh moreIh => exact behindAll?_block .ifBlock rfl innerIh moreIh
  | ifElse inner between more innerIh betweenIh moreIh =>
      rw [List.cons_append, List.cons_append, List.append_assoc, behindAll?_cons]
      change behindAll? (.ifBlock :: opened) _ = _
      rw [behindAll?_append, innerIh, Option.bind_some]
      exact behindAll?_block .elseBlock rfl betweenIh moreIh
  | whileDo inner more innerIh moreIh => exact behindAll?_block .whileBlock rfl innerIh moreIh
  | forNext inner more innerIh moreIh => exact behindAll?_block .forBlock rfl innerIh moreIh
  | method inner more innerIh moreIh => exact behindAll?_block .methodBlock rfl innerIh moreIh

theorem behindAll?_of_viable (viable : Viable statements) :
    ∃ opened, behindAll? [] statements = some opened := by
  obtain ⟨rest, sentence⟩ := viable
  have whole := behindAll?_sentence sentence []
  rw [behindAll?_append] at whole
  obtain ⟨opened, found, -⟩ := Option.bind_eq_some_iff.mp whole
  exact ⟨opened, found⟩

theorem behind?_ne_nil (opens : statement.opens?.isSome = true) :
    behind? opened statement ≠ some [] := by
  intro found
  cases statement with
  | otherwise =>
      obtain _ | ⟨inner, outer⟩ := opened
      · cases found
      · cases inner <;> cases found
  | ifThen | whileDo | forNext | method => cases found
  | declare | array | poke | peek | endOf | call | draw | write => cases opens

/-! ### How many blocks are open -/

theorem length_behind? (found : behind? opened statement = some after) :
    after.length + (if statement.isEnd then 1 else 0) =
      opened.length + (if statement.opensAnother then 1 else 0) := by
  unfold behind? at found
  split at found
  · split at found <;> cases found
    rfl
  · split at found
    · split at found <;> cases found
      rfl
    · cases found
  · rename_i noElse noEnd
    cases found
    cases statement with
    | otherwise => exact absurd rfl noElse
    | endOf block => exact absurd rfl (noEnd block)
    | _ => simp [Statement.opens?, Statement.isEnd, Statement.opensAnother]

theorem length_behindAll? (found : behindAll? opened statements = some after) :
    after.length + statements.countP (·.isEnd) =
      opened.length + statements.countP (·.opensAnother) := by
  induction statements generalizing opened with
  | nil =>
      cases found
      rfl
  | cons statement rest ih =>
      rw [behindAll?_cons] at found
      obtain ⟨middle, first, found⟩ := Option.bind_eq_some_iff.mp found
      have head := length_behind? first
      have tail := ih found
      rw [List.countP_cons, List.countP_cons]
      omega

theorem openBlocks_eq (found : behindAll? [] statements = some after) :
    openBlocks statements = after.length := by
  have length := length_behindAll? found
  unfold openBlocks
  rw [List.length_nil, Nat.zero_add] at length
  omega

end Block

/-! ### Trees and outlines -/

def statements (commands : List Command) : List Statement := commands.map (·.statement)

theorem statements_append (front back : List Command) :
    statements (front ++ back) = statements front ++ statements back := List.map_append

theorem Tree.sentence (tree : Tree) : Sentence (statements tree.commands) := by
  induction tree with
  | done => exact .empty
  | simple line act rest ih =>
      exact .simple (by cases act <;> rfl) act.statement_ne_endOf ih
  | call line name arguments rest ih => exact .simple rfl nofun ih
  | ifThen line condition body close rest inner more =>
      simp only [commands, statements_append]
      exact .ifThen inner more
  | ifElse line condition body middle other close rest inner between more =>
      simp only [commands, statements_append]
      exact .ifElse inner between more
  | whileDo line condition body close rest inner more =>
      simp only [commands, statements_append]
      exact .whileDo inner more
  | forNext line header body close rest inner more =>
      simp only [commands, statements_append]
      exact .forNext inner more
  | method line signature body close rest inner more =>
      simp only [commands, statements_append]
      exact .method inner more

theorem Outline.viable (outline : Outline) (tree : Tree) :
    Viable (statements (outline.commands ++ tree.commands)) := by
  induction outline generalizing tree with
  | nil => exact ⟨[], by simpa [Outline.commands] using tree.sentence⟩
  | cons level outer ih =>
      obtain ⟨rest, sentence⟩ := ih (level.before.append (level.opened.close tree 0))
      refine ⟨.endOf level.opened.ending :: rest, ?_⟩
      simpa [Outline.commands, Tree.commands_append, Opened.commands_close, statements]
        using sentence

/-- The command opens a block, and every block behind it is closed again. -/
def StillOpen (commands : List Command) (opening : Command) : Prop :=
  ∃ front body, commands = front ++ opening :: body ∧ opening.statement.opens?.isSome = true ∧
    Sentence (statements body)

theorem Sentence.not_open {front body : List Statement} {opening : Statement}
    (sentence : Sentence (front ++ opening :: body)) (opens : opening.opens?.isSome = true) :
    ¬ Sentence body := by
  intro inner
  have whole := Block.behindAll?_sentence sentence []
  rw [Block.behindAll?_append] at whole
  obtain ⟨before, -, whole⟩ := Option.bind_eq_some_iff.mp whole
  rw [Block.behindAll?_cons] at whole
  obtain ⟨after, opened, whole⟩ := Option.bind_eq_some_iff.mp whole
  rw [Block.behindAll?_sentence inner] at whole
  cases whole
  exact Block.behind?_ne_nil opens opened

theorem eq_of_stillOpen {opening other : Command} {between body body' : List Command}
    (opens : other.statement.opens?.isSome = true) (closed : Sentence (statements body))
    (closed' : Sentence (statements body'))
    (same : opening :: body = between ++ other :: body') : opening = other := by
  cases between with
  | nil => exact (List.cons.inj same).1
  | cons first between =>
      rw [List.cons_append] at same
      obtain ⟨-, rfl⟩ := List.cons.inj same
      rw [statements_append] at closed
      exact absurd closed' (closed.not_open opens)

theorem StillOpen.unique {commands : List Command} {opening other : Command}
    (left : StillOpen commands opening) (right : StillOpen commands other) : opening = other := by
  obtain ⟨front, body, rfl, opens, closed⟩ := left
  obtain ⟨front', body', same, opens', closed'⟩ := right
  rcases List.append_eq_append_iff.mp same with ⟨between, -, rest⟩ | ⟨between, -, rest⟩
  · exact eq_of_stillOpen opens' closed closed' rest
  · exact (eq_of_stillOpen opens closed' closed rest).symm

theorem Opened.exists_opening (opened : Opened) :
    ∃ front opening, opened.commands = front ++ [opening] ∧ opening.line = opened.line ∧
      opening.statement.opens?.isSome = true := by
  cases opened with
  | ifElse line condition body middle =>
      exact ⟨⟨line, .ifThen condition⟩ :: body.commands, ⟨middle, .otherwise⟩, rfl, rfl, rfl⟩
  | _ => exact ⟨[], _, rfl, rfl, rfl⟩

theorem Outline.stillOpen (level : Level) (outer : Outline) (tree : Tree) :
    ∃ opening, StillOpen (Outline.commands (level :: outer) ++ tree.commands) opening ∧
      opening.line = level.opened.line := by
  obtain ⟨front, opening, commands, line, opens⟩ := level.opened.exists_opening
  refine ⟨opening, ⟨outer.commands ++ level.before.commands ++ front, tree.commands, ?_, opens,
    tree.sentence⟩, line⟩
  simp [Outline.commands, commands]

end Easel
