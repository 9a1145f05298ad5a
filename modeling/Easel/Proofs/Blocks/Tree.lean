import Easel.Program

/-! The block tree of a program: what a sequence of statements says once every `else` and `end` is
read together with what it belongs to. A sequence has at most one tree. -/

namespace Easel

/-- Statements that do one thing and go on behind themselves. -/
inductive Simple where
  | declare (declaration : Declaration)
  | array (declaration : ArrayDeclaration)
  | poke (cell : Poke)
  | peek (cell : Peek)
  | draw (drawing : Drawing) (arguments : List String)
  | write (expression : String)

def Simple.statement : Simple → Statement
  | declare declaration => .declare declaration
  | array declaration => .array declaration
  | poke cell => .poke cell
  | peek cell => .peek cell
  | draw drawing arguments => .draw drawing arguments
  | write expression => .write expression

def Statement.simple? : Statement → Option Simple
  | declare declaration => some (.declare declaration)
  | array declaration => some (.array declaration)
  | poke cell => some (.poke cell)
  | peek cell => some (.peek cell)
  | draw drawing arguments => some (.draw drawing arguments)
  | write expression => some (.write expression)
  | _ => none

theorem Simple.simple?_statement (act : Simple) : act.statement.simple? = some act := by
  cases act <;> rfl

theorem Simple.statement_injective (first second : Simple)
    (same : first.statement = second.statement) : first = second := by
  have found := second.simple?_statement
  rw [← same, first.simple?_statement] at found
  exact Option.some.inj found

theorem Simple.statement_ne_endOf (act : Simple) (block : Block) :
    act.statement ≠ .endOf block := by
  cases act <;> simp [statement]

/-- Blocks one behind the other. `line` is where a block opens and `close` where it ends. -/
inductive Tree where
  | done
  | simple (line : Nat) (act : Simple) (rest : Tree)
  | call (line : Nat) (name : String) (arguments : List String) (rest : Tree)
  | ifThen (line : Nat) (condition : String) (body : Tree) (close : Nat) (rest : Tree)
  | ifElse (line : Nat) (condition : String) (body : Tree) (middle : Nat) (other : Tree)
      (close : Nat) (rest : Tree)
  | whileDo (line : Nat) (condition : String) (body : Tree) (close : Nat) (rest : Tree)
  | forNext (line : Nat) (header : ForHeader) (body : Tree) (close : Nat) (rest : Tree)
  | method (line : Nat) (signature : Signature) (body : Tree) (close : Nat) (rest : Tree)

/-- A block from the statement that opens it to the one that closes it, which is an `else` unless
the block is `ended`. -/
structure Span where
  first : Nat
  last : Nat
  block : Block
  ended : Bool
  deriving DecidableEq, Repr

namespace Tree

def commands : Tree → List Command
  | done => []
  | simple line act rest => ⟨line, act.statement⟩ :: rest.commands
  | call line name arguments rest => ⟨line, .call name arguments⟩ :: rest.commands
  | ifThen line condition body close rest =>
    ⟨line, .ifThen condition⟩ :: body.commands ++ ⟨close, .endOf .ifBlock⟩ :: rest.commands
  | ifElse line condition body middle other close rest =>
    ⟨line, .ifThen condition⟩ :: body.commands ++ ⟨middle, .otherwise⟩ :: other.commands ++
      ⟨close, .endOf .ifBlock⟩ :: rest.commands
  | whileDo line condition body close rest =>
    ⟨line, .whileDo condition⟩ :: body.commands ++ ⟨close, .endOf .whileBlock⟩ :: rest.commands
  | forNext line header body close rest =>
    ⟨line, .forNext header⟩ :: body.commands ++ ⟨close, .endOf .forBlock⟩ :: rest.commands
  | method line signature body close rest =>
    ⟨line, .method signature⟩ :: body.commands ++ ⟨close, .endOf .methodBlock⟩ :: rest.commands

def size : Tree → Nat
  | done => 0
  | simple _ _ rest | call _ _ _ rest => rest.size + 1
  | ifThen _ _ body _ rest | whileDo _ _ body _ rest | forNext _ _ body _ rest
  | method _ _ body _ rest => body.size + rest.size + 2
  | ifElse _ _ body _ other _ rest => body.size + other.size + rest.size + 3

def spans : Nat → Tree → List Span
  | _, done => []
  | start, simple _ _ rest | start, call _ _ _ rest => rest.spans (start + 1)
  | start, ifThen _ _ body _ rest =>
    ⟨start, start + body.size + 1, .ifBlock, true⟩ ::
      (body.spans (start + 1) ++ rest.spans (start + body.size + 2))
  | start, ifElse _ _ body _ other _ rest =>
    ⟨start, start + body.size + 1, .ifBlock, false⟩ ::
      ⟨start + body.size + 1, start + body.size + other.size + 2, .elseBlock, true⟩ ::
      (body.spans (start + 1) ++ other.spans (start + body.size + 2) ++
        rest.spans (start + body.size + other.size + 3))
  | start, whileDo _ _ body _ rest =>
    ⟨start, start + body.size + 1, .whileBlock, true⟩ ::
      (body.spans (start + 1) ++ rest.spans (start + body.size + 2))
  | start, forNext _ _ body _ rest =>
    ⟨start, start + body.size + 1, .forBlock, true⟩ ::
      (body.spans (start + 1) ++ rest.spans (start + body.size + 2))
  | start, method _ _ body _ rest =>
    ⟨start, start + body.size + 1, .methodBlock, true⟩ ::
      (body.spans (start + 1) ++ rest.spans (start + body.size + 2))

@[simp] theorem length_commands (tree : Tree) : tree.commands.length = tree.size := by
  induction tree with
  | done => rfl
  | simple line act rest ih => simp [commands, size, ih]
  | call line name arguments rest ih => simp [commands, size, ih]
  | ifElse line condition body middle other close rest first second third =>
      simp only [commands, size, List.length_append, List.length_cons, first, second, third]
      omega
  | ifThen line condition body close rest inner outer
  | whileDo line condition body close rest inner outer
  | forNext line header body close rest inner outer
  | method line signature body close rest inner outer =>
      simp only [commands, size, List.length_append, List.length_cons, inner, outer]
      omega

/-! ### One tree behind another -/

def append : Tree → Tree → Tree
  | done, tail => tail
  | simple line act rest, tail => simple line act (rest.append tail)
  | call line name arguments rest, tail => call line name arguments (rest.append tail)
  | ifThen line condition body close rest, tail =>
    ifThen line condition body close (rest.append tail)
  | ifElse line condition body middle other close rest, tail =>
    ifElse line condition body middle other close (rest.append tail)
  | whileDo line condition body close rest, tail =>
    whileDo line condition body close (rest.append tail)
  | forNext line header body close rest, tail =>
    forNext line header body close (rest.append tail)
  | method line signature body close rest, tail =>
    method line signature body close (rest.append tail)

theorem commands_append (tree tail : Tree) :
    (tree.append tail).commands = tree.commands ++ tail.commands := by
  induction tree <;> simp_all [append, commands]

theorem mem_spans_append (tree tail : Tree) (start : Nat) (span : Span) :
    span ∈ (tree.append tail).spans start ↔
      span ∈ tree.spans start ∨ span ∈ tail.spans (start + tree.size) := by
  induction tree generalizing start with
  | done => simp [append, spans, size]
  | simple line act rest ih =>
      simp only [append, spans, size, ih]
      rw [show start + (rest.size + 1) = start + 1 + rest.size by omega]
  | call line name arguments rest ih =>
      simp only [append, spans, size, ih]
      rw [show start + (rest.size + 1) = start + 1 + rest.size by omega]
  | ifElse line condition body middle other close rest first second third =>
      simp only [append, spans, size, List.mem_cons, List.mem_append, third]
      rw [show start + (body.size + other.size + rest.size + 3) =
        start + body.size + other.size + 3 + rest.size by omega]
      simp only [or_assoc]
  | ifThen line condition body close rest inner outer
  | whileDo line condition body close rest inner outer
  | forNext line header body close rest inner outer
  | method line signature body close rest inner outer =>
      simp only [append, spans, size, List.mem_cons, List.mem_append, outer]
      rw [show start + (body.size + rest.size + 2) = start + body.size + 2 + rest.size by omega]
      simp only [or_assoc]

/-! ### A sequence of commands has one tree -/

/-- Nothing follows, or what follows belongs to a block further out. -/
def LeavesBlock : List Command → Prop
  | [] => True
  | command :: _ => Program.stepsOut command.statement = true

theorem not_leavesBlock_commands (tree : Tree) (tail : List Command) (inside : tree ≠ done) :
    ¬ LeavesBlock (tree.commands ++ tail) := by
  cases tree with
  | done => exact absurd rfl inside
  | simple line act rest => cases act <;> simp [commands, LeavesBlock, Simple.statement, Program.stepsOut]
  | _ => simp [commands, LeavesBlock, Program.stepsOut]

theorem commands_ne_outside (tree : Tree) (left right : List Command) (inside : tree ≠ done)
    (rightOut : LeavesBlock right) : tree.commands ++ left ≠ done.commands ++ right := by
  intro same
  rw [show right = tree.commands ++ left from same.symm] at rightOut
  exact not_leavesBlock_commands tree left inside rightOut

/-- The commands of the tree, up to what leaves its block, are those of no other tree. -/
def Injective (tree : Tree) : Prop :=
  ∀ second left right, LeavesBlock left → LeavesBlock right →
    tree.commands ++ left = second.commands ++ right → tree = second ∧ left = right

theorem Injective.block {body rest : Tree} (inner : body.Injective) (outer : rest.Injective)
    (body' rest' : Tree) (close close' : Command) (left right : List Command)
    (closes : Program.stepsOut close.statement = true)
    (closes' : Program.stepsOut close'.statement = true)
    (leftOut : LeavesBlock left) (rightOut : LeavesBlock right)
    (same : body.commands ++ close :: (rest.commands ++ left) =
      body'.commands ++ close' :: (rest'.commands ++ right)) :
    body = body' ∧ close = close' ∧ rest = rest' ∧ left = right := by
  obtain ⟨sameBody, tails⟩ := inner body' _ _ (by exact closes) (by exact closes') same
  obtain ⟨sameClose, sameRest⟩ := List.cons.inj tails
  exact ⟨sameBody, sameClose, outer rest' left right leftOut rightOut sameRest⟩

theorem commands_injective (tree : Tree) : tree.Injective := by
  induction tree with
  | done =>
      intro second left right leftOut rightOut same
      by_cases isDone : second = done
      · subst second
        exact ⟨rfl, same⟩
      · exact absurd same.symm (commands_ne_outside second right left isDone leftOut)
  | simple line act rest ih =>
      intro second left right leftOut rightOut same
      cases second with
      | done => exact absurd same (commands_ne_outside _ left right (by simp) rightOut)
      | simple line' act' rest' =>
          simp only [commands, List.cons_append, List.cons.injEq, Command.mk.injEq] at same
          obtain ⟨⟨rfl, sameAct⟩, sameRest⟩ := same
          obtain rfl := Simple.statement_injective act act' sameAct
          obtain ⟨rfl, rfl⟩ := ih rest' left right leftOut rightOut sameRest
          exact ⟨rfl, rfl⟩
      | _ => cases act <;> simp [commands, Simple.statement] at same
  | call line name arguments rest ih =>
      intro second left right leftOut rightOut same
      cases second with
      | done => exact absurd same (commands_ne_outside _ left right (by simp) rightOut)
      | simple line' act' rest' => cases act' <;> simp [commands, Simple.statement] at same
      | call line' name' arguments' rest' =>
          simp only [commands, List.cons_append, List.cons.injEq, Command.mk.injEq,
            Statement.call.injEq] at same
          obtain ⟨⟨rfl, rfl, rfl⟩, sameRest⟩ := same
          obtain ⟨rfl, rfl⟩ := ih rest' left right leftOut rightOut sameRest
          exact ⟨rfl, rfl⟩
      | _ => simp [commands] at same
  | ifThen line condition body close rest inner outer =>
      intro second left right leftOut rightOut same
      cases second with
      | done => exact absurd same (commands_ne_outside _ left right (by simp) rightOut)
      | simple line' act' rest' => cases act' <;> simp [commands, Simple.statement] at same
      | ifThen line' condition' body' close' rest' =>
          simp only [commands, List.cons_append, List.append_assoc, List.cons.injEq,
            Command.mk.injEq, Statement.ifThen.injEq] at same
          obtain ⟨⟨rfl, rfl⟩, sameBody⟩ := same
          obtain ⟨rfl, sameClose, rfl, rfl⟩ :=
            inner.block outer body' rest' _ _ left right rfl rfl leftOut rightOut sameBody
          cases sameClose
          exact ⟨rfl, rfl⟩
      | ifElse line' condition' body' middle' other' close' rest' =>
          simp only [commands, List.cons_append, List.append_assoc, List.cons.injEq] at same
          have sameClose := (inner body' _ _ (by exact rfl) (by exact rfl) same.2).2
          simp at sameClose
      | _ => simp [commands] at same
  | whileDo line condition body close rest inner outer =>
      intro second left right leftOut rightOut same
      cases second with
      | done => exact absurd same (commands_ne_outside _ left right (by simp) rightOut)
      | simple line' act' rest' => cases act' <;> simp [commands, Simple.statement] at same
      | whileDo line' condition' body' close' rest' =>
          simp only [commands, List.cons_append, List.append_assoc, List.cons.injEq,
            Command.mk.injEq, Statement.whileDo.injEq] at same
          obtain ⟨⟨rfl, rfl⟩, sameBody⟩ := same
          obtain ⟨rfl, sameClose, rfl, rfl⟩ :=
            inner.block outer body' rest' _ _ left right rfl rfl leftOut rightOut sameBody
          cases sameClose
          exact ⟨rfl, rfl⟩
      | _ => simp [commands] at same
  | forNext line header body close rest inner outer =>
      intro second left right leftOut rightOut same
      cases second with
      | done => exact absurd same (commands_ne_outside _ left right (by simp) rightOut)
      | simple line' act' rest' => cases act' <;> simp [commands, Simple.statement] at same
      | forNext line' header' body' close' rest' =>
          simp only [commands, List.cons_append, List.append_assoc, List.cons.injEq,
            Command.mk.injEq, Statement.forNext.injEq] at same
          obtain ⟨⟨rfl, rfl⟩, sameBody⟩ := same
          obtain ⟨rfl, sameClose, rfl, rfl⟩ :=
            inner.block outer body' rest' _ _ left right rfl rfl leftOut rightOut sameBody
          cases sameClose
          exact ⟨rfl, rfl⟩
      | _ => simp [commands] at same
  | method line signature body close rest inner outer =>
      intro second left right leftOut rightOut same
      cases second with
      | done => exact absurd same (commands_ne_outside _ left right (by simp) rightOut)
      | simple line' act' rest' => cases act' <;> simp [commands, Simple.statement] at same
      | method line' signature' body' close' rest' =>
          simp only [commands, List.cons_append, List.append_assoc, List.cons.injEq,
            Command.mk.injEq, Statement.method.injEq] at same
          obtain ⟨⟨rfl, rfl⟩, sameBody⟩ := same
          obtain ⟨rfl, sameClose, rfl, rfl⟩ :=
            inner.block outer body' rest' _ _ left right rfl rfl leftOut rightOut sameBody
          cases sameClose
          exact ⟨rfl, rfl⟩
      | _ => simp [commands] at same
  | ifElse line condition body middle other close rest first second third =>
      intro tree left right leftOut rightOut same
      cases tree with
      | done => exact absurd same (commands_ne_outside _ left right (by simp) rightOut)
      | simple line' act' rest' => cases act' <;> simp [commands, Simple.statement] at same
      | ifElse line' condition' body' middle' other' close' rest' =>
          simp only [commands, List.cons_append, List.append_assoc, List.cons.injEq,
            Command.mk.injEq, Statement.ifThen.injEq] at same
          obtain ⟨⟨rfl, rfl⟩, sameBody⟩ := same
          obtain ⟨rfl, sameElse⟩ := first body' _ _ (by exact rfl) (by exact rfl) sameBody
          simp only [List.cons.injEq, Command.mk.injEq, and_true] at sameElse
          obtain ⟨rfl, sameOther⟩ := sameElse
          obtain ⟨rfl, sameClose, rfl, rfl⟩ :=
            second.block third other' rest' _ _ left right rfl rfl leftOut rightOut sameOther
          cases sameClose
          exact ⟨rfl, rfl⟩
      | ifThen line' condition' body' close' rest' =>
          simp only [commands, List.cons_append, List.append_assoc, List.cons.injEq] at same
          have sameClose := (first body' _ _ (by exact rfl) (by exact rfl) same.2).2
          simp at sameClose
      | _ => simp [commands] at same

theorem eq_of_commands_eq (first second : Tree) (same : first.commands = second.commands) :
    first = second :=
  (first.commands_injective second [] [] trivial trivial (by simpa using same)).1

/-! ### Where the blocks of a tree lie -/

theorem spans_bounds (tree : Tree) (start : Nat) :
    ∀ span ∈ tree.spans start,
      start ≤ span.first ∧ span.first < span.last ∧ span.last < start + tree.size := by
  induction tree generalizing start with
  | done => simp [spans]
  | simple line act rest ih | call line name arguments rest ih =>
      intro span member
      have bounds := ih (start + 1) span member
      simp only [size]
      omega
  | ifElse line condition body middle other close rest first second third =>
      intro span member
      simp only [spans, List.mem_cons, List.mem_append] at member
      simp only [size]
      rcases member with rfl | rfl | (inBody | inOther) | inRest
      · grind
      · grind
      · have bounds := first _ span inBody
        omega
      · have bounds := second _ span inOther
        omega
      · have bounds := third _ span inRest
        omega
  | ifThen line condition body close rest inner outer
  | whileDo line condition body close rest inner outer
  | forNext line header body close rest inner outer
  | method line signature body close rest inner outer =>
      intro span member
      simp only [spans, List.mem_cons, List.mem_append] at member
      simp only [size]
      rcases member with rfl | inBody | inRest
      · grind
      · have bounds := inner _ span inBody
        omega
      · have bounds := outer _ span inRest
        omega

def Apart (first second : Span) : Prop :=
  first.first < second.first → first.last ≤ second.first ∨ second.last < first.last

theorem spans_nested (tree : Tree) (start : Nat) :
    ∀ first ∈ tree.spans start, ∀ second ∈ tree.spans start, Apart first second := by
  induction tree generalizing start with
  | done => simp [spans]
  | simple line act rest ih | call line name arguments rest ih => exact ih (start + 1)
  | ifElse line condition body middle other close rest inBody inOther inRest =>
      have bodyBounds := body.spans_bounds (start + 1)
      have otherBounds := other.spans_bounds (start + body.size + 2)
      have restBounds := rest.spans_bounds (start + body.size + other.size + 3)
      intro first firstIn second secondIn earlier
      simp only [spans, List.mem_cons, List.mem_append] at firstIn secondIn
      rcases firstIn with rfl | rfl | (firstIn | firstIn) | firstIn <;>
        rcases secondIn with rfl | rfl | (secondIn | secondIn) | secondIn <;>
        grind [Apart]
  | ifThen line condition body close rest inner outer
  | whileDo line condition body close rest inner outer
  | forNext line header body close rest inner outer
  | method line signature body close rest inner outer =>
      have bodyBounds := body.spans_bounds (start + 1)
      have restBounds := rest.spans_bounds (start + body.size + 2)
      intro first firstIn second secondIn earlier
      simp only [spans, List.mem_cons, List.mem_append] at firstIn secondIn
      rcases firstIn with rfl | firstIn | firstIn <;>
        rcases secondIn with rfl | secondIn | secondIn <;>
        grind [Apart]

end Tree

end Easel
