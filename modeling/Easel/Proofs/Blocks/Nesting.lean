import Easel.Proofs.Blocks.Outline

/-! How the blocks of a compiled program lie: where its tree stands in the sequence of commands, what
opens and closes each block, and that blocks do not cross. -/

namespace Easel

namespace Tree

/-- The tree stands in the program from the given address on, with its blocks linked. -/
def At (program : Program) : Nat → Tree → Prop
  | _, done => True
  | start, simple line act rest =>
    program.commands[start]? = some ⟨line, act.statement⟩ ∧ rest.At program (start + 1)
  | start, call line name arguments rest =>
    program.commands[start]? = some ⟨line, .call name arguments⟩ ∧ rest.At program (start + 1)
  | start, ifThen line condition body close rest =>
    program.commands[start]? = some ⟨line, .ifThen condition⟩ ∧
      program.targets[start]? = some (start + body.size + 1) ∧
      body.At program (start + 1) ∧
      program.commands[start + body.size + 1]? = some ⟨close, .endOf .ifBlock⟩ ∧
      rest.At program (start + body.size + 2)
  | start, ifElse line condition body middle other close rest =>
    program.commands[start]? = some ⟨line, .ifThen condition⟩ ∧
      program.targets[start]? = some (start + body.size + 1) ∧
      body.At program (start + 1) ∧
      program.commands[start + body.size + 1]? = some ⟨middle, .otherwise⟩ ∧
      program.targets[start + body.size + 1]? = some (start + body.size + other.size + 2) ∧
      other.At program (start + body.size + 2) ∧
      program.commands[start + body.size + other.size + 2]? = some ⟨close, .endOf .ifBlock⟩ ∧
      rest.At program (start + body.size + other.size + 3)
  | start, whileDo line condition body close rest =>
    program.commands[start]? = some ⟨line, .whileDo condition⟩ ∧
      program.targets[start]? = some (start + body.size + 1) ∧
      body.At program (start + 1) ∧
      program.commands[start + body.size + 1]? = some ⟨close, .endOf .whileBlock⟩ ∧
      program.openers[start + body.size + 1]? = some start ∧
      rest.At program (start + body.size + 2)
  | start, forNext line header body close rest =>
    program.commands[start]? = some ⟨line, .forNext header⟩ ∧
      program.targets[start]? = some (start + body.size + 1) ∧
      body.At program (start + 1) ∧
      program.commands[start + body.size + 1]? = some ⟨close, .endOf .forBlock⟩ ∧
      program.openers[start + body.size + 1]? = some start ∧
      rest.At program (start + body.size + 2)
  | start, method line signature body close rest =>
    program.commands[start]? = some ⟨line, .method signature⟩ ∧
      program.targets[start]? = some (start + body.size + 1) ∧
      body.At program (start + 1) ∧
      program.commands[start + body.size + 1]? = some ⟨close, .endOf .methodBlock⟩ ∧
      program.openers[start + body.size + 1]? = some start ∧
      rest.At program (start + body.size + 2)

end Tree

namespace Program

def Holds (program : Program) : Nat → List Command → Prop
  | _, [] => True
  | start, command :: rest =>
    program.commands[start]? = some command ∧ program.Holds (start + 1) rest

theorem holds_append (program : Program) (start : Nat) (front back : List Command) :
    program.Holds start (front ++ back) ↔
      program.Holds start front ∧ program.Holds (start + front.length) back := by
  induction front generalizing start with
  | nil => simp [Holds]
  | cons command rest ih =>
      simp only [List.cons_append, Holds, ih, List.length_cons, and_assoc]
      rw [show start + (rest.length + 1) = start + 1 + rest.length by omega]

theorem holds_of_getElem? (program : Program) (start : Nat) (commands : List Command)
    (found : ∀ i, i < commands.length → program.commands[start + i]? = commands[i]?) :
    program.Holds start commands := by
  induction commands generalizing start with
  | nil => trivial
  | cons command rest ih =>
      refine ⟨found 0 (by simp), ih (start + 1) fun i bound => ?_⟩
      have next := found (i + 1) (by simpa using bound)
      rw [show start + (i + 1) = start + 1 + i by omega] at next
      simpa using next

/-- The block is in both tables, but only in the first where an `else` closes it. -/
def Pairs (program : Program) (span : Span) : Prop :=
  program.targets[span.first]? = some span.last ∧
    (span.ended = true → program.openers[span.last]? = some span.first)

end Program

theorem Tree.at_of_holds (program : Program) (tree : Tree) (start : Nat)
    (holds : program.Holds start tree.commands)
    (pairs : ∀ span ∈ tree.spans start, program.Pairs span) : tree.At program start := by
  induction tree generalizing start with
  | done => trivial
  | simple line act rest ih | call line name arguments rest ih =>
      exact ⟨holds.1, ih _ holds.2 pairs⟩
  | ifElse line condition body middle other close rest first second third =>
      simp only [commands, List.append_assoc, List.cons_append, Program.Holds,
        Program.holds_append, length_commands] at holds
      simp only [spans, List.forall_mem_cons, List.forall_mem_append] at pairs
      obtain ⟨opens, inBody, elses, inOther, closes, inRest⟩ := holds
      obtain ⟨ifPair, elsePair, ⟨bodyPairs, otherPairs⟩, restPairs⟩ := pairs
      rw [show start + 1 + body.size = start + body.size + 1 by omega] at elses inOther closes inRest
      rw [show start + body.size + 1 + 1 + other.size = start + body.size + other.size + 2 by omega]
        at closes inRest
      exact ⟨opens, ifPair.1, first _ inBody bodyPairs, elses, elsePair.1,
        second _ inOther otherPairs, closes, third _ inRest restPairs⟩
  | ifThen line condition body close rest inner outer =>
      simp only [commands, List.cons_append, Program.Holds, Program.holds_append,
        length_commands] at holds
      simp only [spans, List.forall_mem_cons, List.forall_mem_append] at pairs
      obtain ⟨opens, inBody, closes, inRest⟩ := holds
      obtain ⟨pair, bodyPairs, restPairs⟩ := pairs
      rw [show start + 1 + body.size = start + body.size + 1 by omega] at closes inRest
      exact ⟨opens, pair.1, inner _ inBody bodyPairs, closes, outer _ inRest restPairs⟩
  | whileDo line condition body close rest inner outer
  | forNext line header body close rest inner outer
  | method line signature body close rest inner outer =>
      simp only [commands, List.cons_append, Program.Holds, Program.holds_append,
        length_commands] at holds
      simp only [spans, List.forall_mem_cons, List.forall_mem_append] at pairs
      obtain ⟨opens, inBody, closes, inRest⟩ := holds
      obtain ⟨pair, bodyPairs, restPairs⟩ := pairs
      rw [show start + 1 + body.size = start + body.size + 1 by omega] at closes inRest
      exact ⟨opens, pair.1, inner _ inBody bodyPairs, closes, pair.2 rfl,
        outer _ inRest restPairs⟩

theorem Program.HasTree.at {program : Program} {tree : Tree} (has : program.HasTree tree) :
    tree.At program 0 := by
  refine Tree.at_of_holds program tree 0 (Program.holds_of_getElem? _ _ _ fun i _ => ?_)
    fun span member => ⟨?_, fun ended => ?_⟩
  · rw [← has.commands, Nat.zero_add, Array.getElem?_toList]
  · exact (has.linked.targets_iff _ _).mpr ⟨span, member, rfl, rfl⟩
  · exact (has.linked.openers_iff _ _).mpr ⟨span, member, ended, rfl, rfl⟩

/-! ### What opens and closes a block -/

/-- The block that an `end` has to name for this one to be closed. -/
def Block.ending : Block → Block
  | elseBlock => ifBlock
  | block => block

theorem Program.statement?_of_command {program : Program} {address : Nat} {command : Command}
    (found : program.commands[address]? = some command) :
    program.statement? address = some command.statement := by
  rw [Program.statement?, found]
  rfl

theorem Program.statement?_lt {program : Program} {address : Nat} {statement : Statement}
    (found : program.statement? address = some statement) : address < program.size := by
  rw [statement?, Option.map_eq_some_iff] at found
  obtain ⟨command, found, -⟩ := found
  exact (Array.getElem?_eq_some_iff.mp found).1

structure Program.Marks (program : Program) (span : Span) : Prop where
  opens : ∃ opening, program.statement? span.first = some opening ∧
    opening.opens? = some span.block
  closes : span.ended = true ∧ program.statement? span.last = some (.endOf span.block.ending) ∨
    span.ended = false ∧ span.block = .ifBlock ∧ program.statement? span.last = some .otherwise

theorem Program.marks {program : Program} {span : Span} {line close : Nat} {opening : Statement}
    (opens : program.commands[span.first]? = some ⟨line, opening⟩)
    (kind : opening.opens? = some span.block) (ended : span.ended = true)
    (closes : program.commands[span.last]? = some ⟨close, .endOf span.block.ending⟩) :
    program.Marks span :=
  ⟨⟨opening, statement?_of_command opens, kind⟩, .inl ⟨ended, statement?_of_command closes⟩⟩

namespace Tree

theorem marks_of_mem_spans (program : Program) (tree : Tree) (start : Nat)
    (placed : tree.At program start) : ∀ span ∈ tree.spans start, program.Marks span := by
  induction tree generalizing start with
  | done => simp [spans]
  | simple line act rest ih | call line name arguments rest ih => exact ih _ placed.2
  | ifElse line condition body middle other close rest first second third =>
      obtain ⟨opens, -, inBody, elses, -, inOther, closes, inRest⟩ := placed
      simp only [spans, List.forall_mem_cons, List.forall_mem_append]
      refine ⟨⟨⟨_, Program.statement?_of_command opens, rfl⟩, .inr ⟨rfl, rfl, ?_⟩⟩,
        Program.marks elses rfl rfl closes, ⟨first _ inBody, second _ inOther⟩, third _ inRest⟩
      exact Program.statement?_of_command elses
  | ifThen line condition body close rest inner outer =>
      obtain ⟨opens, -, inBody, closes, inRest⟩ := placed
      simp only [spans, List.forall_mem_cons, List.forall_mem_append]
      exact ⟨Program.marks opens rfl rfl closes, inner _ inBody, outer _ inRest⟩
  | whileDo line condition body close rest inner outer
  | forNext line header body close rest inner outer
  | method line signature body close rest inner outer =>
      obtain ⟨opens, -, inBody, closes, -, inRest⟩ := placed
      simp only [spans, List.forall_mem_cons, List.forall_mem_append]
      exact ⟨Program.marks opens rfl rfl closes, inner _ inBody, outer _ inRest⟩

/-- The statement at an address neither opens nor closes a block, or a block opens there, or one ends
there. -/
def Situated (program : Program) (spans : List Span) (address : Nat) : Prop :=
  (∃ statement, program.statement? address = some statement ∧ statement.opens? = none ∧
    ∀ block, statement ≠ .endOf block) ∨
  (∃ span ∈ spans, span.first = address) ∨
  ∃ span ∈ spans, span.ended = true ∧ span.last = address

theorem Situated.mono {program : Program} {fewer more : List Span} {address : Nat}
    (situated : Situated program fewer address) (subset : ∀ span ∈ fewer, span ∈ more) :
    Situated program more address := by
  rcases situated with plain | ⟨span, member, first⟩ | ⟨span, member, last⟩
  · exact .inl plain
  · exact .inr (.inl ⟨span, subset span member, first⟩)
  · exact .inr (.inr ⟨span, subset span member, last⟩)

theorem situated (program : Program) (tree : Tree) (start address : Nat)
    (placed : tree.At program start) (above : start ≤ address)
    (below : address < start + tree.size) : Situated program (tree.spans start) address := by
  induction tree generalizing start with
  | done =>
      simp only [size] at below
      omega
  | simple line act rest ih =>
      obtain rfl | behind : address = start ∨ start < address := by omega
      · exact .inl ⟨act.statement, Program.statement?_of_command placed.1,
          by cases act <;> rfl, act.statement_ne_endOf⟩
      · simp only [size] at below
        exact ih (start + 1) placed.2 (by omega) (by omega)
  | call line name arguments rest ih =>
      obtain rfl | behind : address = start ∨ start < address := by omega
      · exact .inl ⟨.call name arguments, Program.statement?_of_command placed.1, rfl, by simp⟩
      · simp only [size] at below
        exact ih (start + 1) placed.2 (by omega) (by omega)
  | ifElse line condition body middle other close rest first second third =>
      obtain ⟨-, -, inBody, -, -, inOther, -, inRest⟩ := placed
      simp only [size] at below
      simp only [spans]
      obtain rfl | inside | rfl | between | rfl | behind : address = start ∨
          (start < address ∧ address < start + body.size + 1) ∨ address = start + body.size + 1 ∨
          (start + body.size + 1 < address ∧ address < start + body.size + other.size + 2) ∨
          address = start + body.size + other.size + 2 ∨
          start + body.size + other.size + 2 < address := by omega
      · exact .inr (.inl ⟨_, .head _, rfl⟩)
      · exact (first (start + 1) inBody (by omega) (by omega)).mono (by simp +contextual)
      · exact .inr (.inl ⟨_, .tail _ (.head _), rfl⟩)
      · exact (second (start + body.size + 2) inOther (by omega) (by omega)).mono
          (by simp +contextual)
      · exact .inr (.inr ⟨_, .tail _ (.head _), rfl, rfl⟩)
      · exact (third (start + body.size + other.size + 3) inRest (by omega) (by omega)).mono
          (by simp +contextual)
  | ifThen line condition body close rest inner outer =>
      obtain ⟨-, -, inBody, -, inRest⟩ := placed
      simp only [size] at below
      simp only [spans]
      obtain rfl | inside | rfl | behind : address = start ∨
          (start < address ∧ address < start + body.size + 1) ∨ address = start + body.size + 1 ∨
          start + body.size + 1 < address := by omega
      · exact .inr (.inl ⟨_, .head _, rfl⟩)
      · exact (inner (start + 1) inBody (by omega) (by omega)).mono (by simp +contextual)
      · exact .inr (.inr ⟨_, .head _, rfl, rfl⟩)
      · exact (outer (start + body.size + 2) inRest (by omega) (by omega)).mono
          (by simp +contextual)
  | whileDo line condition body close rest inner outer
  | forNext line header body close rest inner outer
  | method line signature body close rest inner outer =>
      obtain ⟨-, -, inBody, -, -, inRest⟩ := placed
      simp only [size] at below
      simp only [spans]
      obtain rfl | inside | rfl | behind : address = start ∨
          (start < address ∧ address < start + body.size + 1) ∨ address = start + body.size + 1 ∨
          start + body.size + 1 < address := by omega
      · exact .inr (.inl ⟨_, .head _, rfl⟩)
      · exact (inner (start + 1) inBody (by omega) (by omega)).mono (by simp +contextual)
      · exact .inr (.inr ⟨_, .head _, rfl, rfl⟩)
      · exact (outer (start + body.size + 2) inRest (by omega) (by omega)).mono
          (by simp +contextual)

end Tree

namespace Program

/-- What the link tables of a compiled program hold. -/
structure Paired (program : Program) : Prop where
  bounds : ∀ {first last : Nat}, program.targets[first]? = some last →
    first < last ∧ last < program.size
  nested : ∀ {first last first' last' : Nat}, program.targets[first]? = some last →
    program.targets[first']? = some last' → first < first' → last ≤ first' ∨ last' < last
  kinds : ∀ {first last : Nat}, program.targets[first]? = some last →
    ∃ opening block, program.statement? first = some opening ∧ opening.opens? = some block ∧
      (program.statement? last = some (.endOf block.ending) ∨
        block = .ifBlock ∧ program.statement? last = some .otherwise)
  opener : ∀ {first last : Nat}, program.openers[last]? = some first →
    program.targets[first]? = some last
  opens : ∀ {first : Nat} {opening : Statement} {block : Block},
    program.statement? first = some opening → opening.opens? = some block →
      ∃ last, program.targets[first]? = some last
  ends : ∀ {last : Nat} {block : Block}, program.statement? last = some (.endOf block) →
    ∃ first, program.openers[last]? = some first

namespace Paired

variable {program : Program} {first last : Nat}

theorem opening_of_end (paired : program.Paired) {block : Block}
    (ends : program.statement? last = some (.endOf block))
    (linked : program.openers[last]? = some first) :
    ∃ opening kind, program.statement? first = some opening ∧ opening.opens? = some kind ∧
      kind.ending = block := by
  obtain ⟨opening, kind, found, opens, closes | ⟨-, closes⟩⟩ := paired.kinds (paired.opener linked)
  · rw [ends] at closes
    cases closes
    exact ⟨opening, kind, found, opens, rfl⟩
  · rw [ends] at closes
    cases closes

theorem for_of_end (paired : program.Paired)
    (ends : program.statement? last = some (.endOf .forBlock))
    (linked : program.openers[last]? = some first) :
    ∃ header, program.statement? first = some (.forNext header) := by
  obtain ⟨opening, kind, found, opens, same⟩ := paired.opening_of_end ends linked
  cases opening <;> cases opens <;> cases same
  exact ⟨_, found⟩

theorem method_of_end (paired : program.Paired)
    (ends : program.statement? last = some (.endOf .methodBlock))
    (linked : program.openers[last]? = some first) :
    ∃ signature, program.statement? first = some (.method signature) := by
  obtain ⟨opening, kind, found, opens, same⟩ := paired.opening_of_end ends linked
  cases opening <;> cases opens <;> cases same
  exact ⟨_, found⟩

end Paired

theorem HasTree.size {program : Program} {tree : Tree} (has : program.HasTree tree) :
    program.size = tree.size := by
  rw [Program.size, ← Array.length_toList, has.commands, Tree.length_commands]

theorem HasTree.situated {program : Program} {tree : Tree} (has : program.HasTree tree)
    {address : Nat} {statement : Statement} (found : program.statement? address = some statement) :
    (statement.opens? = none ∧ ∀ block, statement ≠ .endOf block) ∨
      (∃ span ∈ tree.spans 0, span.first = address) ∨
      ∃ span ∈ tree.spans 0, span.ended = true ∧ span.last = address := by
  have below := statement?_lt found
  rw [has.size] at below
  rcases tree.situated program 0 address has.at (by omega) (by omega) with plain | spans
  · obtain ⟨other, found', plain⟩ := plain
    rw [found] at found'
    cases found'
    exact .inl plain
  · exact .inr spans

theorem HasTree.paired {program : Program} {tree : Tree} (has : program.HasTree tree) :
    program.Paired where
  bounds := by
    intro first last target
    obtain ⟨span, member, rfl, rfl⟩ := (has.linked.targets_iff _ _).mp target
    have bounds := tree.spans_bounds 0 span member
    rw [has.size]
    omega
  nested := by
    intro first last first' last' target target' earlier
    obtain ⟨span, member, rfl, rfl⟩ := (has.linked.targets_iff _ _).mp target
    obtain ⟨span', member', rfl, rfl⟩ := (has.linked.targets_iff _ _).mp target'
    exact tree.spans_nested 0 span member span' member' earlier
  kinds := by
    intro first last target
    obtain ⟨span, member, rfl, rfl⟩ := (has.linked.targets_iff _ _).mp target
    have marks := tree.marks_of_mem_spans program 0 has.at span member
    obtain ⟨opening, found, opens⟩ := marks.opens
    exact ⟨opening, span.block, found, opens, marks.closes.imp And.right And.right⟩
  opener := by
    intro first last opener
    obtain ⟨span, member, -, rfl, rfl⟩ := (has.linked.openers_iff _ _).mp opener
    exact (has.linked.targets_iff _ _).mpr ⟨span, member, rfl, rfl⟩
  opens := by
    intro first opening block found opens
    rcases has.situated found with plain | ⟨span, member, rfl⟩ | ⟨span, member, ended, rfl⟩
    · rw [plain.1] at opens
      cases opens
    · exact ⟨span.last, (has.linked.targets_iff _ _).mpr ⟨span, member, rfl, rfl⟩⟩
    · rcases (tree.marks_of_mem_spans program 0 has.at span member).closes with
        ⟨-, closes⟩ | ⟨unended, -⟩
      · rw [found] at closes
        cases closes
        cases opens
      · rw [ended] at unended
        cases unended
  ends := by
    intro last block ends
    rcases has.situated ends with plain | ⟨span, member, rfl⟩ | ⟨span, member, ended, rfl⟩
    · exact absurd rfl (plain.2 block)
    · obtain ⟨opening, found, opens⟩ := (tree.marks_of_mem_spans program 0 has.at span member).opens
      rw [ends] at found
      cases found
      cases opens
    · exact ⟨span.first, (has.linked.openers_iff _ _).mpr ⟨span, member, ended, rfl, rfl⟩⟩

theorem compile_paired (source : String) (program : Program)
    (compiled : Program.compile source = .ok program) : program.Paired := by
  obtain ⟨tree, has⟩ := compile_hasTree source program compiled
  exact has.paired

end Program

/-! ### What the tables answer -/

/-- An `if` is closed by its `else` or its `end`, an `else` by the `end` of the `if`, and every
other block by the `end` of its own kind. -/
def Block.ClosedBy : Block → Statement → Prop
  | ifBlock, closing => closing = .otherwise ∨ closing = .endOf .ifBlock
  | elseBlock, closing => closing = .endOf .ifBlock
  | block, closing => closing = .endOf block

theorem Block.closedBy_ending (block : Block) : block.ClosedBy (.endOf block.ending) := by
  cases block with
  | ifBlock => exact .inr rfl
  | _ => rfl

theorem Block.closes_of_ending (block : Block) : block.ending.closes block = true := by
  cases block <;> rfl

namespace Program

def Opens (program : Program) (address : Nat) (block : Block) : Prop :=
  ∃ statement, program.statement? address = some statement ∧ statement.opens? = some block

variable {program : Program} {tree : Tree} {first last : Nat}

theorem Opens.unique {block other : Block} (opens : program.Opens first block)
    (opens' : program.Opens first other) : block = other := by
  obtain ⟨statement, found, kind⟩ := opens
  obtain ⟨statement', found', kind'⟩ := opens'
  rw [found] at found'
  cases found'
  rw [kind] at kind'
  exact Option.some.inj kind'

theorem HasTree.end_of_opener (has : program.HasTree tree)
    (linked : program.openers[last]? = some first) :
    ∃ block, program.Opens first block ∧
      program.statement? last = some (.endOf block.ending) := by
  obtain ⟨span, member, ended, rfl, rfl⟩ := (has.linked.openers_iff _ _).mp linked
  have marks := tree.marks_of_mem_spans program 0 has.at span member
  rcases marks.closes with ⟨-, closes⟩ | ⟨unended, -⟩
  · exact ⟨span.block, marks.opens, closes⟩
  · rw [ended] at unended
    cases unended

theorem Paired.closed (paired : program.Paired) {block : Block}
    (linked : program.targets[first]? = some last) (opens : program.Opens first block) :
    ∃ closing, program.statement? last = some closing ∧ block.ClosedBy closing := by
  obtain ⟨opening, kind, found, opens', closes⟩ := paired.kinds linked
  obtain rfl := opens.unique ⟨opening, found, opens'⟩
  rcases closes with closes | ⟨rfl, closes⟩
  · exact ⟨_, closes, block.closedBy_ending⟩
  · exact ⟨_, closes, .inl rfl⟩

/-- The link tables of a compiled program: where they answer, that the two lead back and forth
between a block's ends, and that blocks do not cross. -/
theorem compile_links_blocks (source : String) (program : Program)
    (compiled : Program.compile source = .ok program) :
    (∀ address, (∃ last, program.target address = .ok last) ↔
      ∃ block, program.Opens address block) ∧
    (∀ address, (∃ first, program.opener address = .ok first) ↔
      ∃ block, program.statement? address = some (.endOf block)) ∧
    (∀ first last block, program.target first = .ok last → program.Opens first block →
      first < last ∧ last < program.size ∧
        ∃ closing, program.statement? last = some closing ∧ block.ClosedBy closing) ∧
    (∀ first last block, program.opener last = .ok first →
      program.statement? last = some (.endOf block) →
        first < last ∧ program.target first = .ok last ∧
          ∃ opened, program.Opens first opened ∧ block.closes opened = true) ∧
    (∀ first last first' last', program.target first = .ok last →
      program.target first' = .ok last' → first < first' → last ≤ first' ∨ last' < last) := by
  obtain ⟨tree, has⟩ := compile_hasTree source program compiled
  have paired := has.paired
  simp only [target_eq_ok, opener_eq_ok]
  refine ⟨?_, ?_, ?_, ?_, ?_⟩
  · intro address
    constructor
    · rintro ⟨last, linked⟩
      obtain ⟨opening, block, found, opens, -⟩ := paired.kinds linked
      exact ⟨block, opening, found, opens⟩
    · rintro ⟨block, opening, found, opens⟩
      exact paired.opens found opens
  · intro address
    constructor
    · rintro ⟨first, linked⟩
      obtain ⟨block, -, ends⟩ := has.end_of_opener linked
      exact ⟨block.ending, ends⟩
    · rintro ⟨block, ends⟩
      exact paired.ends ends
  · intro first last block linked opens
    obtain ⟨later, inside⟩ := paired.bounds linked
    exact ⟨later, inside, paired.closed linked opens⟩
  · intro first last block linked ends
    have target := paired.opener linked
    obtain ⟨opened, opens, ends'⟩ := has.end_of_opener linked
    rw [ends] at ends'
    cases ends'
    exact ⟨(paired.bounds target).1, target, opened, opens, opened.closes_of_ending⟩
  · intro first last first' last' linked linked' earlier
    exact paired.nested linked linked' earlier

def compilesTo (source : String) (good : Program → Bool) : Bool :=
  match Program.compile source with
  | .ok program => good program
  | .error _ => false

theorem exists_of_compilesTo {source : String} {good : Program → Bool}
    (compiles : compilesTo source good = true) :
    ∃ program, Program.compile source = .ok program ∧ good program = true := by
  unfold compilesTo at compiles
  cases compiled : Program.compile source with
  | error fault =>
      rw [compiled] at compiles
      cases compiles
  | ok program =>
      rw [compiled] at compiles
      exact ⟨program, rfl, compiles⟩

def loopAroundElse : String :=
  "method int f\nwhile f < 2\nif f > 0\nclear\nelse\nfor i = 1 to 2\nend for\nend if\nend while\nend method"

theorem compile_links_loop_around_else :
    ∃ program, Program.compile loopAroundElse = .ok program ∧ program.target 2 = .ok 4 ∧
      program.target 4 = .ok 7 ∧ program.opener 7 = .ok 4 ∧
      (∃ closing, program.statement? 4 = some closing ∧ Block.ifBlock.ClosedBy closing) ∧
      ∃ opened, program.Opens 4 opened ∧ Block.ifBlock.closes opened = true := by
  have compiles : compilesTo loopAroundElse (fun program =>
      program.targets[2]? == some 4 && program.targets[4]? == some 7 &&
        program.openers[7]? == some 4 && program.statement? 2 == some (.ifThen "f > 0") &&
        program.statement? 7 == some (.endOf .ifBlock)) = true := by decide +kernel
  obtain ⟨program, compiled, checked⟩ := exists_of_compilesTo compiles
  simp only [Bool.and_eq_true, beq_iff_eq] at checked
  obtain ⟨⟨⟨⟨first, second⟩, opener⟩, opens⟩, ends⟩ := checked
  obtain ⟨-, -, closed, closes, -⟩ := compile_links_blocks loopAroundElse program compiled
  have target := target_eq_ok.mpr first
  have back := opener_eq_ok.mpr opener
  exact ⟨program, compiled, target, target_eq_ok.mpr second, back,
    (closed 2 4 .ifBlock target ⟨_, opens, rfl⟩).2.2, (closes 4 7 .ifBlock back ends).2.2⟩

end Program

end Easel
