import Easel.Proofs.Blocks.Grammar

/-! Which sources compile: those whose lines can be read and make a sentence of the block grammar
that is not nested too deeply. Where compiling fails, the fault names the first line that can not be
read or not be followed by the end of a sentence, and at the end of the source the block left
open. -/

namespace Easel

/-! ### Open blocks -/

namespace Pairing

/-- These blocks are open, with room for no more than the usual number. -/
structure Keeps (pairing : Pairing) (opened : List Block) : Prop where
  blocks : pairing.opened.items.map (·.block) = opened
  limit : pairing.opened.limit = 65535

variable {pairing : Pairing} {opened outer : List Block}

theorem Keeps.size (keeps : pairing.Keeps opened) : pairing.opened.size = opened.length := by
  rw [pairing.opened.size_eq, ← keeps.blocks, List.length_map]

theorem keeps_empty : Pairing.empty.Keeps [] := ⟨rfl, rfl⟩

theorem Keeps.openBlock (keeps : pairing.Keeps opened) (opening : Opening)
    (room : opened.length < 65535) :
    ∃ after, pairing.openBlock opening = .ok after ∧ after.Keeps (opening.block :: opened) := by
  have space : pairing.opened.size < pairing.opened.limit := by
    rw [keeps.size, keeps.limit]
    exact room
  obtain ⟨stack, pushed, limit, -, -, -⟩ := Stack.push_room space opening
  refine ⟨{ pairing with opened := stack }, ?_, ?_, limit.trans keeps.limit⟩
  · rw [Pairing.openBlock, pushed]
    rfl
  · change stack.items.map (·.block) = _
    rw [Stack.push_ok _ _ _ pushed, List.map_cons, keeps.blocks]

theorem Keeps.openBlock_full (keeps : pairing.Keeps opened) (opening : Opening)
    (full : 65535 ≤ opened.length) :
    pairing.openBlock opening = .error (.outOfMemory pairing.opened.overflow) := by
  have space : pairing.opened.limit ≤ pairing.opened.size := by
    rw [keeps.size, keeps.limit]
    exact full
  rw [Pairing.openBlock, Stack.push_full space]
  rfl

theorem Keeps.pop {inner : Block} (keeps : pairing.Keeps (inner :: outer)) :
    ∃ top below, pairing.opened.top? = some top ∧ top.block = inner ∧
      pairing.opened.pop = .ok (top, below) ∧ below.items.map (·.block) = outer ∧
      below.limit = 65535 := by
  obtain ⟨⟨limit, overflow, items, size, size_eq⟩, targets, openers⟩ := pairing
  obtain ⟨blocks, rfl⟩ := keeps
  cases items with
  | nil => cases blocks
  | cons top below =>
      obtain ⟨rfl, rfl⟩ := List.cons.inj blocks
      exact ⟨top, _, rfl, rfl, rfl, rfl, rfl⟩

theorem Keeps.top?_nil (keeps : pairing.Keeps []) : pairing.opened.top? = none := by
  rw [Stack.top?, List.map_eq_nil_iff.mp keeps.blocks]
  rfl

theorem Keeps.openElse (keeps : pairing.Keeps (.ifBlock :: outer)) (room : outer.length < 65535)
    (address : Nat) (line : Option Nat) :
    ∃ after, pairing.openElse address line = .ok after ∧ after.Keeps (.elseBlock :: outer) := by
  obtain ⟨⟨start, block, place⟩, below, top, rfl, popped, blocks, limit⟩ := keeps.pop
  have space : below.size < below.limit := by
    rw [below.size_eq, ← List.length_map, blocks, limit]
    exact room
  obtain ⟨stack, pushed, limit', -, -, -⟩ := Stack.push_room space ⟨address, .elseBlock, line⟩
  refine ⟨⟨stack, pairing.targets.insert start address, pairing.openers⟩, ?_, ?_,
    limit'.trans limit⟩
  · simp only [Pairing.openElse, top, popped, bind, Except.bind, pushed]
    rfl
  · change stack.items.map (·.block) = _
    rw [Stack.push_ok _ _ _ pushed, List.map_cons, blocks]

theorem Keeps.openElse_misfit (keeps : pairing.Keeps opened)
    (misfit : Block.behind? opened .otherwise = none) (address : Nat) (line : Option Nat) :
    pairing.openElse address line = .error (Error.elseWithoutIf.inLine line) := by
  cases opened with
  | nil =>
      rw [Pairing.openElse, keeps.top?_nil]
      rfl
  | cons inner outer =>
      obtain ⟨⟨start, block, place⟩, below, top, rfl, -⟩ := keeps.pop
      rw [Pairing.openElse, top]
      cases block with
      | ifBlock => cases misfit
      | _ => rfl

theorem closes_iff_ending {block : Block} (legal : block ≠ .elseBlock) (inner : Block) :
    block.closes inner = true ↔ inner.ending = block := by
  cases block <;> cases inner <;> simp_all [Block.closes, Block.ending]

theorem Keeps.endBlock {inner : Block} (keeps : pairing.Keeps (inner :: outer))
    (legal : inner.ending ≠ .elseBlock) (address : Nat) (line : Option Nat) :
    ∃ after, pairing.endBlock address inner.ending line = .ok after ∧ after.Keeps outer := by
  obtain ⟨top, below, found, rfl, popped, blocks, limit⟩ := keeps.pop
  have closes := (closes_iff_ending legal top.block).mpr rfl
  refine ⟨⟨below, pairing.targets.insert top.address address,
    pairing.openers.insert address top.address⟩, ?_, blocks, limit⟩
  simp only [Pairing.endBlock, found, closes, ↓reduceIte, popped]
  rfl

theorem Keeps.endBlock_misfit {block : Block} (keeps : pairing.Keeps opened)
    (legal : block ≠ .elseBlock) (misfit : Block.behind? opened (.endOf block) = none)
    (address line : Nat) :
    ∃ fault, pairing.endBlock address block line = .error fault ∧ fault.code = .compileError ∧
      fault.line = some line := by
  cases opened with
  | nil =>
      have failed : pairing.endBlock address block line =
          .error ((Error.endWithout (uppercase block.keyword)).inLine line) := by
        rw [Pairing.endBlock, keeps.top?_nil]
        rfl
      exact ⟨_, failed, rfl, rfl⟩
  | cons inner outer =>
      obtain ⟨top, below, found, rfl, -⟩ := keeps.pop
      have other : top.block.ending ≠ block := by
        intro same
        rw [Block.behind?, if_pos same] at misfit
        cases misfit
      have remains : ¬ block.closes top.block = true :=
        mt (closes_iff_ending legal top.block).mp other
      have failed : pairing.endBlock address block line =
          .error ((Error.endCanNotClose (uppercase block.keyword) (uppercase top.block.keyword)
            top.line).inLine line) := by
        simp only [Pairing.endBlock, found, remains]
        rfl
      exact ⟨_, failed, rfl, rfl⟩

end Pairing

/-! ### One line more -/

/-- The lines that say something. -/
def Line.filled (source : String) : List Line := (Line.all source).filter (!·.isBlank)

/-- The lines are read as these commands. -/
def Line.Say : List Line → List Command → Prop :=
  List.Forall₂ fun line command =>
    line.number = command.line ∧ line.statement = .ok command.statement

namespace Program.Draft

variable {draft grown : Draft} {opened after : List Block} {statement : Statement} {fault : Error}

theorem link_opening {block : Block} (opens : statement.opens? = some block)
    (other : block ≠ .elseBlock) (draft : Draft) (line : Nat) :
    ∃ parameters, draft.link line statement = (do
      let pairing ← draft.pairing.openBlock ⟨draft.commands.size, block, some line⟩
      return { draft with pairing, parameters }) := by
  cases statement with
  | ifThen | whileDo | forNext | method =>
      cases opens
      exact ⟨_, rfl⟩
  | otherwise =>
      cases opens
      exact absurd rfl other
  | declare | array | poke | peek | endOf | call | draw | write => cases opens

theorem link_opening_fits {block : Block} (keeps : draft.pairing.Keeps opened) (line : Nat)
    (opens : statement.opens? = some block) (other : block ≠ .elseBlock)
    (room : opened.length < 65535) :
    ∃ grown, draft.link line statement = .ok grown ∧ grown.pairing.Keeps (block :: opened) := by
  obtain ⟨parameters, eq⟩ := link_opening opens other draft line
  obtain ⟨pairing, linked, keeps'⟩ := keeps.openBlock ⟨draft.commands.size, block, line⟩ room
  refine ⟨{ draft with pairing, parameters }, ?_, keeps'⟩
  rw [eq, linked]
  rfl

theorem link_fits (keeps : draft.pairing.Keeps opened) (line : Nat) (legal : statement.Legal)
    (fits : Block.behind? opened statement = some after) (room : after.length ≤ 65535) :
    ∃ grown, draft.link line statement = .ok grown ∧ grown.pairing.Keeps after := by
  cases statement with
  | otherwise =>
      obtain _ | ⟨inner, outer⟩ := opened
      · cases fits
      · cases inner <;> cases fits
        obtain ⟨pairing, linked, keeps'⟩ := keeps.openElse room draft.commands.size line
        refine ⟨{ draft with pairing }, ?_, keeps'⟩
        simp only [link, linked]
        rfl
  | endOf block =>
      obtain _ | ⟨inner, outer⟩ := opened
      · cases fits
      · change (if inner.ending = block then some outer else none) = some after at fits
        split at fits
        · rename_i ends
          subst ends
          cases fits
          obtain ⟨pairing, linked, keeps'⟩ := keeps.endBlock legal draft.commands.size line
          simp only [link, linked]
          exact ⟨_, rfl, keeps'⟩
        · cases fits
  | ifThen | whileDo | forNext | method =>
      cases fits
      exact link_opening_fits keeps line rfl nofun room
  | declare declaration =>
      cases fits
      refine ⟨draft.declare declaration, rfl, ?_⟩
      rw [(draft.declare_pairing declaration).1]
      exact keeps
  | array | poke | peek | call | draw | write =>
      cases fits
      exact ⟨draft, rfl, keeps⟩

theorem link_misfit (keeps : draft.pairing.Keeps opened) (line : Nat) (legal : statement.Legal)
    (misfit : Block.behind? opened statement = none) :
    ∃ fault, draft.link line statement = .error fault ∧ fault.code = .compileError ∧
      fault.line = some line := by
  cases statement with
  | otherwise =>
      have failed := keeps.openElse_misfit misfit draft.commands.size line
      refine ⟨Error.elseWithoutIf.inLine line, ?_, rfl, rfl⟩
      simp only [link, failed]
      rfl
  | endOf block =>
      obtain ⟨fault, failed, code, place⟩ :=
        keeps.endBlock_misfit legal misfit draft.commands.size line
      refine ⟨fault, ?_, code, place⟩
      simp only [link, failed]
      rfl
  | _ => cases misfit

theorem link_full (keeps : draft.pairing.Keeps opened) (line : Nat)
    (bounded : opened.length ≤ 65535) (fits : Block.behind? opened statement = some after)
    (full : 65535 < after.length) :
    draft.link line statement = .error (.outOfMemory draft.pairing.opened.overflow) := by
  have length := Block.length_behind? fits
  cases another : statement.opensAnother with
  | false =>
      rw [another] at length
      simp only [Bool.false_eq_true, ↓reduceIte] at length
      omega
  | true =>
      obtain ⟨block, opens, other⟩ := Statement.opensAnother_iff.mp another
      have ends : statement.isEnd = false := by cases statement <;> trivial
      rw [another, ends] at length
      simp only [Bool.false_eq_true, ↓reduceIte] at length
      obtain ⟨parameters, eq⟩ := link_opening opens other draft line
      rw [eq, keeps.openBlock_full _ (by omega)]
      rfl

inductive Adds (draft : Draft) (opened : List Block) (line : Line) : Prop
  | fits {statement : Statement} {after : List Block} {grown : Draft}
      (read : line.statement = .ok statement) (fits : Block.behind? opened statement = some after)
      (room : after.length ≤ 65535) (added : draft.addLine line = .ok grown)
      (commands : grown.commands = draft.commands.push ⟨line.number, statement⟩)
      (keeps : grown.pairing.Keeps after)
  | misfits {fault : Error} (added : draft.addLine line = .error fault)
      (misfit : (∃ cause, line.statement = .error cause) ∨
        ∃ statement, line.statement = .ok statement ∧ Block.behind? opened statement = none)
      (code : fault.code = .compileError) (place : fault.line = some line.number)
  | overflows {fault : Error} (added : draft.addLine line = .error fault)
      (code : fault.code = .outOfMemory) (unplaced : fault.line = none)
      {statement : Statement} {after : List Block}
      (read : line.statement = .ok statement) (fits : Block.behind? opened statement = some after)
      (full : 65535 < after.length)

theorem addLine_eq {line : Line} (filled : line.isBlank = false)
    (read : line.statement = .ok statement) (draft : Draft) :
    draft.addLine line = (do
      let draft ← draft.link line.number statement
      return { draft with commands := draft.commands.push ⟨line.number, statement⟩ }) := by
  unfold addLine
  rw [filled, read]
  rfl

theorem adds (keeps : draft.pairing.Keeps opened) (bounded : opened.length ≤ 65535) {line : Line}
    (filled : line.isBlank = false) : draft.Adds opened line := by
  have settles := line.statement_settles
  cases read : line.statement with
  | error cause =>
      obtain ⟨code, place⟩ := settles.faults cause read
      refine .misfits ?_ (.inl ⟨cause, read⟩) code place
      unfold addLine
      rw [filled, read]
      rfl
  | ok statement =>
      have legal := settles.gives statement read
      have eq := addLine_eq filled read draft
      cases fits : Block.behind? opened statement with
      | none =>
          obtain ⟨fault, failed, code, place⟩ := link_misfit keeps line.number legal fits
          rw [failed] at eq
          exact .misfits eq (.inr ⟨statement, read, fits⟩) code place
      | some after =>
          by_cases room : after.length ≤ 65535
          · obtain ⟨grown, linked, keeps'⟩ := link_fits keeps line.number legal fits room
            have same := draft.link_commands line.number statement grown linked
            rw [linked] at eq
            exact .fits read fits room eq (congrArg (Array.push · _) same) keeps'
          · have full := Nat.not_le.mp room
            rw [link_full keeps line.number bounded fits full] at eq
            exact .overflows eq rfl rfl read fits full

/-! ### All lines -/

theorem foldlM_filled (lines : List Line) (draft : Draft) :
    lines.foldlM addLine draft = (lines.filter (!·.isBlank)).foldlM addLine draft := by
  induction lines generalizing draft with
  | nil => rfl
  | cons line lines ih =>
      cases blank : line.isBlank with
      | true =>
          rw [List.filter_cons_of_neg (by simp [blank]), ← ih, List.foldlM_cons]
          unfold addLine
          rw [blank]
          rfl
      | false =>
          rw [List.filter_cons_of_pos (by simp [blank]), List.foldlM_cons, List.foldlM_cons]
          exact congrArg (draft.addLine line >>= ·) (funext ih)

/-- The draft holds these commands, which leave these blocks open and nowhere too many. -/
structure Follows (draft : Draft) (commands : List Command) (opened : List Block) : Prop where
  holds : draft.commands.toList = commands
  keeps : draft.pairing.Keeps opened
  behind : Block.behindAll? [] (statements commands) = some opened
  shallow : ∀ front, front <+: statements commands → openBlocks front ≤ 65535

variable {commands : List Command}

theorem follows_empty : Draft.empty.Follows [] [] := by
  refine ⟨rfl, Pairing.keeps_empty, rfl, ?_⟩
  intro front isFront
  rw [List.prefix_nil.mp isFront]
  exact Nat.zero_le _

theorem Follows.bounded (follows : draft.Follows commands opened) : opened.length ≤ 65535 := by
  rw [← Block.openBlocks_eq follows.behind]
  exact follows.shallow _ List.prefix_rfl

theorem Follows.add (follows : draft.Follows commands opened) {line : Nat}
    (fits : Block.behind? opened statement = some after) (room : after.length ≤ 65535)
    (added : grown.commands = draft.commands.push ⟨line, statement⟩)
    (keeps : grown.pairing.Keeps after) :
    grown.Follows (commands ++ [⟨line, statement⟩]) after := by
  have behind :
      Block.behindAll? [] (statements (commands ++ [⟨line, statement⟩])) = some after := by
    rw [statements_append, Block.behindAll?_append, follows.behind, Option.bind_some]
    exact (Block.behindAll?_one opened statement).trans fits
  refine ⟨?_, keeps, behind, ?_⟩
  · rw [added, Array.toList_push, follows.holds]
  · intro front isFront
    rw [statements_append] at isFront behind
    rcases List.prefix_concat_iff.mp isFront with rfl | isFront
    · have count := Block.openBlocks_eq behind
      exact Nat.le_trans (Nat.le_of_eq count) room
    · exact follows.shallow front isFront

theorem Follows.addLines (follows : draft.Follows commands opened) (lines : List Line)
    (filled : ∀ line ∈ lines, line.isBlank = false)
    (added : lines.foldlM addLine draft = .ok grown) :
    ∃ more after, Line.Say lines more ∧ grown.Follows (commands ++ more) after := by
  induction lines generalizing draft commands opened with
  | nil =>
      cases added
      exact ⟨[], opened, .nil, by simpa using follows⟩
  | cons line lines ih =>
      rw [List.forall_mem_cons] at filled
      rw [List.foldlM_cons] at added
      cases adds follows.keeps follows.bounded filled.1 with
      | @fits statement after middle read fits room added' same keeps =>
          rw [added'] at added
          obtain ⟨more, last, say, follows'⟩ :=
            ih (follows.add fits room same keeps) filled.2 added
          refine ⟨⟨line.number, statement⟩ :: more, last, .cons ⟨rfl, read⟩ say, ?_⟩
          simpa using follows'
      | misfits failed misfit code place =>
          rw [failed] at added
          cases added
      | overflows failed code unplaced read fits full =>
          rw [failed] at added
          cases added

theorem addLines_reads {lines : List Line} (filled : ∀ line ∈ lines, line.isBlank = false)
    (added : lines.foldlM addLine .empty = .ok draft) :
    ∃ commands opened outline tree, Line.Say lines commands ∧ draft.Follows commands opened ∧
      draft.Shows outline tree := by
  obtain ⟨commands, opened, say, follows⟩ := follows_empty.addLines lines filled added
  obtain ⟨outline, tree, shows⟩ := shows_empty.addLines lines added
  exact ⟨commands, opened, outline, tree, say, follows, shows⟩

section

variable {outline : Outline} {tree : Tree}

theorem Follows.viable (follows : draft.Follows commands opened)
    (shows : draft.Shows outline tree) : Viable (statements commands) := by
  rw [← follows.holds, shows.commands]
  exact outline.viable tree

theorem Follows.sentence (follows : draft.Follows commands opened)
    (shows : draft.Shows outline tree) (closed : draft.pairing.opened.items = []) :
    Sentence (statements commands) := by
  rw [shows.opened] at closed
  cases outline with
  | nil =>
      rw [← follows.holds, shows.commands]
      exact tree.sentence
  | cons level outer => cases closed

theorem Follows.stillOpen (follows : draft.Follows commands opened)
    (shows : draft.Shows outline tree) {top : Opening} {below : List Opening}
    (items : draft.pairing.opened.items = top :: below) :
    ∃ opening, StillOpen commands opening ∧ top.line = some opening.line := by
  rw [shows.opened] at items
  cases outline with
  | nil => cases items
  | cons level outer =>
      obtain ⟨opening, stillOpen, line⟩ := Outline.stillOpen level outer tree
      cases items
      rw [← follows.holds, shows.commands]
      exact ⟨opening, stillOpen, congrArg some line.symm⟩

end

theorem finish_ok {program : Program} (finished : draft.finish = .ok program) :
    draft.pairing.opened.items = [] := by
  unfold finish at finished
  obtain ⟨⟨tables, pairing⟩, finished, -⟩ := bind_eq_ok.mp finished
  exact (Pairing.finish_ok _ _ _ finished).1

theorem finish_closed (closed : draft.pairing.opened.items = []) :
    ∃ program, draft.finish = .ok program := by
  unfold finish Pairing.finish
  rw [Stack.top?, closed]
  exact ⟨_, rfl⟩

theorem finish_error (failed : draft.finish = .error fault) :
    ∃ top below, draft.pairing.opened.items = top :: below ∧ fault.code = .compileError ∧
      fault.line = top.line := by
  unfold finish Pairing.finish at failed
  split at failed
  · rename_i top found
    obtain ⟨below, items⟩ := List.head?_eq_some_iff.mp found
    cases failed
    exact ⟨top, below, items, rfl, by simp [Error.inLine, Error.withoutEnd, Error.compile]⟩
  · cases failed

end Program.Draft

namespace Line

theorem command_unique {line : Line} {command other : Command}
    (first : line.number = command.line ∧ line.statement = .ok command.statement)
    (second : line.number = other.line ∧ line.statement = .ok other.statement) :
    command = other := by
  obtain ⟨number, statement⟩ := command
  obtain ⟨number', statement'⟩ := other
  obtain ⟨rfl, read⟩ := first
  obtain ⟨rfl, read'⟩ := second
  rw [read] at read'
  cases read'
  rfl

theorem Say.unique {lines : List Line} {commands others : List Command}
    (say : Say lines commands) (say' : Say lines others) : commands = others := by
  induction say generalizing others with
  | nil =>
      cases say'
      rfl
  | cons head tail ih =>
      cases say' with
      | cons head' tail' => rw [command_unique head head', ih tail']

theorem Say.behind {front back : List Line} {line : Line} {before commands : List Command}
    (sayFront : Say front before) (say : Say (front ++ line :: back) commands) :
    ∃ command rest, commands = before ++ command :: rest ∧
      line.statement = .ok command.statement := by
  induction sayFront generalizing commands with
  | nil =>
      cases say with
      | @cons _ command _ rest head tail => exact ⟨command, rest, rfl, head.2⟩
  | cons head tail ih =>
      cases say with
      | cons head' tail' =>
          obtain ⟨command, rest, rfl, read⟩ := ih tail'
          exact ⟨command, rest, by rw [command_unique head head', List.cons_append], read⟩

end Line

/-- The line can not be read, or what it says can not follow what was said before. -/
def Misfit (before : List Line) (line : Line) : Prop :=
  ∃ commands, Line.Say before commands ∧ Viable (statements commands) ∧
    ((∃ cause, line.statement = .error cause) ∨
      ∃ statement, line.statement = .ok statement ∧ ¬ Viable (statements commands ++ [statement]))

namespace Program

variable {source : String} {fault : Error}

theorem mem_filled {line : Line} (member : line ∈ Line.filled source) : line.isBlank = false := by
  simpa using (List.mem_filter.mp member).2

theorem compile_eq (source : String) : compile source = (do
    (← (Line.filled source).foldlM Draft.addLine .empty).finish) := by
  unfold compile
  rw [Draft.foldlM_filled]
  rfl

theorem addLines_error (failed : (Line.filled source).foldlM Draft.addLine .empty = .error fault) :
    ∃ front line back, Line.filled source = front ++ line :: back ∧
      (Misfit front line ∧ fault.code = .compileError ∧ fault.line = some line.number ∨
        fault.code = .outOfMemory ∧ fault.line = none ∧
          ∃ commands statement, Line.Say front commands ∧
          line.statement = .ok statement ∧
            65535 < openBlocks (statements commands ++ [statement])) := by
  obtain ⟨front, line, back, middle, lines, passed, last⟩ := foldlM_eq_error failed
  have filled : ∀ each ∈ front ++ line :: back, each.isBlank = false := by
    rw [← lines]
    intro each member
    exact mem_filled member
  rw [List.forall_mem_append, List.forall_mem_cons] at filled
  obtain ⟨commands, opened, outline, tree, say, follows, shows⟩ :=
    Draft.addLines_reads filled.1 passed
  have behind (statement : Statement) :
      Block.behindAll? [] (statements commands ++ [statement]) =
        Block.behind? opened statement := by
    rw [Block.behindAll?_append, follows.behind]
    exact Block.behindAll?_one opened statement
  refine ⟨front, line, back, lines, ?_⟩
  cases Draft.adds follows.keeps follows.bounded filled.2.1 with
  | fits read fits room added same keeps =>
      rw [last] at added
      cases added
  | misfits added misfit code place =>
      rw [last] at added
      cases added
      refine .inl ⟨⟨commands, say, follows.viable shows, misfit.imp id ?_⟩, code, place⟩
      rintro ⟨statement, read, misfit⟩
      refine ⟨statement, read, ?_⟩
      intro viable
      obtain ⟨after, found⟩ := Block.behindAll?_of_viable viable
      rw [behind, misfit] at found
      cases found
  | @overflows fault added code unplaced statement after read fits full =>
      rw [last] at added
      cases added
      refine .inr ⟨code, unplaced, commands, statement, say, read, ?_⟩
      rw [Block.openBlocks_eq ((behind statement).trans fits)]
      exact full

theorem compile_faults (source : String) :
    Faults (fun fault => fault.code = .compileError ∨ fault.code = .outOfMemory)
      (compile source) := by
  intro fault failed
  rw [compile_eq] at failed
  obtain failed | ⟨draft, -, failed⟩ := bind_eq_error.mp failed
  · obtain ⟨front, line, back, -, ⟨-, code, -⟩ | ⟨code, -⟩⟩ := addLines_error failed
    · exact .inl code
    · exact .inr code
  · obtain ⟨top, below, -, code, -⟩ := Draft.finish_error failed
    exact .inl code

theorem addLines_of_sentence {commands : List Command}
    (say : Line.Say (Line.filled source) commands) (sentence : Sentence (statements commands))
    (shallow : ∀ front, front <+: statements commands → openBlocks front ≤ 65535) :
    ∃ draft, (Line.filled source).foldlM Draft.addLine .empty = .ok draft := by
  cases added : (Line.filled source).foldlM Draft.addLine .empty with
  | ok draft => exact ⟨draft, rfl⟩
  | error fault =>
      obtain ⟨front, line, back, lines, misfit⟩ := addLines_error added
      rw [lines] at say
      rcases misfit with ⟨⟨before, sayFront, -, misfit⟩, -⟩ |
        ⟨-, -, before, statement, sayFront, read, full⟩
      · obtain ⟨command, rest, rfl, read⟩ := sayFront.behind say
        rcases misfit with ⟨cause, unread⟩ | ⟨statement, read', misfit⟩
        · rw [read] at unread
          cases unread
        · rw [read] at read'
          cases read'
          refine absurd ⟨statements rest, ?_⟩ misfit
          simpa [statements] using sentence
      · obtain ⟨command, rest, rfl, read'⟩ := sayFront.behind say
        rw [read] at read'
        cases read'
        refine absurd (shallow _ ⟨statements rest, ?_⟩) (Nat.not_le.mpr full)
        simp [statements]

/-- The lines that say something make a sentence, which nowhere has too many blocks open. -/
def Grammatical (source : String) : Prop :=
  ∃ commands, Line.Say (Line.filled source) commands ∧ Sentence (statements commands) ∧
    ∀ front, front <+: statements commands → openBlocks front ≤ 65535

/-- The first line that can not be read, or not follow what was said before, has this number. -/
def FirstMisfit (source : String) (number : Nat) : Prop :=
  ∃ front line back, Line.filled source = front ++ line :: back ∧ Misfit front line ∧
    line.number = number

/-- All lines fit, and of the blocks left open this is the innermost. -/
def LeftOpen (source : String) (opening : Command) : Prop :=
  ∃ commands, Line.Say (Line.filled source) commands ∧ Viable (statements commands) ∧
    StillOpen commands opening

/-- Just the sources that make a sentence compile. A fault in the source names the first line that
does not fit what was read before it, or the innermost block that is left open. -/
theorem compile_accepts_sentences (source : String) :
    ((∃ program, compile source = .ok program) ↔ Grammatical source) ∧
    ∀ fault, compile source = .error fault → fault.code = .compileError →
      (∃ number, FirstMisfit source number ∧ fault.line = some number) ∨
        (∃ opening, LeftOpen source opening) ∧
          ∀ opening, LeftOpen source opening → fault.line = some opening.line := by
  have filled : ∀ line ∈ Line.filled source, line.isBlank = false := fun _ => mem_filled
  refine ⟨⟨?_, ?_⟩, ?_⟩
  · rintro ⟨program, compiled⟩
    rw [compile_eq] at compiled
    obtain ⟨draft, added, finished⟩ := bind_eq_ok.mp compiled
    obtain ⟨commands, opened, outline, tree, say, follows, shows⟩ :=
      Draft.addLines_reads filled added
    exact ⟨commands, say, follows.sentence shows (Draft.finish_ok finished), follows.shallow⟩
  · rintro ⟨commands, say, sentence, shallow⟩
    obtain ⟨draft, added⟩ := addLines_of_sentence say sentence shallow
    obtain ⟨others, opened, outline, tree, say', follows, shows⟩ :=
      Draft.addLines_reads filled added
    have behind := follows.behind
    rw [say'.unique say, Block.behindAll?_sentence sentence] at behind
    cases behind
    rw [compile_eq, added]
    exact Draft.finish_closed (List.map_eq_nil_iff.mp follows.keeps.blocks)
  · intro fault failed code
    rw [compile_eq] at failed
    obtain failed | ⟨draft, added, failed⟩ := bind_eq_error.mp failed
    · obtain ⟨front, line, back, lines, ⟨misfit, -, place⟩ | ⟨other, -⟩⟩ := addLines_error failed
      · exact .inl ⟨line.number, ⟨front, line, back, lines, misfit, rfl⟩, place⟩
      · rw [code] at other
        cases other
    · obtain ⟨commands, opened, outline, tree, say, follows, shows⟩ :=
        Draft.addLines_reads filled added
      obtain ⟨top, below, items, -, place⟩ := Draft.finish_error failed
      obtain ⟨opening, stillOpen, line⟩ := follows.stillOpen shows items
      refine .inr ⟨⟨opening, commands, say, follows.viable shows, stillOpen⟩, ?_⟩
      rintro other ⟨others, say', -, otherOpen⟩
      rw [say'.unique say] at otherOpen
      rw [place, line, stillOpen.unique otherOpen]

def faultOf (source : String) : Option Error :=
  match compile source with
  | .ok _ => none
  | .error fault => some fault

theorem compile_eq_error {source : String} {fault : Error} (found : faultOf source = some fault) :
    compile source = .error fault := by
  unfold faultOf at found
  split at found <;> cases found
  assumption

def openElse : String := "if 1\nwhile 2\nend while\n\nelse"

theorem compile_rejects_open_else :
    ∃ fault, compile openElse = .error fault ∧ fault.code = .compileError ∧ fault.line = some 5 ∧
      ((∃ number, FirstMisfit openElse number ∧ fault.line = some number) ∨
        (∃ opening, LeftOpen openElse opening) ∧
          ∀ opening, LeftOpen openElse opening → fault.line = some opening.line) := by
  have found : (faultOf openElse).map (fun fault => (fault.code, fault.line)) =
      some (.compileError, some 5) := by decide +kernel
  obtain ⟨fault, found, same⟩ := Option.map_eq_some_iff.mp found
  have failed := compile_eq_error found
  obtain ⟨code, place⟩ := Prod.mk.inj same
  exact ⟨fault, failed, code, place, (compile_accepts_sentences openElse).2 fault failed code⟩

end Program

end Easel
