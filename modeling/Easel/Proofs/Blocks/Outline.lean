import Easel.Proofs.Blocks.Tree
import Easel.Proofs.Statement.Reading

/-! Compiling builds the block tree of a source. While it goes on, what was read so far is an
outline: the blocks that are still open, each with the tree in front of it, and the tree that is
growing in the innermost one. -/

namespace Easel

namespace Stack

variable {α : Type}

theorem push_ok (stack after : Stack α) (item : α) (pushed : stack.push item = .ok after) :
    after.items = item :: stack.items := by
  unfold push at pushed
  split at pushed
  · cases pushed
    rfl
  · cases pushed

theorem push_error {stack : Stack α} {item : α} {fault : Error}
    (failed : stack.push item = .error fault) : fault = .outOfMemory stack.overflow := by
  unfold push at failed
  split at failed <;> cases failed
  rfl

theorem pop_ok (stack after : Stack α) (item : α) (popped : stack.pop = .ok (item, after)) :
    stack.items = item :: after.items := by
  unfold pop at popped
  split at popped
  · cases popped
    rfl
  · cases popped

theorem push_full {stack : Stack α} (full : stack.limit ≤ stack.size) (item : α) :
    stack.push item = .error (.outOfMemory stack.overflow) := by
  unfold push
  rw [if_neg (Nat.not_lt.mpr full)]

theorem push_room {stack : Stack α} (room : stack.size < stack.limit) (item : α) :
    ∃ after, stack.push item = .ok after ∧ after.limit = stack.limit ∧
      after.overflow = stack.overflow ∧ after.size = stack.size + 1 ∧
      after.pop = .ok (item, stack) := by
  unfold push
  rw [if_pos room]
  exact ⟨_, rfl, rfl, rfl, rfl, rfl⟩

theorem pop_error {stack : Stack α} {fault : Error} :
    stack.pop = .error fault ↔ stack.items = [] ∧ fault = .stackUnderflow := by
  obtain ⟨limit, overflow, items, size, size_eq⟩ := stack
  cases items <;> simp [pop, eq_comm]

end Stack

namespace Pairing

theorem openBlock_ok (pairing after : Pairing) (opening : Opening)
    (opened : pairing.openBlock opening = .ok after) :
    after.opened.items = opening :: pairing.opened.items ∧ after.targets = pairing.targets ∧
      after.openers = pairing.openers := by
  unfold openBlock at opened
  cases pushed : pairing.opened.push opening with
  | error fault =>
      rw [pushed] at opened
      cases opened
  | ok stack =>
      rw [pushed] at opened
      cases opened
      exact ⟨Stack.push_ok _ _ _ pushed, rfl, rfl⟩

theorem openElse_ok (pairing after : Pairing) (address : Nat) (line : Option Nat)
    (opened : pairing.openElse address line = .ok after) :
    ∃ start line' below, pairing.opened.items = ⟨start, .ifBlock, line'⟩ :: below ∧
      after.opened.items = ⟨address, .elseBlock, line⟩ :: below ∧
      after.targets = pairing.targets.insert start address ∧ after.openers = pairing.openers := by
  unfold openElse at opened
  split at opened
  · rename_i start line' top
    cases popped : pairing.opened.pop with
    | error fault =>
        rw [popped] at opened
        cases opened
    | ok pair =>
        obtain ⟨item, below⟩ := pair
        have items := Stack.pop_ok _ _ _ popped
        rw [Stack.top?, items] at top
        cases top
        rw [popped] at opened
        cases pushed : below.push ⟨address, .elseBlock, line⟩ with
        | error fault =>
            simp [bind, Except.bind, pushed] at opened
        | ok stack =>
            simp only [bind, Except.bind, pushed, pure, Except.pure] at opened
            cases opened
            exact ⟨start, line', below.items, items, Stack.push_ok _ _ _ pushed, rfl, rfl⟩
  · cases opened

theorem endBlock_ok (pairing after : Pairing) (address : Nat) (block : Block) (line : Option Nat)
    (ended : pairing.endBlock address block line = .ok after) :
    ∃ top below, pairing.opened.items = top :: below ∧ block.closes top.block = true ∧
      after.opened.items = below ∧ after.targets = pairing.targets.insert top.address address ∧
      after.openers = pairing.openers.insert address top.address := by
  unfold endBlock at ended
  split at ended
  · cases ended
  · rename_i top found
    split at ended
    · rename_i closes
      cases popped : pairing.opened.pop with
      | error fault =>
          rw [popped] at ended
          cases ended
      | ok pair =>
          obtain ⟨item, below⟩ := pair
          have items := Stack.pop_ok _ _ _ popped
          rw [Stack.top?, items] at found
          cases found
          rw [popped] at ended
          cases ended
          exact ⟨top, below.items, items, closes, rfl, rfl, rfl⟩
    · cases ended

theorem finish_ok (pairing after : Pairing) (tables : Links × Links)
    (finished : pairing.finish = .ok (tables, after)) :
    pairing.opened.items = [] ∧ tables = (pairing.targets, pairing.openers) := by
  unfold finish at finished
  split at finished
  · cases finished
  · rename_i top
    cases finished
    exact ⟨List.head?_eq_none_iff.mp top, rfl⟩

end Pairing

/-! ### Link tables -/

theorem Links.insert_iff (links : Links) (pairs : Nat → Nat → Prop)
    (holds : ∀ a b, links[a]? = some b ↔ pairs a b) (key value : Nat)
    (fresh : ∀ b, ¬ pairs key b) (a b : Nat) :
    (links.insert key value)[a]? = some b ↔ (a = key ∧ b = value) ∨ pairs a b := by
  rw [Std.ExtTreeMap.getElem?_insert]
  by_cases same : key = a
  · subst a
    simp [fresh b, eq_comm]
  · have different : compare key a ≠ .eq := by simpa using same
    simp [different, holds a b, Ne.symm same]

/-- The tables link exactly the given blocks. -/
structure Linked (targets openers : Links) (spans : Span → Prop) : Prop where
  targets_iff : ∀ first last, targets[first]? = some last ↔
    ∃ span, spans span ∧ span.first = first ∧ span.last = last
  openers_iff : ∀ last first, openers[last]? = some first ↔
    ∃ span, spans span ∧ span.ended = true ∧ span.first = first ∧ span.last = last

namespace Linked

variable {targets openers : Links} {spans : Span → Prop}

theorem congr (linked : Linked targets openers spans) (others : Span → Prop)
    (same : ∀ span, spans span ↔ others span) : Linked targets openers others := by
  have equal : spans = others := funext fun span => propext (same span)
  exact equal ▸ linked

theorem insert_targets (linked : Linked targets openers spans) (added : Span)
    (fresh : ∀ span, spans span → span.first ≠ added.first) (first last : Nat) :
    (targets.insert added.first added.last)[first]? = some last ↔
      ∃ span, (span = added ∨ spans span) ∧ span.first = first ∧ span.last = last := by
  rw [Links.insert_iff targets _ linked.targets_iff]
  · constructor
    · rintro (⟨rfl, rfl⟩ | ⟨span, member, places⟩)
      · exact ⟨added, .inl rfl, rfl, rfl⟩
      · exact ⟨span, .inr member, places⟩
    · rintro ⟨span, rfl | member, rfl, rfl⟩
      · exact .inl ⟨rfl, rfl⟩
      · exact .inr ⟨span, member, rfl, rfl⟩
  · rintro last ⟨span, member, starts, -⟩
    exact fresh span member starts

theorem middle (linked : Linked targets openers spans) (added : Span) (open_ : added.ended = false)
    (fresh : ∀ span, spans span → span.first ≠ added.first) :
    Linked (targets.insert added.first added.last) openers
      fun span => span = added ∨ spans span := by
  refine ⟨linked.insert_targets added fresh, fun last first => ?_⟩
  rw [linked.openers_iff]
  constructor
  · rintro ⟨span, member, places⟩
    exact ⟨span, .inr member, places⟩
  · rintro ⟨span, rfl | member, ended, places⟩
    · rw [open_] at ended
      cases ended
    · exact ⟨span, member, ended, places⟩

theorem close (linked : Linked targets openers spans) (added : Span) (ended : added.ended = true)
    (freshFirst : ∀ span, spans span → span.first ≠ added.first)
    (freshLast : ∀ span, spans span → span.last ≠ added.last) :
    Linked (targets.insert added.first added.last) (openers.insert added.last added.first)
      fun span => span = added ∨ spans span := by
  refine ⟨linked.insert_targets added freshFirst, fun last first => ?_⟩
  rw [Links.insert_iff openers _ linked.openers_iff]
  · constructor
    · rintro (⟨rfl, rfl⟩ | ⟨span, member, places⟩)
      · exact ⟨added, .inl rfl, ended, rfl, rfl⟩
      · exact ⟨span, .inr member, places⟩
    · rintro ⟨span, rfl | member, places⟩
      · exact .inl ⟨places.2.2.symm, places.2.1.symm⟩
      · exact .inr ⟨span, member, places⟩
  · rintro first ⟨span, member, -, -, ends⟩
    exact freshLast span member ends

end Linked

/-! ### Outlines -/

/-- A block that waits for its `end`. -/
inductive Opened where
  | ifThen (line : Nat) (condition : String)
  | ifElse (line : Nat) (condition : String) (body : Tree) (middle : Nat)
  | whileDo (line : Nat) (condition : String)
  | forNext (line : Nat) (header : ForHeader)
  | method (line : Nat) (signature : Signature)

namespace Opened

def block : Opened → Block
  | ifThen _ _ => .ifBlock
  | ifElse _ _ _ _ => .elseBlock
  | whileDo _ _ => .whileBlock
  | forNext _ _ => .forBlock
  | method _ _ => .methodBlock

def line : Opened → Nat
  | ifThen line _ | ifElse _ _ _ line | whileDo line _ | forNext line _ | method line _ => line

def commands : Opened → List Command
  | ifThen line condition => [⟨line, .ifThen condition⟩]
  | ifElse line condition body middle =>
    ⟨line, .ifThen condition⟩ :: body.commands ++ [⟨middle, .otherwise⟩]
  | whileDo line condition => [⟨line, .whileDo condition⟩]
  | forNext line header => [⟨line, .forNext header⟩]
  | method line signature => [⟨line, .method signature⟩]

def offset : Opened → Nat
  | ifElse _ _ body _ => body.size + 1
  | _ => 0

def spans (start : Nat) : Opened → List Span
  | ifElse _ _ body _ =>
    ⟨start, start + body.size + 1, .ifBlock, false⟩ :: body.spans (start + 1)
  | _ => []

def close (body : Tree) (close : Nat) : Opened → Tree
  | ifThen line condition => .ifThen line condition body close .done
  | ifElse line condition first middle => .ifElse line condition first middle body close .done
  | whileDo line condition => .whileDo line condition body close .done
  | forNext line header => .forNext line header body close .done
  | method line signature => .method line signature body close .done

theorem length_commands (opened : Opened) : opened.commands.length = opened.offset + 1 := by
  cases opened <;> simp [commands, offset]

def ending (opened : Opened) : Block := if opened.block = .elseBlock then .ifBlock else opened.block

theorem commands_close (opened : Opened) (body : Tree) (close : Nat) :
    (opened.close body close).commands =
      opened.commands ++ body.commands ++ [⟨close, .endOf opened.ending⟩] := by
  cases opened <;> simp [Opened.close, commands, Tree.commands, ending, block]

theorem mem_spans_close (opened : Opened) (body : Tree) (close start : Nat) (span : Span) :
    span ∈ (opened.close body close).spans start ↔
      span = ⟨start + opened.offset, start + opened.offset + 1 + body.size, opened.block, true⟩ ∨
        span ∈ opened.spans start ∨ span ∈ body.spans (start + opened.offset + 1) := by
  cases opened with
  | ifElse line condition first middle =>
      simp only [Opened.close, Tree.spans, spans, offset, block, List.mem_cons, List.append_nil,
        List.mem_append, ← Nat.add_assoc]
      rw [show start + first.size + body.size + 2 = start + first.size + 1 + 1 + body.size by omega]
      exact or_left_comm.trans (or_congr_right or_assoc.symm)
  | _ =>
      simp only [Opened.close, Tree.spans, spans, offset, block, List.mem_cons, List.append_nil,
        List.not_mem_nil, false_or, Nat.add_zero]
      rw [show start + body.size + 1 = start + 1 + body.size by omega]

theorem spans_bounds (opened : Opened) (start : Nat) :
    ∀ span ∈ opened.spans start, start ≤ span.first ∧ span.first < span.last ∧
      span.last ≤ start + opened.offset ∧ span.first < start + opened.offset := by
  cases opened with
  | ifElse line condition body middle =>
      intro span member
      simp only [spans, List.mem_cons] at member
      simp only [offset]
      rcases member with rfl | member
      · grind
      · have bounds := body.spans_bounds (start + 1) span member
        omega
  | _ => simp [spans]

end Opened

/-- An open block with the tree in front of it, in the block around both. -/
structure Level where
  before : Tree
  opened : Opened

/-- The open blocks, the innermost first. -/
abbrev Outline := List Level

namespace Outline

def commands : Outline → List Command
  | [] => []
  | level :: outer => commands outer ++ level.before.commands ++ level.opened.commands

def size (outline : Outline) : Nat := (commands outline).length

def place (level : Level) (outer : Outline) : Nat := size outer + level.before.size

def spans : Outline → List Span
  | [] => []
  | level :: outer =>
    spans outer ++ level.before.spans (size outer) ++ level.opened.spans (place level outer)

def openings : Outline → List Opening
  | [] => []
  | level :: outer =>
    ⟨place level outer + level.opened.offset, level.opened.block, level.opened.line⟩ ::
      openings outer

theorem size_cons (level : Level) (outer : Outline) :
    size (level :: outer) = place level outer + level.opened.offset + 1 := by
  simp [size, commands, place, Opened.length_commands]
  omega

theorem spans_bounds (outline : Outline) :
    ∀ span ∈ spans outline, span.first < span.last ∧ span.last < size outline := by
  induction outline with
  | nil => simp [spans]
  | cons level outer ih =>
      intro span member
      simp only [spans, List.mem_append] at member
      rw [size_cons]
      rcases member with (member | member) | member
      · have bounds := ih span member
        simp only [place]
        omega
      · have bounds := level.before.spans_bounds _ span member
        simp only [place]
        omega
      · have bounds := level.opened.spans_bounds _ span member
        omega

theorem spans_fresh (level : Level) (outer : Outline) :
    ∀ span ∈ spans (level :: outer),
      span.first < place level outer + level.opened.offset := by
  intro span member
  simp only [spans, List.mem_append] at member
  rcases member with (member | member) | member
  · have bounds := spans_bounds outer span member
    simp only [place]
    omega
  · have bounds := level.before.spans_bounds _ span member
    simp only [place]
    omega
  · have bounds := level.opened.spans_bounds _ span member
    omega

end Outline

namespace Program.Draft

/-- The draft holds an outline, and a tree in its innermost block. -/
structure Shows (draft : Draft) (outline : Outline) (tree : Tree) : Prop where
  commands : draft.commands.toList = outline.commands ++ tree.commands
  opened : draft.pairing.opened.items = outline.openings
  linked : Linked draft.pairing.targets draft.pairing.openers
    fun span => span ∈ outline.spans ∨ span ∈ tree.spans outline.size

theorem Shows.size {draft : Draft} {outline : Outline} {tree : Tree}
    (shows : draft.Shows outline tree) : draft.commands.size = outline.size + tree.size := by
  rw [← Array.length_toList, shows.commands, List.length_append, Tree.length_commands, Outline.size]

theorem shows_empty : Draft.empty.Shows [] .done := by
  refine ⟨rfl, rfl, ?_, ?_⟩ <;> simp [Draft.empty, Pairing.empty, Outline.spans, Tree.spans]

variable {draft after : Draft} {outline : Outline} {tree : Tree}

theorem Shows.append (shows : draft.Shows outline tree) (tail : Tree) (command : Command)
    (single : tail.commands = [command]) (plain : ∀ start, tail.spans start = [])
    (samePairing : after.pairing = draft.pairing) (sameCommands : after.commands = draft.commands) :
    Shows { after with commands := after.commands.push command } outline (tree.append tail) := by
  refine ⟨?_, ?_, ?_⟩
  · simp [sameCommands, shows.commands, Tree.commands_append, single]
  · simpa [samePairing] using shows.opened
  · rw [samePairing]
    refine shows.linked.congr _ fun span => ?_
    rw [Tree.mem_spans_append, plain]
    simp

theorem Shows.openBlock (shows : draft.Shows outline tree) (opened : Opened) (command : Command)
    (single : opened.commands = [command]) (plain : ∀ start, opened.spans start = [])
    (pairing : Pairing)
    (pushed : draft.pairing.openBlock ⟨draft.commands.size, opened.block, opened.line⟩ = .ok pairing)
    (samePairing : after.pairing = pairing) (sameCommands : after.commands = draft.commands) :
    Shows { after with commands := after.commands.push command } (⟨tree, opened⟩ :: outline) .done := by
  obtain ⟨items, targets, openers⟩ := Pairing.openBlock_ok _ _ _ pushed
  have zero : opened.offset = 0 := by
    have length := opened.length_commands
    rw [single] at length
    simpa using length.symm
  refine ⟨?_, ?_, ?_⟩
  · simp [sameCommands, shows.commands, Outline.commands, single, Tree.commands]
  · simp only [samePairing, items, Outline.openings, shows.opened, shows.size, Outline.place, zero,
      Nat.add_zero]
  · simp only [samePairing, targets, openers]
    refine shows.linked.congr _ fun span => ?_
    simp [Outline.spans, plain, Tree.spans]

theorem Shows.openElse (shows : draft.Shows outline tree) (line : Nat) (pairing : Pairing)
    (pushed : draft.pairing.openElse draft.commands.size line = .ok pairing) :
    ∃ outline', Shows { draft with commands := draft.commands.push ⟨line, .otherwise⟩, pairing }
      outline' .done := by
  obtain ⟨start, line', below, items, items', targets, openers⟩ := Pairing.openElse_ok _ _ _ _ pushed
  rw [shows.opened] at items
  obtain _ | ⟨⟨before, opened⟩, outer⟩ := outline
  · cases items
  · simp only [Outline.openings, List.cons.injEq, Opening.mk.injEq] at items
    obtain ⟨⟨place, isIf, -⟩, rfl⟩ := items
    cases opened with
    | ifThen first condition =>
        have size := shows.size
        have fresh := Outline.spans_fresh ⟨before, .ifThen first condition⟩ outer
        have inner := tree.spans_bounds (start + 1)
        simp only [Outline.size_cons, place] at size fresh
        have address : draft.commands.size = start + tree.size + 1 := by omega
        refine ⟨⟨before, .ifElse first condition tree line⟩ :: outer, ?_, ?_, ?_⟩
        · simp [shows.commands, Outline.commands, Opened.commands, Tree.commands]
        · simp only [items', address, ← place]
          rfl
        · rw [targets, openers]
          refine (shows.linked.middle ⟨start, draft.commands.size, .ifBlock, false⟩ rfl ?_).congr _
            fun span => ?_
          · rw [Outline.size_cons, place]
            rintro span (member | member)
            · exact Nat.ne_of_lt (fresh span member)
            · exact Nat.ne_of_gt (inner span member).1
          · have same : Outline.place ⟨before, .ifElse first condition tree line⟩ outer = start := place
            simp only [Outline.spans, Outline.size_cons, same, place, address, Opened.spans,
              List.mem_append, List.mem_cons, List.not_mem_nil, Tree.spans, or_false]
            grind
    | _ => cases isIf

theorem Shows.endBlock (shows : draft.Shows outline tree) (line : Nat) (block : Block)
    (legal : block ≠ .elseBlock) (pairing : Pairing)
    (popped : draft.pairing.endBlock draft.commands.size block line = .ok pairing)
    (samePairing : after.pairing = pairing) (sameCommands : after.commands = draft.commands) :
    ∃ outline' tree', Shows { after with commands := after.commands.push ⟨line, .endOf block⟩ }
      outline' tree' := by
  obtain ⟨top, below, items, closes, items', targets, openers⟩ := Pairing.endBlock_ok _ _ _ _ _ popped
  rw [shows.opened] at items
  obtain _ | ⟨⟨before, opened⟩, outer⟩ := outline
  · cases items
  · simp only [Outline.openings, List.cons.injEq] at items
    obtain ⟨rfl, rfl⟩ := items
    have ending : opened.ending = block := by
      cases opened <;> cases block <;> simp_all [Opened.ending, Opened.block, Block.closes]
    have size := shows.size
    have fresh := Outline.spans_fresh ⟨before, opened⟩ outer
    have bounds := Outline.spans_bounds (⟨before, opened⟩ :: outer)
    have inner := tree.spans_bounds (Outline.size (⟨before, opened⟩ :: outer))
    refine ⟨outer, before.append (opened.close tree line), ?_, ?_, ?_⟩
    · simp [sameCommands, shows.commands, Outline.commands, Tree.commands_append,
        Opened.commands_close, ending]
    · simpa [samePairing] using items'
    · rw [samePairing, targets, openers]
      refine (shows.linked.close ⟨Outline.place ⟨before, opened⟩ outer + opened.offset,
        draft.commands.size, opened.block, true⟩ rfl ?_ ?_).congr _ fun span => ?_
      · rintro span (member | member)
        · exact Nat.ne_of_lt (fresh span member)
        · have later := (inner span member).1
          rw [Outline.size_cons] at later
          exact Nat.ne_of_gt later
      · rintro span (member | member)
        · have earlier := (bounds span member).2
          dsimp only
          omega
        · have earlier := (inner span member).2.2
          dsimp only
          omega
      · rw [Tree.mem_spans_append, Opened.mem_spans_close, size]
        simp only [Outline.spans, Outline.size_cons, Outline.place, List.mem_append]
        grind

theorem declare_pairing (draft : Draft) (declaration : Declaration) :
    (draft.declare declaration).pairing = draft.pairing ∧
      (draft.declare declaration).commands = draft.commands := by
  unfold declare
  split <;> exact ⟨rfl, rfl⟩

theorem Shows.link_opens (shows : draft.Shows outline tree) (opened : Opened) (command : Command)
    (single : opened.commands = [command]) (plain : ∀ start, opened.spans start = [])
    (parameters : List (List String))
    (linked : (do
      let pairing ← draft.pairing.openBlock ⟨draft.commands.size, opened.block, opened.line⟩
      return { draft with pairing, parameters } : Except Error Draft) = .ok after) :
    ∃ outline' tree',
      Shows { after with commands := after.commands.push command } outline' tree' := by
  cases pushed : draft.pairing.openBlock ⟨draft.commands.size, opened.block, opened.line⟩ with
  | error fault =>
      rw [pushed] at linked
      cases linked
  | ok pairing =>
      rw [pushed] at linked
      cases linked
      exact ⟨_, _, shows.openBlock opened command single plain pairing pushed rfl rfl⟩

theorem Shows.link (shows : draft.Shows outline tree) (line : Nat) (statement : Statement)
    (legal : statement.Legal) (linked : draft.link line statement = .ok after) :
    ∃ outline' tree', Shows { after with commands := after.commands.push ⟨line, statement⟩ }
      outline' tree' := by
  cases statement with
  | otherwise =>
      unfold Draft.link at linked
      dsimp only at linked
      cases pushed : draft.pairing.openElse draft.commands.size line with
      | error fault =>
          rw [pushed] at linked
          cases linked
      | ok pairing =>
          rw [pushed] at linked
          cases linked
          obtain ⟨outline', shows'⟩ := shows.openElse line pairing pushed
          exact ⟨outline', _, shows'⟩
  | endOf block =>
      unfold Draft.link at linked
      dsimp only at linked
      cases popped : draft.pairing.endBlock draft.commands.size block line with
      | error fault =>
          rw [popped] at linked
          cases linked
      | ok pairing =>
          rw [popped] at linked
          cases linked
          exact shows.endBlock line block legal pairing popped rfl rfl
  | declare declaration =>
      cases linked
      obtain ⟨samePairing, sameCommands⟩ := draft.declare_pairing declaration
      exact ⟨_, _, shows.append (.simple line (.declare declaration) .done) _ rfl (fun _ => rfl)
        samePairing sameCommands⟩
  | method signature =>
      exact shows.link_opens (.method line signature) _ rfl (fun _ => rfl) _ linked
  | ifThen condition =>
      exact shows.link_opens (.ifThen line condition) _ rfl (fun _ => rfl) _ linked
  | whileDo condition =>
      exact shows.link_opens (.whileDo line condition) _ rfl (fun _ => rfl) _ linked
  | forNext header =>
      exact shows.link_opens (.forNext line header) _ rfl (fun _ => rfl) _ linked
  | array declaration =>
      cases linked
      exact ⟨_, _, shows.append (.simple line (.array declaration) .done) _ rfl (fun _ => rfl) rfl rfl⟩
  | poke cell =>
      cases linked
      exact ⟨_, _, shows.append (.simple line (.poke cell) .done) _ rfl (fun _ => rfl) rfl rfl⟩
  | peek cell =>
      cases linked
      exact ⟨_, _, shows.append (.simple line (.peek cell) .done) _ rfl (fun _ => rfl) rfl rfl⟩
  | call name arguments =>
      cases linked
      exact ⟨_, _, shows.append (.call line name arguments .done) _ rfl (fun _ => rfl) rfl rfl⟩
  | draw drawing arguments =>
      cases linked
      exact ⟨_, _, shows.append (.simple line (.draw drawing arguments) .done) _ rfl (fun _ => rfl)
        rfl rfl⟩
  | write expression =>
      cases linked
      exact ⟨_, _, shows.append (.simple line (.write expression) .done) _ rfl (fun _ => rfl) rfl rfl⟩

theorem Shows.addLine (shows : draft.Shows outline tree) (line : Line)
    (added : draft.addLine line = .ok after) : ∃ outline' tree', after.Shows outline' tree' := by
  unfold Draft.addLine at added
  split at added
  · cases added
    exact ⟨outline, tree, shows⟩
  · cases read : line.statement with
    | error fault =>
        rw [read] at added
        cases added
    | ok statement =>
        cases linked : draft.link line.number statement with
        | error fault =>
            simp [read, linked, bind, Except.bind] at added
        | ok grown =>
            simp only [read, linked, bind, Except.bind, pure, Except.pure, Except.ok.injEq] at added
            subst added
            exact shows.link line.number statement (line.statement_settles.gives statement read) linked

theorem Shows.addLines (lines : List Line) (shows : draft.Shows outline tree)
    (added : lines.foldlM Draft.addLine draft = .ok after) :
    ∃ outline' tree', after.Shows outline' tree' := by
  induction lines generalizing draft outline tree with
  | nil =>
      cases added
      exact ⟨outline, tree, shows⟩
  | cons line lines ih =>
      rw [List.foldlM_cons] at added
      cases first : draft.addLine line with
      | error fault =>
          rw [first] at added
          cases added
      | ok middle =>
          rw [first] at added
          obtain ⟨outline', tree', shows'⟩ := shows.addLine line first
          exact ih shows' added

theorem link_commands (draft : Draft) (line : Nat) (statement : Statement) :
    Gives (fun after => after.commands = draft.commands) (draft.link line statement) := by
  cases statement with
  | declare declaration => exact .pure (draft.declare_pairing declaration).2
  | array | poke | peek | call | draw | write => exact .pure rfl
  | ifThen | otherwise | whileDo | forNext | endOf | method => exact .bind fun _ => .pure rfl

theorem addLine_legal (draft : Draft) (line : Line)
    (legal : ∀ command ∈ draft.commands, command.statement.Legal) :
    Gives (fun after => ∀ command ∈ after.commands, command.statement.Legal)
      (draft.addLine line) := by
  unfold addLine
  split
  · exact .pure legal
  · refine .andThen line.statement_settles.gives fun statement fine => ?_
    refine .andThen (draft.link_commands line.number statement) fun grown same => .pure ?_
    intro command member
    obtain earlier | rfl := Array.mem_push.mp member
    · exact legal command (same ▸ earlier)
    · exact fine

end Program.Draft

theorem Program.compile_legal (source : String) :
    Gives (fun program => ∀ command ∈ program.commands, command.statement.Legal)
      (Program.compile source) := by
  have lines := Gives.foldlM Draft.addLine_legal (Line.all source) .empty (by simp [Draft.empty])
  exact .andThen lines fun draft legal => .bind fun _ => .pure legal

theorem Program.target_eq_ok {program : Program} {address target : Nat} :
    program.target address = .ok target ↔ program.targets[address]? = some target := by
  unfold Program.target
  cases program.targets[address]? <;> simp

theorem Program.opener_eq_ok {program : Program} {address opener : Nat} :
    program.opener address = .ok opener ↔ program.openers[address]? = some opener := by
  unfold Program.opener
  cases program.openers[address]? <;> simp

/-- The tree of a compiled program: its commands, and exactly its blocks in the link tables. -/
structure Program.HasTree (program : Program) (tree : Tree) : Prop where
  commands : program.commands.toList = tree.commands
  linked : Linked program.targets program.openers fun span => span ∈ tree.spans 0

theorem Program.compile_hasTree (source : String) (program : Program)
    (compiled : Program.compile source = .ok program) : ∃ tree, program.HasTree tree := by
  unfold Program.compile at compiled
  cases added : (Line.all source).foldlM Draft.addLine .empty with
  | error fault =>
      rw [added] at compiled
      cases compiled
  | ok draft =>
      rw [added] at compiled
      obtain ⟨outline, tree, shows⟩ := Draft.Shows.addLines _ Draft.shows_empty added
      change draft.finish = .ok program at compiled
      unfold Draft.finish at compiled
      cases finished : draft.pairing.finish with
      | error fault =>
          rw [finished] at compiled
          cases compiled
      | ok result =>
          obtain ⟨tables, left⟩ := result
          rw [finished] at compiled
          obtain ⟨closed, rfl⟩ := Pairing.finish_ok _ _ _ finished
          cases compiled
          rw [shows.opened] at closed
          obtain _ | ⟨level, outer⟩ := outline
          · refine ⟨tree, shows.commands, ?_⟩
            simpa [Outline.spans, Outline.size, Outline.commands] using shows.linked
          · cases closed

end Easel
