import Mathlib.Data.Finset.Card
import Easel.Proofs.Source.Numbering

/-! Listings. The depth of a row is counted from statement to statement, without the link tables. It
is the number of blocks around the statement all the same: before each statement the count is that of
the blocks which are opened further up and not closed there, and what closes a block is never without
one. -/

namespace Easel

theorem Line.Say.getElem? {lines : List Line} {commands : List Command} {i : Nat}
    {command : Command} (say : Line.Say lines commands) (found : commands[i]? = some command) :
    ∃ line, lines[i]? = some line ∧ line.number = command.line ∧
      line.statement = .ok command.statement := by
  induction say generalizing i with
  | nil => simp at found
  | cons head tail ih =>
      cases i with
      | zero =>
          cases found
          exact ⟨_, rfl, head⟩
      | succ i => exact ih found

namespace Tree

theorem exists_if_of_else (tree : Tree) (start : Nat) : ∀ span ∈ tree.spans start,
    span.block = .elseBlock → ∃ other ∈ tree.spans start, other.last = span.first := by
  induction tree generalizing start with
  | done => simp [spans]
  | simple line act rest ih | call line name arguments rest ih => exact ih (start + 1)
  | ifElse line condition body middle other close rest first second third =>
      intro span member isElse
      simp only [spans, List.mem_cons, List.mem_append] at member ⊢
      rcases member with rfl | rfl | (inBody | inOther) | inRest
      · cases isElse
      · exact ⟨_, .inl rfl, rfl⟩
      · obtain ⟨before, found, last⟩ := first _ span inBody isElse
        exact ⟨before, .inr (.inr (.inl (.inl found))), last⟩
      · obtain ⟨before, found, last⟩ := second _ span inOther isElse
        exact ⟨before, .inr (.inr (.inl (.inr found))), last⟩
      · obtain ⟨before, found, last⟩ := third _ span inRest isElse
        exact ⟨before, .inr (.inr (.inr found)), last⟩
  | ifThen line condition body close rest inner outer
  | whileDo line condition body close rest inner outer
  | forNext line header body close rest inner outer
  | method line signature body close rest inner outer =>
      intro span member isElse
      simp only [spans, List.mem_cons, List.mem_append] at member ⊢
      rcases member with rfl | inBody | inRest
      · cases isElse
      · obtain ⟨before, found, last⟩ := inner _ span inBody isElse
        exact ⟨before, .inr (.inl found), last⟩
      · obtain ⟨before, found, last⟩ := outer _ span inRest isElse
        exact ⟨before, .inr (.inr found), last⟩

end Tree

namespace Program

variable {program : Program} {address first last : Nat} {statement : Statement} {command : Command}

/-! ### The depth of a row -/

def rowDepth (depth : Nat) (statement : Statement) : Nat :=
  if stepsOut statement then depth - 1 else depth

def innerDepth (depth : Nat) (statement : Statement) : Nat :=
  if statement.opens?.isSome then rowDepth depth statement + 1 else rowDepth depth statement

/-- The depth that a listing has come to behind the commands. -/
def depthBehind (depth : Nat) (commands : List Command) : Nat :=
  commands.foldl (fun depth command => innerDepth depth command.statement) depth

def row (number depth : Nat) (text : String) : String :=
  Text.padLeft 4 (toString number) ++ " " ++ String.ofList (List.replicate (2 * depth) ' ') ++ text

theorem listingFrom_cons (depth : Nat) (command : Command) (rest : List Command) :
    listingFrom depth (command :: rest) =
      row command.line (rowDepth depth command.statement) command.statement.text ::
        listingFrom (innerDepth depth command.statement) rest := rfl

theorem listingFrom_append (depth : Nat) (front back : List Command) :
    listingFrom depth (front ++ back) =
      listingFrom depth front ++ listingFrom (depthBehind depth front) back := by
  induction front generalizing depth with
  | nil => rfl
  | cons command front ih =>
      rw [List.cons_append, listingFrom_cons, listingFrom_cons, ih, List.cons_append]
      rfl

theorem length_listingFrom (depth : Nat) (commands : List Command) :
    (listingFrom depth commands).length = commands.length := by
  induction commands generalizing depth with
  | nil => rfl
  | cons command commands ih => rw [listingFrom_cons, List.length_cons, ih, List.length_cons]

def depthAt (program : Program) (address : Nat) : Nat :=
  depthBehind 0 (program.commands.toList.take address)

theorem depthAt_succ (found : program.commands[address]? = some command) :
    program.depthAt (address + 1) = innerDepth (program.depthAt address) command.statement := by
  rw [← Array.getElem?_toList] at found
  rw [depthAt, List.take_add_one, found, Option.toList_some, depthBehind, List.foldl_append]
  rfl

theorem listing_getElem? (found : program.commands[address]? = some command) :
    program.listing[address]? = some (row command.line
      (rowDepth (program.depthAt address) command.statement) command.statement.text) := by
  rw [← Array.getElem?_toList] at found
  obtain ⟨bound, found⟩ := List.getElem?_eq_some_iff.mp found
  have whole : program.commands.toList = program.commands.toList.take address ++
      command :: program.commands.toList.drop (address + 1) := by
    rw [← found, List.cons_getElem_drop_succ, List.take_append_drop]
  have length : (listingFrom 0 (program.commands.toList.take address)).length = address := by
    rw [length_listingFrom, List.length_take]
    omega
  rw [listing, whole, listingFrom_append, listingFrom_cons, List.getElem?_append_right (by omega),
    length, Nat.sub_self]
  rfl

/-! ### The blocks around an address -/

/-- The blocks opened before an address and closed behind it. -/
def around (program : Program) (address : Nat) : Finset Nat :=
  {opener ∈ Finset.range address | program.targets[opener]?.any (address < ·) = true}

/-- The blocks opened before an address and closed there or behind it. -/
def waiting (program : Program) (address : Nat) : Finset Nat :=
  {opener ∈ Finset.range address | program.targets[opener]?.any (address ≤ ·) = true}

/-- How many blocks a statement is in. -/
def nesting (program : Program) (address : Nat) : Nat := (program.around address).card

theorem mem_around {opener : Nat} : opener ∈ program.around address ↔
    opener < address ∧ ∃ last, program.targets[opener]? = some last ∧ address < last := by
  simp [around, Option.any_eq_true]

theorem mem_waiting {opener : Nat} : opener ∈ program.waiting address ↔
    opener < address ∧ ∃ last, program.targets[opener]? = some last ∧ address ≤ last := by
  simp [waiting, Option.any_eq_true]

namespace Paired

variable (paired : program.Paired)

include paired

theorem eq_of_targets {other : Nat} (linked : program.targets[first]? = some last)
    (linked' : program.targets[other]? = some last) : first = other := by
  have bounds := paired.bounds linked
  have bounds' := paired.bounds linked'
  rcases Nat.lt_trichotomy first other with earlier | same | later
  · have apart := paired.nested linked linked' earlier
    omega
  · exact same
  · have apart := paired.nested linked' linked later
    omega

theorem around_eq (linked : program.targets[first]? = some last) :
    program.around last = program.around first := by
  have bounds := paired.bounds linked
  ext opener
  rw [mem_around, mem_around]
  constructor
  · rintro ⟨before, other, linked', behind⟩
    have bounds' := paired.bounds linked'
    rcases Nat.lt_trichotomy opener first with earlier | rfl | later
    · exact ⟨earlier, other, linked', by omega⟩
    · rw [linked] at linked'
      cases linked'
      omega
    · have apart := paired.nested linked linked' later
      omega
  · rintro ⟨before, other, linked', behind⟩
    have apart := paired.nested linked' linked before
    exact ⟨by omega, other, linked', by omega⟩

theorem around_of_target (linked : program.targets[first]? = some address) :
    first ∈ program.waiting address ∧
      program.around address = (program.waiting address).erase first := by
  have bounds := paired.bounds linked
  refine ⟨mem_waiting.mpr ⟨bounds.1, address, linked, Nat.le_refl _⟩, ?_⟩
  ext opener
  rw [Finset.mem_erase, mem_around, mem_waiting]
  constructor
  · rintro ⟨before, last, linked', behind⟩
    refine ⟨?_, before, last, linked', Nat.le_of_lt behind⟩
    rintro rfl
    rw [linked] at linked'
    cases linked'
    omega
  · rintro ⟨other, before, last, linked', behind⟩
    refine ⟨before, last, linked', Nat.lt_of_le_of_ne behind ?_⟩
    rintro rfl
    exact other (paired.eq_of_targets linked' linked)

end Paired

theorem around_of_none (unlinked : ∀ first : Nat, program.targets[first]? ≠ some address) :
    program.around address = program.waiting address := by
  ext opener
  rw [mem_around, mem_waiting]
  constructor
  · rintro ⟨before, last, linked, behind⟩
    exact ⟨before, last, linked, Nat.le_of_lt behind⟩
  · rintro ⟨before, last, linked, behind⟩
    refine ⟨before, last, linked, Nat.lt_of_le_of_ne behind ?_⟩
    rintro rfl
    exact unlinked opener linked

theorem waiting_succ_of_opening (linked : program.targets[address]? = some last)
    (later : address < last) :
    program.waiting (address + 1) = insert address (program.around address) := by
  ext opener
  rw [Finset.mem_insert, mem_waiting, mem_around]
  constructor
  · rintro ⟨before, last', linked', behind⟩
    rcases Nat.lt_succ_iff_lt_or_eq.mp before with earlier | same
    · exact .inr ⟨earlier, last', linked', behind⟩
    · exact .inl same
  · rintro (rfl | ⟨before, last', linked', behind⟩)
    · exact ⟨Nat.lt_succ_self _, last, linked, later⟩
    · exact ⟨Nat.lt_succ_of_lt before, last', linked', behind⟩

theorem waiting_succ_of_none (unlinked : program.targets[address]? = none) :
    program.waiting (address + 1) = program.around address := by
  ext opener
  rw [mem_waiting, mem_around]
  constructor
  · rintro ⟨before, last, linked, behind⟩
    refine ⟨Nat.lt_of_le_of_ne (Nat.le_of_lt_succ before) ?_, last, linked, behind⟩
    rintro rfl
    rw [unlinked] at linked
    cases linked
  · rintro ⟨before, last, linked, behind⟩
    exact ⟨Nat.lt_succ_of_lt before, last, linked, behind⟩

/-! ### Depth and nesting -/

theorem HasTree.target_of_stepsOut {tree : Tree} (has : program.HasTree tree)
    (found : program.statement? address = some statement) (out : stepsOut statement = true) :
    ∃ first : Nat, program.targets[first]? = some address := by
  cases statement with
  | endOf block =>
      obtain ⟨first, linked⟩ := has.paired.ends found
      exact ⟨first, has.paired.opener linked⟩
  | otherwise =>
      obtain ⟨last, linked⟩ := has.paired.opens found rfl
      obtain ⟨span, member, rfl, rfl⟩ := (has.linked.targets_iff _ _).mp linked
      obtain ⟨opening, found', opens⟩ := (tree.marks_of_mem_spans program 0 has.at span member).opens
      rw [found] at found'
      cases found'
      obtain ⟨other, member', same⟩ := tree.exists_if_of_else 0 span member (Option.some.inj opens).symm
      exact ⟨other.first, (has.linked.targets_iff _ _).mpr ⟨other, member', rfl, same⟩⟩
  | _ => cases out

theorem Paired.stepsOut_of_target (paired : program.Paired)
    (linked : program.targets[first]? = some address)
    (found : program.statement? address = some statement) : stepsOut statement = true := by
  obtain ⟨_, _, -, -, closes | ⟨-, closes⟩⟩ := paired.kinds linked
  · rw [found] at closes
    cases closes
    rfl
  · rw [found] at closes
    cases closes
    rfl

theorem HasTree.card_around {tree : Tree} (has : program.HasTree tree)
    (found : program.statement? address = some statement) :
    rowDepth (program.waiting address).card statement = program.nesting address ∧
      (stepsOut statement = true → 0 < (program.waiting address).card) := by
  cases out : stepsOut statement with
  | true =>
      obtain ⟨first, linked⟩ := has.target_of_stepsOut found out
      obtain ⟨member, erased⟩ := has.paired.around_of_target linked
      constructor
      · rw [rowDepth, out, if_pos rfl, nesting, erased, Finset.card_erase_of_mem member]
      · exact fun _ => Finset.card_pos.mpr ⟨first, member⟩
  | false =>
      have unlinked : ∀ first : Nat, program.targets[first]? ≠ some address := by
        intro first linked
        rw [has.paired.stepsOut_of_target linked found] at out
        cases out
      constructor
      · rw [rowDepth, out, if_neg (by decide), nesting, around_of_none unlinked]
      · nofun

theorem HasTree.card_waiting_succ {tree : Tree} (has : program.HasTree tree)
    (found : program.statement? address = some statement) :
    (program.waiting (address + 1)).card = innerDepth (program.waiting address).card statement := by
  have row := (has.card_around found).1
  rw [innerDepth, row, nesting]
  cases opens : statement.opens? with
  | some block =>
      obtain ⟨last, linked⟩ := has.paired.opens found opens
      have outside : address ∉ program.around address := by simp [mem_around]
      rw [waiting_succ_of_opening linked (has.paired.bounds linked).1,
        Finset.card_insert_of_notMem outside]
      rfl
  | none =>
      have unlinked : program.targets[address]? = none := by
        cases linked : program.targets[address]? with
        | none => rfl
        | some last =>
            obtain ⟨opening, block, found', opens', -⟩ := has.paired.kinds linked
            rw [found] at found'
            cases found'
            rw [opens] at opens'
            cases opens'
      rw [waiting_succ_of_none unlinked]
      rfl

/-- The counter of the listing counts the blocks that wait for their end. -/
theorem HasTree.depthAt_eq {tree : Tree} (has : program.HasTree tree)
    (inside : address ≤ program.size) :
    program.depthAt address = (program.waiting address).card := by
  induction address with
  | zero => rfl
  | succ address ih =>
      have bound : address < program.commands.size := inside
      have found := Array.getElem?_eq_getElem bound
      rw [depthAt_succ found, ih (Nat.le_of_lt inside),
        has.card_waiting_succ (statement?_of_command found)]

theorem HasTree.depth_at_end {tree : Tree} (has : program.HasTree tree) :
    program.depthAt program.size = 0 := by
  rw [has.depthAt_eq (Nat.le_refl _), Finset.card_eq_zero, Finset.eq_empty_iff_forall_notMem]
  intro opener member
  obtain ⟨-, last, linked, behind⟩ := mem_waiting.mp member
  have bounds := has.paired.bounds linked
  omega

/-- A listing has a row for each line that says something: its number, two blanks for each block that
is opened before the statement and closed behind it, and the text of the statement. So the two ends
of a block are listed at one depth. The depth that is counted on the way is never zero where a
statement steps out of a block, and it is zero at the end. -/
theorem listing_indents_by_nesting (source : String) (program : Program)
    (compiled : compile source = .ok program) :
    program.listing.length = program.size ∧
    (∀ address < program.size, ∃ line statement, (Line.filled source)[address]? = some line ∧
      line.statement = .ok statement ∧ program.statement? address = some statement ∧
      program.listing[address]? = some (Text.padLeft 4 (toString line.number) ++ " " ++
        String.ofList (List.replicate (2 * program.nesting address) ' ') ++ statement.text)) ∧
    (∀ first last, program.target first = .ok last →
      program.nesting last = program.nesting first) ∧
    (∀ front command back, program.commands.toList = front ++ command :: back →
      program.listing = listingFrom 0 front ++ listingFrom (depthBehind 0 front) (command :: back) ∧
      (stepsOut command.statement = true → 0 < depthBehind 0 front)) ∧
    depthBehind 0 program.commands.toList = 0 := by
  obtain ⟨tree, has⟩ := compile_hasTree source program compiled
  refine ⟨?_, ?_, ?_, ?_, ?_⟩
  · rw [listing, length_listingFrom, Array.length_toList]
    rfl
  · intro address inside
    have found : program.commands[address]? = some _ := Array.getElem?_eq_getElem inside
    have stands := statement?_of_command found
    obtain ⟨line, listed, number, said⟩ := (Program.compile_says compiled).getElem?
      ((Array.getElem?_toList ..).trans found)
    refine ⟨line, _, listed, said, stands, ?_⟩
    rw [listing_getElem? found, has.depthAt_eq (Nat.le_of_lt inside), (has.card_around stands).1,
      number]
    rfl
  · intro first last linked
    rw [nesting, nesting, has.paired.around_eq (target_eq_ok.mp linked)]
  · intro front command back whole
    have inside : front.length < program.size := by
      rw [Program.size, ← Array.length_toList, whole, List.length_append, List.length_cons]
      omega
    have stands : program.statement? front.length = some command.statement := by
      apply statement?_of_command
      rw [← Array.getElem?_toList, whole, List.getElem?_append_right (Nat.le_refl _), Nat.sub_self]
      rfl
    have depth := has.depthAt_eq (Nat.le_of_lt inside)
    rw [depthAt, whole, List.take_left] at depth
    refine ⟨by rw [listing, whole, listingFrom_append], ?_⟩
    rw [depth]
    exact (has.card_around stands).2
  · have ends := has.depth_at_end
    rw [depthAt, Program.size, ← Array.length_toList, List.take_length] at ends
    exact ends

def commentedLoop : String := "if 1\n* note\nwhile 2\n\nend while\nelse\nclear\nend if"

theorem listing_indents_commented_loop :
    ∃ program, compile commentedLoop = .ok program ∧ program.target 0 = .ok 3 ∧
      program.listing[1]? = some "   3   while 2" ∧ program.nesting 3 = program.nesting 0 ∧
      depthBehind 0 program.commands.toList = 0 := by
  have compiles : compilesTo commentedLoop (fun program =>
      program.targets[0]? == some 3 && program.size == 6 && program.nesting 1 == 1 &&
        program.statement? 1 == some (.whileDo "2")) = true := by decide +kernel
  have second : (Line.filled commentedLoop)[1]? = some ⟨3, "while 2"⟩ := by decide +kernel
  obtain ⟨program, compiled, checked⟩ := exists_of_compilesTo compiles
  simp only [Bool.and_eq_true, beq_iff_eq] at checked
  obtain ⟨⟨⟨linked, size⟩, nesting⟩, loop⟩ := checked
  have target := target_eq_ok.mpr linked
  obtain ⟨-, rows, alike, -, zero⟩ := listing_indents_by_nesting commentedLoop program compiled
  obtain ⟨line, statement, listed, -, stands, row⟩ := rows 1 (by omega)
  rw [second] at listed
  rw [loop] at stands
  cases listed
  cases stands
  rw [nesting] at row
  exact ⟨program, compiled, target, row, alike 0 3 target, zero⟩

end Program

end Easel
