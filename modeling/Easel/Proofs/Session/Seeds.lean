import Easel.Proofs.Expression.Literals
import Easel.Proofs.Session.Kinds

/-! The variables that a run begins with. Compiling keeps the parameters of the methods whose bodies
are open beside the stack of open blocks, and takes a seed from the first declaration of each name
that is no parameter where it is declared. -/

namespace Easel

theorem Links.getElem?_insert_of_ne {links : Links} {key other : Nat} (different : key ≠ other)
    (value : Nat) : (links.insert key value)[other]? = links[other]? := by
  rw [Std.ExtTreeMap.getElem?_insert, if_neg (by simpa using different)]

def Statement.parameterNames? : Statement → Option (List String)
  | method signature => some (signature.parameters.map (·.name))
  | _ => none

namespace Program

/-- The address lies in the body of a method that has a parameter of the name. -/
def HasParameter (program : Program) (address : Nat) (name : String) : Prop :=
  ∃ method, program.Declares method ∧ method.Covers address ∧
    name ∈ method.signature.parameters.map (·.name)

/-- A declaration of a name that is no parameter where it stands. -/
structure DeclaresFree (program : Program) (address : Nat) (declaration : Declaration) : Prop where
  stands : program.statement? address = some (.declare declaration)
  free : ¬ program.HasParameter address declaration.name

def IsFirst (declares : Nat → Declaration → Prop) (address : Nat) (declaration : Declaration) :
    Prop :=
  declares address declaration ∧
    ∀ earlier other, earlier < address → declares earlier other → other.name ≠ declaration.name

/-- The first declarations of all names, in the order in which they stand. -/
structure Firsts (declares : Nat → Declaration → Prop) (origins : List (Nat × Declaration)) :
    Prop where
  ordered : origins.Pairwise fun first second => first.1 < second.1
  mem_iff : ∀ address declaration,
    (address, declaration) ∈ origins ↔ IsFirst declares address declaration

section Firsts

variable {declares more : Nat → Declaration → Prop} {origins : List (Nat × Declaration)}
  {address size : Nat} {declaration : Declaration}

theorem exists_isFirst (declared : declares address declaration) :
    ∃ first other, IsFirst declares first other ∧ other.name = declaration.name := by
  induction address using Nat.strongRecOn generalizing declaration with
  | ind address ih =>
      by_cases first : IsFirst declares address declaration
      · exact ⟨address, declaration, first, rfl⟩
      · simp only [IsFirst, declared, true_and, not_forall, not_not] at first
        obtain ⟨earlier, other, before, declared, same⟩ := first
        obtain ⟨first, another, isFirst, same'⟩ := ih earlier before declared
        exact ⟨first, another, isFirst, same'.trans same⟩

theorem Firsts.names (firsts : Firsts declares origins) (name : String) :
    (∃ origin ∈ origins, origin.2.name = name) ↔
      ∃ address declaration, declares address declaration ∧ declaration.name = name := by
  constructor
  · rintro ⟨⟨address, declaration⟩, member, same⟩
    exact ⟨address, declaration, ((firsts.mem_iff address declaration).mp member).1, same⟩
  · rintro ⟨address, declaration, declared, rfl⟩
    obtain ⟨first, other, isFirst, same⟩ := exists_isFirst declared
    exact ⟨(first, other), (firsts.mem_iff first other).mpr isFirst, same⟩

theorem Firsts.nodup (firsts : Firsts declares origins) :
    (origins.map (·.2.name)).Nodup := by
  rw [List.Nodup, List.pairwise_map]
  refine firsts.ordered.imp_of_mem fun {first second} member member' before => ?_
  have declared := ((firsts.mem_iff first.1 first.2).mp member).1
  exact ((firsts.mem_iff second.1 second.2).mp member').2 first.1 first.2 before declared

theorem Firsts.congr (firsts : Firsts declares origins)
    (same : ∀ address declaration, more address declaration ↔ declares address declaration) :
    Firsts more origins := by
  refine ⟨firsts.ordered, fun address declaration => ?_⟩
  simp only [firsts.mem_iff, IsFirst, same]

structure Appends (declares more : Nat → Declaration → Prop) (size : Nat)
    (declaration : Declaration) : Prop where
  behind : ∀ address other, declares address other → address < size
  grown : ∀ address other, more address other ↔
    declares address other ∨ address = size ∧ other = declaration

theorem Appends.isFirst_iff (appends : Appends declares more size declaration)
    {other : Declaration} : IsFirst more address other ↔ IsFirst declares address other ∨
      (address = size ∧ other = declaration) ∧
        ∀ earlier another, declares earlier another → another.name ≠ declaration.name := by
  constructor
  · rintro ⟨declared, first⟩
    rcases (appends.grown address other).mp declared with declared | ⟨rfl, rfl⟩
    · refine .inl ⟨declared, fun earlier another before declared => ?_⟩
      exact first earlier another before ((appends.grown _ _).mpr (.inl declared))
    · refine .inr ⟨⟨rfl, rfl⟩, fun earlier another declared => ?_⟩
      exact first earlier another (appends.behind _ _ declared)
        ((appends.grown _ _).mpr (.inl declared))
  · rintro (⟨declared, first⟩ | ⟨⟨rfl, rfl⟩, fresh⟩)
    · refine ⟨(appends.grown _ _).mpr (.inl declared), fun earlier another before later => ?_⟩
      rcases (appends.grown _ _).mp later with later | ⟨rfl, -⟩
      · exact first earlier another before later
      · exact absurd (appends.behind _ _ declared) (Nat.lt_asymm before)
    · refine ⟨(appends.grown _ _).mpr (.inr ⟨rfl, rfl⟩), fun earlier another before later => ?_⟩
      rcases (appends.grown _ _).mp later with later | ⟨rfl, -⟩
      · exact fresh earlier another later
      · exact absurd before (Nat.lt_irrefl _)

theorem Firsts.repeated (firsts : Firsts declares origins)
    (appends : Appends declares more size declaration)
    (known : ∃ origin ∈ origins, origin.2.name = declaration.name) : Firsts more origins := by
  obtain ⟨earlier, other, declared, same⟩ := (firsts.names _).mp known
  refine ⟨firsts.ordered, fun address another => ?_⟩
  rw [firsts.mem_iff, appends.isFirst_iff]
  exact ⟨.inl, Or.rec id fun ⟨_, fresh⟩ => absurd same (fresh earlier other declared)⟩

theorem Firsts.append (firsts : Firsts declares origins)
    (appends : Appends declares more size declaration)
    (fresh : ¬ ∃ origin ∈ origins, origin.2.name = declaration.name) :
    Firsts more (origins ++ [(size, declaration)]) := by
  have fresh : ∀ earlier other, declares earlier other → other.name ≠ declaration.name :=
    fun earlier other declared same => fresh ((firsts.names _).mpr ⟨earlier, other, declared, same⟩)
  constructor
  · refine List.pairwise_append.mpr ⟨firsts.ordered, List.pairwise_singleton _ _, ?_⟩
    intro origin member last isLast
    cases List.mem_singleton.mp isLast
    exact appends.behind _ _ ((firsts.mem_iff origin.1 origin.2).mp member).1
  · intro address other
    rw [List.mem_append, firsts.mem_iff, appends.isFirst_iff, List.mem_singleton, Prod.mk.injEq,
      and_iff_left fresh]

end Firsts

namespace Draft

/-! ### Open methods -/

def statement? (draft : Draft) (address : Nat) : Option Statement :=
  draft.commands[address]?.map (·.statement)

def push (draft : Draft) (command : Command) : Draft :=
  { draft with commands := draft.commands.push command }

/-- What a statement makes of a draft. -/
inductive Grows (draft : Draft) (line : Nat) : Statement → Draft → Prop
  | opens {statement : Statement} {block : Block} {pairing : Pairing}
      (opens : statement.opens? = some block)
      (items : pairing.opened.items =
        ⟨draft.commands.size, block, some line⟩ :: draft.pairing.opened.items)
      (targets : pairing.targets = draft.pairing.targets) :
      Grows draft line statement { draft with
        pairing, parameters := statement.parameterNames?.toList ++ draft.parameters }
  | turns {pairing : Pairing} {start : Nat} {line' : Option Nat} {below : List Opening}
      (items : draft.pairing.opened.items = ⟨start, .ifBlock, line'⟩ :: below)
      (items' : pairing.opened.items = ⟨draft.commands.size, .elseBlock, some line⟩ :: below)
      (targets : pairing.targets = draft.pairing.targets.insert start draft.commands.size) :
      Grows draft line .otherwise { draft with pairing }
  | ends {block : Block} {pairing : Pairing} {top : Opening}
      (closes : block.closes top.block = true)
      (items : draft.pairing.opened.items = top :: pairing.opened.items)
      (targets : pairing.targets = draft.pairing.targets.insert top.address draft.commands.size) :
      Grows draft line (.endOf block) { draft with
        pairing,
        parameters := if block = .methodBlock then draft.parameters.tail else draft.parameters }
  | declares (declaration : Declaration) :
      Grows draft line (.declare declaration) (draft.declare declaration)
  | stays {statement : Statement} (plain : statement.opens? = none)
      (other : ∀ declaration, statement ≠ .declare declaration) : Grows draft line statement draft

variable {draft after : Draft} {line : Nat} {statement : Statement}

theorem grows_of_link (linked : draft.link line statement = .ok after) :
    draft.Grows line statement after := by
  have opens {block : Block} {parameters : List (List String)}
      (opens : statement.opens? = some block)
      (names : parameters = statement.parameterNames?.toList ++ draft.parameters)
      (linked : (do
        let pairing ← draft.pairing.openBlock ⟨draft.commands.size, block, some line⟩
        return { draft with pairing, parameters } : Except Error Draft) = .ok after) :
      draft.Grows line statement after := by
    obtain ⟨pairing, opened, same⟩ := bind_eq_ok.mp linked
    cases same
    subst names
    obtain ⟨items, targets, -⟩ := Pairing.openBlock_ok _ _ _ opened
    exact .opens opens items targets
  cases statement with
  | declare declaration =>
      cases linked
      exact .declares declaration
  | array | poke | peek | call | draw | write =>
      cases linked
      exact .stays rfl (by simp)
  | ifThen | whileDo | forNext => exact opens rfl rfl linked
  | method signature => exact opens rfl rfl linked
  | otherwise =>
      obtain ⟨pairing, opened, same⟩ := bind_eq_ok.mp linked
      cases same
      obtain ⟨start, line', below, items, items', targets, -⟩ := Pairing.openElse_ok _ _ _ _ opened
      exact .turns items items' targets
  | endOf block =>
      obtain ⟨pairing, ended, same⟩ := bind_eq_ok.mp linked
      cases same
      obtain ⟨top, below, items, closes, rfl, targets, -⟩ := Pairing.endBlock_ok _ _ _ _ _ ended
      exact .ends closes items targets

theorem statement?_push (draft : Draft) (command : Command) (address : Nat) :
    (draft.push command).statement? address =
      if address = draft.commands.size then some command.statement
      else draft.statement? address := by
  simp only [statement?, push, Array.getElem?_push]
  split <;> rfl

theorem lt_of_statement? {address : Nat} (found : draft.statement? address = some statement) :
    address < draft.commands.size := by
  rw [statement?, Option.map_eq_some_iff] at found
  obtain ⟨command, found, -⟩ := found
  exact (Array.getElem?_eq_some_iff.mp found).1

theorem Grows.statement? (grows : draft.Grows line statement after) (address : Nat) :
    (after.push ⟨line, statement⟩).statement? address =
      if address = draft.commands.size then some statement else draft.statement? address := by
  have commands : after.commands = draft.commands := by
    cases grows with
    | declares declaration => exact (draft.declare_pairing declaration).2
    | _ => rfl
  rw [statement?_push, commands, Draft.statement?, commands]
  rfl

def namesOf? (draft : Draft) (opening : Opening) : Option (List String) :=
  (draft.statement? opening.address).bind Statement.parameterNames?

/-- The two stacks agree: the open blocks are those of the statements that opened them, and the
parameters are those of the methods among them. What is closed was closed before. -/
structure Tracks (draft : Draft) : Prop where
  opened : ∀ opening ∈ draft.pairing.opened.items, ∃ statement,
    draft.statement? opening.address = some statement ∧ statement.opens? = some opening.block
  parameters : draft.parameters = draft.pairing.opened.items.filterMap draft.namesOf?
  closed : ∀ first last : Nat, draft.pairing.targets[first]? = some last →
    last < draft.commands.size

theorem tracks_empty : Draft.empty.Tracks := by
  refine ⟨?_, rfl, ?_⟩ <;> simp [Draft.empty, Pairing.empty, Stack.ofOverflow, Stack.withLimit]

theorem parameterNames?_of_opens {block : Block} (opens : statement.opens? = some block) :
    statement.parameterNames?.isSome = true ↔ block = .methodBlock := by
  cases statement <;> cases opens <;> simp [Statement.parameterNames?]

namespace Tracks

variable {opening : Opening}

theorem namesOf?_isSome (tracks : draft.Tracks) (member : opening ∈ draft.pairing.opened.items) :
    (draft.namesOf? opening).isSome = true ↔ opening.block = .methodBlock := by
  obtain ⟨statement, found, opens⟩ := tracks.opened opening member
  rw [namesOf?, found]
  exact parameterNames?_of_opens opens

theorem statement?_opened (tracks : draft.Tracks) (command : Command)
    (member : opening ∈ draft.pairing.opened.items) :
    (draft.push command).statement? opening.address = draft.statement? opening.address := by
  obtain ⟨statement, found, -⟩ := tracks.opened opening member
  rw [statement?_push, if_neg (Nat.ne_of_lt (lt_of_statement? found))]

theorem opened_push (tracks : draft.Tracks) (command : Command)
    (member : opening ∈ draft.pairing.opened.items) : ∃ statement,
      (draft.push command).statement? opening.address = some statement ∧
        statement.opens? = some opening.block := by
  rw [tracks.statement?_opened command member]
  exact tracks.opened opening member

theorem filterMap_push (tracks : draft.Tracks) (command : Command) {openings : List Opening}
    (listed : openings ⊆ draft.pairing.opened.items) :
    openings.filterMap (draft.push command).namesOf? = openings.filterMap draft.namesOf? := by
  refine List.filterMap_congr fun opening member => ?_
  rw [namesOf?, tracks.statement?_opened command (listed member), namesOf?]

theorem parameters_below (tracks : draft.Tracks) {below : List Opening}
    (items : draft.pairing.opened.items = opening :: below) :
    below.filterMap draft.namesOf? =
      if opening.block = .methodBlock then draft.parameters.tail else draft.parameters := by
  have isMethod := tracks.namesOf?_isSome (items ▸ List.mem_cons_self)
  rw [tracks.parameters, items, List.filterMap_cons]
  cases found : draft.namesOf? opening with
  | none =>
      rw [found] at isMethod
      rw [if_neg fun method => Bool.false_ne_true (isMethod.mpr method)]
  | some names =>
      rw [found] at isMethod
      rw [if_pos (isMethod.mp rfl), List.tail_cons]

theorem build (tracks : draft.Tracks) {pairing : Pairing} {parameters : List (List String)}
    (opened : ∀ opening ∈ pairing.opened.items, opening ∈ draft.pairing.opened.items ∨
      opening.address = draft.commands.size ∧ statement.opens? = some opening.block)
    (names : parameters =
      pairing.opened.items.filterMap (draft.push ⟨line, statement⟩).namesOf?)
    (targets : pairing.targets = draft.pairing.targets ∨
      ∃ start, pairing.targets = draft.pairing.targets.insert start draft.commands.size) :
    ({ draft with pairing, parameters }.push ⟨line, statement⟩).Tracks := by
  refine ⟨?_, names, ?_⟩
  · intro opening member
    rcases opened opening member with member | ⟨place, opens⟩
    · exact tracks.opened_push ⟨line, statement⟩ member
    · exact ⟨statement, (statement?_push draft ⟨line, statement⟩ _).trans (if_pos place), opens⟩
  · intro first last found
    change pairing.targets[first]? = some last at found
    change last < (draft.commands.push _).size
    rw [Array.size_push]
    rcases targets with same | ⟨start, same⟩
    · rw [same] at found
      exact Nat.lt_succ_of_lt (tracks.closed first last found)
    · rw [same, Std.ExtTreeMap.getElem?_insert] at found
      split at found
      · cases found
        exact Nat.lt_succ_self _
      · exact Nat.lt_succ_of_lt (tracks.closed first last found)

theorem push (tracks : draft.Tracks) (command : Command) : (draft.push command).Tracks :=
  tracks.build (fun _ => .inl)
    (tracks.parameters.trans (tracks.filterMap_push command (List.Subset.refl _)).symm) (.inl rfl)

theorem declare (tracks : draft.Tracks) (declaration : Declaration) :
    (draft.declare declaration).Tracks := by
  unfold Draft.declare
  split
  · exact tracks
  · exact ⟨tracks.opened, tracks.parameters, tracks.closed⟩

theorem grows (tracks : draft.Tracks) (grows : draft.Grows line statement after) :
    (after.push ⟨line, statement⟩).Tracks := by
  have new {block : Block} : (draft.push ⟨line, statement⟩).namesOf?
      ⟨draft.commands.size, block, some line⟩ = statement.parameterNames? := by
    rw [namesOf?, statement?_push, if_pos rfl]
    rfl
  cases grows with
  | @opens _ block pairing opens items targets =>
      refine tracks.build ?_ ?_ (.inl targets)
      · rw [items]
        exact List.forall_mem_cons.mpr ⟨.inr ⟨rfl, opens⟩, fun _ => .inl⟩
      · rw [items, List.filterMap_cons, new, tracks.filterMap_push _ (List.Subset.refl _),
          tracks.parameters]
        cases statement.parameterNames? <;> rfl
  | @turns pairing start line' below items items' targets =>
      refine tracks.build ?_ ?_ (.inr ⟨start, targets⟩)
      · rw [items', items]
        exact List.forall_mem_cons.mpr ⟨.inr ⟨rfl, rfl⟩, fun _ member => .inl (.tail _ member)⟩
      · have left := tracks.parameters_below items
        rw [if_neg (by simp)] at left
        have listed : below ⊆ draft.pairing.opened.items := items ▸ List.subset_cons_self _ _
        rw [items', List.filterMap_cons, new, tracks.filterMap_push _ listed, left]
        rfl
  | @ends block pairing top closes items targets =>
      have listed : pairing.opened.items ⊆ draft.pairing.opened.items :=
        items ▸ List.subset_cons_self _ _
      refine tracks.build (fun _ member => .inl (listed member)) ?_ (.inr ⟨top.address, targets⟩)
      have same : block = .methodBlock ↔ top.block = .methodBlock := by
        revert closes
        cases block <;> cases top.block <;> decide
      rw [tracks.filterMap_push _ listed, tracks.parameters_below items]
      simp only [same]
  | declares declaration => exact (tracks.declare declaration).push _
  | stays plain other => exact tracks.push _

end Tracks

/-! ### Parameters of a place -/

/-- The block opened at the first address is open at the second one: it is still open now, or it was
closed there or later. -/
def Surrounds (draft : Draft) (first address : Nat) : Prop :=
  first < address ∧ ((∃ opening ∈ draft.pairing.opened.items, opening.address = first) ∨
    ∃ last : Nat, draft.pairing.targets[first]? = some last ∧ address ≤ last)

def HasParameter (draft : Draft) (address : Nat) (name : String) : Prop :=
  ∃ first signature, draft.statement? first = some (.method signature) ∧
    draft.Surrounds first address ∧ name ∈ signature.parameters.map (·.name)

theorem surrounds_grows (tracks : draft.Tracks) (grows : draft.Grows line statement after)
    {first address : Nat} {signature : Signature} (before : address ≤ draft.commands.size)
    (found : draft.statement? first = some (.method signature)) :
    after.Surrounds first address ↔ draft.Surrounds first address := by
  have old : draft.commands.size ≠ first := Nat.ne_of_gt (lt_of_statement? found)
  refine and_congr_right fun inside => ?_
  cases grows with
  | opens opens items targets =>
      simp only [items, targets, List.mem_cons, exists_eq_or_imp, old, false_or]
  | @turns pairing start line' below items items' targets =>
      -- The block that ends here is no method.
      have other : start ≠ first := by
        rintro rfl
        obtain ⟨statement, found', opens⟩ := tracks.opened _ (items ▸ List.mem_cons_self)
        rw [found] at found'
        cases found'
        cases opens
      simp only [items, items', targets, List.mem_cons, exists_eq_or_imp, old, other, false_or,
        Links.getElem?_insert_of_ne other]
  | @ends block pairing top closes items targets =>
      by_cases same : top.address = first
      · simp [items, targets, same, before]
      · simp only [items, targets, List.mem_cons, exists_eq_or_imp, same, false_or,
          Links.getElem?_insert_of_ne same]
  | declares declaration => rw [(draft.declare_pairing declaration).1]
  | stays plain other => rfl

theorem hasParameter_grows (tracks : draft.Tracks) (grows : draft.Grows line statement after)
    {address : Nat} (before : address ≤ draft.commands.size) (name : String) :
    (after.push ⟨line, statement⟩).HasParameter address name ↔ draft.HasParameter address name := by
  have same {first : Nat} (inside : first < address) :
      (after.push ⟨line, statement⟩).statement? first = draft.statement? first := by
    rw [grows.statement?, if_neg (by omega)]
  constructor
  · rintro ⟨first, signature, found, surrounds, member⟩
    rw [same surrounds.1] at found
    have surrounds := (surrounds_grows tracks grows before found).mp surrounds
    exact ⟨first, signature, found, surrounds, member⟩
  · rintro ⟨first, signature, found, surrounds, member⟩
    refine ⟨first, signature, ?_, (surrounds_grows tracks grows before found).mpr surrounds, member⟩
    rw [same surrounds.1, found]

theorem hasParameter_iff (tracks : draft.Tracks) (name : String) :
    draft.HasParameter draft.commands.size name ↔
      draft.parameters.any (·.contains name) = true := by
  simp only [tracks.parameters, List.any_eq_true, List.mem_filterMap, List.contains_iff_mem]
  constructor
  · rintro ⟨first, signature, found, ⟨-, opened | ⟨last, closed, after⟩⟩, member⟩
    · obtain ⟨opening, listed, rfl⟩ := opened
      refine ⟨_, ⟨opening, listed, ?_⟩, member⟩
      rw [namesOf?, found]
      rfl
    · exact absurd (tracks.closed first last closed) (Nat.not_lt.mpr after)
  · rintro ⟨names, ⟨opening, listed, introduced⟩, member⟩
    obtain ⟨statement, found, introduced⟩ := Option.bind_eq_some_iff.mp introduced
    cases statement with
    | method signature =>
        cases introduced
        exact ⟨opening.address, signature, found,
          ⟨lt_of_statement? found, .inl ⟨opening, listed, rfl⟩⟩, member⟩
    | _ => cases introduced

/-! ### Collecting seeds -/

structure DeclaresFree (draft : Draft) (address : Nat) (declaration : Declaration) : Prop where
  stands : draft.statement? address = some (.declare declaration)
  free : ¬ draft.HasParameter address declaration.name

/-- The draft has a seed for each first declaration of a name. -/
structure Collects (draft : Draft) (origins : List (Nat × Declaration)) : Prop where
  firsts : Firsts draft.DeclaresFree origins
  seeds : draft.seeds.toList = origins.map fun origin => seed origin.2

theorem declaresFree_grows (tracks : draft.Tracks) (grows : draft.Grows line statement after)
    (address : Nat) (declaration : Declaration) :
    (after.push ⟨line, statement⟩).DeclaresFree address declaration ↔
      draft.DeclaresFree address declaration ∨ address = draft.commands.size ∧
        statement = .declare declaration ∧
        ¬ draft.HasParameter draft.commands.size declaration.name := by
  have gone : ¬ draft.DeclaresFree draft.commands.size declaration :=
    fun declares => Nat.lt_irrefl _ (lt_of_statement? declares.stands)
  by_cases last : address = draft.commands.size
  · subst last
    have stands := grows.statement? draft.commands.size
    rw [if_pos rfl] at stands
    have free := hasParameter_grows tracks grows (Nat.le_refl _) declaration.name
    constructor
    · rintro ⟨stands', free'⟩
      exact .inr ⟨rfl, Option.some.inj (stands.symm.trans stands'), free.not.mp free'⟩
    · rintro (declares | ⟨-, rfl, free'⟩)
      · exact absurd declares gone
      · exact ⟨stands, free.not.mpr free'⟩
  · have stands := grows.statement? address
    rw [if_neg last] at stands
    have free {other : Statement} (found : draft.statement? address = some other) :=
      hasParameter_grows tracks grows (Nat.le_of_lt (lt_of_statement? found)) declaration.name
    constructor
    · rintro ⟨found, free'⟩
      rw [stands] at found
      exact .inl ⟨found, (free found).not.mp free'⟩
    · rintro (⟨found, free'⟩ | ⟨same, -⟩)
      · exact ⟨stands.trans found, (free found).not.mpr free'⟩
      · exact absurd same last

theorem Collects.known {origins : List (Nat × Declaration)} (collects : draft.Collects origins)
    (name : String) :
    draft.seeds.any (·.1 == name) = true ↔ ∃ origin ∈ origins, origin.2.name = name := by
  rw [← Array.any_toList, collects.seeds, List.any_map, List.any_eq_true]
  simp [seed]

theorem Collects.declares {origins : List (Nat × Declaration)} {declaration : Declaration}
    (collects : draft.Collects origins) (tracks : draft.Tracks) :
    ∃ origins,
      ((draft.declare declaration).push ⟨line, .declare declaration⟩).Collects origins := by
  have grows : draft.Grows line (.declare declaration) (draft.declare declaration) :=
    .declares declaration
  by_cases parameter : draft.parameters.any (·.contains declaration.name) = true
  · refine ⟨origins, collects.firsts.congr fun address other => ?_, ?_⟩
    · rw [declaresFree_grows tracks grows, or_iff_left]
      rintro ⟨-, same, free⟩
      cases same
      exact free ((hasParameter_iff tracks _).mpr parameter)
    · rw [Draft.declare, parameter, Bool.true_or, if_pos rfl]
      exact collects.seeds
  · have appends : Appends draft.DeclaresFree
        ((draft.declare declaration).push ⟨line, .declare declaration⟩).DeclaresFree
        draft.commands.size declaration := by
      refine ⟨fun address other declared => lt_of_statement? declared.stands, ?_⟩
      intro address other
      rw [declaresFree_grows tracks grows]
      refine or_congr_right (and_congr_right fun _ => ⟨?_, ?_⟩)
      · rintro ⟨same, -⟩
        cases same
        rfl
      · rintro rfl
        exact ⟨rfl, (hasParameter_iff tracks _).not.mpr parameter⟩
    by_cases known : draft.seeds.any (·.1 == declaration.name) = true
    · refine ⟨origins, collects.firsts.repeated appends ((collects.known _).mp known), ?_⟩
      rw [Draft.declare, known, Bool.or_true, if_pos rfl]
      exact collects.seeds
    · refine ⟨_, collects.firsts.append appends ((collects.known _).not.mp known), ?_⟩
      rw [Draft.declare, Bool.eq_false_iff.mpr parameter, Bool.eq_false_iff.mpr known, Bool.or_self,
        if_neg Bool.false_ne_true]
      change (draft.seeds.push _).toList = _
      rw [Array.toList_push, collects.seeds, List.map_append]
      rfl

theorem Collects.grows {origins : List (Nat × Declaration)} (collects : draft.Collects origins)
    (tracks : draft.Tracks) (grows : draft.Grows line statement after) :
    ∃ origins, (after.push ⟨line, statement⟩).Collects origins := by
  -- What is no declaration leaves the seeds and what is declared as they are.
  have stays (other : ∀ declaration, statement ≠ .declare declaration)
      (seeds : after.seeds = draft.seeds) : (after.push ⟨line, statement⟩).Collects origins := by
    refine ⟨collects.firsts.congr fun address declaration => ?_, seeds ▸ collects.seeds⟩
    rw [declaresFree_grows tracks grows, or_iff_left fun new => other declaration new.2.1]
  cases grows with
  | opens opens => exact ⟨origins, stays (by rintro declaration rfl; cases opens) rfl⟩
  | turns | ends => exact ⟨origins, stays (by simp) rfl⟩
  | declares declaration => exact collects.declares tracks
  | stays plain other => exact ⟨origins, stays other rfl⟩

def Gathers (draft : Draft) : Prop := draft.Tracks ∧ ∃ origins, draft.Collects origins

theorem gathers_empty : Draft.empty.Gathers := by
  refine ⟨tracks_empty, [], ⟨List.Pairwise.nil, fun address declaration => ?_⟩, rfl⟩
  refine iff_of_false (by simp) fun first => ?_
  exact Nat.not_lt_zero _ (lt_of_statement? first.1.stands)

theorem addLine_gathers (draft : Draft) (line : Line) (gathers : draft.Gathers) :
    Gives Gathers (draft.addLine line) := by
  unfold addLine
  split
  · exact .pure gathers
  · obtain ⟨tracks, origins, collects⟩ := gathers
    refine .bind fun statement => .andThen (Gives.itself _) fun after linked => .pure ?_
    have grows := grows_of_link linked
    exact ⟨tracks.grows grows, collects.grows tracks grows⟩

theorem hasParameter_closed (closed : draft.pairing.opened.items = []) (address : Nat)
    (name : String) :
    Program.HasParameter ⟨draft.commands, draft.pairing.targets, draft.pairing.openers, draft.seeds⟩
      address name ↔ draft.HasParameter address name := by
  constructor
  · rintro ⟨method, ⟨stands, target⟩, ⟨before, inside⟩, member⟩
    exact ⟨method.address, method.signature, stands, ⟨before, .inr ⟨method.last, target, inside⟩⟩,
      member⟩
  · rintro ⟨first, signature, stands, ⟨before, opened | ⟨last, target, inside⟩⟩, member⟩
    · rw [closed] at opened
      obtain ⟨opening, listed, -⟩ := opened
      cases listed
    · exact ⟨⟨signature, first, last⟩, ⟨stands, target⟩, ⟨before, inside⟩, member⟩

theorem finish_seeds {program : Program} (gathers : draft.Gathers)
    (finished : draft.finish = .ok program) : ∃ origins, Firsts program.DeclaresFree origins ∧
      program.seeds.toList = origins.map fun origin => seed origin.2 := by
  obtain ⟨-, origins, collects⟩ := gathers
  unfold finish at finished
  obtain ⟨⟨⟨targets, openers⟩, pairing⟩, finished, made⟩ := bind_eq_ok.mp finished
  obtain ⟨closed, tables⟩ := Pairing.finish_ok _ _ _ finished
  cases tables
  cases made
  refine ⟨origins, collects.firsts.congr fun address declaration => ?_, collects.seeds⟩
  have inside (name : String) := hasParameter_closed closed address name
  exact ⟨fun ⟨stands, free⟩ => ⟨stands, (inside _).not.mp free⟩,
    fun ⟨stands, free⟩ => ⟨stands, (inside _).not.mpr free⟩⟩

end Draft

theorem compile_seeds {source : String} {program : Program}
    (compiled : compile source = .ok program) :
    ∃ origins, Firsts program.DeclaresFree origins ∧
      program.seeds.toList = origins.map fun origin => seed origin.2 := by
  obtain ⟨draft, lines, finished⟩ := bind_eq_ok.mp compiled
  exact Draft.finish_seeds
    (Gives.foldlM Draft.addLine_gathers _ _ Draft.gathers_empty draft lines) finished

theorem seed_kind (declaration : Declaration) : (seed declaration).2.kind = declaration.kind := by
  rcases seed_begins declaration with literal | ⟨-, zero⟩
  · exact literal.kind_eq
  · rw [zero, Value.kind_zero]

end Program

namespace Variables

theorem seeded_mem {seeds : List (String × Value)} (distinct : (seeds.map (·.1)).Nodup) :
    Gives (fun vars => ∀ seed ∈ seeds, vars.get? seed.1 = some ⟨seed.2, .global⟩)
      (seeded seeds) := by
  suffices added : ∀ vars : Variables, Gives (fun after =>
      (∀ seed ∈ seeds, after.get? seed.1 = some ⟨seed.2, .global⟩) ∧
        ∀ name, name ∉ seeds.map (·.1) → after.get? name = vars.get? name)
      (seeds.foldlM (fun vars seed => vars.add seed.1 seed.2 .global) vars) from
    fun vars made => (added empty vars made).1
  induction seeds with
  | nil => exact fun vars => .ok ⟨by simp, fun _ _ => rfl⟩
  | cons seed seeds ih =>
      obtain ⟨fresh, distinct⟩ := List.nodup_cons.mp distinct
      intro vars
      rw [List.foldlM_cons]
      refine .andThen (Gives.itself _) fun middle added after made => ?_
      obtain ⟨stored, kept⟩ := ih distinct middle after made
      constructor
      · refine List.forall_mem_cons.mpr ⟨?_, stored⟩
        rw [kept _ fresh, get?_add added, if_pos rfl]
      · intro name other
        rw [List.map_cons, List.mem_cons, not_or] at other
        rw [kept _ other.2, get?_add added, if_neg (Ne.symm other.1)]

theorem seeded_eq_some_iff {seeds : List (String × Value)} {vars : Variables}
    (distinct : (seeds.map (·.1)).Nodup) (made : seeded seeds = .ok vars) (name : String)
    (entry : Entry) :
    vars.get? name = some entry ↔ entry.scope = .global ∧ (name, entry.value) ∈ seeds := by
  constructor
  · exact seeded_get? seeds vars made name entry
  · rintro ⟨scope, member⟩
    rw [seeded_mem distinct vars made _ member, ← scope]

end Variables

namespace Session

/-- The seeds of a program are the declarations of names that are no parameters where they are
declared, the first one of each name, in their order. A run begins with them alone, whatever the
session held before. -/
theorem seeds_are_free_declarations {source : String} {program : Program}
    (compiled : Program.compile source = .ok program) :
    (program.seeds.toList.map (·.1)).Nodup ∧
      (∃ origins, Program.Firsts program.DeclaresFree origins ∧
        List.Forall₂ (fun origin seed => seed.1 = origin.2.name ∧ origin.2.Begins seed.2 ∧
          seed.2.kind = origin.2.kind) origins program.seeds.toList) ∧
      (∀ name, name ∈ program.seeds.toList.map (·.1) ↔
        ∃ address declaration, program.DeclaresFree address declaration ∧ declaration.name = name) ∧
      ∀ session first, session.program = program → start session = .ok () first →
        ∀ name entry, first.vars.get? name = some entry ↔
          entry.scope = .global ∧ (name, entry.value) ∈ program.seeds.toList := by
  obtain ⟨origins, firsts, seeds⟩ := Program.compile_seeds compiled
  have names : program.seeds.toList.map (·.1) = origins.map (·.2.name) := by
    rw [seeds, List.map_map]
    rfl
  have distinct : (program.seeds.toList.map (·.1)).Nodup := names ▸ firsts.nodup
  refine ⟨distinct, ⟨origins, firsts, ?_⟩, fun name => ?_, ?_⟩
  · rw [seeds, List.forall₂_map_right_iff, List.forall₂_same]
    rintro ⟨address, declaration⟩ -
    exact ⟨rfl, Program.seed_begins declaration, Program.seed_kind declaration⟩
  · rw [names, List.mem_map]
    exact firsts.names name
  · intro session first same started
    obtain ⟨vars, made, rfl⟩ := start_seeded started
    rw [same] at made
    exact Variables.seeded_eq_some_iff distinct made

def parametersDeclaredAnew : String :=
  "method int f int a\nreal a = 1\nint b = 7\nmethod real g real b\nboolean a = true\n" ++
    "int b = 3\nend method\nreal b = 2.5\nend method\nreal a = -1.5e1\nboolean c = TRUE\n" ++
    "int d = 1 + 1"

theorem seeds_of_parameters_declared_anew :
    ∃ session first, Program.compile parametersDeclaredAnew = .ok session.program ∧
      start session = .ok () first ∧
      session.program.seeds.toList.map (fun seed => (seed.1, seed.2.kind, seed.2.text)) =
        [("b", .int, "7"), ("a", .real, "-15.0"), ("c", .boolean, "true"), ("d", .int, "0")] ∧
      (session.program.seeds.toList.map (·.1)).Nodup ∧
      (∃ address declaration, session.program.DeclaresFree address declaration ∧
        declaration.name = "a") ∧
      ∀ name entry, first.vars.get? name = some entry ↔
        entry.scope = .global ∧ (name, entry.value) ∈ session.program.seeds.toList := by
  have reached : reaches parametersDeclaredAnew 0 (fun first =>
      first.program.seeds.toList.map (fun seed => (seed.1, seed.2.kind, seed.2.text)) ==
        [("b", .int, "7"), ("a", .real, "-15.0"), ("c", .boolean, "true"), ("d", .int, "0")]) =
      true := by
    decide +kernel
  obtain ⟨session, first, event, last, compiled, started, ran, checked⟩ := exists_of_reaches reached
  cases ran
  rw [start_program started, beq_iff_eq] at checked
  obtain ⟨distinct, -, names, begins⟩ := seeds_are_free_declarations compiled
  have listed : "a" ∈ session.program.seeds.toList.map (·.1) := by
    have names := congrArg (List.map (·.1)) checked
    rw [List.map_map] at names
    exact names ▸ (by decide : "a" ∈ ["b", "a", "c", "d"])
  exact ⟨session, first, compiled, started, checked, distinct, (names "a").mp listed,
    begins session first rfl started⟩

end Session

end Easel
