import Easel.Proofs.Statement.Declaring
import Easel.Proofs.Text.Phrases

/-! What the parts of a statement can hold when it was read from a line. -/

namespace Easel

open Text

namespace Statement

def itemBreak (c : Char) : Bool := isBlank c || c == ','

def cellBreak (c : Char) : Bool := isBlank c || c == ',' || c == '(' || c == ')'

def pokeBreak (c : Char) : Bool := cellBreak c || c == '='

variable {s : List Char}

theorem blank_itemBreak (c : Char) (blank : isBlank c = true) : itemBreak c = true := by
  simp [itemBreak, blank]

theorem blank_cellBreak (c : Char) (blank : isBlank c = true) : cellBreak c = true := by
  simp [cellBreak, blank]

theorem blank_pokeBreak (c : Char) (blank : isBlank c = true) : pokeBreak c = true := by
  rw [pokeBreak, blank_cellBreak c blank, Bool.true_or]

theorem plain_itemBreak (c : Char) (letter : isNameChar c = true) : itemBreak c = false := by
  rw [itemBreak, visible_of_isNameChar letter, Bool.false_or, beq_eq_false_iff_ne]
  rintro rfl
  cases letter

theorem plain_cellBreak (c : Char) (letter : isNameChar c = true) : cellBreak c = false := by
  rw [cellBreak, visible_of_isNameChar letter]
  simp only [Bool.false_or, Bool.or_eq_false_iff, beq_eq_false_iff_ne]
  refine ⟨⟨?_, ?_⟩, ?_⟩ <;> rintro rfl <;> cases letter

theorem plain_pokeBreak (c : Char) (letter : isNameChar c = true) : pokeBreak c = false := by
  rw [pokeBreak, plain_cellBreak c letter, Bool.false_or, beq_eq_false_iff_ne]
  rintro rfl
  cases letter

theorem token_item : Token itemBreak s ↔ Token isBlank s ∧ Token comma s := by
  constructor
  · intro token
    exact ⟨token.mono fun c plain => (Bool.or_eq_false_iff.mp plain).1,
      token.mono fun c plain => (Bool.or_eq_false_iff.mp plain).2⟩
  · rintro ⟨visible, token⟩
    exact ⟨token.filled, fun c member =>
      Bool.or_eq_false_iff.mpr ⟨visible.plain c member, token.plain c member⟩⟩

theorem token_poke : Token pokeBreak s ↔ Token cellBreak s ∧ '=' ∉ s := by
  constructor
  · intro token
    refine ⟨token.mono fun c plain => (Bool.or_eq_false_iff.mp plain).1, fun member => ?_⟩
    cases token.plain '=' member
  · rintro ⟨token, absent⟩
    refine ⟨token.filled, fun c member => Bool.or_eq_false_iff.mpr ⟨token.plain c member, ?_⟩⟩
    rw [beq_eq_false_iff_ne]
    rintro rfl
    exact absent member

/-- A word of a `peek`: the sign `=` is always one by itself, and the keyword does not count. -/
structure PeekWord (s : List Char) : Prop where
  token : Token cellBreak s
  alone : s = ['='] ∨ '=' ∉ s
  other : sameWord s "peek".toList = false

/-- What is taken for the variable of a loop. -/
structure LoopName (s : List Char) : Prop where
  begins : s.head?.any ForHeader.isLetter = true
  inside : s.all ForHeader.isLetterOrDigit = true

/-- Every part of the statement is as its reader cuts it out of a line. -/
def Fits : Statement → Prop
  | declare d => d.kind ≠ .array ∧ isName d.name.toList = true ∧ Phrase d.expression.toList
  | array a => (a.kind = .int ∨ a.kind = .real) ∧ isName a.name.toList = true ∧
      Token cellBreak a.rows.toList ∧
      ∀ columns, a.columns = some columns → Token cellBreak columns.toList
  | poke p => isName p.array.toList = true ∧ Token pokeBreak p.row.toList ∧
      Token pokeBreak p.column.toList ∧ Phrase p.value.toList
  | peek p => isName p.target.toList = true ∧ isName p.array.toList = true ∧
      PeekWord p.target.toList ∧ PeekWord p.array.toList ∧ PeekWord p.row.toList ∧
      PeekWord p.column.toList
  | ifThen condition => Phrase condition.toList
  | otherwise => True
  | whileDo condition => Phrase condition.toList
  | forNext h => LoopName h.counter.toList ∧ Token comma h.start.toList ∧
      Token comma h.limit.toList ∧ Token comma h.step.toList
  | endOf _ => True
  | method m => m.returns ≠ .array ∧ isName m.name.toList = true ∧
      ∀ p ∈ m.parameters, Token itemBreak p.kind.toList ∧ isName p.name.toList = true
  | call name arguments => isName name.toList = true ∧
      ∀ argument ∈ arguments, Token itemBreak argument.toList
  | draw _ arguments => ∀ argument ∈ arguments,
      Phrase argument.toList ∧ Token comma argument.toList
  | write expression => Phrase expression.toList

theorem name_gives (word : List Char) :
    Gives (fun given => isName given.toList = true ∧ given.toList = word) (name word) := by
  intro given found
  obtain ⟨named, same⟩ := name_eq_ok found
  exact ⟨same ▸ named, same⟩

theorem readDeclaration_fits (kind : Kind) (scalar : kind ≠ .array) (s : List Char) :
    Gives Fits (readDeclaration kind s) := by
  unfold readDeclaration
  split
  · refine .andThen (name_gives _) fun name named => ?_
    dsimp only
    split
    · exact .error
    · rename_i filled
      refine .pure ⟨scalar, named.1, ?_⟩
      rw [String.toList_ofList]
      exact phrase_trim (by simpa using filled)
  · have named : ∀ word, Gives (fun given : String => isName given.toList = true) (name word) :=
      fun word given found => (name_gives word given found).1
    refine .andThen (.mapM named _) fun names all => ?_
    split
    · exact .error
    · rename_i first extra
      refine .pure ⟨scalar, all first List.mem_cons_self, ?_⟩
      dsimp only
      split
      · exact ⟨nofun, by rintro c ⟨⟩; rfl, by rintro c ⟨⟩; rfl⟩
      · exact ⟨nofun, by rintro c ⟨⟩; rfl, by rintro c ⟨⟩; rfl⟩

theorem readArray_fits (s : List Char) : Gives Fits (readArray s) := by
  have tokens : ∀ word ∈ cells s, Token cellBreak word := fun word => token_of_mem_fields
  unfold readArray
  split
  rename_i kind rest found
  have parts : (kind = .int ∨ kind = .real) ∧ ∀ word ∈ rest, Token cellBreak word := by
    split at found
    · cases found
      exact ⟨.inl rfl, nofun⟩
    · rename_i word others listed
      rw [listed] at tokens
      have inner : ∀ word ∈ others, Token cellBreak word := fun word member =>
        tokens word (List.mem_cons_of_mem _ member)
      split at found
      · cases found
        exact ⟨.inl rfl, inner⟩
      · cases found
        exact ⟨.inr rfl, inner⟩
      · cases found
        exact ⟨.inl rfl, tokens⟩
  obtain ⟨kinds, tokens⟩ := parts
  split
  · exact .error
  · exact .error
  · rename_i word rows
    refine .andThen (name_gives word) fun name named => .pure ⟨kinds, named.1, ?_, nofun⟩
    rw [String.toList_ofList]
    exact tokens rows (by simp)
  · rename_i word rows columns
    refine .andThen (name_gives word) fun name named => .pure ⟨kinds, named.1, ?_, ?_⟩
    · rw [String.toList_ofList]
      exact tokens rows (by simp)
    · rintro _ ⟨⟩
      rw [String.toList_ofList]
      exact tokens columns (by simp)
  · exact .error

theorem cell?_eq_some {words : List (List Char)} {word : List Char} {row column : String}
    {good : List Char → Prop} (found : cell? words = some (word, row, column))
    (all : ∀ word ∈ words, good word) (zero : good ['0']) :
    good word ∧ good row.toList ∧ good column.toList := by
  unfold cell? at found
  split at found
  · cases found
    rw [List.forall_mem_cons, List.forall_mem_singleton] at all
    exact ⟨all.1, by rw [String.toList_ofList]; exact all.2, zero⟩
  · cases found
    rw [List.forall_mem_cons, List.forall_mem_cons, List.forall_mem_singleton] at all
    rw [String.toList_ofList, String.toList_ofList]
    exact all
  · cases found

theorem readPoke_fits (s : List Char) : Gives Fits (readPoke s) := by
  have tokens {left : List Char} (absent : '=' ∉ left) :
      ∀ word ∈ cells left, Token pokeBreak word := by
    intro word member
    exact token_poke.mpr ⟨token_of_mem_fields member,
      fun inside => absent (mem_of_mem_fields member inside)⟩
  unfold readPoke
  extract_lets finish
  have each (found : List (List Char) × List Char)
      (words : ∀ word ∈ found.1, Token pokeBreak word) (value : Phrase found.2) :
      Gives Fits (finish found) := by
    unfold finish
    split
    split
    · rename_i word row column cell
      obtain ⟨-, inRow, inColumn⟩ := cell?_eq_some cell words ⟨nofun, by simp; rfl⟩
      refine .andThen (name_gives word) fun name named => .pure ⟨named.1, inRow, inColumn, ?_⟩
      rw [String.toList_ofList]
      exact value
    · exact .error
  split
  · rename_i left right cut
    split
    · exact .error
    · rename_i filled
      exact each (cells left, trim right) (tokens (not_mem_of_cut cut))
        (phrase_trim (by simpa using filled))
  · rename_i uncut
    have all := tokens (not_mem_of_uncut uncut)
    split
    · rename_i value last
      exact each ((cells s).dropLast, value)
        (fun word member => all word (List.dropLast_subset _ member))
        ((all value (List.mem_of_getLast? last)).phrase blank_pokeBreak)
    · exact .error

def parted (s : List Char) : List Char :=
  s.flatMap fun c => if c == '=' then [' ', '=', ' '] else [c]

theorem split_parted (s : List Char) : ∃ first rest, split cellBreak (parted s) = first :: rest ∧
    '=' ∉ first ∧ ∀ piece ∈ rest, piece = ['='] ∨ '=' ∉ piece := by
  induction s with
  | nil => exact ⟨[], [], rfl, nofun, nofun⟩
  | cons c s ih =>
      obtain ⟨first, rest, found, begins, others⟩ := ih
      have both : ∀ piece ∈ first :: rest, piece = ['='] ∨ '=' ∉ piece :=
        List.forall_mem_cons.mpr ⟨.inr begins, others⟩
      by_cases sign : c = '='
      · subst sign
        refine ⟨[], ['='] :: first :: rest, ?_, nofun, List.forall_mem_cons.mpr ⟨.inl rfl, both⟩⟩
        change split cellBreak (' ' :: '=' :: ' ' :: parted s) = _
        rw [split_separator rfl, split_other rfl, split_separator rfl, found]
        rfl
      · have plain : parted (c :: s) = c :: parted s := by
          simp [parted, sign]
        rw [plain]
        cases cuts : cellBreak c with
        | true => exact ⟨[], first :: rest, by rw [split_separator cuts, found], nofun, both⟩
        | false =>
            refine ⟨c :: first, rest, by rw [split_other cuts, found]; rfl, ?_, others⟩
            rw [List.mem_cons]
            rintro (rfl | inside)
            · exact sign rfl
            · exact begins inside

theorem peekWord_of_mem {word : List Char} (member : word ∈ peekWords s) : PeekWord word := by
  obtain ⟨inside, other⟩ := List.mem_filter.mp member
  have token : Token cellBreak word := token_of_mem_fields inside
  refine ⟨token, ?_, by simpa using other⟩
  obtain ⟨first, rest, found, begins, others⟩ := split_parted s
  have piece : word ∈ split cellBreak (parted s) := List.mem_of_mem_filter inside
  rw [found] at piece
  rcases List.mem_cons.mp piece with rfl | piece
  · exact .inr begins
  · exact others word piece

theorem readPeek_fits (s : List Char) : Gives Fits (readPeek s) := by
  have all : ∀ word ∈ peekWords s, PeekWord word := fun word => peekWord_of_mem
  have zero : PeekWord ['0'] := ⟨⟨nofun, by simp; rfl⟩, .inr (by decide), by decide⟩
  unfold readPeek
  extract_lets words finish
  have each {target : List Char} {rest : List (List Char)} (isTarget : PeekWord target)
      (others : ∀ word ∈ rest, PeekWord word) : Gives Fits (finish (target, rest)) := by
    unfold finish
    dsimp only
    split
    · rename_i word row column cell
      obtain ⟨isArray, inRow, inColumn⟩ := cell?_eq_some cell others zero
      refine .andThen (name_gives target) fun given named => ?_
      refine .andThen (name_gives word) fun given' named' => .pure ?_
      rw [← named.2] at isTarget
      rw [← named'.2] at isArray
      exact ⟨named.1, named'.1, isTarget, isArray, inRow, inColumn⟩
    · exact .error
  have front : ∀ word ∈ words.takeWhile (· != ['=']), PeekWord word := fun word member =>
    all word (List.takeWhile_subset _ member)
  have back : ∀ word ∈ words.dropWhile (· != ['=']), PeekWord word := fun word member =>
    all word (List.dropWhile_subset _ member)
  split
  · exact .error
  · rename_i target rest taken dropped
    rw [taken, List.forall_mem_cons] at front
    exact each front.1 front.2
  · rename_i head tail sign rest taken dropped
    rw [taken] at front
    rw [dropped, List.forall_mem_cons] at back
    refine each (front _ ?_) back.2
    have last := List.getLast?_cons (a := head) (l := tail)
    rw [last]
    exact List.mem_of_getLast? last

theorem readConditional_fits (block : String → Statement)
    (fits : ∀ condition, Phrase condition.toList → (block condition).Fits) (word : String)
    (trimmed : Trimmed s) : Gives Fits (block <$> readCondition word s) := by
  unfold readCondition
  split
  · exact .error
  · rename_i filled
    refine .ok (fits _ ?_)
    rw [String.toList_ofList]
    exact ⟨by simpa using filled, trimmed⟩

/-! ### Loops -/

theorem loopName_of_isName (named : isName s = true) : LoopName s := by
  have inside : ∀ c, isNameChar c = true → ForHeader.isLetterOrDigit c = true := by
    intro c letter
    rw [isNameChar_iff] at letter
    rcases letter with start | digit
    · simp [ForHeader.isLetterOrDigit, ForHeader.isLetter, start]
    · have same : c.isDigit = Decimal.isDigit c := rfl
      simp [ForHeader.isLetterOrDigit, same, digit]
  refine ⟨?_, ?_⟩
  · cases s with
    | nil => cases named
    | cons c rest =>
        rw [isName, Bool.and_eq_true] at named
        simp [ForHeader.isLetter, named.1]
  · rw [List.all_eq_true]
    intro c member
    exact inside c (isNameChar_of_isName named c member)

theorem LoopName.front {front back : List Char} (isLoopName : LoopName (front ++ back))
    (filled : front ≠ []) : LoopName front := by
  obtain ⟨begins, inside⟩ := isLoopName
  rw [List.head?_append_of_ne_nil front filled] at begins
  rw [List.all_append, Bool.and_eq_true] at inside
  exact ⟨begins, inside.1⟩

theorem token_of_isPlain (filled : s ≠ []) (plain : s.all ForHeader.isPlain = true) :
    Token comma s := by
  refine ⟨filled, fun c member => ?_⟩
  have each := List.all_eq_true.mp plain c member
  rw [ForHeader.isPlain, Bool.and_eq_true, bne_iff_ne] at each
  rw [comma, beq_eq_false_iff_ne]
  exact each.2

theorem bounds?_eq_some {words : List (List Char)} {limit step : List Char}
    (filled : ∀ word ∈ words, word ≠ []) (found : ForHeader.bounds? words = some (limit, step)) :
    Token comma limit ∧ Token comma step := by
  have zero : Token comma ['0'] := ⟨nofun, by simp; rfl⟩
  have one : Token comma ['1'] := ⟨nofun, by simp; rfl⟩
  unfold ForHeader.bounds? at found
  split at found
  · cases found
    exact ⟨zero, one⟩
  · rename_i word bound
    have token (plain : bound.all ForHeader.isPlain = true) : Token comma bound :=
      token_of_isPlain (filled bound (by simp)) plain
    split at found
    · cases found
    · rename_i plain
      rw [Bool.not_eq_true', Bool.not_eq_false] at plain
      split at found
      · cases found
        exact ⟨token plain, one⟩
      · split at found
        · cases found
          exact ⟨zero, token plain⟩
        · cases found
  · rename_i first bound second size
    split at found
    · rename_i fits
      cases found
      simp only [Bool.and_eq_true] at fits
      obtain ⟨⟨⟨-, plain⟩, -⟩, plain'⟩ := fits
      exact ⟨token_of_isPlain (filled limit (by simp)) plain,
        token_of_isPlain (filled step (by simp)) plain'⟩
    · cases found
  · cases found

theorem startingAt?_eq_some {counter : List Char} {header : ForHeader}
    (found : ForHeader.startingAt? counter s = some header) (isLoopName : LoopName counter) :
    (forNext header).Fits := by
  unfold ForHeader.startingAt? at found
  split at found
  · cases found
  · rename_i filled
    rw [Option.map_eq_some_iff] at found
    obtain ⟨⟨limit, step⟩, bounds, rfl⟩ := found
    have inner := bounds?_eq_some (fun word member => (token_of_mem_fields member).filled) bounds
    simp only [Fits, String.toList_ofList]
    exact ⟨isLoopName, token_of_isPlain filled List.all_takeWhile, inner.1, inner.2⟩

theorem ofWords?_eq_some {header : ForHeader} (found : ForHeader.ofWords? s = some header) :
    (forNext header).Fits := by
  unfold ForHeader.ofWords? at found
  extract_lets name after at found
  split at found
  · cases found
  · rename_i begins
    have isLoopName : LoopName name := ⟨by simpa using begins, List.all_takeWhile⟩
    simp only [Option.orElse_eq_orElse, Option.orElse_eq_or, Option.or_eq_some_iff] at found
    rcases found with found | ⟨-, found | ⟨-, found⟩⟩
    · split at found
      · exact startingAt?_eq_some found isLoopName
      · cases found
    · exact startingAt?_eq_some found isLoopName
    · split at found
      · rename_i last next shorter reversed
        rw [List.reverse_eq_iff, List.reverse_cons] at reversed
        rw [reversed] at isLoopName
        exact startingAt?_eq_some found (isLoopName.front (by simp))
      · cases found

theorem readFor_fits (s : List Char) : Gives Fits (readFor s) := by
  have all : ∀ part ∈ ((split comma s).map trim).filter (!·.isEmpty), Token comma part := by
    intro part member
    obtain ⟨member, filled⟩ := List.mem_filter.mp member
    obtain ⟨piece, inside, rfl⟩ := List.mem_map.mp member
    refine ⟨by simpa using filled, fun c present => ?_⟩
    exact (mem_split inside).2 c (mem_of_mem_trim present)
  unfold readFor
  extract_lets finish
  have each (found : PUnit) : Gives Fits (finish found) := by
    unfold finish
    split
    case h_1 | h_2 | h_3 =>
      cases found : ForHeader.ofWords? s with
      | some header => exact .pure (ofWords?_eq_some found)
      | none => exact .error
    · rename_i counter start limit parts
      simp only [parts, List.forall_mem_cons] at all
      refine .andThen (name_gives _) fun name named => .pure ?_
      simp only [Fits, String.toList_ofList]
      exact ⟨loopName_of_isName named.1, all.2.1, all.2.2.1, nofun, by simp; rfl⟩
    · rename_i counter start limit step parts
      simp only [parts, List.forall_mem_cons] at all
      refine .andThen (name_gives _) fun name named => .pure ?_
      simp only [Fits, String.toList_ofList]
      exact ⟨loopName_of_isName named.1, all.2.1, all.2.2.1, all.2.2.2.1⟩
    · exact .error
  split
  · exact .error
  · exact each ()

/-! ### Methods, calls and drawings -/

theorem Lists.piece_of_mem {pieces : List (List Char)} {parameters : List Parameter}
    (lists : Lists pieces parameters) {parameter : Parameter} (member : parameter ∈ parameters) :
    ∃ piece ∈ pieces, words piece = [parameter.kind.toList, parameter.name.toList] := by
  induction lists with
  | nil => cases member
  | skip blank rest ih =>
      obtain ⟨piece, inside, two⟩ := ih member
      exact ⟨piece, List.mem_cons_of_mem _ inside, two⟩
  | take two rest ih =>
      rcases List.mem_cons.mp member with rfl | member
      · exact ⟨_, List.mem_cons_self, two⟩
      · obtain ⟨piece, inside, two⟩ := ih member
        exact ⟨piece, List.mem_cons_of_mem _ inside, two⟩

theorem readParameter_named (earlier : List Parameter) (s : List Char) :
    Gives (fun parameter => isName parameter.name.toList = true) (readParameter earlier s) := by
  unfold readParameter
  split
  · refine .andThen (name_gives _) fun name named => ?_
    dsimp only
    split
    · exact .error
    · exact .pure named.1
  · exact .error

theorem readParameters_fits (s : List Char) :
    Gives (fun parameters => ∀ p ∈ parameters,
      Token itemBreak p.kind.toList ∧ isName p.name.toList = true) (readParameters s) := by
  intro parameters read p member
  constructor
  · obtain ⟨piece, inside, two⟩ := (readParameters_eq_ok read).piece_of_mem member
    have listed : p.kind.toList ∈ words piece := by simp [two]
    have token : Token isBlank p.kind.toList := token_of_mem_fields listed
    refine token_item.mpr ⟨token, token.filled, fun c present => ?_⟩
    exact (mem_split inside).2 c (mem_of_mem_fields listed present)
  · have keeps : ∀ earlier part, (∀ p ∈ earlier, isName p.name.toList = true) →
        Gives (fun parameters => ∀ p ∈ parameters, isName p.name.toList = true)
          (do return earlier ++ [← readParameter earlier part]) := by
      intro earlier part named
      refine .andThen (readParameter_named earlier part) fun parameter isNamed => .pure ?_
      rw [List.forall_mem_append, List.forall_mem_singleton]
      exact ⟨named, isNamed⟩
    exact Gives.foldlM keeps _ [] nofun parameters read p member

theorem readMethod_fits (s : List Char) : Gives Fits (readMethod s) := by
  unfold readMethod
  split
  · extract_lets finish
    have each {kind : Kind} (scalar : kind ≠ .array) : Gives Fits (finish kind) := by
      refine .andThen (name_gives _) fun name named => ?_
      exact .andThen (readParameters_fits _) fun parameters fit => .pure ⟨scalar, named.1, fit⟩
    split
    · exact .error
    · exact .error
    · rename_i kind scalar known
      exact each fun array => scalar array
  · exact .error

theorem readCall_fits (s : List Char) : Gives Fits (readCall s) := by
  unfold readCall
  split
  · exact .error
  · rename_i word arguments listed
    have tokens : ∀ argument ∈ items s, Token itemBreak argument := fun _ => token_of_mem_fields
    rw [listed] at tokens
    refine .andThen (name_gives word) fun name named => .pure ⟨named.1, ?_⟩
    intro argument member
    obtain ⟨chars, inside, rfl⟩ := List.mem_map.mp member
    rw [String.toList_ofList]
    exact tokens chars (List.mem_cons_of_mem _ inside)

theorem readDrawing_fits (drawing : Drawing) (s : List Char) :
    Gives Fits (readDrawing drawing s) := by
  unfold readDrawing
  extract_lets arguments finish check
  split
  · exact .error
  · rename_i filled
    have each : ∀ argument ∈ arguments, Phrase argument ∧ Token comma argument := by
      intro argument member
      have nonempty : argument ≠ [] := by
        rintro rfl
        exact filled (List.any_eq_true.mpr ⟨[], member, rfl⟩)
      unfold arguments at member
      split at member
      · cases member
      · obtain ⟨piece, inside, rfl⟩ := List.mem_map.mp member
        refine ⟨phrase_trim nonempty, nonempty, fun c present => ?_⟩
        exact (mem_split inside).2 c (mem_of_mem_trim present)
    unfold check
    split
    split
    · exact .error
    · refine .pure fun argument member => ?_
      obtain ⟨chars, inside, rfl⟩ := List.mem_map.mp member
      rw [String.toList_ofList]
      exact each chars inside

theorem readWrite_fits (trimmed : Trimmed s) : Gives Fits (readWrite s) := by
  unfold readWrite
  split
  · exact .error
  · rename_i filled
    apply Gives.ok
    rw [Fits, String.toList_ofList]
    exact ⟨by simpa using filled, trimmed⟩

theorem readElse_fits (s : List Char) : Gives Fits (readElse s) := by
  unfold readElse
  split
  · exact .ok trivial
  · exact .error

theorem readEnd_fits (s : List Char) : Gives Fits (readEnd s) := by
  unfold readEnd
  split
  · exact .ok trivial
  · exact .error

theorem commands_fit : ∀ command ∈ commands, ∀ s, Trimmed s → Gives Fits (command.2 s) := by
  simp only [commands, List.forall_mem_cons, List.not_mem_nil, false_imp_iff, implies_true,
    and_true]
  exact ⟨fun s _ => readDeclaration_fits .int (by decide) s,
    fun s _ => readDeclaration_fits .real (by decide) s,
    fun s _ => readDeclaration_fits .boolean (by decide) s, fun s _ => readArray_fits s,
    fun s _ => readPoke_fits s, fun s _ => readPeek_fits s,
    fun _ => readConditional_fits ifThen (fun _ phrase => phrase) "IF",
    fun s _ => readElse_fits s,
    fun _ => readConditional_fits whileDo (fun _ phrase => phrase) "WHILE",
    fun s _ => readFor_fits s, fun s _ => readEnd_fits s, fun s _ => readMethod_fits s,
    fun s _ => readCall_fits s, fun s _ => readDrawing_fits .moveTo s,
    fun s _ => readDrawing_fits .drawTo s, fun s _ => readDrawing_fits .circle s,
    fun s _ => readDrawing_fits .rect s, fun s _ => readDrawing_fits .tri s,
    fun s _ => readDrawing_fits .pen s, fun s _ => readDrawing_fits .pen s,
    fun s _ => readDrawing_fits .clear s, fun _ => readWrite_fits⟩

end Statement

theorem Line.fits_of_statement {line : Line} {statement : Statement}
    (said : line.statement = .ok statement) : statement.Fits := by
  have read := read_of_statement said
  unfold Statement.read at read
  split at read
  · rename_i reader found
    obtain ⟨before, after, listed, _⟩ := List.lookup_eq_some_iff.mp found
    have member : (lowercase line.keyword, reader) ∈ Statement.commands := by simp [listed]
    have trimmed : Trimmed line.parameters.toList := by
      rw [Line.parameters, String.toList_ofList]
      exact trimmed_trim _
    exact Statement.commands_fit _ member _ trimmed statement read
  · split at read <;> cases read

end Easel
