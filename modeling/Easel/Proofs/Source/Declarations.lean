import Mathlib.Data.List.Infix
import Easel.Source
import Easel.Proofs.Statement.Declaring

/-! The kinds that are kept for the names in a line, next to what the line declares as a statement.
They are found by rules of their own, and do not always agree. -/

namespace Easel

theorem Kind.ofKeyword?_eq_some {word : String} {kind : Kind} :
    Kind.ofKeyword? word = some kind ↔ lowercase word = kind.keyword := by
  constructor
  · intro found
    unfold Kind.ofKeyword? at found
    have same := List.find?_some found
    exact (beq_iff_eq.mp same).symm
  · intro same
    rw [Kind.ofKeyword?, same]
    cases kind <;> decide

namespace Source

open Text Statement

theorem Kinds.getElem?_insert (kinds : Kinds) (name other : String) (kind : Kind) :
    (kinds.insert name kind)[other]? = if name = other then some kind else kinds[other]? := by
  rw [Std.ExtTreeMap.getElem?_insert]
  simp only [Std.compare_eq_iff_eq]

/-! ### Variables -/

def isBreak (c : Char) : Bool := isBlank c || c == '=' || c == ','

/-- The name is the first word in the line that is not the kind. -/
def Foremost (line : Line) (name : String) : Prop :=
  ∃ front back, line.parameters.toList = front ++ (name.toList ++ back) ∧
    IsWord isBreak front name.toList back ∧
    (∀ word ∈ fields isBreak front, sameWord word line.keyword.toList = true) ∧
    sameWord name.toList line.keyword.toList = false

variable {line : Line} {declaration : Declaration}

theorem foremost_iff {name : String} : Foremost line name ↔
    (fields isBreak line.parameters.toList).find? (!sameWord · line.keyword.toList) =
      some name.toList := by
  rw [List.find?_eq_some_iff_append]
  constructor
  · rintro ⟨front, back, whole, isWord, kinds, other⟩
    refine ⟨by simp [other], fields isBreak front, fields isBreak back, ?_, ?_⟩
    · rw [whole, isWord.fields_eq]
    · intro word member
      simp [kinds word member]
  · rintro ⟨other, before, after, found, kinds⟩
    obtain ⟨front, back, whole, isWord, rfl, -⟩ := exists_word found
    refine ⟨front, back, whole, isWord, ?_, by simpa using other⟩
    intro word member
    simpa using kinds word member

theorem ofLine_declaration (said : line.statement = .ok (.declare declaration)) :
    Kinds.ofLine ∅ line =
      ((fields isBreak line.parameters.toList).find? (!sameWord · line.keyword.toList)).elim ∅
        fun name => Std.ExtTreeMap.insert ∅ (String.ofList name) declaration.kind := by
  obtain ⟨scalar, keyword, -⟩ := Line.declares said
  have ofDeclaration : Kinds.ofLine ∅ line =
      Kinds.ofDeclaration line.keyword declaration.kind line.parameters.toList ∅ := by
    rw [Kinds.ofLine, Kind.ofKeyword?_eq_some.mpr keyword]
    cases kind : declaration.kind with
    | array => exact absurd kind scalar
    | _ => rfl
  rw [ofDeclaration, Kinds.ofDeclaration]
  unfold isBreak
  split <;> simp [*]

theorem getElem?_ofLine_declaration (said : line.statement = .ok (.declare declaration))
    (name : String) (kind : Kind) : (Kinds.ofLine ∅ line)[name]? = some kind ↔
      kind = declaration.kind ∧ Foremost line name := by
  rw [ofLine_declaration said, foremost_iff]
  cases (fields isBreak line.parameters.toList).find? (!sameWord · line.keyword.toList) with
  | none => simp
  | some word =>
      rw [Option.elim_some, Kinds.getElem?_insert, Option.some_inj]
      by_cases same : word = name.toList
      · simp [same, eq_comm]
      · have other : String.ofList word ≠ name := by
          rintro rfl
          exact same String.toList_ofList.symm
        simp [same, other]

theorem not_break_of_isNameChar {c : Char} (named : isNameChar c = true) : isBreak c = false := by
  simp only [isBreak, Bool.or_eq_false_iff, beq_eq_false_iff_ne]
  refine ⟨⟨visible_of_isNameChar named, ?_⟩, ?_⟩
  · rintro rfl
    cases named
  · rintro rfl
    cases named

theorem not_break_of_kind {word : List Char} {kind : Kind} {c : Char}
    (letters : lower word = kind.keyword.toList) (inside : c ∈ word)
    (visible : isBlank c = false) : isBreak c = false := by
  have member : c.toLower ∈ kind.keyword.toList := by
    rw [← letters]
    exact List.mem_map_of_mem inside
  simp only [isBreak, visible, Bool.false_or, Bool.or_eq_false_iff, beq_eq_false_iff_ne]
  constructor
  · rintro rfl
    cases kind <;> revert member <;> decide
  · rintro rfl
    cases kind <;> revert member <;> decide

theorem fields_kinds {front : List Char} {kind : Kind}
    (letters : ∀ word ∈ words front, lower word = kind.keyword.toList) :
    fields isBreak front = words front := by
  apply fields_congr
  intro c inside
  cases blank : isBlank c with
  | true => simp [isBreak, blank]
  | false =>
      obtain ⟨word, member, letter⟩ := exists_field inside blank
      exact not_break_of_kind (letters word member) letter blank

theorem foremost_of_words {left rest : List Char} {kinds : List (List Char)}
    (said : line.statement = .ok (.declare declaration))
    (whole : line.parameters.toList = left ++ rest)
    (begins : ∀ c, rest.head? = some c → isBreak c = true)
    (found : words left = kinds ++ [declaration.name.toList])
    (same : ∀ word ∈ kinds, sameWord word line.keyword.toList = true)
    (other : sameWord declaration.name.toList line.keyword.toList = false) :
    Foremost line declaration.name := by
  obtain ⟨-, keyword, read⟩ := Line.declares said
  have named := isNameChar_of_isName (readDeclaration_eq_ok read).1
  have breaks : ∀ c, isBlank c = true → isBreak c = true := by
    intro c blank
    simp [isBreak, blank]
  obtain ⟨front, back, rfl, isWord, rfl, -⟩ := exists_word found
  refine ⟨front, back ++ rest, by simp [whole], ⟨isWord.filled, ?_, ?_, ?_⟩, ?_, other⟩
  · intro c member
    exact not_break_of_isNameChar (named c member)
  · intro c last
    exact breaks c (isWord.behind c last)
  · intro c next
    cases back with
    | nil => exact begins c next
    | cons d back =>
        cases next
        exact breaks c (isWord.before c rfl)
  · rw [fields_kinds]
    · exact same
    · intro word member
      rw [← keyword, lowercase, String.toList_ofList]
      exact beq_iff_eq.mp (same word member)

def beforeValue (s : List Char) : List Char :=
  match cut? '=' s with
  | some (left, _) => left
  | none => s.takeWhile (· != ',')

/-- The name stands alone before the value or the other names, but for kinds. -/
def StandsAlone (line : Line) (name : String) : Prop :=
  ∃ kinds, words (beforeValue line.parameters.toList) = kinds ++ [name.toList] ∧
    (∀ word ∈ kinds, sameWord word line.keyword.toList = true) ∧
    sameWord name.toList line.keyword.toList = false

theorem StandsAlone.foremost {name : String} (alone : StandsAlone line name)
    (said : line.statement = .ok (.declare declaration)) :
    declaration.name = name ∧ Foremost line name := by
  obtain ⟨kinds, found, same, other⟩ := alone
  obtain ⟨-, -, read⟩ := Line.declares said
  obtain ⟨named, ⟨left, right, cut, last⟩ | ⟨cut, others, first⟩⟩ := readDeclaration_eq_ok read
  · rw [beforeValue, cut] at found
    have primary : declaration.name = name := by
      rw [← String.toList_inj, ← last, lastWord_of_words found]
    subst primary
    refine ⟨rfl, foremost_of_words said (cut?_eq_some cut) ?_ found same other⟩
    rintro c ⟨⟩
    rfl
  · rw [beforeValue, cut] at found
    change words (line.parameters.toList.takeWhile (!comma ·)) = _ at found
    obtain ⟨_, _, _, isWord, _⟩ := exists_word found
    obtain ⟨rest, pieces⟩ := split_first comma line.parameters.toList
    have primary : declaration.name = name := by
      rw [pieces, List.map_cons, lastWord_of_words found,
        List.filter_cons_of_pos (by simpa using isWord.filled)] at first
      exact String.toList_inj.mp (List.cons.inj first).1.symm
    subst primary
    have whole := List.takeWhile_append_dropWhile (p := (!comma ·)) (l := line.parameters.toList)
    have begins : ∀ c, (line.parameters.toList.dropWhile (!comma ·)).head? = some c →
        isBreak c = true := by
      intro c next
      have separates : comma c = true := separates_of_dropWhile next
      rw [beq_iff_eq.mp separates]
      rfl
    exact ⟨rfl, foremost_of_words said whole.symm begins found same other⟩

/-! ### Methods -/

def Kinds.put (kinds : Kinds) (parameter : Parameter) : Kinds :=
  match Kind.ofKeyword? parameter.kind with
  | some kind => kinds.insert parameter.name kind
  | none => kinds

theorem Kinds.getElem?_put (kinds : Kinds) (parameter : Parameter) (name : String) (kind : Kind) :
    (kinds.put parameter)[name]? = some kind ↔
      parameter.name = name ∧ Kind.ofKeyword? parameter.kind = some kind ∨
      kinds[name]? = some kind ∧
        (parameter.name = name → Kind.ofKeyword? parameter.kind = none) := by
  unfold put
  cases Kind.ofKeyword? parameter.kind with
  | none => simp
  | some found =>
      rw [getElem?_insert]
      by_cases same : parameter.name = name <;> simp [same]

theorem Kinds.getElem?_foldl_put {parameters : List Parameter}
    (distinct : (parameters.map (·.name)).Nodup) (kinds : Kinds) (name : String) (kind : Kind) :
    (parameters.foldl put kinds)[name]? = some kind ↔
      (∃ parameter ∈ parameters, parameter.name = name ∧
        Kind.ofKeyword? parameter.kind = some kind) ∨
      kinds[name]? = some kind ∧ ∀ parameter ∈ parameters, parameter.name = name →
        Kind.ofKeyword? parameter.kind = none := by
  induction parameters generalizing kinds with
  | nil => simp
  | cons first others ih =>
      rw [List.map_cons, List.nodup_cons] at distinct
      rw [List.foldl_cons, ih distinct.2, getElem?_put, List.exists_mem_cons_iff,
        List.forall_mem_cons]
      by_cases same : first.name = name
      · have absent : ∀ other ∈ others, other.name = name → False := by
          rintro other member rfl
          exact distinct.1 (List.mem_map.mpr ⟨other, member, same.symm⟩)
        have noOther : ¬ ∃ other ∈ others, other.name = name ∧
            Kind.ofKeyword? other.kind = some kind := by
          rintro ⟨other, member, named, -⟩
          exact absent other member named
        have noRest : ∀ other ∈ others, other.name = name →
            Kind.ofKeyword? other.kind = none := by
          intro other member named
          exact (absent other member named).elim
        simp only [same, noOther, true_and, false_or, or_false, forall_const,
          and_iff_left noRest]
      · simp [same]

theorem Kinds.ofParameter_of_words {piece : List Char} {parameter : Parameter}
    (two : words piece = [parameter.kind.toList, parameter.name.toList]) (kinds : Kinds) :
    kinds.ofParameter piece = kinds.put parameter := by
  rw [ofParameter, two, put]
  cases known : Kind.ofKeyword? parameter.kind <;> simp only [String.ofList_toList, known]

theorem Kinds.foldl_ofParameter {pieces : List (List Char)} {parameters : List Parameter}
    (lists : Lists pieces parameters) (kinds : Kinds) :
    pieces.foldl ofParameter kinds = parameters.foldl put kinds := by
  induction lists generalizing kinds with
  | nil => rfl
  | skip blank rest ih =>
      rw [List.foldl_cons, ofParameter, blank]
      exact ih kinds
  | take two rest ih => rw [List.foldl_cons, List.foldl_cons, ofParameter_of_words two, ih]

variable {signature : Signature} {s front returns gap tail : List Char}

theorem occurs_in_header (header : Header signature s front returns gap tail)
    {before rest : List Char} (occurs : s = before ++ (signature.name.toList ++ rest)) :
    (∃ start behind, returns = start ++ (signature.name.toList ++ behind) ∧
      rest = behind ++ (gap ++ (signature.name.toList ++ tail))) ∨
    ∃ between, before = front ++ (returns ++ (gap ++ between)) ∧
      signature.name.toList ++ tail = between ++ (signature.name.toList ++ rest) := by
  have filled := header.second.filled
  have begins : ∀ c, signature.name.toList.head? = some c → isBlank c = false := fun c next =>
    header.second.plain c (List.mem_of_head? next)
  rw [header.text] at occurs
  obtain ⟨inner, rfl, inside⟩ := occurs_behind_blanks header.margin begins filled occurs
  rcases List.append_eq_append_iff.mp inside with ⟨more, rfl, later⟩ | ⟨excess, rfl, early⟩
  · obtain ⟨between, rfl, last⟩ := occurs_behind_blanks header.space begins filled later
    exact .inr ⟨between, rfl, last⟩
  · rcases List.append_eq_append_iff.mp early with ⟨behind, rfl, rfl⟩ | ⟨letters, name, across⟩
    · exact .inl ⟨inner, behind, rfl, rfl⟩
    · cases letters with
      | nil =>
          rw [List.append_nil] at name
          exact .inl ⟨inner, [], by rw [name, List.append_nil], across.symm⟩
      | cons c letters =>
          -- Here the name would go on in the gap.
          obtain ⟨d, blanks, rfl⟩ := List.exists_cons_of_ne_nil (header.second.gap header.first)
          obtain ⟨rfl, -⟩ := List.cons.inj across
          have visible := header.second.plain d (by simp [name])
          have space := header.space
          simp [visible] at space

theorem behind?_name (header : Header signature s front returns gap tail) :
    (∃ start behind, returns = start ++ (signature.name.toList ++ behind) ∧
      behind? signature.name.toList s =
        some (behind ++ (gap ++ (signature.name.toList ++ tail)))) ∨
    ¬ signature.name.toList <:+: returns ∧ behind? signature.name.toList s = some tail := by
  by_cases inside : signature.name.toList <:+: returns
  · obtain ⟨start, stop, whole⟩ := inside
    obtain ⟨before, rest, found, occurs, shorter⟩ := behind?_of_occurs (front ++ start)
      signature.name.toList (stop ++ (gap ++ (signature.name.toList ++ tail)))
    have text : front ++ start ++ (signature.name.toList ++ (stop ++
        (gap ++ (signature.name.toList ++ tail)))) = s := by
      simp [header.text, ← whole]
    rw [text] at found occurs
    rcases occurs_in_header header occurs with ⟨start, behind, part, rfl⟩ | ⟨between, rfl, -⟩
    · exact .inl ⟨start, behind, part, found⟩
    · have filled := List.length_pos_iff.mpr header.second.filled
      simp only [← whole, List.length_append] at shorter
      omega
  · obtain ⟨before, rest, found, occurs, shorter⟩ :=
      behind?_of_occurs (front ++ (returns ++ gap)) signature.name.toList tail
    have text : front ++ (returns ++ gap) ++ (signature.name.toList ++ tail) = s := by
      simp [header.text]
    rw [text] at found occurs
    rcases occurs_in_header header occurs with ⟨start, stop, part, -⟩ | ⟨between, rfl, later⟩
    · exact absurd ⟨start, stop, by simp [part]⟩ inside
    · have none : between = [] := by
        rw [← List.length_eq_zero_iff]
        simp only [List.length_append] at shorter
        omega
      rw [none, List.nil_append, List.append_cancel_left_eq] at later
      exact .inr ⟨inside, found.trans (congrArg some later.symm)⟩

theorem words_header (header : Header signature s front returns gap tail) {rest : List Char}
    (before : ∀ c, rest.head? = some c → isBlank c = true) :
    words (front ++ (returns ++ (gap ++ (signature.name.toList ++ rest)))) =
      returns :: signature.name.toList :: words rest := by
  have second : IsWord isBlank gap signature.name.toList rest :=
    { header.second with before }
  have first : IsWord isBlank front returns (gap ++ (signature.name.toList ++ rest)) := by
    refine { header.first with before := ?_ }
    obtain ⟨d, blanks, whole⟩ := List.exists_cons_of_ne_nil (header.second.gap header.first)
    rw [whole]
    rintro c ⟨⟩
    exact List.all_eq_true.mp header.space d (by simp [whole])
  rw [words, first.fields_eq, second.fields_eq, fields_separators header.margin,
    fields_separators header.space]
  rfl

theorem blank_of_firstPiece {c : Char} (header : Header signature s front returns gap tail)
    (next : (tail.takeWhile (!comma ·)).head? = some c) : isBlank c = true := by
  cases tail with
  | nil => cases next
  | cons d tail =>
      rw [List.takeWhile_cons] at next
      split at next
      · cases next
        exact header.second.before c rfl
      · cases next

/-! #### A name inside the word before it -/

theorem keyword_of_suffix {kind other : Kind}
    (ends : kind.keyword.toList <:+ other.keyword.toList) : kind = other := by
  revert ends
  cases kind <;> cases other <;> decide

variable {start behind : List Char}

theorem ofKeyword?_behind (header : Header signature s front returns gap tail)
    (part : returns = start ++ (signature.name.toList ++ behind)) :
    Kind.ofKeyword? (String.ofList behind) = none := by
  cases found : Kind.ofKeyword? (String.ofList behind) with
  | none => rfl
  | some kind =>
      have rest := congrArg String.toList (Kind.ofKeyword?_eq_some.mp found)
      have whole := congrArg String.toList (Kind.ofKeyword?_eq_some.mp header.kind)
      simp only [lowercase, String.toList_ofList] at rest whole
      have same : kind = signature.returns := by
        apply keyword_of_suffix
        rw [← rest, ← whole, part]
        exact ⟨lower (start ++ signature.name.toList), by simp [lower]⟩
      have length := congrArg List.length (rest.trans ((congrArg (·.keyword.toList) same).trans
        whole.symm))
      have filled := List.length_pos_iff.mpr header.second.filled
      simp only [part, lower, List.length_map, List.length_append] at length
      omega

theorem ofParameter_behind (header : Header signature s front returns gap tail)
    (part : returns = start ++ (signature.name.toList ++ behind)) {piece : List Char}
    (before : ∀ c, piece.head? = some c → isBlank c = true)
    (length : (words piece).length = 0 ∨ (words piece).length = 2) (kinds : Kinds) :
    kinds.ofParameter (behind ++ (gap ++ (signature.name.toList ++ piece))) = kinds := by
  have filled := header.second.gap header.first
  have isWord : IsWord isBlank (behind ++ gap) signature.name.toList piece :=
    { header.second.append filled behind with before }
  have all : words (behind ++ (gap ++ (signature.name.toList ++ piece))) =
      words behind ++ signature.name.toList :: words piece := by
    rw [← List.append_assoc, words, isWord.fields_eq,
      fields_append_separators behind header.space]
    rfl
  have rest : words behind = [] ∨ words behind = [behind] := by
    by_cases empty : behind = []
    · exact .inl (by rw [empty]; rfl)
    · refine .inr (fields_whole empty ?_)
      intro c member
      exact header.first.plain c (by simp [part, member])
  rw [Kinds.ofParameter, all]
  rcases length with none | two
  · rw [List.length_eq_zero_iff.mp none]
    rcases rest with rest | rest
    · rw [rest]
      rfl
    · rw [rest]
      simp only [List.singleton_append, ofKeyword?_behind header part]
  · obtain ⟨kind, name, two⟩ := List.length_eq_two.mp two
    rw [two]
    rcases rest with rest | rest <;> rw [rest] <;> rfl

/-- The parameters that are kept. Where the name of the method is part of the word before it, what
stands before the first comma is not taken for a parameter. -/
def heard (line : Line) (signature : Signature) : List Parameter :=
  if (words line.parameters.toList).head?.any (signature.name.toList <:+: ·) ∧
      2 < (words (line.parameters.toList.takeWhile (!comma ·))).length
  then signature.parameters.tail
  else signature.parameters

theorem not_comma_of_header (header : Header signature s front returns gap tail) :
    (∀ c ∈ front, comma c = false) ∧ (∀ c ∈ returns, comma c = false) ∧
      (∀ c ∈ gap, comma c = false) ∧ ∀ c ∈ signature.name.toList, comma c = false := by
  have ofBlank (c : Char) (blank : isBlank c = true) : comma c = false := by
    rw [comma, beq_eq_false_iff_ne]
    rintro rfl
    cases blank
  have ofBreak (c : Char) (plain : isBreak c = false) : comma c = false := by
    rw [isBreak, Bool.or_eq_false_iff] at plain
    exact plain.2
  have letters := congrArg String.toList (Kind.ofKeyword?_eq_some.mp header.kind)
  simp only [lowercase, String.toList_ofList] at letters
  refine ⟨fun c member => ?_, fun c member => ?_, fun c member => ?_, fun c member => ?_⟩
  · exact ofBlank c (List.all_eq_true.mp header.margin c member)
  · exact ofBreak c (not_break_of_kind letters member (header.first.plain c member))
  · exact ofBlank c (List.all_eq_true.mp header.space c member)
  · exact ofBreak c (not_break_of_isNameChar (isNameChar_of_isName header.named c member))

theorem heard_eq (header : Header signature line.parameters.toList front returns gap tail) :
    heard line signature =
      if signature.name.toList <:+: returns ∧ words (tail.takeWhile (!comma ·)) ≠ []
      then signature.parameters.tail
      else signature.parameters := by
  obtain ⟨inFront, inReturns, inGap, inName⟩ := not_comma_of_header header
  have all := words_header header header.second.before
  rw [← header.text] at all
  have early := words_header header (fun _ => blank_of_firstPiece header)
  have taken : line.parameters.toList.takeWhile (!comma ·) = front ++ (returns ++ (gap ++
      (signature.name.toList ++ tail.takeWhile (!comma ·)))) := by
    rw [header.text, List.takeWhile_append_of_pos, List.takeWhile_append_of_pos,
      List.takeWhile_append_of_pos, List.takeWhile_append_of_pos]
    all_goals
      intro c member
      simp [*]
  rw [heard, taken, early, all]
  refine if_congr ?_ rfl rfl
  simp [List.length_pos_iff]

theorem ofMethod_eq (header : Header signature line.parameters.toList front returns gap tail)
    (kinds : Kinds) : Kinds.ofMethod line.parameters.toList kinds =
      (heard line signature).foldl Kinds.put
        (kinds.insert signature.name signature.returns) := by
  have all := words_header header header.second.before
  rw [← header.text] at all
  have lists := header.parameters
  obtain ⟨more, pieces⟩ := split_first comma tail
  rw [heard_eq header, Kinds.ofMethod, all]
  simp only [header.kind, String.ofList_toList]
  rcases behind?_name header with ⟨start, behind, part, found⟩ | ⟨outside, found⟩
  · obtain ⟨-, inReturns, inGap, inName⟩ := not_comma_of_header header
    have inBehind : ∀ c ∈ behind, comma c = false := fun c member =>
      inReturns c (by simp [part, member])
    have inside : signature.name.toList <:+: returns := ⟨start, behind, by simp [part]⟩
    have overlooked := ofParameter_behind header part (fun _ => blank_of_firstPiece header)
    rw [found]
    change List.foldl _ _ (split comma _) = _
    rw [split_append_plain inBehind, split_append_plain inGap, split_append_plain inName, pieces]
    simp only [List.modifyHead_cons, List.foldl_cons]
    rw [pieces] at lists
    generalize signature.parameters = parameters at lists ⊢
    cases lists with
    | skip blank rest =>
        rw [if_neg (fun both => both.2 blank), overlooked (.inl (by rw [blank]; rfl))]
        exact Kinds.foldl_ofParameter rest _
    | take two rest =>
        rw [if_pos ⟨inside, by simp [two]⟩, overlooked (.inr (by rw [two]; rfl))]
        exact Kinds.foldl_ofParameter rest _
  · rw [found, if_neg (fun both => outside both.1)]
    exact Kinds.foldl_ofParameter lists _

/-- The kind that a method gives a name: that of the parameter, or else what it returns under its
own name. -/
def Types (signature : Signature) (parameters : List Parameter) (name : String) (kind : Kind) :
    Prop :=
  (∃ parameter ∈ parameters, parameter.name = name ∧
    Kind.ofKeyword? parameter.kind = some kind) ∨
  (name = signature.name ∧ kind = signature.returns) ∧ ∀ parameter ∈ parameters,
    parameter.name = name → Kind.ofKeyword? parameter.kind = none

theorem getElem?_ofLine_method (said : line.statement = .ok (.method signature)) (name : String)
    (kind : Kind) : (Kinds.ofLine ∅ line)[name]? = some kind ↔
      Types signature (heard line signature) name kind := by
  obtain ⟨keyword, read⟩ := Line.declares_method said
  obtain ⟨front, returns, gap, tail, header⟩ := readMethod_eq_ok read
  have ofLine : Kinds.ofLine ∅ line = Kinds.ofMethod line.parameters.toList ∅ := by
    have noKind : Kind.ofKeyword? line.keyword = none := by
      rw [Kind.ofKeyword?, keyword]
      decide
    have method : sameWord line.keyword.toList "method".toList = true := by
      have letters := congrArg String.toList keyword
      rw [lowercase, String.toList_ofList] at letters
      rw [sameWord, letters]
      decide
    rw [Kinds.ofLine, noKind]
    exact if_pos method
  have distinct : ((heard line signature).map (·.name)).Nodup := by
    have legal : (signature.parameters.map (·.name)).Nodup :=
      line.statement_settles.gives _ said
    unfold heard
    split
    · rw [List.map_tail]
      exact legal.tail
    · exact legal
  rw [ofLine, ofMethod_eq header, Kinds.getElem?_foldl_put distinct, Kinds.getElem?_insert, Types]
  by_cases same : signature.name = name
  · simp [same, eq_comm]
  · simp [same, Ne.symm same]

/-- Which kinds are kept of a line that declares something. For variables, it is the kind of the
first word that is not the kind itself, which is the first name declared where that stands alone.
For a method, it is the kinds of its parameters and what it returns under its own name, but
for a parameter in front of the first comma where the name of the method is part of the word before
it. -/
theorem kinds_of_declaring_line (line : Line) :
    (∀ declaration, line.statement = .ok (.declare declaration) →
      (∀ name kind, (Kinds.ofLine ∅ line)[name]? = some kind ↔
        kind = declaration.kind ∧ Foremost line name) ∧
      ∀ name, StandsAlone line name → declaration.name = name ∧
        (Kinds.ofLine ∅ line)[name]? = some declaration.kind) ∧
    ∀ signature, line.statement = .ok (.method signature) → ∀ name kind,
      (Kinds.ofLine ∅ line)[name]? = some kind ↔
        Types signature (heard line signature) name kind := by
  refine ⟨fun declaration said => ⟨getElem?_ofLine_declaration said, ?_⟩,
    fun signature => getElem?_ofLine_method⟩
  intro name alone
  obtain ⟨same, foremost⟩ := alone.foremost said
  exact ⟨same, (getElem?_ofLine_declaration said name _).mpr ⟨rfl, foremost⟩⟩

theorem declared_names_not_kept :
    Line.statement ⟨1, "int a, b"⟩ = .ok (.declare ⟨.int, "a", "0", ["b"]⟩) ∧
      (Kinds.ofLine ∅ ⟨1, "int a, b"⟩)["b"]? = none ∧
      Line.statement ⟨1, "method int t int a"⟩ =
        .ok (.method ⟨"t", .int, [⟨"int", "a"⟩]⟩) ∧
      (Kinds.ofLine ∅ ⟨1, "method int t int a"⟩)["a"]? = none := by
  refine ⟨?_, ?_, ?_, ?_⟩ <;> decide +kernel

theorem kinds_of_flag_and_method :
    Line.statement ⟨1, "Boolean boolean on = true"⟩ =
        .ok (.declare ⟨.boolean, "on", "true", []⟩) ∧
      (Kinds.ofLine ∅ ⟨1, "Boolean boolean on = true"⟩)["on"]? = some .boolean ∧
      Line.statement ⟨2, "method int n int a, real b"⟩ =
        .ok (.method ⟨"n", .int, [⟨"int", "a"⟩, ⟨"real", "b"⟩]⟩) ∧
      (Kinds.ofLine ∅ ⟨2, "method int n int a, real b"⟩)["n"]? = some .int ∧
      (Kinds.ofLine ∅ ⟨2, "method int n int a, real b"⟩)["b"]? = some .real := by
  have flag : Line.statement ⟨1, "Boolean boolean on = true"⟩ =
      .ok (.declare ⟨.boolean, "on", "true", []⟩) := by decide +kernel
  have alone : StandsAlone ⟨1, "Boolean boolean on = true"⟩ "on" :=
    ⟨["boolean".toList], by decide +kernel, by decide +kernel, by decide +kernel⟩
  have method : Line.statement ⟨2, "method int n int a, real b"⟩ =
      .ok (.method ⟨"n", .int, [⟨"int", "a"⟩, ⟨"real", "b"⟩]⟩) := by decide +kernel
  have kept : heard ⟨2, "method int n int a, real b"⟩
      ⟨"n", .int, [⟨"int", "a"⟩, ⟨"real", "b"⟩]⟩ = [⟨"real", "b"⟩] := by decide +kernel
  have kinds := (kinds_of_declaring_line ⟨2, "method int n int a, real b"⟩).2 _ method
  rw [kept] at kinds
  refine ⟨flag, ((kinds_of_declaring_line _).1 _ flag).2 "on" alone |>.2, method, ?_, ?_⟩
  · refine (kinds "n" .int).mpr (.inr ⟨⟨rfl, rfl⟩, ?_⟩)
    decide
  · refine (kinds "b" .real).mpr (.inl ⟨⟨"real", "b"⟩, .head _, rfl, ?_⟩)
    decide

end Source

end Easel
