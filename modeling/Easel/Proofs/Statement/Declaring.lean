import Easel.Proofs.Statement.Reading
import Easel.Proofs.Text.Words

/-! What is written in a line that declares variables or a method. -/

namespace Easel

open Text

namespace Statement

variable {s word : List Char}

theorem name_eq_ok {given : String} (found : name word = .ok given) :
    isName word = true ∧ given.toList = word := by
  unfold name at found
  split at found
  · rename_i named
    cases found
    exact ⟨named, String.toList_ofList⟩
  · cases found

/-! ### Variables -/

/-- The name that comes first is the last word in front of the value, or without one the last word
in front of the first comma with a word in front of it. -/
theorem readDeclaration_eq_ok {kind : Kind} {declaration : Declaration}
    (read : readDeclaration kind s = .ok (declare declaration)) :
    isName declaration.name.toList = true ∧
      ((∃ left right, cut? '=' s = some (left, right) ∧
        lastWord left = declaration.name.toList) ∨
      cut? '=' s = none ∧ ∃ others,
        ((split comma s).map lastWord).filter (!·.isEmpty) = declaration.name.toList :: others) := by
  unfold readDeclaration at read
  split at read
  · rename_i left right cut
    obtain ⟨given, found, rest⟩ := bind_eq_ok.mp read
    obtain ⟨named, same⟩ := name_eq_ok found
    dsimp only at rest
    split at rest
    · cases rest
    · cases rest
      rw [← same] at named
      exact ⟨named, .inl ⟨left, right, cut, same.symm⟩⟩
  · rename_i cut
    obtain ⟨names, found, rest⟩ := bind_eq_ok.mp read
    split at rest
    · cases rest
    · rename_i first extra
      cases rest
      cases texts : ((split comma s).map lastWord).filter (!·.isEmpty) with
      | nil =>
          rw [texts] at found
          cases found
      | cons text others =>
          rw [texts, List.mapM_cons] at found
          obtain ⟨given, found, rest⟩ := bind_eq_ok.mp found
          obtain ⟨more, -, rest⟩ := bind_eq_ok.mp rest
          cases rest
          obtain ⟨named, same⟩ := name_eq_ok found
          rw [← same] at named ⊢
          exact ⟨named, .inr ⟨cut, others, rfl⟩⟩

/-! ### Methods -/

inductive Lists : List (List Char) → List Parameter → Prop
  | nil : Lists [] []
  | skip {piece : List Char} {pieces : List (List Char)} {parameters : List Parameter}
      (blank : words piece = []) (rest : Lists pieces parameters) :
      Lists (piece :: pieces) parameters
  | take {piece : List Char} {pieces : List (List Char)} {parameter : Parameter}
      {parameters : List Parameter}
      (two : words piece = [parameter.kind.toList, parameter.name.toList])
      (rest : Lists pieces parameters) : Lists (piece :: pieces) (parameter :: parameters)

theorem readParameter_eq_ok {earlier : List Parameter} {parameter : Parameter}
    (read : readParameter earlier s = .ok parameter) :
    words s = [parameter.kind.toList, parameter.name.toList] := by
  unfold readParameter at read
  split at read
  · rename_i kind word found
    obtain ⟨given, named, rest⟩ := bind_eq_ok.mp read
    dsimp only at rest
    split at rest
    · cases rest
    · cases rest
      rw [found, (name_eq_ok named).2, String.toList_ofList]
  · cases read

theorem lists_of_foldlM {pieces : List (List Char)} {earlier parameters : List Parameter}
    (read : ((pieces.map trim).filter (!·.isEmpty)).foldlM
      (fun earlier part => do return earlier ++ [← readParameter earlier part]) earlier =
        .ok parameters) :
    ∃ more, parameters = earlier ++ more ∧ Lists pieces more := by
  induction pieces generalizing earlier with
  | nil =>
      cases read
      exact ⟨[], (List.append_nil _).symm, .nil⟩
  | cons piece pieces ih =>
      rw [List.map_cons] at read
      by_cases blank : trim piece = []
      · rw [List.filter_cons_of_neg (by simp [blank])] at read
        obtain ⟨more, same, rest⟩ := ih read
        refine ⟨more, same, .skip ?_ rest⟩
        rw [← words_trim, blank]
        rfl
      · rw [List.filter_cons_of_pos (by simpa using blank), List.foldlM_cons] at read
        obtain ⟨longer, added, read⟩ := bind_eq_ok.mp read
        obtain ⟨parameter, found, added⟩ := bind_eq_ok.mp added
        cases added
        obtain ⟨more, rfl, rest⟩ := ih read
        refine ⟨parameter :: more, by simp, .take ?_ rest⟩
        rw [← words_trim]
        exact readParameter_eq_ok found

theorem readParameters_eq_ok {parameters : List Parameter}
    (read : readParameters s = .ok parameters) : Lists (split comma s) parameters := by
  obtain ⟨more, rfl, lists⟩ := lists_of_foldlM read
  exact lists

/-- The text behind `method`: the kind it returns, its name, and the parameters. -/
structure Header (signature : Signature) (s front returns gap tail : List Char) : Prop where
  text : s = front ++ (returns ++ (gap ++ (signature.name.toList ++ tail)))
  margin : front.all isBlank = true
  first : IsWord isBlank front returns (gap ++ (signature.name.toList ++ tail))
  space : gap.all isBlank = true
  second : IsWord isBlank gap signature.name.toList tail
  named : isName signature.name.toList = true
  kind : Kind.ofKeyword? (String.ofList returns) = some signature.returns
  scalar : signature.returns ≠ .array
  parameters : Lists (split comma tail) signature.parameters

theorem behindWord_eq {front back : List Char} (blank : front.all isBlank = true)
    (isWord : IsWord isBlank front word back) : behindWord (front ++ (word ++ back)) = back := by
  obtain ⟨c, letters, rfl⟩ := List.exists_cons_of_ne_nil isWord.filled
  have visible := isWord.plain c List.mem_cons_self
  have inside : (c :: letters).all (!isBlank ·) = true := by
    simpa using isWord.plain
  have ends : ∀ d, back.head? = some d → (!isBlank d) = false := by
    intro d next
    rw [isWord.before d next]
    rfl
  rw [behindWord, trimStart_blanks blank, List.cons_append, trimStart_cons visible]
  exact (takeWhile_run inside ends).2

theorem readMethod_eq_ok {signature : Signature}
    (read : readMethod s = .ok (method signature)) :
    ∃ front returns gap tail, Header signature s front returns gap tail := by
  unfold readMethod at read
  split at read
  · rename_i returns word others found
    extract_lets finish at read
    split at read
    · cases read
    · cases read
    rename_i kind scalar known
    obtain ⟨given, named, rest⟩ : ∃ given, name word = .ok given ∧ _ := bind_eq_ok.mp read
    obtain ⟨parameters, listed, rest⟩ := bind_eq_ok.mp rest
    cases rest
    obtain ⟨named, rfl⟩ := name_eq_ok named
    have words : fields isBlank s = [] ++ returns :: (given.toList :: others) := found
    obtain ⟨front, back, rfl, first, margin, words⟩ := exists_word words
    have words : fields isBlank back = [] ++ given.toList :: others := words
    obtain ⟨gap, tail, rfl, second, space, -⟩ := exists_word words
    have margin := separators_of_fields margin
    have space := separators_of_fields space
    rw [behindWord_eq margin first, behindWord_eq space second] at listed
    exact ⟨front, returns, gap, tail, rfl, margin, first, space, second, named, known, scalar,
      readParameters_eq_ok listed⟩
  · cases read

end Statement

namespace Line

variable {line : Line}

theorem declares {declaration : Declaration}
    (said : line.statement = .ok (.declare declaration)) :
    declaration.kind ≠ .array ∧ lowercase line.keyword = declaration.kind.keyword ∧
      Statement.readDeclaration declaration.kind line.parameters.toList =
        .ok (.declare declaration) := by
  have read := read_of_statement said
  have member := keyword_of_statement said
  obtain ⟨kind, listed, keyword⟩ := List.mem_map.mp member
  rw [List.mem_filter, beq_iff_eq] at listed
  obtain ⟨listed, rfl⟩ := listed
  rw [Statement.read, ← keyword] at read
  refine ⟨?_, keyword.symm, ?_⟩
  · intro array
    rw [array] at listed
    simp at listed
  · cases kind : declaration.kind with
    | array =>
        rw [kind] at listed
        simp at listed
    | _ =>
        rw [kind] at read
        exact read

theorem declares_method {signature : Signature}
    (said : line.statement = .ok (.method signature)) :
    lowercase line.keyword = "method" ∧
      Statement.readMethod line.parameters.toList = .ok (.method signature) := by
  have read := read_of_statement said
  have keyword := List.mem_singleton.mp (keyword_of_statement said)
  rw [Statement.read, keyword] at read
  exact ⟨keyword, read⟩

end Line

end Easel
