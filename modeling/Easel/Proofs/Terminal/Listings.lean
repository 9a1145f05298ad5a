import Easel.Proofs.Source.Lines
import Easel.Proofs.Terminal.Scripts

/-! The listing of the prompt, and how a listing that was saved is loaded again. Loading trims a
text as a whole and makes its breaks alike, which changes nothing as long as a listing begins and
ends with what is not blank and has no breaks in its lines. -/

namespace Easel

namespace Source

open Text

theorem normalize_feed {source : String} {body : List Char} (text : source.toList = body ++ ['\n'])
    (noReturn : '\r' ∉ body) (trimmed : Trimmed body)
    (unmarked : body.head? ≠ some byteOrderMark) : (normalize source).toList = body := by
  have plain : '\r' ∉ body ++ ['\n'] := by simpa using noReturn
  have kept : (body ++ ['\n']).dropWhile (· == byteOrderMark) = body ++ ['\n'] := by
    cases body with
    | nil => rfl
    | cons c body => exact List.dropWhile_cons_of_neg (by simpa using unmarked)
  rw [normalize, String.toList_ofList, text, unifyBreaks_eq_self plain, kept,
    trim_append_blanks body rfl, trimmed.trim_eq]

end Source

namespace Text

theorem trim_subset (s : List Char) : trim s ⊆ s := by
  obtain ⟨front, back, -, -, whole⟩ := exists_trim s
  intro c member
  rw [whole]
  simp [member]

theorem split_lines {front : List (List Char)} {last : List Char}
    (whole : ∀ line ∈ front ++ [last], '\n' ∉ line) :
    split isFeed (front.flatMap (· ++ ['\n']) ++ last) = front ++ [last] := by
  have plain {line : List Char} (noFeed : '\n' ∉ line) : split isFeed line = [line] := by
    apply split_whole
    intro c member
    rw [isFeed, beq_eq_false_iff_ne]
    rintro rfl
    exact noFeed member
  induction front with
  | nil => exact plain (whole last (by simp))
  | cons line front ih =>
      rw [List.cons_append, List.forall_mem_cons] at whole
      rw [List.flatMap_cons, List.append_assoc, List.append_assoc, List.singleton_append,
        split_append_separator rfl, plain whole.1, ih whole.2]
      rfl

theorem head?_lines {front : List (List Char)} {last first : List Char} {c : Char}
    (found : (front ++ [last]).head? = some first) (begins : first.head? = some c) :
    (front.flatMap (· ++ ['\n']) ++ last).head? = some c := by
  cases front with
  | nil =>
      cases found
      exact begins
  | cons line front =>
      cases found
      rw [List.flatMap_cons, List.append_assoc, List.append_assoc, List.head?_append, begins]
      rfl

end Text

namespace Terminal

open Text

/-- No line holds a break, and neither the first character of a listing nor the last one is blank.
-/
structure Tidy (listing : List String) : Prop where
  unbroken : ∀ line ∈ listing, '\n' ∉ line.toList ∧ '\r' ∉ line.toList
  begins : ∀ line, listing.head? = some line →
    ∃ c, line.toList.head? = some c ∧ isBlank c = false
  ends : ∀ line, listing.getLast? = some line →
    ∃ c, line.toList.getLast? = some c ∧ isBlank c = false

namespace Tidy

variable {listing : List String}

theorem nil : Tidy [] := ⟨nofun, nofun, nofun⟩

theorem append (tidy : Tidy listing) {line : String}
    (unbroken : '\n' ∉ line.toList ∧ '\r' ∉ line.toList) (trimmed : Trimmed line.toList)
    (filled : line.toList ≠ []) : Tidy (listing ++ [line]) where
  unbroken := by
    rw [List.forall_mem_append]
    exact ⟨tidy.unbroken, by simpa using unbroken⟩
  begins first found := by
    cases listing with
    | cons head tail => exact tidy.begins first found
    | nil =>
        cases found
        have next := List.head?_eq_some_head filled
        exact ⟨_, next, trimmed.begins _ next⟩
  ends final found := by
    rw [List.getLast?_concat] at found
    cases found
    have last := List.getLast?_eq_some_getLast filled
    exact ⟨_, last, trimmed.ends _ last⟩

theorem of_lines {s : List Char} (trimmed : Trimmed s) (noReturn : '\r' ∉ s) :
    Tidy ((lines s).map String.ofList) := by
  by_cases filled : s = []
  · rw [filled]
    exact nil
  · rw [lines_eq_split_of_visible filled trimmed.ends]
    constructor
    case unbroken =>
      intro line listed
      obtain ⟨piece, member, rfl⟩ := List.mem_map.mp listed
      obtain ⟨subset, plain⟩ := mem_split member
      rw [String.toList_ofList]
      exact ⟨fun feed => absurd (plain _ feed) (by decide), fun back => noReturn (subset back)⟩
    case begins =>
      intro line found
      obtain ⟨c, tail, rfl⟩ := List.exists_cons_of_ne_nil filled
      have visible := trimmed.begins c rfl
      obtain ⟨rest, pieces⟩ := split_first isFeed (c :: tail)
      rw [pieces] at found
      cases found
      refine ⟨c, ?_, visible⟩
      rw [String.toList_ofList, List.takeWhile_cons_of_pos (by simp [isFeed_of_visible visible])]
      rfl
    case ends =>
      intro line found
      obtain ⟨front, c, whole⟩ := (List.eq_nil_or_concat s).resolve_left filled
      rw [List.concat_eq_append] at whole
      subst whole
      have visible := trimmed.ends c List.getLast?_concat
      obtain ⟨pieces, last, cut⟩ := split_concat front (isFeed_of_visible visible)
      rw [cut, List.map_append, List.map_singleton, List.getLast?_concat] at found
      cases found
      rw [String.toList_ofList]
      exact ⟨c, List.getLast?_concat, visible⟩

theorem of_source (source : String) : Tidy (Prompt.listingOf source) := by
  rw [Prompt.listingOf, Source.normalize, String.toList_ofList]
  apply of_lines (trimmed_trim _)
  intro back
  have inside := (List.dropWhile_sublist _).subset (trim_subset _ back)
  exact Source.not_mem_unifyBreaks _ inside

theorem exists_body (tidy : Tidy listing) (filled : listing ≠ []) :
    ∃ body, (String.join (listing.map (· ++ "\n"))).toList = body ++ ['\n'] ∧ '\r' ∉ body ∧
      Trimmed body ∧ body ≠ [] ∧ split isFeed body = listing.map (·.toList) ∧
      ∃ first, listing.head? = some first ∧ body.head? = first.toList.head? := by
  obtain ⟨front, last, whole⟩ := (List.eq_nil_or_concat listing).resolve_left filled
  rw [List.concat_eq_append] at whole
  subst whole
  have pieces : front.map (·.toList) ++ [last.toList] = (front ++ [last]).map (·.toList) := by
    rw [List.map_append, List.map_singleton]
  have next := List.head?_eq_some_head filled
  obtain ⟨c, begins, visible⟩ := tidy.begins _ next
  obtain ⟨d, ends, visible'⟩ := tidy.ends last List.getLast?_concat
  have head : ((front.map (·.toList)).flatMap (· ++ ['\n']) ++ last.toList).head? = some c := by
    apply head?_lines _ begins
    rw [pieces, List.head?_map, next]
    rfl
  refine ⟨(front.map (·.toList)).flatMap (· ++ ['\n']) ++ last.toList, ?_, ?_, ⟨?_, ?_⟩, ?_, ?_, _,
    next, head.trans begins.symm⟩
  · simp [String.toList_join, List.flatMap_map]
  · intro back
    rcases List.mem_append.mp back with inside | inside
    · obtain ⟨piece, member, inside⟩ := List.mem_flatMap.mp inside
      obtain ⟨line, listed, rfl⟩ := List.mem_map.mp member
      have inside : '\r' ∈ line.toList := by simpa using inside
      exact (tidy.unbroken line (List.mem_append_left _ listed)).2 inside
    · exact (tidy.unbroken last (by simp)).2 inside
  · intro other found
    cases head.symm.trans found
    exact visible
  · intro other found
    rw [List.getLast?_append, ends] at found
    cases found
    exact visible'
  · intro empty
    rw [empty] at head
    cases head
  · rw [split_lines, pieces]
    rw [pieces, List.forall_mem_map]
    exact fun line member => (tidy.unbroken line member).1

theorem listingOf_join (tidy : Tidy listing) (filled : listing ≠ [])
    (unmarked : ∀ line, listing.head? = some line →
      line.toList.head? ≠ some Source.byteOrderMark) :
    Prompt.listingOf (String.join (listing.map (· ++ "\n"))) = listing := by
  obtain ⟨body, text, noReturn, trimmed, filled, cut, first, next, head⟩ := tidy.exists_body filled
  have normal := Source.normalize_feed text noReturn trimmed (head ▸ unmarked first next)
  rw [Prompt.listingOf, normal, lines_eq_split_of_visible filled trimmed.ends, cut, List.map_map]
  simp [Function.comp_def]

end Tidy

namespace Folder

variable {folder after : Folder} {place path : String}

theorem enter_of_ok {name next : String} (entered : folder.enter place name = .ok next)
    (other : Folder) : other.enter place name = .ok next := by
  unfold enter at entered ⊢
  split
  · rename_i here
    rwa [if_pos here] at entered
  · rename_i notHere
    rw [if_neg notHere] at entered
    split
    · rename_i up
      rwa [if_pos up] at entered
    · rename_i notUp
      rw [if_neg notUp] at entered
      split at entered <;> cases entered

theorem foldlM_enter_of_ok {names : List String} {next : String}
    (entered : names.foldlM folder.enter place = .ok next) (other : Folder) :
    names.foldlM other.enter place = .ok next := by
  induction names generalizing place with
  | nil => exact entered
  | cons name names ih =>
      rw [List.foldlM_cons] at entered ⊢
      cases first : folder.enter place name with
      | error fault =>
          rw [first] at entered
          cases entered
      | ok middle =>
          rw [first] at entered
          rw [enter_of_ok first other]
          exact ih entered

theorem resolve_of_ok {access : Access} (resolved : folder.resolve access path = .ok place)
    (other : Folder) (access' : Access) : other.resolve access' path = .ok place := by
  unfold resolve at resolved ⊢
  dsimp only at resolved ⊢
  by_cases nul : path.toList.contains (Char.ofNat 0) = true
  · rw [if_pos nul] at resolved
    cases resolved
  rw [if_neg nul] at resolved ⊢
  by_cases long : maxPathBytes < path.utf8ByteSize
  · rw [if_pos long] at resolved
    cases resolved
  rw [if_neg long] at resolved ⊢
  cases found : ((Text.fields (· == '/') path.toList).map String.ofList).getLast? with
  | none =>
      rw [found] at resolved
      cases resolved
  | some last =>
      rw [found] at resolved
      dsimp only at resolved ⊢
      cases entered : ((Text.fields (· == '/') path.toList).map String.ofList).dropLast.foldlM
          folder.enter (if path.toList.head? == some '/' then "/" else "") with
      | error fault =>
          rw [entered] at resolved
          cases resolved
      | ok outer =>
          rw [entered] at resolved
          rw [foldlM_enter_of_ok entered other]
          dsimp only [bind, Except.bind] at resolved ⊢
          by_cases asks : (path.toList.getLast? == some '/' || last == "." || last == "..") = true
          · rw [if_pos asks] at resolved
            split at resolved
            · split at resolved <;> cases resolved
            · cases resolved
          · rw [if_neg asks] at resolved ⊢
            exact resolved

theorem load_of_save {text : String} (saved : folder.save path text = .ok after) :
    after.load path = .ok text := by
  unfold save at saved
  cases resolved : folder.resolve .writing path with
  | error fault =>
      rw [resolved] at saved
      cases saved
  | ok place =>
      rw [resolved] at saved
      cases saved
      have read : String.fromUTF8? text.toUTF8 = some text := dif_pos text.isValidUTF8
      rw [load, resolve_of_ok resolved _ .reading]
      dsimp only [bind, Except.bind]
      rw [Std.ExtTreeMap.getElem?_insert_self]
      dsimp only
      rw [read]
      rfl

end Folder

theorem Order.read_eq_keep {typed line : String} (kept : Order.read typed = .keep line) :
    line.toList = trim typed.toList ∧ trim typed.toList ≠ [] := by
  unfold Order.read at kept
  dsimp only at kept
  split at kept
  · cases kept
  · rename_i named
    have filled : trim typed.toList ≠ [] := by
      intro empty
      rw [empty] at named
      exact named rfl
    have kept : Order.keep (String.ofList (trim typed.toList)) = .keep line := by
      split at kept
      case h_7 | h_8 =>
        split at kept
        · exact kept
        · cases kept
      case h_9 => exact kept
      all_goals cases kept
    cases kept
    exact ⟨String.toList_ofList, filled⟩

namespace Transcript

def Unbroken (transcript : Transcript) : Prop :=
  ∀ entry ∈ transcript.typed, ∀ line ∈ entry, '\n' ∉ line.toList ∧ '\r' ∉ line.toList

def Returns {α : Type} (good : α → Prop) (program : StateM Transcript α)
    (transcript : Transcript) : Prop :=
  good (program transcript).1

variable {α β : Type} {good : α → Prop} {transcript : Transcript}

theorem Returns.pure {a : α} (holds : good a) : Returns good (Pure.pure a) transcript := holds

theorem Returns.bind {first : StateM Transcript β} {next : β → StateM Transcript α}
    (after : ∀ b later, Returns good (next b) later) : Returns good (first >>= next) transcript :=
  after (first transcript).1 (first transcript).2

theorem Returns.andThen {fine : β → Prop} {first : StateM Transcript β}
    {next : β → StateM Transcript α} (before : Returns fine first transcript)
    (after : ∀ b later, fine b → Returns good (next b) later) :
    Returns good (first >>= next) transcript :=
  after (first transcript).1 (first transcript).2 before

theorem save_eq_ok {file text : String} (saved : (transcript.save file text).1 = .ok ()) :
    ∃ folder, transcript.folder.save file text = .ok folder := by
  unfold save at saved
  cases stored : transcript.folder.save file text with
  | ok folder => exact ⟨folder, rfl⟩
  | error fault =>
      rw [stored] at saved
      cases saved

theorem readLine_eq {line : String} {rest : List (Option String)}
    (typed : transcript.typed = some line :: rest) :
    (Console.readLine : StateM Transcript Typed) transcript =
      (.line line, { transcript with typed := rest }) := by
  change transcript.readLine = _
  rw [readLine, typed]

theorem readLine_given {line : String} (reads : transcript.readLine.1 = .line line) :
    some line ∈ transcript.typed := by
  unfold readLine at reads
  split at reads <;> cases reads
  rename_i typed
  rw [typed]
  exact List.mem_cons_self

end Transcript

namespace Prompt

open Transcript

/-- What a turn can make of a listing. -/
inductive Relists (typed : List (Option String)) (listing : List String) : List String → Prop
  | same : Relists typed listing listing
  | cleared : Relists typed listing []
  | loaded (source : String) : Relists typed listing (listingOf source)
  | extended {text line : String} (given : some text ∈ typed)
      (kept : Order.read text = .keep line) : Relists typed listing (listing ++ [line])

variable {prompt after : Prompt} {transcript later : Transcript} {cycles : Nat}

theorem obey_relists (prompt : Prompt) (order : Order) (transcript : Transcript)
    {typed : List (Option String)} (given : ∀ line, order = .keep line →
      ∃ text, some text ∈ typed ∧ Order.read text = .keep line) :
    Returns (fun after => Relists typed prompt.listing after.listing)
      (prompt.obey order : StateM Transcript Prompt) transcript := by
  unfold obey
  cases order with
  | nothing | quit => exact .pure .same
  | run =>
      dsimp only
      split
      · exact .pure .same
      · exact .bind fun _ _ => .pure .same
  | check =>
      dsimp only
      split
      · exact .bind fun _ _ => .pure .same
      · exact .bind fun _ _ => .pure .same
  | list =>
      dsimp only
      exact .bind fun _ _ => .pure .same
  | clear => exact .pure .cleared
  | load file =>
      dsimp only
      refine .bind fun outcome _ => ?_
      cases outcome with
      | ok source =>
          apply Returns.pure
          dsimp only
          exact .loaded source
      | error fault => exact .bind fun _ _ => .pure .same
  | save file =>
      dsimp only
      split
      all_goals
        refine .bind fun outcome _ => ?_
        cases outcome with
        | ok done => exact .pure .same
        | error fault => exact .bind fun _ _ => .pure .same
  | keep line =>
      obtain ⟨text, typed, kept⟩ := given line rfl
      exact .pure (.extended typed kept)

theorem turn_relists (prompt : Prompt) (transcript : Transcript) (cycles : Nat) :
    Returns (fun result => ∀ after, result = some after →
      Relists transcript.typed prompt.listing after.listing)
      (prompt.turn cycles : StateM Transcript _) transcript := by
  have kept {after : Prompt} (same : after.listing = prompt.listing) :
      ∀ other, some after = some other →
        Relists transcript.typed prompt.listing other.listing := by
    rintro other ⟨⟩
    rw [same]
    exact .same
  unfold turn
  split
  · refine .bind fun shown _ => ?_
    obtain ⟨outcome, view⟩ := shown
    dsimp only
    split
    · exact .pure (kept rfl)
    · exact .pure (kept rfl)
    · exact .bind fun _ _ => .pure (kept rfl)
  · have given : Returns (fun typed => ∀ text, typed = .line text → some text ∈ transcript.typed)
        (Console.readLine : StateM Transcript Typed) transcript :=
      fun text reads => readLine_given reads
    refine given.andThen fun typed _ given => ?_
    cases typed with
    | finished => exact .pure nofun
    | line text =>
        refine .bind fun _ later => ?_
        split
        · exact .pure (kept rfl)
        · exact .pure nofun
        · have relists := obey_relists prompt (Order.read text) later fun line kept =>
            ⟨text, given text rfl, kept⟩
          refine relists.andThen fun after _ relists => .bind fun _ _ => .pure ?_
          rintro other ⟨⟩
          exact relists

theorem turn_eq {line : String} {rest : List (Option String)} {order : Order}
    (idle : prompt.isRunning = false) (typed : transcript.typed = some line :: rest)
    (asks : Order.read line = order) (something : order ≠ .nothing) (onwards : order ≠ .quit)
    (obeyed : (prompt.obey order : StateM Transcript _)
      { transcript with typed := rest, breakAsked := false } = (after, later)) :
    (prompt.turn cycles : StateM Transcript _) transcript =
      (some after, { later with history := later.history.push line }) := by
  have takes : (Console.takeBreak : StateM Transcript _) { transcript with typed := rest } =
      (transcript.breakAsked, { transcript with typed := rest, breakAsked := false }) := rfl
  unfold turn
  rw [idle, if_neg Bool.false_ne_true, bind_eq (readLine_eq typed)]
  dsimp only
  rw [bind_eq takes, asks]
  cases order with
  | nothing => contradiction
  | quit => contradiction
  | _ => exact bind_eq obeyed

variable {line file text : String} {rest : List (Option String)}

theorem turn_save (cycles : Nat) (idle : prompt.isRunning = false)
    (typed : transcript.typed = some line :: rest) (asks : Order.read line = .save file)
    (saved : prompt.saved = .ok text) {folder : Folder}
    (stored : transcript.folder.save file text = .ok folder) :
    ∃ later, (prompt.turn cycles : StateM Transcript _) transcript = (some prompt, later) ∧
      later.typed = rest ∧ later.folder = folder := by
  have saves : (Console.save file text : StateM Transcript _)
      { transcript with typed := rest, breakAsked := false } =
        (.ok (), { transcript with typed := rest, breakAsked := false, folder }) := by
    change Transcript.save _ file text = _
    rw [Transcript.save, stored]
  have obeyed : (prompt.obey (.save file) : StateM Transcript _)
      { transcript with typed := rest, breakAsked := false } =
        (prompt, { transcript with typed := rest, breakAsked := false, folder }) := by
    unfold obey
    dsimp only
    rw [saved]
    exact bind_eq saves
  exact ⟨_, turn_eq idle typed asks (by simp) (by simp) obeyed, rfl, rfl⟩

theorem turn_load (cycles : Nat) (idle : prompt.isRunning = false)
    (typed : transcript.typed = some line :: rest) (asks : Order.read line = .load file)
    (loaded : transcript.folder.load file = .ok text) :
    ∃ later, (prompt.turn cycles : StateM Transcript _) transcript =
      (some { prompt with listing := listingOf text }, later) := by
  have loads : (Console.load file : StateM Transcript _)
      { transcript with typed := rest, breakAsked := false } =
        (.ok text, { transcript with typed := rest, breakAsked := false }) := by
    change (Transcript.load _ file, _) = _
    rw [Transcript.load, loaded]
  have obeyed : (prompt.obey (.load file) : StateM Transcript _)
      { transcript with typed := rest, breakAsked := false } =
        ({ prompt with listing := listingOf text },
          { transcript with typed := rest, breakAsked := false }) := by
    unfold obey
    dsimp only
    rw [bind_eq loads]
    rfl
  exact ⟨_, turn_eq idle typed asks (by simp) (by simp) obeyed⟩

/-- A prompt after some turns. What is typed, which files there are and when a break is asked for
may change from turn to turn. -/
inductive Reached : Prompt → Prop
  | opened : Reached .empty
  | turned {prompt after : Prompt} {transcript later : Transcript} {cycles : Nat}
      (earlier : Reached prompt) (unbroken : transcript.Unbroken)
      (turns : (prompt.turn cycles : StateM Transcript _) transcript = (some after, later)) :
      Reached after

theorem Reached.tidy (reached : Reached prompt) : Tidy prompt.listing := by
  induction reached with
  | opened => exact .nil
  | @turned prompt after transcript later cycles earlier unbroken turns ih =>
      have relists := turn_relists prompt transcript cycles
      rw [Returns, turns] at relists
      have relists := relists after rfl
      generalize after.listing = listing at relists ⊢
      cases relists with
      | same => exact ih
      | cleared => exact .nil
      | loaded source => exact .of_source source
      | @extended text line given kept =>
          obtain ⟨line_eq, filled⟩ := Order.read_eq_keep kept
          have plain := unbroken _ given text rfl
          have trimmed := trimmed_trim text.toList
          rw [← line_eq] at trimmed filled
          apply ih.append _ trimmed filled
          rw [line_eq]
          exact ⟨fun feed => plain.1 (trim_subset _ feed), fun back => plain.2 (trim_subset _ back)⟩

/-- The listing is saved without a fault. -/
def Saves (prompt : Prompt) (transcript : Transcript) (file : String) : Prop :=
  ∃ text, prompt.saved = .ok text ∧ (transcript.save file text).1 = .ok ()

theorem saved_eq_ok {text : String} (saved : prompt.saved = .ok text) :
    prompt.listing ≠ [] ∧ text = String.join (prompt.listing.map (· ++ "\n")) := by
  unfold Prompt.saved at saved
  split at saved
  · cases saved
  · rename_i filled
    cases saved
    exact ⟨by simpa using filled, rfl⟩

/-- Whatever was typed and loaded before, a listing that is saved and loaded again is the same. -/
theorem save_then_load_keeps_listing (prompt : Prompt) (transcript : Transcript) (cycles : Nat)
    (saving loading file : String) (rest : List (Option String)) (reached : prompt.Reached)
    (idle : prompt.isRunning = false)
    (typed : transcript.typed = some saving :: some loading :: rest)
    (asksSave : Order.read saving = .save file) (asksLoad : Order.read loading = .load file)
    (unmarked : ∀ line, prompt.listing.head? = some line →
      line.toList.head? ≠ some Source.byteOrderMark)
    (saves : prompt.Saves transcript file) :
    ∃ text middle after,
      (prompt.turn cycles : StateM Transcript _) transcript = (some prompt, middle) ∧
      middle.load file = .ok text ∧ listingOf text = prompt.listing ∧
      (prompt.turn cycles : StateM Transcript _) middle = (some prompt, after) := by
  obtain ⟨text, saved, stored⟩ := saves
  obtain ⟨folder, stored⟩ := save_eq_ok stored
  obtain ⟨filled, text_eq⟩ := saved_eq_ok saved
  have same : listingOf text = prompt.listing := by
    rw [text_eq]
    exact reached.tidy.listingOf_join filled unmarked
  obtain ⟨middle, first, typed', folder'⟩ := turn_save cycles idle typed asksSave saved stored
  have loaded : middle.folder.load file = .ok text := by
    rw [folder']
    exact Folder.load_of_save stored
  obtain ⟨after, second⟩ := turn_load cycles idle typed' asksLoad loaded
  rw [same] at second
  refine ⟨text, middle, after, first, ?_, same, second⟩
  rw [Transcript.load, loaded]

/-! ### Sessions on a given console -/

instance (transcript : Transcript) : Decidable transcript.Unbroken :=
  inferInstanceAs (Decidable (∀ entry ∈ transcript.typed, ∀ line ∈ entry,
    '\n' ∉ line.toList ∧ '\r' ∉ line.toList))

def afterTurns? (cycles : Nat) : Nat → Prompt → Transcript → Option (Prompt × Transcript)
  | 0, prompt, transcript => some (prompt, transcript)
  | n + 1, prompt, transcript =>
    if transcript.Unbroken then
      match (prompt.turn cycles : StateM Transcript _) transcript with
      | (some after, later) => afterTurns? cycles n after later
      | (none, _) => none
    else none

theorem Reached.afterTurns {n : Nat} (reached : prompt.Reached)
    (turned : afterTurns? cycles n prompt transcript = some (after, later)) : after.Reached := by
  induction n generalizing prompt transcript with
  | zero =>
      cases turned
      exact reached
  | succ n ih =>
      rw [afterTurns?] at turned
      split at turned
      · rename_i unbroken
        split at turned
        · rename_i next
          exact ih (.turned reached unbroken next) turned
        · cases turned
      · cases turned

def mixedTranscript : Transcript :=
  ⟨[some "load a", some " clear ", some "save b", some "LOAD  b"],
    ⟨(∅ : Std.ExtTreeMap String ByteArray).insert "a"
      "\ufeff\r\n int x = 1\r\n\r\n  write  x \r\n".toUTF8⟩, #[], #[], false, none⟩

theorem mixed_listing_kept :
    ∃ (prompt : Prompt) (transcript : Transcript) (text : String) (middle after : Transcript),
      prompt.Reached ∧ prompt.listing = ["int x = 1", "", "  write  x", "clear"] ∧
      transcript.typed = [some "save b", some "LOAD  b"] ∧ prompt.Saves transcript "b" ∧
      (prompt.turn 1 : StateM Transcript _) transcript = (some prompt, middle) ∧
      middle.load "b" = .ok text ∧ listingOf text = prompt.listing ∧
      (prompt.turn 1 : StateM Transcript _) middle = (some prompt, after) := by
  have checked : ((afterTurns? 1 2 .empty mixedTranscript).any fun state =>
      state.1.listing == ["int x = 1", "", "  write  x", "clear"] && !state.1.isRunning &&
        state.2.typed == [some "save b", some "LOAD  b"] &&
        (state.2.save "b" "int x = 1\n\n  write  x\nclear\n").1.isOk) = true := by
    decide +kernel
  obtain ⟨⟨prompt, transcript⟩, turned, fine⟩ := (Option.any_eq_true _ _).mp checked
  simp only [Bool.and_eq_true, beq_iff_eq, Bool.not_eq_true'] at fine
  obtain ⟨⟨⟨listing, idle⟩, typed⟩, stored⟩ := fine
  have reached := Reached.opened.afterTurns turned
  have saves : prompt.Saves transcript "b" := by
    refine ⟨"int x = 1\n\n  write  x\nclear\n", ?_, ?_⟩
    · rw [Prompt.saved, listing]
      rfl
    · cases outcome : (transcript.save "b" "int x = 1\n\n  write  x\nclear\n").1 with
      | ok done => rfl
      | error fault =>
          rw [outcome] at stored
          cases stored
  have unmarked : ∀ line, prompt.listing.head? = some line →
      line.toList.head? ≠ some Source.byteOrderMark := by
    intro line first
    rw [listing] at first
    cases first
    decide
  obtain ⟨text, middle, after, first, loaded, same, second⟩ :=
    save_then_load_keeps_listing prompt transcript 1 "save b" "LOAD  b" "b" [] reached idle typed
      (by decide) (by decide) unmarked saves
  exact ⟨prompt, transcript, text, middle, after, reached, listing, typed, saves, first, loaded,
    same, second⟩

end Prompt

end Terminal

end Easel
