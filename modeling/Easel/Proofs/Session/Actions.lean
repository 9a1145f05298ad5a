import Mathlib.Data.List.Basic
import Easel.Proofs.Blocks.Outline
import Easel.Proofs.Structured.Meaning
import Easel.Session.Run

/-! What each statement does to a session, in terms of what it does to the variables. -/

namespace Easel

namespace Session

section Monad

variable {α β : Type}

theorem bind_apply (action : Action α) (next : α → Action β) (session : Session) :
    (action >>= next) session = match action session with
      | .ok a after => next a after
      | .error fault after => .error fault after := by
  change EStateM.bind action next session = _
  unfold EStateM.bind
  cases action session <;> rfl

theorem get_bind (next : Session → Action β) (session : Session) :
    (get >>= next) session = next session session := rfl

theorem ask_bind (question : Variables → Except Error α) (next : α → Action β)
    (session : Session) :
    (ask question >>= next) session = match question session.vars with
      | .ok a => next a session
      | .error fault => .error fault session := by
  rw [bind_apply, ask]
  cases question session.vars <;> rfl

theorem lookUp_bind (question : Program → Except Error α) (next : α → Action β)
    (session : Session) :
    (lookUp question >>= next) session = match question session.program with
      | .ok a => next a session
      | .error fault => .error fault session := by
  rw [bind_apply, lookUp]
  cases question session.program <;> rfl

theorem change_bind (edit : Variables → Except Error Variables) (next : Unit → Action β)
    (session : Session) :
    (change edit >>= next) session = match edit session.vars with
      | .ok vars => next () { session with vars }
      | .error fault => .error fault session := by
  rw [bind_apply, change]
  cases edit session.vars <;> rfl

end Monad

/-! ### Simple statements -/

/-- The action edits the variables again and again. Where an edit fails, those before it stay made. -/
structure Edits (action : Action Unit) (edits : List (Variables → Except Error Variables)) : Prop
    where
  ok : ∀ {session : Session} {vars : Variables}, makeAll edits session.vars = .ok vars →
    action session = .ok () { session with vars }
  error : ∀ {session : Session} {fault : Error} {vars : Variables},
    Breaks edits session.vars fault vars → action session = .error fault { session with vars }

namespace Edits

theorem change (edit : Variables → Except Error Variables) : Edits (change edit) [edit] where
  ok := by
    intro session vars edited
    rw [makeAll_singleton] at edited
    rw [Session.change, edited]
  error := by
    intro session fault vars breaks
    obtain ⟨failed, rfl⟩ := breaks.singleton
    rw [Session.change, failed]

theorem ask {α : Type} (question : Variables → Except Error α)
    (edit : α → Variables → Except Error Variables) :
    Edits (Session.ask question >>= fun a => Session.change (edit a))
      [fun vars => question vars >>= fun a => edit a vars] := by
  have same : (Session.ask question >>= fun a => Session.change (edit a)) =
      Session.change fun vars => question vars >>= fun a => edit a vars := by
    funext session
    rw [ask_bind, Session.change]
    cases answered : question session.vars <;> rfl
  exact same ▸ change _

theorem andThen {first second : Action Unit} {early late : List (Variables → Except Error Variables)}
    (begins : Edits first early) (ends : Edits second late) :
    Edits (first >>= fun _ => second) (early ++ late) where
  ok := by
    intro session vars edited
    rw [makeAll_append] at edited
    obtain ⟨middle, edited, rest⟩ := bind_eq_ok.mp edited
    rw [bind_apply, begins.ok edited]
    exact ends.ok rest
  error := by
    intro session fault vars breaks
    rw [bind_apply]
    obtain breaks | ⟨middle, edited, breaks⟩ := breaks.append
    · rw [begins.error breaks]
    · rw [begins.ok edited]
      exact ends.error breaks

theorem forM {α : Type} (edit : α → Variables → Except Error Variables) (list : List α) :
    Edits (list.forM fun a => Session.change (edit a)) (list.map edit) := by
  induction list with
  | nil => exact ⟨fun edited => by cases edited; rfl, nofun⟩
  | cons head tail ih => exact (change (edit head)).andThen ih

end Edits

end Session

/-- The further names come first, and the last edit gives the variable its value. -/
def Declaration.edits (declaration : Declaration) : List (Variables → Except Error Variables) :=
  declaration.extra.map (fun name vars => vars.ensure name declaration.kind) ++
    [fun vars => do
      let value ← vars.evaluate declaration.kind declaration.expression
      vars.assign declaration.name value]

theorem Declaration.forall_edits {good : (Variables → Except Error Variables) → Prop}
    {declaration : Declaration}
    (extra : ∀ name ∈ declaration.extra, good (·.ensure name declaration.kind))
    (last : good fun vars => do
      let value ← vars.evaluate declaration.kind declaration.expression
      vars.assign declaration.name value) :
    ∀ edit ∈ declaration.edits, good edit := by
  intro edit member
  rcases List.mem_append.mp member with member | member
  · obtain ⟨name, listed, rfl⟩ := List.mem_map.mp member
    exact extra name listed
  · obtain rfl := List.mem_singleton.mp member
    exact last

theorem Declaration.makeAll_edits (declaration : Declaration) (vars : Variables) :
    makeAll declaration.edits vars = vars.declare declaration := by
  rw [edits, makeAll_append, makeAll_map]
  exact bind_congr fun _ => makeAll_singleton

/-- What a simple statement does to the variables. To draw is to ask them something. -/
def Simple.edits : Simple → List (Variables → Except Error Variables)
  | declare declaration => declaration.edits
  | array declaration => [(·.makeArray declaration)]
  | poke cell => [fun vars => do
    let (index, value) ← vars.poked cell
    return vars.putCell cell.array index value]
  | peek cell => [(·.peek cell)]
  | draw drawing arguments => [fun vars => do
    let _ ← vars.stroke drawing arguments
    return vars]
  | write expression => [fun vars => do
    let _ ← vars.written expression
    return vars]

theorem Scene.vars_change (scene : Scene) (edit : Variables → Except Error Variables) :
    (·.vars) <$> scene.change edit = edit scene.vars := by
  unfold Scene.change
  cases edit scene.vars <;> rfl

theorem Scene.vars_draw (scene : Scene) (stroke : Variables → Except Error Stroke) :
    (·.vars) <$> scene.draw stroke = (do let _ ← stroke scene.vars; return scene.vars) := by
  unfold Scene.draw
  cases stroke scene.vars <;> rfl

theorem Simple.makeAll_edits (act : Simple) (scene : Scene) :
    makeAll act.edits scene.vars = (·.vars) <$> act.effect scene := by
  cases act with
  | declare declaration => rw [edits, declaration.makeAll_edits, effect, scene.vars_change]
  | array declaration => rw [edits, makeAll_singleton, effect, scene.vars_change]
  | poke cell => rw [edits, makeAll_singleton, effect, scene.vars_change]
  | peek cell => rw [edits, makeAll_singleton, effect, scene.vars_change]
  | draw drawing arguments => rw [edits, makeAll_singleton, effect, scene.vars_draw]
  | write expression =>
      rw [edits, makeAll_singleton, effect, scene.vars_draw]
      cases scene.vars.written expression <;> rfl

theorem Simple.makeAll_of_effect {act : Simple} {scene after : Scene}
    (effect : act.effect scene = .ok after) : makeAll act.edits scene.vars = .ok after.vars := by
  rw [act.makeAll_edits, effect]
  rfl

theorem Simple.breaks_of_effect {act : Simple} {scene : Scene} {fault : Error}
    (effect : act.effect scene = .error fault) :
    ∃ vars, Breaks act.edits scene.vars fault vars := by
  apply exists_breaks
  rw [act.makeAll_edits, effect]
  rfl

namespace Session

theorem edits_declare (declaration : Declaration) : Edits (declare declaration) declaration.edits :=
  (Edits.forM (fun name vars => vars.ensure name declaration.kind) declaration.extra).andThen
    (Edits.ask _ fun value vars => vars.assign declaration.name value)

theorem edits_poke (cell : Poke) : Edits (poke cell) [fun vars => do
    let (index, value) ← vars.poked cell
    return vars.putCell cell.array index value] :=
  Edits.ask (·.poked cell) fun place vars => .ok (vars.putCell cell.array place.1 place.2)

/-- The action leaves all but variables and canvas alone, which end as in the scene. -/
def Plays (action : Action Unit) (session : Session) (scene : Scene) : Prop :=
  action session = .ok () { session with vars := scene.vars, strokes := scene.strokes }

variable (session : Session) {closures : Closures}

theorem draws (stroke : Variables → Except Error Stroke) {scene : Scene}
    (drawn : Scene.draw ⟨session.vars, closures, session.strokes⟩ stroke = .ok scene) :
    Plays (do emit (← ask stroke)) session scene ∧ scene.closures = closures := by
  obtain ⟨stroke', found, same⟩ := bind_eq_ok.mp drawn
  cases same
  refine ⟨?_, rfl⟩
  rw [Plays, ask_bind, found]
  rfl

theorem Edits.plays {action : Action Unit} {edits : List (Variables → Except Error Variables)}
    {edit : Variables → Except Error Variables} (each : Edits action edits) {scene : Scene}
    (changed : Scene.change ⟨session.vars, closures, session.strokes⟩ edit = .ok scene)
    (whole : makeAll edits session.vars = edit session.vars) :
    Plays action session scene ∧ scene.closures = closures := by
  obtain ⟨vars, edited, same⟩ := bind_eq_ok.mp changed
  cases same
  exact ⟨each.ok (whole.trans edited), rfl⟩

theorem perform_write (address : Nat) (expression : String) :
    perform address (.write expression) = (do
      emit (← ask fun vars => do return .write (← vars.written expression))) := by
  funext session
  simp only [perform, ask_bind]
  cases session.vars.written expression <;> rfl

theorem perform_simple (act : Simple) (address : Nat) {scene : Scene}
    (effect : act.effect ⟨session.vars, closures, session.strokes⟩ = .ok scene) :
    Plays (perform address act.statement) session scene ∧ scene.closures = closures := by
  cases act with
  | declare declaration =>
      exact (edits_declare declaration).plays session effect (declaration.makeAll_edits _)
  | array declaration => exact (Edits.change _).plays session effect makeAll_singleton
  | poke cell =>
      rw [Simple.effect] at effect
      exact (edits_poke cell).plays session effect makeAll_singleton
  | peek cell => exact (Edits.change _).plays session effect makeAll_singleton
  | draw drawing arguments => exact draws session _ effect
  | write expression =>
      rw [Simple.statement, perform_write]
      exact draws session _ effect

theorem ask_breaks {α : Type} {question : Variables → Except Error α} (next : α → Action Unit)
    {fault : Error} {vars : Variables}
    (breaks : Breaks [fun vars => do let _ ← question vars; return vars] session.vars fault vars) :
    (ask question >>= next) session = .error fault { session with vars } := by
  obtain ⟨failed, rfl⟩ := breaks.singleton
  obtain failed | ⟨_, -, impossible⟩ := bind_eq_error.mp failed
  · rw [ask_bind, failed]
  · cases impossible

theorem perform_simple_breaks (act : Simple) (address : Nat) {fault : Error} {vars : Variables}
    (breaks : Breaks act.edits session.vars fault vars) :
    perform address act.statement session = .error fault { session with vars } := by
  cases act with
  | declare declaration => exact (edits_declare declaration).error breaks
  | array declaration => exact (Edits.change _).error breaks
  | poke cell => exact (edits_poke cell).error breaks
  | peek cell => exact (Edits.change _).error breaks
  | draw drawing arguments => exact ask_breaks session _ breaks
  | write expression => exact ask_breaks session _ breaks

/-! ### Blocks -/

theorem skipBlock_eq (address : Nat) :
    skipBlock address session = match session.program.target address with
      | .ok target => .ok () { session with pc := target + 1 }
      | .error fault => .error fault session := by
  unfold skipBlock
  rw [lookUp_bind]
  cases session.program.target address <;> rfl

theorem enterIf_eq (address : Nat) (condition : String) :
    enterIf address condition session = match session.vars.boolean condition with
      | .ok true => .ok () session
      | .ok false => skipBlock address session
      | .error fault => .error fault session := by
  unfold enterIf
  rw [ask_bind]
  cases session.vars.boolean condition with
  | error fault => rfl
  | ok holds => cases holds <;> rfl

theorem enterFor_eq (address : Nat) (header : ForHeader) :
    enterFor address header session = match session.vars.counter header with
      | .error fault => .error fault session
      | .ok counter =>
        if counter.isRunning then
          match session.vars.assign header.counter (.int counter.current) with
          | .error fault => .error fault session
          | .ok vars =>
            .ok () { session with vars, loops := session.loops.insert address counter }
        else skipBlock address { session with loops := session.loops.erase address } := by
  unfold enterFor Variables.counter
  rw [ask_bind]
  cases session.vars.int header.start with
  | error fault => rfl
  | ok current =>
      dsimp only
      rw [ask_bind]
      cases session.vars.int header.limit with
      | error fault => rfl
      | ok limit =>
          dsimp only
          rw [ask_bind]
          cases session.vars.int header.step with
          | error fault => rfl
          | ok step =>
              simp only [pure, Except.pure, bind, Except.bind]
              by_cases running :
                (⟨current, limit, if step = 0 then 1 else step⟩ : Counter).isRunning
              · simp only [running, ↓reduceIte]
                change (change _ >>= _) session = _
                rw [change_bind]
                cases session.vars.assign header.counter (.int current) <;> rfl
              · simp only [running, Bool.false_eq_true, ↓reduceIte]
                rfl

theorem advance_eq {address : Nat} {header : ForHeader}
    (opens : session.program.statement? address = some (.forNext header)) :
    advance address session = match session.loops[address]? with
      | none => .ok false session
      | some counter => match counter.next?.filter (·.isRunning) with
        | none => .ok false { session with loops := session.loops.erase address }
        | some counter => match session.vars.assign header.counter (.int counter.current) with
          | .error fault =>
            .error fault { session with loops := session.loops.insert address counter }
          | .ok vars =>
            .ok true { session with vars, loops := session.loops.insert address counter } := by
  unfold advance
  rw [get_bind]
  simp only [opens]
  cases session.loops[address]? with
  | none => rfl
  | some counter =>
      dsimp only
      cases counter.next? with
      | none => rfl
      | some counter =>
          by_cases running : counter.isRunning
          · simp only [running, ↓reduceIte, Option.filter_some]
            rw [bind_apply]
            dsimp only [set, MonadStateOf.set, EStateM.set]
            rw [change_bind]
            cases session.vars.assign header.counter (.int counter.current) <;> rfl
          · simp only [running, Bool.false_eq_true, ↓reduceIte, Option.filter_some]
            rfl

theorem advance_other {address : Nat}
    (other : ∀ header, session.program.statement? address ≠ some (.forNext header)) :
    advance address session = .error .endForWithoutFor session := by
  unfold advance
  rw [get_bind]
  cases found : session.program.statement? address with
  | none => rfl
  | some statement =>
      cases statement with
      | forNext header => exact absurd found (other header)
      | _ => rfl

theorem endWhile_eq (address : Nat) :
    endBlock address .whileBlock session = match session.program.opener address with
      | .ok opener => .ok () { session with pc := opener }
      | .error fault => .error fault session := by
  simp only [endBlock]
  rw [lookUp_bind]
  cases session.program.opener address <;> rfl

theorem endFor_eq (address : Nat) :
    endBlock address .forBlock session = match session.program.opener address with
      | .ok opener => match advance opener session with
        | .ok true after => .ok () { after with pc := opener + 1 }
        | .ok false after => .ok () after
        | .error fault after => .error fault after
      | .error fault => .error fault session := by
  simp only [endBlock]
  rw [lookUp_bind]
  cases session.program.opener address with
  | error fault => rfl
  | ok opener =>
      dsimp only
      rw [bind_apply]
      cases advance opener session with
      | error fault after => rfl
      | ok again after => cases again <;> rfl

theorem endMethod_eq (address : Nat) :
    endBlock address .methodBlock session = match session.program.opener address with
      | .ok opener => returnFrom opener session
      | .error fault => .error fault session := by
  simp only [endBlock]
  rw [lookUp_bind]
  cases session.program.opener address <;> rfl

theorem register_eq (address : Nat) (signature : Signature) :
    register address signature session = match session.program.target address with
      | .ok last => .ok () { session with
        methods := session.methods.register ⟨signature, address, last⟩, pc := last + 1 }
      | .error fault => .error fault session := by
  unfold register
  rw [lookUp_bind]
  cases session.program.target address <;> rfl

end Session

/-! ### Calls -/

namespace Variables

def entries (names : List String) (vars : Variables) : List (String × Entry) :=
  names.filterMap fun name => (vars.get? name).map (name, ·)

/-- The entries that parameters take the place of when they are bound one after the other. -/
def displaced : List (String × Value) → Variables → List (String × Entry)
  | [], _ => []
  | (name, value) :: rest, vars =>
    ((vars.get? name).map (name, ·)).toList ++ (vars.restore name ⟨value, .local⟩).displaced rest

theorem ext_get? {first second : Variables} (same : ∀ name, first.get? name = second.get? name) :
    first = second := by
  have table : first.table = second.table := Std.ExtTreeMap.ext_getElem? @same
  cases first
  cases second
  cases table
  rfl

theorem get?_restore (vars : Variables) (name p : String) (entry : Entry) :
    (vars.restore name entry).get? p = if name = p then some entry else vars.get? p := by
  simp [get?, restore, Std.ExtTreeMap.getElem?_insert]

theorem get?_erase (vars : Variables) (name p : String) :
    (vars.erase name).get? p = if name = p then none else vars.get? p := by
  simp [get?, erase, Std.ExtTreeMap.getElem?_erase]

theorem add_eq_ok {vars after : Variables} {name : String} {value : Value} {scope : Scope}
    (added : vars.add name value scope = .ok after) : after = vars.restore name ⟨value, scope⟩ := by
  unfold add at added
  split at added
  · cases added
    rfl
  · cases added

theorem get?_add {vars after : Variables} {name : String} {value : Value} {scope : Scope}
    (added : vars.add name value scope = .ok after) (p : String) :
    after.get? p = if name = p then some ⟨value, scope⟩ else vars.get? p := by
  rw [add_eq_ok added, get?_restore]

theorem get?_modify (vars : Variables) (name p : String) (change : Entry → Entry) :
    (⟨vars.table.modify name change⟩ : Variables).get? p =
      if name = p then (vars.get? name).map change else vars.get? p := by
  simp [get?, Std.ExtTreeMap.getElem?_modify]

theorem contains_eq_false {vars : Variables} {name : String} :
    vars.contains name = false ↔ vars.get? name = none := by
  rw [contains, Std.ExtTreeMap.contains_eq_isSome_getElem?]
  exact Option.isSome_eq_false_iff.trans Option.isNone_iff_eq_none

theorem entry_eq_ok {vars : Variables} {name : String} {entry : Entry} :
    vars.entry name = .ok entry ↔ vars.get? name = some entry := by
  unfold Variables.entry
  cases vars.get? name <;> simp

theorem update_eq_ok {vars after : Variables} {name : String} {value : Value}
    (updated : vars.update name value = .ok after) :
    ∃ entry stored, vars.get? name = some entry ∧ value.coerce entry.value.kind = .ok stored ∧
      vars.restore name { entry with value := stored } = after := by
  obtain ⟨entry, found, updated⟩ := bind_eq_ok.mp updated
  obtain ⟨stored, coerced, updated⟩ := bind_eq_ok.mp updated
  exact ⟨entry, stored, entry_eq_ok.mp found, coerced, Except.ok.inj updated⟩

theorem get?_erases (names : List String) (vars : Variables) (p : String) :
    (names.foldl erase vars).get? p = if p ∈ names then none else vars.get? p := by
  induction names generalizing vars with
  | nil => simp
  | cons name names ih =>
      rw [List.foldl_cons, ih, get?_erase]
      by_cases first : name = p
      · simp [first]
      · simp [first, Ne.symm first]

theorem get?_restores (names : List String) (before vars : Variables) (p : String) :
    ((before.entries names).foldr (fun (name, entry) vars => vars.restore name entry) vars).get? p =
      if p ∈ names then (before.get? p).or (vars.get? p) else vars.get? p := by
  induction names with
  | nil => simp [entries]
  | cons name names ih =>
      unfold entries at ih ⊢
      by_cases first : name = p
      · subst first
        cases found : before.get? name with
        | none => simp [found, ih]
        | some entry => simp [found, get?_restore]
      · cases found : before.get? name with
        | none => simp [found, ih, Ne.symm first]
        | some entry => simp [found, ih, get?_restore, first, Ne.symm first]

theorem get?_recover (names : List String) (before after : Variables) (p : String) :
    (recover names before after).get? p = if p ∈ names then before.get? p else after.get? p := by
  unfold recover
  induction names generalizing after with
  | nil => simp
  | cons name names ih =>
      rw [List.foldl_cons, ih]
      by_cases first : name = p
      · subst first
        cases found : before.get? name with
        | none => simp [get?_erase]
        | some entry => simp [get?_restore]
      · cases found : before.get? name with
        | none => simp [get?_erase, first, Ne.symm first]
        | some entry => simp [get?_restore, first, Ne.symm first]

theorem displaced_eq {bindings : List (String × Value)} (distinct : (bindings.map (·.1)).Nodup)
    (vars : Variables) : vars.displaced bindings = vars.entries (bindings.map (·.1)) := by
  induction bindings generalizing vars with
  | nil => rfl
  | cons binding bindings ih =>
      obtain ⟨name, value⟩ := binding
      rw [List.map_cons, List.nodup_cons] at distinct
      have later : (vars.restore name ⟨value, .local⟩).entries (bindings.map (·.1)) =
          vars.entries (bindings.map (·.1)) := by
        refine List.filterMap_congr fun p member => ?_
        have other : name ≠ p := fun same => distinct.1 (same ▸ member)
        rw [get?_restore, if_neg other]
      rw [displaced, ih distinct.2, later]
      cases found : vars.get? name <;> simp [entries, found]

theorem bindings_names {signature : Signature} {arguments : List String} {vars : Variables}
    {bindings : List (String × Value)} (bound : vars.bindings signature arguments = .ok bindings) :
    bindings.map (·.1) = signature.parameters.map (·.name) := by
  unfold Variables.bindings at bound
  split at bound
  · rename_i fits
    generalize signature.parameters = parameters at bound fits ⊢
    induction parameters generalizing arguments bindings with
    | nil =>
        cases bound
        rfl
    | cons parameter parameters ih =>
        obtain _ | ⟨argument, arguments⟩ := arguments
        · cases fits
        · rw [List.zip_cons_cons, List.mapM_cons] at bound
          obtain ⟨first, evaluated, bound⟩ := bind_eq_ok.mp bound
          obtain ⟨rest, others, bound⟩ := bind_eq_ok.mp bound
          obtain ⟨value, -, same⟩ := bind_eq_ok.mp evaluated
          cases same
          cases bound
          simp only [List.map_cons, ih others (by simpa using fits)]
  · cases bound

end Variables

def Signature.edits (signature : Signature) (bindings : List (String × Value)) :
    List (Variables → Except Error Variables) :=
  bindings.map (fun binding vars => vars.add binding.1 binding.2 .local) ++
    [(·.ensure signature.name signature.returns)]

theorem Signature.forall_edits {good : (Variables → Except Error Variables) → Prop}
    {signature : Signature} {bindings : List (String × Value)}
    (bound : ∀ binding ∈ bindings, good (·.add binding.1 binding.2 .local))
    (last : good (·.ensure signature.name signature.returns)) :
    ∀ edit ∈ signature.edits bindings, good edit := by
  intro edit member
  rcases List.mem_append.mp member with member | member
  · obtain ⟨binding, listed, rfl⟩ := List.mem_map.mp member
    exact bound binding listed
  · obtain rfl := List.mem_singleton.mp member
    exact last

theorem Signature.makeAll_edits (signature : Signature) (bindings : List (String × Value))
    (vars : Variables) : makeAll (signature.edits bindings) vars =
      vars.addLocals bindings >>= (·.ensure signature.name signature.returns) := by
  rw [edits, makeAll_append, makeAll_map]
  exact bind_congr fun _ => makeAll_singleton

theorem Variables.enter_eq {vars : Variables} {signature : Signature} {arguments : List String}
    {bindings : List (String × Value)}
    (evaluated : vars.bindings signature arguments = .ok bindings) :
    vars.enter signature arguments = makeAll (signature.edits bindings) vars := by
  rw [signature.makeAll_edits, enter, evaluated]
  rfl

namespace Session

variable (session : Session)

theorem unbindLocals_eq {frame : Frame} (before after : Variables)
    (saved : frame.shadowed = before.entries frame.locals) :
    unbindLocals frame after = Variables.recover frame.locals before after := by
  refine Variables.ext_get? fun p => ?_
  unfold unbindLocals
  rw [saved, Variables.get?_restores, Variables.get?_recover, Variables.get?_erases]
  by_cases bound : p ∈ frame.locals <;> simp [bound]

theorem bindLocals_ok {bindings : List (String × Value)} {vars : Variables}
    (bound : session.vars.addLocals bindings = .ok vars) :
    bindLocals bindings session = .ok (session.vars.displaced bindings) { session with vars } := by
  induction bindings generalizing session with
  | nil =>
      cases bound
      rfl
  | cons binding bindings ih =>
      rw [Variables.addLocals, List.foldlM_cons] at bound
      obtain ⟨middle, added, bound⟩ := bind_eq_ok.mp bound
      unfold bindLocals
      rw [get_bind]
      rw [change_bind, added]
      dsimp only
      rw [bind_apply, ih { session with vars := middle } bound, Variables.displaced,
        ← Variables.add_eq_ok added]
      rfl

theorem bindLocals_breaks {bindings : List (String × Value)} {fault : Error} {vars : Variables}
    (breaks : Breaks (bindings.map fun binding vars => vars.add binding.1 binding.2 .local)
      session.vars fault vars) :
    bindLocals bindings session = .error fault { session with vars } := by
  induction bindings generalizing session with
  | nil => cases breaks
  | cons binding bindings ih =>
      unfold bindLocals
      rw [get_bind]
      rw [change_bind]
      cases breaks with
      | here failed =>
          dsimp only at failed
          rw [failed]
      | @later _ _ _ middle _ _ added breaks =>
          dsimp only at added
          rw [added]
          dsimp only
          rw [bind_apply, ih { session with vars := middle } breaks]

/-- What a call of a method leaves on the stack. -/
def frameOf (session : Session) (method : Method) : Frame :=
  let names := method.signature.parameters.map (·.name)
  ⟨method, session.pc, names, session.vars.entries names⟩

/-- The same, for parameters that need not differ from each other. -/
def frameFor (session : Session) (method : Method) (bindings : List (String × Value)) : Frame :=
  ⟨method, session.pc, bindings.map (·.1), session.vars.displaced bindings⟩

theorem frameFor_eq {method : Method} {arguments : List String} {bindings : List (String × Value)}
    (distinct : (method.signature.parameters.map (·.name)).Nodup)
    (evaluated : session.vars.bindings method.signature arguments = .ok bindings) :
    session.frameFor method bindings = session.frameOf method := by
  have names := Variables.bindings_names evaluated
  rw [frameFor, Variables.displaced_eq (names ▸ distinct), names]
  rfl

theorem call_unknown {name : String} (arguments : List String)
    (unknown : session.methods.get? name = none) :
    call name arguments session = .error (.unknownMethod name) session := by
  unfold call
  rw [get_bind]
  rw [unknown]
  rfl

section

variable {name : String} {arguments : List String} {method : Method} {fault : Error}
  {bindings : List (String × Value)} {vars : Variables}

theorem call_refuses (known : session.methods.get? name = some method)
    (refused : session.vars.bindings method.signature arguments = .error fault) :
    call name arguments session = .error fault session := by
  unfold call
  rw [get_bind]
  rw [known]
  dsimp only
  rw [ask_bind, refused]

theorem call_breaks (known : session.methods.get? name = some method)
    (evaluated : session.vars.bindings method.signature arguments = .ok bindings)
    (breaks : Breaks (method.signature.edits bindings) session.vars fault vars) :
    call name arguments session = .error fault { session with vars } := by
  unfold call
  rw [get_bind]
  rw [known]
  dsimp only
  rw [ask_bind, evaluated]
  dsimp only
  rw [bind_apply]
  obtain breaks | ⟨middle, bound, breaks⟩ := breaks.append
  · rw [bindLocals_breaks session breaks]
  · rw [makeAll_map] at bound
    obtain ⟨failed, rfl⟩ := breaks.singleton
    rw [bindLocals_ok session bound]
    dsimp only
    rw [change_bind, failed]

theorem call_eq (known : session.methods.get? name = some method)
    (evaluated : session.vars.bindings method.signature arguments = .ok bindings)
    (entered : session.vars.enter method.signature arguments = .ok vars) :
    call name arguments session = match session.frames.push (session.frameFor method bindings) with
      | .ok frames => .ok () { session with vars, frames, pc := method.address + 1 }
      | .error fault => .error fault { session with vars } := by
  rw [Variables.enter_eq evaluated, Signature.makeAll_edits] at entered
  obtain ⟨middle, bound, ensured⟩ := bind_eq_ok.mp entered
  unfold call
  rw [get_bind]
  rw [known]
  dsimp only
  rw [ask_bind, evaluated]
  dsimp only
  rw [bind_apply, bindLocals_ok session bound]
  dsimp only
  rw [change_bind, ensured]
  dsimp only
  rw [bind_apply]
  change (match session.frames.push (session.frameFor method bindings) with
    | .ok frames => set { session with vars, frames, pc := method.address + 1 }
    | .error fault => throw fault : Action Unit) { session with vars } = _
  cases session.frames.push (session.frameFor method bindings) <;> rfl

end

theorem returnFrom_eq (address : Nat) :
    returnFrom address session = match session.frames.pop with
      | .ok (frame, frames) =>
        if frame.method.address = address then .ok () { session with
          frames, pc := frame.returnTo, vars := unbindLocals frame session.vars }
        else .error (.returnOutside frame.method.signature.name) session
      | .error _ => .ok () session := by
  unfold returnFrom
  rw [get_bind]
  obtain ⟨program, pc, vars, methods, ⟨limit, overflow, items, size, size_eq⟩, loops, strokes⟩ :=
    session
  cases items with
  | nil => rfl
  | cons frame rest =>
      simp only [Stack.top?, Stack.pop, List.head?_cons]
      by_cases own : frame.method.address = address
      · simp only [own, bne_self_eq_false, Bool.false_eq_true, ↓reduceIte]
        rfl
      · simp only [bne_iff_ne, ne_eq, own, not_false_eq_true, ↓reduceIte]
        rfl

/-! ### Starting -/

def fresh (session : Session) : Session :=
  { session with
    pc := 0, vars := .empty, methods := .empty, frames := session.frames.clear, loops := ∅ }

theorem start_eq : start session = session.program.seeds.toList.forM
    (fun seed => change (·.add seed.1 seed.2 .global)) session.fresh := by
  unfold start
  rw [bind_apply]
  dsimp only [modify, modifyGet, MonadStateOf.modifyGet, EStateM.modifyGet]
  rw [bind_apply]
  rfl

theorem edits_seeds (seeds : List (String × Value)) :
    Edits (seeds.forM fun seed => change (·.add seed.1 seed.2 .global))
      (seeds.map fun seed vars => vars.add seed.1 seed.2 .global) :=
  Edits.forM (fun seed vars => vars.add seed.1 seed.2 .global) seeds

theorem start_ok {vars : Variables}
    (grown : Variables.seeded session.program.seeds.toList = .ok vars) :
    start session = .ok () { session.fresh with vars } := by
  rw [start_eq]
  apply (edits_seeds _).ok
  rw [makeAll_map]
  exact grown

theorem start_error {fault : Error}
    (failed : Variables.seeded session.program.seeds.toList = .error fault) :
    ∃ vars, start session = .error fault { session.fresh with vars } := by
  rw [Variables.seeded, ← makeAll_map] at failed
  obtain ⟨vars, breaks⟩ := exists_breaks failed
  refine ⟨vars, ?_⟩
  rw [start_eq]
  exact @Edits.error _ _ (edits_seeds _) session.fresh _ _ breaks

end Session

end Easel
