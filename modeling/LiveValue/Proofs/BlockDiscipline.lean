import LiveValue.Proofs.EventContext

/-!
# Blocks inside each other

A host opens blocks of variables inside each other and builds events in them, and leaves a block at
its end or with a fault. An open block only keeps what its own names stood for before, and yet what
is bound at any moment is what the open blocks bind, the inner ones first.

* `Script`: what a host does; `Script.exec`: what is bound at the moments of its run;
* `Sight.Merges`, `Run.Disciplined`: what is kept from the start of a script to its end;
* `variables_stack_disciplined`: every moment of every run, and every block.
-/

namespace LiveValue

/-! ## Scripts -/

/-- What a host does in which variables are bound. -/
inductive Script where
  | idle
  | fail (fault : Fault)
  /-- Builds the event of an action. -/
  | build (r : Resolver) (action : Value) (surfaceId sourceComponentId : String)
      (moment : Moment)
  /-- Goes on with a second script, unless the first one fails. -/
  | andThen (first second : Script)
  /-- Does all this in a block with variables, which is left also after a fault. -/
  | within (fresh : Fields) (body : Script)
  /-- Goes on with a second script if the first one fails. -/
  | rescue (body handler : Script)

/-- A moment of a run: what the open blocks bind, the innermost first, and what is bound. -/
structure Sight where
  opened : List Fields
  bound : LogVariables

/-- A block of a run: what was bound before it was entered, and after it was left. -/
structure Visit where
  before : LogVariables
  after : LogVariables

/-- A run of a script: how it ends and with what bound, the notes taken by then, and its moments
and blocks. -/
structure Run (B : Log.Binder) where
  ending : Except Fault Unit
  state : B.State
  taken : Nat
  sights : List Sight
  visits : List Visit

/-- A run, and another one that starts where it ends. -/
def Run.followedBy {B : Log.Binder} (first second : Run B) : Run B :=
  { second with
    sights := first.sights ++ second.sights
    visits := first.visits ++ second.visits }

section

variable {B : Log.Binder} (meanwhile : ActionEvent.Meanwhile B)

/-- Runs a script where blocks are open. Its moments are those at which it does something: before
and after a block or an event, inside of them, and whenever something is logged, also inside blocks
that a function has opened. -/
def Script.exec : Script → List Fields → B.State → Nat → Run B
  | idle, opened, b, taken => ⟨.ok (), b, taken, [⟨opened, B.bound b⟩], []⟩
  | fail fault, opened, b, taken => ⟨.error fault, b, taken, [⟨opened, B.bound b⟩], []⟩
  | build r action surfaceId sourceComponentId moment, opened, b, taken =>
      let (outcome, after) :=
        ActionEvent.buildUnder meanwhile b r action surfaceId sourceComponentId moment taken
      { ending := outcome.result.map fun _ => ()
        state := after
        taken := taken + outcome.history.notes.length
        sights := ⟨opened, B.bound b⟩ :: outcome.history.lines.map (fun line =>
          ⟨line.blocks ++ opened, B.bound (B.enterAll line.blocks b)⟩) ++ [⟨opened, B.bound after⟩]
        visits := [⟨B.bound b, B.bound after⟩] }
  | andThen first second, opened, b, taken =>
      let run := first.exec opened b taken
      match run.ending with
      | .ok _ => run.followedBy (second.exec opened run.state run.taken)
      | .error _ => run
  | within fresh body, opened, b, taken =>
      let (inside, kept) := B.enter fresh b
      let run := body.exec (fresh :: opened) inside taken
      let after := B.leave kept run.state
      { run with
        state := after
        sights := ⟨opened, B.bound b⟩ :: ⟨fresh :: opened, B.bound inside⟩ :: run.sights
          ++ [⟨opened, B.bound after⟩]
        visits := run.visits ++ [⟨B.bound b, B.bound after⟩] }
  | rescue body handler, opened, b, taken =>
      let run := body.exec opened b taken
      match run.ending with
      | .ok _ => run
      | .error _ => run.followedBy (handler.exec opened run.state run.taken)

end

/-! ## What runs keep -/

/-- What a name stands for inside blocks, the innermost first, and what is bound outside. -/
def standing (outside : LogVariables) (opened : List Fields) (name : String) : Option Value :=
  (opened.findSome? fun fresh => Entries.find? name fresh.reverse).or (outside name)

/-- Inside more blocks, their own variables stand before those of the others. -/
theorem standing_append (outside : LogVariables) (inner opened : List Fields) (name : String) :
    standing outside (inner ++ opened) name
      = LogVariables.enterAll inner (standing outside opened) name := by
  induction inner with
  | nil => rfl
  | cons fresh rest ih =>
    change standing outside (fresh :: (rest ++ opened)) name
      = (Entries.find? name fresh.reverse).or
          (LogVariables.enterAll rest (standing outside opened) name)
    rw [← ih, standing, standing, ← Option.or_assoc, List.findSome?_cons]
    cases Entries.find? name fresh.reverse <;> rfl

/-- Bound is what the open blocks bind, the inner ones first, and what is bound outside. -/
def Sight.Merges (outside : LogVariables) (sight : Sight) : Prop :=
  sight.bound = standing outside sight.opened

/-- A run merges what is bound at each of its moments, and gives back what was bound before: after
each of its blocks, and in the end. -/
structure Run.Disciplined {B : Log.Binder} (outside : LogVariables) (b : B.State) (run : Run B) :
    Prop where
  sights : ∀ sight ∈ run.sights, sight.Merges outside
  visits : ∀ visit ∈ run.visits, visit.after = visit.before
  same : B.bound run.state = B.bound b

theorem Run.Disciplined.followedBy {B : Log.Binder} {outside : LogVariables} {b : B.State}
    {run run' : Run B} (h : run.Disciplined outside b)
    (h' : run'.Disciplined outside run.state) : (run.followedBy run').Disciplined outside b where
  sights sight hsight := (List.mem_append.1 hsight).elim (h.sights sight) (h'.sights sight)
  visits visit hvisit := (List.mem_append.1 hvisit).elim (h.visits visit) (h'.visits visit)
  same := h'.same.trans h.same

section

variable {B : Log.Binder} {outside : LogVariables} {opened : List Fields} {b : B.State}

/-- Inside blocks, what they bind is merged with what is bound around them. -/
theorem Sight.Merges.enterAll (hB : B.Documented)
    (h : Sight.Merges outside ⟨opened, B.bound b⟩) (blocks : List Fields) :
    Sight.Merges outside ⟨blocks ++ opened, B.bound (B.enterAll blocks b)⟩ := by
  have hbound : B.bound b = standing outside opened := h
  have hinside := hB.bound_enterAll blocks b
  rw [hbound] at hinside
  exact hinside.trans (funext fun name => (standing_append outside blocks opened name).symm)

namespace Script

variable {meanwhile : ActionEvent.Meanwhile B}

/-- A block keeps to the discipline if what is done in it does, however it ends. -/
theorem disciplined_within (hB : B.Documented) (h : Sight.Merges outside ⟨opened, B.bound b⟩)
    {fresh : Fields} {body : Script} {taken : Nat}
    (hbody : (body.exec meanwhile (fresh :: opened) (B.enter fresh b).1 taken).Disciplined outside
      (B.enter fresh b).1) :
    ((within fresh body).exec meanwhile opened b taken).Disciplined outside b := by
  have hsame := hB.bound_leave hbody.same
  refine ⟨fun sight hsight => ?_, fun visit hvisit => ?_, hsame⟩
  · simp only [exec, List.cons_append, List.mem_cons, List.mem_append, List.not_mem_nil,
      or_false] at hsight
    rcases hsight with rfl | rfl | hsight | rfl
    · exact h
    · exact h.enterAll hB [fresh]
    · exact hbody.sights sight hsight
    · exact hsame.trans h
  · simp only [exec, List.mem_append, List.mem_singleton] at hvisit
    rcases hvisit with hvisit | rfl
    · exact hbody.visits visit hvisit
    · exact hsame

theorem disciplined_build (hB : B.Documented) (hm : meanwhile.Settles)
    (h : Sight.Merges outside ⟨opened, B.bound b⟩) (r : Resolver) (action : Value)
    (surfaceId sourceComponentId : String) (moment : Moment) (taken : Nat) :
    ((build r action surfaceId sourceComponentId moment).exec meanwhile opened b taken).Disciplined
      outside b := by
  let built := ActionEvent.buildUnder meanwhile b r action surfaceId sourceComponentId moment taken
  have hsame : B.bound built.2 = B.bound b := ActionEvent.bound_buildUnder hB hm action
  refine ⟨fun sight hsight => ?_, fun visit hvisit => ?_, hsame⟩
  · simp only [exec, List.cons_append, List.mem_cons, List.mem_append, List.mem_map,
      List.not_mem_nil, or_false] at hsight
    rcases hsight with rfl | ⟨line, -, rfl⟩ | rfl
    · exact h
    · exact h.enterAll hB line.blocks
    · exact hsame.trans h
  · rw [exec, List.mem_singleton] at hvisit
    rw [hvisit]
    exact hsame

/-- Whatever a script does, its runs keep to the discipline: by induction on the script, for any
blocks that are open already. -/
theorem disciplined_exec (hB : B.Documented) (hm : meanwhile.Settles) (script : Script)
    (h : Sight.Merges outside ⟨opened, B.bound b⟩) (taken : Nat) :
    (script.exec meanwhile opened b taken).Disciplined outside b := by
  induction script generalizing opened b taken with
  | idle | fail =>
    refine ⟨fun sight hsight => ?_, nofun, rfl⟩
    obtain rfl : sight = ⟨opened, B.bound b⟩ := List.mem_singleton.1 hsight
    exact h
  | build r action surfaceId sourceComponentId moment =>
    exact disciplined_build hB hm h r action surfaceId sourceComponentId moment taken
  | within fresh body ih =>
    exact disciplined_within hB h (ih (h.enterAll hB [fresh]) taken)
  | andThen first second ihFirst ihSecond =>
    have hfirst := ihFirst h taken
    rw [exec]
    split
    · exact hfirst.followedBy (ihSecond (hfirst.same.trans h) _)
    · exact hfirst
  | rescue body handler ihBody ihHandler =>
    have hbody := ihBody h taken
    rw [exec]
    split
    · exact hbody
    · exact hbody.followedBy (ihHandler (hbody.same.trans h) _)

end Script

end

/-- Whatever a host does in blocks of variables that are opened inside each other, entered and left
at their end or with a fault, and whichever events it builds meanwhile: at every moment a name
stands for what the innermost open block that binds it says, and for what it stood for outside if
none does; after every block, and in the end, each name stands for what it stood for before. This
holds with every library that binds variables as documented. -/
theorem variables_stack_disciplined {B : Log.Binder} (hB : B.Documented)
    {meanwhile : ActionEvent.Meanwhile B} (hm : meanwhile.Settles) (script : Script) (b : B.State)
    (taken : Nat) :
    let run := script.exec meanwhile [] b taken
    (∀ sight ∈ run.sights, ∀ name,
      sight.bound name = standing (B.bound b) sight.opened name) ∧
    (∀ visit ∈ run.visits, visit.after = visit.before) ∧
    B.bound run.state = B.bound b := by
  have houtside : Sight.Merges (B.bound b) ⟨[], B.bound b⟩ := rfl
  have hrun := script.disciplined_exec hB hm houtside taken
  exact ⟨fun sight hsight name => congrFun (hrun.sights sight hsight) name, hrun.visits, hrun.same⟩

/-- A block for a surface, in it a block that binds one of its names again and fails in a third one,
and afterwards an event. -/
def nestedScript : Script :=
  .within [("surface_id", .str "outer"), ("step", .int 1)]
    (.andThen
      (.rescue
        (.within [("step", .int 2), ("item", .str "it")]
          (.within [("surface_id", .str "inner"), ("step", .int 3)] (.fail (.host "gave up"))))
        .idle)
      (.build surfaceResolver (.map surfaceAction) "main" "button" surfaceResolver.clock))

def outerBindings : Log.Bindings :=
  (Log.Bindings.enter [("step", .int 0), ("surface_id", .str "none")] .empty).1

/-- What `surface_id` stands for at the moments of that run: inside the blocks of the script, of the
event, and of a function that is called while the event is built. -/
theorem variables_stack_disciplined_nested :
    let run := nestedScript.exec (B := Log.Bindings.binder) .nothing [] outerBindings 0
    run.ending = .ok () ∧
    (run.sights.map fun sight => standing (Log.Bindings.binder.bound outerBindings) sight.opened
      "surface_id")
      = ["none", "outer", "outer", "outer", "outer", "inner", "inner", "outer", "outer", "outer",
        "outer", "other", "main", "outer", "none"].map (fun text => some (Value.str text)) ∧
    (∀ sight ∈ run.sights, sight.bound "surface_id"
      = standing (Log.Bindings.binder.bound outerBindings) sight.opened "surface_id") ∧
    Log.Bindings.binder.bound run.state = Log.Bindings.binder.bound outerBindings := by
  intro run
  obtain ⟨hsights, -, hsame⟩ := variables_stack_disciplined Log.Bindings.documented
    ActionEvent.Meanwhile.settles_nothing nestedScript outerBindings 0
  exact ⟨by cbv, by cbv, fun sight hsight => hsights sight hsight "surface_id", hsame⟩

end LiveValue
