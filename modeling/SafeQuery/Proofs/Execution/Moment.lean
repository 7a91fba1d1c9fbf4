import Mathlib.Logic.Function.Iterate
import SafeQuery.Proofs.Execution.Run

/-!
# Executions step by step

An execution as a sequence of steps. Between two steps there is a `Moment`: how the statements
before it were left, what is left to be done, and the variables. `Moment.next` says what the next
step does; it does not depend on the output, and `Progress.step` takes the step with the output as
it is. A call of a template leaves a task behind that gives the caller its variables back, so that
the calls that have not ended can be counted.
-/

namespace SafeQuery

/-- What an execution has left to do. -/
inductive Task where
  /-- Run statements one after the other. -/
  | statements (frame : Frame) (ns : List Node)
  /-- Behind a clause, keep as many variables as there were before it. -/
  | endClause (mark : Nat)
  /-- Go on with the items of a loop that are left. -/
  | loop (frame : Frame) (pos : Position) (declared : List Variable) (body : List Node)
      (items : List (Value × Value))
  /-- Behind the else part of a loop, go on however it was left. -/
  | endElse
  /-- Behind a template that was called, go on with the variables of the caller. -/
  | endCall (scope : Scope)

/-- The task is what is left of a call. -/
def Task.isEndCall : Task → Bool
  | endCall _ => true
  | _         => false

/-- An execution between two steps. -/
structure Moment where
  flow : Flow
  tasks : List Task
  scope : Scope

def Moment.calls (m : Moment) : Nat := m.tasks.countP Task.isEndCall

/-- What a step does. -/
inductive Move where
  /-- Another moment comes, and nothing is written. -/
  | goesOn (m : Moment)
  /-- A piece is written before the other moment comes. -/
  | writes (p : Piece) (m : Moment)
  /-- The execution ends. -/
  | ends (failure : Option ExecutionError)

namespace Move

def eval {α : Type} (e : Eval α) (scope : Scope) (k : α → Scope → Move) : Move :=
  match e.run scope with
  | .ok (a, t)    => k a t
  | .error cause  => .ends (some cause)

def moment? : Move → Option Moment
  | goesOn m   => some m
  | writes _ m => some m
  | ends _     => none

end Move

/-! ### Steps of statements -/

def Items.all : Items → List (Value × Value)
  | pairs ps => ps
  | count n  => (List.range n).map fun i => (.ofNat i, .ofNat i)

def elseNodes : Option Block → List Node
  | none   => []
  | some b => b.nodes

namespace Frame

def evalItems (f : Frame) (pos : Position) (pipe : Pipeline) : Eval Items := do
  let value ← f.evalCommands none pipe.commands
  match Items.ofValue? value with
  | none       => throw (.fault (f.placeAt pos pipe.print) (.notIterable value.display))
  | some items => return items

def declareItems (pipe : Pipeline) : Eval Unit :=
  unless pipe.assigns do pipe.declared.forM fun v => declare v .null

/-- Give index and value of an item to the variables of a loop. -/
def bindItem (f : Frame) : Position → Value → Value → List Variable → Eval Unit :=
  Stage.bindItem ⟨f, none⟩

def evalArgument (f : Frame) : Option Pipeline → Eval Value
  | some p => f.evalPipeline p
  | none   => return .null

/-- The step of a call; `tasks` is what is to be done behind it. -/
def performCall (f : Frame) (tasks : List Task) (scope : Scope) (pos : Position) (name : String)
    (argument : Option Pipeline) : Move :=
  let place := f.placeAt pos (callText name argument)
  match f.env.trees.get? name with
  | none      => .ends (some (.fault place (.noTemplate name)))
  | some tree =>
    if maxCallDepth ≤ tasks.countP Task.isEndCall then .ends (some (.fault place .tooDeep))
    else .eval (f.evalArgument argument) scope fun dot t =>
      .goesOn ⟨.normal, .statements ⟨f.env, tree.name, dot⟩ tree.root.nodes ::
        .endCall (t.outermost scope.length) :: tasks, [("$", dot)]⟩

/-- The step of a statement; `tasks` is what is to be done behind it. -/
def perform (f : Frame) (tasks : List Task) (scope : Scope) : Node → Move
  | .text _ t                => .writes (.text t) ⟨.normal, tasks, scope⟩
  | .comment _ _             => .goesOn ⟨.normal, tasks, scope⟩
  | .action _ pipe           =>
    .eval (f.evalPipeline pipe) scope fun value t =>
      if pipe.declared.isEmpty then .writes (.value value) ⟨.normal, tasks, t⟩
      else .goesOn ⟨.normal, tasks, t⟩
  | .branch .cond _ pipe body otherwise =>
    .eval (f.evalPipeline pipe) scope fun value t =>
      let chosen := if value.isTrue then .statements f body.nodes
        else .statements f (elseNodes otherwise)
      .goesOn ⟨.normal, chosen :: .endClause scope.length :: tasks, t⟩
  | .branch .withValue _ pipe body otherwise =>
    .eval (f.evalPipeline pipe) scope fun value t =>
      let chosen := if value.isTrue then .statements { f with dot := value } body.nodes
        else .statements f (elseNodes otherwise)
      .goesOn ⟨.normal, chosen :: .endClause scope.length :: tasks, t⟩
  | .branch .range pos pipe body otherwise =>
    .eval (f.evalItems pos pipe) scope fun items t =>
      if items.isEmpty then
        .goesOn ⟨.normal, .statements f (elseNodes otherwise) :: .endElse ::
          .endClause scope.length :: tasks, t⟩
      else
        .eval (declareItems pipe) t fun _ t =>
          .goesOn ⟨.normal, .loop f pos pipe.declared body.nodes items.all ::
            .endClause scope.length :: tasks, t⟩
  | .call pos name argument  => f.performCall tasks scope pos name argument
  | .breakLoop _             => .goesOn ⟨.breakLoop, tasks, scope⟩
  | .continueLoop _          => .goesOn ⟨.continueLoop, tasks, scope⟩

def performLoop (f : Frame) (tasks : List Task) (scope : Scope) (pos : Position)
    (declared : List Variable) (body : List Node) : List (Value × Value) → Move
  | []              => .goesOn ⟨.normal, tasks, scope⟩
  | (i, v) :: items =>
    .eval (f.bindItem pos i v declared) scope fun _ t =>
      .goesOn ⟨.normal, .statements { f with dot := v } body :: .endClause t.length ::
        .loop f pos declared body items :: tasks, t⟩

end Frame

def Moment.next : Moment → Move
  | ⟨_, [], _⟩                                     => .ends none
  | ⟨flow, .statements _ [] :: tasks, scope⟩       => .goesOn ⟨flow, tasks, scope⟩
  | ⟨.normal, .statements f (n :: ns) :: tasks, scope⟩ =>
    f.perform (.statements f ns :: tasks) scope n
  | ⟨flow, .statements _ (_ :: _) :: tasks, scope⟩ => .goesOn ⟨flow, tasks, scope⟩
  | ⟨flow, .endClause mark :: tasks, scope⟩        => .goesOn ⟨flow, tasks, scope.outermost mark⟩
  | ⟨.breakLoop, .loop _ _ _ _ _ :: tasks, scope⟩  => .goesOn ⟨.normal, tasks, scope⟩
  | ⟨_, .loop f pos declared body items :: tasks, scope⟩ =>
    f.performLoop tasks scope pos declared body items
  | ⟨_, .endElse :: tasks, scope⟩                  => .goesOn ⟨.normal, tasks, scope⟩
  | ⟨_, .endCall scope :: tasks, _⟩                => .goesOn ⟨.normal, tasks, scope⟩

/-! ### Executions -/

/-- How far an execution has come. -/
inductive Progress where
  | going (m : Moment) (w : Sink)
  | ended (outcome : Environment.Outcome)

/-- Take a step with the output as it is. If a piece does not fit, the execution ends. -/
def Move.take (w : Sink) : Move → Progress
  | goesOn m     => .going m w
  | writes p m   =>
    if (w.put p).1 then .going m (w.put p).2 else .ended ⟨some .outputFull, (w.put p).2⟩
  | ends failure => .ended ⟨failure, w⟩

namespace Progress

def step : Progress → Progress
  | going m w     => m.next.take w
  | ended outcome => .ended outcome

/-- How far an execution has come behind as many steps as given. -/
def after (p : Progress) (n : Nat) : Progress := step^[n] p

/-- An execution that has come to the first point comes to the second. -/
def Leads (p q : Progress) : Prop := ∃ n, p.after n = q

variable {p q r : Progress}

lemma after_succ (p : Progress) (n : Nat) : p.after (n + 1) = (p.after n).step :=
  Function.iterate_succ_apply' step n p

lemma after_add (p : Progress) (m n : Nat) : p.after (m + n) = (p.after m).after n := by
  rw [after, after, after, Nat.add_comm, Function.iterate_add_apply]

/-- Behind its end an execution does nothing. -/
lemma after_ended (outcome : Environment.Outcome) (n : Nat) :
    (ended outcome).after n = ended outcome := Function.iterate_fixed rfl n

lemma Leads.refl (p : Progress) : Leads p p := ⟨0, rfl⟩

lemma Leads.trans (h : Leads p q) (h' : Leads q r) : Leads p r := by
  obtain ⟨m, rfl⟩ := h
  obtain ⟨n, rfl⟩ := h'
  exact ⟨m + n, after_add p m n⟩

lemma leads_step (p : Progress) : Leads p p.step := ⟨1, rfl⟩

/-- A step that the execution goes on behind leads to the next moment. -/
lemma moment?_of_step {m m' : Moment} {w w' : Sink} (h : (going m w).step = .going m' w') :
    m.next.moment? = some m' := by
  rw [step] at h
  cases hnext : m.next with
  | goesOn m₁ =>
    rw [hnext] at h
    cases h
    rfl
  | writes piece m₁ =>
    rw [hnext, Move.take] at h
    split at h <;> cases h
    rfl
  | ends failure =>
    rw [hnext] at h
    cases h

end Progress

/-- The execution of a template with its data, before the first step. -/
def Environment.beginning (env : Environment) (tree : Tree) (data : Value) (room : Option Nat) :
    Progress :=
  .going ⟨.normal, [.statements ⟨env, tree.name, data⟩ tree.root.nodes], [("$", data)]⟩
    (.ofRoom room)

end SafeQuery
