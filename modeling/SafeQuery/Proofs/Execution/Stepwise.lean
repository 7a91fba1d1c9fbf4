import SafeQuery.Proofs.Execution.Moment

/-!
# The steps of an execution are its run

The steps of statements lead to what the statements are run to: `leads_runNodes` is the induction
over statements, with one over the items of a loop inside it and one over the depth of calls around
it. So the steps of an execution come to an end, and the end is that of `Environment.execute`.
-/

namespace SafeQuery

namespace Progress

/-- How far the execution has come behind a run. -/
def behind (tasks : List Task) : Except ExecutionError (Flow × Scope) × Sink → Progress
  | (.ok (flow, scope), w) => .going ⟨flow, tasks, scope⟩ w
  | (.error cause, w)      => .ended ⟨some cause, w⟩

variable {p : Progress} {tasks : List Task} {scope : Scope} {w : Sink} {act : Run Flow}

/-- Behind a clause the variables that it adds are gone. -/
lemma Leads.locally
    (h : p.Leads (behind (.endClause scope.length :: tasks) ((act.run scope).run.run w))) :
    p.Leads (behind tasks (((Run.locally act).run scope).run.run w)) := by
  refine h.trans ?_
  rw [Run.run_locally]
  rcases (act.run scope).run.run w with ⟨cause | ⟨flow, t⟩, w'⟩
  · exact .refl _
  · exact leads_step _

/-- Behind the else part of a loop the execution goes on. -/
lemma Leads.endElse (h : p.Leads (behind (.endElse :: tasks) ((act.run scope).run.run w))) :
    p.Leads (behind tasks (((do let _ ← act; return .normal : Run Flow).run scope).run.run w)) := by
  refine h.trans ?_
  rw [Run.run_bind]
  rcases (act.run scope).run.run w with ⟨cause | ⟨flow, t⟩, w'⟩
  · exact .refl _
  · exact leads_step _

/-- A step that depends on an evaluation leads on, if it does for every value. -/
lemma leads_eval {α : Type} {e : Eval α} {move : α → Scope → Move} {k : α → Run Flow}
    (h : ∀ a t, ((move a t).take w).Leads (behind tasks (((k a).run t).run.run w))) :
    ((Move.eval e scope move).take w).Leads
      (behind tasks (((Run.ofEval e >>= k).run scope).run.run w)) := by
  rw [Run.run_bind, Run.run_ofEval, Move.eval]
  rcases e.run scope with cause | ⟨a, t⟩
  · exact .refl _
  · exact h a t

end Progress

namespace Items

/-- A loop through numbers is one through pairs of equal numbers. -/
lemma forNumbers_eq (body : Value → Value → Run Flow) (i n : Nat) :
    forNumbers body i n =
      forPairs body ((List.range' i n).map fun i => (Value.ofNat i, Value.ofNat i)) := by
  induction n generalizing i with
  | zero => rfl
  | succ n ih =>
    rw [List.range'_succ, List.map_cons, forNumbers, forPairs]
    refine congrArg _ (funext fun flow => ?_)
    cases flow with
    | breakLoop => rfl
    | normal | continueLoop => exact ih (i + 1)

/-- A body is run for one item after the other. -/
lemma forEach_eq (items : Items) (body : Value → Value → Run Flow) :
    items.forEach body = forPairs body items.all := by
  cases items with
  | pairs ps => rfl
  | count n => rw [forEach, forNumbers_eq, all, List.range_eq_range']

end Items

namespace Stage

open Progress

/-! ### Calls -/

/-- Calls are as deep as the number of them says, and a template that is called is run as its steps
say. -/
structure Follows (s : Stage) (calls : Nat) : Prop where
  limit : s.enter = none ↔ maxCallDepth ≤ calls
  call : ∀ {enter tree dot scope tasks w}, s.enter = some enter →
    tasks.countP Task.isEndCall = calls →
      (Progress.going ⟨.normal, .statements ⟨s.env, tree.name, dot⟩ tree.root.nodes ::
        .endCall scope :: tasks, [("$", dot)]⟩ w).Leads
        (behind tasks (((do enter tree dot; return .normal : Run Flow).run scope).run.run w))

variable {s : Stage} {calls : Nat}

lemma Follows.withDot (hs : s.Follows calls) (dot : Value) : (s.withDot dot).Follows calls :=
  ⟨hs.limit, hs.call⟩

/-- The steps of a call lead to where its run ends. -/
lemma leads_callTemplate (hs : s.Follows calls) {tasks : List Task}
    (hcalls : tasks.countP Task.isEndCall = calls) (pos : Position) (name : String)
    (argument : Option Pipeline) (scope : Scope) (w : Sink) :
    ((s.toFrame.performCall tasks scope pos name argument).take w).Leads
      (behind tasks (((do s.callTemplate pos name argument; return .normal : Run Flow).run
        scope).run.run w)) := by
  rw [Frame.performCall, callTemplate]
  dsimp only
  cases htree : s.env.trees.get? name with
  | none => exact .refl _
  | some tree =>
    dsimp only
    cases henter : s.enter with
    | none =>
      rw [if_pos (hcalls ▸ hs.limit.mp henter)]
      exact .refl _
    | some enter =>
      have hlimit : ¬maxCallDepth ≤ tasks.countP Task.isEndCall := by
        rw [hcalls, ← hs.limit, henter]
        simp
      rw [if_neg hlimit]
      dsimp only
      cases argument with
      | none =>
        have hall : scope.outermost scope.length = scope := by simp [Scope.outermost]
        rw [pure_bind]
        change (Progress.going ⟨.normal, _ :: .endCall (scope.outermost scope.length) :: tasks, _⟩
          w).Leads _
        rw [hall]
        exact hs.call henter hcalls
      | some p =>
        rw [bind_assoc, Run.run_bind, Run.run_locally, Run.run_ofEval, Move.eval,
          Frame.evalArgument]
        rcases (s.evalPipeline p).run scope with cause | ⟨dot, t⟩
        · exact .refl _
        · exact hs.call henter hcalls

/-! ### Statements -/

/-- A loop with its items computed first. -/
lemma runNode_range (s : Stage) (pos : Position) (pipe : Pipeline) (body : Block)
    (otherwise : Option Block) :
    s.runNode (.branch .range pos pipe body otherwise) = Run.locally (do
      let items ← Run.ofEval (s.evalItems pos pipe)
      if items.isEmpty then
        let _ ← s.runElse otherwise
        return .normal
      else
        Run.ofEval (Frame.declareItems pipe)
        Items.forPairs (fun index value => do
          Run.ofEval (s.toFrame.bindItem pos index value pipe.declared)
          Run.locally ((s.withDot value).runNodes body.nodes)) items.all
        return .normal) := by
  obtain ⟨at₁, body⟩ := body
  rw [runNode, Frame.evalItems, Run.ofEval_bind, bind_assoc]
  refine congrArg Run.locally (congrArg _ (funext fun value => ?_))
  cases Items.ofValue? value with
  | none => rfl
  | some items =>
    dsimp only
    rw [Run.ofEval_pure, pure_bind, Items.forEach_eq, Frame.declareItems]
    cases items.isEmpty with
    | true => rfl
    | false =>
      cases pipe.assigns with
      | true => rfl
      | false => rfl

/-- A loop is run as its steps say, if its body is. -/
lemma leads_loop (s : Stage) {tasks : List Task} {body : List Node} (pos : Position)
    (declared : List Variable)
    (hbody : ∀ v items t w, (Progress.going ⟨.normal, .statements (s.withDot v).toFrame body ::
        .endClause t.length :: .loop s.toFrame pos declared body items :: tasks, t⟩ w).Leads
      (behind (.loop s.toFrame pos declared body items :: tasks)
        (((Run.locally ((s.withDot v).runNodes body)).run t).run.run w)))
    (items : List (Value × Value)) (scope : Scope) (w : Sink) :
    ((s.toFrame.performLoop tasks scope pos declared body items).take w).Leads
      (behind tasks (((do
        Items.forPairs (fun index value => do
          Run.ofEval (s.toFrame.bindItem pos index value declared)
          Run.locally ((s.withDot value).runNodes body)) items
        return .normal : Run Flow).run scope).run.run w)) := by
  induction items generalizing scope w with
  | nil => exact .refl _
  | cons item items ih =>
    obtain ⟨i, v⟩ := item
    rw [Items.forPairs, bind_assoc, bind_assoc]
    refine leads_eval fun _ t => (hbody v items t w).trans ?_
    rw [Run.run_bind]
    rcases ((Run.locally ((s.withDot v).runNodes body)).run t).run.run w with
      ⟨cause | ⟨flow, t'⟩, w'⟩
    · exact .refl _
    · cases flow with
      | breakLoop => exact leads_step _
      | normal | continueLoop => exact (leads_step _).trans (ih t' w')

mutual

/-- The step of a statement leads to what the statement is run to. -/
lemma leads_runNode {s : Stage} (hs : s.Follows calls) (tasks : List Task)
    (hcalls : tasks.countP Task.isEndCall = calls) (n : Node) (scope : Scope) (w : Sink) :
    ((s.toFrame.perform tasks scope n).take w).Leads
      (behind tasks (((s.runNode n).run scope).run.run w)) := by
  match n with
  | .text pos t =>
    rw [runNode, Run.run_bind, Run.run_emit]
    simp only [Frame.perform, Move.take]
    split
    · exact .refl _
    · exact .refl _
  | .comment _ _ | .breakLoop _ | .continueLoop _ =>
    rw [runNode]
    exact .refl _
  | .action pos pipe =>
    rw [runNode, Frame.perform]
    refine leads_eval fun value t => ?_
    split
    · rw [Run.run_bind, Run.run_emit]
      simp only [Move.take]
      split
      · exact .refl _
      · exact .refl _
    · exact .refl _
  | .branch .cond pos pipe ⟨at₁, body⟩ otherwise =>
    rw [runNode, Frame.perform]
    refine Leads.locally (leads_eval fun value t => ?_)
    cases value.isTrue with
    | true => exact leads_runNodes hs (.endClause scope.length :: tasks) hcalls body t w
    | false => exact leads_runElse hs (.endClause scope.length :: tasks) hcalls otherwise t w
  | .branch .withValue pos pipe ⟨at₁, body⟩ otherwise =>
    rw [runNode, Frame.perform]
    refine Leads.locally (leads_eval fun value t => ?_)
    cases value.isTrue with
    | true =>
      exact leads_runNodes (hs.withDot value) (.endClause scope.length :: tasks) hcalls body t w
    | false => exact leads_runElse hs (.endClause scope.length :: tasks) hcalls otherwise t w
  | .branch .range pos pipe ⟨at₁, body⟩ otherwise =>
    rw [runNode_range, Frame.perform]
    refine Leads.locally (leads_eval fun items t => ?_)
    cases items.isEmpty with
    | true =>
      refine Leads.endElse ?_
      exact leads_runElse hs (.endElse :: .endClause scope.length :: tasks) hcalls otherwise t w
    | false =>
      refine leads_eval fun _ t' => (leads_step _).trans ?_
      refine leads_loop s pos pipe.declared (fun v items t w => ?_) items.all t' w
      refine Leads.locally ?_
      exact leads_runNodes (hs.withDot v) (.endClause t.length :: .loop s.toFrame pos pipe.declared
        body items :: .endClause scope.length :: tasks) hcalls body t w
  | .call pos name argument =>
    rw [runNode, Frame.perform]
    exact leads_callTemplate hs hcalls pos name argument scope w

/-- The steps of statements lead to what the statements are run to. -/
lemma leads_runNodes {s : Stage} (hs : s.Follows calls) (tasks : List Task)
    (hcalls : tasks.countP Task.isEndCall = calls) (ns : List Node) (scope : Scope) (w : Sink) :
    (Progress.going ⟨.normal, .statements s.toFrame ns :: tasks, scope⟩ w).Leads
      (behind tasks (((s.runNodes ns).run scope).run.run w)) := by
  match ns with
  | [] =>
    rw [runNodes]
    exact leads_step _
  | n :: ns =>
    refine (leads_step _).trans ((leads_runNode hs (.statements s.toFrame ns :: tasks) hcalls n
      scope w).trans ?_)
    rw [runNodes, Run.run_bind]
    rcases ((s.runNode n).run scope).run.run w with ⟨cause | ⟨flow, t⟩, w'⟩
    · exact .refl _
    · cases flow with
      | normal => exact leads_runNodes hs tasks hcalls ns t w'
      | breakLoop | continueLoop =>
        cases ns with
        | nil => exact leads_step _
        | cons _ _ => exact leads_step _

/-- The steps of an else part lead to what it is run to. -/
lemma leads_runElse {s : Stage} (hs : s.Follows calls) (tasks : List Task)
    (hcalls : tasks.countP Task.isEndCall = calls) (otherwise : Option (BlockOf Node))
    (scope : Scope) (w : Sink) :
    (Progress.going ⟨.normal, .statements s.toFrame (elseNodes otherwise) :: tasks, scope⟩ w).Leads
      (behind tasks (((s.runElse otherwise).run scope).run.run w)) := by
  match otherwise with
  | none =>
    rw [runElse]
    exact leads_step _
  | some ⟨at₂, ns⟩ =>
    rw [runElse]
    exact leads_runNodes hs tasks hcalls ns scope w

end

end Stage

/-! ### Templates -/

namespace Environment

open Progress

/-- How a template is called where calls can be nested as deep as given. -/
def enterAt (env : Environment) : Nat → Option (Tree → Value → Output Unit)
  | 0     => none
  | d + 1 => some (env.runTree d)

/-- A template is run by entering it with what is left of the depth. -/
lemma runTree_eq (env : Environment) (d : Nat) (tree : Tree) (dot : Value) :
    env.runTree d tree dot = runTree.enterWith env (env.enterAt d) tree dot := by
  cases d with
  | zero => rfl
  | succ d => rfl

/-- However deep calls are nested, the steps lead to what statements are run to. -/
lemma follows_enterAt (env : Environment) (template : String) (dot : Value) {d calls : Nat}
    (h : d + calls = maxCallDepth) : Stage.Follows ⟨⟨env, template, dot⟩, env.enterAt d⟩ calls := by
  induction d generalizing template dot calls with
  | zero =>
    have hlimit : maxCallDepth ≤ calls := by omega
    constructor
    · simpa [enterAt] using hlimit
    · rintro enter tree dot' scope tasks w ⟨⟩
  | succ d ih =>
    have hlimit : ¬maxCallDepth ≤ calls := by omega
    constructor
    · simpa [enterAt] using hlimit
    · rintro enter tree dot' scope tasks w ⟨⟩ hcalls
      have hfollows := ih tree.name dot' (show d + (calls + 1) = maxCallDepth by omega)
      have hinner : (Task.endCall scope :: tasks).countP Task.isEndCall = calls + 1 := by
        rw [List.countP_cons_of_pos rfl, hcalls]
      refine (Stage.leads_runNodes hfollows _ hinner tree.root.nodes [("$", dot')] w).trans ?_
      rw [Run.run_bind, Run.run_lift, runTree_eq, run_enterWith]
      rcases ((Stage.runNodes ⟨⟨env, tree.name, dot'⟩, env.enterAt d⟩ tree.root.nodes).run
        [("$", dot')]).run.run w with ⟨cause | ⟨flow, t⟩, w'⟩
      · exact .refl _
      · exact leads_step _

/-- The steps of an execution come to an end, which is that of the execution. -/
theorem beginning_leads (env : Environment) (tree : Tree) (data : Value) (room : Option Nat) :
    (env.beginning tree data room).Leads (.ended (env.execute tree data room)) := by
  have hfollows : Stage.Follows ⟨⟨env, tree.name, data⟩, env.enterAt maxCallDepth⟩ 0 :=
    env.follows_enterAt tree.name data rfl
  refine (Stage.leads_runNodes hfollows [] rfl tree.root.nodes [("$", data)]
    (.ofRoom room)).trans ?_
  have hrun := run_enterWith env (env.enterAt maxCallDepth) tree data (.ofRoom room)
  rw [← runTree_eq] at hrun
  rcases hend : ((Stage.runNodes ⟨⟨env, tree.name, data⟩, env.enterAt maxCallDepth⟩
    tree.root.nodes).run [("$", data)]).run.run (.ofRoom room) with ⟨cause | ⟨flow, t⟩, w⟩
  · have hrun' : (env.runTree maxCallDepth tree data).run (Sink.ofRoom room) =
      (.error cause, w) := by rwa [hend] at hrun
    rw [execute, hrun']
    exact .refl _
  · have hrun' : (env.runTree maxCallDepth tree data).run (Sink.ofRoom room) =
      (.ok (), w) := by rwa [hend] at hrun
    rw [execute, hrun']
    exact leads_step _

end Environment

end SafeQuery
