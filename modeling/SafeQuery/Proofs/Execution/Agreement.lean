import SafeQuery.Proofs.Execution.Depth
import SafeQuery.Proofs.Execution.Room

/-!
# Executions in two environments

An execution sees of its environment the trees that calls come to, the functions that these name,
the encoder and the fields of values. If another environment agrees with it there,
`Environment.Agrees`, the executions in both go along with each other step by step, `next_alike`.
They can part only at a failure of the first one that is given up; what it has written by then is
the beginning of what the other one has written and will write: `execute_alike`.
-/

namespace SafeQuery

variable {G : ExecutionError → Prop}

/-- The evaluations are the same from all variables, except where the first one has a failure that
is given up. -/
def Eval.AlikeBut (G : ExecutionError → Prop) {α : Type} (e e' : Eval α) : Prop :=
  ∀ s, e'.run s = e.run s ∨ ∃ cause, G cause ∧ e.run s = .error cause

lemma Eval.AlikeBut.refl {α : Type} (e : Eval α) : e.AlikeBut G e := fun _ => .inl rfl

lemma Eval.alikeBut_congruence (G : ExecutionError → Prop) :
    Eval.Congruence fun _ => Eval.AlikeBut G where
  modifyGet g := .refl _
  throw _ := .refl _
  bind {α β e e' k k'} he hk := by
    intro s
    rw [StateT.run_bind, StateT.run_bind]
    obtain hsame | ⟨cause, hcause, hrun⟩ := he s
    · rw [hsame]
      rcases e.run s with cause | ⟨a, t⟩
      · exact .inl rfl
      · exact hk a t
    · rw [hrun]
      exact .inr ⟨cause, hcause, rfl⟩

def Frame.inEnv (env : Environment) (f : Frame) : Frame := { f with env }

def Task.inEnv (env : Environment) : Task → Task
  | statements f ns                 => statements (f.inEnv env) ns
  | loop f pos declared body items  => loop (f.inEnv env) pos declared body items
  | task                            => task

def Moment.inEnv (env : Environment) (m : Moment) : Moment :=
  { m with tasks := m.tasks.map (Task.inEnv env) }

def Move.inEnv (env : Environment) : Move → Move
  | goesOn m     => goesOn (m.inEnv env)
  | writes p m   => writes p (m.inEnv env)
  | ends failure => ends failure

/-- The second step is the first one in the other environment, unless the first one ends with a
failure that is given up. -/
def Move.AlikeBut (G : ExecutionError → Prop) (env : Environment) (move move' : Move) : Prop :=
  move' = move.inEnv env ∨ ∃ cause, G cause ∧ move = .ends (some cause)

/-- In another environment as many calls are open. -/
lemma countP_inEnv (env : Environment) (tasks : List Task) :
    (tasks.map (Task.inEnv env)).countP Task.isEndCall = tasks.countP Task.isEndCall := by
  rw [List.countP_map]
  congr 1
  funext task
  cases task <;> rfl

/-- Moves after evaluations that are alike are alike if they are for every value. -/
lemma Move.AlikeBut.eval {env : Environment} {α : Type} {e e' : Eval α} {scope : Scope}
    {k k' : α → Scope → Move} (he : e.AlikeBut G e')
    (hk : ∀ a t, (k a t).AlikeBut G env (k' a t)) :
    (Move.eval e scope k).AlikeBut G env (Move.eval e' scope k') := by
  rw [Move.eval, Move.eval]
  obtain hsame | ⟨cause, hcause, hrun⟩ := he scope
  · rw [hsame]
    rcases e.run scope with cause | ⟨a, t⟩
    · exact .inl rfl
    · exact hk a t
  · rw [hrun]
    exact .inr ⟨cause, hcause, rfl⟩

/-! ### Steps of statements -/

namespace Frame

variable {f : Frame} {env : Environment} {K : String → Prop}

/-- A call does the same in both environments if its tree is the same in both. -/
lemma performCall_alike (h : f.Corresponds (fun _ => Eval.AlikeBut G) K (f.inEnv env))
    (tasks : List Task) (scope : Scope) (pos : Position) {name : String}
    {argument : Option Pipeline} (htree : env.trees.get? name = f.env.trees.get? name)
    (hargument : ∀ p ∈ argument, ∀ name ∈ p.functions, K name) :
    (f.performCall tasks scope pos name argument).AlikeBut G env
      ((f.inEnv env).performCall (tasks.map (Task.inEnv env)) scope pos name argument) := by
  have htree' : (f.inEnv env).env.trees.get? name = f.env.trees.get? name := htree
  rw [performCall, performCall, htree', countP_inEnv]
  cases f.env.trees.get? name with
  | none => exact .inl rfl
  | some tree =>
    dsimp only
    split
    · exact .inl rfl
    · exact .eval (h.evalArgument argument hargument) fun dot t => .inl rfl

/-- The steps of a statement are alike, if what they name is the same. -/
lemma perform_alike (h : f.Corresponds (fun _ => Eval.AlikeBut G) K (f.inEnv env))
    (tasks : List Task) (scope : Scope) {n : Node} (hfunctions : ∀ name ∈ n.functions, K name)
    (htree : ∀ pos name argument, n = .call pos name argument →
      env.trees.get? name = f.env.trees.get? name) :
    (f.perform tasks scope n).AlikeBut G env
      ((f.inEnv env).perform (tasks.map (Task.inEnv env)) scope n) := by
  cases n with
  | text pos t | comment pos t | breakLoop pos | continueLoop pos => exact .inl rfl
  | action pos pipe =>
    refine .eval (h.evalPipeline pipe hfunctions) fun value t => .inl ?_
    split
    · rfl
    · rfl
  | branch kind pos pipe body otherwise =>
    cases kind with
    | cond | withValue =>
      refine .eval (h.evalPipeline pipe hfunctions) fun value t => .inl ?_
      cases value.isTrue with
      | true => rfl
      | false => rfl
    | range =>
      refine .eval (h.evalItems pos pipe hfunctions) fun items t => ?_
      split
      · exact .inl rfl
      · exact .eval (h.declareItems pipe) fun _ t' => .inl rfl
  | call pos name argument =>
    refine performCall_alike h tasks scope pos (htree pos name argument rfl) ?_
    rintro p rfl
    exact hfunctions

/-- A loop does the same in both environments for the same items. -/
lemma performLoop_alike (h : f.Corresponds (fun _ => Eval.AlikeBut G) K (f.inEnv env))
    (tasks : List Task) (scope : Scope) (pos : Position) (declared : List Variable)
    (body : List Node) (items : List (Value × Value)) :
    (f.performLoop tasks scope pos declared body items).AlikeBut G env
      ((f.inEnv env).performLoop (tasks.map (Task.inEnv env)) scope pos declared body items) := by
  cases items with
  | nil => exact .inl rfl
  | cons item items =>
    exact .eval (h.bindItem pos item.1 item.2 declared) fun _ t => .inl rfl

end Frame

/-! ### Environments that agree -/

/-- What an execution that begins with a tree sees of the first environment is the same in the
second one, up to fields of values that are given up. -/
structure Environment.Agrees (G : ExecutionError → Prop) (env env' : Environment) (first : Tree) :
    Prop where
  encoder : env'.encoder = env.encoder
  field (template : String) (dot : Value) (o : Operand) (hasArguments : Bool) (receiver : Value)
    (name : String) : Eval.AlikeBut G
      (liftM (Frame.fieldValue ⟨env, template, dot⟩ o hasArguments receiver name))
      (liftM (Frame.fieldValue ⟨env', template, dot⟩ o hasArguments receiver name))
  trees {n : Nat} {tree : Tree} {pos : Position} {name : String} {argument : Option Pipeline} :
    CallPath env.trees first n tree → .call pos name argument ∈ tree.walk →
      env'.trees.get? name = env.trees.get? name
  functions {n : Nat} {tree : Tree} {name : String} :
    CallPath env.trees first n tree → name ∈ tree.functions →
      env'.functions.get? name = env.functions.get? name

section Agreement

variable {env env' : Environment} {first tree : Tree}

lemma Environment.Agrees.corresponds (h : env.Agrees G env' first) {n : Nat}
    (hpath : CallPath env.trees first n tree) {f : Frame} (hf : f.env = env) :
    f.Corresponds (fun _ => Eval.AlikeBut G) (· ∈ tree.functions) (f.inEnv env') where
  toCongruence := Eval.alikeBut_congruence G
  template := rfl
  dot := rfl
  functions hname := hf ▸ h.functions hpath hname
  encoder := hf ▸ h.encoder
  field o hasArguments receiver name := by
    subst hf
    exact h.field f.template f.dot o hasArguments receiver name

/-- The next steps are alike at a moment whose calls have not left the trees of the first
environment. -/
theorem next_alike (h : env.Agrees G env' first) {m : Moment}
    (hbacked : Backed env first tree m.tasks) :
    m.next.AlikeBut G env' (m.inEnv env').next := by
  have hpath := hbacked.callPath
  obtain ⟨flow, tasks, scope⟩ := m
  cases tasks with
  | nil => exact .inl rfl
  | cons task tasks =>
    cases task with
    | endCall _ | endClause _ | endElse => exact .inl rfl
    | loop f pos declared body items =>
      obtain ⟨⟨hf, -⟩, -⟩ := hbacked.tail rfl
      have hf' := h.corresponds hpath hf
      cases flow with
      | breakLoop => exact .inl rfl
      | normal | continueLoop => exact Frame.performLoop_alike hf' _ _ _ _ _ _
    | statements f ns =>
      cases ns with
      | nil => exact .inl rfl
      | cons n ns =>
        cases flow with
        | breakLoop | continueLoop => exact .inl rfl
        | normal =>
          obtain ⟨⟨hf, hsub⟩, -⟩ := hbacked.tail rfl
          have hn : n ∈ tree.walk := hsub (by simp)
          refine Frame.perform_alike (h.corresponds hpath hf) (.statements f ns :: tasks) scope
            (fun name hname => Tree.mem_functions hn hname) ?_
          rintro pos name argument rfl
          rw [hf]
          exact h.trees hpath hn

end Agreement

/-! ### What has been written -/

/-- A piece that is written goes behind what has been written, as far as it fits. -/
lemma Sink.put_prefix {w : Sink} (h : w.cut = []) (p : Piece) :
    w.bytes <+: (w.put p).2.bytes ∧ ((w.put p).1 = true → (w.put p).2.cut = []) := by
  have hbytes : w.bytes = w.pieces.reverse.flatMap Piece.bytes := by
    rw [bytes, h, List.append_nil]
  rw [hbytes]
  unfold put
  split
  · exact ⟨⟨p.bytes, by simp [bytes, h]⟩, fun _ => h⟩
  · dsimp only
    split
    · exact ⟨⟨p.bytes, by simp [bytes, h]⟩, fun _ => h⟩
    · exact ⟨⟨_, rfl⟩, fun hfits => by cases hfits⟩

namespace Progress

/-- An execution that goes on has cut nothing. -/
def IsWhole : Progress → Prop
  | going _ w => w.cut = []
  | ended _   => True

/-- A step adds to what has been written. -/
lemma IsWhole.step {p : Progress} (h : p.IsWhole) :
    p.step.IsWhole ∧ p.sink.bytes <+: p.step.sink.bytes := by
  cases p with
  | ended o => exact ⟨trivial, List.prefix_rfl⟩
  | going m w =>
    rw [Progress.step]
    cases m.next with
    | goesOn m' => exact ⟨h, List.prefix_rfl⟩
    | ends failure => exact ⟨trivial, List.prefix_rfl⟩
    | writes piece m' =>
      obtain ⟨hmore, hcut⟩ := Sink.put_prefix h piece
      rw [Move.take]
      split
      · rename_i hfits
        exact ⟨hcut hfits, hmore⟩
      · exact ⟨trivial, hmore⟩

/-- Two executions: they have come to the same point in their environments, or the first one has
ended with a failure that is given up, and the other one has written as much at least. -/
inductive AlikeBut (G : ExecutionError → Prop) (env' : Environment) : Progress → Progress → Prop
  | going {m : Moment} {w : Sink} : w.cut = [] →
      AlikeBut G env' (.going m w) (.going (m.inEnv env') w)
  | ended (o : Environment.Outcome) : AlikeBut G env' (.ended o) (.ended o)
  | apart {cause : ExecutionError} {w : Sink} {q : Progress} : G cause → q.IsWhole →
      w.bytes <+: q.sink.bytes → AlikeBut G env' (.ended ⟨some cause, w⟩) q

variable {env env' : Environment} {first : Tree} {p q : Progress}

/-- A step of both executions. -/
lemma AlikeBut.step (h : AlikeBut G env' p q)
    (hnext : ∀ m w, p = .going m w → m.next.AlikeBut G env' (m.inEnv env').next) :
    AlikeBut G env' p.step q.step := by
  cases h with
  | ended o => exact .ended o
  | apart hcause hwhole hmore =>
    obtain ⟨hwhole', hmore'⟩ := hwhole.step
    exact .apart hcause hwhole' (hmore.trans hmore')
  | @going m w hcut =>
    have hother : IsWhole (.going (m.inEnv env') w) := hcut
    obtain hsame | ⟨cause, hcause, hends⟩ := hnext m w rfl
    · rw [Progress.step, Progress.step, hsame]
      cases m.next with
      | goesOn m' => exact .going hcut
      | ends failure => exact .ended _
      | writes piece m' =>
        rw [Move.inEnv, Move.take, Move.take]
        split
        · rename_i hfits
          exact .going ((Sink.put_prefix hcut piece).2 hfits)
        · exact .ended _
    · obtain ⟨hwhole, hmore⟩ := hother.step
      rw [Progress.step, hends]
      exact .apart hcause hwhole hmore

/-- The executions go along with each other. -/
lemma alike_after (h : env.Agrees G env' first) (data : Value) (room : Option Nat) (n : Nat) :
    AlikeBut G env' ((env.beginning first data room).after n)
      ((env'.beginning first data room).after n) := by
  induction n with
  | zero => exact .going rfl
  | succ n ih =>
    rw [after_succ, after_succ]
    refine ih.step fun m w hreach => ?_
    obtain ⟨⟨tree, hbacked⟩, -⟩ := nested_after hreach
    exact next_alike h hbacked

end Progress

namespace Environment

variable {env env' : Environment} {first : Tree}

/-- Executions in environments that agree are the same, unless the first one has a failure that is
given up; then it has written the beginning of what the other one has written. -/
theorem execute_alike (h : env.Agrees G env' first) (data : Value) (room : Option Nat) :
    env'.execute first data room = env.execute first data room ∨
      ∃ cause, G cause ∧ (env.execute first data room).failure = some cause ∧
        (env.execute first data room).sink.bytes <+: (env'.execute first data room).sink.bytes := by
  obtain ⟨k, hfirst⟩ := env.beginning_leads first data room
  obtain ⟨l, hother⟩ := env'.beginning_leads first data room
  have hend := Progress.alike_after h data room (k + l)
  rw [Progress.after_add, hfirst, Progress.after_ended, Nat.add_comm, Progress.after_add, hother,
    Progress.after_ended] at hend
  generalize env.execute first data room = o at hend ⊢
  generalize env'.execute first data room = o' at hend ⊢
  cases hend with
  | ended => exact .inl rfl
  | apart hcause _ hmore => exact .inr ⟨_, hcause, rfl, hmore⟩

end Environment

end SafeQuery
