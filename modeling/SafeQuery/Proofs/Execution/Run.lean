import Mathlib.Tactic.Common
import SafeQuery.Execution.Statement

/-!
# Runs from variables and an output

A run takes the variables and the output so far to its result with the variables and the output
behind it. The lemmas here say so for the parts that statements are made of, and for templates.
-/

namespace SafeQuery.Run

variable {α β : Type}

/-- Runs are equal if they are from all variables and outputs. -/
lemma ext {act act' : Run α} (h : ∀ s w, (act.run s).run.run w = (act'.run s).run.run w) :
    act = act' := by
  funext s
  funext w
  exact h s w

/-- Two computations one after the other. -/
lemma run_bind (act : Run α) (k : α → Run β) (s : Scope) (w : Sink) :
    ((act >>= k).run s).run.run w =
      match (act.run s).run.run w with
      | (.ok (a, t), w')   => ((k a).run t).run.run w'
      | (.error cause, w') => (.error cause, w') := by
  simp only [StateT.run_bind, ExceptT.run_bind]
  rcases (act.run s).run.run w with ⟨_ | ⟨a, t⟩, w'⟩ <;> rfl

/-- An evaluation writes nothing. -/
lemma run_ofEval (e : Eval α) (s : Scope) (w : Sink) :
    ((ofEval e).run s).run.run w = (e.run s, w) := by
  have hget : ((get : Run Scope).run s).run.run w = (.ok (s, s), w) := rfl
  unfold ofEval
  rw [run_bind, hget]
  dsimp only
  cases e.run s with
  | error cause => rfl
  | ok r => rfl

/-- A piece is written as far as it fits. -/
lemma run_emit (p : Piece) (s : Scope) (w : Sink) :
    ((emit p).run s).run.run w =
      (if (w.put p).1 then .ok ((), s) else .error .outputFull, (w.put p).2) := by
  simp only [emit]
  rw [run_bind]
  change (((if (w.put p).1 then pure () else throw .outputFull : Run Unit)).run s).run.run
    (w.put p).2 = _
  split <;> rfl

/-- A call leaves the variables as they are. -/
lemma run_lift (act : Output Unit) (s : Scope) (w : Sink) :
    ((liftM act : Run Unit).run s).run.run w =
      ((act.run.run w).1.map fun _ => ((), s), (act.run.run w).2) := by
  change (((do let a ← act; pure (a, s) : Output (Unit × Scope))).run.run w) = _
  simp only [ExceptT.run_bind, StateT.run_bind]
  rcases act.run.run w with ⟨_ | u, w'⟩ <;> rfl

/-- The variables that a computation adds are gone behind it. -/
lemma run_locally (act : Run α) (s : Scope) (w : Sink) :
    ((locally act).run s).run.run w =
      match (act.run s).run.run w with
      | (.ok (a, t), w')   => (.ok (a, t.outermost s.length), w')
      | (.error cause, w') => (.error cause, w') := by
  have hget : ((get : Run Scope).run s).run.run w = (.ok (s, s), w) := rfl
  unfold locally
  rw [run_bind, hget]
  dsimp only
  rw [run_bind]
  rcases (act.run s).run.run w with ⟨_ | ⟨a, t⟩, w'⟩
  · rfl
  · rfl

lemma ofEval_pure (a : α) : ofEval (pure a) = pure a := rfl

/-- Evaluations one after the other are runs one after the other. -/
lemma ofEval_bind (e : Eval α) (k : α → Eval β) :
    ofEval (e >>= k) = ofEval e >>= fun a => ofEval (k a) := by
  apply ext
  intro s w
  rw [run_bind, run_ofEval, run_ofEval, StateT.run_bind]
  rcases e.run s with cause | ⟨a, t⟩
  · rfl
  · exact (run_ofEval (k a) t w).symm

lemma ofEval_lift (x : Except ExecutionError α) :
    ofEval (liftM x) = match x with
      | .ok a        => pure a
      | .error cause => throw cause := by
  cases x <;> rfl

end SafeQuery.Run

namespace SafeQuery.Stage

/-- A template is called alike at two places whose frames and trees correspond, if the trees are run
alike there. -/
lemma callTemplate_congr {s s' : Stage} {g : Tree → Tree}
    (hplace : ∀ pos text, s'.placeAt pos text = s.placeAt pos text)
    (heval : ∀ p, s'.evalPipeline p = s.evalPipeline p)
    (htrees : ∀ name, s'.env.trees.get? name = (s.env.trees.get? name).map g)
    (hcalls : ∀ name tree dot, s.env.trees.get? name = some tree →
      (s'.enter.map fun e => e (g tree) dot) = s.enter.map fun e => e tree dot)
    (pos : Position) (name : String) (argument : Option Pipeline) :
    s'.callTemplate pos name argument = s.callTemplate pos name argument := by
  simp only [callTemplate, hplace, heval, htrees]
  cases htree : s.env.trees.get? name with
  | none => rfl
  | some tree =>
    have hcall := fun dot => hcalls name tree dot htree
    cases henter : s.enter with
    | none =>
      rw [henter] at hcall
      have hnone : s'.enter = none := by simpa using hcall default
      rw [hnone]
      rfl
    | some e =>
      rw [henter] at hcall
      obtain ⟨e', henter', -⟩ := Option.map_eq_some_iff.mp (hcall default)
      rw [henter'] at hcall ⊢
      have hsame : ∀ dot, e' (g tree) dot = e tree dot := fun dot => by simpa using hcall dot
      simp only [Option.map_some, hsame]

end SafeQuery.Stage

namespace SafeQuery.Environment

/-- A template ends as its statements do. -/
lemma run_enterWith (env : Environment) (enter : Option (Tree → Value → Output Unit))
    (tree : Tree) (dot : Value) (w : Sink) :
    (runTree.enterWith env enter tree dot).run.run w =
      ((((Stage.runNodes ⟨⟨env, tree.name, dot⟩, enter⟩ tree.root.nodes).run
        [("$", dot)]).run.run w).map (Except.map fun _ => ()) id) := by
  simp only [runTree.enterWith, ExceptT.run_bind, StateT.run_bind]
  rcases ((Stage.runNodes ⟨⟨env, tree.name, dot⟩, enter⟩ tree.root.nodes).run
    [("$", dot)]).run.run w with ⟨_ | r, w'⟩ <;> rfl

end SafeQuery.Environment
