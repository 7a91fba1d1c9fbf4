import Mathlib.Order.Defs.Unbundled
import SafeQuery.Proofs.Execution.Hook
import SafeQuery.Proofs.Execution.Run

/-!
# What evaluations do to variables

An evaluation touches the variables only where a pipeline declares some or gives them other values.
So it is enough to look at these places: if each of them takes the variables to ones in a relation
that is reflexive and transitive, then every evaluation does, `evalOperand_moves` and its like.
-/

namespace SafeQuery

mutual

/-- The pipelines within an operand. -/
def Operand.within : Operand → List Pipeline
  | .chain _ o _                                 => o.within
  | .pipeline ⟨pos, assigns, declared, commands⟩ =>
    commandsWithin commands ++ [⟨pos, assigns, declared, commands⟩]
  | _                                            => []

def operandsWithin : List Operand → List Pipeline
  | []      => []
  | o :: os => o.within ++ operandsWithin os

def commandsWithin : List (CommandOf Operand) → List Pipeline
  | []            => []
  | ⟨_, os⟩ :: cs => operandsWithin os ++ commandsWithin cs

end

/-- The pipeline itself and those within it. -/
def PipelineOf.within (p : Pipeline) : List Pipeline := commandsWithin p.commands ++ [p]

/-! ### Evaluations -/

namespace Eval

variable {R : Scope → Scope → Prop} {α β : Type}

/-- An evaluation that does not fail takes the variables to ones in relation with them. -/
def Moves (R : Scope → Scope → Prop) (e : Eval α) : Prop := ∀ s a t, e.run s = .ok (a, t) → R s t

/-- One evaluation after the other. -/
lemma run_bind_eq_ok {e : Eval α} {k : α → Eval β} {s : Scope} {r : β × Scope} :
    (e >>= k).run s = .ok r ↔ ∃ a s', e.run s = .ok (a, s') ∧ (k a).run s' = .ok r := by
  rw [StateT.run_bind]
  cases e.run s with
  | error cause => simp [bind, Except.bind]
  | ok p =>
    obtain ⟨a, s'⟩ := p
    simp [bind, Except.bind]

lemma moves_throw (cause : ExecutionError) : Moves R (throw cause : Eval α) := by
  intro s a t h
  cases h

variable [IsPreorder Scope R]

lemma moves_pure (a : α) : Moves R (pure a : Eval α) := by
  intro s b t h
  cases h
  exact refl_of R s

lemma moves_lift (x : Except ExecutionError α) : Moves R (liftM x : Eval α) := by
  cases x with
  | error cause => exact moves_throw cause
  | ok a => exact moves_pure a

/-- Two evaluations take the variables to ones in relation. -/
lemma moves_bind {e : Eval α} {k : α → Eval β} (he : Moves R e) (hk : ∀ a, Moves R (k a)) :
    Moves R (e >>= k) := by
  intro s b u h
  obtain ⟨a, t, ha, hb⟩ := run_bind_eq_ok.mp h
  exact trans_of R (he s a t ha) (hk a t b u hb)

lemma moves_forM {xs : List α} {k : α → Eval PUnit} (h : ∀ x ∈ xs, Moves R (k x)) :
    Moves R (xs.forM k) := by
  induction xs with
  | nil => exact moves_pure _
  | cons x xs ih =>
    exact moves_bind (h x List.mem_cons_self) fun _ =>
      ih fun y hy => h y (List.mem_cons_of_mem _ hy)

lemma moves_mapM {es : List (Eval Value)} (h : ∀ e ∈ es, Moves R e) : Moves R (es.mapM id) := by
  induction es with
  | nil => exact moves_pure []
  | cons e es ih =>
    rw [List.mapM_cons]
    refine moves_bind (h e List.mem_cons_self) fun v => ?_
    refine moves_bind (ih fun d hd => h d (List.mem_cons_of_mem _ hd)) fun vs => ?_
    exact moves_pure _

end Eval

namespace Frame

open Eval

variable {R : Scope → Scope → Prop} {f : Frame}

/-- What the pipeline does with its value takes the variables to ones in relation with them. -/
def Binds (f : Frame) (R : Scope → Scope → Prop) (p : Pipeline) : Prop :=
  ∀ value, Moves R (f.bind p.assigns p.declared value)

lemma variableValue_moves [IsPreorder Scope R] (v : Variable) : Moves R (f.variableValue v) := by
  have hget : Moves R (get : Eval Scope) := by
    intro s a t h
    cases h
    exact refl_of R s
  refine moves_bind hget fun s => ?_
  split
  · exact moves_pure _
  · exact moves_throw _

/-- However many operands are evaluated, the variables stay in relation. -/
lemma firstThat_moves [IsPreorder Scope R] {stop : Bool} {last : Option Value} {value : Value}
    {es : List (Eval Value)} (h : ∀ e ∈ es, Moves R e) :
    Moves R (firstThat stop last value es) := by
  induction es generalizing value with
  | nil => exact moves_pure _
  | cons e es ih =>
    refine moves_bind (h e List.mem_cons_self) fun v => ?_
    split
    · exact moves_pure v
    · exact ih fun d hd => h d (List.mem_cons_of_mem _ hd)

/-- A call moves the variables as its operands do. -/
lemma call_moves [IsPreorder Scope R] {c : Command} {name : String} {es : List (Eval Value)}
    {last : Option Value} (h : ∀ e ∈ es, Moves R e) : Moves R (f.call c name es last) := by
  unfold call
  split
  · refine moves_bind (moves_mapM h) fun vs => ?_
    dsimp only
    split
    · exact moves_lift _
    · exact moves_throw _
  · split
    · split
      · exact moves_throw _
      · exact firstThat_moves h
    · split
      · exact moves_throw _
      · refine moves_bind (moves_mapM h) fun vs => ?_
        dsimp only
        split
        · exact moves_pure _
        · exact moves_throw _

/-! ### Operands, commands and pipelines -/

mutual

/-- An operand moves the variables as the pipelines within it do. -/
lemma evalOperand_moves [IsPreorder Scope R] (o : Operand) (h : ∀ p ∈ o.within, f.Binds R p) :
    Moves R (f.evalOperand o) := by
  match o with
  | .dot _ | .nil _ | .bool _ _ | .string _ _ _ =>
    rw [evalOperand]
    exact moves_pure _
  | .number _ | .field _ _ =>
    rw [evalOperand]
    exact moves_lift _
  | .var v =>
    rw [evalOperand]
    refine moves_bind (variableValue_moves v) fun value => ?_
    split
    · exact moves_pure value
    · exact moves_lift _
  | .chain _ base _ =>
    rw [evalOperand]
    exact moves_bind (evalOperand_moves base h) fun _ => moves_lift _
  | .pipeline ⟨_, _, _, commands⟩ =>
    -- The only operand that touches the variables itself.
    obtain ⟨hcommands, hitself⟩ := List.forall_mem_append.mp h
    rw [evalOperand]
    refine moves_bind (evalCommands_moves none commands hcommands) fun value => ?_
    exact moves_bind (hitself _ List.mem_cons_self value) fun _ => moves_pure value
  | .identifier _ _ =>
    rw [evalOperand]
    exact call_moves (by simp)

lemma evalOperands_moves [IsPreorder Scope R] (os : List Operand)
    (h : ∀ p ∈ operandsWithin os, f.Binds R p) : ∀ e ∈ f.evalOperands os, Moves R e := by
  match os with
  | [] => simp [evalOperands]
  | o :: os =>
    obtain ⟨ho, hos⟩ := List.forall_mem_append.mp h
    rw [evalOperands, List.forall_mem_cons]
    exact ⟨evalOperand_moves o ho, evalOperands_moves os hos⟩

/-- A command moves the variables as the pipelines within it do. -/
lemma evalCommand_moves [IsPreorder Scope R] (c : Command) (last : Option Value) (os : List Operand)
    (h : ∀ p ∈ operandsWithin os, f.Binds R p) : Moves R (f.evalCommand c last os) := by
  match os with
  | [] =>
    rw [evalCommand]
    exact moves_throw _
  | .field _ _ :: _ =>
    rw [evalCommand]
    exact moves_lift _
  | .chain _ base _ :: os =>
    have hbase : Moves R (f.evalOperand base) :=
      evalOperand_moves base (List.forall_mem_append.mp h).1
    unfold evalCommand
    split
    · exact moves_bind (moves_throw _) fun _ => moves_bind hbase fun _ => moves_lift _
    · exact moves_bind hbase fun _ => moves_lift _
  | .identifier _ _ :: os =>
    rw [evalCommand]
    exact call_moves (evalOperands_moves os (List.forall_mem_append.mp h).2)
  | .var v :: os =>
    rw [evalCommand]
    refine moves_bind (variableValue_moves v) fun value => ?_
    split
    · exact moves_bind (moves_lift _) fun _ => moves_pure value
    · exact moves_lift _
  | .nil _ :: _ =>
    rw [evalCommand]
    exact moves_throw _
  | .dot _ :: _ | .bool _ _ :: _ | .number _ :: _ | .string _ _ _ :: _ | .pipeline _ :: _ =>
    simp only [evalCommand]
    exact moves_bind (moves_lift _) fun _ =>
      evalOperand_moves _ (List.forall_mem_append.mp h).1

lemma evalCommands_moves [IsPreorder Scope R] (before : Option (Command × Value))
    (cs : List (CommandOf Operand)) (h : ∀ p ∈ commandsWithin cs, f.Binds R p) :
    Moves R (f.evalCommands before cs) := by
  match cs with
  | [] =>
    rw [evalCommands_nil]
    exact moves_pure _
  | ⟨pos, os⟩ :: cs =>
    obtain ⟨hos, hcs⟩ := List.forall_mem_append.mp h
    have hnext : Moves R (f.evalNext before ⟨pos, os⟩) := by
      unfold evalNext
      split
      · split
        · exact moves_lift _
        · exact moves_throw _
      · exact evalCommand_moves ⟨pos, os⟩ _ os hos
    rw [evalCommands_cons]
    exact moves_bind hnext fun v => evalCommands_moves (some (⟨pos, os⟩, v)) cs hcs

end

/-- A pipeline moves the variables as it binds its own and as those within it do. -/
lemma evalPipeline_moves [IsPreorder Scope R] (p : Pipeline) (h : ∀ q ∈ p.within, f.Binds R q) :
    Moves R (f.evalPipeline p) := by
  obtain ⟨hcommands, hitself⟩ := List.forall_mem_append.mp h
  refine moves_bind (evalCommands_moves none p.commands hcommands) fun value => ?_
  exact moves_bind (hitself p List.mem_cons_self value) fun _ => moves_pure value

end Frame

/-! ### Runs -/

namespace Run

variable {R : Scope → Scope → Prop} {α β : Type}

/-- A run that does not fail takes the variables to ones in relation with them. -/
def Moves (R : Scope → Scope → Prop) (act : Run α) : Prop :=
  ∀ s w a t w', (act.run s).run.run w = (.ok (a, t), w') → R s t

/-- One run after the other. -/
lemma run_bind_eq_ok {act : Run α} {k : α → Run β} {s : Scope} {w w' : Sink} {r : β × Scope} :
    ((act >>= k).run s).run.run w = (.ok r, w') ↔
      ∃ a t v, (act.run s).run.run w = (.ok (a, t), v) ∧ ((k a).run t).run.run v = (.ok r, w') := by
  rw [run_bind]
  rcases (act.run s).run.run w with ⟨_ | ⟨a, t⟩, v⟩
  · constructor
    · rintro ⟨⟩
    · rintro ⟨_, _, _, ⟨⟩, _⟩
  · constructor
    · exact fun h => ⟨a, t, v, rfl, h⟩
    · rintro ⟨_, _, _, ⟨⟩, h⟩
      exact h

/-- A call leaves the variables as they are. -/
lemma run_lift_eq_ok {act : Output Unit} {s t : Scope} {w w' : Sink} {u : Unit}
    (h : ((liftM act : Run Unit).run s).run.run w = (.ok (u, t), w')) :
    t = s ∧ act.run.run w = (.ok (), w') := by
  rw [run_lift] at h
  rcases hact : act.run.run w with ⟨_ | _, v⟩
  · rw [hact] at h
    cases h
  · rw [hact] at h
    cases h
    exact ⟨rfl, rfl⟩

/-- What a run adds is taken off at its end. -/
lemma run_locally_eq_ok {act : Run α} {a : α} {s t : Scope} {w w' : Sink}
    (h : ((locally act).run s).run.run w = (.ok (a, t), w')) :
    ∃ u, (act.run s).run.run w = (.ok (a, u), w') ∧ t = u.outermost s.length := by
  rw [run_locally] at h
  rcases hact : (act.run s).run.run w with ⟨_ | ⟨b, u⟩, v⟩
  · rw [hact] at h
    cases h
  · rw [hact] at h
    cases h
    exact ⟨u, rfl, rfl⟩

lemma Moves.mono {R' : Scope → Scope → Prop} {act : Run α} (h : Moves R act)
    (hsub : ∀ s t, R s t → R' s t) : Moves R' act :=
  fun s w a t w' hrun => hsub s t (h s w a t w' hrun)

lemma moves_ofEval {e : Eval α} (he : Eval.Moves R e) : Moves R (ofEval e) := by
  intro s w a t w' hrun
  rw [run_ofEval] at hrun
  exact he s a t (congrArg Prod.fst hrun)

lemma moves_throw (cause : ExecutionError) : Moves R (throw cause : Run α) := by
  intro s w a t w' hrun
  cases hrun

variable [IsPreorder Scope R]

lemma moves_pure (a : α) : Moves R (pure a : Run α) := by
  intro s w b t w' hrun
  cases hrun
  exact refl_of R s

lemma moves_emit (p : Piece) : Moves R (emit p) := by
  intro s w a t w' hrun
  rw [run_emit] at hrun
  split_ifs at hrun
  · cases hrun
    exact refl_of R s
  · cases hrun

lemma moves_lift (act : Output Unit) : Moves R (liftM act : Run Unit) := by
  intro s w u t w' hrun
  obtain ⟨rfl, -⟩ := run_lift_eq_ok hrun
  exact refl_of R t

lemma moves_bind {act : Run α} {k : α → Run β} (ha : Moves R act) (hk : ∀ a, Moves R (k a)) :
    Moves R (act >>= k) := by
  intro s w b u w' hrun
  obtain ⟨a, t, v, hact, hnext⟩ := run_bind_eq_ok.mp hrun
  exact trans_of R (ha s w a t v hact) (hk a t v b u w' hnext)

lemma moves_forPairs {body : Value → Value → Run Flow} (h : ∀ i v, Moves R (body i v))
    (ps : List (Value × Value)) : Moves R (Items.forPairs body ps) := by
  induction ps with
  | nil => exact moves_pure ()
  | cons p ps ih =>
    refine moves_bind (h p.1 p.2) fun flow => ?_
    cases flow with
    | breakLoop => exact moves_pure ()
    | normal | continueLoop => exact ih

end Run

end SafeQuery
