import SafeQuery.Proofs.Execution.Hook
import SafeQuery.Proofs.Execution.Run
import SafeQuery.Proofs.Tree.Placed

/-!
# Executions without internal failures

Some failures of an execution have their cause in trees that no reader yields: commands without
operands, fields without names, numerals without a value, fields of `nil`, and functions that are
not there. An execution whose pipelines can be read at their places, with functions that the
environment provides, has no such failure: `runTree_regular` is the induction over operands,
commands, statements, loops and calls.
-/

namespace SafeQuery

/-- The cause is one that only a tree which cannot be read has. -/
def ExecutionCause.isInternal : ExecutionCause → Bool
  | emptyCommand | noFields | explicitNil _ | illegalNumber _ | unknownFunction _ => true
  | _                                                                           => false

/-- The error has another cause than a tree that cannot be read. -/
def ExecutionError.IsRegular (e : ExecutionError) : Prop :=
  ∀ place cause, e = .fault place cause → cause.isInternal = false

lemma ExecutionError.IsRegular.fault (place : Place) {cause : ExecutionCause}
    (h : cause.isInternal = false) : (ExecutionError.fault place cause).IsRegular := by
  intro place' cause' heq
  cases heq
  exact h

/-- The functions that are known for the reader are there for an execution. -/
def Environment.Provides (env : Environment) (known : String → Bool) : Prop :=
  ∀ name, known name = true →
    name = hookName ∨ (env.functions.get? name).or (builtins.get? name) ≠ none

namespace Eval

variable {α β : Type}

def IsRegular (e : Eval α) : Prop := ∀ s err, e.run s = .error err → err.IsRegular

lemma regular_pure (a : α) : (pure a : Eval α).IsRegular := fun _ _ h => by cases h

lemma regular_throw {err : ExecutionError} (h : err.IsRegular) :
    (throw err : Eval α).IsRegular := fun _ _ heq => by
  cases heq
  exact h

lemma regular_lift {x : Except ExecutionError α} (h : ∀ err, x = .error err → err.IsRegular) :
    (liftM x : Eval α).IsRegular := by
  intro s err heq
  cases x with
  | error e =>
    cases heq
    exact h _ rfl
  | ok a => cases heq

/-- Two evaluations fail regularly if the first does, and the second for every value. -/
lemma regular_bind {e : Eval α} {k : α → Eval β} (he : e.IsRegular) (hk : ∀ a, (k a).IsRegular) :
    (e >>= k).IsRegular := by
  intro s err herr
  rw [StateT.run_bind] at herr
  rcases h : e.run s with cause | ⟨a, t⟩
  · rw [h] at herr
    cases herr
    exact he s _ h
  · rw [h] at herr
    exact hk a t err herr

lemma regular_mapM {es : List (Eval Value)} (h : ∀ e ∈ es, e.IsRegular) :
    (es.mapM id).IsRegular := by
  induction es with
  | nil => exact regular_pure _
  | cons e es ih =>
    obtain ⟨he, hes⟩ := List.forall_mem_cons.mp h
    rw [List.mapM_cons]
    exact regular_bind he fun v => regular_bind (ih hes) fun vs => regular_pure _

lemma regular_forM {xs : List α} {k : α → Eval PUnit} (h : ∀ x, (k x).IsRegular) :
    (xs.forM k).IsRegular := by
  induction xs with
  | nil => exact regular_pure _
  | cons x xs ih => exact regular_bind (h x) fun _ => ih

end Eval

namespace Frame

open Eval

variable {f : Frame}

lemma variableValue_regular (v : Variable) : (f.variableValue v).IsRegular := by
  refine regular_bind (fun _ _ h => by cases h) fun scope => ?_
  split
  · exact regular_pure _
  · exact regular_throw (.fault _ rfl)

lemma assign_regular (pos : Position) (v : Variable) (value : Value) :
    (f.assign pos v value).IsRegular := by
  refine regular_bind (fun _ _ h => by cases h) fun scope => ?_
  split
  · exact fun _ _ h => by cases h
  · exact regular_throw (.fault _ rfl)

lemma declare_regular (v : Variable) (value : Value) : (declare v value).IsRegular :=
  fun _ _ h => by cases h

lemma bind_regular (assigns : Bool) (declared : List Variable) (value : Value) :
    (f.bind assigns declared value).IsRegular := by
  refine regular_forM fun v => ?_
  split
  · exact assign_regular _ _ _
  · exact declare_regular _ _

/-! ### Fields and calls -/

/-- A field is missing for a regular reason. -/
lemma fieldValue_regular {o : Operand} {hasArguments : Bool} {receiver : Value} {name : String}
    {err : ExecutionError} (h : f.fieldValue o hasArguments receiver name = .error err) :
    err.IsRegular := by
  unfold fieldValue at h
  split at h
  · split_ifs at h
    · cases h
      exact .fault _ rfl
    · split at h
      all_goals cases h
      exact .fault _ rfl
  all_goals
    cases h
    exact .fault _ rfl

/-- Fields with names have no internal failure. -/
lemma fieldsValue_regular {o : Operand} {hasArguments : Bool} {receiver : Value}
    {names : List String} (hne : names ≠ []) {err : ExecutionError}
    (h : f.fieldsValue o hasArguments receiver names = .error err) : err.IsRegular := by
  induction names generalizing receiver with
  | nil => contradiction
  | cons name names ih =>
    cases names with
    | nil => exact fieldValue_regular h
    | cons name' names =>
      simp only [fieldsValue] at h
      cases hfirst : f.fieldValue o false receiver name with
      | error cause =>
        rw [hfirst] at h
        cases h
        exact fieldValue_regular hfirst
      | ok value =>
        rw [hfirst] at h
        exact ih (List.cons_ne_nil _ _) h

lemma encode_regular {c : Command} {value : Value} {err : ExecutionError}
    (h : f.encode c value = .error err) : err.IsRegular := by
  unfold encode at h
  split at h <;> cases h
  exact fun _ _ heq => by cases heq

lemma checkAlone_regular {c : Command} {last : Option Value} {err : ExecutionError}
    (h : f.checkAlone c last = .error err) : err.IsRegular := by
  unfold checkAlone at h
  split at h
  · split_ifs at h
    cases h
    exact .fault _ rfl
  · cases h

/-- A numeral with a value has this value. -/
lemma numberValue_regular {n : Number} (hn : (n.int.isNone && n.float.isNone) = false)
    {err : ExecutionError} (h : f.numberValue n = .error err) : err.IsRegular := by
  unfold numberValue at h
  split at h
  · cases h
  · cases h
  · rename_i hint hfloat
    simp [hint, hfloat] at hn

/-- Operands up to the one that decides fail regularly. -/
lemma firstThat_regular {stop : Bool} {last : Option Value} {value : Value}
    {operands : List (Eval Value)} (h : ∀ e ∈ operands, e.IsRegular) :
    (firstThat stop last value operands).IsRegular := by
  induction operands generalizing value with
  | nil => exact regular_pure _
  | cons e es ih =>
    obtain ⟨he, hes⟩ := List.forall_mem_cons.mp h
    refine regular_bind he fun v => ?_
    split
    · exact regular_pure _
    · exact ih hes

variable {known : String → Bool}

/-- A call of a function that is there. -/
lemma call_regular (hknown : f.env.Provides known) {c : Command} {name : String}
    (hname : known name = true) {operands : List (Eval Value)} {last : Option Value}
    (h : ∀ e ∈ operands, e.IsRegular) : (f.call c name operands last).IsRegular := by
  unfold call
  split
  · refine regular_bind (regular_mapM h) fun vs => ?_
    dsimp only
    split
    · exact regular_lift fun _ => encode_regular
    · exact regular_throw (.fault _ rfl)
  · rename_i hhook
    split
    · split
      · exact regular_throw (.fault _ rfl)
      · exact firstThat_regular h
    · split
      · rename_i hnone
        exact absurd hnone ((hknown name hname).resolve_left hhook)
      · refine regular_bind (regular_mapM h) fun vs => ?_
        dsimp only
        split
        · exact regular_pure _
        · exact regular_throw (.fault _ rfl)

/-! ### Operands, commands and pipelines -/

mutual

/-- An operand that can be read fails regularly. -/
lemma evalOperand_regular (hknown : f.env.Provides known) {scope : List String} {o : Operand}
    (h : o.Readable known scope) : (f.evalOperand o).IsRegular := by
  match o with
  | .dot _ | .nil _ | .bool _ _ | .string _ _ _ =>
    simp only [evalOperand]
    exact regular_pure _
  | .number n =>
    rw [evalOperand]
    exact regular_lift fun _ => numberValue_regular h.2.2
  | .field pos names =>
    rw [evalOperand]
    exact regular_lift fun _ => fieldsValue_regular h.1
  | .var v =>
    rw [evalOperand]
    refine regular_bind (variableValue_regular v) fun value => ?_
    split
    · exact regular_pure _
    · rename_i hfields
      exact regular_lift fun _ => fieldsValue_regular (by simpa using hfields)
  | .chain pos base names =>
    rw [evalOperand]
    exact regular_bind (evalOperand_regular hknown h.2.2) fun value =>
      regular_lift fun _ => fieldsValue_regular h.2.1.1
  | .pipeline ⟨_, assigns, declared, commands⟩ =>
    rw [evalOperand]
    refine regular_bind (evalCommands_regular hknown none h.2.2.2) fun value => ?_
    exact regular_bind (bind_regular _ _ _) fun _ => regular_pure _
  | .identifier _ name =>
    rw [evalOperand]
    exact call_regular hknown h.1 (by simp)

lemma evalOperands_regular (hknown : f.env.Provides known) {scope : List String}
    {os : List Operand} (h : operandsReadable known scope os) :
    ∀ e ∈ f.evalOperands os, e.IsRegular := by
  match os with
  | []      => simp [evalOperands]
  | o :: os =>
    rw [evalOperands, List.forall_mem_cons]
    exact ⟨evalOperand_regular hknown h.1, evalOperands_regular hknown h.2⟩

/-- A command that can be read fails regularly. It has operands. -/
lemma evalCommand_regular (hknown : f.env.Provides known) (c : Command) (last : Option Value)
    {scope : List String} {os : List Operand} (h : operandsReadable known scope os)
    (hne : os ≠ []) : (f.evalCommand c last os).IsRegular := by
  match os with
  | .field pos names :: _ =>
    rw [evalCommand]
    exact regular_lift fun _ => fieldsValue_regular h.1.1
  | .chain pos base names :: _ =>
    obtain ⟨⟨hbase, hnames, hreadable⟩, -⟩ := h
    have hvalue := evalOperand_regular hknown hreadable
    unfold evalCommand
    split
    · cases hbase
    · exact regular_bind hvalue fun value => regular_lift fun _ => fieldsValue_regular hnames.1
  | .identifier _ name :: os =>
    rw [evalCommand]
    exact call_regular hknown h.1.1 (evalOperands_regular hknown h.2)
  | .var v :: _ =>
    rw [evalCommand]
    refine regular_bind (variableValue_regular v) fun value => ?_
    split
    · exact regular_bind (regular_lift fun _ => checkAlone_regular) fun _ => regular_pure _
    · rename_i hfields
      exact regular_lift fun _ => fieldsValue_regular (by simpa using hfields)
  | .nil pos :: _ =>
    rw [evalCommand]
    exact regular_throw (.fault _ rfl)
  | .dot _ :: _ | .bool _ _ :: _ | .number _ :: _ | .string _ _ _ :: _ | .pipeline _ :: _ =>
    rw [evalCommand]
    · exact regular_bind (regular_lift fun _ => checkAlone_regular) fun _ =>
        evalOperand_regular hknown h.1
    all_goals simp

lemma evalCommands_regular (hknown : f.env.Provides known) (before : Option (Command × Value))
    {scope : List String} {cs : List Command} (h : commandsReadable known scope cs) :
    (f.evalCommands before cs).IsRegular := by
  match cs with
  | [] =>
    rw [evalCommands_nil]
    exact regular_pure _
  | ⟨pos, os⟩ :: cs =>
    rw [evalCommands_cons]
    refine regular_bind ?_ fun v => evalCommands_regular hknown (some (⟨pos, os⟩, v)) h.2.2
    unfold evalNext
    split
    · split
      · exact regular_lift fun _ => encode_regular
      · exact regular_throw (.fault _ rfl)
    · exact evalCommand_regular hknown ⟨pos, os⟩ (before.map (·.2)) h.2.1 h.1

end

/-- The evaluation of a pipeline that can be read has no internal failure. -/
lemma evalPipeline_regular (hknown : f.env.Provides known) {ofLoop : Bool} {scope : List String}
    {p : Pipeline} (h : p.Readable known ofLoop scope) : (f.evalPipeline p).IsRegular :=
  regular_bind (evalCommands_regular hknown none h.2.2.2) fun _ =>
    regular_bind (bind_regular _ _ _) fun _ => regular_pure _

end Frame

/-! ### Runs -/

def Output.IsRegular (act : Output Unit) : Prop :=
  ∀ w err, (act.run.run w).1 = .error err → err.IsRegular

namespace Run

variable {α β : Type}

def IsRegular (act : Run α) : Prop :=
  ∀ (s : Scope) (w : Sink) err, ((act.run s).run.run w).1 = .error err → err.IsRegular

lemma regular_pure (a : α) : (pure a : Run α).IsRegular := fun _ _ _ h => by cases h

lemma regular_throw {err : ExecutionError} (h : err.IsRegular) :
    (throw err : Run α).IsRegular := fun _ _ _ heq => by
  cases heq
  exact h

lemma regular_bind {act : Run α} {k : α → Run β} (ha : act.IsRegular)
    (hk : ∀ a, (k a).IsRegular) : (act >>= k).IsRegular := by
  intro s w err herr
  rw [run_bind] at herr
  rcases h : (act.run s).run.run w with ⟨_ | ⟨a, t⟩, w'⟩
  · rw [h] at herr
    cases herr
    exact ha s w _ (congrArg Prod.fst h)
  · rw [h] at herr
    exact hk a t w' err herr

lemma regular_ofEval {e : Eval α} (h : e.IsRegular) : (ofEval e).IsRegular := by
  intro s w err herr
  rw [run_ofEval] at herr
  exact h s err herr

lemma regular_emit (p : Piece) : (emit p).IsRegular := by
  intro s w err herr
  rw [run_emit] at herr
  dsimp only at herr
  split_ifs at herr
  cases herr
  exact fun _ _ heq => by cases heq

lemma regular_lift {act : Output Unit} (h : act.IsRegular) : (liftM act : Run Unit).IsRegular := by
  intro s w err herr
  rw [run_lift] at herr
  rcases hrun : (act.run.run w).1 with e | u
  · rw [hrun] at herr
    cases herr
    exact h w _ hrun
  · rw [hrun] at herr
    cases herr

lemma regular_locally {act : Run α} (h : act.IsRegular) : (locally act).IsRegular := by
  refine regular_bind (fun _ _ _ h => by cases h) fun scope => ?_
  exact regular_bind h fun value => regular_bind (fun _ _ _ h => by cases h) fun _ => regular_pure _

end Run

namespace Items

variable {body : Value → Value → Run Flow}

lemma forPairs_regular (h : ∀ i v, (body i v).IsRegular) (ps : List (Value × Value)) :
    (forPairs body ps).IsRegular := by
  induction ps with
  | nil => exact Run.regular_pure _
  | cons p ps ih =>
    refine Run.regular_bind (h p.1 p.2) fun flow => ?_
    cases flow with
    | breakLoop => exact Run.regular_pure _
    | normal | continueLoop => exact ih

lemma forNumbers_regular (h : ∀ i v, (body i v).IsRegular) (i n : Nat) :
    (forNumbers body i n).IsRegular := by
  induction n generalizing i with
  | zero => exact Run.regular_pure _
  | succ n ih =>
    refine Run.regular_bind (h _ _) fun flow => ?_
    cases flow with
    | breakLoop => exact Run.regular_pure _
    | normal | continueLoop => exact ih (i + 1)

lemma forEach_regular (h : ∀ i v, (body i v).IsRegular) (items : Items) :
    (items.forEach body).IsRegular := by
  cases items with
  | pairs ps => exact forPairs_regular h ps
  | count n => exact forNumbers_regular h 0 n

end Items

/-! ### Statements -/

namespace Stage

variable {known : String → Bool}

/-- The functions are there, and the templates that are called have no internal failures. -/
structure IsRegular (known : String → Bool) (s : Stage) : Prop where
  provides : s.env.Provides known
  calls : ∀ enter name tree dot, s.enter = some enter → s.env.trees.get? name = some tree →
    (enter tree dot).IsRegular

lemma IsRegular.withDot {s : Stage} (h : s.IsRegular known) (dot : Value) :
    (s.withDot dot).IsRegular known := ⟨h.provides, h.calls⟩

lemma bindItem_regular {s : Stage} (pos : Position) (index value : Value) (vs : List Variable) :
    (s.bindItem pos index value vs).IsRegular := by
  match vs with
  | []          => exact Eval.regular_pure _
  | [v]         => exact Frame.assign_regular _ _ _
  | v :: w :: _ =>
    exact Eval.regular_bind (Frame.assign_regular _ _ _) fun _ => Frame.assign_regular _ _ _

/-- A call fails regularly if its argument and the template do. -/
lemma callTemplate_regular {s : Stage} (hs : s.IsRegular known) (scope : List String)
    {pos : Position} {name : String} {argument : Option Pipeline}
    (h : ∀ p, argument = some p → p.Readable known false scope) :
    (s.callTemplate pos name argument).IsRegular := by
  unfold callTemplate
  dsimp only
  split
  · exact Run.regular_throw (.fault _ rfl)
  · rename_i tree htree
    split
    · exact Run.regular_throw (.fault _ rfl)
    · rename_i enter henter
      have hcall : ∀ dot, (liftM (enter tree dot) : Run Unit).IsRegular :=
        fun dot => Run.regular_lift (hs.calls enter name tree dot henter htree)
      cases argument with
      | none => exact Run.regular_bind (Run.regular_pure _) hcall
      | some p =>
        have hargument := Run.regular_ofEval (Frame.evalPipeline_regular hs.provides (h p rfl))
        exact Run.regular_bind (Run.regular_locally hargument) hcall

mutual

/-- A statement whose pipelines can be read fails regularly. -/
lemma runNode_regular {s : Stage} (hs : s.IsRegular known) {scope : List String} {n : Node}
    (h : AllReadable known (n.pipes scope)) : (s.runNode n).IsRegular := by
  match n with
  | .text _ t =>
    rw [runNode]
    exact Run.regular_bind (Run.regular_emit _) fun _ => Run.regular_pure _
  | .comment _ _ | .breakLoop _ | .continueLoop _ =>
    rw [runNode]
    exact Run.regular_pure _
  | .action pos pipe =>
    have hvalue := Run.regular_ofEval (Frame.evalPipeline_regular hs.provides h.head)
    rw [runNode]
    refine Run.regular_bind hvalue fun value => ?_
    split
    · exact Run.regular_bind (Run.regular_emit _) fun _ => Run.regular_pure _
    · exact Run.regular_pure _
  | .branch .cond pos pipe ⟨_, body⟩ otherwise =>
    simp only [Node.pipes, AllReadable.append] at h
    obtain ⟨hpipe, hbody, helse⟩ := h
    have hvalue := Run.regular_ofEval (Frame.evalPipeline_regular hs.provides hpipe.head)
    rw [runNode]
    refine Run.regular_locally (Run.regular_bind hvalue fun value => ?_)
    split
    · exact runNodes_regular hs hbody
    · exact runElse_regular hs helse
  | .branch .withValue pos pipe ⟨_, body⟩ otherwise =>
    simp only [Node.pipes, AllReadable.append] at h
    obtain ⟨hpipe, hbody, helse⟩ := h
    have hvalue := Run.regular_ofEval (Frame.evalPipeline_regular hs.provides hpipe.head)
    rw [runNode]
    refine Run.regular_locally (Run.regular_bind hvalue fun value => ?_)
    split
    · exact runNodes_regular (hs.withDot value) hbody
    · exact runElse_regular hs helse
  | .branch .range pos pipe ⟨_, body⟩ otherwise =>
    simp only [Node.pipes, AllReadable.append] at h
    obtain ⟨hpipe, hbody, helse⟩ := h
    have hvalue := Run.regular_ofEval
      (Frame.evalCommands_regular hs.provides none hpipe.head.2.2.2)
    have hitem : ∀ index value, Run.IsRegular (do
        Run.ofEval (s.bindItem pos index value pipe.declared)
        Run.locally ((s.withDot value).runNodes body)) := fun index value =>
      Run.regular_bind (Run.regular_ofEval (bindItem_regular _ _ _ _)) fun _ =>
        Run.regular_locally (runNodes_regular (hs.withDot value) hbody)
    rw [runNode]
    refine Run.regular_locally (Run.regular_bind hvalue fun value => ?_)
    split
    · exact Run.regular_throw (.fault _ rfl)
    · rename_i items hitems
      have hloop := Items.forEach_regular hitem items
      dsimp only
      split
      · exact Run.regular_bind (runElse_regular hs helse) fun _ => Run.regular_pure _
      · split
        · exact Run.regular_bind hloop fun _ => Run.regular_pure _
        · have hdeclare : Eval.IsRegular (pipe.declared.forM fun v => Frame.declare v .null) :=
            Eval.regular_forM fun v => Frame.declare_regular v .null
          exact Run.regular_bind (Run.regular_ofEval hdeclare) fun _ =>
            Run.regular_bind hloop fun _ => Run.regular_pure _
  | .call pos name none =>
    rw [runNode]
    exact Run.regular_bind (callTemplate_regular hs scope (by simp)) fun _ =>
      Run.regular_pure _
  | .call pos name (some p) =>
    rw [runNode]
    refine Run.regular_bind (callTemplate_regular hs scope ?_) fun _ => Run.regular_pure _
    rintro q ⟨⟩
    exact h.head

lemma runNodes_regular {s : Stage} (hs : s.IsRegular known) {scope : List String}
    {ns : List Node} (h : AllReadable known (nodesPipes scope ns)) :
    (s.runNodes ns).IsRegular := by
  match ns with
  | [] =>
    rw [runNodes]
    exact Run.regular_pure _
  | n :: ns =>
    rw [nodesPipes, AllReadable.append] at h
    rw [runNodes]
    refine Run.regular_bind (runNode_regular hs h.1) fun flow => ?_
    cases flow with
    | normal => exact runNodes_regular hs h.2
    | breakLoop | continueLoop => exact Run.regular_pure _

lemma runElse_regular {s : Stage} (hs : s.IsRegular known) {scope : List String}
    {otherwise : Option (BlockOf Node)} (h : AllReadable known (elsePipes scope otherwise)) :
    (s.runElse otherwise).IsRegular := by
  match otherwise with
  | none =>
    rw [runElse]
    exact Run.regular_pure _
  | some ⟨pos, ns⟩ =>
    rw [elsePipes] at h
    rw [runElse]
    exact runNodes_regular hs h

end

end Stage

/-! ### Templates -/

namespace Environment

variable {env : Environment} {known : String → Bool}

/-- A template whose pipelines can be read fails regularly. -/
lemma enterWith_regular {enter : Option (Tree → Value → Output Unit)} {tree : Tree} {dot : Value}
    (hs : Stage.IsRegular known ⟨⟨env, tree.name, dot⟩, enter⟩) (h : AllReadable known tree.pipes) :
    (runTree.enterWith env enter tree dot).IsRegular := by
  intro w err herr
  have hrun := Stage.runNodes_regular hs h [("$", dot)] w
  rw [run_enterWith] at herr
  rcases hend : ((Stage.runNodes ⟨⟨env, tree.name, dot⟩, enter⟩ tree.root.nodes).run
    [("$", dot)]).run.run w with ⟨err' | r, w'⟩
  · rw [hend] at hrun herr
    cases herr
    exact hrun _ rfl
  · rw [hend] at herr
    cases herr

/-- However deep calls are nested, there are no internal failures in templates whose pipelines can
be read. -/
lemma runTree_regular (hknown : env.Provides known)
    (htrees : ∀ key tree, env.trees.get? key = some tree → AllReadable known tree.pipes) (d : Nat)
    {tree : Tree} (htree : AllReadable known tree.pipes) (dot : Value) :
    (env.runTree d tree dot).IsRegular := by
  induction d generalizing tree dot with
  | zero =>
    refine enterWith_regular ⟨hknown, ?_⟩ htree
    rintro enter name tree' dot' ⟨⟩
  | succ d ih =>
    refine enterWith_regular ⟨hknown, ?_⟩ htree
    rintro enter name tree' dot' ⟨⟩ htree'
    exact ih (htrees name tree' htree') dot'

/-- An execution of trees whose pipelines can be read has no internal failure. -/
theorem execute_regular (hknown : env.Provides known)
    (htrees : ∀ key tree, env.trees.get? key = some tree → AllReadable known tree.pipes)
    {key : String} {tree : Tree} (htree : env.trees.get? key = some tree) {data : Value}
    {room : Option Nat} {err : ExecutionError}
    (h : (env.execute tree data room).failure = some err) : err.IsRegular := by
  have hrun :=
    runTree_regular hknown htrees maxCallDepth (htrees key tree htree) data (.ofRoom room)
  unfold execute at h
  rcases hend : (env.runTree maxCallDepth tree data).run (Sink.ofRoom room) with ⟨e | u, w⟩
  · rw [hend] at h
    cases h
    exact hrun _ (congrArg Prod.fst hend)
  · rw [hend] at h
    cases h

end Environment

end SafeQuery
