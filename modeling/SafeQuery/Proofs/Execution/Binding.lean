import SafeQuery.Proofs.Execution.Hook
import SafeQuery.Proofs.Execution.Run
import SafeQuery.Proofs.Tree.Scoping

/-!
# Variables that an execution binds

Behind every part of a template that has been executed there are the variables that
`boundBehind` names, and an execution that does not find a variable fails at a use where the
variable need not have been bound. `execute_undefined` is the induction over
operands, commands, statements, loops and calls.
-/

namespace SafeQuery

/-- The error is not that of a variable that is not found. -/
def ExecutionError.IsOther (e : ExecutionError) : Prop :=
  ∀ place name, e ≠ .fault place (.undefinedVariable name)

/-- A variable is missing only in templates, and under names, for which `L` says so. -/
def ExecutionError.MissingOnly (L : String → String → Prop) (e : ExecutionError) : Prop :=
  ∀ place name, e = .fault place (.undefinedVariable name) → L place.template name

lemma ExecutionError.IsOther.missingOnly {L : String → String → Prop} {e : ExecutionError}
    (h : e.IsOther) : e.MissingOnly L := fun place name he => absurd he (h place name)

namespace Eval

variable {L : String → String → Prop} {α β : Type} {bound bound' bound'' : List String}

/-- The end of an evaluation that began with some variables: it has only added variables, and the
bound ones are there; or it has failed, and not because of a variable that has been bound. -/
def Ends (L : String → String → Prop) (bound' : List String) (s : Scope) :
    Except ExecutionError (α × Scope) → Prop
  | .ok (_, s') => s.names <:+ s'.names ∧ bound' ⊆ s'.names
  | .error e    => e.MissingOnly L

/-- With the variables that are bound before it the evaluation finds its variables, and binds those
that are bound behind it. -/
def Binds (L : String → String → Prop) (bound bound' : List String) (e : Eval α) : Prop :=
  ∀ s : Scope, bound ⊆ s.names → Ends L bound' s (e.run s)

lemma binds_pure (a : α) : Binds L bound bound (pure a : Eval α) :=
  fun _ hs => ⟨List.suffix_rfl, hs⟩

lemma binds_throw {e : ExecutionError} (h : e.IsOther) : Binds L bound bound' (throw e : Eval α) :=
  fun _ _ => h.missingOnly

/-- What reads no variables binds none. -/
lemma binds_lift {x : Except ExecutionError α} (h : ∀ e, x = .error e → e.IsOther) :
    Binds L bound bound (liftM x : Eval α) := by
  intro s hs
  cases x with
  | error e => exact (h e rfl).missingOnly
  | ok a => exact ⟨List.suffix_rfl, hs⟩

/-- Evaluations one after the other bind the variables of both. -/
lemma binds_bind {e : Eval α} {k : α → Eval β} (he : Binds L bound bound' e)
    (hk : ∀ a, Binds L bound' bound'' (k a)) : Binds L bound bound'' (e >>= k) := by
  intro s hs
  have hfirst := he s hs
  rw [StateT.run_bind]
  rcases h : e.run s with cause | ⟨a, t⟩
  · rw [h] at hfirst
    exact hfirst
  · rw [h] at hfirst
    have hnext := hk a t hfirst.2
    show Ends L bound'' s ((k a).run t)
    rcases hrun : (k a).run t with cause | ⟨b, u⟩
    · rw [hrun] at hnext
      exact hnext
    · rw [hrun] at hnext
      exact ⟨hfirst.1.trans hnext.1, hnext.2⟩

/-- What was bound before the evaluation is bound behind it. -/
lemma Binds.keep {e : Eval α} (h : Binds L bound bound' e) : Binds L bound bound e := by
  intro s hs
  have hend := h s hs
  rcases hrun : e.run s with cause | ⟨a, t⟩
  · rw [hrun] at hend
    exact hend
  · rw [hrun] at hend
    exact ⟨hend.1, fun x hx => hend.1.subset (hs hx)⟩

/-- The evaluations, one after the other, find their variables and bind others. -/
inductive BindAll (L : String → String → Prop) : List String → List (Eval Value) → List String → Prop
  | nil {bound : List String} : BindAll L bound [] bound
  | cons {bound bound₁ bound₂ : List String} {e : Eval Value} {es : List (Eval Value)} :
      Binds L bound bound₁ e → BindAll L bound₁ es bound₂ → BindAll L bound (e :: es) bound₂

/-- A row of evaluations binds what they bind one after the other. -/
lemma binds_mapM {es : List (Eval Value)} (h : BindAll L bound es bound') :
    Binds L bound bound' (es.mapM id) := by
  induction h with
  | nil => exact binds_pure _
  | cons he _ ih =>
    rw [List.mapM_cons]
    refine binds_bind he fun v => binds_bind ih fun vs => binds_pure _

lemma binds_forM {xs : List α} {k : α → Eval PUnit} (h : ∀ x ∈ xs, Binds L bound bound (k x)) :
    Binds L bound bound (xs.forM k) := by
  induction xs with
  | nil => exact binds_pure _
  | cons x xs ih =>
    exact binds_bind (h x List.mem_cons_self) fun _ => ih fun y hy => h y (List.mem_cons_of_mem _ hy)

end Eval

/-! ### Variables -/

namespace Scope

/-- A name in scope has a value. -/
lemma get?_ne_none {s : Scope} {name : String} (h : name ∈ s.names) : s.get? name ≠ none := by
  obtain ⟨v, hv, rfl⟩ := List.mem_map.mp h
  rw [get?, Ne, Option.map_eq_none_iff, List.find?_eq_none]
  intro hnone
  simpa using hnone v hv

/-- A variable in scope can be given another value. -/
lemma set?_ne_none {s : Scope} {name : String} (h : name ∈ s.names) (value : Value) :
    s.set? name value ≠ none := by
  induction s with
  | nil => contradiction
  | cons v s ih =>
    rw [set?]
    split_ifs with hv
    · simp
    · rw [Ne, Option.map_eq_none_iff]
      refine ih ?_
      rcases List.mem_cons.mp h with heq | hs
      · exact absurd heq.symm hv
      · exact hs

end Scope

/-- The late uses are in the template of this name. -/
def Covers (L : String → String → Prop) (template : String) (uses : List Use) : Prop :=
  ∀ u ∈ uses, u.IsLate → L template u.name

lemma covers_append {L : String → String → Prop} {template : String} {us vs : List Use} :
    Covers L template (us ++ vs) ↔ Covers L template us ∧ Covers L template vs :=
  List.forall_mem_append

namespace Frame

open Eval

variable {L : String → String → Prop} {f : Frame} {bound bound' scope : List String}

/-- A variable is missing only where it has not been bound. -/
lemma variableValue_binds {v : Variable} (h : v.name ∉ bound → L f.template v.name) :
    Binds L bound bound (f.variableValue v) := by
  intro s hs
  rw [variableValue, StateT.run_bind, StateT.run_get, pure_bind]
  cases hget : s.get? v.name with
  | some value => exact ⟨List.suffix_rfl, hs⟩
  | none =>
    intro place name heq
    cases heq
    exact h fun hv => Scope.get?_ne_none (hs hv) hget

/-- A variable that is given another value is missing only where it has not been bound. -/
lemma assign_binds {pos : Position} {v : Variable} {value : Value}
    (h : v.name ∉ bound → L f.template v.name) : Binds L bound bound (f.assign pos v value) := by
  intro s hs
  rw [assign, StateT.run_bind, StateT.run_get, pure_bind]
  cases hset : s.set? v.name value with
  | some t =>
    show s.names <:+ t.names ∧ bound ⊆ t.names
    rw [Scope.names_set hset]
    exact ⟨List.suffix_rfl, hs⟩
  | none =>
    intro place name heq
    cases heq
    exact h fun hv => Scope.set?_ne_none (hs hv) value hset

lemma declare_binds (v : Variable) (value : Value) :
    Binds L bound (v.name :: bound) (declare v value) := by
  intro s hs
  exact ⟨List.suffix_cons _ _, List.cons_subset_cons _ hs⟩

/-- Variables that are declared are bound. -/
lemma declareAll_binds (declared : List Variable) (value : Value) :
    Binds L bound (newNames false declared ++ bound) (declared.forM fun v => declare v value) := by
  induction declared generalizing bound with
  | nil => exact binds_pure _
  | cons v vs ih =>
    have hnames : newNames false (v :: vs) ++ bound = newNames false vs ++ (v.name :: bound) := by
      simp [newNames]
    rw [hnames]
    exact binds_bind (declare_binds v value) fun _ => ih

/-- A pipeline binds the variables that it declares, and finds those that it assigns. -/
lemma bind_binds {assigns : Bool} {declared : List Variable} {value : Value}
    (h : Covers L f.template (assignedUses scope bound assigns declared)) :
    Binds L bound (newNames assigns declared ++ bound) (f.bind assigns declared value) := by
  cases assigns with
  | false => exact declareAll_binds declared value
  | true => exact binds_forM fun v hv => assign_binds (h _ (List.mem_map_of_mem hv))

/-! ### Fields and calls -/

/-- A field that is not there is another failure than a missing variable. -/
lemma fieldValue_other {o : Operand} {hasArguments : Bool} {receiver : Value} {name : String}
    {e : ExecutionError} (h : f.fieldValue o hasArguments receiver name = .error e) :
    e.IsOther := by
  unfold fieldValue at h
  split at h
  · split_ifs at h
    · cases h
      exact fun _ _ => by simp [operandFault]
    · split at h
      all_goals cases h
      exact fun _ _ => by simp [operandFault]
  all_goals
    cases h
    exact fun _ _ => by simp [operandFault]

lemma fieldsValue_other {o : Operand} {hasArguments : Bool} {receiver : Value}
    {names : List String} {e : ExecutionError}
    (h : f.fieldsValue o hasArguments receiver names = .error e) : e.IsOther := by
  induction names generalizing receiver with
  | nil =>
    cases h
    exact fun _ _ => by simp [operandFault]
  | cons name names ih =>
    cases names with
    | nil => exact fieldValue_other h
    | cons name' names =>
      simp only [fieldsValue] at h
      cases hw : f.fieldValue o false receiver name with
      | error cause =>
        rw [hw] at h
        cases h
        exact fieldValue_other hw
      | ok w =>
        rw [hw] at h
        exact ih h

lemma encode_other {c : Command} {value : Value} {e : ExecutionError}
    (h : f.encode c value = .error e) : e.IsOther := by
  unfold encode at h
  split at h <;> cases h
  exact fun _ _ => by simp

lemma checkAlone_other {c : Command} {last : Option Value} {e : ExecutionError}
    (h : f.checkAlone c last = .error e) : e.IsOther := by
  unfold checkAlone at h
  split at h
  · split_ifs at h
    cases h
    exact fun _ _ => by simp [commandFault]
  · cases h

lemma numberValue_other {n : Number} {e : ExecutionError} (h : f.numberValue n = .error e) :
    e.IsOther := by
  unfold numberValue at h
  split at h <;> cases h
  exact fun _ _ => by simp [operandFault]

lemma commandFault_other {c : Command} {cause : ExecutionCause}
    (h : ∀ name, cause ≠ .undefinedVariable name) : (f.commandFault c cause).IsOther := by
  intro place name heq
  cases heq
  exact h name rfl

/-- Operands that are perhaps not evaluated do not count as binding anything. -/
lemma firstThat_binds {stop : Bool} {last : Option Value} {value : Value}
    {operands : List (Eval Value)} (h : BindAll L bound operands bound') :
    Binds L bound bound (firstThat stop last value operands) := by
  induction h generalizing value with
  | nil => exact binds_pure _
  | @cons bound bound₁ _ _ es he _ ih =>
    have hnext : ∀ v : Value, Binds L bound₁ bound₁
        (if v.isTrue = stop then pure v else firstThat stop last v es) := by
      intro v
      split
      · exact binds_pure v
      · exact ih
    exact (binds_bind he hnext).keep

/-- A call binds what its operands bind, or as much as its first operand binds. -/
lemma call_binds {c : Command} {name : String} {operands : List (Eval Value)} {last : Option Value}
    (hall : Binds L bound bound' (operands.mapM id))
    (hshort : isShort name = true → ∀ stop value,
      Binds L bound bound' (firstThat stop last value operands)) :
    Binds L bound bound' (f.call c name operands last) := by
  unfold call
  split
  · refine binds_bind hall fun vs => ?_
    dsimp only
    split
    · exact binds_lift fun _ => encode_other
    · exact binds_throw (commandFault_other (by simp))
  · split
    · rename_i hname
      split
      · exact binds_throw (commandFault_other (by simp))
      · refine hshort ?_ _ _
        rw [Bool.and_eq_true] at hname
        exact hname.1
    · split
      · exact binds_throw (commandFault_other (by simp))
      · refine binds_bind hall fun vs => ?_
        dsimp only
        split
        · exact binds_pure _
        · exact binds_throw (commandFault_other (by simp))

/-! ### Operands, commands and pipelines -/

lemma commandBound_of_isBare {c : Command} {name : String} (h : c.isBare name = true) :
    commandBound bound c.operands = bound := by
  unfold CommandOf.isBare at h
  split at h
  · simp only [commandBound]
  · cases h

mutual

/-- An operand binds what it is said to bind if its late uses are covered. -/
lemma evalOperand_binds {scope bound : List String} (o : Operand)
    (hu : Covers L f.template (o.uses scope bound)) :
    Binds L bound (o.boundBehind bound) (f.evalOperand o) := by
  match o with
  | .dot _ | .nil _ | .bool _ _ | .string _ _ _ =>
    simp only [evalOperand, Operand.boundBehind]
    exact binds_pure _
  | .number n =>
    simp only [evalOperand, Operand.boundBehind]
    exact binds_lift fun _ => numberValue_other
  | .field pos names =>
    simp only [evalOperand, Operand.boundBehind]
    exact binds_lift fun _ => fieldsValue_other
  | .var v =>
    simp only [evalOperand, Operand.boundBehind]
    refine binds_bind (variableValue_binds (hu ⟨v.name, scope, bound⟩ ?_)) fun value => ?_
    · simp [Operand.uses]
    · split
      · exact binds_pure value
      · exact binds_lift fun _ => fieldsValue_other
  | .chain pos o names =>
    rw [evalOperand, Operand.boundBehind]
    rw [Operand.uses] at hu
    exact binds_bind (evalOperand_binds o hu) fun value => binds_lift fun _ => fieldsValue_other
  | .pipeline ⟨pos, assigns, declared, commands⟩ =>
    rw [evalOperand, Operand.boundBehind]
    rw [Operand.uses, covers_append] at hu
    refine binds_bind (evalCommands_binds none commands hu.1) fun value => ?_
    exact binds_bind (bind_binds hu.2) fun _ => binds_pure value
  | .identifier pos name =>
    simp only [evalOperand, Operand.boundBehind]
    exact call_binds (binds_pure _) fun _ _ _ => binds_pure _

lemma evalOperands_binds {scope bound : List String} (os : List Operand)
    (hu : Covers L f.template (operandsUses scope bound os)) :
    BindAll L bound (f.evalOperands os) (operandsBound bound os) := by
  match os with
  | [] =>
    rw [evalOperands, operandsBound]
    exact .nil
  | o :: os =>
    rw [evalOperands, operandsBound]
    rw [operandsUses, covers_append] at hu
    exact .cons (evalOperand_binds o hu.1) (evalOperands_binds os hu.2)

/-- A command binds what it is said to bind. A function that stops early may leave its operands
alone. -/
lemma evalCommand_binds {scope bound : List String} (c : Command) (last : Option Value)
    (os : List Operand) (hu : Covers L f.template (operandsUses scope bound os)) :
    Binds L bound (commandBound bound os) (f.evalCommand c last os) := by
  match os with
  | [] =>
    rw [evalCommand]
    exact binds_throw (commandFault_other (by simp))
  | .identifier pos name :: [] =>
    rw [evalCommand, commandBound, evalOperands]
    exact call_binds (binds_pure _) fun _ _ _ => binds_pure _
  | .identifier pos name :: o :: os =>
    rw [evalCommand, commandBound, evalOperands]
    simp only [operandsUses, covers_append] at hu
    have ho : Binds L bound (o.boundBehind bound) (f.evalOperand o) := evalOperand_binds o hu.2.1
    have hos := evalOperands_binds os hu.2.2
    split
    · -- the operands behind the first one need not be evaluated
      refine call_binds ?_ fun _ stop value => ?_
      · rw [List.mapM_cons]
        exact binds_bind ho fun v => binds_bind (binds_mapM hos).keep fun vs => binds_pure _
      · refine binds_bind ho fun v => ?_
        split
        · exact binds_pure v
        · exact firstThat_binds hos
    · rename_i hname
      exact call_binds (binds_mapM (.cons ho hos)) fun h => absurd h hname
  | .field pos names :: os =>
    simp only [evalCommand, commandBound, Operand.boundBehind]
    exact binds_lift fun _ => fieldsValue_other
  | .chain pos o names :: os =>
    simp only [operandsUses, Operand.uses, covers_append] at hu
    have ho := evalOperand_binds o hu.1
    simp only [commandBound, Operand.boundBehind]
    unfold evalCommand
    split
    · have hthrow : ∀ e : ExecutionError, e.IsOther → Binds L bound bound (throw e : Eval PUnit) :=
        fun _ => binds_throw
      refine binds_bind (hthrow _ fun _ _ => by simp [operandFault]) fun _ => ?_
      exact binds_bind ho fun value => binds_lift fun _ => fieldsValue_other
    · exact binds_bind ho fun value => binds_lift fun _ => fieldsValue_other
  | .var v :: os =>
    simp only [operandsUses, covers_append] at hu
    simp only [evalCommand, commandBound, Operand.boundBehind]
    refine binds_bind (variableValue_binds (hu.1 ⟨v.name, scope, bound⟩ ?_)) fun value => ?_
    · simp [Operand.uses]
    · split
      · exact binds_bind (binds_lift fun _ => checkAlone_other) fun _ => binds_pure value
      · exact binds_lift fun _ => fieldsValue_other
  | .nil pos :: os =>
    rw [evalCommand]
    exact binds_throw fun _ _ => by simp [operandFault]
  | .dot pos :: os | .bool pos b :: os | .number n :: os | .string pos quoted text :: os
  | .pipeline p :: os =>
    simp only [operandsUses, covers_append] at hu
    simp only [evalCommand, commandBound]
    exact binds_bind (binds_lift fun _ => checkAlone_other) fun _ => evalOperand_binds _ hu.1

lemma evalCommands_binds {scope bound : List String} (before : Option (Command × Value))
    (cs : List (CommandOf Operand)) (hu : Covers L f.template (commandsUses scope bound cs)) :
    Binds L bound (commandsBound bound cs) (f.evalCommands before cs) := by
  match cs with
  | [] =>
    rw [evalCommands_nil, commandsBound]
    exact binds_pure _
  | ⟨pos, os⟩ :: cs =>
    rw [commandsUses, covers_append] at hu
    rw [evalCommands_cons, commandsBound]
    refine binds_bind ?_ fun v => evalCommands_binds (some (⟨pos, os⟩, v)) cs hu.2
    unfold evalNext
    split
    · rename_i hbare
      rw [show commandBound bound os = bound from commandBound_of_isBare hbare]
      split
      · exact binds_lift fun _ => encode_other
      · exact binds_throw (commandFault_other (by simp))
    · exact evalCommand_binds ⟨pos, os⟩ (before.map (·.2)) os hu.1

end

/-- A pipeline finds its variables, and binds those that it declares. -/
lemma evalPipeline_binds {p : Pipeline} (hu : Covers L f.template (p.uses scope bound)) :
    Binds L bound (p.boundBehind bound) (f.evalPipeline p) := by
  obtain ⟨pos, assigns, declared, commands⟩ := p
  have h := evalOperand_binds (.pipeline ⟨pos, assigns, declared, commands⟩) hu
  rw [evalOperand] at h
  exact h

end Frame

/-! ### Runs -/

/-- The computation does not fail because of other variables that are missing. -/
def Output.MissingOnly (L : String → String → Prop) (act : Output Unit) : Prop :=
  ∀ w e, (act.run.run w).1 = .error e → e.MissingOnly L

namespace Run

variable {L : String → String → Prop} {α β : Type} {bound bound' bound'' : List String}

/-- With the variables that are bound before it the run finds its variables, and binds those that are
bound behind it. -/
def Binds (L : String → String → Prop) (bound bound' : List String) (act : Run α) : Prop :=
  ∀ (s : Scope) (w : Sink), bound ⊆ s.names → Eval.Ends L bound' s ((act.run s).run.run w).1

lemma binds_pure (a : α) : Binds L bound bound (pure a : Run α) :=
  fun _ _ hs => ⟨List.suffix_rfl, hs⟩

lemma binds_throw {e : ExecutionError} (h : e.IsOther) : Binds L bound bound' (throw e : Run α) :=
  fun _ _ _ => h.missingOnly

lemma binds_bind {act : Run α} {k : α → Run β} (ha : Binds L bound bound' act)
    (hk : ∀ a, Binds L bound' bound'' (k a)) : Binds L bound bound'' (act >>= k) := by
  intro s w hs
  have hfirst := ha s w hs
  rw [run_bind]
  rcases h : (act.run s).run.run w with ⟨_ | ⟨a, t⟩, w'⟩
  · rw [h] at hfirst
    exact hfirst
  · rw [h] at hfirst
    have hnext := hk a t w' hfirst.2
    dsimp only
    rcases hrun : ((k a).run t).run.run w' with ⟨_ | ⟨b, u⟩, w''⟩
    · rw [hrun] at hnext
      exact hnext
    · rw [hrun] at hnext
      exact ⟨hfirst.1.trans hnext.1, hnext.2⟩

/-- What was bound before the run is bound behind it. -/
lemma Binds.keep {act : Run α} (h : Binds L bound bound' act) : Binds L bound bound act := by
  intro s w hs
  have hend := h s w hs
  rcases hrun : (act.run s).run.run w with ⟨_ | ⟨a, t⟩, w'⟩
  · rw [hrun] at hend
    exact hend
  · rw [hrun] at hend
    exact ⟨hend.1, fun x hx => hend.1.subset (hs hx)⟩

lemma binds_ofEval {e : Eval α} (h : Eval.Binds L bound bound' e) :
    Binds L bound bound' (ofEval e) := by
  intro s w hs
  rw [run_ofEval]
  exact h s hs

lemma binds_emit (p : Piece) : Binds L bound bound (emit p) := by
  intro s w hs
  rw [run_emit]
  split
  · exact ⟨List.suffix_rfl, hs⟩
  · exact fun _ _ heq => by cases heq

lemma binds_lift {act : Output Unit} (h : act.MissingOnly L) :
    Binds L bound bound (liftM act : Run Unit) := by
  intro s w hs
  rw [run_lift]
  rcases hrun : act.run.run w with ⟨e | u, w'⟩
  · exact h w e (by rw [hrun])
  · exact ⟨List.suffix_rfl, hs⟩

/-- The variables that have been added are dropped at the end of a clause. -/
lemma binds_locally {act : Run α} (h : Binds L bound bound' act) :
    Binds L bound bound (locally act) := by
  intro s w hs
  have hact := h s w hs
  have hget : ((get : Run Scope).run s).run.run w = (.ok (s, s), w) := rfl
  unfold locally
  rw [run_bind, hget]
  dsimp only
  rw [run_bind]
  rcases hrun : (act.run s).run.run w with ⟨_ | ⟨a, t⟩, w'⟩
  · rw [hrun] at hact
    exact hact
  · rw [hrun] at hact
    obtain ⟨added, hadded⟩ := hact.1
    have hdrop : (t.outermost s.length).names = s.names := by
      have hlength : t.length - s.length = added.length := by
        have := congrArg List.length hadded
        simp only [Scope.names, List.length_append, List.length_map] at this
        omega
      rw [Scope.outermost, hlength, Scope.names, List.map_drop]
      show t.names.drop added.length = s.names
      rw [← hadded, List.drop_left]
    show s.names <:+ (t.outermost s.length).names ∧ bound ⊆ (t.outermost s.length).names
    rw [hdrop]
    exact ⟨List.suffix_rfl, hs⟩

end Run

namespace Items

variable {L : String → String → Prop} {bound : List String} {body : Value → Value → Run Flow}

lemma forPairs_binds (h : ∀ i v, Run.Binds L bound bound (body i v)) (ps : List (Value × Value)) :
    Run.Binds L bound bound (forPairs body ps) := by
  induction ps with
  | nil => exact Run.binds_pure _
  | cons p ps ih =>
    refine Run.binds_bind (h p.1 p.2) fun flow => ?_
    cases flow with
    | breakLoop => exact Run.binds_pure _
    | normal => exact ih
    | continueLoop => exact ih

lemma forNumbers_binds (h : ∀ i v, Run.Binds L bound bound (body i v)) (i n : Nat) :
    Run.Binds L bound bound (forNumbers body i n) := by
  induction n generalizing i with
  | zero => exact Run.binds_pure _
  | succ n ih =>
    refine Run.binds_bind (h _ _) fun flow => ?_
    cases flow with
    | breakLoop => exact Run.binds_pure _
    | normal => exact ih (i + 1)
    | continueLoop => exact ih (i + 1)

lemma forEach_binds (h : ∀ i v, Run.Binds L bound bound (body i v)) (items : Items) :
    Run.Binds L bound bound (items.forEach body) := by
  cases items with
  | pairs ps => exact forPairs_binds h ps
  | count n => exact forNumbers_binds h 0 n

end Items

/-! ### Statements -/

namespace Stage

variable {L : String → String → Prop} {s : Stage}

/-- In the templates that are called no other variables are missing. -/
def CallsMissingOnly (L : String → String → Prop) (s : Stage) : Prop :=
  ∀ enter name tree dot, s.enter = some enter → s.env.trees.get? name = some tree →
    (enter tree dot).MissingOnly L

/-- Where a loop gives values to its variables, it has declared them, or it finds them. -/
lemma missing_of_newNames {scope bound : List String} {assigns : Bool} {declared : List Variable}
    (h : Covers L s.template (assignedUses scope bound assigns declared)) :
    ∀ v ∈ declared, v.name ∉ newNames assigns declared ++ bound → L s.template v.name := by
  intro v hv hmissing
  rw [List.mem_append, not_or] at hmissing
  cases assigns with
  | true => exact h _ (List.mem_map_of_mem hv) hmissing.2
  | false =>
    have hmem : v.name ∈ newNames false declared := by
      rw [newNames, if_neg Bool.false_ne_true, List.mem_reverse]
      exact List.mem_map_of_mem hv
    exact absurd hmem hmissing.1

lemma bindItem_binds {bound : List String} {pos : Position} {index value : Value}
    {declared : List Variable} (h : ∀ v ∈ declared, v.name ∉ bound → L s.template v.name) :
    Eval.Binds L bound bound (s.bindItem pos index value declared) := by
  match declared with
  | []          => exact Eval.binds_pure _
  | [v]         => exact Frame.assign_binds (h v (by simp))
  | v :: w :: _ =>
    exact Eval.binds_bind (Frame.assign_binds (h v (by simp))) fun _ =>
      Frame.assign_binds (h w (by simp))

/-- A call binds nothing: the template that is called has variables of its own. -/
lemma callTemplate_binds (hs : s.CallsMissingOnly L) {scope bound : List String} {pos : Position}
    {name : String} {argument : Option Pipeline}
    (hu : ∀ p, argument = some p → Covers L s.template (p.uses scope bound)) :
    Run.Binds L bound bound (s.callTemplate pos name argument) := by
  have hfault : ∀ place cause, (∀ x, cause ≠ .undefinedVariable x) →
      (ExecutionError.fault place cause).IsOther := by
    intro place cause hcause place' x heq
    cases heq
    exact hcause x rfl
  unfold callTemplate
  dsimp only
  split
  · exact Run.binds_throw (hfault _ _ (by simp))
  · rename_i tree htree
    split
    · exact Run.binds_throw (hfault _ _ (by simp))
    · rename_i enter henter
      have hcall : ∀ dot, Run.Binds L bound bound (liftM (enter tree dot)) :=
        fun dot => Run.binds_lift (hs enter name tree dot henter htree)
      cases argument with
      | none => exact Run.binds_bind (Run.binds_pure _) hcall
      | some p =>
        have hargument := Run.binds_ofEval (Frame.evalPipeline_binds (hu p rfl))
        exact Run.binds_bind (Run.binds_locally hargument) hcall

/-- A loop, if its body does so where the variables of the loop have been bound, and its else part
where they have not. -/
lemma runRange_binds {scope bound : List String} {pos at₁ : Position} {pipe : Pipeline}
    {body : List Node} {otherwise : Option (BlockOf Node)}
    (hpipe : Covers L s.template (pipe.uses scope bound))
    (hbody : ∀ v, Run.Binds L (pipe.boundBehind bound) (pipe.boundBehind bound)
      ((s.withDot v).runNodes body))
    (helse : Run.Binds L (commandsBound bound pipe.commands) (commandsBound bound pipe.commands)
      (s.runElse otherwise)) :
    Run.Binds L bound bound (s.runNode (.branch .range pos pipe ⟨at₁, body⟩ otherwise)) := by
  obtain ⟨at₂, assigns, declared, commands⟩ := pipe
  rw [PipelineOf.uses, Operand.uses, covers_append] at hpipe
  obtain ⟨hcommands, hassigned⟩ := hpipe
  rw [PipelineOf.boundBehind, Operand.boundBehind] at hbody
  have hvalue := Run.binds_ofEval (Frame.evalCommands_binds none commands hcommands)
  have hitem : ∀ index value, Run.Binds L
      (newNames assigns declared ++ commandsBound bound commands)
      (newNames assigns declared ++ commandsBound bound commands) (do
        Run.ofEval (s.bindItem pos index value declared)
        Run.locally ((s.withDot value).runNodes body)) := by
    intro index value
    refine Run.binds_bind (Run.binds_ofEval (bindItem_binds ?_)) fun _ => ?_
    · exact missing_of_newNames hassigned
    · exact Run.binds_locally (hbody value)
  rw [runNode]
  refine @Run.binds_locally L Flow bound (commandsBound bound commands) _ ?_
  refine Run.binds_bind hvalue fun value => ?_
  split
  · exact Run.binds_throw fun _ _ => by simp
  · rename_i items hitems
    dsimp only
    split
    · exact Run.binds_bind helse fun _ => Run.binds_pure _
    · have hloop := Items.forEach_binds hitem items
      cases assigns with
      | true => exact Run.binds_bind hloop fun _ => Run.binds_pure _
      | false =>
        have hdeclare : Eval.Binds L (commandsBound bound commands)
            (newNames false declared ++ commandsBound bound commands)
            (declared.forM fun v => Frame.declare v .null) :=
          Frame.declareAll_binds declared .null
        exact (Run.binds_bind (Run.binds_ofEval hdeclare) fun _ =>
          Run.binds_bind hloop fun _ => Run.binds_pure Flow.normal).keep

mutual

/-- A statement binds what it is said to bind if its late uses are covered. -/
lemma runNode_binds {s : Stage} (hs : s.CallsMissingOnly L) {scope bound : List String} (n : Node)
    (hu : Covers L s.template (n.uses scope bound)) :
    Run.Binds L bound (n.boundBehind bound) (s.runNode n) := by
  match n with
  | .text _ t =>
    rw [runNode]
    exact Run.binds_bind (Run.binds_emit _) fun _ => Run.binds_pure _
  | .comment _ _ | .breakLoop _ | .continueLoop _ =>
    rw [runNode]
    exact Run.binds_pure _
  | .action pos pipe =>
    rw [runNode]
    refine Run.binds_bind (Run.binds_ofEval (Frame.evalPipeline_binds hu)) fun value => ?_
    split
    · exact Run.binds_bind (Run.binds_emit _) fun _ => Run.binds_pure _
    · exact Run.binds_pure _
  | .branch .cond pos pipe ⟨at₁, body⟩ otherwise =>
    rw [Node.uses, covers_append, covers_append] at hu
    obtain ⟨hpipe, hbody, helse⟩ := hu
    have hvalue := Run.binds_ofEval (Frame.evalPipeline_binds hpipe)
    rw [runNode]
    refine @Run.binds_locally L Flow bound (pipe.boundBehind bound) _ ?_
    refine Run.binds_bind hvalue fun value => ?_
    split
    · exact runNodes_binds hs body hbody
    · exact runElse_binds hs otherwise helse
  | .branch .withValue pos pipe ⟨at₁, body⟩ otherwise =>
    rw [Node.uses, covers_append, covers_append] at hu
    obtain ⟨hpipe, hbody, helse⟩ := hu
    have hvalue := Run.binds_ofEval (Frame.evalPipeline_binds hpipe)
    rw [runNode]
    refine @Run.binds_locally L Flow bound (pipe.boundBehind bound) _ ?_
    refine Run.binds_bind hvalue fun value => ?_
    split
    · exact runNodes_binds (s := s.withDot value) hs body hbody
    · exact runElse_binds hs otherwise helse
  | .branch .range pos ⟨at₂, assigns, declared, commands⟩ ⟨at₁, body⟩ otherwise =>
    rw [Node.uses, covers_append, covers_append] at hu
    obtain ⟨hpipe, hbody, helse⟩ := hu
    exact runRange_binds hpipe (fun v => runNodes_binds (s := s.withDot v) hs body hbody)
      (runElse_binds hs otherwise helse)
  | .call pos name none =>
    rw [runNode]
    exact Run.binds_bind (@callTemplate_binds L s hs scope _ _ _ _ (by simp)) fun _ =>
      Run.binds_pure _
  | .call pos name (some p) =>
    rw [runNode]
    refine Run.binds_bind (@callTemplate_binds L s hs scope _ _ _ (some p) ?_) fun _ =>
      Run.binds_pure _
    intro q hq
    cases hq
    exact hu

lemma runNodes_binds {s : Stage} (hs : s.CallsMissingOnly L) {scope bound : List String}
    (ns : List Node) (hu : Covers L s.template (nodesUses scope bound ns)) :
    Run.Binds L bound bound (s.runNodes ns) := by
  match ns with
  | [] =>
    rw [runNodes]
    exact Run.binds_pure _
  | n :: ns =>
    rw [nodesUses, covers_append] at hu
    rw [runNodes]
    have hnext : ∀ flow, Run.Binds L (n.boundBehind bound) (n.boundBehind bound)
        (match flow with
          | Flow.normal => s.runNodes ns
          | flow        => return flow) := by
      intro flow
      cases flow with
      | normal => exact runNodes_binds hs ns hu.2
      | breakLoop | continueLoop => exact Run.binds_pure _
    exact (Run.binds_bind (runNode_binds hs n hu.1) hnext).keep

lemma runElse_binds {s : Stage} (hs : s.CallsMissingOnly L) {scope bound : List String}
    (otherwise : Option (BlockOf Node))
    (hu : Covers L s.template (elseUses scope bound otherwise)) :
    Run.Binds L bound bound (s.runElse otherwise) := by
  match otherwise with
  | none =>
    rw [runElse]
    exact Run.binds_pure _
  | some ⟨pos, ns⟩ =>
    rw [elseUses] at hu
    rw [runElse]
    exact runNodes_binds hs ns hu

end

end Stage

/-! ### Templates -/

namespace Environment

variable {env : Environment} {L : String → String → Prop}

/-- Where variables can be missing: in a template that uses one late. -/
def UsesLate (env : Environment) (template name : String) : Prop :=
  ∃ key tree, env.trees.get? key = some tree ∧ tree.name = template ∧
    ∃ u ∈ tree.uses, u.name = name ∧ u.IsLate

/-- In a template that is entered, variables are missing only at its late uses. -/
lemma enterWith_missingOnly {enter : Option (Tree → Value → Output Unit)} {tree : Tree}
    {dot : Value} (hs : Stage.CallsMissingOnly L ⟨⟨env, tree.name, dot⟩, enter⟩)
    (hu : Covers L tree.name tree.uses) : (runTree.enterWith env enter tree dot).MissingOnly L := by
  intro w e he
  have hrun := Stage.runNodes_binds hs tree.root.nodes hu [("$", dot)] w (List.Subset.refl _)
  rw [run_enterWith] at he
  rcases hend : ((Stage.runNodes ⟨⟨env, tree.name, dot⟩, enter⟩ tree.root.nodes).run
    [("$", dot)]).run.run w with ⟨e' | r, w'⟩
  · rw [hend] at hrun he
    cases he
    exact hrun
  · rw [hend] at he
    cases he

/-- However deep calls are nested, variables are missing only where they are used late. -/
lemma runTree_missingOnly (d : Nat) {key : String} {tree : Tree} {dot : Value}
    (htree : env.trees.get? key = some tree) : (env.runTree d tree dot).MissingOnly env.UsesLate := by
  have hcovers : ∀ {key tree}, env.trees.get? key = some tree →
      Covers env.UsesLate tree.name tree.uses :=
    fun htree u hu hlate => ⟨_, _, htree, rfl, u, hu, rfl, hlate⟩
  induction d generalizing key tree dot with
  | zero =>
    refine enterWith_missingOnly ?_ (hcovers htree)
    intro enter name tree' dot' henter
    cases henter
  | succ d ih =>
    refine enterWith_missingOnly ?_ (hcovers htree)
    intro enter name tree' dot' henter htree'
    cases henter
    exact ih htree'

/-- An execution that does not find a variable has got to a late use of it. -/
theorem execute_undefined {key : String} {tree : Tree} {data : Value} {room : Option Nat}
    {place : Place} {name : String} (htree : env.trees.get? key = some tree)
    (h : (env.execute tree data room).failure = some (.fault place (.undefinedVariable name))) :
    env.UsesLate place.template name := by
  have hrun := @runTree_missingOnly env maxCallDepth key tree data htree (.ofRoom room)
  unfold execute at h
  rcases hend : (env.runTree maxCallDepth tree data).run (Sink.ofRoom room) with ⟨e | u, w⟩
  · rw [hend] at h
    cases h
    exact hrun _ (congrArg Prod.fst hend) place name rfl
  · rw [hend] at h
    cases h

end Environment

end SafeQuery
