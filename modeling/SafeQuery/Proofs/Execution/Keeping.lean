import Mathlib.Tactic.Common
import SafeQuery.Proofs.Execution.Hook
import SafeQuery.Proofs.Tree.Walk

/-!
# What evaluation keeps

A property of values is kept by an environment if constants have it, the parts of values that have
it have it, functions yield it from arguments that have it, and so does the encoder. Evaluation
then yields no other values and leaves no others in the variables: `evalPipeline_keeps` is the
induction over operands, commands and pipelines.
-/

namespace SafeQuery

/-- The property holds of constants, and of the parts of values with the property. -/
structure Value.Closed (V : Value → Prop) : Prop where
  null : V .null
  bool (b : Bool) : V (.bool b)
  int (n : Int64) : V (.int n)
  float (x : Float) : V (.float x)
  string (s : String) : V (.string s)
  item {vs : List Value} {v : Value} : V (.list vs) → v ∈ vs → V v
  entry {d : Dict Value} {e : String × Value} : V (.map d) → e ∈ d.entries → V e.2

/-- From arguments with the property the function yields a value with it. -/
def Function.Keeps (V : Value → Prop) (g : Function) : Prop :=
  ∀ args v, (∀ a ∈ args, V a) → g args = .ok v → V v

/-- The property is closed, and it passes on from values to what functions and the encoder make of
them. -/
structure Environment.Keeps (env : Environment) (V : Value → Prop) : Prop extends
    Value.Closed V where
  function {name : String} {g : Function} :
    (env.functions.get? name).or (builtins.get? name) = some g → g.Keeps V
  literal {v : Value} {sql : String} : V v → env.encoder v = .ok sql → V (.raw sql)

/-- Nothing is asked of values. -/
lemma Environment.keeps_true (env : Environment) : env.Keeps fun _ => True := by
  constructor
  · constructor <;> intros <;> trivial
  · intro name g _ args v _ _
    trivial
  · intro v sql _ _
    trivial

/-- The variables have values with the property. -/
def Scope.All (V : Value → Prop) (s : Scope) : Prop := ∀ e ∈ s, V e.2

namespace Eval

variable {V : Value → Prop} {α β : Type} {P : α → Prop} {Q : β → Prop}

/-- From variables with the property the evaluation has a good result, and leaves variables with the
property. -/
def Keeps (V : Value → Prop) (P : α → Prop) (e : Eval α) : Prop :=
  ∀ s s' a, s.All V → e.run s = .ok (a, s') → P a ∧ s'.All V

lemma keeps_pure {a : α} (h : P a) : Keeps V P (pure a) := by
  intro s s' a' hs hrun
  cases hrun
  exact ⟨h, hs⟩

lemma keeps_throw (cause : ExecutionError) : Keeps V P (throw cause : Eval α) := by
  intro s s' a hs hrun
  cases hrun

/-- Evaluations one after the other keep the property if the second does for what the first yields.
-/
lemma keeps_bind {e : Eval α} {k : α → Eval β} (he : Keeps V P e)
    (hk : ∀ a, P a → Keeps V Q (k a)) : Keeps V Q (e >>= k) := by
  intro s s' b hs hrun
  rw [StateT.run_bind] at hrun
  cases h : e.run s with
  | error cause =>
    rw [h] at hrun
    cases hrun
  | ok r =>
    obtain ⟨a, t⟩ := r
    rw [h] at hrun
    obtain ⟨ha, ht⟩ := he s t a hs h
    exact hk a ha t s' b ht hrun

lemma keeps_lift {x : Except ExecutionError α} (h : ∀ a, x = .ok a → P a) :
    Keeps V P (liftM x : Eval α) := by
  intro s s' a hs hrun
  cases x with
  | error cause => cases hrun
  | ok b =>
    cases hrun
    exact ⟨h _ rfl, hs⟩

lemma keeps_get : Keeps V (Scope.All V) (get : Eval Scope) := by
  intro s s' a hs hrun
  cases hrun
  exact ⟨hs, hs⟩

lemma keeps_set {s : Scope} (h : s.All V) : Keeps V (fun _ => True) (set s : Eval PUnit) := by
  intro t t' a ht hrun
  cases hrun
  exact ⟨trivial, h⟩

lemma keeps_modify {g : Scope → Scope} (h : ∀ s, s.All V → (g s).All V) :
    Keeps V (fun _ => True) (modify g : Eval PUnit) := by
  intro s s' a hs hrun
  cases hrun
  exact ⟨trivial, h s hs⟩

lemma keeps_forM {xs : List α} {k : α → Eval PUnit} (h : ∀ x ∈ xs, Keeps V (fun _ => True) (k x)) :
    Keeps V (fun _ => True) (xs.forM k) := by
  induction xs with
  | nil => exact keeps_pure trivial
  | cons x xs ih =>
    apply keeps_bind (h x List.mem_cons_self)
    intro _ _
    exact ih fun y hy => h y (List.mem_cons_of_mem _ hy)

/-- The results of evaluations with the property. -/
lemma keeps_mapM {es : List (Eval Value)} (h : ∀ e ∈ es, Keeps V V e) :
    Keeps V (fun vs => ∀ v ∈ vs, V v) (es.mapM id) := by
  induction es with
  | nil => exact keeps_pure (by simp)
  | cons e es ih =>
    rw [List.mapM_cons]
    apply keeps_bind (h e List.mem_cons_self)
    intro v hv
    apply keeps_bind (ih fun d hd => h d (List.mem_cons_of_mem _ hd))
    intro vs hvs
    exact keeps_pure (by simpa using ⟨hv, hvs⟩)

end Eval

/-! ### Variables -/

namespace Scope

variable {V : Value → Prop} {s t : Scope} {name : String} {v : Value}

lemma All.get? (h : s.All V) (hv : s.get? name = some v) : V v := by
  obtain ⟨e, he, rfl⟩ := Option.map_eq_some_iff.mp hv
  exact h e (List.mem_of_find?_eq_some he)

lemma All.cons (h : s.All V) (hv : V v) : All V ((name, v) :: s) := by
  intro e he
  rcases List.mem_cons.mp he with rfl | he
  · exact hv
  · exact h e he

lemma All.set? (h : s.All V) (hv : V v) (ht : s.set? name v = some t) : t.All V := by
  induction s generalizing t with
  | nil => simp [Scope.set?] at ht
  | cons e s ih =>
    have hs : Scope.All V s := fun d hd => h d (List.mem_cons_of_mem _ hd)
    simp only [Scope.set?] at ht
    split at ht
    · cases ht
      exact hs.cons hv
    · obtain ⟨u, hu, rfl⟩ := Option.map_eq_some_iff.mp ht
      intro d hd
      rcases List.mem_cons.mp hd with rfl | hd
      · exact h d List.mem_cons_self
      · exact ih hs hu d hd

end Scope

namespace Frame

open Eval

variable {V : Value → Prop} {f : Frame}

/-- The value of a variable has the property. -/
lemma variableValue_keeps (v : Variable) : Keeps V V (f.variableValue v) := by
  apply keeps_bind keeps_get
  intro s hs
  split
  · rename_i value hvalue
    exact keeps_pure (hs.get? hvalue)
  · exact keeps_throw _

lemma assign_keeps {value : Value} (hv : V value) (pos : Position) (v : Variable) :
    Keeps V (fun _ => True) (f.assign pos v value) := by
  apply keeps_bind keeps_get
  intro s hs
  split
  · rename_i scope hscope
    exact keeps_set (hs.set? hv hscope)
  · exact keeps_throw _

lemma declare_keeps {value : Value} (hv : V value) (v : Variable) :
    Keeps V (fun _ => True) (declare v value) :=
  keeps_modify fun _ hs => hs.cons hv

lemma bind_keeps {value : Value} (hv : V value) (assigns : Bool) (declared : List Variable) :
    Keeps V (fun _ => True) (f.bind assigns declared value) := by
  apply keeps_forM
  intro v _
  split
  · exact assign_keeps hv v.pos v
  · exact declare_keeps hv v

/-! ### Fields and calls -/

/-- The field of a value with the property has it. -/
lemma fieldValue_keeps (hV : f.env.Keeps V) {o : Operand} {hasArguments : Bool}
    {receiver v : Value} {name : String} (hr : V receiver)
    (h : f.fieldValue o hasArguments receiver name = .ok v) : V v := by
  unfold fieldValue at h
  split at h
  · rename_i d
    split at h
    · cases h
    · split at h
      · rename_i hw
        cases h
        obtain ⟨e, he, rfl⟩ := Option.map_eq_some_iff.mp hw
        exact hV.entry hr (List.mem_of_find?_eq_some he)
      · cases h
      · cases h
        exact hV.null
  · cases h
  · cases h

lemma fieldsValue_keeps (hV : f.env.Keeps V) {o : Operand} {hasArguments : Bool}
    {receiver v : Value} {names : List String} (hr : V receiver)
    (h : f.fieldsValue o hasArguments receiver names = .ok v) : V v := by
  induction names generalizing receiver with
  | nil => cases h
  | cons name names ih =>
    cases names with
    | nil => exact fieldValue_keeps hV hr h
    | cons name' names =>
      simp only [fieldsValue] at h
      cases hw : f.fieldValue o false receiver name with
      | error cause =>
        rw [hw] at h
        cases h
      | ok w =>
        rw [hw] at h
        exact ih (fieldValue_keeps hV hr hw) h

/-- A literal has the property. -/
lemma encode_keeps (hV : f.env.Keeps V) {c : Command} {value v : Value} (hv : V value)
    (h : f.encode c value = .ok v) : V v := by
  unfold encode at h
  split at h
  · rename_i sql hsql
    cases h
    exact hV.literal hv hsql
  · cases h

/-- The value that decides has the property, like all that are tried. -/
lemma firstThat_keeps {stop : Bool} {last : Option Value} {value : Value}
    {operands : List (Eval Value)} (ho : ∀ e ∈ operands, Keeps V V e) (hl : ∀ v ∈ last, V v)
    (hv : V value) : Keeps V V (firstThat stop last value operands) := by
  induction operands generalizing value with
  | nil =>
    cases last with
    | none => exact keeps_pure hv
    | some w => exact keeps_pure (hl w rfl)
  | cons e es ih =>
    apply keeps_bind (ho e List.mem_cons_self)
    intro w hw
    split
    · exact keeps_pure hw
    · exact ih (fun d hd => ho d (List.mem_cons_of_mem _ hd)) hw

/-- A function yields a value with the property. -/
lemma call_keeps (hV : f.env.Keeps V) {c : Command} {name : String}
    {operands : List (Eval Value)} {last : Option Value} (ho : ∀ e ∈ operands, Keeps V V e)
    (hl : ∀ v ∈ last, V v) :
    Keeps V V (f.call c name operands last) := by
  have happend : ∀ vs : List Value, (∀ v ∈ vs, V v) → ∀ v ∈ vs ++ last.toList, V v := by
    intro vs hvs v hv
    rcases List.mem_append.mp hv with hv | hv
    · exact hvs v hv
    · exact hl v (Option.mem_toList.mp hv)
  unfold call
  split
  · -- the encoder
    apply keeps_bind (keeps_mapM ho)
    intro vs hvs
    have hargs := happend vs hvs
    dsimp only
    split
    · rename_i v hv
      exact keeps_lift fun w hw => encode_keeps hV (hargs v (by simp [hv])) hw
    · exact keeps_throw _
  · split
    · -- the functions that need not evaluate all operands
      split
      · exact keeps_throw _
      · exact firstThat_keeps ho hl hV.null
    · -- all other functions
      split
      · exact keeps_throw _
      · rename_i g hg
        apply keeps_bind (keeps_mapM ho)
        intro vs hvs
        dsimp only
        split
        · rename_i v hv
          exact keeps_pure (hV.function hg _ v (happend vs hvs) hv)
        · exact keeps_throw _

lemma numberValue_keeps (hV : f.env.Keeps V) {n : Number} {v : Value}
    (h : f.numberValue n = .ok v) : V v := by
  unfold numberValue at h
  split at h
  · cases h
    exact hV.int _
  · cases h
    exact hV.float _
  · cases h

/-! ### Operands, commands and pipelines -/

mutual

/-- The value of an operand has the property. -/
lemma evalOperand_keeps (hV : f.env.Keeps V) (hdot : V f.dot) (o : Operand) :
    Keeps V V (f.evalOperand o) := by
  match o with
  | .dot _ =>
    rw [evalOperand]
    exact keeps_pure hdot
  | .nil _ =>
    rw [evalOperand]
    exact keeps_pure hV.null
  | .bool _ b =>
    rw [evalOperand]
    exact keeps_pure (hV.bool b)
  | .number n =>
    rw [evalOperand]
    exact keeps_lift fun v hv => numberValue_keeps hV hv
  | .string _ _ text =>
    rw [evalOperand]
    exact keeps_pure (hV.string text)
  | .field pos names =>
    rw [evalOperand]
    exact keeps_lift fun v hv => fieldsValue_keeps hV hdot hv
  | .var v =>
    rw [evalOperand]
    apply keeps_bind (variableValue_keeps v)
    intro value hvalue
    split
    · exact keeps_pure hvalue
    · exact keeps_lift fun w hw => fieldsValue_keeps hV hvalue hw
  | .chain pos o names =>
    rw [evalOperand]
    apply keeps_bind (evalOperand_keeps hV hdot o)
    intro value hvalue
    exact keeps_lift fun w hw => fieldsValue_keeps hV hvalue hw
  | .pipeline ⟨_, assigns, declared, commands⟩ =>
    rw [evalOperand]
    apply keeps_bind (evalCommands_keeps hV hdot none (by simp) commands)
    intro value hvalue
    apply keeps_bind (bind_keeps hvalue assigns declared)
    intro _ _
    exact keeps_pure hvalue
  | .identifier pos name =>
    rw [evalOperand]
    exact call_keeps hV (by simp) (by simp)

lemma evalOperands_keeps (hV : f.env.Keeps V) (hdot : V f.dot) (os : List Operand) :
    ∀ e ∈ f.evalOperands os, Keeps V V e := by
  match os with
  | [] => simp [evalOperands]
  | o :: os =>
    rw [evalOperands]
    intro e he
    rcases List.mem_cons.mp he with rfl | he
    · exact evalOperand_keeps hV hdot o
    · exact evalOperands_keeps hV hdot os e he

/-- The value of a command has the property if that of the command before has. -/
lemma evalCommand_keeps (hV : f.env.Keeps V) (hdot : V f.dot) (c : Command) (last : Option Value)
    (hl : ∀ v ∈ last, V v) (os : List Operand) : Keeps V V (f.evalCommand c last os) := by
  match os with
  | [] =>
    rw [evalCommand]
    exact keeps_throw _
  | .field pos names :: os =>
    rw [evalCommand]
    exact keeps_lift fun v hv => fieldsValue_keeps hV hdot hv
  | .chain pos o names :: os =>
    have ho := evalOperand_keeps hV hdot o
    unfold evalCommand
    split
    · exact keeps_bind (P := fun _ => True) (keeps_throw _) fun _ _ =>
        keeps_bind ho fun value hvalue =>
          keeps_lift fun w hw => fieldsValue_keeps hV hvalue hw
    · apply keeps_bind ho
      intro value hvalue
      exact keeps_lift fun w hw => fieldsValue_keeps hV hvalue hw
  | .identifier pos name :: os =>
    rw [evalCommand]
    exact call_keeps hV (evalOperands_keeps hV hdot os) hl
  | .var v :: os =>
    rw [evalCommand]
    apply keeps_bind (variableValue_keeps v)
    intro value hvalue
    split
    · exact keeps_bind (P := fun _ => True) (keeps_lift fun _ _ => trivial) fun _ _ =>
        keeps_pure hvalue
    · exact keeps_lift fun w hw => fieldsValue_keeps hV hvalue hw
  | .nil pos :: os =>
    rw [evalCommand]
    exact keeps_throw _
  | .dot pos :: os | .bool pos b :: os | .number n :: os | .string pos quoted text :: os
  | .pipeline p :: os =>
    simp only [evalCommand]
    exact keeps_bind (P := fun _ => True) (keeps_lift fun _ _ => trivial) fun _ _ =>
      evalOperand_keeps hV hdot _

/-- The value behind all commands has the property. -/
lemma evalCommands_keeps (hV : f.env.Keeps V) (hdot : V f.dot)
    (before : Option (Command × Value)) (hb : ∀ b ∈ before, V b.2) (cs : List (CommandOf Operand)) :
    Keeps V V (f.evalCommands before cs) := by
  match cs with
  | [] =>
    rw [evalCommands_nil]
    refine keeps_pure ?_
    cases before with
    | none => exact hV.null
    | some b => exact hb b rfl
  | ⟨pos, os⟩ :: cs =>
    have hlast : ∀ v ∈ before.map (·.2), V v := by
      intro v hv
      obtain ⟨b, hb', rfl⟩ := Option.map_eq_some_iff.mp hv
      exact hb b hb'
    have hnext : Keeps V V (f.evalNext before ⟨pos, os⟩) := by
      unfold evalNext
      split
      · split
        · rename_i source v
          exact keeps_lift fun w hw => encode_keeps hV (hb (source, v) rfl) hw
        · exact keeps_throw _
      · exact evalCommand_keeps hV hdot ⟨pos, os⟩ (before.map (·.2)) hlast os
    rw [evalCommands_cons]
    apply keeps_bind hnext
    intro v hv
    exact evalCommands_keeps hV hdot (some (⟨pos, os⟩, v)) (by simpa using hv) cs

end

/-- From good data and variables a pipeline yields a good value, and leaves good variables. -/
theorem evalPipeline_keeps (hV : f.env.Keeps V) (hdot : V f.dot) (p : Pipeline) :
    Keeps V V (f.evalPipeline p) := by
  apply keeps_bind (evalCommands_keeps hV hdot none (by simp) p.commands)
  intro value hvalue
  apply keeps_bind (bind_keeps hvalue p.assigns p.declared)
  intro _ _
  exact keeps_pure hvalue

/-- What a guarded pipeline writes is a literal that the encoder gives for a good value. -/
theorem evalPipeline_guarded {p : Pipeline} (hV : f.env.Keeps V) (hdot : V f.dot)
    (hp : p.IsGuarded) (hd : p.declared = []) :
    Keeps V (fun v => ∃ u sql, V u ∧ f.env.encoder u = .ok sql ∧ v = .raw sql)
      (f.evalPipeline p) := by
  obtain ⟨cs, hook, hcs, hb⟩ := hp hd
  rw [evalPipeline_of_declared_nil f hd, hcs]
  cases hlast : cs.getLast? with
  | none =>
    -- a pipeline that is nothing but the call has no value
    obtain rfl : cs = [] := by simpa using hlast
    simp only [List.nil_append, evalCommands_cons, evalNext, hb, if_true]
    exact keeps_bind (P := fun _ => False) (keeps_throw _) fun _ h => h.elim
  | some last =>
    rw [evalCommands_hook f hlast hb]
    apply keeps_bind (evalCommands_keeps hV hdot none (by simp) cs)
    intro u hu
    apply keeps_lift
    intro v hv
    unfold encode at hv
    split at hv
    · rename_i sql hsql
      cases hv
      exact ⟨u, sql, hu, hsql, rfl⟩
    · cases hv

end Frame

end SafeQuery
