import SafeQuery.Proofs.Execution.Moving
import SafeQuery.Proofs.Execution.Stepwise
import SafeQuery.Proofs.Tree.Scoping

/-!
# The discipline of variables

The variables of an execution are a stack, of which an evaluation only adds to the top. What lies
below keeps its place and its name, and it keeps its value unless the variable is the innermost one
of a name that the evaluated text assigns (`Scope.Extends`). A branch and a call take off again what
has been added, and the body of a called template has a stack of its own (`stack_discipline`).
-/

namespace SafeQuery

/-- The names of the variables that a pipeline itself gives another value. -/
def PipelineOf.assignees (p : Pipeline) : List String :=
  if p.assigns then p.declared.map (·.name) else []

/-- The names of the variables that pipelines give other values. -/
def assignedIn (ps : List Pipeline) : List String := ps.flatMap PipelineOf.assignees

lemma assignedIn_subset_iff {ps : List Pipeline} {A : List String} :
    assignedIn ps ⊆ A ↔ ∀ p ∈ ps, p.assignees ⊆ A := by
  simp only [assignedIn, List.subset_def, List.mem_flatMap]
  exact ⟨fun h p hp x hx => h ⟨p, hp, hx⟩, fun h x ⟨p, hp, hx⟩ => h p hp hx⟩

def PipelineOf.assigned (p : Pipeline) : List String := assignedIn p.within

mutual

/-- The names that are assigned in a node. Those of a called template are others. -/
def Node.assigned : Node → List String
  | .action _ p                       => p.assigned
  | .call _ _ (some p)                => p.assigned
  | .branch _ _ p ⟨_, body⟩ otherwise =>
    p.assigned ++ (nodesAssigned body ++ elseAssigned otherwise)
  | _                                 => []

def nodesAssigned : List Node → List String
  | []      => []
  | n :: ns => n.assigned ++ nodesAssigned ns

def elseAssigned : Option (BlockOf Node) → List String
  | none         => []
  | some ⟨_, ns⟩ => nodesAssigned ns

end

/-! ### Stacks -/

namespace Scope

/-- The same variables one by one. A variable has another value only if its name is assigned and no
variable further in has this name; `inner` are the names of the variables further in. -/
inductive Kept (assigned : List String) : (inner : List String) → Scope → Scope → Prop
  | nil {inner : List String} : Kept assigned inner [] []
  | same {inner : List String} {e : String × Value} {s t : Scope} :
      Kept assigned (e.1 :: inner) s t → Kept assigned inner (e :: s) (e :: t)
  | changed {inner : List String} {name : String} {v w : Value} {s t : Scope} :
      name ∈ assigned → name ∉ inner → Kept assigned (name :: inner) s t →
        Kept assigned inner ((name, v) :: s) ((name, w) :: t)

/-- The second stack has what the first one has, and may have more on top. -/
def Extends (assigned : List String) (s t : Scope) : Prop :=
  ∃ added kept, t = added ++ kept ∧ Kept assigned [] s kept

variable {A B : List String} {inner : List String} {s t u : Scope}

namespace Kept

lemma refl (inner : List String) (s : Scope) : Kept A inner s s := by
  induction s generalizing inner with
  | nil => exact .nil
  | cons e s ih => exact .same (ih _)

lemma names_eq (h : Kept A inner s t) : t.names = s.names := by
  induction h with
  | nil => rfl
  | same _ ih | changed _ _ _ ih => simpa [names] using ih

lemma length_eq (h : Kept A inner s t) : t.length = s.length := by
  simpa [names] using congrArg List.length h.names_eq

lemma trans (h : Kept A inner s t) (h' : Kept A inner t u) : Kept A inner s u := by
  induction h generalizing u with
  | nil => exact h'
  | same _ ih =>
    cases h' with
    | same h' => exact .same (ih h')
    | changed hname hinner h' => exact .changed hname hinner (ih h')
  | changed hname hinner _ ih =>
    cases h' with
    | same h' => exact .changed hname hinner (ih h')
    | changed _ _ h' => exact .changed hname hinner (ih h')

/-- What can be seen further in and what is assigned matter only where they meet. -/
lemma mono {inner' : List String} (h : Kept A inner s t)
    (hsub : ∀ x ∈ A, x ∉ inner → x ∈ B ∧ x ∉ inner') : Kept B inner' s t := by
  have hcons : ∀ {inner inner' : List String} (y : String),
      (∀ x ∈ A, x ∉ inner → x ∈ B ∧ x ∉ inner') →
        ∀ x ∈ A, x ∉ y :: inner → x ∈ B ∧ x ∉ y :: inner' := by
    intro inner inner' y hsub x hx hinner
    rw [List.mem_cons, not_or] at hinner ⊢
    exact ⟨(hsub x hx hinner.2).1, hinner.1, (hsub x hx hinner.2).2⟩
  induction h generalizing inner' with
  | nil => exact .nil
  | same _ ih => exact .same (ih (hcons _ hsub))
  | changed hname hinner _ ih =>
    exact .changed (hsub _ hname hinner).1 (hsub _ hname hinner).2 (ih (hcons _ hsub))

instance : IsPreorder Scope (Kept A inner) where
  refl s := refl inner s
  trans _ _ _ h h' := h.trans h'

/-- Below the top of a stack the names of the top are further in. -/
lemma under {added : Scope} (h : Kept A inner (added ++ s) t) :
    ∃ added' kept, t = added' ++ kept ∧ Kept A (added.names.reverse ++ inner) s kept := by
  induction added generalizing inner t with
  | nil => exact ⟨[], t, rfl, h⟩
  | cons e added ih =>
    have hnames : (names (e :: added)).reverse ++ inner =
        (names added).reverse ++ (e.1 :: inner) := by simp [names]
    rw [hnames]
    cases h with
    | same h =>
      obtain ⟨added', kept, rfl, hkept⟩ := ih h
      exact ⟨_ :: added', kept, rfl, hkept⟩
    | changed _ _ h =>
      obtain ⟨added', kept, rfl, hkept⟩ := ih h
      exact ⟨_ :: added', kept, rfl, hkept⟩

/-- An assignment changes the innermost variable of the name. -/
lemma of_set? {name : String} {v : Value} (hname : name ∈ A) (hinner : name ∉ inner)
    (h : s.set? name v = some t) : Kept A inner s t := by
  induction s generalizing inner t with
  | nil => cases h
  | cons e s ih =>
    rw [set?] at h
    split_ifs at h with he
    · obtain ⟨x, w⟩ := e
      obtain rfl : x = name := he
      cases h
      exact .changed hname hinner (refl _ _)
    · obtain ⟨t', ht', rfl⟩ := Option.map_eq_some_iff.mp h
      exact .same (ih (by simp [Ne.symm he, hinner]) ht')

end Kept

namespace Extends

lemma refl (s : Scope) : Extends A s s := ⟨[], s, rfl, .refl _ _⟩

lemma of_kept (h : Kept A [] s t) : Extends A s t := ⟨[], t, rfl, h⟩

lemma mono (h : Extends A s t) (hsub : ∀ x ∈ A, x ∈ B) : Extends B s t := by
  obtain ⟨added, kept, rfl, hkept⟩ := h
  exact ⟨added, kept, rfl, hkept.mono fun x hx hinner => ⟨hsub x hx, hinner⟩⟩

/-- What has been on top hides the variables of its names. -/
lemma of_append {added : Scope} (h : Extends A (added ++ s) t)
    (hsub : ∀ x ∈ A, x ∈ added.names ∨ x ∈ B) : Extends B s t := by
  obtain ⟨more, all, rfl, hall⟩ := h
  obtain ⟨added', kept, rfl, hkept⟩ := hall.under
  refine ⟨more ++ added', kept, (List.append_assoc _ _ _).symm, hkept.mono fun x hx hinner => ?_⟩
  rcases hsub x hx with hadded | hB
  · exact absurd (by simpa using hadded) hinner
  · exact ⟨hB, List.not_mem_nil⟩

lemma trans (h : Extends A s t) (h' : Extends A t u) : Extends A s u := by
  obtain ⟨added, kept, rfl, hkept⟩ := h
  obtain ⟨more, kept', rfl, hkept'⟩ := h'.of_append (B := A) fun x hx => .inr hx
  exact ⟨more, kept', rfl, hkept.trans hkept'⟩

instance : IsPreorder Scope (Extends A) where
  refl s := refl s
  trans _ _ _ h h' := h.trans h'

lemma cons (e : String × Value) (s : Scope) : Extends A s (e :: s) := ⟨[e], s, rfl, .refl _ _⟩

/-- The variables of the first stack are the outermost ones of the second. -/
lemma outermost (h : Extends A s t) : Kept A [] s (t.outermost s.length) := by
  obtain ⟨added, kept, rfl, hkept⟩ := h
  have hdrop : Scope.outermost (added ++ kept) s.length = kept := by
    rw [Scope.outermost, List.length_append, hkept.length_eq, Nat.add_sub_cancel, List.drop_left]
  rwa [hdrop]

/-- No variable is removed, renamed or moved. -/
lemma names_suffix (h : Extends A s t) : s.names <:+ t.names := by
  obtain ⟨added, kept, rfl, hkept⟩ := h
  exact ⟨added.names, by rw [← hkept.names_eq, names, names, names, List.map_append]⟩

end Extends

end Scope

namespace Frame

open Eval Scope

variable {f : Frame} {A : List String}

/-- An assignment changes one of the variables that are assigned, and no other. -/
lemma assign_extends {v : Variable} (hv : v.name ∈ A) (pos : Position) (value : Value) :
    Moves (Extends A) (f.assign pos v value) := by
  intro s a t hrun
  obtain ⟨s', _, hget, hset⟩ := run_bind_eq_ok.mp hrun
  cases hget
  split at hset
  · rename_i scope hscope
    cases hset
    exact .of_kept (.of_set? hv List.not_mem_nil hscope)
  · cases hset

/-- A declaration puts a variable on top. -/
lemma declare_extends (v : Variable) (value : Value) : Moves (Extends A) (declare v value) := by
  intro s a t hrun
  cases hrun
  exact .cons _ s

/-- A pipeline adds its variables on top, or gives other values to innermost variables. -/
lemma binds_extends {p : Pipeline} (h : p.assignees ⊆ A) : f.Binds (Extends A) p := by
  intro value
  refine moves_forM fun v hv => ?_
  rw [PipelineOf.assignees] at h
  split_ifs at h ⊢
  · exact assign_extends (h (List.mem_map_of_mem hv)) v.pos value
  · exact declare_extends v value

lemma binds_extends_of_assignedIn {ps : List Pipeline} (h : assignedIn ps ⊆ A) :
    ∀ p ∈ ps, f.Binds (Extends A) p :=
  fun p hp => binds_extends (assignedIn_subset_iff.mp h p hp)

lemma evalPipeline_extends (p : Pipeline) (h : p.assigned ⊆ A) :
    Moves (Extends A) (f.evalPipeline p) :=
  evalPipeline_moves p (binds_extends_of_assignedIn h)

/-! ### Loops -/

lemma evalItems_extends (pos : Position) (p : Pipeline) (h : p.assigned ⊆ A) :
    Moves (Extends A) (f.evalItems pos p) := by
  have hcommands := (List.forall_mem_append.mp (binds_extends_of_assignedIn (f := f) h)).1
  refine moves_bind (evalCommands_moves none p.commands hcommands) fun value => ?_
  split
  · exact moves_throw _
  · exact moves_pure _

lemma bindItem_extends (pos : Position) (index value : Value) {declared : List Variable}
    (h : declared.map (·.name) ⊆ A) :
    Moves (Extends A) (f.bindItem pos index value declared) := by
  match declared with
  | []          => exact moves_pure _
  | [v]         => exact assign_extends (h List.mem_cons_self) pos value
  | v :: w :: _ =>
    exact moves_bind (assign_extends (h List.mem_cons_self) pos index) fun _ =>
      assign_extends (h (List.mem_cons_of_mem _ List.mem_cons_self)) pos value

/-- The variables that a loop declares are put on top. -/
lemma exists_run_declareItems (pipe : Pipeline) (s : Scope) :
    ∃ added : Scope, added.names = newNames pipe.assigns pipe.declared ∧
      (declareItems pipe).run s = .ok ((), added ++ s) := by
  have hdeclare : ∀ (declared : List Variable) (s : Scope),
      (declared.forM fun v => declare v .null).run s =
        .ok ((), (declared.map fun v => (v.name, Value.null)).reverse ++ s) := by
    intro declared
    induction declared with
    | nil => intro s; rfl
    | cons v declared ih =>
      intro s
      rw [List.map_cons, List.reverse_cons, List.append_assoc]
      exact ih ((v.name, .null) :: s)
  -- Variables that are assigned are there already.
  rw [newNames, declareItems]
  cases pipe.assigns with
  | true => exact ⟨[], rfl, rfl⟩
  | false => exact ⟨_, by simp [Scope.names, Function.comp_def], hdeclare pipe.declared s⟩

end Frame

namespace Run

open Scope

variable {A : List String} {α β : Type}

lemma Moves.extends {act : Run α} (h : Moves (Kept A []) act) : Moves (Extends A) act :=
  h.mono fun _ _ hkept => .of_kept hkept

/-- What a clause adds is taken off at its end. -/
lemma locally_kept {act : Run α} (h : Moves (Extends A) act) : Moves (Kept A []) (locally act) := by
  intro s w a t w' hrun
  obtain ⟨u, hact, rfl⟩ := run_locally_eq_ok hrun
  exact (h s w a u w' hact).outermost

/-- The variables that a loop declares are those that it binds, and hide others of their names. -/
lemma declareItems_extends {p : Pipeline} {k : Unit → Run β}
    (hk : Moves (Extends (p.declared.map (·.name) ++ A)) (k ())) (hassigned : p.assignees ⊆ A) :
    Moves (Extends A) (ofEval (Frame.declareItems p) >>= k) := by
  intro s w b u w' hrun
  obtain ⟨added, hadded, hdeclare⟩ := Frame.exists_run_declareItems p s
  rw [run_bind, run_ofEval, hdeclare] at hrun
  refine (hk _ w b u w' hrun).of_append fun x hx => ?_
  rw [hadded, newNames]
  rw [PipelineOf.assignees] at hassigned
  rcases List.mem_append.mp hx with hx | hx
  · split_ifs at hassigned ⊢
    · exact .inr (hassigned hx)
    · exact .inl (List.mem_reverse.mpr hx)
  · exact .inr hx

end Run

/-! ### Statements -/

namespace Stage

open Run Scope

variable {A : List String}

/-- A call changes no variables but those that its argument assigns. -/
lemma callTemplate_kept (s : Stage) (pos : Position) (name : String) {argument : Option Pipeline}
    (h : ∀ p ∈ argument, p.assigned ⊆ A) :
    Moves (Kept A []) (s.callTemplate pos name argument) := by
  unfold callTemplate
  dsimp only
  split
  · exact moves_throw _
  · split
    · exact moves_throw _
    · cases argument with
      | none => exact moves_bind (moves_pure _) fun dot => moves_lift _
      | some p =>
        refine moves_bind (locally_kept (moves_ofEval ?_)) fun dot => moves_lift _
        exact Frame.evalPipeline_extends p (h p rfl)

lemma runCall_kept (s : Stage) (pos : Position) (name : String) {argument : Option Pipeline}
    (h : ∀ p ∈ argument, p.assigned ⊆ A) :
    Moves (Kept A []) (s.runNode (.call pos name argument)) := by
  rw [runNode]
  exact moves_bind (s.callTemplate_kept pos name h) fun _ => moves_pure _

/-- A loop, whose variables are bound and whose body puts something on top in every round. -/
lemma runRange_kept (s : Stage) {pos : Position} {p : Pipeline} {body : Block}
    {otherwise : Option Block} (hp : p.assigned ⊆ A)
    (hbody : ∀ dot, Moves (Extends A) ((s.withDot dot).runNodes body.nodes))
    (helse : Moves (Extends A) (s.runElse otherwise)) :
    Moves (Kept A []) (s.runNode (.branch .range pos p body otherwise)) := by
  -- A round also gives values to the variables of the loop. Where the loop declares them, they lie
  -- above the ones that it has found, so that this does not count in the end.
  have hround : ∀ index value, Moves (Extends (p.declared.map (·.name) ++ A)) (do
      ofEval (s.toFrame.bindItem pos index value p.declared)
      locally ((s.withDot value).runNodes body.nodes)) := by
    intro index value
    refine moves_bind (moves_ofEval ?_) fun _ => (locally_kept ?_).extends
    · exact Frame.bindItem_extends pos index value (List.subset_append_left _ _)
    · exact (hbody value).mono fun _ _ h => h.mono fun _ => List.mem_append_right _
  have hassignees : p.assignees ⊆ A :=
    assignedIn_subset_iff.mp hp p (List.mem_append_right _ List.mem_cons_self)
  rw [runNode_range]
  refine locally_kept (moves_bind (moves_ofEval ?_) fun items => ?_)
  · exact Frame.evalItems_extends pos p hp
  · split
    · exact moves_bind helse fun _ => moves_pure _
    · refine declareItems_extends ?_ hassignees
      exact moves_bind (moves_forPairs hround _) fun _ => moves_pure _

/-- Behind a branch its variables are gone, and those before it have their places. -/
lemma runBranch_kept (s : Stage) {kind : Control} {pos : Position} {p : Pipeline} {body : Block}
    {otherwise : Option Block} (hp : p.assigned ⊆ A)
    (hbody : ∀ dot, Moves (Extends A) ((s.withDot dot).runNodes body.nodes))
    (helse : Moves (Extends A) (s.runElse otherwise)) :
    Moves (Kept A []) (s.runNode (.branch kind pos p body otherwise)) := by
  have hvalue := moves_ofEval (Frame.evalPipeline_extends (f := s.toFrame) p hp)
  cases kind with
  | cond =>
    rw [runNode]
    refine locally_kept (moves_bind hvalue fun value => ?_)
    split
    · exact hbody s.dot
    · exact helse
  | withValue =>
    rw [runNode]
    refine locally_kept (moves_bind hvalue fun value => ?_)
    split
    · exact hbody value
    · exact helse
  | range => exact s.runRange_kept hp hbody helse

mutual

/-- A statement changes only variables that it assigns, and declares others on top. -/
lemma runNode_extends (s : Stage) (n : Node) (h : n.assigned ⊆ A) :
    Moves (Extends A) (s.runNode n) := by
  match n with
  | .text _ _ =>
    rw [runNode]
    exact moves_bind (moves_emit _) fun _ => moves_pure _
  | .comment _ _ | .breakLoop _ | .continueLoop _ =>
    rw [runNode]
    exact moves_pure _
  | .action _ p =>
    rw [runNode]
    refine moves_bind (moves_ofEval (Frame.evalPipeline_extends p h)) fun value => ?_
    split
    · exact moves_bind (moves_emit _) fun _ => moves_pure _
    · exact moves_pure _
  | .branch kind pos p ⟨at₁, body⟩ otherwise =>
    obtain ⟨hp, hrest⟩ := List.append_subset.mp h
    obtain ⟨hbody, helse⟩ := List.append_subset.mp hrest
    exact (s.runBranch_kept hp (fun dot => runNodes_extends (s.withDot dot) body hbody)
      (runElse_extends s otherwise helse)).extends
  | .call pos name none => exact (s.runCall_kept pos name (by simp)).extends
  | .call pos name (some p) =>
    refine (s.runCall_kept pos name ?_).extends
    rintro _ ⟨⟩
    exact h

lemma runNodes_extends (s : Stage) (ns : List Node) (h : nodesAssigned ns ⊆ A) :
    Moves (Extends A) (s.runNodes ns) := by
  match ns with
  | [] =>
    rw [runNodes]
    exact moves_pure _
  | n :: ns =>
    obtain ⟨hn, hns⟩ := List.append_subset.mp h
    rw [runNodes]
    refine moves_bind (runNode_extends s n hn) fun flow => ?_
    cases flow with
    | normal => exact runNodes_extends s ns hns
    | breakLoop | continueLoop => exact moves_pure _

lemma runElse_extends (s : Stage) (otherwise : Option (BlockOf Node))
    (h : elseAssigned otherwise ⊆ A) : Moves (Extends A) (s.runElse otherwise) := by
  match otherwise with
  | none =>
    rw [runElse]
    exact moves_pure _
  | some ⟨_, ns⟩ =>
    rw [runElse]
    exact runNodes_extends s ns h

end

end Stage

/-! ### Calls -/

namespace Run

/-- The data that a call hands over is evaluated in a clause of its own. -/
lemma run_argument {α : Type} {f : Frame} {argument : Option Pipeline} {k : Value → Run α}
    {s : Scope} {w w' : Sink} {r : α × Scope}
    (h : ((match argument with
      | some p => do k (← locally (ofEval (f.evalPipeline p)))
      | none   => do k (← pure .null) : Run α).run s).run.run w = (.ok r, w')) :
    ∃ value s', (f.evalArgument argument).run s = .ok (value, s') ∧
      ((k value).run (s'.outermost s.length)).run.run w = (.ok r, w') := by
  cases argument with
  | none =>
    have hall : s.outermost s.length = s := by simp [Scope.outermost]
    exact ⟨.null, s, rfl, by rwa [hall]⟩
  | some p =>
    obtain ⟨value, t, v, hvalue, hnext⟩ := run_bind_eq_ok.mp h
    obtain ⟨u, hrun, rfl⟩ := run_locally_eq_ok hvalue
    rw [run_ofEval, Prod.mk.injEq] at hrun
    obtain ⟨hrun, rfl⟩ := hrun
    exact ⟨value, u, hrun, hnext⟩

end Run

namespace Environment

/-- What a call comes to that has not failed: its argument is evaluated, what that has added is
taken off again, and the statements of the template are run from the one variable of its data. -/
def CallRun (env : Environment) (f : Frame) (depth : Nat) (name : String)
    (argument : Option Pipeline) (vars vars' : Scope) (w w' : Sink) : Prop :=
  ∃ d tree value vars₁ flow vars₂, depth = d + 1 ∧ env.trees.get? name = some tree ∧
    (f.evalArgument argument).run vars = .ok (value, vars₁) ∧
      vars' = vars₁.outermost vars.length ∧
      ((Stage.runNodes ⟨⟨env, tree.name, value⟩, env.enterAt d⟩ tree.root.nodes).run
        [("$", value)]).run.run w = (.ok (flow, vars₂), w')

variable {env : Environment} {template : String} {dot : Value}

/-- A template that has been run has run its statements from the one variable of its data. -/
lemma exists_run_of_runTree {d : Nat} {tree : Tree} {value : Value} {w w' : Sink}
    (h : (env.runTree d tree value).run.run w = (.ok (), w')) :
    ∃ flow vars, ((Stage.runNodes ⟨⟨env, tree.name, value⟩, env.enterAt d⟩ tree.root.nodes).run
      [("$", value)]).run.run w = (.ok (flow, vars), w') := by
  rw [runTree_eq, run_enterWith] at h
  rcases hbody : ((Stage.runNodes ⟨⟨env, tree.name, value⟩, env.enterAt d⟩ tree.root.nodes).run
    [("$", value)]).run.run w with ⟨_ | ⟨flow, vars⟩, v⟩
  · rw [hbody] at h
    cases h
  · rw [hbody] at h
    cases h
    exact ⟨flow, vars, rfl⟩

/-- A call that succeeds has run a template with the data as its only variable. -/
lemma callRun_of_run {d : Nat} {pos : Position} {name : String} {argument : Option Pipeline}
    {vars vars' : Scope} {w w' : Sink} {flow : Flow}
    (h : ((Stage.runNode ⟨⟨env, template, dot⟩, env.enterAt d⟩ (.call pos name argument)).run
      vars).run.run w = (.ok (flow, vars'), w')) :
    env.CallRun ⟨env, template, dot⟩ d name argument vars vars' w w' := by
  rw [Stage.runNode] at h
  obtain ⟨_, t, v, hcall, hpure⟩ := Run.run_bind_eq_ok.mp h
  cases hpure
  unfold Stage.callTemplate at hcall
  dsimp only at hcall
  split at hcall
  · cases hcall
  · rename_i tree htree
    split at hcall
    · cases hcall
    · rename_i enter henter
      obtain ⟨value, vars₁, hvalue, hbody⟩ := Run.run_argument hcall
      obtain ⟨rfl, htemplate⟩ := Run.run_lift_eq_ok hbody
      cases d with
      | zero => cases henter
      | succ d =>
        cases henter
        obtain ⟨flow₁, vars₂, hrun⟩ := exists_run_of_runTree htemplate
        exact ⟨d, tree, value, vars₁, flow₁, vars₂, rfl, htree, hvalue, rfl, hrun⟩

/-- The discipline of variables. Whatever is evaluated or run without failing leaves the variables
that it finds where they are, and gives other values only to the innermost variables of the names
that it assigns. Behind a branch and a call there are no others, however they are left; a call
assigns in its argument only, and its template is run from the one variable of its data. -/
theorem stack_discipline (env : Environment) (template : String) (dot : Value) (depth : Nat) :
    let f : Frame := ⟨env, template, dot⟩
    let s : Stage := ⟨f, env.enterAt depth⟩
    (∀ A vars vars', (Scope.Extends A vars vars' → vars.names <:+ vars'.names) ∧
        (Scope.Kept A [] vars vars' → vars'.names = vars.names)) ∧
      (∀ o, Eval.Moves (Scope.Extends (assignedIn o.within)) (f.evalOperand o)) ∧
      (∀ c last, Eval.Moves (Scope.Extends (assignedIn (operandsWithin c.operands)))
        (f.evalCommand c last c.operands)) ∧
      (∀ before cs, Eval.Moves (Scope.Extends (assignedIn (commandsWithin cs)))
        (f.evalCommands before cs)) ∧
      (∀ p, Eval.Moves (Scope.Extends p.assigned) (f.evalPipeline p)) ∧
      (∀ n, Run.Moves (Scope.Extends n.assigned) (s.runNode n)) ∧
      (∀ ns, Run.Moves (Scope.Extends (nodesAssigned ns)) (s.runNodes ns)) ∧
      (∀ kind pos p body otherwise,
        let n : Node := .branch kind pos p body otherwise
        Run.Moves (Scope.Kept n.assigned []) (s.runNode n)) ∧
      ∀ pos name argument,
        let n : Node := .call pos name argument
        Run.Moves (Scope.Kept (argument.elim [] (·.assigned)) []) (s.runNode n) ∧
          ∀ vars w flow vars' w', ((s.runNode n).run vars).run.run w = (.ok (flow, vars'), w') →
            env.CallRun f depth name argument vars vars' w w' := by
  intro f s
  have hbinds : ∀ ps, ∀ p ∈ ps, f.Binds (Scope.Extends (assignedIn ps)) p :=
    fun ps => Frame.binds_extends_of_assignedIn (List.Subset.refl _)
  refine ⟨fun A vars vars' => ⟨fun h => h.names_suffix, fun h => h.names_eq⟩,
    fun o => Frame.evalOperand_moves o (hbinds _),
    fun c last => Frame.evalCommand_moves c last c.operands (hbinds _),
    fun before cs => Frame.evalCommands_moves before cs (hbinds _),
    fun p => Frame.evalPipeline_moves p (hbinds _),
    fun n => s.runNode_extends n (List.Subset.refl _),
    fun ns => s.runNodes_extends ns (List.Subset.refl _), ?_, ?_⟩
  · intro kind pos p body otherwise n
    obtain ⟨hp, hrest⟩ := List.append_subset.mp (List.Subset.refl n.assigned)
    obtain ⟨hbody, helse⟩ := List.append_subset.mp hrest
    exact s.runBranch_kept hp (fun dot => (s.withDot dot).runNodes_extends body.nodes hbody)
      (s.runElse_extends otherwise helse)
  · intro pos name argument n
    refine ⟨s.runCall_kept pos name ?_, fun vars w flow vars' w' h => callRun_of_run h⟩
    rintro p ⟨⟩
    exact List.Subset.refl _

/-- A call whose argument assigns a variable and adds another one, from a stack in which the name of
the assigned variable occurs twice. -/
theorem stack_discipline_of_call :
    let at₀ : Position := ⟨0, 1⟩
    let number (n : Int64) : Operand := .number ⟨at₀, "1", some n, none⟩
    let assignment : Pipeline := ⟨at₀, true, [⟨at₀, "$x", []⟩], [⟨at₀, [number 7]⟩]⟩
    let argument : Pipeline :=
      ⟨at₀, false, [⟨at₀, "$y", []⟩], [⟨at₀, [.pipeline assignment]⟩]⟩
    let body : Tree := ⟨"t", ⟨at₀, [.action at₀ ⟨at₀, false, [⟨at₀, "$x", []⟩],
      [⟨at₀, [.var ⟨at₀, "$", []⟩]⟩]⟩]⟩⟩
    let env : Environment := ⟨.ofList [("t", body)], .empty, Literal.postgres, .default⟩
    let call : Node := .call at₀ "t" (some argument)
    let vars : Scope := [("$x", .int 2), ("$x", .int 1), ("$", .null)]
    let vars' : Scope := [("$x", .int 7), ("$x", .int 1), ("$", .null)]
    ((Stage.runNode ⟨⟨env, "q", .null⟩, env.enterAt 1⟩ call).run vars).run.run (.ofRoom none) =
        (.ok (.normal, vars'), .ofRoom none) ∧
      call.assigned = ["$x"] ∧ Scope.Kept ["$x"] [] vars vars' ∧
      env.CallRun ⟨env, "q", .null⟩ 1 "t" (some argument) vars vars' (.ofRoom none)
        (.ofRoom none) := by
  intro at₀ number assignment argument body env call vars vars'
  have hrun : ((Stage.runNode ⟨⟨env, "q", .null⟩, env.enterAt 1⟩ call).run vars).run.run
      (.ofRoom none) = (.ok (.normal, vars'), .ofRoom none) := rfl
  obtain ⟨-, -, -, -, -, -, -, -, hcall⟩ := stack_discipline env "q" .null 1
  obtain ⟨hrestores, hbody⟩ := hcall at₀ "t" (some argument)
  exact ⟨hrun, rfl, hrestores _ _ _ _ _ hrun, hbody _ _ _ _ _ hrun⟩

end Environment

end SafeQuery
