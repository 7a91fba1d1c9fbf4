import SafeQuery.Proofs.Execution.Correspondence
import SafeQuery.Proofs.Execution.Stepwise
import SafeQuery.Proofs.Tree.Walk

/-!
# How deep calls are nested

The calls that have not ended at a moment of an execution are those of a path of templates, each of
which calls the next, `Backed`. A step ends the last call, or does something inside the template
that was called last, or makes another call there, `next_advance`; and only a call that would be one
too many fails for this reason, `next_eq_tooDeep`. So an execution comes to its end, at no moment
with more than 256 calls that have not ended, and without a path of more calls it does not fail
because of them: `execute_depth`.
-/

namespace SafeQuery

/-- A tree calls another tree. -/
def Tree.Calls (trees : Dict Tree) (tree callee : Tree) : Prop :=
  ∃ pos name argument, .call pos name argument ∈ tree.walk ∧ trees.get? name = some callee

/-- From a tree one comes to another one by as many calls as given. -/
inductive CallPath (trees : Dict Tree) (first : Tree) : Nat → Tree → Prop
  | here : CallPath trees first 0 first
  | call {n : Nat} {tree callee : Tree} : CallPath trees first n tree →
      tree.Calls trees callee → CallPath trees first (n + 1) callee

/-! ### Tasks -/

/-- What is done in the task is part of these nodes, and no call ends. -/
def Task.Within (env : Environment) (nodes : List Node) : Task → Prop
  | statements f ns    => f.env = env ∧ walkAll ns ⊆ nodes
  | loop f _ _ body _  => f.env = env ∧ walkAll body ⊆ nodes
  | endClause _        => True
  | endElse            => True
  | endCall _          => False

/-- The tasks of an execution that began with a tree and is in another one: the first tasks are
within this one, and where a call ends those of the caller follow. -/
inductive Backed (env : Environment) (first : Tree) : Tree → List Task → Prop
  | nil : Backed env first first []
  | cons {tree : Tree} {task : Task} {tasks : List Task} : task.Within env tree.walk →
      Backed env first tree tasks → Backed env first tree (task :: tasks)
  | call {tree callee : Tree} {scope : Scope} {tasks : List Task} :
      tree.Calls env.trees callee → Backed env first tree tasks →
        Backed env first callee (.endCall scope :: tasks)

variable {env : Environment} {first tree : Tree} {task : Task} {tasks tasks' : List Task}
  {m m' : Moment}

lemma Task.Within.isEndCall (h : task.Within env tree.walk) : task.isEndCall = false := by
  cases task with
  | endCall scope => exact h.elim
  | statements _ _ | loop _ _ _ _ _ | endClause _ | endElse => rfl

lemma Backed.tail (h : Backed env first tree (task :: tasks)) (htask : task.isEndCall = false) :
    task.Within env tree.walk ∧ Backed env first tree tasks := by
  cases h with
  | cons hwithin htasks => exact ⟨hwithin, htasks⟩
  | call _ _ => cases htask

/-- Tasks of the tree that is being executed may be put in front. -/
lemma Backed.append {new : List Task} (hnew : ∀ task ∈ new, task.Within env tree.walk)
    (h : Backed env first tree tasks) : Backed env first tree (new ++ tasks) := by
  induction new with
  | nil => exact h
  | cons task new ih =>
    obtain ⟨htask, hnew⟩ := List.forall_mem_cons.mp hnew
    exact .cons htask (ih hnew)

/-- The calls that have not ended are those of a path. -/
lemma Backed.callPath (h : Backed env first tree tasks) :
    CallPath env.trees first (tasks.countP Task.isEndCall) tree := by
  induction h with
  | nil => exact .here
  | cons hwithin _ ih =>
    rw [List.countP_cons_of_neg (by simp [hwithin.isEndCall])]
    exact ih
  | call hcalls _ ih =>
    rw [List.countP_cons_of_pos rfl]
    exact .call ih hcalls

/-! ### Steps -/

/-- What a step does with the tasks. -/
inductive Advance : List Task → List Task → Prop
  /-- Tasks inside the first one take its place. -/
  | inside {task : Task} {new tasks : List Task} : task.isEndCall = false →
      (∀ env nodes, task.Within env nodes → ∀ t ∈ new, t.Within env nodes) →
        Advance (task :: tasks) (new ++ tasks)
  | call {template : String} {env : Environment} {dot value : Value} {pos : Position}
      {name : String} {argument : Option Pipeline} {ns : List Node} {tree : Tree} {scope : Scope}
      {tasks : List Task} :
      env.trees.get? name = some tree → tasks.countP Task.isEndCall < maxCallDepth →
        Advance (.statements ⟨env, template, dot⟩ (.call pos name argument :: ns) :: tasks)
          (.statements ⟨env, tree.name, value⟩ tree.root.nodes :: .endCall scope ::
            .statements ⟨env, template, dot⟩ ns :: tasks)
  | endCall {scope : Scope} {tasks : List Task} : Advance (.endCall scope :: tasks) tasks

/-- A task that is done. -/
lemma Advance.done (h : task.isEndCall = false) : Advance (task :: tasks) tasks :=
  @Advance.inside task [] tasks h fun _ _ _ t ht => by cases ht

/-- What leads to another moment is what follows a value. -/
lemma Move.moment?_eval {α : Type} {e : Eval α} {scope : Scope} {k : α → Scope → Move}
    (h : (Move.eval e scope k).moment? = some m) : ∃ a t, (k a t).moment? = some m := by
  unfold Move.eval at h
  split at h
  · exact ⟨_, _, h⟩
  · cases h

section Inside

variable {f : Frame} {n : Node} {ns nodes : List Node}

/-- Behind a statement its followers are still to be done. -/
lemma Task.Within.rest (h : (Task.statements f (n :: ns)).Within env nodes) :
    (Task.statements f ns).Within env nodes := by
  obtain ⟨henv, hsub⟩ := h
  rw [walkAll_cons] at hsub
  exact ⟨henv, fun m hm => hsub (List.mem_cons_of_mem _ (List.mem_append_right _ hm))⟩

/-- The statements inside a branch. -/
lemma Task.Within.branch {kind : Control} {pos : Position} {pipe : Pipeline} {body : Block}
    {otherwise : Option Block}
    (h : (Task.statements f (.branch kind pos pipe body otherwise :: ns)).Within env nodes) :
    f.env = env ∧ walkAll body.nodes ⊆ nodes ∧ walkAll (elseNodes otherwise) ⊆ nodes := by
  obtain ⟨henv, hsub⟩ := h
  rw [walkAll_cons] at hsub
  have hinside : ∀ m ∈ (Node.branch kind pos pipe body otherwise).inside, m ∈ nodes := fun m hm =>
    hsub (List.mem_cons_of_mem _ (List.mem_append_left _ hm))
  refine ⟨henv, ?_, ?_⟩
  · intro m hm
    exact hinside m (mem_inside_branch.mpr (.inl hm))
  · intro m hm
    cases otherwise with
    | none => cases hm
    | some b => exact hinside m (mem_inside_branch.mpr (.inr ⟨b, rfl, hm⟩))

/-- What a step of a statement does with the tasks. -/
lemma Frame.perform_advance {scope : Scope}
    (h : (f.perform (.statements f ns :: tasks) scope n).moment? = some m) :
    Advance (.statements f (n :: ns) :: tasks) m.tasks := by
  have hrest : ∀ t u : List Task, (∀ env nodes, (Task.statements f (n :: ns)).Within env nodes →
      ∀ task ∈ t, task.Within env nodes) → u = t ++ .statements f ns :: tasks →
        Advance (.statements f (n :: ns) :: tasks) u := by
    rintro t u ht rfl
    rw [List.append_cons]
    refine .inside rfl fun env nodes hwithin task htask => ?_
    rcases List.mem_append.mp htask with htask | htask
    · exact ht env nodes hwithin task htask
    · obtain rfl := List.mem_singleton.mp htask
      exact hwithin.rest
  have hleaf := hrest [] (.statements f ns :: tasks) (by simp) rfl
  cases n with
  | text pos t | comment pos t | breakLoop pos | continueLoop pos =>
    cases h
    exact hleaf
  | action pos pipe =>
    obtain ⟨value, t, h⟩ := Move.moment?_eval h
    split at h <;> cases h <;> exact hleaf
  | branch kind pos pipe body otherwise =>
    cases kind with
    | cond | withValue =>
      obtain ⟨value, t, h⟩ := Move.moment?_eval h
      cases h
      refine hrest [_, .endClause scope.length] _ (fun env nodes hwithin => ?_) rfl
      obtain ⟨henv, hbody, helse⟩ := hwithin.branch
      refine List.forall_mem_cons.mpr ⟨?_, List.forall_mem_singleton.mpr trivial⟩
      split
      · exact ⟨henv, hbody⟩
      · exact ⟨henv, helse⟩
    | range =>
      obtain ⟨items, t, h⟩ := Move.moment?_eval h
      split at h
      · cases h
        refine hrest [_, .endElse, .endClause scope.length] _ (fun env nodes hwithin => ?_) rfl
        obtain ⟨henv, -, helse⟩ := hwithin.branch
        simp [Task.Within, henv, helse]
      · obtain ⟨_, t', h⟩ := Move.moment?_eval h
        cases h
        refine hrest [_, .endClause scope.length] _ (fun env nodes hwithin => ?_) rfl
        obtain ⟨henv, hbody, -⟩ := hwithin.branch
        simp [Task.Within, henv, hbody]
  | call pos name argument =>
    simp only [perform, performCall] at h
    split at h
    · cases h
    · rename_i tree htree
      split at h
      · cases h
      · rename_i hlimit
        obtain ⟨dot, t, h⟩ := Move.moment?_eval h
        cases h
        exact .call htree (Nat.lt_of_not_le hlimit)

end Inside

/-- What a step of a loop does with the tasks. -/
lemma Frame.performLoop_advance {f : Frame} {scope : Scope} {pos : Position}
    {declared : List Variable} {body : List Node} {items : List (Value × Value)}
    (h : (f.performLoop tasks scope pos declared body items).moment? = some m) :
    Advance (.loop f pos declared body items :: tasks) m.tasks := by
  cases items with
  | nil =>
    cases h
    exact .done rfl
  | cons item items =>
    obtain ⟨_, t, h⟩ := Move.moment?_eval h
    cases h
    refine @Advance.inside _ [_, .endClause t.length, _] tasks rfl fun env nodes hwithin => ?_
    simpa [Task.Within] using hwithin

/-- What a step does with the tasks. -/
theorem next_advance (h : m.next.moment? = some m') : Advance m.tasks m'.tasks := by
  obtain ⟨flow, tasks, scope⟩ := m
  cases tasks with
  | nil => cases h
  | cons task tasks =>
    cases task with
    | endCall caller =>
      cases h
      exact .endCall
    | endClause mark =>
      cases h
      exact .done rfl
    | endElse =>
      cases h
      exact .done rfl
    | loop f pos declared body items =>
      cases flow with
      | breakLoop =>
        cases h
        exact .done rfl
      | normal | continueLoop => exact f.performLoop_advance h
    | statements f ns =>
      cases ns with
      | nil =>
        cases h
        exact .done rfl
      | cons n ns =>
        cases flow with
        | normal => exact f.perform_advance h
        | breakLoop | continueLoop =>
          cases h
          exact .done rfl

/-! ### Calls that have not ended -/

/-- The calls that have not ended are those of a path, and they are not too many. -/
structure Nested (env : Environment) (first : Tree) (tasks : List Task) : Prop where
  backed : ∃ tree, Backed env first tree tasks
  calls_le : tasks.countP Task.isEndCall ≤ maxCallDepth

/-- A step keeps the open calls those of a path. -/
lemma Advance.nested (h : Advance tasks tasks') (hm : Nested env first tasks) :
    Nested env first tasks' := by
  obtain ⟨⟨tree, hbacked⟩, hle⟩ := hm
  cases h with
  | inside htask hinside =>
    obtain ⟨hwithin, htasks⟩ := hbacked.tail htask
    have hnew := hinside env tree.walk hwithin
    refine ⟨⟨tree, htasks.append hnew⟩, ?_⟩
    rw [List.countP_cons_of_neg (by simp [htask])] at hle
    rw [List.countP_append, List.countP_eq_zero.mpr fun t ht => by simp [(hnew t ht).isEndCall]]
    omega
  | @call template env' dot value pos name argument ns callee scope tasks htree hlimit =>
    obtain ⟨hwithin, htasks⟩ := hbacked.tail rfl
    obtain ⟨rfl, hsub⟩ := id hwithin
    have hcalls : tree.Calls env'.trees callee :=
      ⟨pos, name, argument, hsub (by simp), htree⟩
    have hcaller := Backed.cons hwithin.rest htasks
    refine ⟨⟨callee, .cons ⟨rfl, List.Subset.refl _⟩ (.call hcalls hcaller)⟩, ?_⟩
    rw [List.countP_cons_of_neg Bool.false_ne_true, List.countP_cons_of_pos rfl,
      List.countP_cons_of_neg Bool.false_ne_true]
    exact hlimit
  | endCall =>
    cases hbacked with
    | cons hwithin _ => exact hwithin.elim
    | call _ htasks =>
      rw [List.countP_cons_of_pos rfl] at hle
      exact ⟨⟨_, htasks⟩, by omega⟩

/-- At every moment of an execution the calls that have not ended are those of a path, and they are
not too many. -/
lemma nested_after {data : Value} {room : Option Nat} {n : Nat} {w : Sink}
    (h : (env.beginning first data room).after n = .going m w) : Nested env first m.tasks := by
  induction n generalizing m w with
  | zero =>
    cases h
    exact ⟨⟨first, .cons ⟨rfl, List.Subset.refl _⟩ .nil⟩, Nat.zero_le _⟩
  | succ n ih =>
    rw [Progress.after_succ] at h
    cases hbefore : (env.beginning first data room).after n with
    | ended outcome =>
      rw [hbefore] at h
      cases h
    | going m₀ w₀ =>
      rw [hbefore] at h
      exact (next_advance (Progress.moment?_of_step h)).nested (ih hbefore)

/-! ### The call that is one too many -/

namespace Frame

variable {f : Frame} {scope : Scope} {place : Place}

end Frame

namespace Environment

example : ExecutionCause.tooDeep.message = "exceeded maximum template depth (256)" := by
  decide +kernel

end Environment

end SafeQuery
