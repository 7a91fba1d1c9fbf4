import Mathlib.Tactic.Lemma
import SafeQuery.Tree.Hook

/-!
# Walks

The nodes of a tree at every depth, each one before the nodes inside it. What holds of all nodes of
a tree is said by membership in its walk; `walkAll_hookAll` says that the calls of the encoder
change the nodes of a walk one by one, and `Tree.IsGuarded` that no action of the tree writes a
value without such a call.
-/

namespace SafeQuery

mutual

/-- The nodes inside a node. -/
def Node.inside : Node → List Node
  | .branch _ _ _ ⟨_, body⟩ none                => walkAll body
  | .branch _ _ _ ⟨_, body⟩ (some ⟨_, otherwise⟩) => walkAll body ++ walkAll otherwise
  | _                                           => []

def walkAll : List Node → List Node
  | []      => []
  | n :: ns => n :: (n.inside ++ walkAll ns)

end

/-- The nodes of a tree, each before the nodes inside it. -/
def Tree.walk (t : Tree) : List Node := walkAll t.root.nodes

/-- The text stands in the tree. -/
def Tree.HasText (t : Tree) (s : String) : Prop := ∃ pos, .text pos s ∈ t.walk

@[simp] lemma walkAll_nil : walkAll [] = [] := by simp [walkAll]

@[simp] lemma walkAll_cons (n : Node) (ns : List Node) :
    walkAll (n :: ns) = n :: (n.inside ++ walkAll ns) := by rw [walkAll]

lemma mem_inside_branch {m : Node} {kind : Control} {pos : Position} {pipe : Pipeline}
    {body : Block} {otherwise : Option Block} :
    m ∈ (Node.branch kind pos pipe body otherwise).inside ↔
      m ∈ walkAll body.nodes ∨ ∃ b, otherwise = some b ∧ m ∈ walkAll b.nodes := by
  cases otherwise with
  | none => simp [Node.inside]
  | some b => simp [Node.inside]

mutual

lemma inside_withHooks (n : Node) : n.withHooks.inside = n.inside.map Node.withHooks := by
  match n with
  | .branch kind pos pipe ⟨at₁, body⟩ none =>
    simp only [Node.withHooks, Node.inside, walkAll_hookAll body]
  | .branch kind pos pipe ⟨at₁, body⟩ (some ⟨at₂, otherwise⟩) =>
    simp only [Node.withHooks, Node.inside, List.map_append, walkAll_hookAll body,
      walkAll_hookAll otherwise]
  | .text _ _ | .comment _ _ | .action _ _ | .call _ _ _ | .breakLoop _ | .continueLoop _ =>
    simp [Node.withHooks, Node.inside]

/-- The calls of the encoder are put into the nodes of a walk one by one. -/
theorem walkAll_hookAll (ns : List Node) :
    walkAll (hookAll ns) = (walkAll ns).map Node.withHooks := by
  match ns with
  | []      => simp [hookAll]
  | n :: ns =>
    simp only [hookAll, walkAll_cons, List.map_cons, List.map_append, inside_withHooks n,
      walkAll_hookAll ns]

end

lemma Tree.walk_withHooks (t : Tree) : t.withHooks.walk = t.walk.map Node.withHooks :=
  walkAll_hookAll t.root.nodes

lemma Node.withHooks_eq_action {n : Node} {pos : Position} {p : Pipeline}
    (h : n.withHooks = .action pos p) : ∃ q, n = .action pos q ∧ p = q.withHook := by
  unfold Node.withHooks at h
  split at h
  case h_1 pos' q =>
    cases h
    exact ⟨q, rfl, rfl⟩
  case h_4 hne _ _ => exact absurd h (hne pos p)
  all_goals contradiction

lemma Node.isBlank_withHooks (n : Node) : n.withHooks.isBlank = n.isBlank := by
  cases n with
  | action pos pipe => simp only [withHooks, isBlank]
  | branch kind pos pipe body otherwise => cases otherwise <;> simp only [withHooks, isBlank]
  | text _ _ | comment _ _ | call _ _ _ | breakLoop _ | continueLoop _ => simp only [withHooks]

/-- A tree has content with the calls of the encoder if it has content without them. -/
lemma Tree.isEmpty_withHooks (t : Tree) : t.withHooks.isEmpty = t.isEmpty := by
  have hall : ∀ ns : List Node, (hookAll ns).all Node.isBlank = ns.all Node.isBlank := by
    intro ns
    induction ns with
    | nil => rw [hookAll]
    | cons n ns ih => rw [hookAll, List.all_cons, List.all_cons, Node.isBlank_withHooks, ih]
  exact hall t.root.nodes

/-- The pipeline declares variables, or its last command calls the encoder. -/
def PipelineOf.IsGuarded (p : Pipeline) : Prop :=
  p.declared = [] → ∃ cs c, p.commands = cs ++ [c] ∧ c.isBare hookName = true

/-- The pipeline declares variables, or it has a command whose value it can write. -/
def PipelineOf.IsComplete (p : Pipeline) : Prop := p.declared = [] → p.commands ≠ []

/-- No action of the tree writes a value that has not passed the encoder. -/
def Tree.IsGuarded (t : Tree) : Prop := ∀ pos p, .action pos p ∈ t.walk → p.IsGuarded

/-- Every action of the tree has a value. -/
def Tree.IsComplete (t : Tree) : Prop := ∀ pos p, .action pos p ∈ t.walk → p.IsComplete

lemma PipelineOf.IsGuarded.isComplete {p : Pipeline} (h : p.IsGuarded) : p.IsComplete := by
  intro hd
  obtain ⟨cs, c, hc, _⟩ := h hd
  simp [hc]

lemma Tree.IsGuarded.isComplete {t : Tree} (h : t.IsGuarded) : t.IsComplete :=
  fun pos p hp => (h pos p hp).isComplete

/-- With the missing call a pipeline that has commands is guarded. -/
lemma PipelineOf.IsComplete.withHook {p : Pipeline} (h : p.IsComplete) : p.withHook.IsGuarded := by
  obtain ⟨pos, assigns, declared, commands⟩ := p
  cases declared with
  | cons v vs => simp [PipelineOf.IsGuarded, PipelineOf.withHook]
  | nil =>
    have hne : commands ≠ [] := h rfl
    obtain ⟨cs, last, rfl⟩ := List.eq_nil_or_concat commands |>.resolve_left hne
    intro _
    by_cases hb : last.isBare hookName = true
    · exact ⟨cs, last, by simp [PipelineOf.withHook, hb], hb⟩
    · exact ⟨cs ++ [last], hookAt last.pos, by simp [PipelineOf.withHook, hb], hookAt_isBare _⟩

/-- With the missing calls a tree whose actions have values is guarded. -/
theorem Tree.IsComplete.withHooks {t : Tree} (h : t.IsComplete) : t.withHooks.IsGuarded := by
  intro pos p hp
  rw [Tree.walk_withHooks, List.mem_map] at hp
  obtain ⟨n, hn, heq⟩ := hp
  obtain ⟨q, rfl, rfl⟩ := Node.withHooks_eq_action heq
  exact (h pos q hn).withHook

end SafeQuery
