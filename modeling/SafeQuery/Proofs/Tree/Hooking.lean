import Mathlib.Tactic.ByContra
import SafeQuery.Proofs.Tree.Walk

/-!
# What the calls of the encoder change

The nodes of a tree are numbered in the order of its walk, and the pipelines of its actions can be
changed number by number, `Tree.mapActions`, where everything else in the tree stays as it is. The
calls of the encoder are such a change: `withHooks_eq_mapActions` says which pipelines get one, and
`unhooked_withHooks` that the tree comes back when these calls are taken away.
-/

namespace SafeQuery

mutual

/-- Change the pipelines of the actions in a node that has the given number. -/
def Node.mapActions (g : Nat → Pipeline → Pipeline) (k : Nat) : Node → Node
  | .action pos p => .action pos (g k p)
  | .branch kind pos p ⟨at₁, body⟩ none =>
    .branch kind pos p ⟨at₁, mapAllActions g (k + 1) body⟩ none
  | .branch kind pos p ⟨at₁, body⟩ (some ⟨at₂, otherwise⟩) =>
    .branch kind pos p ⟨at₁, mapAllActions g (k + 1) body⟩
      (some ⟨at₂, mapAllActions g (k + 1 + (walkAll body).length) otherwise⟩)
  | node => node

/-- Change the pipelines of the actions in nodes, of which the first one has the given number. -/
def mapAllActions (g : Nat → Pipeline → Pipeline) (k : Nat) : List Node → List Node
  | []      => []
  | n :: ns => n.mapActions g k :: mapAllActions g (k + 1 + n.inside.length) ns

end

def Tree.mapActions (g : Nat → Pipeline → Pipeline) (t : Tree) : Tree :=
  { t with root := { t.root with nodes := mapAllActions g 0 t.root.nodes } }

section Laws

variable (g h : Nat → Pipeline → Pipeline)

mutual

/-- The number of nodes stays the same. -/
lemma Node.length_inside_mapActions (k : Nat) (n : Node) :
    (n.mapActions g k).inside.length = n.inside.length := by
  match n with
  | .branch kind pos p ⟨at₁, body⟩ none =>
    simp only [Node.mapActions, Node.inside, length_walkAll_mapAllActions _ body]
  | .branch kind pos p ⟨at₁, body⟩ (some ⟨at₂, otherwise⟩) =>
    simp only [Node.mapActions, Node.inside, List.length_append,
      length_walkAll_mapAllActions _ body, length_walkAll_mapAllActions _ otherwise]
  | .text _ _ | .comment _ _ | .action _ _ | .call _ _ _ | .breakLoop _ | .continueLoop _ =>
    simp only [Node.mapActions, Node.inside]

lemma length_walkAll_mapAllActions (k : Nat) (ns : List Node) :
    (walkAll (mapAllActions g k ns)).length = (walkAll ns).length := by
  match ns with
  | []      => rw [mapAllActions]
  | n :: ns =>
    simp only [mapAllActions, walkAll_cons, List.length_cons, List.length_append,
      Node.length_inside_mapActions k n, length_walkAll_mapAllActions _ ns]

end

mutual

/-- Two changes one after the other are one change. -/
lemma Node.mapActions_mapActions (k : Nat) (n : Node) :
    (n.mapActions g k).mapActions h k = n.mapActions (fun i p => h i (g i p)) k := by
  match n with
  | .branch kind pos p ⟨at₁, body⟩ none =>
    simp only [Node.mapActions, mapAllActions_mapAllActions _ body]
  | .branch kind pos p ⟨at₁, body⟩ (some ⟨at₂, otherwise⟩) =>
    simp only [Node.mapActions, length_walkAll_mapAllActions, mapAllActions_mapAllActions _ body,
      mapAllActions_mapAllActions _ otherwise]
  | .text _ _ | .comment _ _ | .action _ _ | .call _ _ _ | .breakLoop _ | .continueLoop _ =>
    simp only [Node.mapActions]

lemma mapAllActions_mapAllActions (k : Nat) (ns : List Node) :
    mapAllActions h k (mapAllActions g k ns) = mapAllActions (fun i p => h i (g i p)) k ns := by
  match ns with
  | []      => simp only [mapAllActions]
  | n :: ns =>
    simp only [mapAllActions, Node.length_inside_mapActions, Node.mapActions_mapActions k n,
      mapAllActions_mapAllActions _ ns]

end

lemma Tree.mapActions_mapActions (t : Tree) :
    (t.mapActions g).mapActions h = t.mapActions fun i p => h i (g i p) := by
  simp only [Tree.mapActions, mapAllActions_mapAllActions]

/-- The two changes do the same to the action that has a number in the walk. -/
def SameAt (nodes : List Node) (k : Nat) : Prop :=
  ∀ i pos p, nodes[i]? = some (.action pos p) → g (k + i) p = h (k + i) p

end Laws

section Congruence

variable {g h : Nat → Pipeline → Pipeline} {ms ns : List Node} {k : Nat}

lemma SameAt.left (hsame : SameAt g h (ms ++ ns) k) : SameAt g h ms k := by
  intro i pos p hi
  refine hsame i pos p ?_
  obtain ⟨hlt, -⟩ := List.getElem?_eq_some_iff.mp hi
  rwa [List.getElem?_append_left hlt]

lemma SameAt.right (hsame : SameAt g h (ms ++ ns) k) : SameAt g h ns (k + ms.length) := by
  intro i pos p hi
  have hi' : (ms ++ ns)[ms.length + i]? = some (.action pos p) := by
    rw [List.getElem?_append_right (Nat.le_add_right _ _), Nat.add_sub_cancel_left]
    exact hi
  have := hsame (ms.length + i) pos p hi'
  rwa [← Nat.add_assoc] at this

lemma SameAt.tail {n : Node} (hsame : SameAt g h (n :: ns) k) : SameAt g h ns (k + 1) := by
  rw [← List.singleton_append] at hsame
  exact hsame.right

mutual

/-- Changes that do the same to every action of a node change it alike. -/
lemma Node.mapActions_congr {k : Nat} (n : Node) (hsame : SameAt g h (n :: n.inside) k) :
    n.mapActions g k = n.mapActions h k := by
  match n with
  | .action pos p =>
    have hp : g k p = h k p := hsame 0 pos p rfl
    rw [Node.mapActions, Node.mapActions, hp]
  | .branch kind pos p ⟨at₁, body⟩ none =>
    have hbody : SameAt g h (walkAll body) (k + 1) := by
      simpa only [Node.inside] using hsame.tail
    simp only [Node.mapActions, mapAllActions_congr body hbody]
  | .branch kind pos p ⟨at₁, body⟩ (some ⟨at₂, otherwise⟩) =>
    have hinside : SameAt g h (walkAll body ++ walkAll otherwise) (k + 1) := by
      simpa only [Node.inside] using hsame.tail
    simp only [Node.mapActions, mapAllActions_congr body hinside.left,
      mapAllActions_congr otherwise hinside.right]
  | .text _ _ | .comment _ _ | .call _ _ _ | .breakLoop _ | .continueLoop _ =>
    simp only [Node.mapActions]

lemma mapAllActions_congr {k : Nat} (ns : List Node) (hsame : SameAt g h (walkAll ns) k) :
    mapAllActions g k ns = mapAllActions h k ns := by
  match ns with
  | []      => simp only [mapAllActions]
  | n :: ns =>
    rw [walkAll_cons, ← List.cons_append] at hsame
    have hrest := hsame.right
    rw [List.length_cons, ← Nat.add_assoc, Nat.add_right_comm] at hrest
    rw [mapAllActions, mapAllActions, Node.mapActions_congr n hsame.left,
      mapAllActions_congr ns hrest]

end

end Congruence

mutual

/-- The change that changes nothing. -/
lemma Node.mapActions_id (k : Nat) (n : Node) : n.mapActions (fun _ p => p) k = n := by
  match n with
  | .branch kind pos p ⟨at₁, body⟩ none => simp only [Node.mapActions, mapAllActions_id _ body]
  | .branch kind pos p ⟨at₁, body⟩ (some ⟨at₂, otherwise⟩) =>
    simp only [Node.mapActions, mapAllActions_id _ body, mapAllActions_id _ otherwise]
  | .text _ _ | .comment _ _ | .action _ _ | .call _ _ _ | .breakLoop _ | .continueLoop _ =>
    simp only [Node.mapActions]

lemma mapAllActions_id (k : Nat) (ns : List Node) : mapAllActions (fun _ p => p) k ns = ns := by
  match ns with
  | []      => rw [mapAllActions]
  | n :: ns => rw [mapAllActions, Node.mapActions_id k n, mapAllActions_id _ ns]

end

mutual

/-- The calls of the encoder change the pipelines of actions and nothing else. -/
lemma Node.withHooks_eq_mapActions (k : Nat) (n : Node) :
    n.withHooks = n.mapActions (fun _ p => p.withHook) k := by
  match n with
  | .branch kind pos p ⟨at₁, body⟩ none =>
    simp only [Node.withHooks, Node.mapActions, hookAll_eq_mapAllActions (k + 1) body]
  | .branch kind pos p ⟨at₁, body⟩ (some ⟨at₂, otherwise⟩) =>
    simp only [Node.withHooks, Node.mapActions, hookAll_eq_mapAllActions (k + 1) body,
      hookAll_eq_mapAllActions (k + 1 + (walkAll body).length) otherwise]
  | .text _ _ | .comment _ _ | .action _ _ | .call _ _ _ | .breakLoop _ | .continueLoop _ =>
    simp only [Node.withHooks, Node.mapActions]

/-- The missing calls are changes of the actions one by one. -/
lemma hookAll_eq_mapAllActions (k : Nat) (ns : List Node) :
    hookAll ns = mapAllActions (fun _ p => p.withHook) k ns := by
  match ns with
  | []      => rw [hookAll, mapAllActions]
  | n :: ns =>
    rw [hookAll, mapAllActions, Node.withHooks_eq_mapActions k n, hookAll_eq_mapAllActions _ ns]

end

/-! ### The calls that are missing -/

/-- The pipeline writes a value, and its last command is no call of the encoder. -/
def PipelineOf.lacksHook (p : Pipeline) : Bool :=
  p.declared.isEmpty && p.commands.getLast?.any fun c => !c.isBare hookName

/-- The pipeline with a call of the encoder behind its last command, at the position of this. -/
def PipelineOf.hooked (p : Pipeline) : Pipeline :=
  { p with commands := p.commands ++ p.commands.getLast?.toList.map fun c => hookAt c.pos }

/-- The pipeline without its last command. -/
def PipelineOf.unhooked (p : Pipeline) : Pipeline := { p with commands := p.commands.dropLast }

/-- The node that has the number in the tree is an action that lacks a call of the encoder. -/
def Tree.lacksHookAt (t : Tree) (k : Nat) : Bool :=
  match t.walk[k]? with
  | some (.action _ p) => p.lacksHook
  | _                  => false

lemma PipelineOf.withHook_eq (p : Pipeline) :
    p.withHook = if p.lacksHook then p.hooked else p := by
  obtain ⟨pos, assigns, declared, commands⟩ := p
  cases declared with
  | cons v vs => simp [withHook, lacksHook]
  | nil =>
    rcases hl : commands.getLast? with _ | last
    · simp [withHook, lacksHook, hl]
    · by_cases hb : last.isBare hookName = true
      · simp [withHook, lacksHook, hl, hb]
      · simp [withHook, lacksHook, hooked, hl, hb]

/-- A missing call can be taken off again. -/
lemma PipelineOf.unhooked_hooked {p : Pipeline} (h : p.lacksHook = true) :
    p.hooked.unhooked = p := by
  obtain ⟨pos, assigns, declared, commands⟩ := p
  rcases hl : commands.getLast? with _ | last
  · simp [lacksHook, hl] at h
  · simp [hooked, unhooked, hl]

/-- With the missing call a pipeline that writes a value ends in a call of the encoder. -/
lemma PipelineOf.isBare_of_withHook {p : Pipeline} {last : Command}
    (hd : p.withHook.declared = []) (hlast : p.withHook.commands.getLast? = some last) :
    last.isBare hookName = true := by
  by_contra hb
  have hlacks : p.withHook.lacksHook = true := by
    rw [Bool.not_eq_true] at hb
    simp only [lacksHook, hd, hlast, hb, List.isEmpty_nil, Option.any_some, Bool.true_and,
      Bool.not_false]
  have hagain := p.withHook.withHook_eq
  rw [withHook_withHook, if_pos hlacks] at hagain
  have hlength := congrArg (·.commands.length) hagain
  simp [hooked, hlast] at hlength

namespace Tree

lemma lacksHookAt_of_getElem? {t : Tree} {k : Nat} {pos : Position} {p : Pipeline}
    (h : t.walk[k]? = some (.action pos p)) : t.lacksHookAt k = p.lacksHook := by
  rw [lacksHookAt, h]

/-- Exactly the actions that lack a call of the encoder get one, and nothing else is changed. -/
lemma withHooks_eq_mapActions (t : Tree) :
    t.withHooks = t.mapActions fun k p => if t.lacksHookAt k then p.hooked else p := by
  simp only [withHooks, BlockOf.withHooks, mapActions]
  rw [hookAll_eq_mapAllActions 0, mapAllActions_congr]
  intro k pos p hk
  simp only [Nat.zero_add, lacksHookAt_of_getElem? hk, PipelineOf.withHook_eq]

/-- The tree comes back when the calls that have been added are taken away. -/
lemma unhooked_withHooks (t : Tree) :
    (t.withHooks.mapActions fun k p => if t.lacksHookAt k then p.unhooked else p) = t := by
  rw [withHooks_eq_mapActions, mapActions_mapActions]
  have hsame : SameAt (fun k p => if t.lacksHookAt k then
      (if t.lacksHookAt k then p.hooked else p).unhooked else
      (if t.lacksHookAt k then p.hooked else p)) (fun _ p => p) t.walk 0 := by
    intro k pos p hk
    simp only [Nat.zero_add, lacksHookAt_of_getElem? hk]
    split
    · rename_i hlacks
      exact PipelineOf.unhooked_hooked hlacks
    · rfl
  have hnodes := (mapAllActions_congr _ hsame).trans (mapAllActions_id 0 t.root.nodes)
  simp only [mapActions]
  rw [hnodes]

/-- What the calls of the encoder change in a tree. Every action at any depth that declares nothing
and has commands ends in a call of the encoder. The only difference is one such call in the actions
that lacked it, behind the last command and at its position, so that the tree comes back when these
are taken away. A tree has no more and no less content, and a second time nothing changes. -/
theorem withHooks_changes (t : Tree) :
    (∀ pos p last, .action pos p ∈ t.withHooks.walk → p.declared = [] →
        p.commands.getLast? = some last → last.isBare hookName = true) ∧
      t.withHooks = (t.mapActions fun k p => if t.lacksHookAt k then p.hooked else p) ∧
      (t.withHooks.mapActions fun k p => if t.lacksHookAt k then p.unhooked else p) = t ∧
      t.withHooks.isEmpty = t.isEmpty ∧ t.withHooks.withHooks = t.withHooks := by
  refine ⟨?_, t.withHooks_eq_mapActions, t.unhooked_withHooks, t.isEmpty_withHooks,
    t.withHooks_withHooks⟩
  intro pos p last hp hd hlast
  rw [walk_withHooks, List.mem_map] at hp
  obtain ⟨n, -, heq⟩ := hp
  obtain ⟨q, rfl, rfl⟩ := Node.withHooks_eq_action heq
  exact PipelineOf.isBare_of_withHook hd hlast

end Tree

end SafeQuery
