import SafeQuery.Proofs.Execution.Loop
import SafeQuery.Proofs.Template.Namespace

/-!
# Loops that are left

The reader accepts an exit where the body of a loop is open, and it has left a loop when it reads the
else part of it. So the loop of an exit is the innermost one whose body holds it, also in the else
part of another loop. An execution forgets an exit that leaves the else part of a loop:
`executeNamed_loops` says that this is all that it does differently, and that it makes no difference
if no exit stands in the else part of a loop.
-/

namespace SafeQuery

/-- The tree has the statements of a tree of a source, and the reader of this source has come by
every exit of the tree when it had opened the loops whose bodies hold the exit. -/
def Tree.ExitsRead (t : Tree) : Prop :=
  ∃ (d : Delimiters) (isFunction : String → Bool) (name source : String) (trees : Dict Tree)
    (items : List Item),
    Tree.ofSource d isFunction name source = .ok trees ∧ Item.ofSource d source = .ok items ∧
      (∃ e ∈ trees.entries, t.root = e.2.withHooks.root) ∧
      ∀ x ∈ t.exits, ExitRead (.ofSource isFunction source) items x.keyword x.loops x.pos

/-- Every exit of a tree that has been read has been read inside a loop. -/
lemma ofSource_exitsRead {d : Delimiters} {isFunction : String → Bool} {name source : String}
    {trees : Dict Tree} (h : Tree.ofSource d isFunction name source = .ok trees)
    {e : String × Tree} (he : e ∈ trees.entries) : e.2.withHooks.ExitsRead := by
  obtain ⟨items, hitems, hexits⟩ := ofSource_exits h
  refine ⟨d, isFunction, name, source, trees, items, h, hitems, ⟨e, he, rfl⟩, ?_⟩
  rw [Tree.exits_withHooks]
  exact hexits e he

/-- A copy of a tree under another name. -/
lemma Tree.ExitsRead.copy {t : Tree} (h : t.ExitsRead) (name : String) :
    Tree.ExitsRead { t with name }.withHooks := by
  obtain ⟨d, isFunction, name', source, trees, items, hsource, hitems, ⟨e, he, hroot⟩, hexits⟩ := h
  refine ⟨d, isFunction, name', source, trees, items, hsource, hitems, ⟨e, he, ?_⟩, ?_⟩
  · have hagain : e.2.withHooks.root.withHooks = e.2.withHooks.root :=
      congrArg Tree.root (Tree.withHooks_withHooks e.2)
    rw [← hagain, ← hroot]
    rfl
  · rw [Tree.exits_withHooks]
    exact hexits

namespace Template

variable {t : Template}

/-- In every set of definitions that has been read, the loops of the exits are those that the reader
had opened. -/
lemma Built.exitsRead (ht : t.Built Tree.IsRead) : t.AllNamed fun _ tree => tree.ExitsRead := by
  refine ht.allNamed ?_ ?_ ?_
  · intro d isFunction name source added h e he
    exact ofSource_exitsRead h he
  · intro name tree htree
    obtain ⟨d, isFunction, name', source, trees, hsource, e, he, rfl⟩ := htree.exists_entry
    exact ofSource_exitsRead hsource he
  · intro key name tree h
    exact h.copy name

/-- Execute the template of a name, with the rule for exits that leave the else part of a loop. -/
def executeNamedTo (rule : ElseRule) (t : Template) (name : String) (data : Value)
    (room : Option Nat) : Rendering :=
  match t.trees.get? name with
  | none      => ⟨some (.noTemplate name t.name), .ofRoom room⟩
  | some tree =>
    let outcome := Environment.executeTo rule t.environment tree data room
    ⟨outcome.failure.map .execution, outcome.sink⟩

lemma executeNamedTo_eq {rule : ElseRule}
    (h : ∀ key tree, t.trees.get? key = some tree → Way.Suits rule tree.exits) (name : String)
    (data : Value) (room : Option Nat) :
    executeNamedTo rule t name data room = t.executeNamed name data room := by
  unfold executeNamedTo executeNamed run
  cases htree : t.trees.get? name with
  | none => rfl
  | some tree =>
    have hexecute := @Environment.executeTo_eq t.environment rule h name tree htree data room
    simp only [hexecute]

/-- The reader and the execution agree on the loop of every exit, except for the exits that leave the
else part of a loop. Each exit has been read when the loops whose bodies hold it were open; an
execution leaves the innermost of them, where it does not forget the exit; and an exit is forgotten
only if it stands in the else part of a loop. -/
theorem executeNamed_loops (ht : t.Built Tree.IsRead) (name : String) (data : Value)
    (room : Option Nat) :
    (∀ key tree, t.trees.get? key = some tree → tree.ExitsRead) ∧
      executeNamedTo Way.drop t name data room = t.executeNamed name data room ∧
      (executeNamedTo Way.forward t name data room ≠ t.executeNamed name data room →
        ∃ key tree, t.trees.get? key = some tree ∧ ∃ x ∈ tree.exits, x.inElse = true) := by
  refine ⟨ht.exitsRead, executeNamedTo_eq (fun _ _ _ => .inl fun _ => rfl) name data room, ?_⟩
  intro hdiffers
  by_contra hnone
  refine hdiffers (executeNamedTo_eq (fun key tree htree => .inr ⟨rfl, ?_⟩) name data room)
  intro x hx
  by_contra helse
  exact hnone ⟨key, tree, htree, x, hx, by simpa using helse⟩

/-- A loop in the body of a loop, with an exit in its else part. The exit has been read for the outer
loop, and an execution goes on with the body of this loop. -/
theorem executeNamed_loops_of_break :
    let source := "\x7b\x7brange .\x7d\x7da\x7b\x7brange .\x7d\x7d\x7b\x7belse\x7d\x7d" ++
      "\x7b\x7bbreak\x7d\x7d\x7b\x7bend\x7d\x7db\x7b\x7bend\x7d\x7d"
    let t := ((new "q").load (parse source)).1
    let data := Value.list [.null, .null]
    (((new "q").load (parse source)).2.isNone ∧ t.Built Tree.IsRead ∧
        (t.executeNamed "q" data none).sink.text = "abab" ∧
        (executeNamedTo Way.forward t "q" data none).sink.text = "a") ∧
      (∀ key tree, t.trees.get? key = some tree → tree.ExitsRead) ∧
      executeNamedTo Way.drop t "q" data none = t.executeNamed "q" data none ∧
      ∃ key tree, t.trees.get? key = some tree ∧ ∃ x ∈ tree.exits, x.inElse = true := by
  intro source t data
  have ht : t.Built Tree.IsRead := (Built.new "q").source _
  have htext : (t.executeNamed "q" data none).sink.text = "abab" := by decide +kernel
  have hforward : (executeNamedTo Way.forward t "q" data none).sink.text = "a" := by
    decide +kernel
  have hloops := executeNamed_loops ht "q" data none
  refine ⟨⟨by decide +kernel, ht, htext, hforward⟩, hloops.1, hloops.2.1, hloops.2.2 ?_⟩
  intro hsame
  rw [hsame, htext] at hforward
  exact absurd hforward (by decide)

end Template

end SafeQuery
