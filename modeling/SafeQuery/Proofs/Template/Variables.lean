import SafeQuery.Proofs.Execution.Binding
import SafeQuery.Proofs.Template.Built
import SafeQuery.Proofs.Tree.Checking

/-!
# Variables that are not found

The reader accepts a source only if every variable is in scope where it is used. That is not enough
for an execution to find it: a variable is in scope, and need not be bound, in the commands of its
own declaration, in the else part behind a body that declares it, behind the argument of a call that
declares it, and behind operands that `and` and `or` have left out. `executeNamed_undefined` says
that an execution that does not find a variable has got to such a use.
-/

namespace SafeQuery

/-- Reading gives trees whose variables are in scope wherever they are used. -/
lemma Tree.IsRead.checked {t : Tree} (h : t.IsRead) : ∀ u ∈ t.uses, u.IsChecked := by
  obtain ⟨d, isFunction, name, source, trees, hsource, e, he, rfl⟩ := h.exists_entry
  exact ofSource_checked hsource e he

namespace Template

variable {t : Template}

/-- In every set of definitions that has been read, variables are in scope wherever they are used. -/
lemma Built.checked (ht : t.Built Tree.IsRead) :
    t.AllNamed fun _ tree => ∀ u ∈ tree.uses, u.IsChecked := by
  have huses : ∀ (name : String) (tree : Tree),
      Tree.uses { tree with name }.withHooks = tree.uses := fun _ _ => Tree.uses_withHooks _
  refine ht.allNamed ?_ ?_ ?_
  · intro d isFunction name source added h e he
    rw [Tree.uses_withHooks]
    exact ofSource_checked h e he
  · intro name tree htree
    rw [huses]
    exact htree.checked
  · intro key name tree h
    rw [huses]
    exact h

/-- The place where an execution has failed because it did not find a variable, and the name of the
variable. -/
def Rendering.undefined? (r : Rendering) : Option (Place × String) :=
  match r.failure with
  | some (.execution (.fault place (.undefinedVariable x))) => some (place, x)
  | _                                                       => none

lemma Rendering.failure_of_undefined {r : Rendering} {place : Place} {x : String}
    (h : r.undefined? = some (place, x)) :
    r.failure = some (.execution (.fault place (.undefinedVariable x))) := by
  unfold undefined? at h
  split at h
  · rename_i hfailure
    cases h
    exact hfailure
  · cases h

/-- An execution that does not find a variable has got to a use of it, in the template that the
failure names, where the reader has it in scope and it need not have been bound. Without such uses
every execution finds its variables. -/
theorem executeNamed_undefined (ht : t.Built Tree.IsRead) {name : String} {data : Value}
    {room : Option Nat} {place : Place} {x : String}
    (h : (t.executeNamed name data room).undefined? = some (place, x)) :
    ∃ key tree, t.trees.get? key = some tree ∧ tree.name = place.template ∧
      ∃ u ∈ tree.uses, u.name = x ∧ u.IsChecked ∧ u.IsLate := by
  have hfailure := Rendering.failure_of_undefined h
  unfold executeNamed run at hfailure
  split at hfailure
  · cases hfailure
  · rename_i tree htree
    obtain ⟨e, he, heq⟩ := Option.map_eq_some_iff.mp hfailure
    cases heq
    obtain ⟨key, found, hfound, hname, u, hu, hx, hlate⟩ :=
      @Environment.execute_undefined t.environment _ _ _ _ _ _ htree he
    exact ⟨key, found, hfound, hname, u, hu, hx, ht.checked key found hfound u hu, hlate⟩

/-- A source that is accepted, with a declaration that reads the variable that it declares. -/
theorem executeNamed_undefined_of_declaration :
    let t := ((new "q").load (parse "\x7b\x7b$x := $x\x7d\x7d")).1
    (((new "q").load (parse "\x7b\x7b$x := $x\x7d\x7d")).2.isNone ∧ t.Built Tree.IsRead ∧
        (t.executeNamed "q" (.int 1) none).undefined? = some (⟨"q", 1, "$x"⟩, "$x")) ∧
      ∃ key tree, t.trees.get? key = some tree ∧ tree.name = "q" ∧
        ∃ u ∈ tree.uses, u.name = "$x" ∧ u.IsChecked ∧ u.IsLate := by
  intro t
  have ht : t.Built Tree.IsRead := (Built.new "q").source _
  have hundefined : (t.executeNamed "q" (.int 1) none).undefined? =
      some (⟨"q", 1, "$x"⟩, "$x") := by decide +kernel
  exact ⟨⟨by decide +kernel, ht, hundefined⟩, executeNamed_undefined ht hundefined⟩

end Template

end SafeQuery
