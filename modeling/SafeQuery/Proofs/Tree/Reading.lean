import SafeQuery.Proofs.Tree.Grammar
import SafeQuery.Proofs.Tree.Walk

/-!
# Actions of trees that have been read

The reader of pipelines accepts a pipeline only if it has commands. Every action of a tree that has
been read has such a pipeline, by induction on the derivation of the tree, and so it has a value.
-/

namespace SafeQuery

/-- The tree is one of the trees of a source. -/
def Tree.IsRead (t : Tree) : Prop :=
  ∃ (d : Delimiters) (isFunction : String → Bool) (name source : String) (trees : Dict Tree)
    (k : String), Tree.ofSource d isFunction name source = .ok trees ∧ trees.get? k = some t

/-- The source of a tree that has been read, and its entry among the trees of this source. -/
lemma Tree.IsRead.exists_entry {t : Tree} (h : t.IsRead) :
    ∃ d isFunction name source trees, Tree.ofSource d isFunction name source = .ok trees ∧
      ∃ e ∈ trees.entries, e.2 = t := by
  obtain ⟨d, isFunction, name, source, trees, k, hsource, hget⟩ := h
  obtain ⟨e, he, rfl⟩ := Option.map_eq_some_iff.mp hget
  exact ⟨d, isFunction, name, source, trees, hsource, e, List.mem_of_find?_eq_some he, rfl⟩

lemma readCommands_ne_nil {c : PipelineContext} {scope : List String} {ts : List Token}
    {r : Reading (ts.length + 1) (List Command)} (h : readCommands c scope ts = .ok r) :
    r.value ≠ [] := by
  rw [readCommands, bind_eq_ok_iff] at h
  obtain ⟨os, -, h⟩ := h
  split at h
  · contradiction
  · split at h
    · split at h
      · contradiction
      · obtain ⟨cs, -, h⟩ := bind_eq_ok_iff.mp h
        cases h
        simp
    · cases h
      simp

/-- A pipeline that has been read has commands. -/
theorem ofTokens_commands_ne_nil {c : PipelineContext} {clause : Clause}
    {scope scope' : List String} {ts : List Token} {p : Pipeline}
    (h : PipelineOf.ofTokens c clause scope ts = .ok (p, scope')) : p.commands ≠ [] := by
  simp only [PipelineOf.ofTokens, bind_eq_ok_iff] at h
  obtain ⟨r, hr, h⟩ := h
  split at h
  · cases h
    rw [readPipeline] at hr
    split at hr
    · contradiction
    · obtain ⟨scope, -, hr⟩ := bind_eq_ok_iff.mp hr
      split at hr
      · contradiction
      · obtain ⟨cs, hcs, hr⟩ := bind_eq_ok_iff.mp hr
        split at hr
        · contradiction
        · cases hr
          exact readCommands_ne_nil hcs
  · contradiction

/-- The pipelines of the actions among nodes that have been read have commands. -/
lemma NodesRead.commands_ne_nil {E : ExitRule} {loops : List Position} {ns : List Node}
    {scope scope' : List String} (h : NodesRead E loops ns scope scope') {pos : Position}
    {p : Pipeline} (hp : .action pos p ∈ walkAll ns) : p.commands ≠ [] := by
  induction h with
  | nil => simp at hp
  | text _ ih | comment _ ih | call _ ih | callWith _ _ ih | breakLoop _ _ ih
  | continueLoop _ _ ih =>
    simp only [walkAll_cons, Node.inside, List.nil_append, List.mem_cons, reduceCtorEq,
      false_or] at hp
    exact ih hp
  | action hread _ ih =>
    simp only [walkAll_cons, Node.inside, List.nil_append, List.mem_cons] at hp
    rcases hp with heq | hp
    · cases heq
      obtain ⟨_, _, hread⟩ := hread
      exact ofTokens_commands_ne_nil hread
    · exact ih hp
  | branch _ _ _ ihbody ih =>
    simp only [walkAll_cons, Node.inside, List.mem_cons, List.mem_append, reduceCtorEq,
      false_or] at hp
    exact hp.elim ihbody ih
  | branchElse _ _ _ _ ihbody ihelse ih =>
    simp only [walkAll_cons, Node.inside, List.mem_cons, List.mem_append, reduceCtorEq,
      false_or] at hp
    exact hp.elim (Or.elim · ihbody ihelse) ih

/-- Every action in the trees of a source has a value. -/
theorem ofSource_isComplete {d : Delimiters} {isFunction : String → Bool} {name source : String}
    {trees : Dict Tree} (h : Tree.ofSource d isFunction name source = .ok trees)
    {e : String × Tree} (he : e ∈ trees.entries) : e.2.IsComplete := by
  obtain ⟨items, -, hread⟩ := ofSource_read h
  obtain ⟨scope, hnodes⟩ := hread e he
  intro pos p hp _
  exact hnodes.commands_ne_nil hp

lemma Tree.IsRead.isComplete {t : Tree} (h : t.IsRead) : t.IsComplete := by
  obtain ⟨d, isFunction, name, source, trees, hsource, e, he, rfl⟩ := h.exists_entry
  exact ofSource_isComplete hsource he

end SafeQuery
