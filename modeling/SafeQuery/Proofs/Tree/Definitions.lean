import SafeQuery.Proofs.Dict
import SafeQuery.Proofs.Tree.Statement

/-!
# The definitions of a source

A source defines trees one after the other, and the reader puts them together as they end.
`Tree.definitions` lists them without putting them together. They clash if two of them have the same
name and content both; if they do not, what is made of them is said by `Gathers`, which does not
depend on where the definitions without content stand. `ofSource_eq_foldlM` says that reading a
source is listing its definitions and then gathering them, so that `ofSource_gathers` decides
between the two.
-/

namespace SafeQuery

/-- Both trees can be defined, one before the other: they have different names, or one of them has
no content. -/
def Tree.Admits (t t' : Tree) : Prop :=
  t.name = t'.name → t.isEmpty = true ∨ t'.isEmpty = true

/-- Two of the definitions have the same name, and both of them have content. -/
def Clash (defs : List Tree) : Prop :=
  ∃ t t', [t, t'].Sublist defs ∧ t.name = t'.name ∧ t.isEmpty = false ∧ t'.isEmpty = false

/-- Definitions do not clash if every two of them admit each other. -/
lemma not_clash_iff {defs : List Tree} : ¬ Clash defs ↔ defs.Pairwise Tree.Admits := by
  rw [List.pairwise_iff_forall_sublist]
  constructor
  · intro h t t' hsub hname
    by_contra hfull
    rw [not_or, Bool.not_eq_true, Bool.not_eq_true] at hfull
    exact h ⟨t, t', hsub, hname, hfull⟩
  · rintro h ⟨t, t', hsub, hname, hfull, hfull'⟩
    have hempty := h hsub hname
    rw [hfull, hfull'] at hempty
    simp at hempty

instance : DecidableRel Tree.Admits := fun t t' =>
  inferInstanceAs (Decidable (t.name = t'.name → t.isEmpty = true ∨ t'.isEmpty = true))

instance (defs : List Tree) : Decidable (Clash defs) :=
  decidable_of_iff (¬ defs.Pairwise Tree.Admits) (not_iff_comm.mp not_clash_iff)

/-- The trees are those of the definitions: one under every name of a definition, which it carries.
It is the definition of this name that has content, and if none has, the first one. -/
structure Gathers (trees : Dict Tree) (defs : List Tree) : Prop where
  sorted : trees.Sorted
  mem_keys : ∀ key, key ∈ trees.keys ↔ ∃ t ∈ defs, t.name = key
  named : ∀ e ∈ trees.entries, e.2.name = e.1
  full : ∀ e ∈ trees.entries, ∀ t ∈ defs, t.name = e.1 → t.isEmpty = false → e.2 = t
  first : ∀ e ∈ trees.entries, (∀ t ∈ defs, t.name = e.1 → t.isEmpty = true) →
    defs.find? (·.name = e.1) = some e.2

section Gathering

variable {trees trees' : Dict Tree} {defs : List Tree} {t : Tree} {fault : SyntaxFault}

lemma gathers_empty : Gathers .empty [] where
  sorted := .nil
  mem_keys := by simp [Dict.keys, Dict.empty]
  named := by simp [Dict.empty]
  full := by simp [Dict.empty]
  first := by simp [Dict.empty]

/-- What stands under a name. -/
lemma Gathers.get?_eq_some (h : Gathers trees defs) {key : String} {old : Tree}
    (hget : trees.get? key = some old) : (key, old) ∈ trees.entries :=
  (Dict.mem_entries_iff h.sorted).mpr hget

/-- Nothing stands under a name that no definition has. -/
lemma Gathers.name_ne_of_get? (h : Gathers trees defs) {key : String}
    (hget : trees.get? key = none) : ∀ t ∈ defs, t.name ≠ key := by
  intro t ht hname
  obtain ⟨old, hold⟩ := Dict.mem_keys_iff.mp ((h.mem_keys key).mpr ⟨t, ht, hname⟩)
  rw [hget] at hold
  cases hold

/-- A definition that takes its place under its name, where nothing with content stood before. -/
lemma Gathers.insert (h : Gathers trees defs)
    (hempty : ∀ t' ∈ defs, t'.name = t.name → t'.isEmpty = true)
    (hfirst : t.isEmpty = true → ∀ t' ∈ defs, t'.name ≠ t.name) :
    Gathers (trees.insert t.name t) (defs ++ [t]) := by
  have hsorted := Dict.insert_sorted h.sorted t.name t
  have hcases : ∀ e ∈ (trees.insert t.name t).entries,
      e = (t.name, t) ∨ e.1 ≠ t.name ∧ e ∈ trees.entries := by
    rintro ⟨key, v⟩ he
    rw [Dict.mem_entries_iff hsorted, Dict.get?_insert] at he
    split_ifs at he with hkey
    · cases he
      exact .inl (by rw [hkey])
    · exact .inr ⟨hkey, h.get?_eq_some he⟩
  constructor
  case sorted => exact hsorted
  case mem_keys =>
    intro key
    rw [Dict.mem_keys_iff, Dict.get?_insert]
    split_ifs with hkey
    · exact ⟨fun _ => ⟨t, by simp, hkey.symm⟩, fun _ => ⟨t, rfl⟩⟩
    · rw [← Dict.mem_keys_iff, h.mem_keys key]
      simp [Ne.symm hkey]
  case named =>
    intro e he
    obtain rfl | ⟨-, he⟩ := hcases e he
    · rfl
    · exact h.named e he
  case full =>
    intro e he t' ht' hname hfull
    obtain rfl | ⟨hne, he⟩ := hcases e he
    · obtain ht' | ht' := List.mem_append.mp ht'
      · rw [hempty t' ht' hname] at hfull
        cases hfull
      · exact (List.mem_singleton.mp ht').symm
    · obtain ht' | ht' := List.mem_append.mp ht'
      · exact h.full e he t' ht' hname hfull
      · exact absurd (List.mem_singleton.mp ht' ▸ hname).symm hne
  case first =>
    intro e he hall
    rw [List.find?_append]
    obtain rfl | ⟨hne, he⟩ := hcases e he
    · have hnone : defs.find? (·.name = t.name) = none := by
        simpa using hfirst (hall t (by simp) rfl)
      simp [hnone]
    · rw [h.first e he fun t' ht' => hall t' (List.mem_append_left _ ht')]
      rfl

/-- A definition without content where something stands already. -/
lemma Gathers.drop (h : Gathers trees defs) {old : Tree} (hget : trees.get? t.name = some old)
    (hempty : t.isEmpty = true) : Gathers trees (defs ++ [t]) := by
  constructor
  case sorted => exact h.sorted
  case mem_keys =>
    intro key
    rw [h.mem_keys key]
    constructor
    · rintro ⟨t', ht', hname⟩
      exact ⟨t', List.mem_append_left _ ht', hname⟩
    · rintro ⟨t', ht', rfl⟩
      obtain ht' | ht' := List.mem_append.mp ht'
      · exact ⟨t', ht', rfl⟩
      · rw [List.mem_singleton.mp ht', ← h.mem_keys]
        exact Dict.mem_keys_iff.mpr ⟨old, hget⟩
  case named => exact h.named
  case full =>
    intro e he t' ht' hname hfull
    obtain ht' | ht' := List.mem_append.mp ht'
    · exact h.full e he t' ht' hname hfull
    · rw [List.mem_singleton.mp ht', hempty] at hfull
      cases hfull
  case first =>
    intro e he hall
    rw [List.find?_append, h.first e he fun t' ht' => hall t' (List.mem_append_left _ ht')]
    rfl

/-- What another definition does: it is gathered with those before if they admit it. -/
lemma Gathers.addTree (h : Gathers trees defs) (ht : addTree trees t = .ok trees') :
    Gathers trees' (defs ++ [t]) ∧ ∀ t' ∈ defs, t'.Admits t := by
  unfold SafeQuery.addTree at ht
  split at ht
  · rename_i hnone
    cases ht
    have hne := h.name_ne_of_get? hnone
    exact ⟨h.insert (fun t' ht' hname => absurd hname (hne t' ht')) fun _ => hne,
      fun t' ht' hname => absurd hname (hne t' ht')⟩
  · rename_i old hold
    split_ifs at ht with hempty hempty'
    · cases ht
      exact ⟨h.drop hold hempty, fun _ _ _ => .inr hempty⟩
    · cases ht
      have hall : ∀ t' ∈ defs, t'.name = t.name → t'.isEmpty = true := by
        intro t' ht' hname
        by_contra hfull
        rw [Bool.not_eq_true] at hfull
        obtain rfl := h.full _ (h.get?_eq_some hold) t' ht' hname hfull
        rw [hfull] at hempty'
        cases hempty'
      exact ⟨h.insert hall fun h' => absurd h' hempty, fun t' ht' hname => .inl (hall t' ht' hname)⟩

/-- A definition is refused because of its name alone, which one before it has that it does not
admit. -/
lemma Gathers.addTree_eq_error (h : Gathers trees defs)
    (ht : SafeQuery.addTree trees t = .error fault) :
    fault = ⟨t.root.pos.offset, .redefined t.name⟩ ∧ ∃ t' ∈ defs, ¬ t'.Admits t := by
  unfold SafeQuery.addTree at ht
  split at ht
  · cases ht
  · rename_i old hold
    split_ifs at ht with hempty hempty'
    cases ht
    have hmem := h.get?_eq_some hold
    obtain ⟨t', ht', hname⟩ := (h.mem_keys t.name).mp (Dict.mem_keys_iff.mpr ⟨old, hold⟩)
    refine ⟨rfl, ?_⟩
    by_contra hall
    push Not at hall
    have hnone : ∀ t' ∈ defs, t'.name = t.name → t'.isEmpty = true :=
      fun t' ht' hname => (hall t' ht' hname).resolve_right hempty
    have hfirst := List.mem_of_find?_eq_some (h.first _ hmem hnone)
    exact hempty' (hnone old hfirst (h.named _ hmem))

/-- Definitions behind others are gathered with them, or two of them clash. -/
lemma Gathers.foldlM (h : Gathers trees defs) (hdefs : defs.Pairwise Tree.Admits)
    (defs' : List Tree) :
    match defs'.foldlM SafeQuery.addTree trees with
    | .ok trees'   => Gathers trees' (defs ++ defs') ∧ (defs ++ defs').Pairwise Tree.Admits
    | .error fault => (∃ t ∈ defs', fault = ⟨t.root.pos.offset, .redefined t.name⟩) ∧
        ¬ (defs ++ defs').Pairwise Tree.Admits := by
  induction defs' generalizing trees defs with
  | nil =>
    rw [List.append_nil]
    exact ⟨h, hdefs⟩
  | cons t defs' ih =>
    rw [List.foldlM_cons, List.append_cons]
    cases ht : SafeQuery.addTree trees t with
    | error fault =>
      obtain ⟨hfault, t', ht', hnot⟩ := h.addTree_eq_error ht
      refine ⟨⟨t, List.mem_cons_self, hfault⟩, fun hall => hnot ?_⟩
      have hpair := (List.pairwise_append.mp (List.pairwise_append.mp hall).1).2.2
      exact hpair t' ht' t (List.mem_singleton_self t)
    | ok next =>
      obtain ⟨hnext, hadmits⟩ := h.addTree ht
      have hpair : (defs ++ [t]).Pairwise Tree.Admits :=
        List.pairwise_append.mpr ⟨hdefs, List.pairwise_singleton _ _, by simpa using hadmits⟩
      have hrest := ih hnext hpair
      show match defs'.foldlM SafeQuery.addTree next with
        | .ok trees'   => _
        | .error fault => _
      split at hrest
      · exact hrest
      · obtain ⟨⟨t', ht', hfault⟩, hnot⟩ := hrest
        exact ⟨⟨t', List.mem_cons_of_mem _ ht', hfault⟩, hnot⟩

end Gathering

/-! ### Listing definitions -/

namespace Nesting

def withTrees (n : Nesting) (trees : Dict Tree) : Nesting := { n with trees }

/-- Add an item of the source, and the definition that it ends to a list. -/
def collect (ctx : PipelineContext) (state : Nesting × List Tree) (item : Item) :
    Except SyntaxFault (Nesting × List Tree) := do
  let n ← (state.1.withTrees .empty).addItem ctx item
  return (n, state.2 ++ n.trees.entries.map (·.2))

end Nesting

/-- The definitions of a source in the order in which they end, the main template last. They are not
put together, so that they may clash. -/
def Tree.definitions (d : Delimiters) (isFunction : String → Bool) (name source : String) :
    Except SyntaxFault (List Tree) := do
  let ctx := PipelineContext.ofSource isFunction source
  let items ← Item.ofSource d source
  let (n, defs) ← items.foldlM (Nesting.collect ctx) (.start, [])
  let main ← (n.withTrees .empty).finish ctx name
  return defs ++ main.entries.map (·.2)

namespace Nesting

section Listing

variable {ctx : PipelineContext} {n m : Nesting} {trees : Dict Tree}

@[simp] lemma withTrees_trees (n : Nesting) (trees : Dict Tree) :
    (n.withTrees trees).trees = trees := rfl

@[simp] lemma withTrees_withTrees (n : Nesting) (trees trees' : Dict Tree) :
    (n.withTrees trees).withTrees trees' = n.withTrees trees' := rfl

@[simp] lemma add_withTrees (n : Nesting) (trees : Dict Tree) (node : Node) :
    (n.withTrees trees).add node = (n.add node).withTrees trees := by
  unfold add withTrees
  cases n.clauses <;> rfl

/-- Put the definition that a step ends together with others. -/
def gather (trees : Dict Tree) (step : Except SyntaxFault Nesting) :
    Except SyntaxFault Nesting := do
  let n ← step
  let trees ← (n.trees.entries.map (·.2)).foldlM addTree trees
  return n.withTrees trees

/-- A step that ends no definition. -/
@[simp] lemma gather_ok (n : Nesting) :
    gather trees (.ok (n.withTrees .empty)) = .ok (n.withTrees trees) := rfl

/-- A step that ends a definition. -/
lemma gather_define (n : Nesting) (t : Tree) :
    gather trees (.ok (n.withTrees (Dict.empty.insert t.name t))) =
      addTree trees t >>= fun trees => .ok (n.withTrees trees) := by
  cases h : addTree trees t <;>
    simp [gather, Dict.empty, Dict.insert, Dict.insertEntry, h, bind, Except.bind, pure,
      Except.pure]

lemma gather_bind {α : Type} (first : Except SyntaxFault α)
    (next : α → Except SyntaxFault Nesting) :
    gather trees (first >>= next) = first >>= fun a => gather trees (next a) := by
  cases first <;> rfl

/-- A statement that is added when no other tree is there. -/
lemma gather_add (n : Nesting) (node : Node) :
    gather trees (.ok ((n.withTrees .empty).add node)) = .ok ((n.withTrees trees).add node) := by
  simp only [add_withTrees, gather_ok]

/-- Closing a clause adds the definition that it ends to the others. -/
lemma close_eq_gather (n : Nesting) (pos : Position) :
    n.close pos = gather n.trees ((n.withTrees .empty).close pos) := by
  obtain ⟨main, clauses, scope, trees⟩ := n
  cases clauses with
  | nil => rfl
  | cons c cs =>
    obtain ⟨opening, start, at₁, nodes, outer⟩ := c
    let closed : Nesting := ⟨main, cs, outer, .empty⟩
    cases opening with
    | define name => exact (gather_define closed _).symm
    | block name argument =>
      have hcall : ∀ trees, (closed.withTrees trees).add (.call start name (some argument)) =
          (closed.add (.call start name (some argument))).withTrees trees :=
        fun _ => add_withTrees _ _ _
      show (addTree trees _ >>= fun trees => .ok ((closed.withTrees trees).add _)) =
        gather trees (.ok ((closed.withTrees _).add _))
      simp only [hcall]
      exact (gather_define _ _).symm
    | body kind pipe before => exact (gather_add closed _).symm
    | otherwise kind pipe body before => exact (gather_add closed _).symm

lemma turn_eq_gather (n : Nesting) (pos : Position) (ts : List Token) :
    n.turn ctx pos ts = gather n.trees ((n.withTrees .empty).turn ctx pos ts) := by
  obtain ⟨main, clauses, scope, trees⟩ := n
  cases clauses with
  | nil => rfl
  | cons c cs =>
    obtain ⟨opening, start, at₁, nodes, outer⟩ := c
    cases opening with
    | define | block | otherwise => rfl
    | body kind pipe before =>
      simp only [turn, withTrees]
      split
      · rfl
      · rw [gather_bind]
        rfl
      · rw [gather_bind]
        rfl
      · rfl

lemma addKeyword_eq_gather (n : Nesting) (pos : Position) (k : Keyword) (ts : List Token) :
    n.addKeyword ctx pos k ts = gather n.trees ((n.withTrees .empty).addKeyword ctx pos k ts) := by
  cases k with
  | finish =>
    simp only [addKeyword, gather_bind]
    rw [close_eq_gather]
  | otherwise => exact turn_eq_gather n pos ts
  | cond | range | withValue =>
    simp only [addKeyword, enterBranch, gather_bind]
    rfl
  | template =>
    simp only [addKeyword, addCall, gather_bind]
    congr 1
    funext name
    split
    · exact (gather_add n _).symm
    · rw [gather_bind]
      congr 1
      funext argument
      exact (gather_add { n with scope := argument.2 } _).symm
  | block =>
    simp only [addKeyword, enterBlock, gather_bind]
    rfl
  | breakLoop | continueLoop =>
    simp only [addKeyword, addLoopExit, gather_bind]
    congr 1
    funext _
    show (if inLoop n.clauses then _ else _) = gather _ (if inLoop n.clauses then _ else _)
    split
    · exact (gather_add n _).symm
    · rfl
  | define =>
    simp only [addKeyword]
    show (if n.clauses.isEmpty then _ else _) = gather _ (if n.clauses.isEmpty then _ else _)
    split
    · unfold enterDefinition
      split <;> rfl
    · rfl

/-- To add an item is to add it where no tree is there, and then to put the definition that it ends
together with those before. -/
theorem addItem_eq_gather (n : Nesting) (item : Item) :
    n.addItem ctx item = gather n.trees ((n.withTrees .empty).addItem ctx item) := by
  cases item with
  | text o t => exact (gather_add n _).symm
  | comment o t => exact (gather_add n _).symm
  | action o ts =>
    simp only [addItem]
    split
    · exact addKeyword_eq_gather n _ _ _
    · rw [gather_bind]
      congr 1
      funext pipe
      exact (gather_add { n with scope := pipe.2 } _).symm

/-- To read items is to list their definitions and then to put them together. -/
theorem foldlM_addItem_eq {items : List Item} {m m' : Nesting} {defs defs' : List Tree}
    (h : items.foldlM (collect ctx) (m, defs) = .ok (m', defs')) :
    ∃ added, defs' = defs ++ added ∧ ∀ trees,
      items.foldlM (fun n item => n.addItem ctx item) (m.withTrees trees) =
        added.foldlM addTree trees >>= fun trees => .ok (m'.withTrees trees) := by
  induction items generalizing m defs with
  | nil =>
    cases h
    exact ⟨[], by simp, fun trees => rfl⟩
  | cons item items ih =>
    obtain ⟨⟨next, defs₁⟩, hitem, h⟩ := bind_eq_ok_iff.mp h
    obtain ⟨_, hnext, heq⟩ := bind_eq_ok_iff.mp hitem
    cases heq
    obtain ⟨added, rfl, hrest⟩ := ih h
    refine ⟨next.trees.entries.map (·.2) ++ added, List.append_assoc _ _ _, fun trees => ?_⟩
    rw [List.foldlM_cons, List.foldlM_append, addItem_eq_gather, withTrees_withTrees, hnext]
    show ((next.trees.entries.map (·.2)).foldlM addTree trees >>=
      fun trees => .ok (next.withTrees trees)) >>= _ = _
    rw [bind_assoc, bind_assoc]
    exact congrArg _ (funext hrest)

/-- Definitions can be refused for a name that is defined twice, and for nothing else. -/
lemma foldlM_addTree_eq_error {defs : List Tree} {fault : SyntaxFault}
    (h : defs.foldlM addTree trees = .error fault) : ∃ key, fault.cause = .redefined key := by
  induction defs generalizing trees with
  | nil => cases h
  | cons t defs ih =>
    rw [List.foldlM_cons] at h
    cases ht : addTree trees t with
    | ok next =>
      rw [ht] at h
      exact ih h
    | error fault' =>
      rw [ht] at h
      cases h
      unfold addTree at ht
      split at ht
      · cases ht
      · split_ifs at ht
        cases ht
        exact ⟨_, rfl⟩

/-- Where listing definitions stops, reading stops too, if it has not stopped before at a name that
is defined twice. -/
lemma foldlM_addItem_eq_error {items : List Item} {m : Nesting} {defs : List Tree}
    {fault : SyntaxFault} (h : items.foldlM (collect ctx) (m, defs) = .error fault)
    (trees : Dict Tree) :
    ∃ fault', items.foldlM (fun n item => n.addItem ctx item) (m.withTrees trees) = .error fault' ∧
      (fault' = fault ∨ ∃ key, fault'.cause = .redefined key) := by
  induction items generalizing m trees defs with
  | nil => cases h
  | cons item items ih =>
    rw [List.foldlM_cons] at h ⊢
    rw [addItem_eq_gather, withTrees_withTrees]
    cases hnext : (m.withTrees .empty).addItem ctx item with
    | error fault' =>
      simp only [collect, hnext] at h
      cases h
      exact ⟨fault, rfl, .inl rfl⟩
    | ok next =>
      simp only [collect, hnext] at h
      cases hgather : (next.trees.entries.map (·.2)).foldlM addTree
          (m.withTrees trees).trees with
      | error fault' =>
        refine ⟨fault', ?_, .inr (foldlM_addTree_eq_error hgather)⟩
        simp only [gather, hgather, bind, Except.bind]
      | ok gathered =>
        obtain ⟨fault', hrest, hcause⟩ := ih h gathered
        refine ⟨fault', ?_, hcause⟩
        rw [← hrest]
        simp only [gather, hgather, bind, Except.bind, pure, Except.pure]

/-- What has been read of items without putting their definitions together is spelled by them. -/
theorem foldlM_collect_spelled {items read : List Item} {m m' : Nesting} {defs defs' : List Tree}
    (hm : ClausesSpelled ctx m.main m.clauses read defs m.scope)
    (h : items.foldlM (collect ctx) (m, defs) = .ok (m', defs')) :
    ClausesSpelled ctx m'.main m'.clauses (read ++ items) defs' m'.scope := by
  induction items generalizing m defs read with
  | nil =>
    cases h
    rwa [List.append_nil]
  | cons item items ih =>
    obtain ⟨⟨next, defs₁⟩, hitem, h⟩ := bind_eq_ok_iff.mp h
    obtain ⟨_, hnext, heq⟩ := bind_eq_ok_iff.mp hitem
    cases heq
    have hstep := ClausesSpelled.step (n := m.withTrees .empty) hm (addItem_step hnext)
    obtain ⟨added, hspelled, hdefines⟩ := hstep
    have hadded : next.trees.entries.map (·.2) = added := by
      match added, hdefines with
      | [], hdefines => rw [hdefines]; rfl
      | [t], hdefines =>
        have hone : next.trees = Dict.empty.insert t.name t := (Except.ok.inj hdefines).symm
        rw [hone]
        rfl
    rw [hadded] at h
    rw [List.append_cons]
    exact ih hspelled h

end Listing

end Nesting

/-! ### The trees of a source -/

section Source

variable {d : Delimiters} {isFunction : String → Bool} {name source : String} {defs : List Tree}

lemma definitions_eq_ok (h : Tree.definitions d isFunction name source = .ok defs) :
    ∃ items n inner, Item.ofSource d source = .ok items ∧
      items.foldlM (Nesting.collect (.ofSource isFunction source)) (.start, []) = .ok (n, inner) ∧
      n.clauses = [] ∧ defs = inner ++
        [⟨name, ⟨(PipelineContext.ofSource isFunction source).positionOf 0, n.main.reverse⟩⟩] := by
  simp only [Tree.definitions, bind_eq_ok_iff, Prod.exists] at h
  obtain ⟨items, hitems, n, inner, hn, main, hfinish, heq⟩ := h
  cases heq
  unfold Nesting.finish at hfinish
  split at hfinish
  · rename_i hclauses
    cases hfinish
    exact ⟨items, n, inner, hitems, hn, hclauses, rfl⟩
  · cases hfinish

/-- To read a source is to list its definitions and then to put them together. -/
theorem ofSource_eq_foldlM (h : Tree.definitions d isFunction name source = .ok defs) :
    Tree.ofSource d isFunction name source = defs.foldlM addTree .empty := by
  obtain ⟨items, n, inner, hitems, hn, hclauses, rfl⟩ := definitions_eq_ok h
  obtain ⟨_, rfl, hread⟩ := Nesting.foldlM_addItem_eq hn
  have hfinish : ∀ trees, (n.withTrees trees).finish (.ofSource isFunction source) name =
      addTree trees
        ⟨name, ⟨(PipelineContext.ofSource isFunction source).positionOf 0, n.main.reverse⟩⟩ := by
    intro trees
    simp only [Nesting.finish, Nesting.withTrees, hclauses]
  simp only [Tree.ofSource, hitems]
  show (items.foldlM (fun n item => n.addItem (.ofSource isFunction source) item)
    (Nesting.start.withTrees .empty) >>= fun n => n.finish (.ofSource isFunction source) name) = _
  rw [hread, bind_assoc, List.foldlM_append]
  refine congrArg _ (funext fun trees => (hfinish trees).trans ?_)
  rw [List.foldlM_cons]
  exact (bind_pure _).symm

/-- A source whose definitions cannot be listed is refused: for the same reason, or because of a
name that it defines twice before. -/
theorem ofSource_eq_error {fault : SyntaxFault}
    (h : Tree.definitions d isFunction name source = .error fault) :
    ∃ fault', Tree.ofSource d isFunction name source = .error fault' ∧
      (fault' = fault ∨ ∃ key, fault'.cause = .redefined key) := by
  have hread : ∀ items, Item.ofSource d source = .ok items →
      Tree.ofSource d isFunction name source =
        items.foldlM (fun n item => n.addItem (.ofSource isFunction source) item)
          (Nesting.start.withTrees .empty) >>=
            fun n => n.finish (.ofSource isFunction source) name := by
    intro items hitems
    simp only [Tree.ofSource, hitems]
    rfl
  simp only [Tree.definitions] at h
  cases hitems : Item.ofSource d source with
  | error fault' =>
    rw [hitems] at h
    cases h
    exact ⟨fault, by simp only [Tree.ofSource, hitems]; rfl, .inl rfl⟩
  | ok items =>
    rw [hread items hitems]
    simp only [hitems, bind, Except.bind] at h
    cases hn : items.foldlM (Nesting.collect (.ofSource isFunction source)) (.start, []) with
    | error fault' =>
      simp only [hn] at h
      cases h
      obtain ⟨fault', hstop, hcause⟩ := Nesting.foldlM_addItem_eq_error hn .empty
      exact ⟨fault', by rw [hstop]; rfl, hcause⟩
    | ok state =>
      obtain ⟨n, inner⟩ := state
      obtain ⟨added, -, hall⟩ := Nesting.foldlM_addItem_eq hn
      rw [hall]
      cases hadded : added.foldlM addTree .empty with
      | error fault' => exact ⟨fault', rfl, .inr (Nesting.foldlM_addTree_eq_error hadded)⟩
      | ok trees =>
        -- all items have been read, so that a clause is open at the end
        cases hclauses : n.clauses with
        | nil =>
          simp only [hn, Nesting.finish, Nesting.withTrees, hclauses] at h
          cases h
        | cons c cs =>
          simp only [hn, Nesting.finish, Nesting.withTrees, hclauses] at h
          cases h
          refine ⟨_, ?_, .inl rfl⟩
          simp only [bind, Except.bind, Nesting.finish, Nesting.withTrees, hclauses]

/-- The grammar gives the definitions of a source, those within others first and the main one
last. -/
lemma definitions_spelled (h : Tree.definitions d isFunction name source = .ok defs) :
    ∃ (items : List Item) (nodes : List Node) (inner : List Tree) (scope : List String),
      Item.ofSource d source = .ok items ∧
      Spells (.ofSource isFunction source) .main ["$"] items (.statements nodes) inner scope ∧
      defs = inner ++
        [⟨name, ⟨(PipelineContext.ofSource isFunction source).positionOf 0, nodes⟩⟩] := by
  obtain ⟨items, n, inner, hitems, hn, hclauses, rfl⟩ := definitions_eq_ok h
  have hspelled := Nesting.foldlM_collect_spelled (.main .nil) hn
  rw [hclauses, List.nil_append] at hspelled
  cases hspelled with
  | main hmain => exact ⟨items, _, inner, _, hitems, hmain, rfl⟩

/-- A source whose definitions can be listed has them gathered as its trees, unless two of them
clash, and then it is refused for the name of one of them. -/
theorem Tree.ofSource_gathers (h : Tree.definitions d isFunction name source = .ok defs) :
    (∃ (items : List Item) (nodes : List Node) (inner : List Tree) (scope : List String),
      Item.ofSource d source = .ok items ∧
      Spells (.ofSource isFunction source) .main ["$"] items (.statements nodes) inner scope ∧
      defs = inner ++
        [⟨name, ⟨(PipelineContext.ofSource isFunction source).positionOf 0, nodes⟩⟩]) ∧
    ((∃ offset key, Tree.ofSource d isFunction name source = .error ⟨offset, .redefined key⟩) ↔
      Clash defs) ∧
    (¬ Clash defs → ∃ trees, Tree.ofSource d isFunction name source = .ok trees ∧
      Gathers trees defs ∧ name ∈ trees.keys) := by
  refine ⟨definitions_spelled h, ?_⟩
  obtain ⟨_, _, _, _, -, -, hdefs⟩ := definitions_spelled h
  have hgathers := gathers_empty.foldlM .nil defs
  rw [← ofSource_eq_foldlM h, List.nil_append, ← not_clash_iff, not_not] at hgathers
  cases hread : Tree.ofSource d isFunction name source with
  | ok trees =>
    rw [hread] at hgathers
    obtain ⟨hgathers, hclash⟩ := hgathers
    refine ⟨⟨nofun, fun h => absurd h hclash⟩, fun _ => ⟨trees, rfl, hgathers, ?_⟩⟩
    rw [hgathers.mem_keys, hdefs]
    exact ⟨_, List.mem_append_right _ (List.mem_singleton_self _), rfl⟩
  | error fault =>
    rw [hread] at hgathers
    obtain ⟨⟨t, -, rfl⟩, hclash⟩ := hgathers
    exact ⟨⟨fun _ => hclash, fun _ => ⟨_, _, rfl⟩⟩, fun h => absurd hclash h⟩

/-- A definition without content gives way to a block of its name within another definition. -/
theorem Tree.ofSource_gathers_of_block :
    let source := "a\x7b\x7bdefine \"x\"\x7d\x7d \x7b\x7bend\x7d\x7d" ++
      "\x7b\x7bdefine \"y\"\x7d\x7d\x7b\x7bblock \"x\" .\x7d\x7db\x7b\x7bend\x7d\x7d" ++
      "\x7b\x7bend\x7d\x7d"
    ∃ defs trees, Tree.definitions .braces (fun _ => false) "q" source = .ok defs ∧
      defs.map (fun t => (t.name, t.root.pos.offset)) =
        [("x", 1), ("x", 37), ("y", 23), ("q", 0)] ∧ ¬ Clash defs ∧
      Tree.ofSource .braces (fun _ => false) "q" source = .ok trees ∧ Gathers trees defs ∧
      trees.entries.map (fun e => (e.1, e.2.root.pos.offset)) =
        [("q", 0), ("x", 37), ("y", 23)] := by
  intro source
  have hnames : (Tree.definitions .braces (fun _ => false) "q" source).toOption.map
      (fun defs => (defs.map (fun t => (t.name, t.root.pos.offset)), decide (Clash defs))) =
      some ([("x", 1), ("x", 37), ("y", 23), ("q", 0)], false) := by
    decide +kernel
  have hkept : (Tree.ofSource .braces (fun _ => false) "q" source).toOption.map
      (fun trees => trees.entries.map (fun e => (e.1, e.2.root.pos.offset))) =
      some [("q", 0), ("x", 37), ("y", 23)] := by
    decide +kernel
  obtain ⟨defs, hsome, hparts⟩ := Option.map_eq_some_iff.mp hnames
  have hdefs := eq_ok_of_toOption hsome
  obtain ⟨hnames, hclash⟩ := Prod.mk.inj hparts
  obtain ⟨-, -, hread⟩ := Tree.ofSource_gathers hdefs
  obtain ⟨trees, htrees, hgathers, -⟩ := hread (of_decide_eq_false hclash)
  rw [htrees] at hkept
  exact ⟨defs, trees, hdefs, hnames, of_decide_eq_false hclash, htrees, hgathers,
    Option.some.inj hkept⟩

end Source

end SafeQuery
