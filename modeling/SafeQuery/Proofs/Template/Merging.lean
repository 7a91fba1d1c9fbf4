import SafeQuery.Proofs.Template.Built
import SafeQuery.Proofs.Tree.Conservation

/-!
# What a source adds to a set of definitions

A source defines trees under names, one after the other, and they are put together twice: by the
reader into the trees of the source, and then into the definitions that exist.
`ofSource_definitions` says that no definition of a source is lost in the first step, and `merged`
what stands under a name behind the second one, `get?_installAll`.
-/

namespace SafeQuery

/-- Every tree is still there, and one with content is the same. -/
def Retains (trees trees' : Dict Tree) : Prop :=
  ∀ name old, trees.get? name = some old →
    ∃ new, trees'.get? name = some new ∧ (old.isEmpty = false → new = old)

lemma Retains.refl (trees : Dict Tree) : Retains trees trees :=
  fun _ old h => ⟨old, h, fun _ => rfl⟩

lemma Retains.trans {trees₁ trees₂ trees₃ : Dict Tree} (h : Retains trees₁ trees₂)
    (h' : Retains trees₂ trees₃) : Retains trees₁ trees₃ := by
  intro name old hold
  obtain ⟨mid, hmid, hsame⟩ := h name old hold
  obtain ⟨new, hnew, hsame'⟩ := h' name mid hmid
  refine ⟨new, hnew, fun hcontent => ?_⟩
  obtain rfl := hsame hcontent
  exact hsame' hcontent

/-- Only a tree without content gives way to another one. -/
lemma retains_insert {trees : Dict Tree} {t : Tree}
    (h : ∀ old, trees.get? t.name = some old → old.isEmpty = true) :
    Retains trees (trees.insert t.name t) := by
  intro name old hold
  rw [Dict.get?_insert]
  split
  · rename_i hname
    subst hname
    exact ⟨t, rfl, fun hcontent => by simp [h old hold] at hcontent⟩
  · exact ⟨old, hold, fun _ => rfl⟩

/-- The definition is among the trees, or another one that stands for it since it has no content. -/
def Stands (trees : Dict Tree) (t : Tree) : Prop :=
  ∃ new, trees.get? t.name = some new ∧ (t.isEmpty = false → new = t)

/-- A definition takes nothing from the others, and it is there itself. -/
lemma addTree_retains {trees trees' : Dict Tree} {t : Tree} (h : addTree trees t = .ok trees') :
    Retains trees trees' ∧ Stands trees' t := by
  have hthere : Stands (trees.insert t.name t) t :=
    ⟨t, by rw [Dict.get?_insert, if_pos rfl], fun _ => rfl⟩
  unfold addTree at h
  split at h
  · rename_i hnone
    cases h
    exact ⟨retains_insert fun old hold => by simp [hnone] at hold, hthere⟩
  · rename_i old hold
    split_ifs at h with hempty hold'
    · cases h
      exact ⟨.refl _, old, hold, fun hcontent => by simp [hempty] at hcontent⟩
    · cases h
      refine ⟨retains_insert fun old' hget => ?_, hthere⟩
      rw [hold] at hget
      exact Option.some.inj hget ▸ hold'

lemma Stands.retained {trees trees' : Dict Tree} {t : Tree} (h : Stands trees t)
    (hkept : Retains trees trees') : Stands trees' t := by
  obtain ⟨new, hnew, hsame⟩ := h
  obtain ⟨last, hlast, hsame'⟩ := hkept _ _ hnew
  refine ⟨last, hlast, fun hcontent => ?_⟩
  obtain rfl := hsame hcontent
  exact hsame' hcontent

/-- However many definitions there are, each of them is there in the end. -/
lemma foldlM_addTree_retains {defs : List Tree} {trees trees' : Dict Tree}
    (h : defs.foldlM addTree trees = .ok trees') :
    Retains trees trees' ∧ ∀ t ∈ defs, Stands trees' t := by
  induction defs generalizing trees with
  | nil =>
    cases h
    exact ⟨.refl _, by simp⟩
  | cons t defs ih =>
    obtain ⟨next, ht, h⟩ := bind_eq_ok_iff.mp h
    obtain ⟨hkept, hthere⟩ := addTree_retains ht
    obtain ⟨hrest, hdefs⟩ := ih h
    exact ⟨hkept.trans hrest, List.forall_mem_cons.mpr ⟨hthere.retained hrest, hdefs⟩⟩

/-- Definitions are kept in the order of their names. -/
lemma foldlM_addTree_sorted {defs : List Tree} {trees trees' : Dict Tree}
    (h : defs.foldlM addTree trees = .ok trees') (hsorted : trees.Sorted) : trees'.Sorted := by
  induction defs generalizing trees with
  | nil =>
    cases h
    exact hsorted
  | cons t defs ih =>
    obtain ⟨next, ht, h⟩ := bind_eq_ok_iff.mp h
    exact ih h (addTree_content ht hsorted).1

section Source

variable {d : Delimiters} {isFunction : String → Bool} {name source : String} {trees : Dict Tree}

/-- The trees of a source are kept in the order of their names. -/
lemma ofSource_sorted (h : Tree.ofSource d isFunction name source = .ok trees) : trees.Sorted := by
  obtain ⟨_, _, defs, pos, _, -, -, htrees⟩ := ofSource_spelled h
  exact foldlM_addTree_sorted htrees .nil

/-- Definitions of a source: its items spell them, and the last one is the main one. -/
def DefinedBy (d : Delimiters) (isFunction : String → Bool) (name source : String)
    (defs : List Tree) : Prop :=
  ∃ (items : List Item) (nodes : List Node) (inner : List Tree) (pos : Position)
    (scope : List String), Item.ofSource d source = .ok items ∧
    Spells (.ofSource isFunction source) .main ["$"] items (.statements nodes) inner scope ∧
      defs = inner ++ [⟨name, ⟨pos, nodes⟩⟩]

/-- None of the definitions of a source is lost. -/
theorem ofSource_definitions (h : Tree.ofSource d isFunction name source = .ok trees) :
    ∃ defs, DefinedBy d isFunction name source defs ∧ ∀ t ∈ defs, Stands trees t := by
  obtain ⟨items, nodes, inner, pos, scope, hitems, hspelled, htrees⟩ := ofSource_spelled h
  exact ⟨_, ⟨items, nodes, inner, pos, scope, hitems, hspelled, rfl⟩,
    (foldlM_addTree_retains htrees).2⟩

end Source

namespace Template

/-- What stands under a name behind a source, given what stood there and what the source adds. -/
def merged (old : Option Tree) : Option Tree → Option Tree
  | none   => old
  | some t => if t.isEmpty && old.isSome then old else some t.withHooks

/-- A tree is merged with the one that has its key, and the others stay. -/
lemma get?_install (trees : Dict Tree) (key : String) (tree : Tree) (name : String) :
    (install trees key tree).get? name =
      if name = key then merged (trees.get? name) (some tree) else trees.get? name := by
  unfold install
  rw [Dict.contains_eq_isSome]
  by_cases hname : name = key
  · subst hname
    rw [if_pos rfl, merged]
    split
    · rfl
    · rw [Dict.get?_insert, if_pos rfl]
  · rw [if_neg hname]
    split
    · rfl
    · rw [Dict.get?_insert, if_neg hname]

/-- Under every name there is what stood there, merged with what is added. -/
lemma get?_installAll {trees added : Dict Tree} (h : added.Sorted) (name : String) :
    (installAll trees added).get? name = merged (trees.get? name) (added.get? name) := by
  obtain ⟨es⟩ := added
  rw [Dict.Sorted] at h
  rw [installAll]
  dsimp only at h ⊢
  induction es generalizing trees with
  | nil => rfl
  | cons e es ih =>
    obtain ⟨hfirst, hsorted⟩ := List.pairwise_cons.mp h
    rw [List.foldl_cons, ih hsorted, get?_install]
    by_cases hname : name = e.1
    · -- the names behind this one are greater
      have hnone : (Dict.mk es).get? name = none := by
        rw [Dict.get?, Option.map_eq_none_iff, List.find?_eq_none]
        intro e' he'
        have hlt := hfirst e' he'
        rw [← hname] at hlt
        simp only [decide_eq_true_eq]
        rintro rfl
        exact String.lt_irrefl _ hlt
      have hsome : (Dict.mk (e :: es)).get? name = some e.2 := by simp [Dict.get?, hname]
      rw [if_pos hname, hnone, hsome]
      rfl
    · have hsame : (Dict.mk (e :: es)).get? name = (Dict.mk es).get? name := by
        simp [Dict.get?, Ne.symm hname]
      rw [if_neg hname, hsame]

/-- Definitions are kept in the order of their names. -/
lemma installAll_sorted {trees : Dict Tree} (h : trees.Sorted) (added : Dict Tree) :
    (installAll trees added).Sorted := by
  unfold installAll
  generalize added.entries = es
  induction es generalizing trees with
  | nil => exact h
  | cons e es ih =>
    refine ih ?_
    simp only [install]
    split
    · exact h
    · exact Dict.insert_sorted h _ _

/-- The template with the trees of a source among its definitions. -/
def adding (t : Template) (added : Dict Tree) : Template :=
  { t with trees := installAll t.trees added }

section Source

variable {t u : Template} {name source : String}

/-- A source that can be read adds its trees, and nothing else changes. -/
lemma withSource_eq_ok : t.withSource name source = .ok u ↔
    ∃ added, Tree.ofSource t.delimiters t.isCallable name source = .ok added ∧
      u = t.adding added := by
  unfold withSource
  cases hread : Tree.ofSource t.delimiters t.isCallable name source with
  | error fault => simp
  | ok added => simp [adding, eq_comm]

/-- What stands under a name behind a source. -/
lemma get?_adding {added : Dict Tree}
    (h : Tree.ofSource t.delimiters t.isCallable name source = .ok added) (key : String) :
    (t.adding added).trees.get? key = merged (t.trees.get? key) (added.get? key) :=
  get?_installAll (ofSource_sorted h) key

end Source

end Template

end SafeQuery
