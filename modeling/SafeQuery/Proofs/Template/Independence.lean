import SafeQuery.Proofs.Dict
import SafeQuery.Proofs.Template.Loading

/-!
# The order of sources

What a source adds to a set of definitions does not depend on the definitions that are there, and
what stands under a name behind it depends on nothing but this name, `merged`. So a source that is
loaded twice adds nothing the second time, `merged_merged`, and two sources can be loaded in either
order if they do not both have content, or both lack it, under one name, `merged_comm`.
-/

namespace SafeQuery

namespace Template

/-- However a set of definitions has been built, it is kept in the order of the names. -/
lemma Built.sorted {Added : Tree → Prop} {t : Template} (ht : t.Built Added) : t.trees.Sorted := by
  have hloads : KeptBySources fun t => t.trees.Sorted := by
    intro t u name source ht hsource
    obtain ⟨added, -, rfl⟩ := withSource_eq_ok.mp hsource
    exact installAll_sorted ht added
  induction ht with
  | new name => exact .nil
  | functions functions _ hok ih =>
    rw [trees_of_withFunctions hok]
    exact ih
  | option option _ hok ih =>
    rw [trees_of_withOption hok]
    exact ih
  | settings s _ ih =>
    rw [trees_apply]
    exact ih
  | source source _ ih => exact load_keeps (parse_keeps hloads source) ih
  | files disk paths _ ih => exact load_keeps (parseFiles_keeps hloads disk paths) ih
  | matching disk pattern _ ih => exact load_keeps (parseMatching_keeps hloads disk pattern) ih
  | texts source patterns _ ih => exact load_keeps (parseSource_keeps hloads source patterns) ih
  | tree name _ _ ih | copied name _ _ _ ih _ => exact Dict.insert_sorted ih _ _
  | named _ _ ih | delimiters _ _ _ ih | missingKey _ _ ih | encoder _ _ ih => exact ih

/-- A source that is loaded twice. -/
lemma merged_merged (old added : Option Tree) :
    merged (merged old added) added = merged old added := by
  cases added with
  | none => rfl
  | some t =>
    cases hempty : t.isEmpty with
    | false => simp [merged, hempty]
    | true => cases old <;> simp [merged, hempty]

/-- Two sources of which one has content and the other has none. -/
lemma merged_comm (old : Option Tree) {a b : Option Tree}
    (h : ∀ s t, a = some s → b = some t → s.isEmpty ≠ t.isEmpty) :
    merged (merged old a) b = merged (merged old b) a := by
  cases a with
  | none => rfl
  | some s =>
    cases b with
    | none => rfl
    | some t =>
      have hne := h s t rfl rfl
      cases hs : s.isEmpty with
      | false =>
        have ht : t.isEmpty = true := by simpa [hs] using hne
        cases old <;> simp [merged, hs, ht]
      | true =>
        have ht : t.isEmpty = false := by simpa [hs] using hne
        cases old <;> simp [merged, hs, ht]

/-- The same definitions stand under the same names. -/
def SameDefinitions (t u : Template) : Prop := ∀ name, t.trees.get? name = u.trees.get? name

/-- Two sources do not clash: under no name do both have content, and under no name do both have a
tree without content. -/
structure Apart (added₁ added₂ : Dict Tree) : Prop where
  content : ∀ name s t, added₁.get? name = some s → added₂.get? name = some t →
    ¬(s.isEmpty = false ∧ t.isEmpty = false)
  blank : ∀ name s t, added₁.get? name = some s → added₂.get? name = some t →
    ¬(s.isEmpty = true ∧ t.isEmpty = true)

section Order

variable {t : Template} {name name₁ name₂ source source₁ source₂ : String}
  {added added₁ added₂ : Dict Tree}

/-- Definitions in order that are the same are equal. -/
lemma eq_of_sameDefinitions {trees trees' : Dict Tree} (h : trees.Sorted) (h' : trees'.Sorted)
    (hsame : SameDefinitions { t with trees } { t with trees := trees' }) :
    { t with trees } = { t with trees := trees' } := by
  rw [Dict.eq_of_get?_eq h h' hsame]

lemma adding_twice (h : Tree.ofSource t.delimiters t.isCallable name source = .ok added) :
    ((t.adding added).adding added).SameDefinitions (t.adding added) := by
  intro key
  rw [@get?_adding (t.adding added) name source added h, get?_adding h, merged_merged]

/-- Trees that do not clash can be added in either order. -/
lemma adding_comm (h₁ : Tree.ofSource t.delimiters t.isCallable name₁ source₁ = .ok added₁)
    (h₂ : Tree.ofSource t.delimiters t.isCallable name₂ source₂ = .ok added₂)
    (h : Apart added₁ added₂) :
    ((t.adding added₁).adding added₂).SameDefinitions ((t.adding added₂).adding added₁) := by
  intro key
  rw [@get?_adding (t.adding added₁) name₂ source₂ added₂ h₂, get?_adding h₁,
    @get?_adding (t.adding added₂) name₁ source₁ added₁ h₁, get?_adding h₂]
  refine merged_comm _ fun s u hs hu heq => ?_
  cases hempty : s.isEmpty with
  | false => exact h.content key s u hs hu ⟨hempty, heq ▸ hempty⟩
  | true => exact h.blank key s u hs hu ⟨hempty, heq ▸ hempty⟩

lemma withSource_adding (h : Tree.ofSource t.delimiters t.isCallable name source = .ok added₂) :
    (t.adding added₁).withSource name source = .ok ((t.adding added₁).adding added₂) :=
  withSource_eq_ok.mpr ⟨added₂, h, rfl⟩

lemma withSources_two (h₁ : Tree.ofSource t.delimiters t.isCallable name₁ source₁ = .ok added₁)
    (h₂ : Tree.ofSource t.delimiters t.isCallable name₂ source₂ = .ok added₂) :
    t.withSources [(name₁, source₁), (name₂, source₂)] =
      .ok ((t.adding added₁).adding added₂) := by
  have hfirst : t.withSource name₁ source₁ = .ok (t.adding added₁) :=
    withSource_eq_ok.mpr ⟨added₁, h₁, rfl⟩
  calc t.withSources [(name₁, source₁), (name₂, source₂)]
      = (t.withSource name₁ source₁ >>= fun u => u.withSource name₂ source₂) := by
        simp [withSources]
    _ = .ok ((t.adding added₁).adding added₂) := by
        rw [hfirst]
        exact withSource_adding h₂

end Order

/-- A source that is loaded a second time under the same name has the same result and changes no
definition; and two sources that can be read and do not clash give the same definitions in either
order. In a set of definitions that has been built, the templates are equal. -/
theorem load_independent (t : Template) :
    (∀ name source, let (u, failure) := t.load (parseAs name source)
      let (v, failure') := u.load (parseAs name source)
      failure' = failure ∧ v.SameDefinitions u ∧ (t.Built (fun _ => True) → v = u)) ∧
    ∀ name₁ source₁ name₂ source₂ added₁ added₂,
      Tree.ofSource t.delimiters t.isCallable name₁ source₁ = .ok added₁ →
      Tree.ofSource t.delimiters t.isCallable name₂ source₂ = .ok added₂ →
      Apart added₁ added₂ →
        ∃ u v, t.withSources [(name₁, source₁), (name₂, source₂)] = .ok u ∧
          t.withSources [(name₂, source₂), (name₁, source₁)] = .ok v ∧
            u.SameDefinitions v ∧ (t.Built (fun _ => True) → u = v) := by
  constructor
  · intro name source
    rw [load_parseAs, follow]
    cases hread : t.withSource name source with
    | error e =>
      dsimp only
      rw [load_parseAs, follow, hread]
      exact ⟨rfl, fun _ => rfl, fun _ => rfl⟩
    | ok u =>
      obtain ⟨added, hadded, rfl⟩ := withSource_eq_ok.mp hread
      dsimp only [follow]
      rw [load_parseAs, follow, withSource_adding hadded]
      refine ⟨rfl, adding_twice hadded, fun ht => ?_⟩
      have hsorted := installAll_sorted ht.sorted added
      exact eq_of_sameDefinitions (installAll_sorted hsorted added) hsorted (adding_twice hadded)
  · intro name₁ source₁ name₂ source₂ added₁ added₂ h₁ h₂ hapart
    refine ⟨_, _, withSources_two h₁ h₂, withSources_two h₂ h₁, adding_comm h₁ h₂ hapart, ?_⟩
    intro ht
    have hsorted := ht.sorted
    exact eq_of_sameDefinitions (installAll_sorted (installAll_sorted hsorted added₁) added₂)
      (installAll_sorted (installAll_sorted hsorted added₂) added₁) (adding_comm h₁ h₂ hapart)

/-- The names of the definitions, and whether they are without content. -/
def blanks (trees : Dict Tree) : List (String × Bool) :=
  trees.entries.map fun e => (e.1, e.2.isEmpty)

lemma mem_blanks {trees : Dict Tree} {name : String} {tree : Tree}
    (h : trees.get? name = some tree) : (name, tree.isEmpty) ∈ blanks trees := by
  obtain ⟨e, hfind, rfl⟩ := Option.map_eq_some_iff.mp h
  obtain rfl : e.1 = name := by simpa using List.find?_some hfind
  exact List.mem_map.mpr ⟨e, List.mem_of_find?_eq_some hfind, rfl⟩

/-- Whether sources clash can be seen from the names of what they define, and from what is without
content. -/
lemma apart_of_blanks {added₁ added₂ : Dict Tree}
    (h : ∀ e₁ ∈ blanks added₁, ∀ e₂ ∈ blanks added₂, e₁.1 = e₂.1 → e₁.2 ≠ e₂.2) :
    Apart added₁ added₂ := by
  have hne : ∀ name s t, added₁.get? name = some s → added₂.get? name = some t →
      s.isEmpty ≠ t.isEmpty := fun name s t hs ht => h _ (mem_blanks hs) _ (mem_blanks ht) rfl
  constructor
  · rintro name s t hs ht ⟨hs', ht'⟩
    exact hne name s t hs ht (hs'.trans ht'.symm)
  · rintro name s t hs ht ⟨hs', ht'⟩
    exact hne name s t hs ht (hs'.trans ht'.symm)

/-- A source with a definition that has no content, and one that gives it content. The first leaves
the definitions of a template that has been built as they are when it is loaded again, and the two
can be loaded in either order. -/
theorem load_independent_of_definition :
    let t := ((new "q").load (parse "a")).1
    let blank := "\x7b\x7bdefine \"d\"\x7d\x7d \x7b\x7bend\x7d\x7db"
    let filled := "\x7b\x7bdefine \"d\"\x7d\x7dc\x7b\x7bend\x7d\x7d"
    (t.load (parseAs "q" blank)).1.load (parseAs "q" blank) = t.load (parseAs "q" blank) ∧
      ∃ u, t.withSources [("q", blank), ("f", filled)] = .ok u ∧
        t.withSources [("f", filled), ("q", blank)] = .ok u ∧
          blanks u.trees = [("d", false), ("f", true), ("q", false)] := by
  intro t blank filled
  have ht : t.Built fun _ => True := (Built.new "q").source "a"
  obtain ⟨htwice, horder⟩ := t.load_independent
  constructor
  · obtain ⟨hfailure, -, hsame⟩ := htwice "q" blank
    exact Prod.ext (hsame ht) hfailure
  · have hblank : ((Tree.ofSource t.delimiters t.isCallable "q" blank).toOption.map blanks) =
        some [("d", true), ("q", false)] := by decide +kernel
    have hfilled : ((Tree.ofSource t.delimiters t.isCallable "f" filled).toOption.map blanks) =
        some [("d", false), ("f", true)] := by decide +kernel
    have hboth : ((t.withSources [("q", blank), ("f", filled)]).toOption.map (blanks ·.trees)) =
        some [("d", false), ("f", true), ("q", false)] := by decide +kernel
    cases h₁ : Tree.ofSource t.delimiters t.isCallable "q" blank with
    | error fault =>
      rw [h₁] at hblank
      cases hblank
    | ok added₁ =>
      cases h₂ : Tree.ofSource t.delimiters t.isCallable "f" filled with
      | error fault =>
        rw [h₂] at hfilled
        cases hfilled
      | ok added₂ =>
        have hb₁ : blanks added₁ = [("d", true), ("q", false)] := by
          simpa [h₁, Except.toOption] using hblank
        have hb₂ : blanks added₂ = [("d", false), ("f", true)] := by
          simpa [h₂, Except.toOption] using hfilled
        have hapart : Apart added₁ added₂ := apart_of_blanks (by
          rw [hb₁, hb₂]
          decide)
        obtain ⟨u, v, hu, hv, -, hsame⟩ := horder "q" blank "f" filled added₁ added₂ h₁ h₂ hapart
        refine ⟨u, hu, hsame ht ▸ hv, ?_⟩
        rw [hu] at hboth
        simpa [Except.toOption] using hboth

end Template

end SafeQuery
