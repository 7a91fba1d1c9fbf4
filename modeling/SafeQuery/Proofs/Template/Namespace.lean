import Mathlib.Tactic.Common
import SafeQuery.Proofs.Execution.Hook
import SafeQuery.Proofs.Template.Built

/-!
# Sets of definitions are in order

However a set of definitions has been built, its trees stand under their own names and have all
their calls of the encoder, its delimiters are not empty, and its functions can be called and do
not take the name of the encoder. `Built.isOrderly` is the induction over the ways to build it.
-/

namespace SafeQuery

/-! ### Trees under their names -/

/-- Every tree stands under its own name. -/
def TreesNamed (trees : Dict Tree) : Prop := ∀ e ∈ trees.entries, e.2.name = e.1

namespace Nesting

/-- Only closing a definition or a block adds a tree. -/
lemma treesNamed_step {ctx : PipelineContext} {n n' : Nesting} {item : Item}
    (h : TreesNamed n.trees) (hstep : Step ctx n item n') : TreesNamed n'.trees := by
  cases hstep with
  | closeDefinition _ _ htrees => exact addTree_keeps htrees rfl h
  | closeBlock _ _ htrees =>
    rw [trees_add]
    exact addTree_keeps htrees rfl h
  | enterBranch | enterDefinition | enterBlock | turn | turnTo => exact h
  | _ =>
    rw [trees_add]
    exact h

end Nesting

/-- The trees of a source stand under their own names. -/
theorem ofSource_named {d : Delimiters} {isFunction : String → Bool} {name source : String}
    {trees : Dict Tree} (h : Tree.ofSource d isFunction name source = .ok trees) :
    TreesNamed trees := by
  obtain ⟨items, n, pos, -, hn, -, hmain⟩ := ofSource_eq_ok h
  have hstart : TreesNamed Nesting.start.trees := by simp [TreesNamed, Nesting.start, Dict.empty]
  have hnamed : TreesNamed n.trees :=
    Nesting.foldlM_addItem_keeps (I := fun n => TreesNamed n.trees) hstart
      (fun _ h hstep => Nesting.treesNamed_step h hstep) hn
  exact Nesting.addTree_keeps hmain rfl hnamed

/-! ### Functions -/

lemma Dict.mem_insertAll {α : Type} {d : Dict α} {es : List (String × α)} {e : String × α}
    (h : e ∈ (d.insertAll es).entries) : e ∈ es ∨ e ∈ d.entries := by
  induction es generalizing d with
  | nil => exact Or.inr h
  | cons e' es ih =>
    rcases ih h with h | h
    · exact Or.inl (List.mem_cons_of_mem _ h)
    · rcases Dict.mem_insertEntry h with rfl | h
      · exact Or.inl List.mem_cons_self
      · exact Or.inr h

namespace Template

variable {t t' : Template}

/-- The names can be called and are not the name of the encoder. -/
def NamesCallable (names : List String) : Prop :=
  ∀ name ∈ names, isName name = true ∧ name ≠ hookName

/-- Names without fault can be called and are not the name of the encoder. -/
lemma nameFault?_eq_none {names : List String} (h : nameFault? names = none) :
    NamesCallable names := by
  induction names with
  | nil => simp [NamesCallable]
  | cons n ns ih =>
    simp only [nameFault?] at h
    split_ifs at h with hhook hname
    refine List.forall_mem_cons.mpr ⟨⟨?_, hhook⟩, ih h⟩
    simpa using hname

/-- Functions are added only if their names can be called. -/
lemma namesCallable_withFunctions {functions : FunctionTable}
    (h : NamesCallable t.functions.keys) (hok : t.withFunctions functions = .ok t') :
    NamesCallable t'.functions.keys := by
  unfold withFunctions at hok
  split at hok
  · cases hok
  · rename_i hnone
    cases hok
    have hnew : NamesCallable functions.keys := nameFault?_eq_none hnone
    intro name hname
    obtain ⟨e, he, rfl⟩ := List.mem_map.mp hname
    rcases Dict.mem_insertAll he with he | he
    · exact hnew _ (List.mem_map_of_mem he)
    · exact h _ (List.mem_map_of_mem he)

lemma get?_hookName {functions : FunctionTable} (h : NamesCallable functions.keys) :
    functions.get? hookName = none := by
  rw [Dict.get?, Option.map_eq_none_iff, List.find?_eq_none]
  intro e he heq
  exact (h e.1 (List.mem_map_of_mem he)).2 (by simpa using heq)

/-! ### Settings -/

/-- Neither mark around an action is empty. -/
def DelimitersSet (d : Delimiters) : Prop := d.left ≠ "" ∧ d.right ≠ ""

/-- Braces stand for empty marks, so neither mark is empty. -/
lemma delimitersSet_ofTexts (left right : String) : DelimitersSet (.ofTexts left right) := by
  simp only [DelimitersSet, Delimiters.ofTexts, Delimiters.braces]
  constructor
  · split
    · decide
    · rename_i h
      simpa using h
  · split
    · decide
    · rename_i h
      simpa using h

/-- What is asked of the settings. -/
def SettingsOrderly (t : Template) : Prop :=
  DelimitersSet t.delimiters ∧ NamesCallable t.functions.keys

lemma SettingsOrderly.apply (h : t.SettingsOrderly) (s : Settings) :
    (s.apply t).SettingsOrderly := by
  unfold Settings.apply
  cases s.left.isSome || s.right.isSome with
  | false => cases s.missingKey <;> exact h
  | true => cases s.missingKey <;> exact ⟨delimitersSet_ofTexts _ _, h.2⟩

/-- However a set of definitions has been built, its settings are in order. -/
theorem Built.settingsOrderly {Added : Tree → Prop} (ht : t.Built Added) : t.SettingsOrderly := by
  have hloads : KeptBySources SettingsOrderly := keptBySources_of_settings fun _ _ h => h
  induction ht with
  | new name =>
    have hbraces : DelimitersSet .braces := ⟨by decide, by decide⟩
    exact ⟨hbraces, by simp [NamesCallable, Dict.keys, Template.new, Dict.empty]⟩
  | delimiters left right _ ih => exact ⟨delimitersSet_ofTexts left right, ih.2⟩
  | @functions t t' functions _ hok ih =>
    have hsame : t'.delimiters = t.delimiters := by
      unfold withFunctions at hok
      split at hok
      · cases hok
      · cases hok
        rfl
    exact ⟨hsame ▸ ih.1, namesCallable_withFunctions ih.2 hok⟩
  | option option _ hok ih =>
    unfold withOption at hok
    split at hok
    · cases hok
      exact ih
    · cases hok
  | settings s _ ih => exact ih.apply s
  | source source _ ih => exact load_keeps (parse_keeps hloads source) ih
  | files disk paths _ ih => exact load_keeps (parseFiles_keeps hloads disk paths) ih
  | matching disk pattern _ ih => exact load_keeps (parseMatching_keeps hloads disk pattern) ih
  | texts source patterns _ ih => exact load_keeps (parseSource_keeps hloads source patterns) ih
  | named _ _ ih | missingKey _ _ ih | encoder _ _ ih | tree _ _ _ ih | copied _ _ _ _ ih _ =>
    exact ih

/-! ### The set of definitions -/

/-- What holds of every set of definitions. -/
structure IsOrderly (t : Template) : Prop where
  /-- Every tree stands under its own name. -/
  named : t.AllNamed fun name tree => tree.name = name
  /-- Every tree has all its calls of the encoder. -/
  hooked : t.AllNamed fun _ tree => tree.withHooks = tree
  /-- Neither delimiter is empty. -/
  delimited : t.delimiters.left ≠ "" ∧ t.delimiters.right ≠ ""
  /-- Every function can be called, and none has the name of the encoder. -/
  callable : ∀ name ∈ t.functions.keys, isName name = true ∧ name ≠ hookName

/-- The literal of a value as the result of a command, or the failure of the encoder at its place. -/
def literalOf (t : Template) (place : Place) (v : Value) (s : Scope) :
    Except ExecutionError (Value × Scope) :=
  match t.encoder v with
  | .ok sql      => .ok (.raw sql, s)
  | .error cause => .error (.encoding place cause)

/-- Where the template is executed, no function stands under the name of the encoder, and a call of
the encoder, by the name alone or like a function, makes the literal of the value before it. -/
def CallsEncoder (t : Template) : Prop :=
  (t.functions.get? hookName).or (builtins.get? hookName) = none ∧
    ∀ f : Frame, f.env = t.environment → ∀ (c source : Command) (v : Value) (s : Scope),
      (c.isBare hookName = true → (f.evalNext (some (source, v)) c).run s =
          t.literalOf (f.placeAt source.pos source.print) v s) ∧
        (f.call c hookName [] (some v)).run s = t.literalOf (f.placeAt c.pos c.print) v s

lemma callsEncoder_of_namesCallable (h : NamesCallable t.functions.keys) : t.CallsEncoder := by
  constructor
  · rw [get?_hookName h]
    decide
  · intro f hf c source v s
    have hencode : ∀ c' : Command, ((liftM (f.encode c' v) : Eval Value)).run s =
        t.literalOf (f.placeAt c'.pos c'.print) v s := by
      intro c'
      simp only [Frame.encode, literalOf, hf, environment]
      cases t.encoder v <;> rfl
    constructor
    · intro hbare
      rw [Frame.evalNext, if_pos hbare]
      exact hencode source
    · simp only [Frame.call, if_true]
      exact hencode c

/-- However a set of definitions has been built, with steps that succeed or fail and with any trees
added, it is in order, so that calls of the encoder find the encoder that has been set. The same
holds of every template that is looked up in it. -/
theorem Built.isOrderly (ht : t.Built fun _ => True) :
    (t.IsOrderly ∧ t.CallsEncoder) ∧
      ∀ name u, t.lookup? name = some u → u.IsOrderly ∧ u.CallsEncoder := by
  have hall : ∀ {u : Template}, (u.Built fun _ => True) → u.IsOrderly ∧ u.CallsEncoder := by
    intro u hu
    obtain ⟨hdelimited, hcallable⟩ := hu.settingsOrderly
    have hnamed : u.AllNamed fun name tree => tree.name = name :=
      hu.allNamed (fun _ _ _ _ _ h e he => ofSource_named h e he) (fun _ _ _ => rfl)
        (fun _ _ _ _ => rfl)
    have hhooked : u.AllNamed fun _ tree => tree.withHooks = tree :=
      hu.allNamed (fun _ _ _ _ _ _ e _ => e.2.withHooks_withHooks)
        (fun _ _ _ => Tree.withHooks_withHooks _) (fun _ _ _ _ => Tree.withHooks_withHooks _)
    exact ⟨⟨hnamed, hhooked, hdelimited, hcallable⟩, callsEncoder_of_namesCallable hcallable⟩
  refine ⟨hall ht, ?_⟩
  intro name u hu
  unfold lookup? at hu
  split at hu
  · cases hu
    exact hall (ht.named name)
  · cases hu

/-- A set of definitions with a function and a delimiter of its own, into which a tree of another
name without a call of the encoder has been copied. -/
theorem isOrderly_of_copy :
    let one : FunctionTable := Dict.empty.insert "one" fun _ => .ok (.int 1)
    let at₀ : Position := ⟨0, 1⟩
    let tree : Tree := ⟨"other", at₀, [.action at₀ ⟨at₀, false, [], [⟨at₀, [.dot at₀]⟩]⟩]⟩
    ∃ t u : Template, ((new "q").withDelimiters "<" "").withFunctions one = .ok u ∧
      t = (u.load (parse "a<one\x7d\x7d<define \"d\"\x7d\x7db<end\x7d\x7d")).1.withTree "copy" tree ∧
      t.Built (fun _ => True) ∧ t.trees.keys = ["copy", "d", "q"] ∧
      (t.IsOrderly ∧ t.CallsEncoder) := by
  intro one at₀ tree
  refine ⟨_, _, rfl, rfl, ?_⟩
  have hnew : ((new "q").withDelimiters "<" "").Built fun _ => True := .delimiters _ _ (.new "q")
  have hread := (hnew.functions one rfl).source "a<one\x7d\x7d<define \"d\"\x7d\x7db<end\x7d\x7d"
  have ht := @Built.tree _ _ "copy" tree hread trivial
  exact ⟨ht, by decide +kernel, ht.isOrderly.1⟩

end Template

end SafeQuery
