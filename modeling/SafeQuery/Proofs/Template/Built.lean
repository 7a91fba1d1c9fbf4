import Mathlib.Tactic.Common
import SafeQuery.Proofs.Tree.Reading
import SafeQuery.Settings.Basic

/-!
# Templates that can be built

A set of definitions is built from an empty one by setting its options, by loading sources, whether
that succeeds or fails, and by adding trees. `Template.Built` are the sets that come about in this
way. Every definition of such a set is guarded: none of its actions writes a value that has not
passed the encoder.
-/

namespace SafeQuery

namespace Load

variable {α β : Type} {I : Template → Prop}

/-- The computation keeps a property of templates, also if it fails. -/
def Keeps (I : Template → Prop) (act : Load α) : Prop := ∀ t, I t → I (act.run.run t).2

lemma run_bind (act : Load α) (k : α → Load β) (t : Template) :
    (act >>= k).run.run t =
      match act.run.run t with
      | (.ok a, t')    => (k a).run.run t'
      | (.error e, t') => (.error e, t') := by
  simp only [ExceptT.run_bind, StateT.run_bind]
  rcases act.run.run t with ⟨_ | a, t'⟩ <;> rfl

lemma keeps_pure (a : α) : Keeps I (pure a) := fun _ h => h

lemma keeps_throw (e : Error) : Keeps I (throw e : Load α) := fun _ h => h

lemma keeps_get : Keeps I (get : Load Template) := fun _ h => h

lemma keeps_lift (x : Except Error α) : Keeps I (liftM x : Load α) := by
  intro t h
  cases x <;> exact h

lemma keeps_bind {act : Load α} {k : α → Load β} (ha : Keeps I act) (hk : ∀ a, Keeps I (k a)) :
    Keeps I (act >>= k) := by
  intro t h
  have hact := ha t h
  rw [run_bind]
  rcases hrun : act.run.run t with ⟨_ | a, t'⟩
  · rw [hrun] at hact
    exact hact
  · rw [hrun] at hact
    exact hk a t' hact

lemma keeps_forM {xs : List α} {k : α → Load PUnit} (h : ∀ x ∈ xs, Keeps I (k x)) :
    Keeps I (xs.forM k) := by
  induction xs with
  | nil => exact keeps_pure _
  | cons x xs ih =>
    apply keeps_bind (h x List.mem_cons_self)
    intro _
    exact ih fun y hy => h y (List.mem_cons_of_mem _ hy)

/-- A computation for each of the parts, of which there has to be one. -/
lemma keeps_forAny {xs : List α} {k : α → Load PUnit} (e : Error) (h : ∀ x, Keeps I (k x)) :
    Keeps I (do
      if xs.isEmpty then throw e
      xs.forM k) := by
  dsimp only
  split
  · exact keeps_bind (keeps_throw e) fun _ => keeps_forM fun x _ => h x
  · exact keeps_forM fun x _ => h x

end Load

namespace Template

section Loading

/-- Reading a source keeps the property. -/
def KeptBySources (I : Template → Prop) : Prop :=
  ∀ (t t' : Template) (name source : String), I t → t.withSource name source = .ok t' → I t'

variable {I : Template → Prop}

/-- A property of the settings is kept. -/
lemma keptBySources_of_settings
    (h : ∀ (t : Template) (trees : Dict Tree), I t → I { t with trees }) : KeptBySources I := by
  intro t t' name source ht hsource
  unfold withSource at hsource
  split at hsource
  · cases hsource
    exact h t _ ht
  · cases hsource

/-- Reading a source under a name keeps what sources keep. -/
lemma parseAs_keeps (hI : KeptBySources I) (name source : String) :
    Load.Keeps I (parseAs name source) := by
  intro t ht
  have hget : (get : Load Template).run.run t = (.ok t, t) := rfl
  unfold parseAs
  rw [Load.run_bind, hget]
  dsimp only
  cases h : t.withSource name source with
  | error e => exact ht
  | ok t' => exact hI t t' name source ht h

lemma parse_keeps (hI : KeptBySources I) (source : String) : Load.Keeps I (parse source) :=
  Load.keeps_bind Load.keeps_get fun t => parseAs_keeps hI t.name source

lemma parseFiles_keeps (hI : KeptBySources I) (disk : Disk) (paths : List String) :
    Load.Keeps I (parseFiles disk paths) := by
  refine Load.keeps_forAny _ ?_
  intro path
  split
  · exact parseAs_keeps hI _ _
  · exact Load.keeps_throw _

lemma parseMatching_keeps (hI : KeptBySources I) (disk : Disk) (pattern : String) :
    Load.Keeps I (parseMatching disk pattern) :=
  Load.keeps_bind (Load.keeps_lift _) fun paths => parseFiles_keeps hI disk paths

lemma parseNamed_keeps (hI : KeptBySources I) (source : FileSource) (name : String) :
    Load.Keeps I (parseNamed source name) := by
  unfold parseNamed
  split
  · exact parseAs_keeps hI _ _
  · exact Load.keeps_throw _

lemma parseSource_keeps (hI : KeptBySources I) (source : FileSource) (patterns : List String) :
    Load.Keeps I (parseSource source patterns) := by
  refine Load.keeps_forAny _ ?_
  intro pattern
  refine Load.keeps_bind (Load.keeps_lift _) ?_
  intro names
  exact Load.keeps_forM fun name _ => parseNamed_keeps hI source name

/-- What a template is like behind a computation that has been carried out. -/
lemma load_keeps {act : Load Unit} (h : Load.Keeps I act) {t : Template} (ht : I t) :
    I (t.load act).1 := by
  have hfst : (t.load act).1 = (act.run.run t).2 := by
    unfold load
    split
    all_goals
      rename_i hrun
      exact congrArg Prod.snd hrun.symm
  rw [hfst]
  exact h t ht

end Loading

section Settings

variable {t t' : Template}

lemma trees_of_withFunctions {functions : FunctionTable} (h : t.withFunctions functions = .ok t') :
    t'.trees = t.trees := by
  unfold withFunctions at h
  split at h
  · cases h
  · cases h
    rfl

lemma trees_of_withOption {option : String} (h : t.withOption option = .ok t') :
    t'.trees = t.trees := by
  unfold withOption at h
  split at h
  · cases h
    rfl
  · cases h

/-- Settings leave the trees as they are. -/
lemma trees_apply (s : Settings) (t : Template) : (s.apply t).trees = t.trees := by
  have hdelimiters : ∀ b : Bool, (if b = true then
      t.withDelimiters (s.left.getD "") (s.right.getD "") else t).trees = t.trees := by
    intro b
    cases b <;> rfl
  unfold Settings.apply
  cases s.missingKey with
  | none => exact hdelimiters _
  | some policy => exact hdelimiters _

end Settings

/-! ### Sets of definitions -/

/-- The template comes about from one without definitions: by settings, by loading, and by adding
trees of the kind or of other templates. -/
inductive Built (Added : Tree → Prop) : Template → Prop where
  | new (name : String) : Built Added (new name)
  | named {t : Template} (name : String) : Built Added t → Built Added (t.withName name)
  | delimiters {t : Template} (left right : String) :
      Built Added t → Built Added (t.withDelimiters left right)
  | functions {t t' : Template} (functions : FunctionTable) :
      Built Added t → t.withFunctions functions = .ok t' → Built Added t'
  | option {t t' : Template} (option : String) :
      Built Added t → t.withOption option = .ok t' → Built Added t'
  | missingKey {t : Template} (policy : MissingKey) :
      Built Added t → Built Added (t.withMissingKey policy)
  | encoder {t : Template} (encoder : Encoder) :
      Built Added t → Built Added (t.withEncoder encoder)
  | settings {t : Template} (s : Settings) : Built Added t → Built Added (s.apply t)
  /-- A source is read, and what is read stays if the reading fails. -/
  | source {t : Template} (source : String) :
      Built Added t → Built Added (t.load (parse source)).1
  | files {t : Template} (disk : Disk) (paths : List String) :
      Built Added t → Built Added (t.load (parseFiles disk paths)).1
  | matching {t : Template} (disk : Disk) (pattern : String) :
      Built Added t → Built Added (t.load (parseMatching disk pattern)).1
  | texts {t : Template} (source : FileSource) (patterns : List String) :
      Built Added t → Built Added (t.load (parseSource source patterns)).1
  | tree {t : Template} (name : String) {tree : Tree} :
      Built Added t → Added tree → Built Added (t.withTree name tree)
  | copied {t u : Template} (name : String) {key : String} {tree : Tree} :
      Built Added t → Built Added u → u.trees.get? key = some tree →
        Built Added (t.withTree name tree)

def AllTrees (P : Tree → Prop) (t : Template) : Prop :=
  ∀ name tree, t.trees.get? name = some tree → P tree

/-- No action of the template writes a value that has not passed the encoder. -/
def IsGuarded (t : Template) : Prop := t.AllTrees Tree.IsGuarded

section Definitions

variable {R : String → Tree → Prop}

def AllNamed (R : String → Tree → Prop) (t : Template) : Prop :=
  ∀ name tree, t.trees.get? name = some tree → R name tree

/-- Trees get their calls of the encoder when they are added. -/
lemma installAll_all {trees added : Dict Tree}
    (htrees : ∀ name tree, trees.get? name = some tree → R name tree)
    (hadded : ∀ e ∈ added.entries, R e.1 e.2.withHooks) :
    ∀ name tree, (installAll trees added).get? name = some tree → R name tree := by
  unfold installAll
  generalize added.entries = es at hadded
  induction es generalizing trees with
  | nil => exact htrees
  | cons e es ih =>
    refine ih ?_ fun d hd => hadded d (List.mem_cons_of_mem _ hd)
    intro name tree hget
    simp only [install] at hget
    split at hget
    · exact htrees name tree hget
    · rw [Dict.get?_insert] at hget
      split at hget
      · rename_i hname
        cases hget
        exact hname ▸ hadded e List.mem_cons_self
      · exact htrees name tree hget

lemma AllNamed.withTree {t : Template} (h : t.AllNamed R) {name : String} {tree : Tree}
    (htree : R name { tree with name }.withHooks) : (t.withTree name tree).AllNamed R := by
  intro key found hget
  rw [Template.withTree, Dict.get?_insert] at hget
  split at hget
  · rename_i hkey
    cases hget
    exact hkey ▸ htree
  · exact h key found hget

/-- The trees of every source are good when they have their calls of the encoder. -/
def GoodWhenRead (R : String → Tree → Prop) : Prop :=
  ∀ (d : Delimiters) (isFunction : String → Bool) (name source : String) (added : Dict Tree),
    Tree.ofSource d isFunction name source = .ok added → ∀ e ∈ added.entries, R e.1 e.2.withHooks

/-- If the trees of sources are good when they are read, sources keep all trees good. -/
lemma allNamed_keptBySources (hread : GoodWhenRead R) : KeptBySources (AllNamed R) := by
  intro t t' name source ht hsource
  unfold withSource at hsource
  split at hsource
  · rename_i added hadded
    cases hsource
    exact installAll_all ht (hread _ _ _ _ _ hadded)
  · cases hsource

/-- What holds of the trees of sources, of the trees that are added and of copies of trees of which
it holds, holds of all trees of a set of definitions. -/
theorem Built.allNamed {Added : Tree → Prop} (hread : GoodWhenRead R)
    (hadded : ∀ name tree, Added tree → R name { tree with name }.withHooks)
    (hcopied : ∀ key name tree, R key tree → R name { tree with name }.withHooks)
    {t : Template} (ht : t.Built Added) : t.AllNamed R := by
  have hloads := allNamed_keptBySources hread
  induction ht with
  | new name =>
    intro key tree hget
    cases hget
  | named name _ ih => exact ih
  | delimiters left right _ ih => exact ih
  | functions functions _ hok ih =>
    intro key tree hget
    rw [trees_of_withFunctions hok] at hget
    exact ih key tree hget
  | option option _ hok ih =>
    intro key tree hget
    rw [trees_of_withOption hok] at hget
    exact ih key tree hget
  | missingKey policy _ ih => exact ih
  | encoder encoder _ ih => exact ih
  | settings s _ ih =>
    intro key tree hget
    rw [trees_apply] at hget
    exact ih key tree hget
  | source source _ ih => exact load_keeps (parse_keeps hloads source) ih
  | files disk paths _ ih => exact load_keeps (parseFiles_keeps hloads disk paths) ih
  | matching disk pattern _ ih => exact load_keeps (parseMatching_keeps hloads disk pattern) ih
  | texts source patterns _ ih => exact load_keeps (parseSource_keeps hloads source patterns) ih
  | tree name _ hnew ih => exact ih.withTree (hadded name _ hnew)
  | copied name _ _ hget ih ihu => exact ih.withTree (hcopied _ name _ (ihu _ _ hget))

end Definitions

/-- Every tree of a set of definitions is guarded, if the trees that are added to it have actions
with values only. -/
theorem Built.isGuarded {Added : Tree → Prop} (hAdded : ∀ tree, Added tree → tree.IsComplete)
    {t : Template} (ht : t.Built Added) : t.IsGuarded := by
  refine Built.allNamed (R := fun _ => Tree.IsGuarded) ?_ ?_ ?_ ht
  · intro d isFunction name source added h e he
    exact (ofSource_isComplete h he).withHooks
  · intro name tree h
    exact Tree.IsComplete.withHooks (t := { tree with name }) (hAdded tree h)
  · intro key name tree h
    exact Tree.IsComplete.withHooks (t := { tree with name }) h.isComplete

end Template

end SafeQuery
