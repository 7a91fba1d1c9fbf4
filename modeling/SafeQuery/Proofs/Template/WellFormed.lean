import SafeQuery.Proofs.Execution.Regular
import SafeQuery.Proofs.Template.Built
import SafeQuery.Proofs.Tree.Exit

/-!
# Templates that have been loaded

A template that has been loaded has only trees of sources. All of its trees are well formed,
`Tree.IsWellFormed`, and no execution of it has an internal failure: `Loaded.isSound` is the
invariant of loading, in which the functions that the reader knew are still there, since none is
ever taken away.
-/

namespace SafeQuery

/-! ### Trees that are well formed -/

/-- A field or a chain has names, a chain stands on the name of a function or on a pipeline in
parentheses, and a numeral has a value. -/
def Operand.IsWellFormed : Operand → Prop
  | .number n           => n.int.isSome ∨ n.float.isSome
  | .field _ names      => names ≠ []
  | .chain _ base names => names ≠ [] ∧ base.takesFields = true
  | _                   => True

/-- The pipeline has commands and these have operands, and it gives its value to one variable
without fields at most, or to two if a loop goes over it. -/
structure Placed.IsWellFormed (q : Placed) : Prop where
  commands : q.pipe.commands ≠ []
  operands : ∀ c ∈ q.pipe.commands, c.operands ≠ []
  parts : ∀ c ∈ q.pipe.commands, ∀ o ∈ c.operands, o.IsWellFormed
  bare : ∀ v ∈ q.pipe.declared, v.fields = []
  declared : q.pipe.declared.length ≤ if q.ofLoop then 2 else 1

/-- All pipelines of the tree are well formed, and every exit stands in the body of a loop. -/
structure Tree.IsWellFormed (t : Tree) : Prop where
  pipes : ∀ q ∈ t.pipes, q.IsWellFormed
  exits : ∀ x ∈ t.exits, x.loops ≠ []

section WellFormed

variable {known : String → Bool}

/-- An operand that can be read is well formed. -/
lemma Operand.Readable.isWellFormed {scope : List String} {o : Operand}
    (h : o.Readable known scope) : o.IsWellFormed := by
  cases o with
  | number n =>
    obtain ⟨-, -, hvalue⟩ := h
    rw [Bool.and_eq_false_iff, Option.isNone_eq_false_iff, Option.isNone_eq_false_iff] at hvalue
    exact hvalue
  | field => exact h.1
  | chain => exact ⟨h.2.1.1, h.1⟩
  | identifier | dot | nil | bool | string | var | pipeline => trivial

lemma operandsReadable_isWellFormed {scope : List String} {os : List Operand}
    (h : operandsReadable known scope os) : ∀ o ∈ os, o.IsWellFormed := by
  induction os generalizing scope with
  | nil => simp
  | cons o os ih => exact List.forall_mem_cons.mpr ⟨h.1.isWellFormed, ih h.2⟩

lemma commandsReadable_isWellFormed {scope : List String} {cs : List Command}
    (h : commandsReadable known scope cs) :
    ∀ c ∈ cs, c.operands ≠ [] ∧ ∀ o ∈ c.operands, o.IsWellFormed := by
  induction cs generalizing scope with
  | nil => simp
  | cons c cs ih =>
    obtain ⟨hne, hos, hcs⟩ := h
    exact List.forall_mem_cons.mpr ⟨⟨hne, operandsReadable_isWellFormed hos⟩, ih hcs⟩

/-- A pipeline that can be read is well formed. -/
lemma Placed.IsReadable.isWellFormed {q : Placed} (h : q.IsReadable known) : q.IsWellFormed := by
  obtain ⟨hdeclarable, hne, -, hcommands⟩ := h
  have hall := commandsReadable_isWellFormed hcommands
  exact ⟨hne, fun c hc => (hall c hc).1, fun c hc => (hall c hc).2, hdeclarable.bare,
    hdeclarable.length⟩

end WellFormed

/-- The pipelines of the tree can be read when the functions are known, and every exit stands in the
body of a loop. -/
structure Tree.IsSound (known : String → Bool) (t : Tree) : Prop where
  pipes : AllReadable known t.pipes
  exits : ∀ x ∈ t.exits, x.loops ≠ []

lemma Tree.IsSound.isWellFormed {known : String → Bool} {t : Tree} (h : t.IsSound known) :
    t.IsWellFormed := ⟨fun q hq => (h.pipes q hq).isWellFormed, h.exits⟩

lemma Tree.IsSound.mono {known known' : String → Bool}
    (hknown : ∀ name, known name = true → known' name = true) {t : Tree} (h : t.IsSound known) :
    t.IsSound known' := ⟨fun q hq => (h.pipes q hq).mono hknown, h.exits⟩

/-- The trees of a source are sound with the calls of the encoder if the reader knew the encoder. -/
lemma ofSource_isSound {d : Delimiters} {isFunction : String → Bool} {name source : String}
    {trees : Dict Tree} (h : Tree.ofSource d isFunction name source = .ok trees)
    (hhook : isFunction hookName = true) :
    ∀ e ∈ trees.entries, e.2.withHooks.IsSound isFunction := by
  obtain ⟨items, -, hexits⟩ := ofSource_exits h
  intro e he
  refine ⟨fun q hq => ?_, fun x hx => ?_⟩
  · obtain ⟨q₀, hq₀, hhooked⟩ := e.2.pipes_withHooks q hq
    have hreadable := (ofSource_pipes h e he q₀ hq₀).isReadable
    rcases hhooked with rfl | rfl
    · exact hreadable
    · exact hreadable.withHook hhook
  · rw [Tree.exits_withHooks] at hx
    exact (hexits e he x hx).1

lemma Dict.contains_insertAll {α : Type} {d : Dict α} {k : String} (h : d.contains k = true)
    (es : List (String × α)) : (d.insertAll es).contains k = true := by
  unfold Dict.insertAll
  induction es generalizing d with
  | nil => exact h
  | cons e es ih =>
    refine ih ?_
    rw [Dict.contains_eq_isSome] at h ⊢
    rw [Dict.get?_insert]
    split
    · rfl
    · exact h

namespace Template

/-- A step that changes the settings, adds functions or loads sources. -/
inductive Loads : Template → Template → Prop where
  | named (t : Template) (name : String) : Loads t (t.withName name)
  | delimiters (t : Template) (left right : String) : Loads t (t.withDelimiters left right)
  | functions {t t' : Template} (functions : FunctionTable) :
      t.withFunctions functions = .ok t' → Loads t t'
  | option {t t' : Template} (option : String) : t.withOption option = .ok t' → Loads t t'
  | missingKey (t : Template) (policy : MissingKey) : Loads t (t.withMissingKey policy)
  | encoder (t : Template) (encoder : Encoder) : Loads t (t.withEncoder encoder)
  | settings (t : Template) (s : Settings) : Loads t (s.apply t)
  /-- A source is read, and what is read stays if the reading fails. -/
  | source (t : Template) (source : String) : Loads t (t.load (parse source)).1
  | files (t : Template) (disk : Disk) (paths : List String) :
      Loads t (t.load (parseFiles disk paths)).1
  | matching (t : Template) (disk : Disk) (pattern : String) :
      Loads t (t.load (parseMatching disk pattern)).1
  | texts (t : Template) (source : FileSource) (patterns : List String) :
      Loads t (t.load (parseSource source patterns)).1

/-- The template comes about from one without definitions, and all of its trees are trees of
sources. -/
inductive Loaded : Template → Prop where
  | new (name : String) : Loaded (new name)
  | step {t t' : Template} : Loaded t → Loads t t' → Loaded t'

/-! ### The invariant -/

/-- Every tree is sound for the functions that can be called. -/
def IsSound (t : Template) : Prop := t.AllNamed fun _ tree => tree.IsSound t.isCallable

/-- Functions can be called also when others have been added. -/
lemma isCallable_withFunctions {t t' : Template} {functions : FunctionTable}
    (h : t.withFunctions functions = .ok t') {name : String} (hname : t.isCallable name = true) :
    t'.isCallable name = true := by
  unfold withFunctions at h
  split at h
  · cases h
  · cases h
    simp only [isCallable, Bool.or_eq_true] at hname ⊢
    exact hname.imp_left fun h => h.imp_right fun h => Dict.contains_insertAll h _

lemma isSound_keptBySources : KeptBySources IsSound := by
  intro t t' name source ht hsource
  unfold withSource at hsource
  split at hsource
  · rename_i added hadded
    cases hsource
    exact installAll_all ht (ofSource_isSound hadded (by simp [isCallable]))
  · cases hsource

/-- Settings are delimiters and a policy for missing keys. -/
lemma apply_eq (s : Settings) (t : Template) :
    ∃ delimiters missingKey, s.apply t = { t with delimiters, missingKey } := by
  unfold Settings.apply
  split
  · cases s.missingKey <;> exact ⟨_, _, rfl⟩
  · cases s.missingKey <;> exact ⟨_, _, rfl⟩

/-- Trees and functions stay as they are. -/
lemma IsSound.of_same {t t' : Template} (h : t.IsSound) (htrees : t'.trees = t.trees)
    (hfunctions : t'.functions = t.functions) : t'.IsSound := by
  intro key tree hget
  rw [htrees] at hget
  have hcallable : t'.isCallable = t.isCallable := by
    funext name
    rw [isCallable, isCallable, hfunctions]
  rw [hcallable]
  exact h key tree hget

/-- One step keeps all trees sound. -/
lemma IsSound.step {t t' : Template} (h : t.IsSound) (hstep : Loads t t') : t'.IsSound := by
  cases hstep with
  | named | delimiters | missingKey | encoder => exact h
  | functions functions hok =>
    intro key tree hget
    rw [trees_of_withFunctions hok] at hget
    exact (h key tree hget).mono fun name => isCallable_withFunctions hok
  | option option hok =>
    refine h.of_same (trees_of_withOption hok) ?_
    unfold withOption at hok
    split at hok <;> cases hok
    rfl
  | settings s =>
    obtain ⟨_, _, heq⟩ := apply_eq s t
    rw [heq]
    exact h.of_same rfl rfl
  | source source => exact load_keeps (parse_keeps isSound_keptBySources source) h
  | files disk paths => exact load_keeps (parseFiles_keeps isSound_keptBySources disk paths) h
  | matching disk pattern =>
    exact load_keeps (parseMatching_keeps isSound_keptBySources disk pattern) h
  | texts source patterns =>
    exact load_keeps (parseSource_keeps isSound_keptBySources source patterns) h

/-- All trees of a template that has been loaded are sound. -/
theorem Loaded.isSound {t : Template} (ht : t.Loaded) : t.IsSound := by
  induction ht with
  | new name =>
    intro key tree hget
    cases hget
  | step _ hstep ih => exact ih.step hstep

/-! ### Execution -/

/-- The functions that the reader knows are there for an execution. -/
lemma provides_isCallable (t : Template) : t.environment.Provides t.isCallable := by
  intro name hname
  simp only [isCallable, Bool.or_eq_true, decide_eq_true_eq, Dict.contains_eq_isSome] at hname
  rw [or_assoc] at hname
  refine hname.imp_right fun hfunction => ?_
  show (t.functions.get? name).or (builtins.get? name) ≠ none
  rw [← Option.isSome_iff_ne_none, Option.isSome_or, Bool.or_eq_true]
  exact hfunction

/-- A sound set of definitions fails regularly. -/
lemma IsSound.run_regular {t : Template} (ht : t.IsSound) {key : String} {missing : Error}
    {data : Value} {room : Option Nat} {err : ExecutionError}
    (hmissing : ∀ err, missing ≠ .execution err)
    (h : (t.run (t.trees.get? key) missing data room).failure = some (.execution err)) :
    err.IsRegular := by
  unfold run at h
  split at h
  · exact absurd (Option.some.inj h) (hmissing err)
  · rename_i tree htree
    obtain ⟨err', herr, heq⟩ := Option.map_eq_some_iff.mp h
    cases heq
    exact Environment.execute_regular t.provides_isCallable
      (fun key tree htree => (ht key tree htree).pipes) htree herr

/-- All trees of a template that has been loaded are well formed, and no execution of it, whatever
its data are, has an internal failure. -/
theorem loaded_wellFormed {t : Template} (ht : t.Loaded) :
    (∀ key tree, t.trees.get? key = some tree → tree.IsWellFormed) ∧
      (∀ data room err, (t.execute data room).failure = some (.execution err) → err.IsRegular) ∧
      ∀ name data room err,
        (t.executeNamed name data room).failure = some (.execution err) → err.IsRegular := by
  refine ⟨fun key tree htree => (ht.isSound key tree htree).isWellFormed, ?_, ?_⟩
  · intro data room err h
    exact ht.isSound.run_regular (by simp) h
  · intro name data room err h
    exact ht.isSound.run_regular (by simp) h

/-- A loop with two variables that is left, and in it fields of a call. The template is executed
with more functions than it has been read with; for other data it fails, but not for an internal
cause. -/
theorem loaded_wellFormed_of_call :
    let first : Function := fun vs => .ok (vs.headD .null)
    let u : Template := { new "q" with functions := .ofList [("first", first)] }
    let source :=
      "\x7b\x7brange $i, $x := .\x7d\x7d\x7b\x7b$i\x7d\x7d:\x7b\x7b(first $x).id\x7d\x7d" ++
      "\x7b\x7bbreak\x7d\x7d\x7b\x7bend\x7d\x7d"
    let v := (u.load (parse source)).1
    let t : Template := { v with functions := v.functions.insertAll [("last", first)] }
    let rows := Value.list [.map (.ofList [("id", .int 7)]), .null]
    (t.Loaded ∧ (u.load (parse source)).2.isNone ∧ t.trees.keys = ["q"] ∧
        (t.execute rows none).sink.text = "0:7" ∧ (t.execute rows none).failure.isNone ∧
        (t.execute (.list [.int 1]) none).failure.isSome) ∧
      (∀ key tree, t.trees.get? key = some tree → tree.IsWellFormed) ∧
      (∀ data room err, (t.execute data room).failure = some (.execution err) → err.IsRegular) ∧
      ∀ name data room err,
        (t.executeNamed name data room).failure = some (.execution err) → err.IsRegular := by
  intro first u source v t rows
  have hfirst : nameFault? (Dict.ofList [("first", first)]).keys = none := by decide +kernel
  have hlast : nameFault? (Dict.ofList [("last", first)]).keys = none := by decide +kernel
  have hu : (new "q").withFunctions (.ofList [("first", first)]) = .ok u := by
    rw [withFunctions, hfirst]
    rfl
  have ht : v.withFunctions (.ofList [("last", first)]) = .ok t := by
    rw [withFunctions, hlast]
    rfl
  have hloaded : t.Loaded :=
    (((Loaded.new "q").step (.functions _ hu)).step (.source u source)).step (.functions _ ht)
  exact ⟨⟨hloaded, by decide +kernel, by decide +kernel, by decide +kernel, by decide +kernel,
    by decide +kernel⟩, loaded_wellFormed hloaded⟩

end Template

end SafeQuery
