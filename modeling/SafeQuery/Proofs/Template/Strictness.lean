import SafeQuery.Proofs.Execution.Agreement

/-!
# The strict policy for missing keys

An execution under the policy that fails at a missing key goes along with the one under any other
policy until a field is taken that a map does not have, and then it fails. So the strict policy
turns some executions into failures, and changes nothing else: `executeNamed_strict`.
-/

namespace SafeQuery

def ExecutionError.IsMissingKey (e : ExecutionError) : Prop :=
  ∃ place key, e = .fault place (.missingKey key)

def Environment.withMissingKey (env : Environment) (policy : MissingKey) : Environment :=
  { env with missingKey := policy }

/-- A field has the same value under the strict policy as under another one, unless the key is
missing. -/
lemma Frame.fieldValue_strict (policy : MissingKey) (env : Environment) (template : String)
    (dot : Value) (o : Operand) (hasArguments : Bool) (receiver : Value) (name : String) :
    Eval.AlikeBut ExecutionError.IsMissingKey
      (liftM (Frame.fieldValue ⟨env.withMissingKey .error, template, dot⟩ o hasArguments receiver
        name))
      (liftM (Frame.fieldValue ⟨env.withMissingKey policy, template, dot⟩ o hasArguments receiver
        name)) := by
  intro s
  cases receiver with
  | map d =>
    simp only [fieldValue, Environment.withMissingKey]
    split
    · exact .inl rfl
    · cases d.get? name with
      | some v => exact .inl rfl
      | none =>
        -- only here the strict policy makes a difference
        exact .inr ⟨_, ⟨_, name, rfl⟩, rfl⟩
  | null | bool _ | int _ | float _ | bytes _ | string _ | time _ | raw _ | identifier _ | list _
  | valuer _ => exact .inl rfl

/-- The environments with the strict policy and with another one agree, up to missing keys. -/
lemma Environment.agrees_strict (policy : MissingKey) (env : Environment) (first : Tree) :
    (env.withMissingKey .error).Agrees ExecutionError.IsMissingKey
      (env.withMissingKey policy) first where
  encoder := rfl
  field := Frame.fieldValue_strict policy env
  trees _ _ := rfl
  functions _ _ := rfl

namespace Template

/-- The first rendering is the second one, or it has failed at a missing key and has written the
beginning of what the second one has written. -/
def Rendering.StricterThan (strict lenient : Rendering) : Prop :=
  strict = lenient ∨
    (∃ place key, strict.failure = some (.execution (.fault place (.missingKey key)))) ∧
      strict.sink.bytes <+: lenient.sink.bytes

/-- A run that is strict about missing keys is the same or fails earlier. -/
lemma run_strict (policy : MissingKey) (t : Template) (tree? : Option Tree) (missing : Error)
    (data : Value) (room : Option Nat) :
    ((t.withMissingKey .error).run tree? missing data room).StricterThan
      ((t.withMissingKey policy).run tree? missing data room) := by
  cases tree? with
  | none => exact .inl rfl
  | some tree =>
    have hagrees := t.environment.agrees_strict policy tree
    have hstrict : (t.withMissingKey .error).environment =
      t.environment.withMissingKey .error := rfl
    have hlenient : (t.withMissingKey policy).environment =
      t.environment.withMissingKey policy := rfl
    simp only [run, hstrict, hlenient]
    obtain hsame | ⟨cause, ⟨place, key, rfl⟩, hfailure, hprefix⟩ :=
      Environment.execute_alike hagrees data room
    · exact .inl (by rw [hsame])
    · refine .inr ⟨⟨place, key, ?_⟩, hprefix⟩
      rw [hfailure]
      rfl

/-- Under the strict policy a template is executed as under any other policy, with the same text and
the same result, or the execution fails at a key that a map does not have, and what it has written
is the beginning of what is written under the other policy. -/
theorem executeNamed_strict (policy : MissingKey) (t : Template) (data : Value)
    (room : Option Nat) :
    ((t.withMissingKey .error).execute data room).StricterThan
        ((t.withMissingKey policy).execute data room) ∧
      ∀ name, ((t.withMissingKey .error).executeNamed name data room).StricterThan
        ((t.withMissingKey policy).executeNamed name data room) :=
  ⟨run_strict policy t _ _ data room,
    fun name => run_strict policy t (t.trees.get? name) _ data room⟩

/-- A field that the data do not have, behind some text: the strict policy stops there. -/
theorem executeNamed_strict_of_field :
    let t := ((new "q").load (parse "a\x7b\x7b.x\x7d\x7db")).1
    let data := Value.map .empty
    ((t.withMissingKey .error).executeNamed "q" data none).sink.text = "a" ∧
      ((t.withMissingKey .default).executeNamed "q" data none).sink.text = "aNULLb" ∧
      ((t.withMissingKey .error).executeNamed "q" data none).StricterThan
        ((t.withMissingKey .default).executeNamed "q" data none) := by
  intro t data
  refine ⟨by decide +kernel, by decide +kernel, ?_⟩
  exact (executeNamed_strict .default t data none).2 "q"

end Template

end SafeQuery
