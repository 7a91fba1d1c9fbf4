import SafeQuery.Proofs.Execution.Agreement

/-!
# Unrelated definitions

An execution depends on the templates that it can come to by calls, and on the functions that these
name, and on no others: `execute_unrelated`. So more templates can be loaded and more functions
added without a change to the queries that are there.
-/

namespace SafeQuery

/-- Fields of values are the same under the same policy for missing keys. -/
lemma Frame.fieldValue_of_missingKey {env env' : Environment}
    (h : env'.missingKey = env.missingKey) (template : String) (dot : Value) (o : Operand)
    (hasArguments : Bool) (receiver : Value) (name : String) :
    Frame.fieldValue ⟨env', template, dot⟩ o hasArguments receiver name =
      Frame.fieldValue ⟨env, template, dot⟩ o hasArguments receiver name := by
  simp only [Frame.fieldValue, h]
  rfl

namespace Environment

/-- Two environments have the same encoder and the same policy. They have the same tree, or none,
under every name that is called in a tree to which one comes by calls from the first tree, and the
same function, or none, under every name of a function in these trees. Then the tree is executed
alike in both: the same is written, and the result is the same. -/
theorem execute_unrelated {env env' : Environment} {first : Tree}
    (hencoder : env'.encoder = env.encoder) (hpolicy : env'.missingKey = env.missingKey)
    (htrees : ∀ n tree pos name argument, CallPath env.trees first n tree →
      .call pos name argument ∈ tree.walk → env'.trees.get? name = env.trees.get? name)
    (hfunctions : ∀ n tree name, CallPath env.trees first n tree → name ∈ tree.functions →
      env'.functions.get? name = env.functions.get? name)
    (data : Value) (room : Option Nat) :
    env'.execute first data room = env.execute first data room := by
  have hagrees : env.Agrees (fun _ => False) env' first := by
    refine ⟨hencoder, fun template dot o hasArguments receiver name => ?_,
      fun hpath hcall => htrees _ _ _ _ _ hpath hcall,
      fun hpath hname => hfunctions _ _ _ hpath hname⟩
    rw [Frame.fieldValue_of_missingKey hpolicy]
    exact .refl _
  obtain hsame | ⟨_, hcause, -⟩ := execute_alike hagrees data room
  · exact hsame
  · exact hcause.elim

/-- Two templates that call each other, and an environment with one more template and a function of
the name `print` in place of the builtin one. -/
theorem execute_unrelated_of_cycle :
    let p : Position := ⟨0, 1⟩
    let dot : Pipeline := ⟨p, false, [], [⟨p, [.dot p]⟩]⟩
    let length : Pipeline := ⟨p, false, [], [⟨p, [.identifier p "len", .dot p]⟩]⟩
    let d : Tree := ⟨"d", ⟨p, [.branch .withValue p dot ⟨p, [.call p "q" none]⟩ none, .text p "x"]⟩⟩
    let e : Tree := ⟨"e", ⟨p, [.text p "y"]⟩⟩
    let q : Tree := ⟨"q", ⟨p, [.call p "d" (some length)]⟩⟩
    let env : Environment := ⟨⟨[("d", d), ("q", q)]⟩, .empty, Literal.postgres, .default⟩
    let env' : Environment := { env with
      trees := ⟨[("d", d), ("e", e), ("q", q)]⟩
      functions := ⟨[("print", fun _ => .ok .null)]⟩ }
    env'.encoder = env.encoder ∧ env'.missingKey = env.missingKey ∧
      (∀ n tree pos name argument, CallPath env.trees q n tree →
        .call pos name argument ∈ tree.walk → env'.trees.get? name = env.trees.get? name) ∧
      (∀ n tree name, CallPath env.trees q n tree → name ∈ tree.functions →
        env'.functions.get? name = env.functions.get? name) ∧
      env'.execute q (.string "a") none = env.execute q (.string "a") none := by
  intro p dot length d e q env env'
  have hcalls : ∀ tree, tree = q ∨ tree = d → ∀ pos name argument,
      .call pos name argument ∈ tree.walk → name = "d" ∨ name = "q" := by
    rintro tree (rfl | rfl) pos name argument hcall
    · simp [q, Tree.walk, Node.inside] at hcall
      exact .inl hcall.2.1
    · simp [d, Tree.walk, Node.inside] at hcall
      exact .inr hcall.2.1
  have hpaths : ∀ n tree, CallPath env.trees q n tree → tree = q ∨ tree = d := by
    intro n tree hpath
    induction hpath with
    | here => exact .inl rfl
    | call _ hcall ih =>
      obtain ⟨pos, name, argument, hmem, htree⟩ := hcall
      rcases hcalls _ ih _ _ _ hmem with rfl | rfl
      · exact .inr (Option.some.inj htree).symm
      · exact .inl (Option.some.inj htree).symm
  have htrees : ∀ n tree pos name argument, CallPath env.trees q n tree →
      .call pos name argument ∈ tree.walk → env'.trees.get? name = env.trees.get? name := by
    intro n tree pos name argument hpath hmem
    rcases hcalls _ (hpaths n tree hpath) _ _ _ hmem with rfl | rfl
    · rfl
    · rfl
  have hfunctions : ∀ n tree name, CallPath env.trees q n tree → name ∈ tree.functions →
      env'.functions.get? name = env.functions.get? name := by
    intro n tree name hpath hname
    obtain rfl : name = "len" := by
      rcases hpaths n tree hpath with rfl | rfl
      · simpa [q, length, Tree.functions, Tree.walk, Node.inside, Node.functions,
          PipelineOf.functions, commandsFunctions, operandsFunctions, Operand.functions] using hname
      · simp [d, dot, Tree.functions, Tree.walk, Node.inside, Node.functions,
          PipelineOf.functions, commandsFunctions, operandsFunctions, Operand.functions] at hname
    rfl
  exact ⟨rfl, rfl, htrees, hfunctions,
    @execute_unrelated env env' q rfl rfl htrees hfunctions (.string "a") none⟩

end Environment

end SafeQuery
