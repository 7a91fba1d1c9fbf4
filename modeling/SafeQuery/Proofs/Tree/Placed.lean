import SafeQuery.Proofs.Tree.Readable
import SafeQuery.Proofs.Tree.Statement

/-!
# Pipelines at their places

`Tree.pipes` finds the pipelines of a tree, those in parentheses and the arguments of calls among
them, each with the variables that the reader has in scope before it. The pipelines in the trees of
a source have been read at these places, `ofSource_pipes`. The calls of the encoder change some of
them and not where they stand, `Tree.pipes_withHooks`.
-/

namespace SafeQuery

/-- A pipeline at its place in a tree. -/
structure Placed where
  /-- A loop goes over the value of the pipeline. -/
  ofLoop : Bool
  /-- The variables that the reader has in scope before the pipeline. -/
  scope : List String
  pipe : Pipeline

mutual

def Operand.pipes (scope : List String) : Operand → List Placed
  | .chain _ o _ => o.pipes scope
  | .pipeline ⟨pos, assigns, declared, commands⟩ =>
    ⟨false, scope, ⟨pos, assigns, declared, commands⟩⟩ ::
      commandsPipes (newNames assigns declared ++ scope) commands
  | _            => []

def operandsPipes (scope : List String) : List Operand → List Placed
  | []      => []
  | o :: os => o.pipes scope ++ operandsPipes (o.scopeBehind scope) os

def commandsPipes (scope : List String) : List (CommandOf Operand) → List Placed
  | []            => []
  | ⟨_, os⟩ :: cs => operandsPipes scope os ++ commandsPipes (operandsScope scope os) cs

end

def PipelineOf.pipes (ofLoop : Bool) (scope : List String) (p : Pipeline) : List Placed :=
  ⟨ofLoop, scope, p⟩ :: commandsPipes (newNames p.assigns p.declared ++ scope) p.commands

lemma Operand.pipes_pipeline (scope : List String) (p : Pipeline) :
    (Operand.pipeline p).pipes scope = p.pipes false scope := by
  obtain ⟨_, _, _, _⟩ := p
  rfl

mutual

def Node.pipes (scope : List String) : Node → List Placed
  | .action _ p        => p.pipes false scope
  | .call _ _ (some p) => p.pipes false scope
  | .branch kind _ p ⟨_, body⟩ otherwise =>
    p.pipes (kind = .range) scope ++
      (nodesPipes (p.scopeBehind scope) body ++
        elsePipes (nodesScope (p.scopeBehind scope) body) otherwise)
  | _                  => []

def nodesPipes (scope : List String) : List Node → List Placed
  | []      => []
  | n :: ns => n.pipes scope ++ nodesPipes (n.scopeBehind scope) ns

def elsePipes (scope : List String) : Option (BlockOf Node) → List Placed
  | none         => []
  | some ⟨_, ns⟩ => nodesPipes scope ns

end

/-- The pipelines in a tree. At its beginning the variable of the data is in scope. -/
def Tree.pipes (t : Tree) : List Placed := nodesPipes ["$"] t.root.nodes

/-! ### Calls of the encoder -/

/-- The pipeline with the missing call of the encoder, at its place. -/
def Placed.withHook (q : Placed) : Placed := { q with pipe := q.pipe.withHook }

lemma commandsPipes_hook (scope : List String) (cs : List Command) (pos : Position) :
    commandsPipes scope (cs ++ [hookAt pos]) = commandsPipes scope cs := by
  induction cs generalizing scope with
  | nil => simp [commandsPipes, hookAt, operandsPipes, Operand.pipes]
  | cons c cs ih => simp only [List.cons_append, commandsPipes, ih]

/-- A call of the encoder adds no pipelines. -/
lemma PipelineOf.pipes_withHook (ofLoop : Bool) (scope : List String) (p : Pipeline) :
    p.withHook.pipes ofLoop scope = ⟨ofLoop, scope, p.withHook⟩ :: (p.pipes ofLoop scope).tail := by
  obtain heq | ⟨pos, heq⟩ := p.withHook_cases
  · rw [heq]
    rfl
  · rw [heq]
    simp only [pipes, commandsPipes_hook, List.tail_cons]

/-- Every one of these pipelines is one of those, or is one with the missing call of the encoder. -/
def HookedFrom (qs qs₀ : List Placed) : Prop :=
  ∀ q ∈ qs, ∃ q₀ ∈ qs₀, q = q₀ ∨ q = q₀.withHook

lemma HookedFrom.refl (qs : List Placed) : HookedFrom qs qs := fun q hq => ⟨q, hq, .inl rfl⟩

lemma HookedFrom.append {qs qs₀ rs rs₀ : List Placed} (hq : HookedFrom qs qs₀)
    (hr : HookedFrom rs rs₀) : HookedFrom (qs ++ rs) (qs₀ ++ rs₀) := by
  intro q hmem
  rcases List.mem_append.mp hmem with hmem | hmem
  · obtain ⟨q₀, hq₀, h⟩ := hq q hmem
    exact ⟨q₀, List.mem_append_left _ hq₀, h⟩
  · obtain ⟨q₀, hq₀, h⟩ := hr q hmem
    exact ⟨q₀, List.mem_append_right _ hq₀, h⟩

lemma PipelineOf.pipes_hookedFrom (scope : List String) (p : Pipeline) :
    HookedFrom (p.withHook.pipes false scope) (p.pipes false scope) := by
  rw [pipes_withHook]
  intro q hq
  rcases List.mem_cons.mp hq with rfl | hq
  · exact ⟨⟨false, scope, p⟩, List.mem_cons_self, .inr rfl⟩
  · exact ⟨q, List.mem_of_mem_tail hq, .inl rfl⟩

mutual

lemma Node.pipes_withHooks (scope : List String) (n : Node) :
    HookedFrom (n.withHooks.pipes scope) (n.pipes scope) := by
  match n with
  | .action pos p => exact p.pipes_hookedFrom scope
  | .branch kind pos p ⟨_, body⟩ none =>
    exact .append (.refl _) (.append (nodesPipes_hookAll _ body) (.refl _))
  | .branch kind pos p ⟨_, body⟩ (some ⟨_, otherwise⟩) =>
    rw [Node.withHooks, Node.pipes, nodesScope_hookAll]
    exact .append (.refl _) (.append (nodesPipes_hookAll _ body) (nodesPipes_hookAll _ otherwise))
  | .text _ _ | .comment _ _ | .call _ _ _ | .breakLoop _ | .continueLoop _ => exact .refl _

lemma nodesPipes_hookAll (scope : List String) (ns : List Node) :
    HookedFrom (nodesPipes scope (hookAll ns)) (nodesPipes scope ns) := by
  match ns with
  | []      => exact .refl _
  | n :: ns =>
    rw [hookAll, nodesPipes, Node.scopeBehind_withHooks]
    exact .append (n.pipes_withHooks scope) (nodesPipes_hookAll _ ns)

end

/-- Some pipelines of a tree get a call of the encoder, and all of them stay at their places. -/
theorem Tree.pipes_withHooks (t : Tree) : HookedFrom t.withHooks.pipes t.pipes :=
  nodesPipes_hookAll _ t.root.nodes

/-! ### Pipelines that have been read -/

/-- The pipeline has been read at its place, of tokens that can be written. -/
def Placed.WasRead (isFunction : String → Bool) (q : Placed) : Prop :=
  ∃ (c : PipelineContext) (clause : Clause) (ts : List Token)
    (r : Reading (ts.length + 1) Pipeline),
      c.isFunction = isFunction ∧ clause.isLoop = q.ofLoop ∧ AllLexical ts ∧
        readPipeline c clause q.scope ts = .ok r ∧ r.value = q.pipe

/-- The pipeline can be read at its place. -/
def Placed.IsReadable (known : String → Bool) (q : Placed) : Prop :=
  q.pipe.Readable known q.ofLoop q.scope

def AllReadable (known : String → Bool) (qs : List Placed) : Prop :=
  ∀ q ∈ qs, q.IsReadable known

lemma AllReadable.append {known : String → Bool} {qs qs' : List Placed} :
    AllReadable known (qs ++ qs') ↔ AllReadable known qs ∧ AllReadable known qs' :=
  List.forall_mem_append

/-- The pipeline that stands before those inside it. -/
lemma AllReadable.head {known : String → Bool} {ofLoop : Bool} {scope : List String} {p : Pipeline}
    (h : AllReadable known (p.pipes ofLoop scope)) : p.Readable known ofLoop scope :=
  h _ List.mem_cons_self

/-- A pipeline that has been read can be read. -/
lemma Placed.WasRead.isReadable {isFunction : String → Bool} {q : Placed}
    (h : q.WasRead isFunction) : q.IsReadable isFunction := by
  obtain ⟨c, clause, ts, r, rfl, hloop, hts, hr, hvalue⟩ := h
  rw [IsReadable, ← hloop, ← hvalue]
  exact (readPipeline_readable hr hts).1

def AllWereRead (isFunction : String → Bool) (qs : List Placed) : Prop :=
  ∀ q ∈ qs, q.WasRead isFunction

lemma AllWereRead.append {isFunction : String → Bool} {qs qs' : List Placed} :
    AllWereRead isFunction (qs ++ qs') ↔ AllWereRead isFunction qs ∧ AllWereRead isFunction qs' :=
  List.forall_mem_append

lemma AllWereRead.nil {isFunction : String → Bool} : AllWereRead isFunction [] :=
  fun _ hq => absurd hq List.not_mem_nil

section Reading

variable {c : PipelineContext}

/-- Fields directly behind an operand add no pipelines. -/
lemma readFields_pipes {n : Nat} {pos : Position} {r r' : Reading n Operand}
    (h : readFields pos r = .ok r') (scope : List String) :
    r'.value.pipes scope = r.value.pipes scope := by
  unfold readFields at h
  split at h
  · obtain ⟨o, ho, hr'⟩ := bind_eq_ok_iff.mp h
    cases hr'
    rw [withFields_eq_ok ho, Operand.pipes]
  · cases h
    rfl

lemma ofToken_pipes {scope : List String} {t : Token} {o : Operand}
    (h : Operand.ofToken c scope t = .ok o) : o.pipes scope = [] := by
  unfold Operand.ofToken at h
  dsimp only at h
  split at h
  case h_1 | h_5 =>
    split at h
    all_goals cases h
    all_goals rfl
  case h_8 =>
    obtain ⟨u, -, heq⟩ := bind_eq_ok_iff.mp h
    cases heq
    rfl
  all_goals
    cases h
    try rfl

mutual

/-- The pipelines within an operand have been read at their places. -/
lemma readOperand_pipes {scope : List String} {t : Token} {ts : List Token}
    {r : Reading (ts.length + 1) Operand} (h : readOperand c scope t ts = .ok r)
    (hts : AllLexical ts) : AllWereRead c.isFunction (r.value.pipes scope) := by
  rw [readOperand] at h
  split at h
  · obtain ⟨p, hp, h⟩ := bind_eq_ok_iff.mp h
    split at h
    · rw [readFields_pipes h]
      have hpipes := readPipeline_pipes hp hts
      rwa [Operand.pipes_pipeline]
    · cases h
  · obtain ⟨o, ho, h⟩ := bind_eq_ok_iff.mp h
    rw [readFields_pipes h, ofToken_pipes ho]
    exact .nil
termination_by 4 * ts.length + 3

lemma readOperands_pipes {scope : List String} {ts : List Token}
    {r : Reading (ts.length + 1) (List Operand)} (h : readOperands c scope ts = .ok r)
    (hts : AllLexical ts) : AllWereRead c.isFunction (operandsPipes scope r.value) := by
  match ts with
  | [] =>
    rw [readOperands] at h
    cases h
    exact .nil
  | t :: ts =>
    rw [readOperands] at h
    split at h
    · cases h
      exact .nil
    · obtain ⟨o, ho, h⟩ := bind_eq_ok_iff.mp h
      obtain ⟨os, hos, h⟩ := bind_eq_ok_iff.mp h
      cases h
      have hoperand := readOperand_pipes ho hts.tail
      have hoperands := readOperands_pipes hos (readOperand_readable ho hts).2
      rw [← (readOperand_checked ho).behind] at hoperands
      exact AllWereRead.append.mpr ⟨hoperand, hoperands⟩
termination_by 4 * ts.length
decreasing_by
  · simp only [List.length_cons]
    omega
  · have := o.fewer
    simp only [List.length_cons]
    omega

lemma readCommands_pipes {scope : List String} {ts : List Token}
    {r : Reading (ts.length + 1) (List Command)} (h : readCommands c scope ts = .ok r)
    (hts : AllLexical ts) : AllWereRead c.isFunction (commandsPipes scope r.value) := by
  rw [readCommands] at h
  obtain ⟨os, hos, h⟩ := bind_eq_ok_iff.mp h
  have hoperands := readOperands_pipes hos hts
  obtain ⟨-, hrest⟩ := readOperands_readable hos hts
  split at h
  · cases h
  · split at h
    · rename_i rest heq
      have hfewer : rest.length < ts.length := by
        have := os.fewer
        rw [heq, List.length_cons] at this
        omega
      rw [heq] at hrest
      split at h
      · cases h
      · obtain ⟨cs, hcs, h⟩ := bind_eq_ok_iff.mp h
        cases h
        have hcommands := readCommands_pipes hcs hrest.tail
        rw [← (readOperands_checked hos).behind] at hcommands
        exact AllWereRead.append.mpr ⟨hoperands, hcommands⟩
    · cases h
      exact AllWereRead.append.mpr ⟨hoperands, .nil⟩
termination_by 4 * ts.length + 1
decreasing_by all_goals omega

/-- A pipeline and those inside it are read at their places. -/
lemma readPipeline_pipes {clause : Clause} {scope : List String} {ts : List Token}
    {r : Reading (ts.length + 1) Pipeline} (h : readPipeline c clause scope ts = .ok r)
    (hts : AllLexical ts) : AllWereRead c.isFunction (r.value.pipes clause.isLoop scope) := by
  refine List.forall_mem_cons.mpr ⟨⟨c, clause, ts, r, rfl, rfl, hts, h, rfl⟩, ?_⟩
  rw [readPipeline] at h
  split at h
  · cases h
  · rename_i d hd
    have hlength := readDeclarations_length hd
    obtain ⟨scope₁, hscope, h⟩ := bind_eq_ok_iff.mp h
    obtain ⟨-, hrest⟩ := readDeclarations_declarable hd hts hscope
    obtain ⟨rfl, -⟩ := declare_eq_ok hscope
    split at h
    · cases h
    · obtain ⟨cs, hcs, h⟩ := bind_eq_ok_iff.mp h
      split at h
      · cases h
      · cases h
        exact readCommands_pipes hcs hrest
termination_by 4 * ts.length + 2
decreasing_by omega

end

end Reading

/-! ### Trees of a source -/

def Section.pipes (scope : List String) : Section → List Placed
  | statements nodes => nodesPipes scope nodes
  | tail _ otherwise => elsePipes scope otherwise

section Sources

variable {d : Delimiters} {ctx : PipelineContext} {place : Enclosure} {scope scope' : List String}

/-- A pipeline of an action has been read at its place, and so have those within it. -/
lemma ofTokens_pipes {clause : Clause} {c : PipelineContext} {p : Pipeline} {ts : List Token}
    (h : PipelineOf.ofTokens c clause scope ts = .ok (p, scope')) (hts : AllLexical ts) :
    p.scopeBehind scope = scope' ∧ AllWereRead c.isFunction (p.pipes clause.isLoop scope) := by
  refine ⟨(ofTokens_checked h).behind, ?_⟩
  obtain ⟨r, hr, h⟩ := bind_eq_ok_iff.mp h
  split at h
  · cases h
    exact readPipeline_pipes hr hts
  · cases h

lemma clauseName_eq_ok {clause : Clause} {o : Nat} {ts rest : List Token} {name : String}
    (h : Nesting.clauseName clause o ts = .ok (name, rest)) :
    ∃ quoted at₁ spaced, ts = ⟨.string quoted name, at₁, spaced⟩ :: rest := by
  unfold Nesting.clauseName at h
  split at h <;> cases h
  exact ⟨_, _, _, rfl⟩

/-- The pipeline of a statement has been read, and leads to the scope behind it. -/
lemma Leaf.pipes {item : Item} {node : Node} (h : Leaf ctx place scope item node scope')
    (hitem : item.IsLexed d) :
    node.scopeBehind scope = scope' ∧ AllWereRead ctx.isFunction (node.pipes scope) := by
  cases h with
  | text | comment | call | breakLoop | continueLoop => exact ⟨rfl, .nil⟩
  | action hp => exact ofTokens_pipes hp hitem
  | callWith hname hp =>
    obtain ⟨_, _, _, rfl⟩ := clauseName_eq_ok hname
    exact ofTokens_pipes hp hitem.tail.tail

lemma Control.isLoop_branch (kind : Control) :
    (Clause.branch kind).isLoop = decide (kind = .range) := by
  cases kind <;> rfl

lemma Node.pipes_branch (kind : Control) (pos start : Position) (p : Pipeline) (body : List Node)
    (otherwise : Option Block) :
    (Node.branch kind pos p ⟨start, body⟩ otherwise).pipes scope =
      p.pipes (Clause.branch kind).isLoop scope ++
        (nodesPipes (p.scopeBehind scope) body ++
          elsePipes (nodesScope (p.scopeBehind scope) body) otherwise) := by
  rw [Node.pipes, Control.isLoop_branch]

/-- The pipelines of a section have been read at their places. Statements lead to the scope behind
them. -/
lemma Spells.pipes {items : List Item} {part : Section} {defs : List Tree}
    (h : Spells ctx place scope items part defs scope') (hitems : ∀ item ∈ items, item.IsLexed d) :
    (∀ nodes, part = .statements nodes → nodesScope scope nodes = scope') ∧
      AllWereRead ctx.isFunction (part.pipes scope) ∧
        ∀ t ∈ defs, AllWereRead ctx.isFunction t.pipes := by
  induction h with
  | nil =>
    refine ⟨?_, by simp [Section.pipes, nodesPipes, AllWereRead], by simp⟩
    rintro nodes ⟨⟩
    rfl
  | finish => exact ⟨by simp, by simp [Section.pipes, elsePipes, AllWereRead], by simp⟩
  | leaf hleaf _ ih =>
    obtain ⟨hitem, hitems⟩ := List.forall_mem_cons.mp hitems
    obtain ⟨rfl, hnode⟩ := hleaf.pipes hitem
    obtain ⟨hscope, hnodes, hdefs⟩ := ih hitems
    refine ⟨?_, AllWereRead.append.mpr ⟨hnode, hnodes⟩, hdefs⟩
    rintro nodes ⟨⟩
    exact hscope _ rfl
  | branch hp _ _ _ ihbody ihtail ih =>
    simp only [List.forall_mem_cons, List.forall_mem_append] at hitems
    obtain ⟨hitem, hbodyItems, htailItems, hitems⟩ := hitems
    obtain ⟨rfl, hpipe⟩ := ofTokens_pipes hp (AllLexical.tail hitem)
    obtain ⟨hbodyScope, hbody, hbodyDefs⟩ := ihbody hbodyItems
    obtain rfl := hbodyScope _ rfl
    obtain ⟨-, htail, htailDefs⟩ := ihtail htailItems
    obtain ⟨hscope, hnodes, hdefs⟩ := ih hitems
    have hrest := hscope _ rfl
    refine ⟨?_, ?_, ?_⟩
    · rintro nodes ⟨⟩
      exact hrest
    · rw [Section.pipes, nodesPipes, Node.pipes_branch]
      simp only [AllWereRead.append]
      exact ⟨⟨hpipe, hbody, htail⟩, hnodes⟩
    · simp only [List.forall_mem_append]
      exact ⟨hbodyDefs, htailDefs, hdefs⟩
  | define _ _ _ ihbody ih =>
    simp only [List.forall_mem_cons, List.forall_mem_append] at hitems
    obtain ⟨-, hbodyItems, -, hitems⟩ := hitems
    obtain ⟨-, hbody, hbodyDefs⟩ := ihbody hbodyItems
    obtain ⟨hscope, hnodes, hdefs⟩ := ih hitems
    refine ⟨hscope, hnodes, ?_⟩
    simp only [List.forall_mem_append, List.forall_mem_cons]
    exact ⟨hbodyDefs, hbody, hdefs⟩
  | block hname hp _ _ ihbody ih =>
    simp only [List.forall_mem_cons, List.forall_mem_append] at hitems
    obtain ⟨hitem, hbodyItems, -, hitems⟩ := hitems
    obtain ⟨_, _, _, rfl⟩ := clauseName_eq_ok hname
    obtain ⟨rfl, hpipe⟩ := ofTokens_pipes hp (AllLexical.tail hitem).tail
    obtain ⟨-, hbody, hbodyDefs⟩ := ihbody hbodyItems
    obtain ⟨hscope, hnodes, hdefs⟩ := ih hitems
    refine ⟨?_, AllWereRead.append.mpr ⟨hpipe, hnodes⟩, ?_⟩
    · rintro nodes ⟨⟩
      exact hscope _ rfl
    · simp only [List.forall_mem_append, List.forall_mem_cons]
      exact ⟨hbodyDefs, hbody, hdefs⟩
  | otherwise _ ih =>
    simp only [List.forall_mem_cons, List.forall_mem_append] at hitems
    obtain ⟨-, hnodes, hdefs⟩ := ih hitems.2.1
    exact ⟨by simp, hnodes, hdefs⟩
  | chained _ hp _ _ ihbody ihtail =>
    simp only [List.forall_mem_cons, List.forall_mem_append] at hitems
    obtain ⟨hitem, hbodyItems, htailItems⟩ := hitems
    obtain ⟨rfl, hpipe⟩ := ofTokens_pipes hp (AllLexical.tail hitem).tail
    obtain ⟨hbodyScope, hbody, hbodyDefs⟩ := ihbody hbodyItems
    obtain rfl := hbodyScope _ rfl
    obtain ⟨-, htail, htailDefs⟩ := ihtail htailItems
    refine ⟨by simp, ?_, ?_⟩
    · rw [Section.pipes, elsePipes, nodesPipes, nodesPipes, List.append_nil, Node.pipes_branch]
      simp only [AllWereRead.append]
      exact ⟨hpipe, hbody, htail⟩
    · simp only [List.forall_mem_append]
      exact ⟨hbodyDefs, htailDefs⟩

/-- The pipelines in the trees of a source have been read at their places. -/
theorem ofSource_pipes {isFunction : String → Bool} {name source : String} {trees : Dict Tree}
    (h : Tree.ofSource d isFunction name source = .ok trees) :
    ∀ e ∈ trees.entries, AllWereRead isFunction e.2.pipes := by
  obtain ⟨items, nodes, defs, pos, scope, hitems, hspelled, htrees⟩ := ofSource_spelled h
  obtain ⟨-, hmain, hdefs⟩ := hspelled.pipes (ofSource_isLexed hitems)
  refine foldlM_addTree_keeps (P := fun t => AllWereRead isFunction t.pipes) htrees ?_
    (by simp [Dict.empty])
  rw [List.forall_mem_append, List.forall_mem_singleton]
  exact ⟨hdefs, hmain⟩

end Sources

end SafeQuery
