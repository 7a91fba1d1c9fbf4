import SafeQuery.Proofs.Tree.Grammar
import SafeQuery.Proofs.Tree.Scoping

/-!
# The reader checks variables

Wherever a variable is used in a tree that has been read, the reader had it in scope.
`ofTokens_checked` says so for the pipelines, by the recursion of their readers, and
`ofSource_checked` for the trees of a source, by induction on their derivations.
-/

namespace SafeQuery

/-- All uses are of variables in scope, whatever has been bound. -/
def AllChecked (uses : List String → List Use) : Prop := ∀ bound, ∀ u ∈ uses bound, u.IsChecked

/-- From one scope to the other the operand uses only variables in scope. -/
structure Operand.Checked (o : Operand) (scope scope' : List String) : Prop where
  behind : o.scopeBehind scope = scope'
  uses : AllChecked (o.uses scope)

structure OperandsChecked (os : List Operand) (scope scope' : List String) : Prop where
  behind : operandsScope scope os = scope'
  uses : AllChecked (operandsUses scope · os)

structure CommandsChecked (cs : List Command) (scope scope' : List String) : Prop where
  behind : commandsScope scope cs = scope'
  uses : AllChecked (commandsUses scope · cs)

section Pipelines

variable {c : PipelineContext} {scope scope' : List String} {ts : List Token}

lemma checkVariable_eq_ok {offset : Nat} {name : String} {u : Unit}
    (h : checkVariable scope offset name = .ok u) : name ∈ scope := by
  unfold checkVariable at h
  split_ifs at h with hname
  exact List.contains_iff_mem.mp hname

/-- What is declared comes into scope, and what is assigned is there. -/
lemma declare_eq_ok {d : Declarations} (h : declare d scope = .ok scope') :
    scope' = newNames d.assigns d.declared ++ scope ∧
      (d.assigns = true → ∀ v ∈ d.declared, v.name ∈ scope) := by
  unfold declare at h
  split at h
  · rename_i hassigns
    obtain ⟨u, hall, heq⟩ := bind_eq_ok_iff.mp h
    cases heq
    refine ⟨by simp [newNames, hassigns], fun _ => ?_⟩
    generalize d.declared = vs at hall
    induction vs with
    | nil => simp
    | cons v vs ih =>
      obtain ⟨_, hv, hvs⟩ := bind_eq_ok_iff.mp hall
      exact List.forall_mem_cons.mpr ⟨checkVariable_eq_ok hv, ih hvs⟩
  · rename_i hassigns
    cases h
    exact ⟨by simp [newNames, hassigns], fun h => absurd h hassigns⟩

/-- What is assigned has only to be in scope. -/
lemma declare_of_mem {d : Declarations}
    (h : d.assigns = true → ∀ v ∈ d.declared, v.name ∈ scope) :
    declare d scope = .ok (newNames d.assigns d.declared ++ scope) := by
  obtain ⟨assigns, declared, rest⟩ := d
  cases assigns with
  | false =>
    simp only [declare, newNames, Bool.false_eq_true, if_false]
    rfl
  | true =>
    have hchecked : declared.forM (fun v => checkVariable scope v.pos.offset v.name) = .ok () := by
      have hscope := h rfl
      clear h
      induction declared with
      | nil => rfl
      | cons v vs ih =>
        obtain ⟨hv, hvs⟩ := List.forall_mem_cons.mp hscope
        have hfirst : checkVariable scope v.pos.offset v.name = .ok () :=
          if_pos (List.contains_iff_mem.mpr hv)
        show (checkVariable scope v.pos.offset v.name >>= fun _ => vs.forM _) = _
        rw [hfirst]
        exact ih hvs
    simp only [declare, if_true, hchecked, newNames, List.nil_append]
    rfl

lemma checked_of_uses_eq_nil {o : Operand} (hbehind : o.scopeBehind scope = scope)
    (huses : ∀ bound, o.uses scope bound = []) : o.Checked scope scope :=
  ⟨hbehind, fun bound u hu => absurd (show u ∈ o.uses scope bound from hu) (by simp [huses bound])⟩

/-- An operand of one token uses the variable that the token names, if it names one. -/
lemma ofToken_checked {t : Token} {o : Operand} (h : Operand.ofToken c scope t = .ok o) :
    o.Checked scope scope := by
  unfold Operand.ofToken at h
  dsimp only at h
  split at h
  case h_1 | h_5 =>
    split at h
    all_goals cases h
    all_goals exact checked_of_uses_eq_nil rfl fun _ => rfl
  case h_8 name fields _ =>
    obtain ⟨u, hname, heq⟩ := bind_eq_ok_iff.mp h
    cases heq
    refine ⟨rfl, fun bound u hu => ?_⟩
    obtain rfl := List.mem_singleton.mp hu
    exact checkVariable_eq_ok hname
  case h_9 => cases h
  all_goals
    cases h
    exact checked_of_uses_eq_nil rfl fun _ => rfl

lemma withFields_eq_ok {pos : Position} {o o' : Operand} {offset : Nat} {names : List String}
    (h : o.withFields pos offset names = .ok o') : o' = .chain pos o names := by
  unfold Operand.withFields at h
  split at h <;> cases h <;> rfl

/-- The fields behind an operand use no variables. -/
lemma readFields_checked {n : Nat} {pos : Position} {r r' : Reading n Operand}
    (h : readFields pos r = .ok r') (hr : r.value.Checked scope r.scope) :
    r'.value.Checked scope r'.scope := by
  unfold readFields at h
  split at h
  · obtain ⟨o, ho, heq⟩ := bind_eq_ok_iff.mp h
    cases heq
    rw [withFields_eq_ok ho]
    exact ⟨hr.behind, hr.uses⟩
  · cases h
    exact hr

lemma OperandsChecked.cons {o : Operand} {os : List Operand} {scope₁ scope₂ : List String}
    (ho : o.Checked scope scope₁) (hos : OperandsChecked os scope₁ scope₂) :
    OperandsChecked (o :: os) scope scope₂ where
  behind := by rw [operandsScope, ho.behind, hos.behind]
  uses := by
    intro bound u hu
    simp only [operandsUses, ho.behind, List.mem_append] at hu
    exact hu.elim (ho.uses _ u) (hos.uses _ u)

lemma CommandsChecked.cons {pos : Position} {os : List Operand} {cs : List Command}
    {scope₁ scope₂ : List String} (hos : OperandsChecked os scope scope₁)
    (hcs : CommandsChecked cs scope₁ scope₂) : CommandsChecked (⟨pos, os⟩ :: cs) scope scope₂ where
  behind := by rw [commandsScope, hos.behind, hcs.behind]
  uses := by
    intro bound u hu
    simp only [commandsUses, hos.behind, List.mem_append] at hu
    exact hu.elim (hos.uses _ u) (hcs.uses _ u)

/-- A pipeline takes what it declares into scope, and checks what it assigns. -/
lemma CommandsChecked.pipeline {pos : Position} {assigns : Bool} {declared : List Variable}
    {cs : List Command} (hcs : CommandsChecked cs (newNames assigns declared ++ scope) scope')
    (hassigned : assigns = true → ∀ v ∈ declared, v.name ∈ scope) :
    (Operand.pipeline ⟨pos, assigns, declared, cs⟩).Checked scope scope' where
  behind := hcs.behind
  uses := by
    intro bound u hu
    simp only [Operand.uses, List.mem_append] at hu
    rcases hu with hu | hu
    · exact hcs.uses _ u hu
    · unfold assignedUses at hu
      split_ifs at hu with hassigns
      · obtain ⟨v, hv, rfl⟩ := List.mem_map.mp hu
        exact hassigned hassigns v hv
      · contradiction

mutual

/-- An operand that has been read uses only variables in scope. -/
lemma readOperand_checked {scope : List String} {t : Token} {ts : List Token}
    {r : Reading (ts.length + 1) Operand} (h : readOperand c scope t ts = .ok r) :
    r.value.Checked scope r.scope := by
  rw [readOperand] at h
  split at h
  · obtain ⟨p, hp, h⟩ := bind_eq_ok_iff.mp h
    split at h
    · exact readFields_checked h (readPipeline_checked hp)
    · cases h
  · obtain ⟨o, ho, h⟩ := bind_eq_ok_iff.mp h
    exact readFields_checked h (ofToken_checked ho)
termination_by 4 * ts.length + 3

lemma readOperands_checked {scope : List String} {ts : List Token}
    {r : Reading (ts.length + 1) (List Operand)} (h : readOperands c scope ts = .ok r) :
    OperandsChecked r.value scope r.scope := by
  have hnil : ∀ scope, OperandsChecked [] scope scope := fun _ =>
    ⟨rfl, fun _ _ => by simp [operandsUses]⟩
  match ts with
  | [] =>
    rw [readOperands] at h
    cases h
    exact hnil _
  | t :: ts =>
    rw [readOperands] at h
    split at h
    · cases h
      exact hnil _
    · obtain ⟨o, ho, h⟩ := bind_eq_ok_iff.mp h
      obtain ⟨os, hos, h⟩ := bind_eq_ok_iff.mp h
      cases h
      exact .cons (readOperand_checked ho) (readOperands_checked hos)
termination_by 4 * ts.length
decreasing_by
  · simp only [List.length_cons]
    omega
  · have := o.fewer
    simp only [List.length_cons]
    omega

lemma readCommands_checked {scope : List String} {ts : List Token}
    {r : Reading (ts.length + 1) (List Command)} (h : readCommands c scope ts = .ok r) :
    CommandsChecked r.value scope r.scope := by
  have hnil : ∀ scope, CommandsChecked [] scope scope := fun _ =>
    ⟨rfl, fun _ _ => by simp [commandsUses]⟩
  rw [readCommands] at h
  obtain ⟨os, hos, h⟩ := bind_eq_ok_iff.mp h
  have hoperands := readOperands_checked hos
  split at h
  · cases h
  · split at h
    · rename_i rest hrest
      have hfewer : rest.length < ts.length := by
        have := os.fewer
        rw [hrest, List.length_cons] at this
        omega
      split at h
      · cases h
      · obtain ⟨cs, hcs, h⟩ := bind_eq_ok_iff.mp h
        cases h
        exact .cons hoperands (readCommands_checked hcs)
    · cases h
      exact .cons hoperands (hnil _)
termination_by 4 * ts.length + 1
decreasing_by all_goals omega

/-- A pipeline that has been read uses only variables in scope. -/
lemma readPipeline_checked {clause : Clause} {scope : List String} {ts : List Token}
    {r : Reading (ts.length + 1) Pipeline} (h : readPipeline c clause scope ts = .ok r) :
    (Operand.pipeline r.value).Checked scope r.scope := by
  rw [readPipeline] at h
  split at h
  · cases h
  · rename_i d hd
    have hlength := readDeclarations_length hd
    obtain ⟨scope₁, hscope, h⟩ := bind_eq_ok_iff.mp h
    obtain ⟨rfl, hassigned⟩ := declare_eq_ok hscope
    split at h
    · cases h
    · obtain ⟨cs, hcs, h⟩ := bind_eq_ok_iff.mp h
      split at h
      · cases h
      · cases h
        exact (readCommands_checked hcs).pipeline hassigned
termination_by 4 * ts.length + 2
decreasing_by omega

end

/-- A pipeline that has been read uses only variables in scope. -/
theorem ofTokens_checked {clause : Clause} {p : Pipeline}
    (h : PipelineOf.ofTokens c clause scope ts = .ok (p, scope')) :
    (Operand.pipeline p).Checked scope scope' := by
  obtain ⟨r, hr, h⟩ := bind_eq_ok_iff.mp h
  split at h
  · cases h
    exact readPipeline_checked hr
  · cases h

end Pipelines

/-! ### Statements -/

/-- Nodes that have been read lead to the scope that the reader has behind them, and use only
variables in scope. -/
lemma NodesRead.checked {E : ExitRule} {loops : List Position} {ns : List Node}
    {scope scope' : List String} (h : NodesRead E loops ns scope scope') :
    nodesScope scope ns = scope' ∧ AllChecked (nodesUses scope · ns) := by
  induction h with
  | nil => exact ⟨rfl, fun _ _ hu => absurd hu List.not_mem_nil⟩
  | text _ ih | comment _ ih | call _ ih | breakLoop _ _ ih | continueLoop _ _ ih =>
    exact ⟨ih.1, fun bound u hu => ih.2 _ u hu⟩
  | action hp _ ih | callWith hp _ ih =>
    obtain ⟨_, _, hp⟩ := hp
    obtain ⟨hbehind, huses⟩ := ofTokens_checked hp
    refine ⟨by rw [← ih.1, ← hbehind]; rfl, ?_⟩
    subst hbehind
    intro bound u hu
    exact (List.mem_append.mp hu).elim (huses _ u) (ih.2 _ u)
  | branch hp _ _ ihbody ih =>
    obtain ⟨_, _, hp⟩ := hp
    obtain ⟨rfl, huses⟩ := ofTokens_checked hp
    refine ⟨ih.1, ?_⟩
    intro bound u hu
    simp only [nodesUses, Node.uses, elseUses, List.append_nil, List.mem_append] at hu
    rcases hu with (hu | hu) | hu
    · exact huses _ u hu
    · exact ihbody.2 _ u hu
    · exact ih.2 _ u hu
  | branchElse hp _ _ _ ihbody ihelse ih =>
    obtain ⟨_, _, hp⟩ := hp
    obtain ⟨rfl, huses⟩ := ofTokens_checked hp
    obtain ⟨rfl, hbody⟩ := ihbody
    refine ⟨ih.1, ?_⟩
    intro bound u hu
    simp only [nodesUses, Node.uses, elseUses, List.mem_append] at hu
    rcases hu with (hu | hu | hu) | hu
    · exact huses _ u hu
    · exact hbody _ u hu
    · exact ihelse.2 _ u hu
    · exact ih.2 _ u hu

/-- Wherever a variable is used in the trees of a source, the reader had it in scope. -/
theorem ofSource_checked {d : Delimiters} {isFunction : String → Bool} {name source : String}
    {trees : Dict Tree} (h : Tree.ofSource d isFunction name source = .ok trees) :
    ∀ e ∈ trees.entries, ∀ u ∈ e.2.uses, u.IsChecked := by
  intro e he
  obtain ⟨items, -, hread⟩ := ofSource_read h
  obtain ⟨scope, hnodes⟩ := hread e he
  exact hnodes.checked.2 _

end SafeQuery
