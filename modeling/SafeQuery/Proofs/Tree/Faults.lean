import SafeQuery.Proofs.Source.Places
import SafeQuery.Proofs.Tree.Positions

/-!
# Where the reader stops

If a pipeline cannot be read, the fault lies at the action or at one of its tokens,
`Scannable.ofTokens_atToken`. If an item cannot be added, it lies there or where a clause has been
opened that is open still, `Nesting.addItem_fault`, and every clause has been opened by an action.
So a source that is refused has its fault at its beginning, at a left delimiter or at a character
inside an action, `Tree.ofSource_faultAt`.
-/

namespace SafeQuery

/-- Two steps fail if the first one fails, or the second one for what the first one gives. -/
lemma bind_eq_error_iff {ε α β : Type} {first : Except ε α} {next : α → Except ε β} {e : ε} :
    first >>= next = .error e ↔ first = .error e ∨ ∃ a, first = .ok a ∧ next a = .error e := by
  rcases first with e' | a <;> simp [bind, Except.bind]

/-- Steps that fail lead up to one of them that does. -/
lemma foldlM_eq_error {ε σ α : Type} {step : σ → α → Except ε σ} {s : σ} {as : List α} {e : ε}
    (h : as.foldlM step s = .error e) :
    ∃ before a after s', as = before ++ a :: after ∧ before.foldlM step s = .ok s' ∧
      step s' a = .error e := by
  induction as generalizing s with
  | nil => cases h
  | cons a as ih =>
    rcases bind_eq_error_iff.mp h with hfirst | ⟨next, hfirst, hrest⟩
    · exact ⟨[], a, as, s, rfl, rfl, hfirst⟩
    · obtain ⟨before, b, after, s', rfl, hbefore, hb⟩ := ih hrest
      refine ⟨a :: before, b, after, s', rfl, ?_, hb⟩
      rw [List.foldlM_cons, hfirst]
      exact hbefore

/-- The offset is that of the action or of one of the tokens. -/
def AtToken (action : Nat) (ts : List Token) (offset : Nat) : Prop :=
  offset = action ∨ ∃ t ∈ ts, offset = t.offset

section Pipelines

variable {c : PipelineContext} {clause : Clause} {scope : List String} {t : Token}
  {ts ts' : List Token} {fault : SyntaxFault} {action offset : Nat}

lemma AtToken.of_suffix (h : AtToken action ts offset) (hsuffix : ts <:+ ts') :
    AtToken action ts' offset := by
  obtain h | ⟨t, ht, h⟩ := h
  · exact .inl h
  · exact .inr ⟨t, hsuffix.subset ht, h⟩

lemma atToken_head : AtToken action (t :: ts) t.offset := .inr ⟨t, List.mem_cons_self, rfl⟩

lemma atToken_nextOffset : AtToken c.action ts (c.nextOffset ts) := by
  cases ts with
  | nil => exact .inl rfl
  | cons t ts => exact atToken_head

lemma FormsFront.suffix {part : Part} {scope' : List String} {rest : List Token}
    (h : FormsFront c part scope ts scope' rest) : rest <:+ ts := by
  obtain ⟨front, rfl, -⟩ := h
  exact List.suffix_append front rest

lemma readDeclarations_atToken (h : readDeclarations c clause ts = .error fault) :
    AtToken c.action ts fault.offset := by
  unfold readDeclarations at h
  dsimp only at h
  repeat' split at h
  all_goals cases h
  all_goals simp [AtToken]

lemma readDeclarations_declared {d : Declarations} (h : readDeclarations c clause ts = .ok d) :
    ∀ v ∈ d.declared, AtToken c.action ts v.pos.offset := by
  unfold readDeclarations at h
  dsimp only at h
  repeat' split at h
  all_goals cases h
  all_goals simp [AtToken, PipelineContext.positionOf]

lemma checkVariable_offset {name : String} (h : checkVariable scope offset name = .error fault) :
    fault.offset = offset := by
  unfold checkVariable at h
  split_ifs at h
  cases h
  rfl

lemma declare_offset {d : Declarations} (h : declare d scope = .error fault) :
    ∃ v ∈ d.declared, fault.offset = v.pos.offset := by
  unfold declare at h
  split_ifs at h
  · rcases bind_eq_error_iff.mp h with h | ⟨_, -, h⟩
    · generalize d.declared = vs at h
      induction vs with
      | nil => cases h
      | cons v vs ih =>
        rcases bind_eq_error_iff.mp h with h | ⟨_, -, h⟩
        · exact ⟨v, List.mem_cons_self, checkVariable_offset h⟩
        · obtain ⟨w, hw, hoffset⟩ := ih h
          exact ⟨w, List.mem_cons_of_mem _ hw, hoffset⟩
    · cases h
  · cases h

lemma ofToken_offset (h : Operand.ofToken c scope t = .error fault) :
    fault.offset = t.offset := by
  obtain ⟨kind, offset, spaced⟩ := t
  unfold Operand.ofToken at h
  cases kind <;> dsimp only at h
  case identifier | number =>
    split_ifs at h
    cases h
    rfl
  case var =>
    rcases bind_eq_error_iff.mp h with h | ⟨_, -, h⟩
    · exact checkVariable_offset h
    · cases h
  all_goals cases h
  all_goals rfl

lemma readFields_offset {n : Nat} {pos : Position} {r : Reading n Operand}
    (h : readFields pos r = .error fault) : AtToken action r.rest fault.offset := by
  unfold readFields at h
  split at h
  · rename_i hrest
    rcases bind_eq_error_iff.mp h with h | ⟨_, -, h⟩
    · unfold Operand.withFields at h
      split at h <;> cases h
      rw [hrest]
      exact atToken_head
    · cases h
  · cases h

/-- A command that takes no value stands at a position of the commands. -/
lemma mem_positions_of_firstConstant {stage k : Nat} {cs : List Command} {pos : Position}
    (h : firstConstant? stage cs = some (k, pos)) : pos ∈ commandsPositions cs := by
  induction cs generalizing stage with
  | nil => cases h
  | cons command cs ih =>
    obtain ⟨pos', os⟩ := command
    rw [firstConstant?] at h
    rw [commandsPositions]
    split_ifs at h
    · cases h
      exact List.mem_cons_self
    · exact List.mem_cons_of_mem _ (List.mem_append_right _ (ih h))

lemma commandsPositions_tail_subset (cs : List Command) :
    commandsPositions cs.tail ⊆ commandsPositions cs := by
  cases cs with
  | nil => exact List.Subset.refl _
  | cons command cs =>
    rw [commandsPositions]
    exact List.subset_cons_of_subset _ (List.subset_append_right _ _)

-- The readers call each other, so that the four lemmas follow their recursion together. What a
-- reader has left is an end of its tokens because what it has read is formed by those before.
mutual

lemma readOperand_atToken {scope : List String} {t : Token} {ts : List Token}
    (h : readOperand c scope t ts = .error fault) (hts : Scannable (t :: ts)) :
    AtToken c.action (t :: ts) fault.offset := by
  have hsuffix := List.suffix_cons t ts
  rw [readOperand] at h
  split at h
  · rcases bind_eq_error_iff.mp h with h | ⟨p, hp, h⟩
    · exact (readPipeline_atToken h (hts.of_suffix hsuffix)).of_suffix hsuffix
    · have hrest := (readPipeline_forms hp (hts.of_suffix hsuffix)).suffix.trans hsuffix
      split at h
      · rename_i hparen
        rw [hparen] at hrest
        exact (readFields_offset h).of_suffix ((List.suffix_cons _ _).trans hrest)
      · cases h
        exact atToken_head
  · rcases bind_eq_error_iff.mp h with h | ⟨o, -, h⟩
    · rw [ofToken_offset h]
      exact atToken_head
    · exact (readFields_offset h).of_suffix hsuffix
termination_by 4 * ts.length + 3

lemma readOperands_atToken {scope : List String} {ts : List Token}
    (h : readOperands c scope ts = .error fault) (hts : Scannable ts) :
    AtToken c.action ts fault.offset := by
  match ts with
  | [] =>
    rw [readOperands] at h
    cases h
  | t :: ts =>
    rw [readOperands] at h
    split at h
    · cases h
    · rcases bind_eq_error_iff.mp h with h | ⟨o, ho, h⟩
      · exact readOperand_atToken h hts
      · have hforms := (readOperand_forms ho hts).1
        rcases bind_eq_error_iff.mp h with h | ⟨os, -, h⟩
        · exact (readOperands_atToken h (hforms.scannable hts)).of_suffix hforms.suffix
        · cases h
termination_by 4 * ts.length
decreasing_by
  · simp only [List.length_cons]
    omega
  · have := o.fewer
    simp only [List.length_cons]
    omega

lemma readCommands_atToken {scope : List String} {ts : List Token}
    (h : readCommands c scope ts = .error fault) (hts : Scannable ts) :
    AtToken c.action ts fault.offset := by
  rw [readCommands] at h
  rcases bind_eq_error_iff.mp h with h | ⟨os, hos, h⟩
  · exact readOperands_atToken h hts
  · split at h
    · cases h
      exact atToken_nextOffset
    · rename_i hne
      have hoperands := (readOperands_forms hos hts).resolve_left fun hnil => hne (by simp [hnil.1])
      split at h
      · rename_i rest hbar
        have hfewer : rest.length < ts.length := by
          have := os.fewer
          rw [hbar, List.length_cons] at this
          omega
        have hrest := hoperands.suffix
        rw [hbar] at hrest
        split at h
        · cases h
          exact atToken_head.of_suffix hrest
        · rcases bind_eq_error_iff.mp h with h | ⟨cs, -, h⟩
          · have hbehind := (List.suffix_cons _ rest).trans hrest
            exact (readCommands_atToken h (hts.of_suffix hbehind)).of_suffix hbehind
          · cases h
      · cases h
termination_by 4 * ts.length + 1
decreasing_by all_goals omega

lemma readPipeline_atToken {clause : Clause} {scope : List String} {ts : List Token}
    (h : readPipeline c clause scope ts = .error fault) (hts : Scannable ts) :
    AtToken c.action ts fault.offset := by
  rw [readPipeline] at h
  split at h
  · rename_i hdeclarations
    cases h
    exact readDeclarations_atToken hdeclarations
  · rename_i d hd
    have hlength := readDeclarations_length hd
    rcases bind_eq_error_iff.mp h with h | ⟨scope₁, hscope, h⟩
    · obtain ⟨v, hv, hoffset⟩ := declare_offset h
      rw [hoffset]
      exact readDeclarations_declared hd v hv
    · obtain ⟨front, hfront, -⟩ := readDeclarations_gives hd hscope
      have hsuffix : d.rest <:+ ts := ⟨front, hfront.symm⟩
      split at h
      · cases h
        exact atToken_nextOffset
      · rcases bind_eq_error_iff.mp h with h | ⟨cs, hcs, h⟩
        · exact (readCommands_atToken h (hts.of_suffix hsuffix)).of_suffix hsuffix
        · split at h
          · rename_i hconstant
            cases h
            -- the command that takes no value begins at one of the tokens that form the commands
            have hpos := commandsPositions_tail_subset _ (mem_positions_of_firstConstant hconstant)
            obtain ⟨front', hrest, hforms⟩ := readCommands_forms hcs (hts.of_suffix hsuffix)
            rw [← commandsBegins_flatten] at hpos
            obtain ⟨t, ht, rfl⟩ := exists_token_of_begins hforms.begins hpos
            exact .inr ⟨t, hsuffix.subset (hrest ▸ List.mem_append_left _ ht), rfl⟩
          · cases h
termination_by 4 * ts.length + 2
decreasing_by omega

end

/-- Tokens that are no pipeline have the fault at the action or at one of them. -/
theorem Scannable.ofTokens_atToken (h : PipelineOf.ofTokens c clause scope ts = .error fault)
    (hts : Scannable ts) : AtToken c.action ts fault.offset := by
  rcases bind_eq_error_iff.mp h with h | ⟨r, hr, h⟩
  · exact readPipeline_atToken h hts
  · have hrest := (readPipeline_forms hr hts).suffix
    split at h
    · cases h
    · rename_i hmore
      cases h
      rw [hmore] at hrest
      exact atToken_head.of_suffix hrest

end Pipelines

/-! ### Items -/

namespace Nesting

section Items

variable {ctx : PipelineContext} {n n' : Nesting} {o : Nat} {pos : Position} {ts : List Token}
  {item : Item} {clause : Clause} {fault : SyntaxFault}

/-- The offset is where a clause has been opened that is open still, or where its last part
begins. -/
def AtClause (n : Nesting) (offset : Nat) : Prop := ∃ c ∈ n.clauses, offset = c.start.offset

lemma addTree_offset {trees : Dict Tree} {t : Tree} (h : addTree trees t = .error fault) :
    fault.offset = t.root.pos.offset := by
  unfold addTree at h
  split at h
  · cases h
  · split_ifs at h
    cases h
    rfl

lemma checkEnd_atToken (h : checkEnd clause ts = .error fault) : AtToken o ts fault.offset := by
  cases ts <;> cases h
  exact atToken_head

lemma clauseName_atToken (h : clauseName clause o ts = .error fault) :
    AtToken o ts fault.offset := by
  unfold clauseName at h
  split at h <;> cases h
  · exact atToken_head
  · exact .inl rfl

lemma clauseName_suffix {name : String} {rest : List Token}
    (h : clauseName clause o ts = .ok (name, rest)) : rest <:+ ts := by
  unfold clauseName at h
  split at h <;> cases h
  exact List.suffix_cons _ _

lemma close_fault (h : n.close pos = .error fault) :
    fault.offset = pos.offset ∨ n.AtClause fault.offset := by
  unfold close at h
  split at h
  · cases h
    exact .inl rfl
  · rename_i c cs hc
    -- only a definition can be refused here, and it begins where its clause does
    refine .inr ⟨c, by simp [hc], ?_⟩
    cases ho : c.opening with
    | define name =>
      simp only [ho] at h
      rcases bind_eq_error_iff.mp h with h | ⟨_, -, h⟩
      · exact addTree_offset h
      · cases h
    | block name argument =>
      simp only [ho] at h
      rcases bind_eq_error_iff.mp h with h | ⟨_, -, h⟩
      · exact addTree_offset h
      · cases h
    | body | otherwise =>
      simp only [ho] at h
      cases h

/-- A step that reads a pipeline at the end of an action and cannot fail behind it. -/
lemma ofTokens_bind_atToken {α : Type} {c : PipelineContext} {scope : List String}
    {rest : List Token} {next : Pipeline × List String → α} (hts : Scannable ts)
    (hsuffix : rest <:+ ts)
    (h : (do let r ← PipelineOf.ofTokens c clause scope rest; return next r) = .error fault) :
    AtToken c.action ts fault.offset := by
  rcases bind_eq_error_iff.mp h with h | ⟨_, -, h⟩
  · exact ((hts.of_suffix hsuffix).ofTokens_atToken h).of_suffix hsuffix
  · cases h

lemma turn_atToken (hts : Scannable ts)
    (h : n.turn (ctx.inAction o) (ctx.positionOf o) ts = .error fault) :
    AtToken o ts fault.offset := by
  unfold turn at h
  split at h
  · cases h
    exact .inl rfl
  · rename_i c cs hc
    cases ho : c.opening with
    | define | block | otherwise =>
      simp only [ho] at h
      cases h
      exact .inl rfl
    | body kind pipe before =>
      simp only [ho] at h
      split at h
      · cases h
      · exact ofTokens_bind_atToken hts (List.suffix_cons _ _) h
      · exact ofTokens_bind_atToken hts (List.suffix_cons _ _) h
      · cases h
        exact atToken_head

lemma enterDefinition_atToken (h : n.enterDefinition (ctx.positionOf o) ts = .error fault) :
    AtToken o ts fault.offset := by
  unfold enterDefinition at h
  split at h
  · cases h
  · cases h
    exact atToken_head.of_suffix (List.suffix_cons _ _)
  · cases h
    exact .inl rfl

lemma enterBlock_atToken (hts : Scannable ts)
    (h : n.enterBlock (ctx.inAction o) (ctx.positionOf o) ts = .error fault) :
    AtToken o ts fault.offset := by
  rcases bind_eq_error_iff.mp h with h | ⟨⟨name, rest⟩, hname, h⟩
  · exact clauseName_atToken h
  · exact ofTokens_bind_atToken hts (clauseName_suffix hname) h

lemma addCall_atToken (hts : Scannable ts)
    (h : n.addCall (ctx.inAction o) (ctx.positionOf o) ts = .error fault) :
    AtToken o ts fault.offset := by
  rcases bind_eq_error_iff.mp h with h | ⟨⟨name, rest⟩, hname, h⟩
  · exact clauseName_atToken h
  · dsimp only at h
    split at h
    · cases h
    · exact ofTokens_bind_atToken hts (clauseName_suffix hname) h

lemma addLoopExit_atToken {k : Keyword} {node : Node} (hnode : node.pos.offset = o)
    (h : n.addLoopExit k node ts = .error fault) : AtToken o ts fault.offset := by
  rcases bind_eq_error_iff.mp h with h | ⟨_, -, h⟩
  · exact checkEnd_atToken h
  · split at h
    · cases h
    · cases h
      exact .inl hnode

lemma addKeyword_fault {k : Keyword} (hts : Scannable ts)
    (h : n.addKeyword (ctx.inAction o) (ctx.positionOf o) k ts = .error fault) :
    AtToken o ts fault.offset ∨ n.AtClause fault.offset := by
  cases k with
  | finish =>
    rcases bind_eq_error_iff.mp h with h | ⟨_, -, h⟩
    · exact .inl (checkEnd_atToken h)
    · exact (close_fault h).imp_left .inl
  | otherwise => exact .inl (turn_atToken hts h)
  | cond | range | withValue => exact .inl (ofTokens_bind_atToken hts List.suffix_rfl h)
  | template => exact .inl (addCall_atToken hts h)
  | block => exact .inl (enterBlock_atToken hts h)
  | breakLoop | continueLoop => exact .inl (addLoopExit_atToken rfl h)
  | define =>
    simp only [addKeyword] at h
    split at h
    · exact .inl (enterDefinition_atToken h)
    · cases h
      exact .inl (.inl rfl)

/-- An item that cannot be added is an action, and the fault lies there or where a clause has been
opened. -/
lemma addItem_fault (hitem : Scannable item.tokens) (h : n.addItem ctx item = .error fault) :
    (∃ o ts, item = .action o ts ∧ AtToken o ts fault.offset) ∨ n.AtClause fault.offset := by
  cases item with
  | text | comment => cases h
  | action o ts =>
    have haction : AtToken o ts fault.offset ∨ n.AtClause fault.offset := by
      simp only [addItem] at h
      split at h
      · have hkeyword := addKeyword_fault (hitem.of_suffix (List.suffix_cons _ _)) h
        exact hkeyword.imp_left (·.of_suffix (List.suffix_cons _ _))
      · exact .inl (ofTokens_bind_atToken hitem List.suffix_rfl h)
    exact haction.imp_left fun hts => ⟨o, ts, rfl, hts⟩

lemma atClause_add {node : Node} {offset : Nat} :
    (n.add node).AtClause offset ↔ n.AtClause offset := by
  obtain ⟨main, clauses, scope, trees⟩ := n
  cases clauses with
  | nil => exact Iff.rfl
  | cons c cs => simp [AtClause, add]

/-- A clause is opened by an action. -/
lemma Step.atClause {offset : Nat} (h : Step ctx n item n') (hn : n'.AtClause offset) :
    (∃ ts, item = .action offset ts) ∨ n.AtClause offset := by
  cases h with
  | text | comment | call | breakLoop | continueLoop => exact .inr (atClause_add.mp hn)
  | @action _ _ _ scope | @callWith _ _ _ _ _ _ _ scope =>
    exact .inr ((atClause_add (n := { n with scope })).mp hn)
  | enterBranch | enterDefinition | enterBlock =>
    obtain ⟨c, hc, rfl⟩ := hn
    rcases List.mem_cons.mp hc with rfl | hc
    · exact .inl ⟨_, rfl⟩
    · exact .inr ⟨c, hc, rfl⟩
  | turn hclauses | turnTo hclauses =>
    obtain ⟨c, hc, rfl⟩ := hn
    rcases List.mem_cons.mp hc with rfl | hc
    · exact .inl ⟨_, rfl⟩
    · exact .inr ⟨c, by simp [hclauses, hc], rfl⟩
  | closeDefinition hclauses =>
    obtain ⟨c, hc, rfl⟩ := hn
    exact .inr ⟨c, by rw [hclauses]; exact List.mem_cons_of_mem _ hc, rfl⟩
  | closeBlock hclauses | closeBody hclauses | closeOtherwise hclauses =>
    obtain ⟨c, hc, rfl⟩ := atClause_add.mp hn
    exact .inr ⟨c, by rw [hclauses]; exact List.mem_cons_of_mem _ hc, rfl⟩

/-- The open clauses have been opened by actions among the items. -/
lemma foldlM_addItem_atClause {items : List Item} {offset : Nat}
    (h : items.foldlM (fun n item => n.addItem ctx item) start = .ok n)
    (hn : n.AtClause offset) : ∃ ts, .action offset ts ∈ items := by
  refine foldlM_addItem_keeps (I := fun n => n.AtClause offset → ∃ ts, .action offset ts ∈ items)
    (by simp [AtClause, start]) ?_ h hn
  rintro m m' item ⟨before, after, rfl, -⟩ hm hstep hm'
  rcases hstep.atClause hm' with ⟨ts, rfl⟩ | hclause
  · exact ⟨ts, by simp⟩
  · exact hm hclause

end Items

end Nesting

/-! ### Sources -/

section Source

variable {d : Delimiters} {isFunction : String → Bool} {name source : String}
  {items : List Item} {fault : SyntaxFault} {offset : Nat}

/-- A fault can lie at an action of a source and at its tokens. -/
lemma AtToken.faultAt {o : Nat} {ts : List Token} (h : AtToken o ts offset)
    (haction : (Item.action o ts).IsAt d source.toList) : FaultAt d source.toList offset := by
  obtain rfl | ⟨t, ht, rfl⟩ := h
  · cases haction with
    | enclosed htext henclosed =>
      obtain rfl := henclosed.offset_eq
      exact .delimiter htext.left
  · obtain ⟨hlexeme, htext⟩ := haction.textAt t ht
    obtain ⟨c, cs, hcs⟩ := List.exists_cons_of_ne_nil hlexeme.ne_nil
    rw [hcs] at htext
    exact .character htext.head (hlexeme.start c (by simp [hcs]))

/-- A source that is refused has its fault at a place where one can lie. -/
theorem Tree.ofSource_faultAt (h : Tree.ofSource d isFunction name source = .error fault) :
    FaultAt d source.toList fault.offset := by
  rcases bind_eq_error_iff.mp h with h | ⟨items, hitems, h⟩
  · exact Item.ofSource_faultAt h
  have hfaultAt : ∀ {o : Nat} {ts : List Token} {offset : Nat}, .action o ts ∈ items →
      AtToken o ts offset → FaultAt d source.toList offset :=
    fun haction hts => hts.faultAt (ofSource_isAt hitems _ haction)
  rcases bind_eq_error_iff.mp h with h | ⟨n, hn, h⟩
  · obtain ⟨before, item, after, n, rfl, hbefore, hitem⟩ := foldlM_eq_error h
    have hscannable := ofSource_scannable hitems item (by simp)
    rcases Nesting.addItem_fault hscannable hitem with ⟨o, ts, rfl, hts⟩ | hclause
    · exact hfaultAt (by simp) hts
    · obtain ⟨ts, haction⟩ := Nesting.foldlM_addItem_atClause hbefore hclause
      exact hfaultAt (List.mem_append_left _ haction) (.inl rfl)
  · unfold Nesting.finish at h
    split at h
    · rw [Nesting.addTree_offset h]
      exact .start
    · rename_i c cs hclauses
      cases h
      obtain ⟨ts, haction⟩ := Nesting.foldlM_addItem_atClause hn
        ⟨c, by simp [hclauses], rfl⟩
      exact hfaultAt haction (.inl rfl)

end Source

end SafeQuery
