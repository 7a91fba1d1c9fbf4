import SafeQuery.Proofs.Tree.Rereading

/-!
# Actions of one token

A token that makes an operand alone is read as the pipeline of this operand, or fails as the operand
does, `ofTokens_lone`; as the only item of a source it makes the tree of this one action,
`Tree.ofSource_lone`.
-/

namespace SafeQuery

/-- The pipeline of an operand alone. -/
def PipelineOf.ofOperand (pos : Position) (o : Operand) : Pipeline := ⟨pos, false, [], [⟨pos, [o]⟩]⟩

@[simp] lemma PipelineOf.print_ofOperand (pos : Position) (o : Operand) :
    (ofOperand pos o).print = o.print := by
  simp [print, ofOperand, declarationText, printCommands, printOperands]

/-- The token neither separates commands nor is a parenthesis or a keyword. -/
def TokenKind.IsLone : TokenKind → Prop
  | bar | leftParen | rightParen | keyword _ => False
  | _                                        => True

section Lone

variable {c : PipelineContext} {t : Token} {scope : List String}

lemma readDeclarations_lone (c : PipelineContext) (clause : Clause) (hlone : t.kind.IsLone) :
    readDeclarations c clause [t] = .ok ⟨false, [], [t]⟩ := by
  unfold readDeclarations
  dsimp only
  split <;> first | rfl | (rename_i heq; cases heq)

lemma endsCommand_lone (hlone : t.kind.IsLone) : endsCommand [t] = false := by
  obtain ⟨kind, offset, spaced⟩ := t
  cases kind with
  | bar | rightParen => cases hlone
  | _ => rfl

lemma endsPipeline_lone (hlone : t.kind.IsLone) : endsPipeline [t] = false := by
  obtain ⟨kind, offset, spaced⟩ := t
  cases kind with
  | rightParen => cases hlone
  | _ => rfl

lemma TokenKind.IsLone.ne_leftParen {kind : TokenKind} (hlone : kind.IsLone) :
    kind ≠ .leftParen := by
  rintro rfl
  cases hlone

/-- A token that makes an operand is read as a pipeline of it. -/
lemma ofTokens_lone (clause : Clause) {o : Operand} (hlone : t.kind.IsLone)
    (ho : Operand.ofToken c scope t = .ok o) :
    PipelineOf.ofTokens c clause scope [t] = .ok (.ofOperand (c.positionOf t.offset) o, scope) := by
  have hoperand : ∃ fewer, readOperand c scope t [] = .ok ⟨o, scope, [], fewer⟩ := by
    obtain ⟨fewer, h⟩ := readOperand_of_token [] hlone.ne_leftParen ho
    exact ⟨fewer, h.trans (readFields_of_detached trivial)⟩
  have hoperands := readOperands_cons (endsCommand_lone hlone) hoperand
    (readOperands_of_endsCommand scope rfl)
  have hcommands := readCommands_last (by simp) rfl hoperands
  obtain ⟨fewer, hpipeline⟩ := readPipeline_of_parts (readDeclarations_lone c clause hlone)
    (show declare ⟨false, [], [t]⟩ scope = .ok scope from rfl) (endsPipeline_lone hlone) hcommands
    (by simp [TakeValues])
  rw [PipelineOf.ofTokens, hpipeline]
  rfl

/-- A token that makes none fails as a pipeline. -/
lemma ofTokens_lone_error (clause : Clause) {fault : SyntaxFault} (hlone : t.kind.IsLone)
    (ho : Operand.ofToken c scope t = .error fault) :
    PipelineOf.ofTokens c clause scope [t] = .error fault := by
  have hoperand : readOperand c scope t [] = .error fault := by
    rw [readOperand, if_neg hlone.ne_leftParen, ho]
    rfl
  have hoperands : readOperands c scope [t] = .error fault := by
    rw [readOperands, endsCommand_lone hlone, if_neg Bool.false_ne_true, hoperand]
    rfl
  have hcommands : readCommands c scope [t] = .error fault := by
    rw [readCommands, hoperands]
    rfl
  have hpipeline : readPipeline c clause scope [t] = .error fault := by
    rw [readPipeline]
    split
    · rename_i heq
      rw [readDeclarations_lone c clause hlone] at heq
      cases heq
    · rename_i heq
      rw [readDeclarations_lone c clause hlone] at heq
      cases heq
      have hdeclare : declare ⟨false, [], [t]⟩ scope = .ok scope := rfl
      simp only [hdeclare, endsPipeline_lone hlone, hcommands, bind, Except.bind,
        Bool.false_eq_true, if_false]
  rw [PipelineOf.ofTokens, hpipeline]
  rfl

end Lone

/-! ### One word between delimiters -/

/-- Between the delimiters the token is found again: it does not run into the right one, and the
right one is seen neither before it nor as blank space. -/
structure Delimiters.Enclose (d : Delimiters) (kind : TokenKind) : Prop where
  left : d.left.toList ≠ []
  right : d.right.toList ≠ []
  blank : Avoids Text.isSpace d.right.toList
  ends : kind.EndsAt d.right.toList
  behind : ¬ d.right.toList <+: kind.print.toList ++ d.right.toList

section Enclosed

variable {d : Delimiters} {kind : TokenKind}

lemma TokenKind.endsAt_braces (kind : TokenKind) : kind.EndsAt ['\x7d', '\x7d'] := by
  have hruns : runsOn ['\x7d', '\x7d'] = false := by decide
  cases kind <;> first | trivial | exact hruns | exact avoids_of_runsOn hruns

/-- Braces enclose every token. -/
lemma braces_enclose (hlexical : kind.IsLexical) : Delimiters.braces.Enclose kind := by
  have hright : Delimiters.braces.right.toList = ['\x7d', '\x7d'] := rfl
  refine ⟨by decide, by decide, .cons (by decide), kind.endsAt_braces, fun hprefix => ?_⟩
  have hbegins := hlexical.beginsToken.append Delimiters.braces.right.toList
  obtain ⟨s, hs⟩ := hprefix
  rw [← hs, hright] at hbegins
  exact absurd (show '\x7d' ∈ unread by decide) hbegins.1

/-- The end of an action that has no token left. -/
lemma lexAction_end {right : List Char} (hblank : Avoids Text.isSpace right)
    (opened offset : Nat) :
    ∃ offset', lexAction right opened offset false right = .ok ⟨[], offset', [], false⟩ := by
  have htake : right.takeWhile Text.isSpace = [] := takeWhile_append (l := []) (by simp) hblank
  have hdrop : right.dropWhile Text.isSpace = right := dropWhile_append (l := []) (by simp) hblank
  have hmark : closingMark? right false right = some (right, false) := by
    rw [closingMark?, Bool.false_and, if_neg Bool.false_ne_true,
      if_pos (List.isPrefixOf_iff_prefix.mpr List.prefix_rfl)]
  rw [lexAction]
  simp only [htake, hdrop, List.isEmpty_nil, Bool.not_true, hmark, List.drop_length]
  exact ⟨_, rfl⟩

/-- An action that is one word. -/
lemma lexAction_word (h : d.Enclose kind) (hlexical : kind.IsLexical) (opened offset : Nat) :
    ∃ offset', lexAction d.right.toList opened offset true
        (kind.print.toList ++ d.right.toList) =
      .ok ⟨[⟨kind, offset, true⟩], offset', [], false⟩ := by
  obtain ⟨c, cs, hcs, hspace⟩ := (hlexical.beginsToken.append d.right.toList).exists_cons
  have hblank : Avoids Text.isSpace (kind.print.toList ++ d.right.toList) := hcs ▸ .cons hspace
  have htake := takeWhile_append (l := []) (by simp) hblank
  have hdrop := dropWhile_append (l := []) (by simp) hblank
  have hmark : closingMark? d.right.toList false (kind.print.toList ++ d.right.toList) = none := by
    rw [closingMark?, Bool.false_and, if_neg Bool.false_ne_true,
      if_neg fun hprefix => h.behind (List.isPrefixOf_iff_prefix.mp hprefix)]
  have hscan := scanToken_print_append hlexical h.ends
  obtain ⟨offset', hend⟩ := lexAction_end h.blank opened
    (offset + Text.width [] + Text.width kind.print.toList)
  rw [List.nil_append] at htake hdrop
  -- There is no blank space and no mark in front, so that the word is scanned up to the mark.
  rw [lexAction]
  simp only [htake, hdrop, List.isEmpty_nil, Bool.not_true, hmark]
  split
  · rename_i hnil
    rw [hdrop, hcs] at hnil
    cases hnil
  · rename_i hcons
    rw [hdrop] at hcons
    rw [← hcons]
    split
    · rename_i herror
      rw [hscan] at herror
      cases herror
    · rename_i hok
      rw [hscan] at hok
      cases hok
      rw [hend]
      exact ⟨_, rfl⟩

/-- The source of an action that is one word is one action of this token. -/
theorem ofSource_word (h : d.Enclose kind) (hlexical : kind.IsLexical) :
    Item.ofSource d (d.left ++ kind.print ++ d.right) =
      .ok [.action 0 [⟨kind, Text.width d.left.toList, true⟩]] := by
  have hbegins := hlexical.beginsToken.append d.right.toList
  obtain ⟨offset', hword⟩ := lexAction_word h hlexical 0 (Text.width d.left.toList)
  have hclosed : lexEnclosed d 0 (kind.print.toList ++ d.right.toList) =
      .ok ⟨.action 0 [⟨kind, Text.width d.left.toList, true⟩], offset', [], false⟩ := by
    obtain ⟨c, cs, hcs, -⟩ := hbegins.exists_cons
    simp only [lexEnclosed, hbegins.not_opensTrimmed, Bool.false_eq_true, if_false, List.drop_zero,
      Nat.add_zero, Nat.zero_add]
    split
    · rename_i heq
      rw [heq] at hbegins
      exact absurd (show '/' ∈ unread by decide) hbegins.1
    · rw [hword]
  have hsource : (d.left ++ kind.print ++ d.right).toList =
      d.left.toList ++ (kind.print.toList ++ d.right.toList) := by
    rw [String.toList_append, String.toList_append, List.append_assoc]
  have hsplit : splitAt? d.left.toList [] = none := by
    rw [splitAt?, if_neg (by simpa using h.left)]
  have hrest : lexFrom d offset' false [] = .ok [] := lexFrom_text h.left hsplit
  rw [Item.ofSource, hsource]
  have haction := lexFrom_enclosed false h.left (splitAt_mark _ _ h.left) hclosed hrest
  rwa [textItem_nil] at haction

end Enclosed

/-! ### One action as a source -/

section Source

variable {d : Delimiters} {isFunction : String → Bool} {source : String} {t : Token} {offset : Nat}

lemma addItem_lone (ctx : PipelineContext) (n : Nesting) (hlone : t.kind.IsLone) :
    n.addItem ctx (.action offset [t]) =
      PipelineOf.ofTokens (ctx.inAction offset) .command n.scope [t] >>= fun r =>
        .ok ({ n with scope := r.2 }.add (.action (ctx.positionOf offset) r.1)) := by
  obtain ⟨kind, at₁, spaced⟩ := t
  cases kind with
  | keyword k => cases hlone
  | _ => rfl

/-- The trees of a source of one item. -/
lemma Tree.ofSource_item (name : String) {item : Item} (hitems : Item.ofSource d source = .ok [item]) :
    Tree.ofSource d isFunction name source =
      (Nesting.start.addItem (.ofSource isFunction source) item >>= fun n =>
        n.finish (.ofSource isFunction source) name) := by
  simp only [Tree.ofSource, hitems, bind, Except.bind, List.foldlM, PipelineContext.ofSource]
  cases Nesting.start.addItem _ item <;> rfl

/-- A source that is the action of one token is read as the tree of the operand of this token. -/
theorem Tree.ofSource_lone (name : String) {o : Operand} (hlone : t.kind.IsLone)
    (hitems : Item.ofSource d source = .ok [.action offset [t]])
    (ho : Operand.ofToken ((PipelineContext.ofSource isFunction source).inAction offset) ["$"] t =
      .ok o) :
    let ctx := PipelineContext.ofSource isFunction source
    Tree.ofSource d isFunction name source =
      .ok (Dict.empty.insert name ⟨name, ⟨ctx.positionOf 0,
        [.action (ctx.positionOf offset) (.ofOperand (ctx.positionOf t.offset) o)]⟩⟩) := by
  intro ctx
  rw [ofSource_item name hitems, addItem_lone _ _ hlone, Nesting.start, ofTokens_lone .command hlone ho]
  rfl

/-- The source cannot be read if its token makes no operand. -/
theorem Tree.ofSource_lone_error (name : String) {fault : SyntaxFault} (hlone : t.kind.IsLone)
    (hitems : Item.ofSource d source = .ok [.action offset [t]])
    (ho : Operand.ofToken ((PipelineContext.ofSource isFunction source).inAction offset) ["$"] t =
      .error fault) :
    Tree.ofSource d isFunction name source = .error fault := by
  rw [ofSource_item name hitems, addItem_lone _ _ hlone, Nesting.start,
    ofTokens_lone_error .command hlone ho]
  rfl

end Source

end SafeQuery
