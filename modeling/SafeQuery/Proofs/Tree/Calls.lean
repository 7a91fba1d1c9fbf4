import SafeQuery.Proofs.Token.Quoting
import SafeQuery.Proofs.Tree.Rereading
import SafeQuery.Proofs.Tree.Step

/-!
# Calls that are read again

The name of a template is quoted where its call is printed. The printed call is read as a call of
the same template exactly if no character of the name is quoted with its code point,
`callText_again`: the escapes of strings are others.
-/

namespace SafeQuery

/-- Both parts of the printed call are read again. -/
structure CallAgain (ctx : PipelineContext) (n : Nesting) (name : String)
    (argument : Option Pipeline) (tokens : List Token) (argument' : Option Pipeline) : Prop where
  lexed : Item.ofSource .braces (callText name argument) = .ok [.action 0 tokens]
  added : n.addItem ctx (.action 0 tokens) =
    .ok ({ n with scope := argument.elim n.scope (·.scopeBehind n.scope) }.add
      (.call (ctx.positionOf 0) name argument'))
  same : argument'.map PipelineOf.unplaced = argument.map PipelineOf.unplaced

/-- The printed call is lexed as one action, and this action is read as a call of a template of the
same name. -/
def NameSurvives (ctx : PipelineContext) (n : Nesting) (name : String)
    (argument : Option Pipeline) : Prop :=
  ∃ tokens scope pos argument', Item.ofSource .braces (callText name argument) =
      .ok [.action 0 tokens] ∧
    n.addItem ctx (.action 0 tokens) =
      .ok ({ n with scope }.add (.call pos name argument'))

def callWords (name : String) (argument : Option Pipeline) : List Word :=
  ⟨.keyword .template, false⟩ :: ⟨.string (Text.quoteText name) name, true⟩ ::
    argument.elim [] (·.words true)

section Again

variable {ctx : PipelineContext} {n : Nesting} {name : String} {argument : Option Pipeline}

lemma isQuoted_quoteText (h : ∀ c ∈ name.toList, Text.isCoded c = false) :
    TokenKind.IsQuoted (Text.quoteText name) name := by
  refine .inr ⟨name.toList.flatMap (Text.escapeIn '"') ++ ['"'], [], ?_, ?_⟩
  · rw [Text.quoteText, String.toList_ofList]
    rfl
  · rw [List.append_nil]
    exact scanString_quoted h []

/-- The source of a call is spelled with the words of the call. -/
lemma callText_spelled {known : String → Bool} {scope : List String} (name : String)
    (h : ∀ p ∈ argument, p.Readable known false scope) :
    ∃ s, callText name argument = inBraces s ∧ s.toList = spell (callWords name argument) := by
  cases argument with
  | none =>
    refine ⟨_, rfl, ?_⟩
    simp [callWords, spell, gap, TokenKind.print, Keyword.word]
  | some p =>
    refine ⟨_, rfl, ?_⟩
    have hp := (h p rfl).spell_words true
    simp [callWords, spell, gap, TokenKind.print, Keyword.word, hp]

/-- The words of a call can be written if no character of the name is quoted with its code point. -/
lemma callWords_lexable {known : String → Bool} {scope : List String}
    (hname : ∀ c ∈ name.toList, Text.isCoded c = false)
    (h : ∀ p ∈ argument, p.Readable known false scope) :
    Lexable (callWords name argument) ['\x7d', '\x7d'] := by
  have hargument : Lexable (argument.elim [] (·.words true)) ['\x7d', '\x7d'] := by
    cases argument with
    | none   => trivial
    | some p => exact (h p rfl).words_lexable true (runsOn_cons (by decide) _)
  exact ⟨trivial, avoids_of_runsOn (runsOn_spell_spaced _ _ _), isQuoted_quoteText hname, trivial,
    hargument⟩

/-- A call is read again if its name is. -/
lemma exists_callAgain (hname : ∀ c ∈ name.toList, Text.isCoded c = false)
    (h : ∀ p ∈ argument, p.Readable ctx.isFunction false n.scope) :
    ∃ tokens argument', CallAgain ctx n name argument tokens argument' := by
  obtain ⟨s, hs, hspell⟩ := callText_spelled name h
  obtain ⟨tokens, hitems, hwords⟩ := ofSource_inBraces (callWords_lexable hname h) rfl hspell
  rw [← hs] at hitems
  simp only [List.map_eq_cons_iff, word_eq_iff] at hwords
  obtain ⟨_, _, rfl, ⟨at₁, rfl⟩, _, ts, rfl, ⟨at₂, rfl⟩, hts⟩ := hwords
  cases argument with
  | none =>
    obtain rfl := List.map_eq_nil_iff.mp hts
    exact ⟨_, none, hitems, rfl, rfl⟩
  | some p =>
    have hreadable : p.Readable (ctx.inAction 0).isFunction (Clause.templateCall).isLoop n.scope :=
      h p rfl
    obtain ⟨p', hp, hsame⟩ := hreadable.ofTokens_again hts
    obtain ⟨kind, ws, hkind⟩ := (h p rfl).words_eq_cons
    have hne : ts.isEmpty = false := by
      cases ts with
      | nil      =>
        rw [Option.elim_some, hkind] at hts
        cases hts
      | cons _ _ => rfl
    refine ⟨_, some p', hitems, ?_, congrArg some hsame⟩
    show n.addCall (ctx.inAction 0) (ctx.positionOf 0) _ = _
    simp only [Nesting.addCall, Nesting.clauseName, bind, Except.bind, hne, hp]
    rfl

/-! ### Names that are lost -/

lemma scanToken_quote {cs : List Char} {r : Scanned TokenKind} (h : scanToken ('"' :: cs) = .ok r) :
    ∃ text written rest, scanString .plain cs = .closed text written rest ∧
      r.value = .string (String.ofList ('"' :: written)) (String.ofList text) := by
  rw [scanToken_of_unmarked (by decide), scanNumber_eq_none (by decide) (by decide) (by decide)]
    at h
  simp only [scanWord, show ('"' = '.') = False by decide, show ('"' = '$') = False by decide,
    show ('"' = rawQuote) = False by decide, if_false, if_true] at h
  split at h
  · rename_i text written rest hstring
    cases h
    exact ⟨text, written, rest, hstring, rfl⟩
  all_goals cases h

/-- The text of a printed call, up to the name and behind it. -/
lemma callText_quoted (name : String) (argument : Option Pipeline) :
    ∃ rest, (callText name argument).toList = Delimiters.braces.left.toList ++
      ((TokenKind.keyword .template).print.toList ++
        (gap true ++ '"' :: (name.toList.flatMap (Text.escapeIn '"') ++ '"' :: rest))) := by
  cases argument with
  | none =>
    refine ⟨['\x7d', '\x7d'], ?_⟩
    simp [callText, inBraces, Text.quoteText, TokenKind.print, Keyword.word, gap, Delimiters.braces]
  | some p =>
    refine ⟨' ' :: p.print.toList ++ ['\x7d', '\x7d'], ?_⟩
    simp [callText, inBraces, Text.quoteText, TokenKind.print, Keyword.word, gap, Delimiters.braces]

/-- The only item of a source that begins with a left delimiter is what it encloses. -/
lemma lexEnclosed_of_lexFrom {d : Delimiters} {s : List Char} {o : Nat} {tokens : List Token}
    (hleft : d.left.toList ≠ [])
    (h : lexFrom d 0 false (d.left.toList ++ s) = .ok [.action o tokens]) :
    ∃ closed, lexEnclosed d 0 s = .ok closed ∧ closed.value = .action o tokens := by
  rw [lexFrom, dif_neg fun hnil => hleft hnil.1] at h
  split at h
  · rename_i hnone
    rw [splitAt_mark _ _ hleft] at hnone
    cases hnone
  · rename_i before after hsome
    rw [splitAt_mark _ _ hleft] at hsome
    cases hsome
    split at h
    · cases h
    · rename_i closed hclosed
      split at h
      · cases h
      · rw [textItem_nil] at h
        exact ⟨closed, hclosed, (List.cons.inj (Except.ok.inj h)).1⟩

/-- A token that an action begins with, and what is lexed behind it. -/
lemma lexAction_eq_ok {s : List Char} (hbegins : BeginsToken s) (spaced : Bool) {first : Bool}
    {opened offset : Nat} {closed : Closed (List Token)}
    (h : lexAction ['\x7d', '\x7d'] opened offset first (gap spaced ++ s) = .ok closed) :
    ∃ r at₁ offset' behind, scanToken s = .ok r ∧
      lexAction ['\x7d', '\x7d'] opened offset' false r.rest = .ok behind ∧
      closed.value = ⟨r.value, at₁, first || spaced⟩ :: behind.value := by
  rw [lexAction_gap hbegins] at h
  cases hscan : scanToken s with
  | error cause =>
    rw [hscan] at h
    cases h
  | ok r =>
    simp only [hscan] at h
    split at h
    · cases h
    · rename_i behind hbehind
      cases h
      exact ⟨r, _, _, behind, rfl, hbehind, rfl⟩

/-- The first tokens of a printed call that can be lexed: the name is what is read of the quoted
name. -/
lemma lexed_callText {o : Nat} {tokens : List Token}
    (h : Item.ofSource .braces (callText name argument) = .ok [.action o tokens]) :
    ∃ at₁ at₂ ts rest text written rest', scanString .plain
        (name.toList.flatMap (Text.escapeIn '"') ++ '"' :: rest) = .closed text written rest' ∧
      tokens = ⟨.keyword .template, at₁, true⟩ ::
        ⟨.string (String.ofList ('"' :: written)) (String.ofList text), at₂, true⟩ :: ts := by
  obtain ⟨rest, htext⟩ := callText_quoted name argument
  have hkeyword : (TokenKind.keyword .template).IsLexical := trivial
  rw [Item.ofSource, htext] at h
  obtain ⟨⟨_, _, _, _⟩, hclosed, rfl⟩ := lexEnclosed_of_lexFrom (by decide) h
  have hbegins := hkeyword.beginsToken.append
    (gap true ++ '"' :: (name.toList.flatMap (Text.escapeIn '"') ++ '"' :: rest))
  simp only [lexEnclosed, hbegins.not_opensTrimmed, Bool.false_eq_true, if_false,
    List.drop_zero] at hclosed
  split at hclosed
  · rename_i hcomment
    cases hcomment
  · split at hclosed
    · cases hclosed
    · rename_i action haction
      cases hclosed
      obtain ⟨r, at₁, _, behind, hscan, hbehind, htokens⟩ :=
        lexAction_eq_ok hbegins false haction
      rw [scanToken_print_append hkeyword (avoids_of_runsOn (runsOn_gap _))] at hscan
      cases hscan
      have hquote : BeginsToken
          ('"' :: (name.toList.flatMap (Text.escapeIn '"') ++ '"' :: rest)) :=
        .append (show BeginsToken ['"'] from ⟨by decide, by decide⟩) _
      obtain ⟨r, at₂, _, ts, hscan, -, htokens'⟩ := lexAction_eq_ok hquote true hbehind
      obtain ⟨text, written, rest', hstring, hvalue⟩ := scanToken_quote hscan
      refine ⟨at₁, at₂, ts.value, rest, text, written, rest', hstring, ?_⟩
      rw [htokens, htokens', hvalue]
      rfl

lemma call_inj {n n' : Nesting} {pos pos' : Position} {x y : String}
    {argument argument' : Option Pipeline}
    (h : n.add (.call pos x argument) = n'.add (.call pos' y argument')) : x = y := by
  obtain ⟨main, clauses, scope, trees⟩ := n
  obtain ⟨main', clauses', scope', trees'⟩ := n'
  rcases clauses with _ | ⟨⟨_, _, _, _, _⟩, _⟩
  · rcases clauses' with _ | _
    · cases h
      rfl
    · cases h
  · rcases clauses' with _ | ⟨⟨_, _, _, _, _⟩, _⟩
    · cases h
    · cases h
      rfl

/-- Where a call is read, a name is read whose characters are not quoted with their code points. -/
lemma not_isCoded_of_nameSurvives (h : NameSurvives ctx n name argument) :
    ∀ c ∈ name.toList, Text.isCoded c = false := by
  obtain ⟨tokens, scope, pos, argument', hitems, hadded⟩ := h
  obtain ⟨at₁, at₂, ts, rest, text, written, rest', hstring, rfl⟩ := lexed_callText hitems
  have hname : text = name.toList := by
    rw [← String.toList_ofList (l := text)]
    refine congrArg String.toList ?_
    have hcall : n.addCall (ctx.inAction 0) (ctx.positionOf 0) _ = _ := hadded
    simp only [Nesting.addCall, Nesting.clauseName, bind, Except.bind] at hcall
    split at hcall
    · exact call_inj (Except.ok.inj hcall)
    · split at hcall
      · cases hcall
      · exact call_inj (Except.ok.inj hcall)
  subst hname
  exact scanString_quoted_iff.mp ⟨written, rest', hstring⟩

/-- The name of a printed call survives exactly if none of its characters is quoted with its code
point, and then the call is read again as a whole. -/
theorem callText_again (h : ∀ p ∈ argument, p.Readable ctx.isFunction false n.scope) :
    (NameSurvives ctx n name argument ↔ ∀ c ∈ name.toList, Text.isCoded c = false) ∧
      (NameSurvives ctx n name argument →
        ∃ tokens argument', CallAgain ctx n name argument tokens argument') := by
  refine ⟨⟨not_isCoded_of_nameSurvives, fun hname => ?_⟩, fun hsurvives => ?_⟩
  · obtain ⟨tokens, argument', hcall⟩ := exists_callAgain hname h
    exact ⟨tokens, _, _, argument', hcall.lexed, hcall.added⟩
  · exact exists_callAgain (not_isCoded_of_nameSurvives hsurvives) h

/-- A name with quotes and letters for controls survives before an argument, and one with a control
that has no letter does not. -/
theorem callText_again_of_delete :
    let ctx : PipelineContext := ⟨fun _ => 1, fun _ => false, 0⟩
    let argument : Pipeline := ⟨default, false, [], [⟨default, [.dot default]⟩]⟩
    argument.Readable ctx.isFunction false Nesting.start.scope ∧
      NameSurvives ctx .start "é\"\\\n" (some argument) ∧
      ¬ NameSurvives ctx .start "\x7f" none := by
  intro ctx argument
  have hargument : argument.Readable ctx.isFunction false Nesting.start.scope := by
    have hdeclarable : Declarable false Nesting.start.scope false [] :=
      ⟨by simp, by simp, by simp, by simp⟩
    exact ⟨hdeclarable, List.cons_ne_nil _ _, by simp [argument, TakeValues],
      List.cons_ne_nil _ _, ⟨trivial, trivial⟩, trivial⟩
  have hreadable : ∀ p ∈ some argument, p.Readable ctx.isFunction false Nesting.start.scope := by
    rintro _ ⟨⟩
    exact hargument
  refine ⟨hargument, ?_, ?_⟩
  · have hletters : "é\"\\\n".toList.all (fun c => !Text.isCoded c) = true := by decide +kernel
    rw [List.all_eq_true] at hletters
    exact (callText_again hreadable).1.mpr fun c hc => by simpa using hletters c hc
  · intro h
    have hnone : ∀ p ∈ (none : Option Pipeline), p.Readable ctx.isFunction false
        Nesting.start.scope := by simp
    have hread := (callText_again hnone).1.mp h '\x7f' (by decide)
    have hcoded : Text.isCoded '\x7f' = true := by decide +kernel
    rw [hread] at hcoded
    cases hcoded

end Again

end SafeQuery
