import SafeQuery.Proofs.Tree.Readable
import SafeQuery.Tree.Printer

/-!
# Words of printed pipelines

The words of a pipeline are the tokens of its printed form, each with the space before it. A
pipeline that can be read is printed as its words are spelled, `PipelineOf.spell_words`, and the
scanner finds the words again in what is spelled, `lexAction_spell`.
-/

namespace SafeQuery

/-- A token and whether a space stands before it. -/
structure Word where
  kind : TokenKind
  spaced : Bool

def Token.word (t : Token) : Word := ⟨t.kind, t.spaced⟩

/-- A space, or nothing. -/
def gap (spaced : Bool) : List Char := if spaced then [' '] else []

def spell : List Word → List Char
  | []      => []
  | w :: ws => gap w.spaced ++ (w.kind.print.toList ++ spell ws)

@[simp] lemma spell_append (ws vs : List Word) : spell (ws ++ vs) = spell ws ++ spell vs := by
  induction ws with
  | nil => rfl
  | cons w ws ih => simp only [List.cons_append, spell, ih, List.append_assoc]

/-- The words of the variables that a pipeline gives its value to. -/
def declarationWords (spaced assigns : Bool) : List Variable → List Word
  | []      => []
  | [v]     =>
    [⟨.var v.name v.fields, spaced⟩, ⟨if assigns then .assign else .declare, true⟩]
  | v :: vs =>
    ⟨.var v.name v.fields, spaced⟩ :: ⟨.comma, false⟩ :: declarationWords true assigns vs

mutual

def Operand.words (spaced : Bool) : Operand → List Word
  | .identifier _ name   => [⟨.identifier name, spaced⟩]
  | .dot _               => [⟨.dot, spaced⟩]
  | .nil _               => [⟨.nil, spaced⟩]
  | .bool _ b            => [⟨.bool b, spaced⟩]
  | .number n            => [⟨.number n.text, spaced⟩]
  | .string _ quoted text => [⟨.string quoted text, spaced⟩]
  | .field _ names       => [⟨.field names, spaced⟩]
  | .var v               => [⟨.var v.name v.fields, spaced⟩]
  | .chain _ base names  => base.words spaced ++ [⟨.field names, false⟩]
  | .pipeline ⟨_, assigns, declared, commands⟩ =>
    ⟨.leftParen, spaced⟩ :: (declarationWords false assigns declared ++
      (commandsWords (!declared.isEmpty) commands ++ [⟨.rightParen, false⟩]))

def operandsWords (spaced : Bool) : List Operand → List Word
  | []      => []
  | o :: os => o.words spaced ++ operandsWords true os

def commandsWords (spaced : Bool) : List (CommandOf Operand) → List Word
  | []            => []
  | [⟨_, os⟩]     => operandsWords spaced os
  | ⟨_, os⟩ :: cs => operandsWords spaced os ++ ⟨.bar, true⟩ :: commandsWords true cs

end

def PipelineOf.words (spaced : Bool) (p : Pipeline) : List Word :=
  declarationWords spaced p.assigns p.declared ++
    commandsWords (spaced || !p.declared.isEmpty) p.commands

lemma commandsWords_cons (spaced : Bool) (pos : Position) (os : List Operand) (c : Command)
    (cs : List Command) :
    commandsWords spaced (⟨pos, os⟩ :: c :: cs) =
      operandsWords spaced os ++ ⟨.bar, true⟩ :: commandsWords true (c :: cs) := by
  rw [commandsWords]
  simp

lemma printOperands_cons (o o' : Operand) (os : List Operand) :
    printOperands (o :: o' :: os) = o.print ++ " " ++ printOperands (o' :: os) := by
  rw [printOperands]
  simp

lemma printCommands_cons (pos : Position) (os : List Operand) (c : Command) (cs : List Command) :
    printCommands (⟨pos, os⟩ :: c :: cs) =
      printOperands os ++ " | " ++ printCommands (c :: cs) := by
  rw [printCommands]
  simp

section Printing

variable {known : String → Bool}

lemma declarationText_cons (assigns : Bool) (v w : Variable) (vs : List Variable) :
    declarationText assigns (v :: w :: vs) =
      v.print ++ ", " ++ declarationText assigns (w :: vs) := by
  simp only [declarationText, List.map_cons, String.intercalate_cons_cons, String.append_assoc]

/-- The variables are printed as they are spelled, with a space before what follows. -/
lemma spell_declarationWords (spaced assigns : Bool) (vs : List Variable) :
    spell (declarationWords spaced assigns vs) ++ gap (spaced || !vs.isEmpty) =
      gap spaced ++ (declarationText assigns vs).toList := by
  induction vs generalizing spaced with
  | nil => simp [declarationWords, declarationText, spell]
  | cons v vs ih =>
    cases vs with
    | nil =>
      cases assigns
      all_goals
        simp [declarationWords, declarationText, spell, gap, Variable.print, fieldsText,
          TokenKind.print]
    | cons w vs =>
      have hrest := ih true
      simp only [List.isEmpty_cons, Bool.not_false, Bool.or_true] at hrest ⊢
      rw [declarationText_cons]
      simpa [declarationWords, spell, gap, Variable.print, fieldsText, TokenKind.print] using hrest

mutual

/-- An operand is printed as it is spelled. -/
lemma Operand.Readable.spell_words {scope : List String} {o : Operand} (h : o.Readable known scope)
    (spaced : Bool) : spell (o.words spaced) = gap spaced ++ o.print.toList := by
  match o with
  | .identifier _ _ | .dot _ | .nil _ | .bool _ _ | .number _ | .string _ _ _ | .field _ _ =>
    simp only [Operand.words, spell, List.append_nil]
    rfl
  | .var v => simp only [Operand.words, spell, List.append_nil]; rfl
  | .chain _ base names =>
    simp only [Operand.words, spell_append, h.2.2.spell_words spaced, Operand.print,
      String.toList_append, List.append_assoc, spell, List.append_nil]
    rfl
  | .pipeline ⟨_, assigns, declared, commands⟩ =>
    have hdeclared := spell_declarationWords false assigns declared
    have hcommands := commandsReadable_spell_words h.2.2.2 h.2.1 (!declared.isEmpty)
    rw [Bool.false_or] at hdeclared
    simp only [Operand.words, spell, spell_append, hcommands, Operand.print, String.toList_append]
    rw [List.append_assoc, ← List.append_assoc (spell _) (gap _), hdeclared]
    simp [gap, TokenKind.print]

/-- Operands are printed as they are spelled. -/
lemma operandsReadable_spell_words {scope : List String} {os : List Operand}
    (h : operandsReadable known scope os) (hne : os ≠ []) (spaced : Bool) :
    spell (operandsWords spaced os) = gap spaced ++ (printOperands os).toList := by
  match os with
  | [o] =>
    simp only [operandsWords, List.append_nil, printOperands]
    exact h.1.spell_words spaced
  | o :: o' :: os =>
    have hrest := operandsReadable_spell_words h.2 (List.cons_ne_nil o' os) true
    rw [operandsWords, spell_append, h.1.spell_words spaced, hrest, printOperands_cons]
    simp [gap]

/-- Commands are printed as they are spelled. -/
lemma commandsReadable_spell_words {scope : List String} {cs : List Command}
    (h : commandsReadable known scope cs) (hne : cs ≠ []) (spaced : Bool) :
    spell (commandsWords spaced cs) = gap spaced ++ (printCommands cs).toList := by
  match cs with
  | [⟨_, os⟩] =>
    simp only [commandsWords, printCommands]
    exact operandsReadable_spell_words h.2.1 h.1 spaced
  | ⟨_, os⟩ :: c :: cs =>
    have hfirst := operandsReadable_spell_words h.2.1 h.1 spaced
    have hrest := commandsReadable_spell_words h.2.2 (List.cons_ne_nil c cs) true
    rw [commandsWords_cons, spell_append, spell, hfirst, hrest, printCommands_cons]
    simp [gap, TokenKind.print]

end

/-- A pipeline is printed as it is spelled. -/
theorem PipelineOf.Readable.spell_words {ofLoop : Bool} {scope : List String} {p : Pipeline}
    (h : p.Readable known ofLoop scope) (spaced : Bool) :
    spell (p.words spaced) = gap spaced ++ p.print.toList := by
  have hdeclared := spell_declarationWords spaced p.assigns p.declared
  rw [PipelineOf.words, spell_append, commandsReadable_spell_words h.2.2.2 h.2.1,
    ← List.append_assoc, hdeclared, PipelineOf.print, String.toList_append, List.append_assoc]

end Printing

/-! ### Scanning -/

/-- Every word can be written, and it does not run into what is spelled behind it. -/
def Lexable : List Word → List Char → Prop
  | [], _      => True
  | w :: ws, s => w.kind.IsLexical ∧ w.kind.EndsAt (spell ws ++ s) ∧ Lexable ws s

/-- Words that can be written side by side with the words behind them can be written together. -/
lemma Lexable.append {ws vs : List Word} {s : List Char} (h : Lexable ws (spell vs ++ s))
    (h' : Lexable vs s) : Lexable (ws ++ vs) s := by
  induction ws with
  | nil => exact h'
  | cons w ws ih =>
    refine ⟨h.1, ?_, ih h.2.2⟩
    show TokenKind.EndsAt (spell (ws ++ vs) ++ s) w.kind
    rw [spell_append, List.append_assoc]
    exact h.2.1

/-- No token runs into a text that begins with neither a part of a name nor a point. -/
lemma TokenKind.endsAt_of_runsOn {s : List Char} (h : runsOn s = false) (kind : TokenKind) :
    kind.EndsAt s := by
  cases kind with
  | dot | field | var | number => exact h
  | identifier | keyword | bool | nil => exact avoids_of_runsOn h
  | string | bar | declare | assign | comma | leftParen | rightParen => trivial

/-- What may stand behind an operand: fields only behind one that takes them. -/
def Operand.EndsAt (s : List Char) : Operand → Prop
  | .identifier _ _ => Avoids isNameChar s
  | .pipeline _     => True
  | _               => runsOn s = false

lemma Operand.endsAt_of_runsOn {s : List Char} (h : runsOn s = false) (o : Operand) :
    o.EndsAt s := by
  cases o with
  | identifier => exact avoids_of_runsOn h
  | pipeline => trivial
  | dot | nil | bool | number | string | field | var | chain => exact h

lemma runsOn_cons {c : Char} (h : (isNameChar c || c = '.') = false) (s : List Char) :
    runsOn (c :: s) = false := h

lemma runsOn_gap (s : List Char) : runsOn (gap true ++ s) = false :=
  runsOn_cons (by decide) s

lemma runsOn_spell_spaced (kind : TokenKind) (ws : List Word) (s : List Char) :
    runsOn (spell (⟨kind, true⟩ :: ws) ++ s) = false := by
  rw [spell, List.append_assoc]
  exact runsOn_gap _

lemma declarationWords_lexable {assigns : Bool} {vs : List Variable}
    (hvs : ∀ v ∈ vs, (TokenKind.var v.name v.fields).IsLexical) (spaced : Bool) (s : List Char) :
    Lexable (declarationWords spaced assigns vs) s := by
  induction vs generalizing spaced with
  | nil => trivial
  | cons v vs ih =>
    obtain ⟨hv, hvs⟩ := List.forall_mem_cons.mp hvs
    cases vs with
    | nil =>
      refine ⟨hv, runsOn_spell_spaced _ _ _, ?_⟩
      cases assigns <;> exact ⟨trivial, trivial, trivial⟩
    | cons w vs =>
      have hcomma : ∀ t, runsOn (',' :: t) = false := fun t => runsOn_cons (by decide) t
      exact ⟨hv, hcomma _, trivial, trivial, ih hvs true⟩

lemma Declarable.var_isLexical {ofLoop assigns : Bool} {scope : List String} {vs : List Variable}
    (h : Declarable ofLoop scope assigns vs) :
    ∀ v ∈ vs, (TokenKind.var v.name v.fields).IsLexical := by
  intro v hv
  rw [h.bare v hv]
  exact h.lexical v hv

section Scanning

variable {known : String → Bool}

/-- Behind an operand that takes fields there may be fields. -/
lemma Operand.endsAt_fields {base : Operand} (h : base.takesFields = true) {names : List String}
    (hne : names ≠ []) (s : List Char) :
    base.EndsAt ((TokenKind.field names).print.toList ++ s) := by
  obtain ⟨n, ns, rfl⟩ := List.exists_cons_of_ne_nil hne
  cases base with
  | identifier pos name =>
    simp only [TokenKind.print, List.map_cons, String.join_cons, String.toList_append]
    exact .cons (by decide)
  | pipeline => trivial
  | dot | nil | bool | number | string | field | var | chain => cases h

mutual

/-- The words of an operand are found again. -/
lemma Operand.Readable.words_lexable {scope : List String} {o : Operand}
    (h : o.Readable known scope) (spaced : Bool) {s : List Char} (hs : o.EndsAt s) :
    Lexable (o.words spaced) s := by
  match o with
  | .identifier _ name => exact ⟨h.2, hs, trivial⟩
  | .dot _ | .nil _ | .bool _ _ => exact ⟨trivial, TokenKind.endsAt_of_runsOn hs _, trivial⟩
  | .number _ => exact ⟨h.1, hs, trivial⟩
  | .string _ _ _ => exact ⟨h, trivial, trivial⟩
  | .field _ _ => exact ⟨h, hs, trivial⟩
  | .var _ => exact ⟨h.2, hs, trivial⟩
  | .chain _ base names =>
    obtain ⟨hbase, hnames, hreadable⟩ := h
    refine .append (hreadable.words_lexable spaced ?_) ⟨hnames, hs, trivial⟩
    rw [spell, spell, List.append_nil]
    exact Operand.endsAt_fields hbase hnames.1 s
  | .pipeline ⟨_, assigns, declared, commands⟩ =>
    refine ⟨trivial, trivial, .append ?_ (.append ?_ ⟨trivial, trivial, trivial⟩)⟩
    · exact declarationWords_lexable h.1.var_isLexical false _
    · exact commandsReadable_words_lexable h.2.2.2 _ (runsOn_cons (by decide) _)

/-- The words of operands are found again. -/
lemma operandsReadable_words_lexable {scope : List String} {os : List Operand}
    (h : operandsReadable known scope os) (spaced : Bool) {s : List Char} (hs : runsOn s = false) :
    Lexable (operandsWords spaced os) s := by
  match os with
  | []      => trivial
  | o :: os =>
    refine .append (h.1.words_lexable spaced (Operand.endsAt_of_runsOn ?_ o))
      (operandsReadable_words_lexable h.2 true hs)
    cases os with
    | nil => exact hs
    | cons o' os =>
      rw [operandsReadable_spell_words h.2 (List.cons_ne_nil o' os) true, List.append_assoc]
      exact runsOn_gap _

/-- The words of commands are found again. -/
lemma commandsReadable_words_lexable {scope : List String} {cs : List Command}
    (h : commandsReadable known scope cs) (spaced : Bool) {s : List Char} (hs : runsOn s = false) :
    Lexable (commandsWords spaced cs) s := by
  match cs with
  | [] => trivial
  | [⟨_, os⟩] =>
    rw [commandsWords]
    exact operandsReadable_words_lexable h.2.1 spaced hs
  | ⟨_, os⟩ :: c :: cs =>
    rw [commandsWords_cons]
    exact .append (operandsReadable_words_lexable h.2.1 spaced (runsOn_spell_spaced _ _ _))
      ⟨trivial, trivial, commandsReadable_words_lexable h.2.2 true hs⟩

end

/-- The words of a pipeline are found again. -/
lemma PipelineOf.Readable.words_lexable {ofLoop : Bool} {scope : List String} {p : Pipeline}
    (h : p.Readable known ofLoop scope) (spaced : Bool) {s : List Char} (hs : runsOn s = false) :
    Lexable (p.words spaced) s :=
  .append (declarationWords_lexable h.1.var_isLexical spaced _)
    (commandsReadable_words_lexable h.2.2.2 _ hs)

end Scanning

/-! ### Actions -/

/-- The words as an action begins with them: the beginning counts as a space. -/
def spaceFirst (first : Bool) : List Word → List Word
  | []      => []
  | w :: ws => ⟨w.kind, first || w.spaced⟩ :: ws

lemma spaceFirst_false (ws : List Word) : spaceFirst false ws = ws := by
  cases ws <;> rfl

lemma closingMark_of_beginsToken {s : List Char} (h : BeginsToken s) (spaced : Bool) :
    closingMark? ['\x7d', '\x7d'] spaced s = none := by
  have hne : ∀ {c : Char}, c ∉ unread → '\x7d' ≠ c := by
    rintro _ hc rfl
    exact hc (by decide)
  match s with
  | [c] =>
    simp [closingMark?, List.isPrefixOf]
  | c :: d :: s =>
    by_cases hdash : c = '-'
    · simp [closingMark?, List.isPrefixOf, hdash, hne (h.2 hdash)]
    · simp [closingMark?, List.isPrefixOf, Ne.symm hdash, hne h.1]

lemma BeginsToken.exists_cons {s : List Char} (h : BeginsToken s) :
    ∃ c cs, s = c :: cs ∧ Text.isSpace c = false := by
  match s with
  | [c]         => exact ⟨c, [], rfl, not_isSpace_of_not_mem_unread h.1⟩
  | c :: d :: s => exact ⟨c, d :: s, rfl, not_isSpace_of_not_mem_unread h.1⟩

lemma takeWhile_gap (spaced : Bool) {s : List Char} (hs : Avoids Text.isSpace s) :
    (gap spaced ++ s).takeWhile Text.isSpace = gap spaced ∧
      (gap spaced ++ s).dropWhile Text.isSpace = s := by
  have hgap : ∀ c ∈ gap spaced, Text.isSpace c = true := by
    cases spaced <;> simp [gap, Text.isSpace]
  exact ⟨takeWhile_append hgap hs, dropWhile_append hgap hs⟩

lemma gap_isEmpty (spaced : Bool) : (gap spaced).isEmpty = !spaced := by
  cases spaced <;> rfl

/-- An action begins with its first token, which may have a space before it. -/
lemma lexAction_gap {s : List Char} (hbegins : BeginsToken s) (spaced : Bool)
    (opened offset : Nat) (first : Bool) :
    lexAction ['\x7d', '\x7d'] opened offset first (gap spaced ++ s) =
      match scanToken s with
      | .error cause => .error ⟨offset + Text.width (gap spaced), cause⟩
      | .ok r        =>
        match lexAction ['\x7d', '\x7d'] opened
            (offset + Text.width (gap spaced) + Text.width r.lexeme) false r.rest with
        | .error fault => .error fault
        | .ok closed   =>
          .ok { closed with
            value :=
              ⟨r.value, offset + Text.width (gap spaced), first || spaced⟩ :: closed.value } := by
  obtain ⟨c, cs, hcs, hspace⟩ := hbegins.exists_cons
  obtain ⟨hblank, hbody⟩ := takeWhile_gap spaced (hcs ▸ Avoids.cons hspace)
  have hmark := closingMark_of_beginsToken hbegins spaced
  rw [lexAction]
  simp only [hblank, hbody, gap_isEmpty, Bool.not_not, hmark]
  split
  · rename_i hnil
    rw [hbody, hcs] at hnil
    cases hnil
  · rename_i hcons
    rw [hbody] at hcons
    rw [hcons]
    split
    · rename_i herror
      rw [herror]
    · rename_i hok
      exact hok ▸ rfl

/-- The words of an action are found again. -/
theorem lexAction_spell {ws : List Word} {rest : List Char}
    (h : Lexable ws ('\x7d' :: '\x7d' :: rest)) (opened offset : Nat) (first : Bool) :
    ∃ tokens offset', lexAction ['\x7d', '\x7d'] opened offset first
        (spell ws ++ '\x7d' :: '\x7d' :: rest) = .ok ⟨tokens, offset', rest, false⟩ ∧
      tokens.map Token.word = spaceFirst first ws := by
  induction ws generalizing offset first with
  | nil =>
    refine ⟨[], offset + 0 + 2, ?_, rfl⟩
    rw [lexAction]
    rfl
  | cons w ws ih =>
    obtain ⟨hlexical, hends, hrest⟩ := h
    have hbegins := hlexical.beginsToken.append (spell ws ++ '\x7d' :: '\x7d' :: rest)
    obtain ⟨tokens, offset', htokens, hwords⟩ := ih hrest
      (offset + Text.width (gap w.spaced) + Text.width w.kind.print.toList) false
    rw [spaceFirst_false] at hwords
    refine ⟨⟨w.kind, offset + Text.width (gap w.spaced), first || w.spaced⟩ :: tokens, offset',
      ?_, ?_⟩
    · rw [spell, List.append_assoc, List.append_assoc, lexAction_gap hbegins,
        scanToken_print_append hlexical hends]
      simp only [htokens]
    · rw [List.map_cons, hwords]
      rfl

lemma BeginsToken.not_opensTrimmed {s : List Char} (h : BeginsToken s) :
    opensTrimmed s = false := by
  match s with
  | [c]         => simp [opensTrimmed]
  | c :: d :: s =>
    unfold opensTrimmed
    split
    · rename_i heq
      cases heq
      exact not_isSpace_of_not_mem_unread (h.2 rfl)
    · rfl

/-- An action of words is found again between the delimiters. -/
theorem lexEnclosed_spell {w : Word} {ws : List Word} {rest : List Char}
    (h : Lexable (w :: ws) ('\x7d' :: '\x7d' :: rest)) (hw : w.spaced = false) (opened : Nat) :
    ∃ tokens offset', lexEnclosed .braces opened (spell (w :: ws) ++ '\x7d' :: '\x7d' :: rest) =
        .ok ⟨.action opened tokens, offset', rest, false⟩ ∧
      tokens.map Token.word = ⟨w.kind, true⟩ :: ws := by
  have hbegins : BeginsToken (spell (w :: ws) ++ '\x7d' :: '\x7d' :: rest) := by
    rw [spell, hw, List.append_assoc]
    exact (h.1.beginsToken.append _).append _
  obtain ⟨c, cs, hcs, -⟩ := hbegins.exists_cons
  have hslash : c ≠ '/' := by
    rintro rfl
    rw [hcs] at hbegins
    match cs with
    | []     => exact hbegins.1 (by decide)
    | _ :: _ => exact hbegins.1 (by decide)
  obtain ⟨tokens, offset', htokens, hwords⟩ := lexAction_spell h opened
    (opened + Text.width Delimiters.braces.left.toList + 0) true
  refine ⟨tokens, offset', ?_, hwords⟩
  simp only [lexEnclosed, hbegins.not_opensTrimmed, Bool.false_eq_true, if_false, List.drop_zero]
  split
  · rename_i hcomment
    rw [hcs] at hcomment
    cases hcomment
    contradiction
  · rw [show Delimiters.braces.right.toList = ['\x7d', '\x7d'] from rfl, htokens]

lemma splitAt_mark (mark s : List Char) (hmark : mark ≠ []) :
    splitAt? mark (mark ++ s) = some ([], s) := by
  obtain ⟨c, cs, rfl⟩ := List.exists_cons_of_ne_nil hmark
  rw [List.cons_append, splitAt?, if_pos (by simp [List.isPrefixOf_iff_prefix]), ← List.cons_append,
    List.drop_left]

/-- A text, what is enclosed behind it, and the rest. -/
lemma lexFrom_enclosed {d : Delimiters} {offset : Nat} {s before after : List Char}
    {closed : Closed Item} {items : List Item} (trim : Bool) (hleft : d.left.toList ≠ [])
    (hsplit : splitAt? d.left.toList s = some (before, after))
    (hclosed : lexEnclosed d (offset + Text.width before) after = .ok closed)
    (hrest : lexFrom d closed.offset closed.trims closed.rest = .ok items) :
    lexFrom d offset trim s =
      .ok (textItem offset before trim (opensTrimmed after) ++ closed.value :: items) := by
  rw [lexFrom, dif_neg fun hnil => hleft hnil.1]
  split
  · rename_i hnone
    rw [hsplit] at hnone
    cases hnone
  · rename_i hsome
    rw [hsplit] at hsome
    cases hsome
    split
    · rename_i herror
      rw [hclosed] at herror
      cases herror
    · rename_i hok
      rw [hclosed] at hok
      cases hok
      rw [hrest]

/-- A text without a left delimiter. -/
lemma lexFrom_text {d : Delimiters} {offset : Nat} {trim : Bool} {s : List Char}
    (hleft : d.left.toList ≠ []) (hsplit : splitAt? d.left.toList s = none) :
    lexFrom d offset trim s = .ok (textItem offset s trim false) := by
  rw [lexFrom, dif_neg fun hnil => hleft hnil.1]
  split
  · rfl
  · rename_i hsome
    rw [hsplit] at hsome
    cases hsome

lemma textItem_nil (offset : Nat) (trimStart trimEnd : Bool) :
    textItem offset [] trimStart trimEnd = [] := by
  cases trimStart <;> cases trimEnd <;> rfl

/-- The source of an action alone is that action. -/
theorem ofSource_inBraces {w : Word} {ws : List Word} {s : String}
    (h : Lexable (w :: ws) ['\x7d', '\x7d']) (hw : w.spaced = false)
    (hs : s.toList = spell (w :: ws)) :
    ∃ tokens, Item.ofSource .braces (inBraces s) = .ok [.action 0 tokens] ∧
      tokens.map Token.word = ⟨w.kind, true⟩ :: ws := by
  obtain ⟨tokens, offset', htokens, hwords⟩ := lexEnclosed_spell h hw 0
  refine ⟨tokens, ?_, hwords⟩
  have hleft : Delimiters.braces.left.toList ≠ [] := by decide
  have hsource : (inBraces s).toList =
      Delimiters.braces.left.toList ++ (spell (w :: ws) ++ ['\x7d', '\x7d']) := by
    rw [← hs, inBraces, String.toList_append, String.toList_append, List.append_assoc]
    rfl
  have hnil : lexFrom .braces offset' false [] = .ok [] := lexFrom_text hleft rfl
  rw [Item.ofSource, hsource]
  have haction := lexFrom_enclosed false hleft (splitAt_mark _ _ hleft) htokens hnil
  rwa [textItem_nil] at haction

end SafeQuery
