import SafeQuery.Proofs.Source.Actions
import SafeQuery.Proofs.Tree.Phrase

/-!
# The reader of pipelines keeps to its grammar

What is read of tokens that have been scanned is what they form, `readPipeline_forms`, by the
recursion of the readers, and what tokens form is read of them, `Forms.isRead`, by induction on the
derivation. So the tokens at the end of an action are read as a pipeline exactly when they form it,
`EndsAction.ofTokens_iff_forms`.
-/

namespace SafeQuery

section Exactness

variable {c : PipelineContext} {scope scope' : List String} {ts rest : List Token}

/-- The tokens before the rest form the part. -/
def FormsFront (c : PipelineContext) (part : Part) (scope : List String) (ts : List Token)
    (scope' : List String) (rest : List Token) : Prop :=
  ∃ front, ts = front ++ rest ∧ Forms c part scope front scope'

namespace FormsFront

lemma scannable {part : Part} (h : FormsFront c part scope ts scope' rest) (hts : Scannable ts) :
    Scannable rest := by
  obtain ⟨front, rfl, -⟩ := h
  exact hts.of_suffix (List.suffix_append front rest)

lemma parentheses {p : Pipeline} {at₁ at₂ : Nat} {spaced₁ spaced₂ : Bool}
    (h : FormsFront c (.pipeline false p) scope ts scope' (⟨.rightParen, at₂, spaced₂⟩ :: rest)) :
    FormsFront c (.operand (.pipeline p)) scope (⟨.leftParen, at₁, spaced₁⟩ :: ts) scope' rest := by
  obtain ⟨front, rfl, hforms⟩ := h
  exact ⟨⟨.leftParen, at₁, spaced₁⟩ :: (front ++ [⟨.rightParen, at₂, spaced₂⟩]), by simp,
    .parentheses hforms⟩

lemma chain {o : Operand} {names : List String} {offset : Nat} (ho : o.takesFields = true)
    (h : FormsFront c (.operand o) scope ts scope' (⟨.field names, offset, false⟩ :: rest)) :
    FormsFront c (.operand (.chain (c.positionOf (c.nextOffset ts)) o names)) scope ts scope'
      rest := by
  obtain ⟨front, rfl, hforms⟩ := h
  rw [PipelineContext.nextOffset_append hforms.ne_nil]
  exact ⟨front ++ [⟨.field names, offset, false⟩], by simp, .chain ho hforms⟩

lemma single {o : Operand} (h : FormsFront c (.operand o) scope ts scope' rest) :
    FormsFront c (.operands [o]) scope ts scope' rest := by
  obtain ⟨front, rfl, hforms⟩ := h
  exact ⟨front, rfl, .single hforms⟩

lemma cons {o : Operand} {os : List Operand} {scope₁ : List String} {mid : List Token}
    (ho : FormsFront c (.operand o) scope ts scope₁ mid) (hmid : Detached mid)
    (hos : FormsFront c (.operands os) scope₁ mid scope' rest) :
    FormsFront c (.operands (o :: os)) scope ts scope' rest := by
  obtain ⟨front, rfl, hforms⟩ := ho
  obtain ⟨front', rfl, hforms'⟩ := hos
  rw [detached_append hforms'.ne_nil] at hmid
  exact ⟨front ++ front', by simp, .cons hforms hmid hforms'⟩

lemma command {os : List Operand} (h : FormsFront c (.operands os) scope ts scope' rest) :
    FormsFront c (.commands [⟨c.positionOf (c.nextOffset ts), os⟩]) scope ts scope' rest := by
  obtain ⟨front, rfl, hforms⟩ := h
  rw [PipelineContext.nextOffset_append hforms.ne_nil]
  exact ⟨front, rfl, .command hforms⟩

lemma bar {os : List Operand} {cs : List Command} {scope₁ : List String} {mid : List Token}
    {offset : Nat} {spaced : Bool}
    (hos : FormsFront c (.operands os) scope ts scope₁ (⟨.bar, offset, spaced⟩ :: mid))
    (hcs : FormsFront c (.commands cs) scope₁ mid scope' rest) :
    FormsFront c (.commands (⟨c.positionOf (c.nextOffset ts), os⟩ :: cs)) scope ts scope' rest := by
  obtain ⟨front, rfl, hforms⟩ := hos
  obtain ⟨front', rfl, hforms'⟩ := hcs
  rw [PipelineContext.nextOffset_append hforms.ne_nil]
  exact ⟨front ++ ⟨.bar, offset, spaced⟩ :: front', by simp, .bar hforms hforms'⟩

lemma pipeline {ofLoop assigns : Bool} {front : List Token} {declared : List Variable}
    {cs : List Command} (hgives : Gives c ofLoop scope assigns declared front)
    (htake : TakeValues cs.tail)
    (h : FormsFront c (.commands cs) (newNames assigns declared ++ scope) ts scope' rest) :
    FormsFront c
      (.pipeline ofLoop ⟨c.positionOf (c.nextOffset (front ++ ts)), assigns, declared, cs⟩) scope
      (front ++ ts) scope' rest := by
  obtain ⟨front', rfl, hforms⟩ := h
  rw [← List.append_assoc, PipelineContext.nextOffset_append (by simp [hforms.ne_nil])]
  exact ⟨_, rfl, .pipeline hgives htake hforms⟩

end FormsFront

/-- An operand of one token. -/
lemma ofToken_atom {t : Token} {o : Operand} (h : Operand.ofToken c scope t = .ok o)
    (ht : t.kind.IsLexical) : Atom c scope t o := by
  obtain ⟨kind, offset, spaced⟩ := t
  unfold Operand.ofToken at h
  cases kind <;> dsimp only at h ht
  case identifier name =>
    split_ifs at h with hknown
    cases h
    exact .identifier hknown
  case number text =>
    split_ifs at h with hnone
    cases h
    exact .number ((Number.ofText_hasValue _ ht).mp (Bool.not_eq_true _ ▸ hnone))
  case var name fields =>
    obtain ⟨u, hname, h⟩ := bind_eq_ok_iff.mp h
    cases h
    exact .var (checkVariable_eq_ok hname)
  case dot | nil | bool | string | field =>
    cases h
    constructor
  all_goals cases h

lemma Atom.not_chain {t : Token} {o : Operand} (h : Atom c scope t o) (pos : Position)
    (base : Operand) (names : List String) : o ≠ .chain pos base names := by
  cases h <;> exact Operand.noConfusion

/-- What stands before the commands of a pipeline. -/
lemma readDeclarations_gives {clause : Clause} {d : Declarations}
    (h : readDeclarations c clause ts = .ok d) (hscope : declare d scope = .ok scope') :
    ∃ front, ts = front ++ d.rest ∧ Gives c clause.isLoop scope d.assigns d.declared front := by
  obtain ⟨-, hassigned⟩ := declare_eq_ok hscope
  unfold readDeclarations at h
  dsimp only at h
  split at h
  · cases h
    exact ⟨[_, _], rfl, .one (nomatch ·)⟩
  · cases h
    exact ⟨[_, _], rfl, .one fun hassigns => hassigned hassigns _ List.mem_cons_self⟩
  · split_ifs at h with hloop
    have hloop : clause.isLoop = true := hloop
    split at h
    · cases h
      exact ⟨[_, _, _, _], rfl, .two hloop (nomatch ·)⟩
    · cases h
      refine ⟨[_, _, _, _], rfl, .two hloop fun hassigns => ?_⟩
      obtain ⟨hx, hrest⟩ := List.forall_mem_cons.mp (hassigned hassigns)
      exact ⟨hx, hrest _ List.mem_cons_self⟩
    all_goals cases h
  · cases h
    exact ⟨[], rfl, .nothing⟩

/-- Behind fields that have been scanned there are no others without a space. -/
lemma Scannable.detached {t : Token} (h : Scannable (t :: ts)) (ht : t.kind.isField = true) :
    Detached ts := by
  unfold Detached
  split
  · have happart := (List.isChain_cons_cons.mp h.apart).1
    cases happart ht rfl
  · trivial

/-- Fields directly behind an operand that is no chain. -/
lemma readFields_forms {n : Nat} {pos : Position} {r r' : Reading n Operand}
    (h : readFields pos r = .ok r') (hpos : pos = c.positionOf (c.nextOffset ts))
    (hr : FormsFront c (.operand r.value) scope ts r.scope r.rest)
    (hbase : ∀ pos base names, r.value ≠ .chain pos base names) (hts : Scannable ts) :
    FormsFront c (.operand r'.value) scope ts r'.scope r'.rest ∧ Detached r'.rest := by
  have hrest := hr.scannable hts
  unfold readFields at h
  split at h
  · rename_i names offset rest heq
    obtain ⟨o, ho, hr'⟩ := bind_eq_ok_iff.mp h
    cases hr'
    rw [heq] at hr hrest
    rw [withFields_eq_ok ho, hpos]
    exact ⟨.chain (takesFields_of_withFields ho hbase) hr, hrest.detached rfl⟩
  · rename_i hdetached
    cases h
    refine ⟨hr, ?_⟩
    unfold Detached
    split
    · exact hdetached _ _ _ ‹_›
    · trivial

mutual

/-- The tokens of an operand that is read form the operand. -/
lemma readOperand_forms {scope : List String} {t : Token} {ts : List Token}
    {r : Reading (ts.length + 1) Operand} (h : readOperand c scope t ts = .ok r)
    (hts : Scannable (t :: ts)) :
    FormsFront c (.operand r.value) scope (t :: ts) r.scope r.rest ∧ Detached r.rest := by
  rw [readOperand] at h
  split at h
  · rename_i hkind
    obtain ⟨p, hp, h⟩ := bind_eq_ok_iff.mp h
    have hforms := readPipeline_forms hp (hts.of_suffix (List.suffix_cons t ts))
    split at h
    · rename_i hparen
      rw [hparen] at hforms
      obtain ⟨kind, offset, spaced⟩ := t
      obtain rfl := hkind
      exact readFields_forms h rfl (.parentheses hforms) (by simp) hts
    · cases h
  · obtain ⟨o, ho, h⟩ := bind_eq_ok_iff.mp h
    have hatom := ofToken_atom ho (hts.lexical t List.mem_cons_self)
    exact readFields_forms h rfl ⟨[t], rfl, .atom hatom⟩ hatom.not_chain hts
termination_by 4 * ts.length + 3

/-- Operands up to the end of a command, if there are any. -/
lemma readOperands_forms {scope : List String} {ts : List Token}
    {r : Reading (ts.length + 1) (List Operand)} (h : readOperands c scope ts = .ok r)
    (hts : Scannable ts) :
    (r.value = [] ∧ r.scope = scope ∧ r.rest = ts) ∨
      FormsFront c (.operands r.value) scope ts r.scope r.rest := by
  match ts with
  | [] =>
    rw [readOperands] at h
    cases h
    exact .inl ⟨rfl, rfl, rfl⟩
  | t :: ts =>
    rw [readOperands] at h
    split at h
    · cases h
      exact .inl ⟨rfl, rfl, rfl⟩
    · obtain ⟨o, ho, h⟩ := bind_eq_ok_iff.mp h
      obtain ⟨os, hos, h⟩ := bind_eq_ok_iff.mp h
      cases h
      obtain ⟨hfirst, hdetached⟩ := readOperand_forms ho hts
      refine .inr (show FormsFront c (.operands (o.value :: os.value)) _ _ os.scope os.rest from ?_)
      rcases readOperands_forms hos (hfirst.scannable hts) with ⟨hnil, hscope, hrest⟩ | hmore
      · rw [hnil, hscope, hrest]
        exact .single hfirst
      · exact .cons hfirst hdetached hmore
termination_by 4 * ts.length
decreasing_by
  · simp only [List.length_cons]
    omega
  · have := o.fewer
    simp only [List.length_cons]
    omega

/-- The tokens of commands that are read form the commands. -/
lemma readCommands_forms {scope : List String} {ts : List Token}
    {r : Reading (ts.length + 1) (List Command)} (h : readCommands c scope ts = .ok r)
    (hts : Scannable ts) : FormsFront c (.commands r.value) scope ts r.scope r.rest := by
  rw [readCommands] at h
  obtain ⟨os, hos, h⟩ := bind_eq_ok_iff.mp h
  split at h
  · cases h
  · rename_i hne
    have hoperands := (readOperands_forms hos hts).resolve_left fun hnil => hne (by simp [hnil.1])
    split at h
    · rename_i rest hbar
      have hfewer : rest.length < ts.length := by
        have := os.fewer
        rw [hbar, List.length_cons] at this
        omega
      rw [hbar] at hoperands
      split at h
      · cases h
      · obtain ⟨cs, hcs, h⟩ := bind_eq_ok_iff.mp h
        cases h
        have hrest := (hoperands.scannable hts).of_suffix (List.suffix_cons _ rest)
        exact .bar hoperands (readCommands_forms hcs hrest)
    · cases h
      exact .command hoperands
termination_by 4 * ts.length + 1
decreasing_by all_goals omega

/-- The tokens of a pipeline that is read form the pipeline. -/
lemma readPipeline_forms {clause : Clause} {scope : List String} {ts : List Token}
    {r : Reading (ts.length + 1) Pipeline} (h : readPipeline c clause scope ts = .ok r)
    (hts : Scannable ts) :
    FormsFront c (.pipeline clause.isLoop r.value) scope ts r.scope r.rest := by
  rw [readPipeline] at h
  split at h
  · cases h
  · rename_i d hd
    have hlength := readDeclarations_length hd
    obtain ⟨scope₁, hscope, h⟩ := bind_eq_ok_iff.mp h
    obtain ⟨front, hfront, hgives⟩ := readDeclarations_gives hd hscope
    obtain ⟨rfl, -⟩ := declare_eq_ok hscope
    split at h
    · cases h
    · obtain ⟨cs, hcs, h⟩ := bind_eq_ok_iff.mp h
      have hcommands :=
        readCommands_forms hcs (hts.of_suffix (hfront ▸ List.suffix_append front d.rest))
      split at h
      · cases h
      · rename_i hfirst
        cases h
        have hforms := FormsFront.pipeline hgives (firstConstant_eq_none.mp hfirst) hcommands
        rwa [← hfront] at hforms
termination_by 4 * ts.length + 2
decreasing_by omega

end

/-! ### What is formed -/

/-- The tokens begin with an operand, and they declare nothing before something that goes on with no
declaration. -/
structure BeginsOperand (ts : List Token) : Prop where
  head : ∃ t ts', ts = t :: ts' ∧ t.kind.startsOperand = true
  declaresNothing : ∀ rest, Undeclaring rest → DeclaresNothing (ts ++ rest)

namespace BeginsOperand

lemma append {ts' : List Token} (h : BeginsOperand ts)
    (h' : ∀ rest, Undeclaring rest → Undeclaring (ts' ++ rest)) : BeginsOperand (ts ++ ts') where
  head := by
    obtain ⟨t, front, rfl, hkind⟩ := h.head
    exact ⟨t, front ++ ts', rfl, hkind⟩
  declaresNothing := by
    intro rest hrest
    rw [List.append_assoc]
    exact h.declaresNothing _ (h' rest hrest)

lemma undeclaring (h : BeginsOperand ts) (rest : List Token) : Undeclaring (ts ++ rest) := by
  obtain ⟨t, ts, rfl, hkind⟩ := h.head
  exact undeclaring_of_startsOperand hkind

lemma not_endsCommand (h : BeginsOperand ts) (rest : List Token) :
    endsCommand (ts ++ rest) = false := by
  obtain ⟨t, ts, rfl, hkind⟩ := h.head
  exact endsCommand_of_startsOperand hkind

lemma not_endsPipeline (h : BeginsOperand ts) (rest : List Token) :
    endsPipeline (ts ++ rest) = false := by
  by_contra hends
  have hcommand := endsCommand_of_endsPipeline (by simpa using hends)
  rw [h.not_endsCommand] at hcommand
  cases hcommand

end BeginsOperand

lemma Atom.beginsOperand {t : Token} {o : Operand} (h : Atom c scope t o) : BeginsOperand [t] := by
  refine ⟨⟨t, [], rfl, by cases h <;> rfl⟩, fun rest hrest => ?_⟩
  cases h with
  | var => exact hrest
  | identifier | dot | nil | bool | number | string | field => trivial

/-- All parts but pipelines begin with an operand. -/
lemma Forms.beginsOperand {part : Part} (h : Forms c part scope ts scope')
    (hpart : ∀ ofLoop p, part ≠ .pipeline ofLoop p) : BeginsOperand ts := by
  induction h with
  | atom ha => exact ha.beginsOperand
  | parentheses => exact ⟨⟨_, _, rfl, rfl⟩, fun _ _ => trivial⟩
  | chain _ _ ih => exact (ih (by simp)).append fun _ _ => trivial
  | single _ ih | command _ ih => exact ih (by simp)
  | cons _ _ _ ih ihs => exact (ih (by simp)).append fun rest _ => (ihs (by simp)).undeclaring rest
  | bar _ _ ih => exact (ih (by simp)).append fun _ _ => trivial
  | pipeline => exact absurd rfl (hpart _ _)

/-- An operand of one token is read. -/
lemma Atom.ofToken {t : Token} {o : Operand} (h : Atom c scope t o) (ht : t.kind.IsLexical) :
    t.kind ≠ .leftParen ∧ Operand.ofToken c scope t = .ok o := by
  cases h with
  | identifier hknown => exact ⟨by simp, if_pos hknown⟩
  | number hlegal =>
    refine ⟨by simp, if_neg ?_⟩
    rw [(Number.ofText_hasValue _ ht).mpr hlegal]
    exact Bool.false_ne_true
  | @var name fields offset _ hname =>
    have hchecked : checkVariable scope offset name = .ok () :=
      if_pos (List.contains_iff_mem.mpr hname)
    refine ⟨by simp, ?_⟩
    simp only [Operand.ofToken, hchecked]
    rfl
  | dot | nil | bool | string | field => exact ⟨by simp, rfl⟩

/-- What stands before the commands of a pipeline is read. -/
lemma Gives.isRead {clause : Clause} {assigns : Bool} {declared : List Variable}
    {front : List Token} (h : Gives c clause.isLoop scope assigns declared front)
    (hts : DeclaresNothing ts) :
    readDeclarations c clause (front ++ ts) = .ok ⟨assigns, declared, ts⟩ ∧
      declare ⟨assigns, declared, ts⟩ scope = .ok (newNames assigns declared ++ scope) := by
  generalize hloop : clause.isLoop = ofLoop at h
  cases h with
  | nothing =>
    exact ⟨readDeclarations_of_declaresNothing hts, declare_of_mem (nomatch ·)⟩
  | one hassigned =>
    refine ⟨by cases assigns <;> rfl, declare_of_mem fun hassigns => ?_⟩
    exact List.forall_mem_cons.mpr ⟨hassigned hassigns, by simp⟩
  | two htrue hassigned =>
    obtain rfl := clause_of_isLoop (hloop.trans htrue)
    refine ⟨by cases assigns <;> rfl, declare_of_mem fun hassigns => ?_⟩
    obtain ⟨hx, hy⟩ := hassigned hassigns
    exact List.forall_mem_cons.mpr ⟨hx, List.forall_mem_cons.mpr ⟨hy, by simp⟩⟩

/-- The part is read of tokens before others, up to its end. -/
def Part.IsRead (c : PipelineContext) (scope : List String) (front : List Token)
    (scope' : List String) : Part → Prop
  | operand o           => ∃ t ts, front = t :: ts ∧ ∀ rest, ∃ fewer,
    (o.takesFields = true → readOperand c scope t (ts ++ rest) =
      readFields (c.positionOf t.offset) ⟨o, scope', rest, fewer⟩) ∧
    (Detached rest → readOperand c scope t (ts ++ rest) = .ok ⟨o, scope', rest, fewer⟩)
  | operands os         => ∀ rest, endsCommand rest = true → ∃ fewer,
    readOperands c scope (front ++ rest) = .ok ⟨os, scope', rest, fewer⟩
  | commands cs         => ∀ rest, endsPipeline rest = true → ∃ fewer,
    readCommands c scope (front ++ rest) = .ok ⟨cs, scope', rest, fewer⟩
  | pipeline ofLoop p   => ∀ clause rest, clause.isLoop = ofLoop → endsPipeline rest = true →
    ∃ fewer, readPipeline c clause scope (front ++ rest) = .ok ⟨p, scope', rest, fewer⟩

/-- What tokens form is read of them. -/
theorem Forms.isRead {part : Part} (h : Forms c part scope ts scope') (hts : AllLexical ts) :
    part.IsRead c scope ts scope' := by
  induction h with
  | @atom scope t o ha =>
    obtain ⟨hkind, ho⟩ := ha.ofToken (hts t List.mem_cons_self)
    refine ⟨t, [], rfl, fun rest => ?_⟩
    obtain ⟨fewer, hread⟩ := readOperand_of_token rest hkind ho
    exact ⟨fewer, fun _ => hread, fun hrest => hread.trans (readFields_of_detached hrest)⟩
  | @parentheses scope scope' ts p at₁ at₂ spaced₁ spaced₂ _ ih =>
    refine ⟨_, _, rfl, fun rest => ?_⟩
    have hpipeline := ih (hts.of_subset (by simp)) .parentheses
      (⟨.rightParen, at₂, spaced₂⟩ :: rest) rfl rfl
    rw [List.append_assoc]
    obtain ⟨fewer, hread⟩ := readOperand_of_pipeline (t := ⟨.leftParen, at₁, spaced₁⟩) rfl hpipeline
    exact ⟨fewer, fun _ => hread, fun hrest => hread.trans (readFields_of_detached hrest)⟩
  | @chain scope scope' ts o names offset hbase _ ih =>
    obtain ⟨t, front, rfl, hoperand⟩ := ih (hts.of_subset (by simp))
    refine ⟨t, front ++ [⟨.field names, offset, false⟩], rfl, fun rest => ?_⟩
    rw [List.append_assoc]
    -- the reader of the base does not stop before the fields
    obtain ⟨fewer, hread, -⟩ := hoperand (⟨.field names, offset, false⟩ :: rest)
    obtain ⟨fewer', hfields⟩ := readFields_again hbase (c.positionOf t.offset) fewer
    exact ⟨fewer', (nomatch ·), fun _ => (hread hbase).trans hfields⟩
  | single ho ih =>
    intro rest hrest
    have hmore := (ho.beginsOperand (by simp)).not_endsCommand rest
    obtain ⟨t, front, rfl, hoperand⟩ := ih hts
    obtain ⟨fewer, -, hread⟩ := hoperand rest
    exact readOperands_cons hmore ⟨fewer, hread (detached_of_endsCommand hrest)⟩
      (readOperands_of_endsCommand _ hrest)
  | @cons scope scope₁ scope' ts ts' o os ho hdetached hos ih ihs =>
    intro rest hrest
    rw [List.append_assoc]
    have hmore := (ho.beginsOperand (by simp)).not_endsCommand (ts' ++ rest)
    obtain ⟨t, front, rfl, hoperand⟩ := ih (hts.of_subset (by simp))
    obtain ⟨fewer, -, hread⟩ := hoperand (ts' ++ rest)
    rw [detached_append hos.ne_nil] at hread
    exact readOperands_cons hmore ⟨fewer, hread hdetached⟩
      (ihs (hts.of_subset (by simp)) rest hrest)
  | @command scope scope' ts os hos ih =>
    intro rest hrest
    have hread := ih hts rest (endsCommand_of_endsPipeline hrest)
    rw [← PipelineContext.nextOffset_append hos.ne_nil rest]
    exact readCommands_last hos.operands_ne_nil hrest hread
  | @bar scope scope₁ scope' ts ts' os cs offset spaced hos hcs ih ihs =>
    intro rest hrest
    have hread := ih (hts.of_subset (by simp)) (⟨.bar, offset, spaced⟩ :: (ts' ++ rest)) rfl
    have hmore := (hcs.beginsOperand (by simp)).not_endsPipeline rest
    rw [List.append_assoc, List.cons_append, ← PipelineContext.nextOffset_append hos.ne_nil]
    exact readCommands_bar hos.operands_ne_nil hread hmore
      (ihs (hts.of_subset (by simp)) rest hrest)
  | @pipeline ofLoop scope scope' front ts assigns declared cs hgives htake hcs ih =>
    rintro clause rest rfl hrest
    have hbegins := hcs.beginsOperand (by simp)
    have hnothing :=
      hbegins.declaresNothing rest (undeclaring_of_endsCommand (endsCommand_of_endsPipeline hrest))
    obtain ⟨hread, hscope⟩ := hgives.isRead hnothing
    rw [← PipelineContext.nextOffset_append (by simp [hcs.ne_nil]) rest]
    rw [List.append_assoc]
    exact readPipeline_of_parts hread hscope (hbegins.not_endsPipeline rest)
      (ih (hts.of_subset (by simp)) rest hrest) htake

/-! ### Pipelines as a whole -/

/-- Tokens that can be scanned are read as a pipeline exactly when they form it. -/
theorem Scannable.ofTokens_eq_ok_iff {clause : Clause} {p : Pipeline} (hts : Scannable ts) :
    PipelineOf.ofTokens c clause scope ts = .ok (p, scope') ↔
      Forms c (.pipeline clause.isLoop p) scope ts scope' := by
  constructor
  · intro h
    obtain ⟨r, hr, h⟩ := bind_eq_ok_iff.mp h
    obtain ⟨front, hfront, hforms⟩ := readPipeline_forms hr hts
    split at h
    · rename_i hrest
      cases h
      rw [hrest, List.append_nil] at hfront
      rwa [← hfront] at hforms
    · cases h
  · intro h
    have hread := h.isRead hts.lexical clause [] rfl rfl
    rw [List.append_nil] at hread
    obtain ⟨fewer, hread⟩ := hread
    rw [PipelineOf.ofTokens, hread]
    rfl

/-- The tokens at the end of an action are read as a pipeline, for a clause in a scope, exactly when
they form it, and then its words are of their kinds. -/
theorem EndsAction.ofTokens_iff_forms (c : PipelineContext) (clause : Clause) (scope : List String)
    (p : Pipeline) (scope' : List String) (hts : EndsAction ts) :
    (PipelineOf.ofTokens c clause scope ts = .ok (p, scope') ↔
      Forms c (.pipeline clause.isLoop p) scope ts scope') ∧
    (PipelineOf.ofTokens c clause scope ts = .ok (p, scope') →
      ∀ spaced, (p.words spaced).map (·.kind) = ts.map (·.kind)) := by
  have hiff : PipelineOf.ofTokens c clause scope ts = .ok (p, scope') ↔ _ :=
    hts.scannable.ofTokens_eq_ok_iff
  exact ⟨hiff, fun h => (hiff.mp h).kinds⟩

end Exactness

/-- The tokens of a loop with two variables, behind its keyword: a chain, a bar and a numeral in
base sixteen. -/
theorem ofTokens_iff_forms_of_loop :
    let c : PipelineContext := ⟨fun _ => 1, fun f => f = "len" || f = "printf", 0⟩
    let ts : List Token :=
      [⟨.var "$i" [], 8, true⟩, ⟨.comma, 10, false⟩, ⟨.var "$x" [], 12, true⟩, ⟨.declare, 15, true⟩,
        ⟨.leftParen, 18, true⟩, ⟨.identifier "len", 19, false⟩, ⟨.field ["Items"], 23, true⟩,
        ⟨.rightParen, 29, false⟩, ⟨.field ["Size"], 30, false⟩, ⟨.bar, 36, true⟩,
        ⟨.identifier "printf", 38, true⟩, ⟨.string "\"%d\"" "%d", 45, true⟩,
        ⟨.number "0x10", 50, true⟩, ⟨.var "$" ["Names"], 55, true⟩]
    EndsAction ts ∧ ∃ p, PipelineOf.ofTokens c (.branch .range) ["$"] ts =
        .ok (p, ["$x", "$i", "$"]) ∧
      p.print = "$i, $x := (len .Items).Size | printf \"%d\" 0x10 $.Names" ∧
      Forms c (.pipeline true p) ["$"] ts ["$x", "$i", "$"] ∧
      ∀ spaced, (p.words spaced).map (·.kind) = ts.map (·.kind) := by
  intro c ts
  have hitems : (Item.ofSource .braces
      "\x7b\x7brange $i, $x := (len .Items).Size | printf \"%d\" 0x10 $.Names\x7d\x7d").toOption =
        some [.action 0 (⟨.keyword .range, 2, true⟩ :: ts)] := by
    decide +kernel
  have hts : EndsAction ts :=
    ⟨_, _, _, 0, _, eq_ok_of_toOption hitems, List.mem_singleton_self _, List.suffix_cons _ ts⟩
  have hread : (PipelineOf.ofTokens c (.branch .range) ["$"] ts).toOption.map
      (fun r => (r.1.print, r.2)) =
      some ("$i, $x := (len .Items).Size | printf \"%d\" 0x10 $.Names", ["$x", "$i", "$"]) := by
    decide +kernel
  obtain ⟨⟨p, scope'⟩, hsome, hparts⟩ := Option.map_eq_some_iff.mp hread
  obtain ⟨hprint, rfl⟩ := Prod.mk.inj hparts
  obtain ⟨hiff, hkinds⟩ :=
    EndsAction.ofTokens_iff_forms c (.branch .range) ["$"] p ["$x", "$i", "$"] hts
  have hok := eq_ok_of_toOption hsome
  exact ⟨hts, p, hok, hprint, hiff.mp hok, hkinds hok⟩

end SafeQuery
