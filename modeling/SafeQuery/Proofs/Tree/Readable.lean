import SafeQuery.Proofs.Source.Lexed
import SafeQuery.Proofs.Tree.Checking

/-!
# Pipelines that can be read

`PipelineOf.Readable` is the grammar of pipelines: their tokens can be written, the functions they
call are known, the variables they use are in scope, fields stand behind calls and parentheses only,
every command has operands, and no constant stands where a value is handed on. What is read of
tokens belongs to the grammar, `readPipeline_readable`.
-/

namespace SafeQuery

/-- The variables that a pipeline gives its value to can be written before its commands. Two are for
loops only. -/
structure Declarable (ofLoop : Bool) (scope : List String) (assigns : Bool)
    (declared : List Variable) : Prop where
  bare : ∀ v ∈ declared, v.fields = []
  lexical : ∀ v ∈ declared, (TokenKind.var v.name []).IsLexical
  length : declared.length ≤ if ofLoop then 2 else 1
  assigned : assigns = true → declared ≠ [] ∧ ∀ v ∈ declared, v.name ∈ scope

/-- Fields directly behind the operand belong to it. -/
def Operand.takesFields : Operand → Bool
  | .identifier _ _ | .pipeline _ => true
  | _                             => false

/-- No command begins with a constant, so that each can take the value of the one before. -/
def TakeValues (cs : List Command) : Prop :=
  ∀ c ∈ cs, c.operands.head?.any Operand.isConstant = false

mutual

/-- The operand can be read in a scope when the functions are known. -/
def Operand.Readable (known : String → Bool) (scope : List String) : Operand → Prop
  | .identifier _ name    => known name = true ∧ (TokenKind.identifier name).IsLexical
  | .dot _                => True
  | .nil _                => True
  | .bool _ _             => True
  | .number n             =>
    (TokenKind.number n.text).IsLexical ∧ n = Number.ofText n.pos n.text ∧
      (n.int.isNone && n.float.isNone) = false
  | .string _ quoted text => (TokenKind.string quoted text).IsLexical
  | .field _ names        => (TokenKind.field names).IsLexical
  | .var v                => v.name ∈ scope ∧ (TokenKind.var v.name v.fields).IsLexical
  | .chain _ base names   =>
    base.takesFields = true ∧ (TokenKind.field names).IsLexical ∧ base.Readable known scope
  | .pipeline ⟨_, assigns, declared, commands⟩ =>
    Declarable false scope assigns declared ∧ commands ≠ [] ∧ TakeValues commands.tail ∧
      commandsReadable known (newNames assigns declared ++ scope) commands

def operandsReadable (known : String → Bool) (scope : List String) : List Operand → Prop
  | []      => True
  | o :: os => o.Readable known scope ∧ operandsReadable known (o.scopeBehind scope) os

def commandsReadable (known : String → Bool) (scope : List String) :
    List (CommandOf Operand) → Prop
  | []            => True
  | ⟨_, os⟩ :: cs =>
    os ≠ [] ∧ operandsReadable known scope os ∧ commandsReadable known (operandsScope scope os) cs

end

/-- The pipeline can be read in a scope when the functions are known. -/
def PipelineOf.Readable (known : String → Bool) (ofLoop : Bool) (scope : List String)
    (p : Pipeline) : Prop :=
  Declarable ofLoop scope p.assigns p.declared ∧ p.commands ≠ [] ∧ TakeValues p.commands.tail ∧
    commandsReadable known (newNames p.assigns p.declared ++ scope) p.commands

/-- The clause is that of a loop. -/
def Clause.isLoop : Clause → Bool
  | branch .range => true
  | _             => false

/-! ### What is read -/

section Reading

variable {c : PipelineContext} {scope : List String} {ts : List Token}

lemma AllLexical.tail {t : Token} (h : AllLexical (t :: ts)) : AllLexical ts :=
  fun t' ht' => h t' (List.mem_cons_of_mem _ ht')

lemma AllLexical.head {t : Token} (h : AllLexical (t :: ts)) : t.kind.IsLexical :=
  h t List.mem_cons_self

/-- No command behind the first begins with a constant if all of them can take values. -/
lemma firstConstant_eq_none {stage : Nat} {cs : List Command} :
    firstConstant? stage cs = none ↔ TakeValues cs := by
  induction cs generalizing stage with
  | nil => simp [firstConstant?, TakeValues]
  | cons c cs ih =>
    rw [firstConstant?, TakeValues, List.forall_mem_cons]
    split_ifs with hconstant
    · simp [hconstant]
    · rw [ih]
      exact ⟨fun h => ⟨by simpa using hconstant, h⟩, fun h => h.2⟩

lemma Number.ofText_text (pos : Position) (text : String) : (ofText pos text).text = text := by
  unfold ofText
  dsimp only
  split
  · rfl
  · rfl
  · split <;> rfl

lemma Number.ofText_pos (pos : Position) (text : String) : (ofText pos text).pos = pos := by
  unfold ofText
  dsimp only
  split
  · rfl
  · rfl
  · split <;> rfl

/-- The tokens of the variables that a pipeline gives its value to. -/
def declarationKinds (assigns : Bool) : List Variable → List TokenKind
  | []      => []
  | [v]     => [.var v.name v.fields, if assigns then .assign else .declare]
  | v :: vs => .var v.name v.fields :: .comma :: declarationKinds assigns vs

lemma mem_declarationKinds (assigns : Bool) {vs : List Variable} {v : Variable} (h : v ∈ vs) :
    .var v.name v.fields ∈ declarationKinds assigns vs := by
  induction vs with
  | nil => cases h
  | cons w ws ih =>
    cases ws with
    | nil =>
      obtain rfl := List.mem_singleton.mp h
      exact List.mem_cons_self
    | cons w' ws =>
      rcases List.mem_cons.mp h with rfl | h
      · exact List.mem_cons_self
      · exact List.mem_cons_of_mem _ (List.mem_cons_of_mem _ (ih h))

/-- What has been read before the commands of a pipeline, and its tokens. -/
structure DeclarationsRead (ofLoop : Bool) (ts : List Token) (d : Declarations) : Prop where
  tokens : ∃ front, ts = front ++ d.rest ∧
    front.map (·.kind) = declarationKinds d.assigns d.declared
  bare : ∀ v ∈ d.declared, v.fields = []
  length : d.declared.length ≤ if ofLoop then 2 else 1
  assigns : d.assigns = true → d.declared ≠ []

/-- Before the commands stand the tokens of the variables. -/
lemma readDeclarations_read {clause : Clause} {d : Declarations}
    (h : readDeclarations c clause ts = .ok d) : DeclarationsRead clause.isLoop ts d := by
  have hone : 1 ≤ if clause.isLoop then 2 else 1 := by split <;> omega
  unfold readDeclarations at h
  dsimp only at h
  split at h
  · cases h
    exact ⟨⟨[_, _], rfl, rfl⟩, by simp, hone, by simp⟩
  · cases h
    exact ⟨⟨[_, _], rfl, rfl⟩, by simp, hone, by simp⟩
  · have htwo : ∀ (two : Bool), two = clause.isLoop → two = true →
        2 ≤ if clause.isLoop then 2 else 1 := by
      rintro _ rfl htrue
      rw [if_pos htrue]
    split_ifs at h with hloop
    have hlength := htwo _ rfl hloop
    split at h
    · cases h
      exact ⟨⟨[_, _, _, _], rfl, rfl⟩, by simp, hlength, by simp⟩
    · cases h
      exact ⟨⟨[_, _, _, _], rfl, rfl⟩, by simp, hlength, by simp⟩
    all_goals cases h
  · cases h
    exact ⟨⟨[], rfl, rfl⟩, by simp, by simp, by simp⟩

/-- What is read before the commands can be written there, and it is in order with the scope. -/
lemma readDeclarations_declarable {clause : Clause} {d : Declarations} {scope' : List String}
    (h : readDeclarations c clause ts = .ok d) (hts : AllLexical ts)
    (hscope : declare d scope = .ok scope') :
    Declarable clause.isLoop scope d.assigns d.declared ∧ AllLexical d.rest := by
  obtain ⟨⟨front, rfl, hkinds⟩, hbare, hlength, hassigns⟩ := readDeclarations_read h
  obtain ⟨-, hassigned⟩ := declare_eq_ok hscope
  obtain ⟨hfront, hrest⟩ := List.forall_mem_append.mp hts
  refine ⟨⟨hbare, fun v hv => ?_, hlength, fun htrue => ⟨hassigns htrue, hassigned htrue⟩⟩, hrest⟩
  have hmem := mem_declarationKinds d.assigns hv
  rw [← hkinds] at hmem
  obtain ⟨t, ht, heq⟩ := List.mem_map.mp hmem
  have hlexical := hfront t ht
  rwa [heq, hbare v hv] at hlexical

/-- An operand of one token is no chain, and it can be read if the token can be written. -/
lemma ofToken_readable {t : Token} {o : Operand} (h : Operand.ofToken c scope t = .ok o)
    (ht : t.kind.IsLexical) :
    o.Readable c.isFunction scope ∧ ∀ pos base names, o ≠ .chain pos base names := by
  unfold Operand.ofToken at h
  obtain ⟨kind, offset, spaced⟩ := t
  cases kind <;> dsimp only at h ht
  case identifier name =>
    split_ifs at h with hknown
    cases h
    exact ⟨⟨hknown, ht⟩, by simp⟩
  case number text =>
    split_ifs at h with hnone
    cases h
    refine ⟨?_, by simp⟩
    simp only [Operand.Readable, Number.ofText_text, Number.ofText_pos]
    exact ⟨ht, trivial, Bool.not_eq_true _ ▸ hnone⟩
  case var name fields =>
    obtain ⟨u, hname, h⟩ := bind_eq_ok_iff.mp h
    cases h
    exact ⟨⟨checkVariable_eq_ok hname, ht⟩, by simp⟩
  case dot | nil | bool =>
    cases h
    exact ⟨trivial, by simp⟩
  case string | field =>
    cases h
    exact ⟨ht, by simp⟩
  all_goals cases h

/-- An operand that is no chain and gets fields takes them. -/
lemma takesFields_of_withFields {pos : Position} {o o' : Operand} {offset : Nat}
    {names : List String} (h : o.withFields pos offset names = .ok o')
    (hbase : ∀ pos base names, o ≠ .chain pos base names) : o.takesFields = true := by
  unfold Operand.withFields at h
  split at h
  · rfl
  · rfl
  · exact absurd rfl (hbase _ _ _)
  · cases h

/-- Fields directly behind an operand that is no chain. -/
lemma readFields_readable {n : Nat} {pos : Position} {r r' : Reading n Operand}
    (h : readFields pos r = .ok r') (hr : r.value.Readable c.isFunction scope)
    (hbase : ∀ pos base names, r.value ≠ .chain pos base names) (hrest : AllLexical r.rest) :
    r'.value.Readable c.isFunction scope ∧ AllLexical r'.rest := by
  unfold readFields at h
  split at h
  · rename_i names offset rest heq
    obtain ⟨o, ho, hr'⟩ := bind_eq_ok_iff.mp h
    cases hr'
    rw [heq] at hrest
    refine ⟨?_, hrest.tail⟩
    rw [withFields_eq_ok ho]
    exact ⟨takesFields_of_withFields ho hbase, hrest.head, hr⟩
  · cases h
    exact ⟨hr, hrest⟩

mutual

/-- An operand that has been read can be read. -/
lemma readOperand_readable {scope : List String} {t : Token} {ts : List Token}
    {r : Reading (ts.length + 1) Operand} (h : readOperand c scope t ts = .ok r)
    (hts : AllLexical (t :: ts)) :
    r.value.Readable c.isFunction scope ∧ AllLexical r.rest := by
  rw [readOperand] at h
  split at h
  · obtain ⟨p, hp, h⟩ := bind_eq_ok_iff.mp h
    obtain ⟨hreadable, hrest⟩ := readPipeline_readable hp hts.tail
    split at h
    · rename_i heq
      rw [heq] at hrest
      exact readFields_readable h hreadable (by simp) hrest.tail
    · cases h
  · obtain ⟨o, ho, h⟩ := bind_eq_ok_iff.mp h
    obtain ⟨hreadable, hbase⟩ := ofToken_readable ho hts.head
    exact readFields_readable h hreadable hbase hts.tail
termination_by 4 * ts.length + 3

lemma readOperands_readable {scope : List String} {ts : List Token}
    {r : Reading (ts.length + 1) (List Operand)} (h : readOperands c scope ts = .ok r)
    (hts : AllLexical ts) :
    operandsReadable c.isFunction scope r.value ∧ AllLexical r.rest := by
  match ts with
  | [] =>
    rw [readOperands] at h
    cases h
    exact ⟨trivial, hts⟩
  | t :: ts =>
    rw [readOperands] at h
    split at h
    · cases h
      exact ⟨trivial, hts⟩
    · obtain ⟨o, ho, h⟩ := bind_eq_ok_iff.mp h
      obtain ⟨os, hos, h⟩ := bind_eq_ok_iff.mp h
      cases h
      obtain ⟨hoperand, hrest⟩ := readOperand_readable ho hts
      obtain ⟨hoperands, hrest⟩ := readOperands_readable hos hrest
      rw [← (readOperand_checked ho).behind] at hoperands
      exact ⟨⟨hoperand, hoperands⟩, hrest⟩
termination_by 4 * ts.length
decreasing_by
  · simp only [List.length_cons]
    omega
  · have := o.fewer
    simp only [List.length_cons]
    omega

lemma readCommands_readable {scope : List String} {ts : List Token}
    {r : Reading (ts.length + 1) (List Command)} (h : readCommands c scope ts = .ok r)
    (hts : AllLexical ts) :
    (r.value ≠ [] ∧ commandsReadable c.isFunction scope r.value) ∧ AllLexical r.rest := by
  rw [readCommands] at h
  obtain ⟨os, hos, h⟩ := bind_eq_ok_iff.mp h
  obtain ⟨hoperands, hrest⟩ := readOperands_readable hos hts
  split at h
  · cases h
  · rename_i hne
    rw [List.isEmpty_iff] at hne
    split at h
    · rename_i rest heq
      have hfewer : rest.length < ts.length := by
        have := os.fewer
        rw [heq, List.length_cons] at this
        omega
      rw [heq] at hrest
      split at h
      · cases h
      · obtain ⟨cs, hcs, h⟩ := bind_eq_ok_iff.mp h
        cases h
        obtain ⟨⟨-, hcommands⟩, hrest⟩ := readCommands_readable hcs hrest.tail
        rw [← (readOperands_checked hos).behind] at hcommands
        exact ⟨⟨by simp, hne, hoperands, hcommands⟩, hrest⟩
    · cases h
      exact ⟨⟨by simp, hne, hoperands, trivial⟩, hrest⟩
termination_by 4 * ts.length + 1
decreasing_by all_goals omega

/-- A pipeline that has been read can be read. -/
lemma readPipeline_readable {clause : Clause} {scope : List String} {ts : List Token}
    {r : Reading (ts.length + 1) Pipeline} (h : readPipeline c clause scope ts = .ok r)
    (hts : AllLexical ts) :
    r.value.Readable c.isFunction clause.isLoop scope ∧ AllLexical r.rest := by
  rw [readPipeline] at h
  split at h
  · cases h
  · rename_i d hd
    have hlength := readDeclarations_length hd
    obtain ⟨scope₁, hscope, h⟩ := bind_eq_ok_iff.mp h
    obtain ⟨hdeclarable, hrest⟩ := readDeclarations_declarable hd hts hscope
    obtain ⟨rfl, -⟩ := declare_eq_ok hscope
    split at h
    · cases h
    · obtain ⟨cs, hcs, h⟩ := bind_eq_ok_iff.mp h
      obtain ⟨⟨hne, hcommands⟩, hrest⟩ := readCommands_readable hcs hrest
      split at h
      · cases h
      · rename_i hfirst
        cases h
        exact ⟨⟨hdeclarable, hne, firstConstant_eq_none.mp hfirst, hcommands⟩, hrest⟩
termination_by 4 * ts.length + 2
decreasing_by omega

end

end Reading

section Known

variable {known known' : String → Bool}

mutual

lemma Operand.Readable.mono (hknown : ∀ name, known name = true → known' name = true)
    {scope : List String} {o : Operand} (h : o.Readable known scope) : o.Readable known' scope := by
  match o with
  | .identifier _ _ => exact ⟨hknown _ h.1, h.2⟩
  | .dot _ | .nil _ | .bool _ _ => trivial
  | .number _ | .string _ _ _ | .field _ _ | .var _ => exact h
  | .chain _ base _ => exact ⟨h.1, h.2.1, h.2.2.mono hknown⟩
  | .pipeline ⟨_, _, _, commands⟩ =>
    exact ⟨h.1, h.2.1, h.2.2.1, commandsReadable_mono hknown h.2.2.2⟩

lemma operandsReadable_mono (hknown : ∀ name, known name = true → known' name = true)
    {scope : List String} {os : List Operand} (h : operandsReadable known scope os) :
    operandsReadable known' scope os := by
  match os with
  | []     => trivial
  | _ :: _ => exact ⟨h.1.mono hknown, operandsReadable_mono hknown h.2⟩

lemma commandsReadable_mono (hknown : ∀ name, known name = true → known' name = true)
    {scope : List String} {cs : List Command} (h : commandsReadable known scope cs) :
    commandsReadable known' scope cs := by
  match cs with
  | []          => trivial
  | ⟨_, _⟩ :: _ =>
    exact ⟨h.1, operandsReadable_mono hknown h.2.1, commandsReadable_mono hknown h.2.2⟩

end

lemma PipelineOf.Readable.mono (hknown : ∀ name, known name = true → known' name = true)
    {ofLoop : Bool} {scope : List String} {p : Pipeline} (h : p.Readable known ofLoop scope) :
    p.Readable known' ofLoop scope :=
  ⟨h.1, h.2.1, h.2.2.1, commandsReadable_mono hknown h.2.2.2⟩

end Known

/-! ### Calls of the encoder -/

section Hook

variable {known : String → Bool} (hhook : known hookName = true)

include hhook

lemma commandsReadable_hook {scope : List String} {cs : List Command}
    (h : commandsReadable known scope cs) (pos : Position) :
    commandsReadable known scope (cs ++ [hookAt pos]) := by
  induction cs generalizing scope with
  | nil =>
    have hlexical : (TokenKind.identifier hookName).IsLexical :=
      ⟨by decide, by decide⟩
    exact ⟨by simp, ⟨⟨hhook, hlexical⟩, trivial⟩, trivial⟩
  | cons c cs ih => exact ⟨h.1, h.2.1, ih h.2.2⟩

/-- A pipeline that can be read can be read with a call of the encoder at its end. -/
lemma PipelineOf.Readable.withHook {ofLoop : Bool} {scope : List String} {p : Pipeline}
    (h : p.Readable known ofLoop scope) : p.withHook.Readable known ofLoop scope := by
  obtain ⟨hdeclarable, hne, hvalues, hcommands⟩ := h
  obtain heq | ⟨pos, heq⟩ := p.withHook_cases
  · rw [heq]
    exact ⟨hdeclarable, hne, hvalues, hcommands⟩
  · rw [heq]
    refine ⟨hdeclarable, by simp, ?_, commandsReadable_hook hhook hcommands pos⟩
    rw [List.tail_append_of_ne_nil hne]
    intro c hc
    rcases List.mem_append.mp hc with hc | hc
    · exact hvalues c hc
    · obtain rfl := List.mem_singleton.mp hc
      rfl

end Hook

end SafeQuery
