import Mathlib.Tactic.Common
import SafeQuery.Proofs.Execution.Emission
import SafeQuery.Proofs.Literal.Form
import SafeQuery.Template

/-!
# Comments at the beginning of a literal

Two dashes outside of quotes begin a comment. No literal holds them, but a literal is written
directly behind the text of a template: `opensComment_iff` says that a comment begins there exactly
if the text ends with a dash and the value is a negative number.
-/

namespace SafeQuery

namespace Literal

/-- Two dashes stand in the text outside of quotes; `quote` is the quote that has been opened
before, if there is one. -/
def opensComment (quote : Option Char) : List Char → Bool
  | []      => false
  | c :: cs =>
    match quote with
    | some q => opensComment (if c = q then none else some q) cs
    | none   =>
      if c = '-' && cs.head? = some '-' then true
      else opensComment (if c = '\'' || c = '"' then some c else none) cs

/-- A character opens no comment unless two dashes stand together. -/
lemma opensComment_cons {c : Char} {cs : List Char} (hc : c ≠ '\'' ∧ c ≠ '"')
    (h : c ≠ '-' ∨ cs.head? ≠ some '-') :
    opensComment none (c :: cs) = opensComment none cs := by
  have hdash : (c = '-' && cs.head? = some '-') = false := by
    rcases h with h | h
    · simp [h]
    · simp [h]
  rw [opensComment]
  simp [hdash, hc.1, hc.2]

/-- Text between quotes is skipped. -/
lemma opensComment_doubled {quote : Char} (hq : quote = '\'' ∨ quote = '"') {cs : List Char}
    (h : IsDoubled quote cs) (rest : List Char) :
    opensComment (some quote) (cs ++ quote :: rest) = opensComment none rest := by
  have hdash : quote ≠ '-' := by
    rcases hq with rfl | rfl <;> decide
  have hquote : (quote = '\'' || quote = '"') = true := by simpa using hq
  induction h with
  | nil => simp [opensComment]
  | other hc _ ih => simpa [opensComment, hc] using ih
  | twice _ ih => simpa [opensComment, hdash, hquote] using ih

/-- A quoted text is skipped. -/
lemma opensComment_quoted {quote : Char} (hq : quote = '\'' ∨ quote = '"') {cs : List Char}
    (h : IsDoubled quote cs) : opensComment none (quote :: cs ++ [quote]) = false := by
  have hdash : quote ≠ '-' := by
    rcases hq with rfl | rfl <;> decide
  have hquote : (quote = '\'' || quote = '"') = true := by simpa using hq
  have hrest := opensComment_doubled hq h []
  simpa [opensComment, hdash, hquote] using hrest

lemma opensComment_digits {ds : List Char} (h : ∀ d ∈ ds, d.isDigit = true) (rest : List Char) :
    opensComment none (ds ++ rest) = opensComment none rest := by
  induction ds with
  | nil => rfl
  | cons d ds ih =>
    have hd : d.isDigit = true := h d List.mem_cons_self
    have hne : ∀ c : Char, c.isDigit = false → d ≠ c := by
      rintro c hc rfl
      rw [hd] at hc
      cases hc
    have hquotes : d ≠ '\'' ∧ d ≠ '"' := ⟨hne _ (by decide), hne _ (by decide)⟩
    rw [List.cons_append, opensComment_cons hquotes (Or.inl (hne _ (by decide)))]
    exact ih fun e he => h e (List.mem_cons_of_mem _ he)

/-- A number without sign opens no comment. -/
lemma opensComment_plain {ds : List Char} (h : Decimal.IsPlain ds) (rest : List Char) :
    opensComment none (ds ++ rest) = opensComment none rest := by
  cases h with
  | whole hd => exact opensComment_digits hd.all rest
  | point hd hf =>
    rw [List.append_assoc, List.cons_append, opensComment_digits hd.all,
      opensComment_cons (by decide) (Or.inl (by decide)), opensComment_digits hf.all]

lemma head?_digits {ds : List Char} (h : Decimal.IsDigits ds) (rest : List Char) :
    (ds ++ rest).head? ≠ some '-' := by
  obtain ⟨hne, hall⟩ := h
  cases ds with
  | nil => exact absurd rfl hne
  | cons d ds =>
    intro heq
    obtain rfl : d = '-' := by simpa using heq
    exact absurd (hall '-' List.mem_cons_self) (by decide)

/-- A numeral without sign begins with no dash. -/
lemma head?_numeral {ds : List Char} (h : Decimal.IsNumeral ds) : ds.head? ≠ some '-' := by
  have hplain : ∀ {ds : List Char}, Decimal.IsPlain ds → ∀ rest, (ds ++ rest).head? ≠ some '-' := by
    intro ds h rest
    cases h with
    | whole hd => exact head?_digits hd rest
    | point hd hf =>
      rw [List.append_assoc]
      exact head?_digits hd _
  cases h with
  | plain hd => simpa using hplain hd []
  | exponent hd _ _ => exact hplain hd _

/-- The sign of an exponent is the only one in a numeral. -/
lemma opensComment_numeral {ds : List Char} (h : Decimal.IsNumeral ds) :
    opensComment none ds = false := by
  cases h with
  | plain hd => simpa [opensComment] using opensComment_plain hd []
  | @exponent ds es sign hd hsign hes =>
    have hhead : es.head? ≠ some '-' := by simpa using head?_digits hes []
    have hquotes : sign ≠ '\'' ∧ sign ≠ '"' := by
      rcases hsign with rfl | rfl <;> decide
    have hdigits := opensComment_digits hes.all []
    rw [opensComment_plain hd, opensComment_cons (by decide) (Or.inl (by decide)),
      opensComment_cons hquotes (Or.inr hhead)]
    simpa [opensComment] using hdigits

/-- No literal holds a comment. -/
theorem opensComment_form {cs : List Char} (h : Form cs) : opensComment none cs = false := by
  cases h with
  | word hw =>
    simp only [List.mem_cons, List.not_mem_nil, or_false] at hw
    rcases hw with rfl | rfl | rfl <;> decide
  | @number sign ds hsign hds =>
    rcases hsign with rfl | rfl
    · exact opensComment_numeral hds
    · rw [List.singleton_append, opensComment_cons (by decide) (Or.inr (head?_numeral hds))]
      exact opensComment_numeral hds
  | text hcs => exact opensComment_quoted (Or.inl rfl) hcs
  | identifier hcs => exact opensComment_quoted (Or.inr rfl) hcs

/-- A text without quotes and comments does not change what follows, unless it ends with a dash and
a dash follows. -/
lemma opensComment_append {ts : List Char} (hquotes : '\'' ∉ ts ∧ '"' ∉ ts)
    (hdashes : ¬ ['-', '-'] <:+: ts) (cs : List Char) :
    opensComment none (ts ++ cs) =
      ((ts.getLast? = some '-' && cs.head? = some '-') || opensComment none cs) := by
  induction ts with
  | nil => simp
  | cons c ts ih =>
    have hc : c ≠ '\'' ∧ c ≠ '"' :=
      ⟨fun h => hquotes.1 (h ▸ List.mem_cons_self), fun h => hquotes.2 (h ▸ List.mem_cons_self)⟩
    cases ts with
    | nil =>
      by_cases h : c = '-' ∧ cs.head? = some '-'
      · simp [opensComment, h.1, h.2]
      · rw [List.singleton_append, opensComment_cons hc (not_and_or.mp h)]
        simpa using fun h1 h2 => absurd ⟨h1, h2⟩ h
    | cons d ts =>
      have hcd : ¬ (c = '-' ∧ d = '-') := by
        rintro ⟨rfl, rfl⟩
        exact hdashes ⟨[], ts, rfl⟩
      have hrest : ¬ ['-', '-'] <:+: d :: ts := fun h =>
        hdashes (h.trans (List.suffix_cons c _).isInfix)
      rw [List.cons_append, opensComment_cons hc (by simpa using not_and_or.mp hcd),
        ih ⟨fun h => hquotes.1 (List.mem_cons_of_mem _ h),
          fun h => hquotes.2 (List.mem_cons_of_mem _ h)⟩ hrest, List.getLast?_cons_cons]

/-! ### Negative numbers -/

/-- The value is a number that is written with a sign. -/
def isNegative : Value → Bool
  | .int n   => n.toInt < 0
  | .float x =>
    match Decimal.magnitude x with
    | .finite _ => Decimal.isNegative x
    | _         => false
  | _        => false

/-- The value that is written is a number with a sign. -/
def writesNegative (v : Value) : Bool :=
  match resolve v with
  | .ok w    => isNegative w
  | .error _ => false

/-- The literal of a floating-point number begins with a dash just if the number is negative. -/
lemma head?_float (x : Float) : (float x).toList.head? = some '-' ↔ isNegative (.float x) := by
  unfold float isNegative
  split
  · rename_i h
    simp [h]
  · rename_i h
    split <;> simp [h]
  · rename_i b h
    have hdigits := head?_numeral (Decimal.layOut_isNumeral b)
    rw [toList_text h]
    simp only [h, Decimal.signOf]
    split
    · rename_i hsign
      simp [hsign]
    · rename_i hsign
      simpa [hsign] using hdigits

/-- A literal begins with a dash exactly if it is that of a negative number. -/
lemma head?_ofResolved {v : Value} {sql : String} (hv : ∀ r, v ≠ .raw r)
    (h : ofResolved v = .ok sql) : sql.toList.head? = some '-' ↔ isNegative v := by
  cases v with
  | int n =>
    cases h
    have hdigits : (Nat.toDigits 10 n.toInt.natAbs).head? ≠ some '-' := by
      simpa using head?_digits (Decimal.isDigits_toDigits n.toInt.natAbs) []
    rw [toList_toString_int]
    split
    · rename_i hn
      have hpos : ¬ n.toInt < 0 := by omega
      simpa [isNegative, hpos] using hdigits
    · rename_i hn
      have hneg : n.toInt < 0 := by omega
      simp [isNegative, hneg]
  | float x =>
    cases h
    exact head?_float x
  | raw r => exact absurd rfl (hv r)
  | bool b => cases b <;> cases h <;> simp [isNegative]
  | null | bytes _ | string _ | time _ | identifier _ =>
    cases h
    simp [isNegative, quotedBy, bytes]
  | list _ | map _ | valuer _ => cases h

/-! ### Templates -/

def dataAt (pos : Position) : Pipeline := ⟨pos, false, [], [⟨pos, [.dot pos]⟩]⟩

def textAndData (name text : String) (start textAt actionAt dotAt : Position) : Tree :=
  ⟨name, ⟨start, [.text textAt text, .action actionAt (dataAt dotAt)]⟩⟩

lemma bytesOf_append (s t : String) :
    Text.bytesOf (s ++ t) = Text.bytesOf s ++ Text.bytesOf t := by
  simp [Text.bytesOf]

/-- With the call of the encoder the data is turned into its literal. -/
lemma evalPipeline_dataAt {f : Frame} {sql : String} (h : f.env.encoder f.dot = .ok sql)
    (pos : Position) : f.evalPipeline (dataAt pos).withHook = pure (.raw sql) := by
  have hencode : f.encode ⟨pos, [.dot pos]⟩ f.dot = .ok (.raw sql) := by simp [Frame.encode, h]
  have hlast : (dataAt pos).commands.getLast? = some ⟨pos, [.dot pos]⟩ := rfl
  rw [Frame.evalPipeline_withHook f rfl hlast rfl]
  change (pure f.dot >>= fun v => (liftM (f.encode ⟨pos, [.dot pos]⟩ v) : Eval Value)) = _
  rw [pure_bind, hencode]
  rfl

/-- The template writes its text and then the literal of the data. -/
lemma runNodes_textAndData (s : Stage) {sql : String} (h : s.env.encoder s.dot = .ok sql)
    (name text : String) (start textAt actionAt dotAt : Position) :
    s.runNodes (textAndData name text start textAt actionAt dotAt).withHooks.root.nodes = (do
      Run.emit (.text text)
      Run.emit (.value (.raw sql))
      return .normal) := by
  have hvalue : s.evalPipeline (dataAt dotAt).withHook = pure (.raw sql) :=
    evalPipeline_dataAt h dotAt
  have hdeclared : (dataAt dotAt).withHook.declared.isEmpty = true := rfl
  simp only [Tree.withHooks, BlockOf.withHooks, textAndData, hookAll, Node.withHooks,
    Stage.runNodes, Stage.runNode, hvalue, Run.ofEval_pure, hdeclared, if_true, bind_assoc,
    pure_bind]

/-- A template of a text and the data behind it writes the text and the literal. -/
theorem execute_textAndData {text sql : String} {v : Value} (h : postgres v = .ok sql)
    (name : String) (start textAt actionAt dotAt : Position) :
    ((Template.new name).withTree name (textAndData name text start textAt actionAt dotAt)).execute
      v none = ⟨none, none, [.value (.raw sql), .text text], []⟩ := by
  let t := (Template.new name).withTree name (textAndData name text start textAt actionAt dotAt)
  have htree : t.tree? = some (textAndData name text start textAt actionAt dotAt).withHooks := by
    simp [t, Template.tree?, Template.withTree, Dict.get?_insert, Template.new, textAndData]
  have hrun : (t.environment.runTree maxCallDepth
      (textAndData name text start textAt actionAt dotAt).withHooks v).run (Sink.ofRoom none) =
      (.ok (), ⟨none, [.value (.raw sql), .text text], []⟩) := by
    change (t.environment.runTree (255 + 1) _ v).run.run (Sink.ofRoom none) = _
    have hnodes := runNodes_textAndData ⟨⟨t.environment, name, v⟩, some (t.environment.runTree 255)⟩
      h name text start textAt actionAt dotAt
    rw [Environment.runTree, Environment.run_enterWith]
    change ((((Stage.runNodes ⟨⟨t.environment, name, v⟩, _⟩ _).run _).run.run _).map _ _) = _
    rw [hnodes]
    rfl
  change t.execute v none = _
  unfold Template.execute Template.run
  rw [htree]
  simp only [Environment.execute, hrun]
  rfl

/-- Behind a text without quotes and comments, a literal that is written there begins a comment
exactly if the text ends with a dash and the value is a negative number. -/
theorem opensComment_iff {text sql : String} {v : Value}
    (hquotes : '\'' ∉ text.toList ∧ '"' ∉ text.toList) (hdashes : ¬ ['-', '-'] <:+: text.toList)
    (hraw : ∀ r, resolve v ≠ .ok (.raw r)) (h : postgres v = .ok sql) :
    (opensComment none (text ++ sql).toList = true ↔
        text.toList.getLast? = some '-' ∧ writesNegative v = true) ∧
      ∀ (name : String) (start textAt actionAt dotAt : Position),
        let r := ((Template.new name).withTree name
          (textAndData name text start textAt actionAt dotAt)).execute v none
        r.failure = none ∧ r.sink.bytes = Text.bytesOf (text ++ sql) := by
  constructor
  · obtain ⟨w, hw, hsql⟩ := postgres_eq_ok_iff.mp h
    have hnotRaw : ∀ r, w ≠ .raw r := fun r heq => hraw r (heq ▸ hw)
    have hform := opensComment_form (ofResolved_isLiteral hnotRaw hsql)
    have hsign := head?_ofResolved hnotRaw hsql
    have hwrites : writesNegative v = isNegative w := by simp [writesNegative, hw]
    rw [String.toList_append, opensComment_append hquotes hdashes, hform, hwrites, ← hsign]
    simp
  · intro name start textAt actionAt dotAt
    rw [execute_textAndData h]
    refine ⟨rfl, ?_⟩
    rw [bytesOf_append]
    simp [Sink.bytes, Piece.bytes, Piece.shown, Value.display]

/-- Minus one behind a dash begins a comment, and so it is rendered. -/
theorem opensComment_minus :
    (('\'' ∉ "SELECT 1 -".toList ∧ '"' ∉ "SELECT 1 -".toList) ∧
        ¬ ['-', '-'] <:+: "SELECT 1 -".toList ∧
        (∀ r, resolve (.int (-1)) ≠ .ok (.raw r)) ∧ postgres (.int (-1)) = .ok "-1") ∧
      opensComment none ("SELECT 1 -" ++ "-1").toList = true ∧
      (((Template.new "q").load (Template.parse "SELECT 1 -\x7b\x7b.\x7d\x7d")).1.render
        (.int (-1))).toOption = some "SELECT 1 --1" := by
  have hquotes : '\'' ∉ "SELECT 1 -".toList ∧ '"' ∉ "SELECT 1 -".toList := by decide +kernel
  have hdashes : ¬ ['-', '-'] <:+: "SELECT 1 -".toList := by decide +kernel
  have hraw : ∀ r, resolve (.int (-1)) ≠ .ok (.raw r) := by simp [resolve]
  have hsql : postgres (.int (-1)) = .ok "-1" := by
    simp only [postgres, ofResolved, Except.ok.injEq]
    decide
  refine ⟨⟨hquotes, hdashes, hraw, hsql⟩, ?_, by decide +kernel⟩
  exact (opensComment_iff hquotes hdashes hraw hsql).1.mpr ⟨by decide +kernel, by decide +kernel⟩

end Literal

end SafeQuery
