import SafeQuery.Proofs.Function.Builtin
import SafeQuery.Proofs.Literal.Form
import SafeQuery.Proofs.Template.Provenance

/-!
# No injection

With the encoder that templates start with and without functions of the program, data reaches the
output as complete literals only. The property that evaluation keeps is that every part of a query
inside a value is a literal that the encoder has made of a value that is none.
-/

namespace SafeQuery

/-! ### Parts of a query inside values -/

mutual

/-- The parts of a query inside the value have the property; no part of a query is supplied by a
valuer. -/
def Value.RawsIn (P : String → Prop) : Value → Prop
  | .raw sql  => P sql
  | .list vs  => AllRawsIn P vs
  | .map ⟨es⟩ => EntriesRawsIn P es
  | .valuer v => ∀ sql, v.outcome ≠ .ok (.raw sql)
  | _         => True

/-- The parts of a query inside the values have the property. -/
def AllRawsIn (P : String → Prop) : List Value → Prop
  | []      => True
  | v :: vs => v.RawsIn P ∧ AllRawsIn P vs

def EntriesRawsIn (P : String → Prop) : List (String × Value) → Prop
  | []           => True
  | (_, v) :: es => v.RawsIn P ∧ EntriesRawsIn P es

end

/-- There is no part of a query inside the value, and none is supplied by a valuer. -/
def Value.RawFree (v : Value) : Prop := v.RawsIn fun _ => False

section RawsIn

variable {P Q : String → Prop}

lemma allRawsIn_iff {vs : List Value} : AllRawsIn P vs ↔ ∀ v ∈ vs, v.RawsIn P := by
  induction vs with
  | nil => simp [AllRawsIn]
  | cons v vs ih => simp [AllRawsIn, ih]

lemma entriesRawsIn_iff {es : List (String × Value)} :
    EntriesRawsIn P es ↔ ∀ e ∈ es, e.2.RawsIn P := by
  induction es with
  | nil => simp [EntriesRawsIn]
  | cons e es ih => simp [EntriesRawsIn, ih]

mutual

lemma Value.RawsIn.mono (hPQ : ∀ sql, P sql → Q sql) {v : Value} (h : v.RawsIn P) :
    v.RawsIn Q := by
  match v with
  | .raw sql =>
    rw [Value.RawsIn] at h ⊢
    exact hPQ sql h
  | .list vs =>
    rw [Value.RawsIn] at h ⊢
    exact AllRawsIn.mono hPQ h
  | .map ⟨es⟩ =>
    rw [Value.RawsIn] at h ⊢
    exact EntriesRawsIn.mono hPQ h
  | .valuer v =>
    rw [Value.RawsIn] at h ⊢
    exact h
  | .null | .bool _ | .int _ | .float _ | .bytes _ | .string _ | .time _ | .identifier _ =>
    simp [Value.RawsIn]

lemma AllRawsIn.mono (hPQ : ∀ sql, P sql → Q sql) {vs : List Value} (h : AllRawsIn P vs) :
    AllRawsIn Q vs := by
  match vs with
  | [] => simp [AllRawsIn]
  | v :: vs =>
    rw [AllRawsIn] at h ⊢
    exact ⟨h.1.mono hPQ, AllRawsIn.mono hPQ h.2⟩

lemma EntriesRawsIn.mono (hPQ : ∀ sql, P sql → Q sql) {es : List (String × Value)}
    (h : EntriesRawsIn P es) : EntriesRawsIn Q es := by
  match es with
  | [] => simp [EntriesRawsIn]
  | (_, v) :: es =>
    rw [EntriesRawsIn] at h ⊢
    exact ⟨h.1.mono hPQ, EntriesRawsIn.mono hPQ h.2⟩

end

/-- Constants have no parts of a query, and the parts of a value have no others than the value. -/
lemma rawsIn_closed (P : String → Prop) : Value.Closed (Value.RawsIn P) where
  null := by simp [Value.RawsIn]
  bool b := by simp [Value.RawsIn]
  int n := by simp [Value.RawsIn]
  float x := by simp [Value.RawsIn]
  string s := by simp [Value.RawsIn]
  item := by
    intro vs v hvs hv
    rw [Value.RawsIn] at hvs
    exact allRawsIn_iff.mp hvs v hv
  entry := by
    intro d e hd he
    rw [Value.RawsIn] at hd
    exact entriesRawsIn_iff.mp hd e he

end RawsIn

/-! ### Literals of values -/

namespace Literal

/-- The text is the literal of a value that is no part of a query itself. -/
def IsEncoded (sql : String) : Prop := ∃ v, (∀ r, v ≠ .raw r) ∧ ofResolved v = .ok sql

lemma IsEncoded.isLiteral {sql : String} (h : IsEncoded sql) : IsLiteral sql := by
  obtain ⟨v, hv, hsql⟩ := h
  exact ofResolved_isLiteral hv hsql

/-- The encoder makes a literal of a value that is no part of a query, or passes on a part of a
query that has been made so. -/
lemma isEncoded_of_postgres {v : Value} {sql : String} (hv : v.RawsIn IsEncoded)
    (h : postgres v = .ok sql) : IsEncoded sql := by
  obtain ⟨w, hw, hsql⟩ := postgres_eq_ok_iff.mp h
  cases v with
  | raw r =>
    cases hw
    cases hsql
    simpa [Value.RawsIn] using hv
  | valuer u =>
    rw [Value.RawsIn] at hv
    simp only [resolve] at hw
    split at hw
    · rename_i value hvalue
      cases hw
      refine ⟨w, fun r hr => ?_, hsql⟩
      exact hv r (hr ▸ hvalue)
    · cases hw
  | _ =>
    cases hw
    exact ⟨_, by simp, hsql⟩

/-- The literal of a string is another text than the string. -/
lemma postgres_string_ne (s : String) : postgres (.string s) ≠ .ok s := by
  intro h
  have hquoted : quotedBy '\'' s = s := by simpa [postgres, ofResolved] using h
  have hlength := congrArg (fun t => t.toList.length) hquoted
  have hle : s.toList.length ≤
      (s.toList.flatMap fun c => if c = '\'' then [c, c] else [c]).length := by
    induction s.toList with
    | nil => simp
    | cons c cs ih =>
      rw [List.flatMap_cons, List.length_append, List.length_cons]
      split
      · simp only [List.length_cons, List.length_nil]
        omega
      · simp only [List.length_cons, List.length_nil]
        omega
  rw [toList_quotedBy] at hlength
  simp only [List.length_cons, List.length_append, List.length_nil] at hlength
  omega

end Literal

namespace Template

variable {t : Template}

/-- Evaluation makes no other parts of a query than literals of values that are none. -/
lemma rawsIn_kept (hfunctions : t.functions = .empty) (hencoder : t.encoder = Literal.postgres) :
    t.environment.Keeps (Value.RawsIn Literal.IsEncoded) where
  toClosed := rawsIn_closed _
  function := by
    intro name g hg
    have hbuiltin : builtins.get? name = some g := by
      simpa [environment, hfunctions] using hg
    exact builtins_keep (rawsIn_closed _) hbuiltin
  literal := by
    intro v sql hv hsql
    have hpostgres : Literal.postgres v = .ok sql := by
      rw [← hencoder]
      exact hsql
    rw [Value.RawsIn]
    exact Literal.isEncoded_of_postgres hv hpostgres

/-- What a template may write for data without parts of a query: its texts and complete literals. -/
inductive WritesSafely (t : Template) : Piece → Prop where
  | text {name : String} {tree : Tree} {s : String} :
      t.trees.get? name = some tree → tree.HasText s → WritesSafely t (.text s)
  | literal {sql : String} : Literal.IsLiteral sql → WritesSafely t (.value (.raw sql))

/-- For data without parts of a query, everything that a template writes besides its texts is a
complete literal. In particular its expressions, whatever they are, make no part of a query but
the literal of a value that is none, which for a string is never the string itself. -/
theorem executeNamed_writesSafely (ht : t.Built Tree.IsRead) (hfunctions : t.functions = .empty)
    (hencoder : t.encoder = Literal.postgres) {data : Value} (hdata : data.RawFree) (name : String)
    (room : Option Nat) :
    (t.executeNamed name data room).sink.Consists t.WritesSafely room ∧
      ((t.executeNamed name data room).failure = none →
        (t.executeNamed name data room).sink.cut = []) ∧
      (∀ (f : Frame) (p : Pipeline) (s s' : Scope) (v : Value), f.env = t.environment →
        f.dot.RawsIn Literal.IsEncoded → Scope.All (Value.RawsIn Literal.IsEncoded) s →
        (f.evalPipeline p).run s = .ok (v, s') →
          v.RawsIn Literal.IsEncoded ∧ Scope.All (Value.RawsIn Literal.IsEncoded) s') ∧
      ∀ s, Literal.postgres (.string s) ≠ .ok s := by
  have hV := rawsIn_kept hfunctions hencoder
  have hgood : data.RawsIn Literal.IsEncoded := hdata.mono fun _ h => h.elim
  have hguarded : t.IsGuarded := Built.isGuarded (fun _ => Tree.IsRead.isComplete) ht
  have hsafe : ∀ p, t.Supplies (Value.RawsIn Literal.IsEncoded) p → t.WritesSafely p := by
    intro p hp
    cases hp with
    | text htree hs => exact .text htree hs
    | literal hv hsql =>
      rw [hencoder] at hsql
      exact .literal (Literal.isEncoded_of_postgres hv hsql).isLiteral
  obtain ⟨hconsists, hcut⟩ := executeNamed_consists hguarded hV name data room hgood
  refine ⟨hconsists.mono hsafe, hcut, ?_, Literal.postgres_string_ne⟩
  intro f p s s' v hf hdot hs hrun
  have henv : f.env.Keeps (Value.RawsIn Literal.IsEncoded) := hf ▸ hV
  exact Frame.evalPipeline_keeps henv hdot p s s' v hs hrun

/-- A string with a quote, which is written twice. -/
theorem executeNamed_writesSafely_of_quote :
    let t := ((new "q").load (parse "x = \x7b\x7b.\x7d\x7d")).1
    (t.Built Tree.IsRead ∧ t.functions = .empty ∧ t.encoder = Literal.postgres ∧
        (Value.string "a' OR 1").RawFree) ∧
      (t.executeNamed "q" (.string "a' OR 1") none).sink.Consists t.WritesSafely none ∧
      (t.executeNamed "q" (.string "a' OR 1") none).sink.text = "x = 'a'' OR 1'" := by
  intro t
  have ht : t.Built Tree.IsRead := (Built.new "q").source _
  have hkept : KeptBySources fun u => u.functions = .empty ∧ u.encoder = Literal.postgres :=
    keptBySources_of_settings fun _ _ h => h
  obtain ⟨hfunctions, hencoder⟩ := load_keeps (parse_keeps hkept _) (t := new "q") ⟨rfl, rfl⟩
  have hdata : (Value.string "a' OR 1").RawFree := by simp [Value.RawFree, Value.RawsIn]
  refine ⟨⟨ht, hfunctions, hencoder, hdata⟩, ?_, by decide +kernel⟩
  exact (executeNamed_writesSafely ht hfunctions hencoder hdata "q" none).1

end Template

end SafeQuery
