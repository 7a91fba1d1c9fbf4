import SafeQuery.Proofs.Token.Numeral

/-!
# Tokens that can be written

`TokenKind.IsLexical` is the grammar of tokens. The scanner yields no others
(`scanToken_isLexical`), and it finds each of them again where its text stands before something that
it does not run into (`scanToken_print_append`).
-/

namespace SafeQuery

/-- What is written of a string up to its closing quote is read alike whatever follows. -/
lemma scanString_again {state : StringState} {written text r : List Char}
    (h : scanString state (written ++ r) = .closed text written r) (rest : List Char) :
    scanString state (written ++ rest) = .closed text written rest := by
  induction written generalizing state text with
  | nil =>
    cases r with
    | nil => cases state <;> simp [scanString] at h
    | cons c cs =>
      have hwritten := scanString_endsQuoted state (c :: cs) _ _ _ h
      contradiction
  | cons c cs ih =>
    rw [List.cons_append] at h ⊢
    cases state with
    | plain =>
      simp only [scanString] at h ⊢
      split_ifs at h ⊢ with hquote hbreak hback
      · obtain ⟨rfl, hcs, -⟩ := StringTail.closed.inj h
        obtain ⟨rfl, rfl⟩ : '"' = c ∧ cs = [] := by simpa using hcs
        rfl
      · obtain ⟨w, hw, h'⟩ := StringTail.written_eq_closed.mp h
        cases hw
        rw [ih h']
        rfl
      · obtain ⟨t, w, rfl, hw, h'⟩ := StringTail.yields_eq_closed.mp h
        cases hw
        rw [ih h']
        rfl
    | escape =>
      simp only [scanString] at h ⊢
      cases hletter : letterEscape? c with
      | some d =>
        simp only [hletter] at h ⊢
        obtain ⟨t, w, rfl, hw, h'⟩ := StringTail.yields_eq_closed.mp h
        cases hw
        rw [ih h']
        rfl
      | none =>
        simp only [hletter] at h ⊢
        cases hdigits : digitsEscape? c with
        | none =>
          rw [hdigits] at h
          cases h
        | some next =>
          simp only [hdigits] at h ⊢
          obtain ⟨w, hw, h'⟩ := StringTail.written_eq_closed.mp h
          cases hw
          rw [ih h']
          rfl
    | digits base left value =>
      simp only [scanString] at h ⊢
      cases hdigit : digitIn? base c with
      | none =>
        rw [hdigit] at h
        cases h
      | some v =>
        simp only [hdigit] at h ⊢
        split_ifs at h ⊢
        · cases hchar : charOf? (value * base + v) with
          | none =>
            rw [hchar] at h
            cases h
          | some d =>
            simp only [hchar] at h ⊢
            obtain ⟨t, w, rfl, hw, h'⟩ := StringTail.yields_eq_closed.mp h
            cases hw
            rw [ih h']
            rfl
        · obtain ⟨w, hw, h'⟩ := StringTail.written_eq_closed.mp h
          cases hw
          rw [ih h']
          rfl

/-! ### Names -/

/-- A name begins with a character that may begin names and goes on with those that may stand
inside. -/
lemma isName_iff {s : String} :
    isName s = true ↔
      ∃ c cs, s.toList = c :: cs ∧ isNameStart c = true ∧ ∀ d ∈ cs, isNameChar d = true := by
  unfold isName
  cases s.toList with
  | nil => simp
  | cons c cs => simp

lemma not_isNameStart_of_isDigit {c : Char} (h : Decimal.isDigit c = true) :
    isNameStart c = false := by
  cases hname : isNameStart c with
  | false => rfl
  | true =>
    have hc : c.toNat < 128 := by
      simp only [Decimal.isDigit, Bool.and_eq_true, decide_eq_true_eq] at h
      exact Nat.lt_of_le_of_lt (Char.le_def.mp h.2) (by decide)
    have hno := class_of_table (p := Decimal.isDigit) (q := fun c => !isNameStart c)
      (by decide) hc h
    simp [hname] at hno

lemma isNameStart_avoids {c : Char} (h : isNameStart c = true) (cs : List Char) :
    Avoids Decimal.isDigit (c :: cs) := by
  refine .cons ?_
  by_contra hdigit
  rw [not_isNameStart_of_isDigit (by simpa using hdigit)] at h
  contradiction

/-- Field names, each after a point, are found again before something that they do not run into. -/
lemma scanFields_again {names : List String} (hnames : ∀ n ∈ names, isName n = true)
    {rest : List Char} (hrest : runsOn rest = false) :
    scanFields ((String.join (names.map ("." ++ ·))).toList ++ rest) =
      ⟨names, (String.join (names.map ("." ++ ·))).toList, rest⟩ := by
  induction names with
  | nil =>
    have hdot := avoids_dot_of_runsOn hrest
    unfold scanFields
    split
    · have hne := hdot '.' (by simp_all)
      contradiction
    · simp
  | cons n ns ih =>
    obtain ⟨c, cs, hn, hc, hcs⟩ := isName_iff.mp (hnames n List.mem_cons_self)
    have hns := ih fun m hm => hnames m (List.mem_cons_of_mem _ hm)
    have havoids : Avoids isNameChar ((String.join (ns.map ("." ++ ·))).toList ++ rest) := by
      cases ns with
      | nil => simpa using avoids_of_runsOn hrest
      | cons m ms =>
        simp only [List.map_cons, String.join_cons, String.toList_append]
        exact .cons (by decide)
    have hdot : (".".toList : List Char) = ['.'] := rfl
    have hof : String.ofList (c :: cs) = n := by rw [← hn, String.ofList_toList]
    simp only [List.map_cons, String.join_cons, String.toList_append, hn, hdot, List.cons_append,
      List.nil_append, List.append_assoc]
    rw [scanFields, if_pos hc]
    simp only [takeWhile_append hcs havoids, dropWhile_append hcs havoids, hns, hof,
      List.cons_append]

/-- Between the points of field names stand names. -/
lemma scanFields_names (s : List Char) : ∀ n ∈ (scanFields s).value, isName n = true := by
  fun_induction scanFields s with
  | case1 c cs h name r ih =>
    rw [List.forall_mem_cons]
    refine ⟨?_, ih⟩
    rw [isName_iff]
    exact ⟨c, _, String.toList_ofList, h, fun d hd => List.mem_takeWhile_imp hd⟩
  | case2 | case3 => exact fun _ hn => absurd hn List.not_mem_nil

namespace TokenKind

/-- A string between quotes of either kind, and the text that it stands for. -/
def IsQuoted (quoted text : String) : Prop :=
  (rawQuote ∉ text.toList ∧ quoted.toList = rawQuote :: text.toList ++ [rawQuote]) ∨
    ∃ written rest, quoted.toList = '"' :: written ∧
      scanString .plain (written ++ rest) = .closed text.toList written rest

/-- The token can be written: it is made of names, numerals and strings. -/
def IsLexical : TokenKind → Prop
  | field names         => names ≠ [] ∧ ∀ n ∈ names, isName n = true
  | var name fields     =>
    (∃ cs, name.toList = '$' :: cs ∧ ∀ c ∈ cs, isNameChar c = true) ∧
      ∀ n ∈ fields, isName n = true
  | identifier name     => isName name = true ∧ ofWord name = identifier name
  | number text         => ∃ s rest, scanNumber? s = some (text.toList, rest)
  | string quoted text  => IsQuoted quoted text
  | _                   => True

/-- The token does not run into what follows it. -/
def EndsAt (s : List Char) : TokenKind → Prop
  | dot | field _ | var _ _ | number _             => runsOn s = false
  | identifier _ | keyword _ | bool _ | TokenKind.nil => Avoids isNameChar s
  | _                                              => True

end TokenKind

/-! ### Tokens that are scanned -/

/-- A name is a token that can be written, also if it is a keyword or a constant. -/
lemma ofWord_isLexical {w : String} (h : isName w = true) : (TokenKind.ofWord w).IsLexical := by
  unfold TokenKind.ofWord
  cases hk : Keyword.ofWord? w with
  | some k => trivial
  | none =>
    dsimp only
    split_ifs with htrue hfalse hnil
    · trivial
    · trivial
    · trivial
    · refine ⟨h, ?_⟩
      simp only [TokenKind.ofWord, hk, htrue, hfalse, hnil, if_false]

lemma markToken_isLexical {c : Char} {kind : TokenKind} (h : markToken? c = some kind) :
    kind.IsLexical := by
  unfold markToken? at h
  split_ifs at h <;> cases h <;> trivial

/-- Every word that is read can be written. -/
lemma scanWord_isLexical {c : Char} {cs : List Char} {r : Scanned TokenKind}
    (h : scanWord c cs = .ok r) : r.value.IsLexical := by
  simp only [scanWord] at h
  split_ifs at h with hdot hnone hvar hraw hquote hname hnumber
  · cases h
    trivial
  · cases h
    exact ⟨by simpa using hnone, scanFields_names _⟩
  · cases h
    refine ⟨⟨cs.takeWhile isNameChar, ?_, fun d hd => List.mem_takeWhile_imp hd⟩,
      scanFields_names _⟩
    rw [String.toList_ofList, hvar]
  · split at h
    · rename_i q rest hrest
      cases h
      have hq : q = rawQuote := by
        have hhead := List.head?_dropWhile_not (· ≠ rawQuote) cs
        rw [hrest] at hhead
        simpa using hhead
      refine .inl ⟨?_, ?_⟩
      · rw [String.toList_ofList]
        intro hmem
        simpa using List.mem_takeWhile_imp hmem
      · rw [String.toList_ofList, String.toList_ofList, hraw, hq]
    · cases h
  · split at h
    · rename_i text written rest hstring
      cases h
      refine .inr ⟨written, rest, ?_, ?_⟩
      · rw [String.toList_ofList, hquote]
      · rw [String.toList_ofList, scanString_append hstring]
        exact hstring
    all_goals cases h
  · cases h
    refine ofWord_isLexical (isName_iff.mpr ⟨c, _, String.toList_ofList, hname, ?_⟩)
    exact fun d hd => List.mem_takeWhile_imp hd

/-- What is scanned belongs to the grammar of tokens. -/
theorem scanToken_isLexical {s : List Char} {r : Scanned TokenKind} (h : scanToken s = .ok r) :
    r.value.IsLexical := by
  unfold scanToken at h
  split at h
  · cases h
  · split at h
    · cases h
      trivial
    · split at h
      · rename_i hmark
        cases h
        exact markToken_isLexical hmark
      · split at h
        · rename_i hnumber
          cases h
          exact ⟨_, _, by rw [String.toList_ofList]; exact hnumber⟩
        · exact scanWord_isLexical h

/-! ### Tokens are found again -/

section Again

variable {s : List Char}

/-- A numeral begins with a digit or a point. -/
lemma scanMagnitude_eq_none {c : Char} {cs : List Char} (hdigit : Decimal.isDigit c = false)
    (hdot : c ≠ '.') : scanMagnitude? (c :: cs) = none := by
  have hzero : c ≠ '0' := by
    rintro rfl
    contradiction
  have hhex : scanHex? (c :: cs) = none := by
    unfold scanHex?
    split
    · rename_i heq
      cases heq
      contradiction
    · rfl
  have hdigits : takeDigits (c :: cs) = ([], c :: cs) := by
    simp only [takeDigits, List.takeWhile_cons_of_neg (Bool.eq_false_iff.mp hdigit),
      List.dropWhile_cons_of_neg (Bool.eq_false_iff.mp hdigit)]
  have hfraction : takeFraction (c :: cs) = ([], c :: cs) :=
    takeFraction_of_avoids (.cons (by simpa using hdot))
  simp only [scanMagnitude?, hhex, scanDecimal?, hdigits, hfraction]
  rfl

lemma scanNumber_eq_none {c : Char} {cs : List Char} (hsign : isSign c = false)
    (hdigit : Decimal.isDigit c = false) (hdot : c ≠ '.') : scanNumber? (c :: cs) = none := by
  simp only [scanNumber?, takeSign_of_avoids (.cons hsign), scanMagnitude_eq_none hdigit hdot]

/-- A point without digits behind it is no numeral. -/
lemma scanNumber_dot_eq_none (h : Avoids Decimal.isDigit s) : scanNumber? ('.' :: s) = none := by
  have hdigits : takeDigits s = ([], s) := by
    have htake := takeWhile_append (l := []) (by simp) h
    have hdrop := dropWhile_append (l := []) (by simp) h
    exact Prod.ext htake hdrop
  have hdot : takeDigits ('.' :: s) = ([], '.' :: s) := rfl
  simp only [scanNumber?, takeSign_of_avoids (.cons (show isSign '.' = false by decide)),
    scanMagnitude?, scanHex?, scanDecimal?, hdot, takeFraction_dot, hdigits]
  rfl

/-- The character begins neither a mark nor a declaration. -/
def isUnmarked (c : Char) : Bool := c ≠ ':' && (markToken? c).isNone

/-- Before a character that begins no mark, a token is a numeral or a word. -/
lemma scanToken_of_unmarked {c : Char} (h : isUnmarked c = true) (cs : List Char) :
    scanToken (c :: cs) =
      match scanNumber? (c :: cs) with
      | some (text, rest) => .ok ⟨.number (String.ofList text), text, rest⟩
      | none              => scanWord c cs := by
  simp only [isUnmarked, Bool.and_eq_true, decide_eq_true_eq, Option.isNone_iff_eq_none] at h
  obtain ⟨hcolon, hmark⟩ := h
  rw [scanToken]
  · split
    · rename_i hkind
      rw [hmark] at hkind
      cases hkind
    · rfl
  · exact fun _ hc _ => hcolon hc

lemma isUnmarked_of {p : Char → Bool} (hp : [':', '|', '=', ',', '(', ')'].any p = false) {c : Char}
    (hc : p c = true) : isUnmarked c = true := by
  have hne : ∀ d ∈ [':', '|', '=', ',', '(', ')'], c ≠ d := by
    rintro d hd rfl
    exact List.any_eq_false.mp hp c hd hc
  simp only [List.forall_mem_cons] at hne
  obtain ⟨hcolon, hbar, hassign, hcomma, hleft, hright, -⟩ := hne
  simp [isUnmarked, markToken?, hcolon, hbar, hassign, hcomma, hleft, hright]

lemma not_isSign_of_isNameStart {c : Char} (h : isNameStart c = true) : isSign c = false := by
  have hplus : c ≠ '+' := ne_of_class h (by decide)
  have hminus : c ≠ '-' := ne_of_class h (by decide)
  simp [isSign, hplus, hminus]

/-- A word is found again before something that is no part of a name. -/
lemma scanToken_name {w : String} (hw : isName w = true) (hs : Avoids isNameChar s) :
    scanToken (w.toList ++ s) = .ok ⟨.ofWord w, w.toList, s⟩ := by
  obtain ⟨c, cs, hcs, hc, hall⟩ := isName_iff.mp hw
  have hdot : c ≠ '.' := ne_of_class hc (by decide)
  have hvar : c ≠ '$' := ne_of_class hc (by decide)
  have hraw : c ≠ rawQuote := ne_of_class hc (by decide)
  have hquote : c ≠ '"' := ne_of_class hc (by decide)
  have hdigit : Decimal.isDigit c = false := isNameStart_avoids hc cs c rfl
  rw [hcs, List.cons_append, scanToken_of_unmarked (isUnmarked_of (by decide) hc),
    scanNumber_eq_none (not_isSign_of_isNameStart hc) hdigit hdot]
  simp only [scanWord, hdot, hvar, hraw, hquote, if_false, hc, if_true,
    takeWhile_append hall hs, dropWhile_append hall hs, ← hcs, String.ofList_toList]

lemma ofWord_word (k : Keyword) : TokenKind.ofWord k.word = .keyword k := by
  cases k <;> decide

/-- Field names are found again in front of what a name cannot run into. -/
lemma scanToken_field {names : List String} (hne : names ≠ [])
    (hnames : ∀ n ∈ names, isName n = true) (hs : runsOn s = false) :
    scanToken ((TokenKind.field names).print.toList ++ s) =
      .ok ⟨.field names, (TokenKind.field names).print.toList, s⟩ := by
  have hagain := scanFields_again hnames hs
  obtain ⟨n, ns, rfl⟩ := List.exists_cons_of_ne_nil hne
  obtain ⟨c, cs, hn, hc, -⟩ := isName_iff.mp (hnames n List.mem_cons_self)
  have hprint : ∃ cs', (TokenKind.field (n :: ns)).print.toList = '.' :: c :: cs' := by
    refine ⟨cs ++ (String.join (ns.map ("." ++ ·))).toList, ?_⟩
    simp [TokenKind.print, hn]
  obtain ⟨cs', hcs'⟩ := hprint
  rw [show (String.join ((n :: ns).map ("." ++ ·))).toList = '.' :: c :: cs' from hcs',
    List.cons_append, List.cons_append] at hagain
  rw [hcs', List.cons_append, List.cons_append, scanToken_of_unmarked (by decide),
    scanNumber_dot_eq_none (isNameStart_avoids hc _)]
  simp only [scanWord, if_true, hagain, List.isEmpty_cons, Bool.false_eq_true, if_false]

/-- A variable with its fields is found again in front of what a name cannot run into. -/
lemma scanToken_var {name : String} {fields : List String} {cs : List Char}
    (hname : name.toList = '$' :: cs) (hcs : ∀ c ∈ cs, isNameChar c = true)
    (hfields : ∀ n ∈ fields, isName n = true) (hs : runsOn s = false) :
    scanToken ((TokenKind.var name fields).print.toList ++ s) =
      .ok ⟨.var name fields, (TokenKind.var name fields).print.toList, s⟩ := by
  have havoids : Avoids isNameChar ((String.join (fields.map ("." ++ ·))).toList ++ s) := by
    cases fields with
    | nil => simpa using avoids_of_runsOn hs
    | cons m ms =>
      simp only [List.map_cons, String.join_cons, String.toList_append]
      exact .cons (by decide)
  have hof : String.ofList ('$' :: cs) = name := by rw [← hname, String.ofList_toList]
  simp only [TokenKind.print, String.toList_append, hname, List.cons_append, List.append_assoc]
  rw [scanToken_of_unmarked (by decide), scanNumber_eq_none (by decide) (by decide) (by decide)]
  simp only [scanWord, show ('$' = '.') = False by decide, if_false, if_true,
    takeWhile_append hcs havoids, dropWhile_append hcs havoids, scanFields_again hfields hs, hof,
    List.cons_append]

/-- A quoted string is found again in front of anything. -/
lemma scanToken_string {quoted text : String} (h : TokenKind.IsQuoted quoted text) :
    scanToken (quoted.toList ++ s) = .ok ⟨.string quoted text, quoted.toList, s⟩ := by
  rcases h with ⟨hraw, hquoted⟩ | ⟨written, rest, hquoted, hstring⟩
  · have hall : ∀ c ∈ text.toList, decide (c ≠ rawQuote) = true := by
      intro c hc
      rw [decide_eq_true_eq]
      rintro rfl
      exact hraw hc
    have hstop : Avoids (fun c => decide (c ≠ rawQuote)) (rawQuote :: s) := .cons (by simp)
    rw [hquoted, List.append_assoc, List.cons_append, List.cons_append, List.nil_append,
      scanToken_of_unmarked (by decide), scanNumber_eq_none (by decide) (by decide) (by decide)]
    simp only [scanWord, show (rawQuote = '.') = False by decide,
      show (rawQuote = '$') = False by decide, if_false, if_true, takeWhile_append hall hstop,
      dropWhile_append hall hstop, ← hquoted, String.ofList_toList, List.cons_append]
  · rw [hquoted, List.cons_append, scanToken_of_unmarked (by decide),
      scanNumber_eq_none (by decide) (by decide) (by decide)]
    simp only [scanWord, show ('"' = '.') = False by decide, show ('"' = '$') = False by decide,
      show ('"' = rawQuote) = False by decide, if_false, if_true, scanString_again hstring s,
      ← hquoted, String.ofList_toList]

lemma scanNumber_head {text r : List Char} (h : scanNumber? s = some (text, r)) :
    ∃ c cs, text = c :: cs ∧ isUnmarked c = true := by
  unfold scanNumber? at h
  dsimp only at h
  split at h
  · cases h
  · rename_i magnitude r' hmagnitude
    split_ifs at h
    cases h
    rcases takeSign_cases s with ⟨-, hs⟩ | ⟨c, cs, hc, -, hs⟩
    · obtain ⟨c, cs, rfl, hc⟩ := scanMagnitude_head hmagnitude
      refine ⟨c, cs, by rw [hs]; rfl, ?_⟩
      rcases hc with hc | rfl
      · exact isUnmarked_of (by decide) hc
      · decide
    · exact ⟨c, magnitude, by rw [hs]; rfl, isUnmarked_of (by decide) hc⟩

/-- A numeral is found again in front of what it cannot run into. -/
lemma scanToken_number {text : String} {r t : List Char}
    (h : scanNumber? t = some (text.toList, r)) (hs : runsOn s = false) :
    scanToken (text.toList ++ s) = .ok ⟨.number text, text.toList, s⟩ := by
  obtain ⟨c, cs, hcs, hc⟩ := scanNumber_head h
  have hagain := scanNumber_again h hs
  rw [hcs, List.cons_append] at hagain ⊢
  rw [scanToken_of_unmarked hc, hagain, ← hcs]
  simp only [String.ofList_toList]

/-- Every token that can be written is found again before something that it does not run into. -/
theorem scanToken_print_append {kind : TokenKind} (h : kind.IsLexical) (hs : kind.EndsAt s) :
    scanToken (kind.print.toList ++ s) = .ok ⟨kind, kind.print.toList, s⟩ := by
  cases kind with
  | dot =>
    have hdigit : Avoids Decimal.isDigit s :=
      (avoids_of_runsOn hs).mono fun _ => isNameChar_of_isDigit
    have hnone : scanFields ('.' :: s) = ⟨[], [], '.' :: s⟩ := by
      have hname := avoids_of_runsOn hs
      unfold scanFields
      split
      · rename_i c cs heq
        cases heq
        have hc : isNameStart c = false := by
          by_contra hstart
          have hno := hname c rfl
          rw [isNameChar_of_isNameStart (by simpa using hstart)] at hno
          contradiction
        rw [hc, if_neg Bool.false_ne_true]
      · rfl
    show scanToken ('.' :: s) = _
    rw [scanToken_of_unmarked (by decide), scanNumber_dot_eq_none hdigit]
    simp only [scanWord, if_true, hnone, List.isEmpty_nil]
    rfl
  | field names => exact scanToken_field h.1 h.2 hs
  | var name fields =>
    obtain ⟨⟨cs, hname, hcs⟩, hfields⟩ := h
    exact scanToken_var hname hcs hfields hs
  | identifier name =>
    have hword := scanToken_name h.1 hs
    rw [h.2] at hword
    exact hword
  | keyword k =>
    have hword := scanToken_name (w := k.word) (by cases k <;> decide) hs
    rw [ofWord_word] at hword
    exact hword
  | bool b =>
    cases b with
    | false =>
      have hword := scanToken_name (w := "false") (by decide) hs
      exact hword
    | true =>
      have hword := scanToken_name (w := "true") (by decide) hs
      exact hword
  | nil =>
    have hword := scanToken_name (w := "nil") (by decide) hs
    exact hword
  | number text =>
    obtain ⟨t, r, hnumber⟩ := h
    exact scanToken_number hnumber hs
  | string quoted text => exact scanToken_string h
  | declare | bar | assign | comma | leftParen | rightParen => rfl

end Again

/-! ### The beginning of a token -/

/-- Characters that begin no token: blanks, and those that begin a right delimiter or a comment. -/
def unread : List Char := [' ', '\t', '\r', '\n', '\x7d', '/']

lemma not_isSpace_of_not_mem_unread {c : Char} (h : c ∉ unread) : Text.isSpace c = false := by
  simp only [unread, List.mem_cons, not_or] at h
  simp [Text.isSpace, h]

/-- There are characters that no token begins with. -/
lemma scanToken_unread {c : Char} (hc : c ∈ unread) (cs : List Char) (r : Scanned TokenKind) :
    scanToken (c :: cs) ≠ .ok r := by
  have hclass : ∀ c ∈ unread, isUnmarked c = true ∧ isSign c = false ∧
      Decimal.isDigit c = false ∧ c ≠ '.' ∧ c ≠ '$' ∧ c ≠ rawQuote ∧ c ≠ '"' ∧
      isNameStart c = false := by
    simp only [unread, List.forall_mem_cons, List.not_mem_nil, false_implies, implies_true]
    decide
  obtain ⟨hmark, hsign, hdigit, hdot, hvar, hraw, hquote, hname⟩ := hclass c hc
  have hno : (Decimal.isDigit c || decide (c = '+') || decide (c = '-')) = false := by
    rw [hdigit, Bool.false_or]
    exact hsign
  rw [scanToken_of_unmarked hmark, scanNumber_eq_none hsign hdigit hdot]
  simp only [scanWord, hdot, hvar, hraw, hquote, hname, hno, if_false, Bool.false_eq_true, ne_eq,
    reduceCtorEq, not_false_eq_true]

/-- The text can begin a token, and no trim marker, right delimiter or comment. -/
def BeginsToken : List Char → Prop
  | []          => False
  | [c]         => c ∉ unread ∧ c ≠ '-'
  | c :: d :: _ => c ∉ unread ∧ (c = '-' → d ∉ unread)

/-- A text that begins a token does so in front of any other text. -/
lemma BeginsToken.append {s : List Char} (h : BeginsToken s) (t : List Char) :
    BeginsToken (s ++ t) := by
  match s, t with
  | [c], []       => exact h
  | [c], d :: t   => exact ⟨h.1, fun hc => absurd hc h.2⟩
  | c :: d :: s, t => exact h

/-- A dash that is scanned is the sign of a numeral. -/
lemma scanToken_dash {cs : List Char} {r : Scanned TokenKind} (h : scanToken ('-' :: cs) = .ok r) :
    ∃ d ds, cs = d :: ds ∧ d ∉ unread := by
  rw [scanToken_of_unmarked (by decide)] at h
  cases hnumber : scanNumber? ('-' :: cs) with
  | none =>
    rw [hnumber] at h
    cases h
  | some r =>
    unfold scanNumber? at hnumber
    rw [takeSign_cons (by decide)] at hnumber
    cases cs with
    | nil => cases hnumber
    | cons d ds =>
      refine ⟨d, ds, rfl, fun hd => ?_⟩
      have hclass : ∀ c ∈ unread, Decimal.isDigit c = false ∧ c ≠ '.' := by
        simp only [unread, List.forall_mem_cons, List.not_mem_nil, false_implies, implies_true]
        decide
      obtain ⟨hdigit, hdot⟩ := hclass d hd
      simp only [scanMagnitude_eq_none hdigit hdot] at hnumber
      cases hnumber

lemma TokenKind.endsAt_nil (kind : TokenKind) : kind.EndsAt [] := by
  cases kind <;> first | trivial | exact rfl | exact .nil

/-- What is printed of a token begins a token. -/
theorem TokenKind.IsLexical.beginsToken {kind : TokenKind} (h : kind.IsLexical) :
    BeginsToken kind.print.toList := by
  have hscan := scanToken_print_append h kind.endsAt_nil
  rw [List.append_nil] at hscan
  cases hprint : kind.print.toList with
  | nil =>
    rw [hprint] at hscan
    cases hscan
  | cons c cs =>
    rw [hprint] at hscan
    have hc : c ∉ unread := fun hc => scanToken_unread hc cs _ hscan
    by_cases hdash : c = '-'
    · subst hdash
      obtain ⟨d, ds, rfl, hd⟩ := scanToken_dash hscan
      exact ⟨hc, fun _ => hd⟩
    · cases cs with
      | nil => exact ⟨hc, hdash⟩
      | cons d ds => exact ⟨hc, fun h => absurd h hdash⟩

end SafeQuery
