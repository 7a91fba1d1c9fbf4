import SafeQuery.Proofs.Format.Quoting

/-!
# The values of a format

Every directive of a format that shows a value takes one, from the first value on: `sprintf_append`
says that a format and its values can be cut at the same place, and that the values that no
directive takes stand in the note at the end, one after the other, and nowhere else.
-/

namespace SafeQuery

section Directives

variable {cs cs' : List Char} {precision : Option Nat} {v : Char}

lemma directives_nil : directives [] = [] := by rw [directives]

/-- Behind a percent sign and a precision there has to be a verb. -/
lemma directives_cut (h : readPrecision cs = (precision, [])) :
    directives ('%' :: cs) = [.cut] := by
  rw [directives]
  split
  · rfl
  · rename_i heq
    rw [h] at heq
    cases heq

/-- A percent sign with a verb is one directive. -/
lemma directives_verb (h : readPrecision cs = (precision, v :: cs')) :
    directives ('%' :: cs) =
      (if v = '%' then .text '%' else .fill precision v) :: directives cs' := by
  rw [directives]
  split
  · rename_i heq
    rw [h] at heq
    cases heq
  · rename_i heq
    rw [h] at heq
    cases heq
    rfl

lemma directives_text {c : Char} (h : c ≠ '%') :
    directives (c :: cs) = .text c :: directives cs := by
  rw [directives]
  exact h

/-- A precision ends in front of the verb. -/
lemma readPrecision_append (h : readPrecision cs = (precision, v :: cs')) (rest : List Char) :
    readPrecision (cs ++ rest) = (precision, v :: (cs' ++ rest)) := by
  unfold readPrecision at h
  split at h
  · rename_i ds
    obtain ⟨hprecision, hds⟩ := Prod.mk.inj h
    have hdigits : ∀ c ∈ ds.takeWhile Decimal.isDigit, Decimal.isDigit c = true :=
      fun c hc => List.mem_takeWhile_imp hc
    have hverb : Avoids Decimal.isDigit (v :: (cs' ++ rest)) := by
      intro c hc
      cases hc
      have hhead := List.head?_dropWhile_not Decimal.isDigit ds
      rw [hds] at hhead
      simpa using hhead
    have hparts : ds ++ rest = ds.takeWhile Decimal.isDigit ++ (v :: (cs' ++ rest)) := by
      rw [← List.cons_append, ← hds, ← List.append_assoc, List.takeWhile_append_dropWhile]
    rw [List.cons_append, readPrecision, hparts, takeWhile_append hdigits hverb,
      dropWhile_append hdigits hverb, hprecision]
  · rename_i hdot
    obtain ⟨rfl, rfl⟩ := Prod.mk.inj h
    rw [List.cons_append]
    unfold readPrecision
    split
    · rename_i heq
      cases heq
      exact absurd rfl (hdot _)
    · rfl

/-- The directives of a format do not depend on what follows, if it does not end inside one. -/
lemma directives_append {cs : List Char} (h : .cut ∉ directives cs) (rest : List Char) :
    directives (cs ++ rest) = directives cs ++ directives rest := by
  induction cs using directives.induct with
  | case1 => rw [directives_nil, List.nil_append, List.nil_append]
  | case2 cs p hp =>
    rw [directives_cut hp] at h
    exact absurd List.mem_cons_self h
  | case3 cs p v cs' hp ih =>
    rw [directives_verb hp, List.mem_cons, not_or] at h
    rw [List.cons_append, directives_verb (readPrecision_append hp rest), directives_verb hp,
      ih h.2, List.cons_append]
  | case4 c cs hc ih =>
    rw [directives_text hc, List.mem_cons, not_or] at h
    rw [List.cons_append, directives_text hc, directives_text hc, ih h.2, List.cons_append]

end Directives

def Directive.takesValue : Directive → Bool
  | fill _ _ => true
  | _        => false

/-- The format ends inside a directive. -/
def EndsInside (format : String) : Prop := .cut ∈ directives format.toList

instance (format : String) : Decidable (EndsInside format) :=
  inferInstanceAs (Decidable (_ ∈ _))

def valuesTaken (format : String) : Nat := (directives format.toList).countP (·.takesValue)

lemma follow_text (c : Char) (ds : List Directive) (vs : List Value) :
    follow (.text c :: ds) vs = c :: follow ds vs := rfl

lemma follow_cut (ds : List Directive) (vs : List Value) :
    follow (.cut :: ds) vs = "%!(NOVERB)".toList ++ follow ds vs := rfl

/-- Directives take their values from the front, and leave the others to the directives behind. -/
lemma follow_append {ds : List Directive} {vs : List Value}
    (h : ds.countP (·.takesValue) = vs.length) (ds' : List Directive) (ws : List Value) :
    follow (ds ++ ds') (vs ++ ws) = follow ds vs ++ follow ds' ws := by
  induction ds generalizing vs with
  | nil =>
    obtain rfl : vs = [] := List.length_eq_zero_iff.mp h.symm
    simp [follow_nil, extraNote]
  | cons d ds ih =>
    cases d with
    | text c =>
      have hds : ds.countP (·.takesValue) = vs.length := by simpa [Directive.takesValue] using h
      rw [List.cons_append, follow_text, follow_text, ih hds, List.cons_append]
    | cut =>
      have hds : ds.countP (·.takesValue) = vs.length := by simpa [Directive.takesValue] using h
      rw [List.cons_append, follow_cut, follow_cut, ih hds, List.append_assoc]
    | fill precision verb =>
      cases vs with
      | nil => simp [Directive.takesValue] at h
      | cons v vs =>
        have hds : ds.countP (·.takesValue) = vs.length := by simpa [Directive.takesValue] using h
        rw [List.cons_append, List.cons_append, follow_fill, follow_fill, ih hds,
          List.append_assoc]

/-- The text with every percent sign written twice. -/
def percentsDoubled (s : String) : String :=
  String.ofList (s.toList.flatMap fun c => if c = '%' then ['%', '%'] else [c])

lemma directives_doubled (cs : List Char) :
    directives (cs.flatMap fun c => if c = '%' then ['%', '%'] else [c]) = cs.map .text := by
  induction cs with
  | nil => exact directives_nil
  | cons c cs ih =>
    rw [List.flatMap_cons, List.map_cons]
    by_cases hc : c = '%'
    · subst hc
      have hplain : ∀ ds, readPrecision ('%' :: ds) = (none, '%' :: ds) := fun _ => rfl
      rw [if_pos rfl, List.cons_append, List.cons_append, List.nil_append,
        directives_verb (hplain _), if_pos rfl, ih]
    · rw [if_neg hc, List.cons_append, List.nil_append, directives_text hc, ih]

lemma follow_texts (cs : List Char) : follow (cs.map .text) [] = cs := by
  induction cs with
  | nil => simp [follow_nil, extraNote]
  | cons c cs ih => rw [List.map_cons, follow_text, ih]

/-- A format shows every value once and in order. If a format does not end inside a directive and
takes as many values as there are in front, it can be cut there: the rest of the format shows the
rest of the values. Percent signs that are written twice stand for themselves. The values that are
left over are in the note at the end, each with its kind, one after the other, and the rest of the
text does not depend on them. -/
theorem sprintf_append :
    (∀ (f g : String) (vs ws : List Value), ¬EndsInside f → valuesTaken f = vs.length →
      sprintf (f ++ g) (vs ++ ws) = sprintf f vs ++ sprintf g ws) ∧
    (∀ s : String, sprintf (percentsDoubled s) [] = s) ∧
    ∀ (f : String) (vs ws : List Value), valuesTaken f = vs.length → ws ≠ [] →
      sprintf f (vs ++ ws) = sprintf f vs ++
        ("%!(EXTRA " ++ ", ".intercalate (ws.map fun v => v.kind ++ "=" ++ v.display) ++ ")") := by
  refine ⟨?_, ?_, ?_⟩
  · intro f g vs ws hends htaken
    rw [sprintf, String.toList_append, directives_append hends, follow_append htaken,
      String.ofList_append]
    rfl
  · intro s
    rw [sprintf, percentsDoubled, String.toList_ofList, directives_doubled, follow_texts,
      String.ofList_toList]
  · intro f vs ws htaken hws
    have hfollow := follow_append htaken [] ws
    rw [List.append_nil] at hfollow
    have hnote : extraNote ws = "%!(EXTRA " ++ ", ".intercalate (ws.map described) ++ ")" := by
      cases ws with
      | nil => exact absurd rfl hws
      | cons w ws => rfl
    rw [sprintf, hfollow, String.ofList_append, follow_nil, String.ofList_toList, hnote]
    rfl

/-- A precision in front of a percent sign counts for nothing, a letter that is no verb takes a
value too, and one value is left over. -/
theorem sprintf_append_of_letter :
    ¬EndsInside "%.2%|%z" ∧ valuesTaken "%.2%|%z" = [Value.null].length ∧
      sprintf ("%.2%|%z" ++ "%d") ([.null] ++ [.int 7, .bool true]) =
        "%|%!z(nil=<nil>)" ++ "7%!(EXTRA bool=true)" := by
  have hformat : directives "%.2%|%z".toList = [.text '%', .text '|', .fill none 'z'] := by cbv
  have hends : ¬EndsInside "%.2%|%z" := by
    rw [EndsInside, hformat]
    decide
  have htaken : valuesTaken "%.2%|%z" = [Value.null].length := by
    rw [valuesTaken, hformat]
    rfl
  have hfront : sprintf "%.2%|%z" [.null] = "%|%!z(nil=<nil>)" := by
    have hshown : showWith none 'z' .null = "%!z(nil=<nil>)" := by decide
    rw [sprintf, hformat, follow_text, follow_text, follow_fill, follow_nil, hshown]
    decide
  have hbehind : sprintf "%d" [.int 7, .bool true] = "7%!(EXTRA bool=true)" := by
    have hdecimal : directives "%d".toList = [.fill none 'd'] := by cbv
    have hshown : showWith none 'd' (.int 7) = "7" := by decide
    rw [sprintf, hdecimal, follow_fill, follow_nil, hshown]
    decide
  refine ⟨hends, htaken, ?_⟩
  rw [sprintf_append.1 "%.2%|%z" "%d" [.null] [.int 7, .bool true] hends htaken, hfront, hbehind]

end SafeQuery
