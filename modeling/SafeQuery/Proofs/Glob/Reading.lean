import Mathlib.Data.List.TakeWhile
import Mathlib.Tactic.Common
import SafeQuery.Glob.Pattern
import SafeQuery.Proofs.File.Path

/-!
# Reading patterns

`Reads` gives the texts of a pattern by the pieces that they consist of, and `readFrom_eq_ok_iff`
says that it is what the reader accepts. The pattern of a path is read segment by segment, where
the patterns of the segments make it up (`ofText_of_segments`). An escaped text is read as the
pattern that matches this text alone (`reads_escape`).
-/

namespace SafeQuery.Glob

/-- The text is read as the pattern. With `inside` a character of the same segment stands before
it. -/
inductive Reads : (inside : Bool) → List Char → Pattern → Prop
  | nil (b : Bool) : Reads b [] []
  | any {b : Bool} {cs : List Char} {p : Pattern} (h : Reads true cs p) :
    Reads b ('?' :: cs) (.any :: p)
  | lastDeep : Reads false ['*', '*'] [.deep]
  | deep {cs : List Char} {p : Pattern} (h : Reads false cs p) :
    Reads false ('*' :: '*' :: '/' :: cs) (.deep :: p)
  | star {b : Bool} {cs : List Char} {p : Pattern} (hcs : cs.head? ≠ some '*')
    (h : Reads true cs p) : Reads b ('*' :: cs) (.star :: p)
  | ofClass {b : Bool} {cs rest : List Char} {w : Wildcard} {p : Pattern}
    (hw : readClass? cs = some (w, rest)) (h : Reads true rest p) : Reads b ('[' :: cs) (w :: p)
  | char {b : Bool} {c : Char} {cs : List Char} {p : Pattern} (hc : c ∉ ['?', '*', '['])
    (h : Reads (c ≠ '/') cs p) : Reads b (c :: cs) (.char c :: p)

/-- The reader finds what the grammar of patterns says. -/
lemma readFrom_of_reads {b : Bool} {s : List Char} {p : Pattern} (h : Reads b s p) :
    ∀ position before, Option.any (· ≠ '/') before = b → readFrom position before s = .ok p := by
  induction h with
  | nil b =>
    intro position before hb
    rw [readFrom]
  | any h ih =>
    intro position before hb
    rw [readFrom, ih _ _ rfl]
    rfl
  | lastDeep =>
    intro position before hb
    rw [readFrom.eq_4 _ _ _ (by simp), if_neg (by rw [hb]; exact Bool.false_ne_true)]
    split
    · rename_i hnone
      cases hnone
    · rename_i hsome
      cases hsome
      rw [readFrom]
      rfl
  | deep h ih =>
    intro position before hb
    rw [readFrom.eq_4 _ _ _ (by simp), if_neg (by rw [hb]; exact Bool.false_ne_true)]
    split
    · rename_i hnone
      cases hnone
    · rename_i hsome
      cases hsome
      rw [ih _ _ (by simp)]
      rfl
  | star hcs h ih =>
    intro position before hb
    rw [readFrom.eq_5, ih _ _ rfl]
    · rfl
    · rintro cs rfl
      exact hcs rfl
    · rintro cs rfl
      exact hcs rfl
  | ofClass hw h ih =>
    intro position before hb
    rw [readFrom.eq_6]
    split
    · rename_i hnone
      rw [hw] at hnone
      contradiction
    · rename_i hsome
      rw [hw] at hsome
      cases hsome
      rw [ih _ _ rfl]
      rfl
  | char hc h ih =>
    intro position before hb
    simp only [List.mem_cons, List.not_mem_nil, or_false, not_or] at hc
    rw [readFrom.eq_7 _ _ _ _ hc.1 (fun _ hs => absurd hs hc.2.1) (fun _ hs => absurd hs hc.2.1)
      hc.2.1 hc.2.2, ih _ _ rfl]
    rfl

lemma bind_cons_eq_ok {ε : Type} {r : Except ε Pattern} {w : Wildcard} {p : Pattern}
    (h : (do return w :: (← r)) = Except.ok p) : ∃ q, r = .ok q ∧ p = w :: q := by
  cases r with
  | error e => cases h
  | ok q => cases h; exact ⟨q, rfl, rfl⟩

lemma afterDeep_eq_some {cs rest : List Char} (h : afterDeep? cs = some rest) :
    cs = [] ∧ rest = [] ∨ cs = '/' :: rest := by
  unfold afterDeep? at h
  split at h
  · cases h
    exact .inl ⟨rfl, rfl⟩
  · cases h
    exact .inr rfl
  · cases h

/-- What the reader finds is said by the grammar of patterns. -/
lemma reads_of_readFrom (position : Nat) (before : Option Char) (s : List Char) :
    ∀ p, readFrom position before s = .ok p → Reads (Option.any (· ≠ '/') before) s p := by
  induction position, before, s using readFrom.induct with
  | case1 position before =>
    intro p h
    rw [readFrom] at h
    cases h
    exact .nil _
  | case2 position before cs ih =>
    intro p h
    rw [readFrom] at h
    obtain ⟨q, hq, rfl⟩ := bind_cons_eq_ok h
    exact .any (ih q hq)
  | case3 position before cs =>
    intro p h
    rw [readFrom] at h
    cases h
  | case4 position before cs hcs hbefore =>
    intro p h
    rw [readFrom.eq_4 _ _ _ hcs, if_pos hbefore] at h
    cases h
  | case5 position before cs hcs hbefore hafter =>
    intro p h
    rw [readFrom.eq_4 _ _ _ hcs, if_neg hbefore] at h
    split at h
    · cases h
    · simp_all
  | case6 position before cs hcs hbefore rest hafter ih =>
    intro p h
    rw [readFrom.eq_4 _ _ _ hcs, if_neg hbefore] at h
    split at h
    · cases h
    · rename_i rest' hafter'
      rw [hafter] at hafter'
      cases hafter'
      obtain ⟨q, hq, rfl⟩ := bind_cons_eq_ok h
      rw [Bool.not_eq_true] at hbefore
      rw [hbefore]
      rcases afterDeep_eq_some hafter with ⟨rfl, rfl⟩ | rfl
      · rw [readFrom] at hq
        cases hq
        exact .lastDeep
      · exact .deep (ih q hq)
  | case7 position before cs hcs hcs' ih =>
    intro p h
    rw [readFrom.eq_5 _ _ _ hcs hcs'] at h
    obtain ⟨q, hq, rfl⟩ := bind_cons_eq_ok h
    refine .star ?_ (ih q hq)
    intro hhead
    obtain ⟨tail, rfl⟩ := List.head?_eq_some_iff.mp hhead
    exact hcs' tail rfl
  | case8 position before cs hnone =>
    intro p h
    rw [readFrom.eq_6] at h
    split at h
    · cases h
    · simp_all
  | case9 position before cs w rest hsome ih =>
    intro p h
    rw [readFrom.eq_6] at h
    split at h
    · cases h
    · rename_i hsome'
      rw [hsome] at hsome'
      cases hsome'
      obtain ⟨q, hq, rfl⟩ := bind_cons_eq_ok h
      exact .ofClass hsome (ih q hq)
  | case10 position before c cs hany htwo hone hstar hclass ih =>
    intro p h
    rw [readFrom.eq_7 _ _ _ _ hany htwo hone hstar hclass] at h
    obtain ⟨q, hq, rfl⟩ := bind_cons_eq_ok h
    refine .char ?_ (ih q hq)
    simp only [List.mem_cons, List.not_mem_nil, or_false, not_or]
    exact ⟨hany, hstar, hclass⟩

/-- What is read does not depend on the number of characters before it. -/
theorem readFrom_eq_ok_iff {position : Nat} {before : Option Char} {s : List Char} {p : Pattern} :
    readFrom position before s = .ok p ↔ Reads (before.any (· ≠ '/')) s p :=
  ⟨reads_of_readFrom position before s p, fun h => readFrom_of_reads h position before rfl⟩

/-! ### Segments -/

/-- A pattern within one segment. -/
def Pattern.IsLocal (p : Pattern) : Prop := .deep ∉ p ∧ .char '/' ∉ p

/-- A pattern with another one behind a slash, which belongs to a wildcard for segments. -/
def Pattern.followedBy (p q : Pattern) : Pattern :=
  if p = [.deep] then .deep :: q else p ++ .char '/' :: q

namespace Pattern.IsLocal

variable {w : Wildcard} {p : Pattern}

lemma nil : IsLocal [] := ⟨List.not_mem_nil, List.not_mem_nil⟩

lemma cons (hdeep : w ≠ .deep) (hslash : w ≠ .char '/') (hp : p.IsLocal) : IsLocal (w :: p) := by
  refine ⟨?_, ?_⟩
  · rw [List.mem_cons, not_or]
    exact ⟨hdeep.symm, hp.1⟩
  · rw [List.mem_cons, not_or]
    exact ⟨hslash.symm, hp.2⟩

lemma of_cons (h : IsLocal (w :: p)) : w ≠ .deep ∧ w ≠ .char '/' ∧ p.IsLocal := by
  obtain ⟨hdeep, hslash⟩ := h
  rw [List.mem_cons, not_or] at hdeep hslash
  exact ⟨Ne.symm hdeep.1, Ne.symm hslash.1, hdeep.2, hslash.2⟩

lemma ne_deep (h : p.IsLocal) : p ≠ [.deep] := by
  rintro rfl
  exact h.1 List.mem_cons_self

lemma followedBy (h : p.IsLocal) (q : Pattern) : p.followedBy q = p ++ .char '/' :: q :=
  if_neg h.ne_deep

lemma cons_followedBy (hw : w ≠ .deep) (h : p.IsLocal) (q : Pattern) :
    Pattern.followedBy (w :: p) q = w :: p.followedBy q := by
  have hne : w :: p ≠ [.deep] := fun heq => hw (List.cons.inj heq).1
  rw [h.followedBy, Pattern.followedBy, if_neg hne, List.cons_append]

end Pattern.IsLocal

/-- The text of a class has one character at least and goes to the next bracket. -/
lemma classText_eq_some_iff {cs text rest : List Char} :
    classText? cs = some (text, rest) ↔
      ∃ c mid, ']' ∉ mid ∧ text = c :: mid ∧ cs = c :: (mid ++ ']' :: rest) := by
  constructor
  · intro h
    cases cs with
    | nil => cases h
    | cons c cs =>
      rw [classText?] at h
      split at h
      · cases h
      · rename_i d rest' hdrop
        cases h
        have hd : d = ']' := by
          have := List.head?_dropWhile_not (· ≠ ']') cs
          rw [hdrop] at this
          simpa using this
        subst hd
        refine ⟨c, cs.takeWhile (· ≠ ']'), ?_, rfl, ?_⟩
        · intro hmem
          simpa using List.mem_takeWhile_imp hmem
        · rw [← hdrop, List.takeWhile_append_dropWhile]
  · rintro ⟨c, mid, hmid, rfl, rfl⟩
    have hne : ∀ d ∈ mid, decide (d ≠ ']') = true := by
      intro d hd
      rw [decide_eq_true_eq]
      rintro rfl
      exact hmid hd
    rw [classText?, List.dropWhile_append_of_pos hne, List.takeWhile_append_of_pos hne,
      List.dropWhile_cons_of_neg (by simp), List.takeWhile_cons_of_neg (by simp), List.append_nil]

/-- A class matches one character of a segment, and what follows it makes no difference to it. -/
lemma readClass_eq_some {cs rest : List Char} {w : Wildcard} (h : readClass? cs = some (w, rest)) :
    rest <:+ cs ∧ w ≠ .deep ∧ (∀ c, w ≠ .char c) ∧
      ∀ t, readClass? (cs ++ t) = some (w, rest ++ t) := by
  unfold readClass? at h
  split at h
  · obtain ⟨⟨text, rest'⟩, htext, heq⟩ := Option.map_eq_some_iff.mp h
    cases heq
    obtain ⟨c, mid, hmid, rfl, rfl⟩ := classText_eq_some_iff.mp htext
    refine ⟨⟨'!' :: c :: (mid ++ [']']), by simp⟩, nofun, nofun, ?_⟩
    intro t
    have htext' : classText? (c :: (mid ++ ']' :: (rest' ++ t))) = some (c :: mid, rest' ++ t) :=
      classText_eq_some_iff.mpr ⟨c, mid, hmid, rfl, rfl⟩
    simp only [List.cons_append, List.append_assoc, readClass?, htext', Option.map_some]
  · rename_i hne
    obtain ⟨⟨text, rest'⟩, htext, heq⟩ := Option.map_eq_some_iff.mp h
    cases heq
    obtain ⟨c, mid, hmid, rfl, rfl⟩ := classText_eq_some_iff.mp htext
    refine ⟨⟨c :: (mid ++ [']']), by simp⟩, nofun, nofun, ?_⟩
    intro t
    have htext' : classText? (c :: (mid ++ ']' :: (rest' ++ t))) = some (c :: mid, rest' ++ t) :=
      classText_eq_some_iff.mpr ⟨c, mid, hmid, rfl, rfl⟩
    rw [List.cons_append, List.append_assoc, List.cons_append, readClass?.eq_2 _ ?_, htext']
    · rfl
    · intro cs heq
      cases heq
      exact hne _ rfl

/-- A segment is read as a pattern within it or as a wildcard for segments. -/
lemma Reads.isLocal {b : Bool} {s : List Char} {p : Pattern} (h : Reads b s p) (hs : '/' ∉ s) :
    p.IsLocal ∨ b = false ∧ p = [.deep] := by
  induction h with
  | nil b => exact .inl .nil
  | any h ih =>
    rw [List.mem_cons, not_or] at hs
    exact .inl (.cons nofun nofun ((ih hs.2).resolve_right nofun))
  | lastDeep => exact .inr ⟨rfl, rfl⟩
  | deep h ih => simp at hs
  | star hcs h ih =>
    rw [List.mem_cons, not_or] at hs
    exact .inl (.cons nofun nofun ((ih hs.2).resolve_right nofun))
  | ofClass hw h ih =>
    obtain ⟨hsuffix, hdeep, hslash, -⟩ := readClass_eq_some hw
    have hrest := fun hmem => hs (List.mem_cons_of_mem _ (hsuffix.subset hmem))
    exact .inl (.cons hdeep (hslash '/') ((ih hrest).resolve_right nofun))
  | @char b c cs p hc h ih =>
    rw [List.mem_cons, not_or] at hs
    have hslash : Wildcard.char c ≠ .char '/' := fun heq => hs.1 (Wildcard.char.inj heq).symm
    refine .inl (.cons nofun hslash ((ih hs.2).resolve_right ?_))
    rintro ⟨hfalse, -⟩
    exact hs.1 (not_ne_iff.mp (of_decide_eq_false hfalse)).symm

/-- A pattern begins with a character if the text does. -/
lemma Reads.head_eq {b : Bool} {s : List Char} {p : Pattern} {c : Char} (h : Reads b s p)
    (hp : p.head? = some (.char c)) : s.head? = some c := by
  cases h with
  | nil | any | lastDeep | deep | star => cases hp
  | ofClass hw h => exact absurd (Option.some.inj hp) ((readClass_eq_some hw).2.2.1 c)
  | char hc h =>
    cases hp
    rfl

lemma Reads.isLocal_of_inside {s : List Char} {p : Pattern} (h : Reads true s p) (hs : '/' ∉ s) :
    p.IsLocal :=
  (h.isLocal hs).resolve_right nofun

/-- Two texts with a slash between them are read one after the other. -/
lemma Reads.append {b : Bool} {s t : List Char} {p q : Pattern} (h : Reads b s p) (hs : '/' ∉ s)
    (ht : Reads false t q) : Reads b (s ++ '/' :: t) (p.followedBy q) := by
  induction h with
  | nil b => exact .char (by simp) ht
  | any h ih =>
    rw [List.mem_cons, not_or] at hs
    rw [(h.isLocal_of_inside hs.2).cons_followedBy (by simp)]
    exact .any (ih hs.2)
  | lastDeep => exact .deep ht
  | deep h ih => simp at hs
  | @star b cs p hcs h ih =>
    rw [List.mem_cons, not_or] at hs
    rw [(h.isLocal_of_inside hs.2).cons_followedBy (by simp)]
    refine .star ?_ (ih hs.2)
    cases cs with
    | nil => simp
    | cons c cs => exact hcs
  | ofClass hw h ih =>
    obtain ⟨hsuffix, hdeep, -, happend⟩ := readClass_eq_some hw
    have hrest := fun hmem => hs (List.mem_cons_of_mem _ (hsuffix.subset hmem))
    rw [(h.isLocal_of_inside hrest).cons_followedBy hdeep]
    exact .ofClass (happend _) (ih hrest)
  | @char b c cs p hc h ih =>
    rw [List.mem_cons, not_or] at hs
    have hinside : decide (c ≠ '/') = true := decide_eq_true (Ne.symm hs.1)
    rw [hinside] at h
    rw [(h.isLocal_of_inside hs.2).cons_followedBy (by simp)]
    exact .char hc (ih hs.2)

/-- The pattern of a path whose segments match patterns. -/
def uniteAll : List Pattern → Pattern
  | []           => []
  | [p]          => p
  | p :: q :: ps => p.followedBy (uniteAll (q :: ps))

lemma uniteAll_cons (p : Pattern) {ps : List Pattern} (hne : ps ≠ []) :
    uniteAll (p :: ps) = p.followedBy (uniteAll ps) := by
  obtain ⟨q, qs, rfl⟩ := List.exists_cons_of_ne_nil hne
  rfl

lemma ofText_eq_ok_iff {s : String} {p : Pattern} :
    Pattern.ofText s = .ok p ↔ Reads false s.toList p :=
  readFrom_eq_ok_iff

/-- The list of what texts are read as. -/
lemma mapM_ofText_cons {s : String} {ss : List String} {ps : List Pattern}
    (h : (s :: ss).mapM Pattern.ofText = .ok ps) :
    ∃ q qs, Pattern.ofText s = .ok q ∧ ss.mapM Pattern.ofText = .ok qs ∧ ps = q :: qs := by
  rw [List.mapM_cons] at h
  cases hq : Pattern.ofText s with
  | error e =>
    rw [hq] at h
    cases h
  | ok q =>
    cases hqs : ss.mapM Pattern.ofText with
    | error e =>
      rw [hq, hqs] at h
      cases h
    | ok qs =>
      rw [hq, hqs] at h
      cases h
      exact ⟨q, qs, rfl, rfl, rfl⟩

/-- Every pattern of the list is what one of the texts is read as. -/
lemma exists_of_mem_mapM_ofText {ss : List String} {ps : List Pattern} {p : Pattern}
    (h : ss.mapM Pattern.ofText = .ok ps) (hp : p ∈ ps) : ∃ s ∈ ss, Pattern.ofText s = .ok p := by
  induction ss generalizing ps with
  | nil =>
    cases h
    cases hp
  | cons s ss ih =>
    obtain ⟨q, qs, hq, hqs, rfl⟩ := mapM_ofText_cons h
    rcases List.mem_cons.mp hp with rfl | hp
    · exact ⟨s, List.mem_cons_self, hq⟩
    · obtain ⟨t, ht, hread⟩ := ih hqs hp
      exact ⟨t, List.mem_cons_of_mem _ ht, hread⟩

lemma mapM_ofText_ne_nil {ss : List String} {ps : List Pattern} (hne : ss ≠ [])
    (h : ss.mapM Pattern.ofText = .ok ps) : ps ≠ [] := by
  obtain ⟨s, ss, rfl⟩ := List.exists_cons_of_ne_nil hne
  obtain ⟨q, qs, -, -, rfl⟩ := mapM_ofText_cons h
  exact List.cons_ne_nil q qs

/-- Patterns of segments make the pattern of the path with slashes between them. -/
lemma reads_unite {ss : List String} {ps : List Pattern} (hne : ss ≠ [])
    (hss : ∀ s ∈ ss, '/' ∉ s.toList) (h : ss.mapM Pattern.ofText = .ok ps) :
    Reads false (Path.unite (ss.map String.toList)) (uniteAll ps) := by
  induction ss generalizing ps with
  | nil => exact absurd rfl hne
  | cons s ss ih =>
    obtain ⟨q, qs, hq, hqs, rfl⟩ := mapM_ofText_cons h
    have hs := ofText_eq_ok_iff.mp hq
    cases ss with
    | nil =>
      cases hqs
      exact hs
    | cons t ts =>
      have hne' := List.cons_ne_nil t ts
      rw [uniteAll_cons q (mapM_ofText_ne_nil hne' hqs)]
      exact hs.append (hss s List.mem_cons_self)
        (ih hne' (fun u hu => hss u (List.mem_cons_of_mem _ hu)) hqs)

/-- The patterns of segments are one behind the other the pattern of the path. -/
theorem ofText_of_segments {pattern : String} {ps : List Pattern}
    (h : (Path.segments pattern).mapM Pattern.ofText = .ok ps) :
    Pattern.ofText pattern = .ok (uniteAll ps) := by
  have hreads := reads_unite (Path.segments_ne_nil pattern)
    (fun s hs => Path.not_mem_of_mem_segments hs) h
  rw [← String.toList_ofList (l := Path.unite _), ← Path.ofSegments,
    Path.ofSegments_segments] at hreads
  exact ofText_eq_ok_iff.mpr hreads

/-! ### Texts without wildcards -/

/-- The text that stands for a character when it is escaped. -/
def escapeChar (c : Char) : List Char :=
  if c = '?' || c = '*' || c = '[' || c = ']' then ['[', c, ']'] else [c]

lemma toList_escape (s : String) : (escape s).toList = s.toList.flatMap escapeChar :=
  String.toList_ofList

lemma escapeChar_ne_nil (c : Char) : escapeChar c ≠ [] := by
  rw [escapeChar]
  split <;> exact List.cons_ne_nil _ _

lemma slash_not_mem_escapeChar {c : Char} (hc : c ≠ '/') : '/' ∉ escapeChar c := by
  rw [escapeChar]
  split
  · simp [Ne.symm hc]
  · simp [Ne.symm hc]

/-- A path is escaped segment by segment. -/
lemma split_flatMap_escapeChar (cs : List Char) :
    Path.split (cs.flatMap escapeChar) = (Path.split cs).map (·.flatMap escapeChar) := by
  induction cs with
  | nil => rfl
  | cons c cs ih =>
    obtain ⟨s, ss, hs⟩ := List.exists_cons_of_ne_nil (Path.split_ne_nil cs)
    rw [List.flatMap_cons, Path.split]
    by_cases hc : c = '/'
    · subst hc
      rw [if_pos rfl, List.map_cons, ← ih]
      exact Path.split_cons_slash _
    · have hrest := ih.trans (congrArg _ hs)
      simp only [if_neg hc, hs, List.map_cons, List.flatMap_cons]
      exact Path.split_append_of_not_mem (slash_not_mem_escapeChar hc) hrest

/-- A path is escaped segment by segment. -/
lemma segments_escape (s : String) : Path.segments (escape s) = (Path.segments s).map escape := by
  rw [Path.segments, toList_escape, split_flatMap_escapeChar, Path.segments, List.map_map,
    List.map_map]
  refine List.map_congr_left ?_
  intro cs _
  apply String.toList_injective
  simp [toList_escape]

/-- The pattern that an escaped text is read as. -/
def verbatim (s : List Char) : Pattern :=
  s.map fun c => if c ∈ ['?', '*', '[', ']'] then .within [.one c] else .char c

/-- A character with a meaning is escaped as a class of its own. -/
lemma readClass_escaped {c : Char} (hc : c ∈ ['?', '*', '[', ']']) (cs : List Char) :
    readClass? (c :: ']' :: cs) = some (.within [.one c], cs) := by
  have hne : c ≠ '!' := by
    rintro rfl
    exact absurd hc (by decide)
  have htext : classText? (c :: ']' :: cs) = some ([c], cs) :=
    classText_eq_some_iff.mpr ⟨c, [], List.not_mem_nil, rfl, rfl⟩
  rw [readClass?.eq_2 _ fun cs heq => hne (List.cons.inj heq).1, htext]
  rfl

/-- An escaped text is read as the pattern that matches nothing else. -/
lemma reads_escape (b : Bool) (s : String) : Reads b (escape s).toList (verbatim s.toList) := by
  rw [toList_escape]
  generalize s.toList = cs
  induction cs generalizing b with
  | nil => exact .nil b
  | cons c cs ih =>
    rw [List.flatMap_cons, verbatim, List.map_cons]
    by_cases hc : c ∈ ['?', '*', '[', ']']
    · have hescaped : escapeChar c = ['[', c, ']'] := by
        rw [escapeChar, if_pos]
        simpa [or_assoc] using hc
      rw [if_pos hc, hescaped]
      exact .ofClass (readClass_escaped hc _) (ih true)
    · have hescaped : escapeChar c = [c] := by
        rw [escapeChar, if_neg]
        simpa [or_assoc] using hc
      have hplain : c ∉ ['?', '*', '['] := by
        simp only [List.mem_cons, List.not_mem_nil, or_false, not_or] at hc ⊢
        exact ⟨hc.1, hc.2.1, hc.2.2.1⟩
      rw [if_neg hc, hescaped]
      exact .char hplain (ih _)

end SafeQuery.Glob
