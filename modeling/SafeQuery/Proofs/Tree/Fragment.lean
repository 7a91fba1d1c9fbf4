import Mathlib.Data.List.Chain
import SafeQuery.Proofs.Tree.Rereading

/-!
# Pieces of printed templates

A template is printed piece by piece: texts as they are, and everything else between braces.
`Node.fragments` are these pieces. Where no piece that ends in a left brace stands directly before
one that begins with a left brace, the pieces are found again in what is printed, except that texts
that stand directly behind one another become one: `lexFrom_fragments`.
-/

namespace SafeQuery

/-- A piece of a printed template. -/
inductive Fragment where
  | text (t : String)
  | comment (t : String)
  | action (p : Pipeline)
  /-- A keyword, and the pipeline behind it if there is one. -/
  | clause (k : Keyword) (p : Option Pipeline)
  | call (name : String) (argument : Option Pipeline)

namespace Fragment

def print : Fragment → String
  | text t             => t
  | comment t          => inBraces ("/*" ++ t ++ "*/")
  | action p           => inBraces p.print
  | clause k none      => inBraces k.word
  | clause k (some p)  => inBraces (k.word ++ " " ++ p.print)
  | call name argument => callText name argument

/-- The pieces do not make a left delimiter at their boundary. -/
def Apart (f g : Fragment) : Prop :=
  ¬ (f.print.toList.getLast? = some '\x7b' ∧ g.print.toList.head? = some '\x7b')

instance (f g : Fragment) : Decidable (f.Apart g) := inferInstanceAs (Decidable (¬ (_ ∧ _)))

end Fragment

mutual

def Node.fragments : Node → List Fragment
  | .text _ t                            => [.text t]
  | .comment _ t                         => [.comment t]
  | .action _ p                          => [.action p]
  | .branch kind _ p ⟨_, body⟩ otherwise =>
    .clause kind.keyword (some p) :: (nodesFragments body ++ elseFragments otherwise)
  | .call _ name argument                => [.call name argument]
  | .breakLoop _                         => [.clause .breakLoop none]
  | .continueLoop _                      => [.clause .continueLoop none]

def nodesFragments : List Node → List Fragment
  | []      => []
  | n :: ns => n.fragments ++ nodesFragments ns

def elseFragments : Option (BlockOf Node) → List Fragment
  | none         => [.clause .finish none]
  | some ⟨_, ns⟩ => .clause .otherwise none :: (nodesFragments ns ++ [.clause .finish none])

end

def Tree.fragments (t : Tree) : List Fragment := nodesFragments t.root.nodes

def fragmentsText (fs : List Fragment) : List Char := fs.flatMap (·.print.toList)

@[simp] lemma fragmentsText_nil : fragmentsText [] = [] := rfl

@[simp] lemma fragmentsText_cons (f : Fragment) (fs : List Fragment) :
    fragmentsText (f :: fs) = f.print.toList ++ fragmentsText fs := rfl

@[simp] lemma fragmentsText_append (fs gs : List Fragment) :
    fragmentsText (fs ++ gs) = fragmentsText fs ++ fragmentsText gs := List.flatMap_append

lemma Control.keyword_word (kind : Control) : kind.keyword.word = kind.word := by
  cases kind <;> rfl

mutual

/-- A node is printed as its pieces are. -/
lemma Node.fragmentsText_eq (n : Node) : fragmentsText n.fragments = n.print.toList := by
  match n with
  | .text _ _ | .comment _ _ | .action _ _ | .call _ _ _ | .breakLoop _ | .continueLoop _ =>
    exact List.append_nil _
  | .branch kind _ p ⟨_, body⟩ none =>
    simp only [Node.fragments, elseFragments, fragmentsText_cons, fragmentsText_append,
      nodesFragmentsText_eq body, Fragment.print, Control.keyword_word, Node.print,
      String.toList_append, fragmentsText_nil, List.append_nil, List.append_assoc]
    rfl
  | .branch kind _ p ⟨_, body⟩ (some ⟨_, otherwise⟩) =>
    simp only [Node.fragments, elseFragments, fragmentsText_cons, fragmentsText_append,
      nodesFragmentsText_eq body, nodesFragmentsText_eq otherwise, Fragment.print,
      Control.keyword_word, Node.print, String.toList_append, fragmentsText_nil, List.append_nil,
      List.append_assoc]
    rfl

/-- Nodes are printed as their pieces are. -/
lemma nodesFragmentsText_eq (ns : List Node) :
    fragmentsText (nodesFragments ns) = (printNodes ns).toList := by
  match ns with
  | []      => rfl
  | n :: ns =>
    rw [nodesFragments, fragmentsText_append, n.fragmentsText_eq, nodesFragmentsText_eq ns,
      printNodes, String.toList_append]

end

/-- The piece is one that can be found again. -/
def Fragment.IsLexical (known : String → Bool) : Fragment → Prop
  | text t            => t.toList ≠ [] ∧ ¬ ['\x7b', '\x7b'] <:+: t.toList
  | comment t         => ¬ ['*', '/'] <:+: t.toList
  | action p          => ∃ scope, p.Readable known false scope
  | clause _ none     => True
  | clause _ (some p) => ∃ ofLoop scope, p.Readable known ofLoop scope
  | call _ _          => False

def Fragment.words : Fragment → List Word
  | action p          => p.words false
  | clause k none     => [⟨.keyword k, false⟩]
  | clause k (some p) => ⟨.keyword k, false⟩ :: p.words true
  | _                 => []

/-- The item is the piece, found again. -/
inductive Fragment.Matches : Fragment → Item → Prop
  | comment (o : Nat) (t : String) : Matches (.comment t) (.comment o t)
  | action {o : Nat} {p : Pipeline} {tokens : List Token} :
      tokens.map Token.word = spaceFirst true (p.words false) →
      Matches (.action p) (.action o tokens)
  | clause {o : Nat} {k : Keyword} {p : Option Pipeline} {tokens : List Token} :
      tokens.map Token.word = spaceFirst true (Fragment.clause k p).words →
      Matches (.clause k p) (.action o tokens)

/-- The items are those of pieces behind a text that is still open. -/
inductive Lexes : List Char → List Fragment → List Item → Prop
  | nil {open₁ : List Char} (o : Nat) : Lexes open₁ [] (textItem o open₁ false false)
  | text {open₁ : List Char} {t : String} {fs : List Fragment} {items : List Item} :
      Lexes (open₁ ++ t.toList) fs items → Lexes open₁ (.text t :: fs) items
  | enclosed {open₁ : List Char} {f : Fragment} {fs : List Fragment} {item : Item}
      {items : List Item} (o : Nat) : f.Matches item → Lexes [] fs items →
      Lexes open₁ (f :: fs) (textItem o open₁ false false ++ item :: items)

/-! ### Marks -/

/-- A mark is found behind a text if it is not found before that. -/
lemma splitAt_first_mark {mark before : List Char}
    (h : ¬ mark <:+: before ++ mark.dropLast) (hmark : mark ≠ []) (after : List Char) :
    splitAt? mark (before ++ (mark ++ after)) = some (before, after) := by
  induction before with
  | nil => exact splitAt_mark mark after hmark
  | cons c cs ih =>
    rw [List.cons_append, List.infix_cons_iff, not_or] at h
    have hprefix : mark.isPrefixOf (c :: (cs ++ (mark ++ after))) = false := by
      by_contra hprefix
      rw [Bool.not_eq_false, List.isPrefixOf_iff_prefix] at hprefix
      have hwhole : c :: (cs ++ mark.dropLast) <+: c :: (cs ++ (mark ++ after)) := by
        rw [List.cons_prefix_cons, List.prefix_append_right_inj]
        exact ⟨rfl, (List.dropLast_prefix mark).trans (List.prefix_append mark after)⟩
      have hlength : mark.length ≤ (c :: (cs ++ mark.dropLast)).length := by
        simp only [List.length_cons, List.length_append, List.length_dropLast]
        omega
      exact h.1 (List.prefix_of_prefix_length_le hprefix hwhole hlength)
    rw [List.cons_append, splitAt?, hprefix, ih h.2]
    rfl

lemma splitAt_eq_none {mark s : List Char} (hmark : mark ≠ []) (h : ¬ mark <:+: s) :
    splitAt? mark s = none := by
  induction s with
  | nil => simpa [splitAt?] using hmark
  | cons c cs ih =>
    rw [List.infix_cons_iff, not_or] at h
    rw [splitAt?, if_neg (by simpa [List.isPrefixOf_iff_prefix] using h.1), ih h.2]
    rfl

/-- A mark of two equal characters is not made of two texts, except at their boundary. -/
lemma not_infix_append {a : Char} {s t : List Char} (hs : ¬ [a, a] <:+: s) (ht : ¬ [a, a] <:+: t)
    (hst : ¬ (s.getLast? = some a ∧ t.head? = some a)) : ¬ [a, a] <:+: s ++ t := by
  induction s with
  | nil => exact ht
  | cons c cs ih =>
    rw [List.infix_cons_iff, not_or] at hs
    rw [List.cons_append, List.infix_cons_iff, not_or]
    cases cs with
    | nil =>
      refine ⟨fun hprefix => hst ?_, ht⟩
      obtain ⟨rfl, rest, hrest⟩ := List.cons_prefix_cons.mp hprefix
      exact ⟨rfl, congrArg List.head? hrest.symm⟩
    | cons d ds =>
      refine ⟨fun hprefix => hs.1 ?_, ih hs.2 (by simpa using hst)⟩
      obtain ⟨rfl, hsecond⟩ := List.cons_prefix_cons.mp hprefix
      obtain ⟨rfl, -⟩ := List.cons_prefix_cons.mp hsecond
      exact List.prefix_append [a, a] ds

/-- The mark that ends a comment is not made of a text and a star. -/
lemma not_infix_concat_star {s : List Char} (h : ¬ ['*', '/'] <:+: s) :
    ¬ ['*', '/'] <:+: s ++ ['*'] := by
  rw [List.infix_concat_iff, not_or]
  refine ⟨fun hsuffix => ?_, h⟩
  obtain ⟨front, hfront⟩ := hsuffix
  have hlast := congrArg List.getLast? hfront
  simp at hlast

/-! ### Scanning -/

section Scanning

variable {known : String → Bool}

/-- What stands between the braces of the piece is found again before whatever follows. -/
def Fragment.Encloses (f : Fragment) : Prop :=
  ∃ inner, f.print.toList = '\x7b' :: '\x7b' :: inner ∧ ∀ opened rest, ∃ item offset,
    lexEnclosed .braces opened (inner ++ rest) = .ok ⟨item, offset, rest, false⟩ ∧
      opensTrimmed (inner ++ rest) = false ∧ f.Matches item

lemma inBraces_toList (s : String) :
    (inBraces s).toList = '\x7b' :: '\x7b' :: (s.toList ++ ['\x7d', '\x7d']) := by
  rw [inBraces, String.toList_append, String.toList_append, List.append_assoc]
  rfl

/-- A comment is found again. -/
lemma comment_encloses {t : String} (h : ¬ ['*', '/'] <:+: t.toList) :
    (Fragment.comment t).Encloses := by
  refine ⟨'/' :: '*' :: (t.toList ++ ['*', '/', '\x7d', '\x7d']), ?_, fun opened rest => ?_⟩
  · rw [Fragment.print, inBraces_toList, String.toList_append, String.toList_append,
      List.append_assoc, List.append_assoc]
    rfl
  · have hsplit : splitAt? ['*', '/'] (t.toList ++ (['*', '/'] ++ '\x7d' :: '\x7d' :: rest)) =
        some (t.toList, '\x7d' :: '\x7d' :: rest) :=
      splitAt_first_mark (not_infix_concat_star h) (by decide) _
    have htext : '/' :: '*' :: (t.toList ++ ['*', '/', '\x7d', '\x7d']) ++ rest =
        '/' :: '*' :: (t.toList ++ (['*', '/'] ++ '\x7d' :: '\x7d' :: rest)) := by simp
    have hcomment : ∀ offset, lexComment Delimiters.braces.right.toList opened offset
        (t.toList ++ (['*', '/'] ++ '\x7d' :: '\x7d' :: rest)) =
        .ok ⟨t, offset + Text.width t.toList + 2 + 2, rest, false⟩ := by
      intro offset
      rw [lexComment, hsplit]
      simp only [String.ofList_toList]
      rfl
    have htrim : opensTrimmed ('/' :: '*' ::
        (t.toList ++ (['*', '/'] ++ '\x7d' :: '\x7d' :: rest))) = false := rfl
    rw [htext]
    refine ⟨.comment opened t, opened + 2 + 2 + Text.width t.toList + 2 + 2, ?_, htrim,
      .comment opened t⟩
    unfold lexEnclosed
    simp only [htrim, Bool.false_eq_true, if_false, List.drop_zero, hcomment]
    rfl

/-- Words between braces are found again. -/
lemma encloses_of_words {f : Fragment} {s : String} (w : Word) (ws : List Word)
    (hprint : f.print = inBraces s) (hs : s.toList = spell (w :: ws)) (hw : w.spaced = false)
    (hwords : ∀ rest, Lexable (w :: ws) ('\x7d' :: '\x7d' :: rest))
    (hmatches : ∀ o tokens, tokens.map Token.word = ⟨w.kind, true⟩ :: ws →
      f.Matches (.action o tokens)) : f.Encloses := by
  refine ⟨spell (w :: ws) ++ ['\x7d', '\x7d'], ?_, fun opened rest => ?_⟩
  · rw [hprint, inBraces_toList, hs]
  · obtain ⟨tokens, offset, hlex, htokens⟩ := lexEnclosed_spell (hwords rest) hw opened
    rw [List.append_assoc]
    refine ⟨.action opened tokens, offset, hlex, ?_, hmatches opened tokens htokens⟩
    have hbegins : BeginsToken (spell (w :: ws) ++ '\x7d' :: '\x7d' :: rest) := by
      rw [spell, hw, List.append_assoc]
      exact ((hwords rest).1.beginsToken.append _).append _
    exact hbegins.not_opensTrimmed

/-- A piece that is no text is found again. -/
lemma Fragment.IsLexical.encloses {f : Fragment} (h : f.IsLexical known)
    (htext : ∀ t, f ≠ .text t) : f.Encloses := by
  cases f with
  | text t => exact absurd rfl (htext t)
  | comment t => exact comment_encloses h
  | action p =>
    obtain ⟨scope, hp⟩ := h
    obtain ⟨kind, ws, hwords⟩ := hp.words_eq_cons
    refine encloses_of_words (s := p.print) ⟨kind, false⟩ ws rfl ?_ rfl ?_ ?_
    · rw [← hwords]
      exact (hp.spell_words false).symm
    · intro rest
      rw [← hwords]
      exact hp.words_lexable false (runsOn_cons (by decide) _)
    · intro o tokens htokens
      refine .action ?_
      rw [htokens, hwords]
      rfl
  | clause k p =>
    cases p with
    | none =>
      refine encloses_of_words (s := k.word) ⟨.keyword k, false⟩ [] rfl ?_ rfl ?_
        fun _ _ htokens => .clause htokens
      · simp [spell, gap, TokenKind.print]
      · exact fun rest => ⟨trivial, .cons (by decide), trivial⟩
    | some p =>
      obtain ⟨ofLoop, scope, hp⟩ := h
      refine encloses_of_words (s := k.word ++ " " ++ p.print) ⟨.keyword k, false⟩ (p.words true)
        rfl ?_ rfl ?_ fun _ _ htokens => .clause htokens
      · simp [spell, gap, TokenKind.print, hp.spell_words]
      · refine fun rest => ⟨trivial, avoids_of_runsOn ?_,
          hp.words_lexable true (runsOn_cons (by decide) _)⟩
        rw [hp.spell_words true, List.append_assoc]
        exact runsOn_gap _
  | call => cases h

/-- The pieces are found again behind a text that is still open. -/
theorem lexFrom_fragments {fs : List Fragment} (hlexical : ∀ f ∈ fs, f.IsLexical known)
    (hapart : fs.IsChain Fragment.Apart) {open₁ : List Char}
    (hopen : ¬ ['\x7b', '\x7b'] <:+: open₁)
    (hfirst : ∀ f ∈ fs.head?, ¬ (open₁.getLast? = some '\x7b' ∧ f.print.toList.head? = some '\x7b'))
    (offset : Nat) :
    ∃ items, lexFrom .braces offset false (open₁ ++ fragmentsText fs) = .ok items ∧
      Lexes open₁ fs items := by
  have hleft : Delimiters.braces.left.toList ≠ [] := by decide
  induction fs generalizing open₁ offset with
  | nil =>
    rw [fragmentsText_nil, List.append_nil]
    exact ⟨_, lexFrom_text hleft (splitAt_eq_none hleft hopen), .nil offset⟩
  | cons f fs ih =>
    obtain ⟨hf, hfs⟩ := List.forall_mem_cons.mp hlexical
    obtain ⟨hnext, hchain⟩ := List.isChain_cons.mp hapart
    have hboundary := hfirst f rfl
    by_cases htext : ∃ t, f = .text t
    · obtain ⟨t, rfl⟩ := htext
      have hlast : (open₁ ++ t.toList).getLast? = t.toList.getLast? :=
        List.getLast?_append_of_ne_nil _ hf.1
      obtain ⟨items, hitems, hlexes⟩ := ih hfs hchain
        (not_infix_append hopen hf.2 hboundary) (by rwa [hlast]) offset
      rw [fragmentsText_cons, ← List.append_assoc]
      exact ⟨items, hitems, .text hlexes⟩
    · obtain ⟨inner, hprint, hinner⟩ := hf.encloses (not_exists.mp htext)
      have hclear : ¬ ['\x7b', '\x7b'] <:+: open₁ ++ ['\x7b'] := by
        refine not_infix_append hopen (by decide) fun h => hboundary ⟨h.1, ?_⟩
        rw [hprint]
        rfl
      obtain ⟨item, offset', hitem, htrim, hmatches⟩ :=
        hinner (offset + Text.width open₁) (fragmentsText fs)
      have hstart : ∀ g ∈ fs.head?,
          ¬ (([] : List Char).getLast? = some '\x7b' ∧ g.print.toList.head? = some '\x7b') := by
        simp
      obtain ⟨items, hitems, hlexes⟩ := ih hfs hchain (by decide) hstart offset'
      have hlex := lexFrom_enclosed false hleft
        (splitAt_first_mark hclear hleft (inner ++ fragmentsText fs)) hitem hitems
      rw [htrim] at hlex
      rw [fragmentsText_cons, hprint]
      exact ⟨_, hlex, .enclosed offset hmatches hlexes⟩

end Scanning

end SafeQuery
