import SafeQuery.Text.Width
import SafeQuery.Token.Scan

/-!
# Sources

The source of a template is text between actions. An action stands between two delimiters and holds
tokens or a comment. A dash beside a delimiter, with blank space on its inner side, trims the blank
space of the text on its outer side. `Item.ofSource` takes a source apart.
-/

namespace SafeQuery

/-- The marks around an action. -/
structure Delimiters where
  left : String
  right : String
deriving DecidableEq, Repr

def Delimiters.braces : Delimiters := ⟨"\x7b\x7b", "\x7d\x7d"⟩

/-- The given marks, with braces in place of empty ones. -/
def Delimiters.ofTexts (left right : String) : Delimiters :=
  ⟨if left.isEmpty then braces.left else left, if right.isEmpty then braces.right else right⟩

/-- A piece of a source and the offset at which it begins. -/
inductive Item where
  | text (offset : Nat) (text : String)
  | comment (offset : Nat) (text : String)
  | action (offset : Nat) (tokens : List Token)
deriving DecidableEq, Repr

/-- The text before the first occurrence of a mark, and the text after it. -/
def splitAt? (mark : List Char) : List Char → Option (List Char × List Char)
  | []      => if mark.isEmpty then some ([], []) else none
  | c :: cs =>
    if mark.isPrefixOf (c :: cs) then some ([], (c :: cs).drop mark.length)
    else (splitAt? mark cs).map fun r => (c :: r.1, r.2)

theorem splitAt_append {mark s before after : List Char}
    (h : splitAt? mark s = some (before, after)) :
    before ++ mark ++ after = s := by
  induction s generalizing before with
  | nil =>
    simp only [splitAt?] at h
    split at h <;> simp_all
  | cons c cs ih =>
    simp only [splitAt?] at h
    split at h
    · rename_i hp
      obtain ⟨t, ht⟩ := List.isPrefixOf_iff_prefix.mp hp
      simp only [Option.some.injEq, Prod.mk.injEq] at h
      obtain ⟨rfl, rfl⟩ := h
      simp [← ht]
    · simp only [Option.map_eq_some_iff, Prod.mk.injEq, Prod.exists] at h
      obtain ⟨b, a, hs, rfl, rfl⟩ := h
      simp [ih hs]

theorem splitAt_length {mark s before after : List Char}
    (h : splitAt? mark s = some (before, after)) : after.length + mark.length ≤ s.length := by
  have := congrArg List.length (splitAt_append h)
  simp only [List.length_append] at *
  omega

/-! ### The inside of an action -/

/-- A piece of a source that has been closed by its right delimiter, and what follows. -/
structure Closed (α : Type) where
  value : α
  /-- The offset after the right delimiter. -/
  offset : Nat
  rest : List Char
  /-- The text that follows is trimmed. -/
  trims : Bool

/-- The right delimiter at the beginning of a text, with a trim marker before it if blank space
stands before that, and whether there is such a marker. -/
def closingMark? (right : List Char) (spaced : Bool) (s : List Char) : Option (List Char × Bool) :=
  if spaced && ('-' :: right).isPrefixOf s then some ('-' :: right, true)
  else if right.isPrefixOf s then some (right, false)
  else none

theorem closingMark_length {right s mark : List Char} {spaced trims : Bool}
    (h : closingMark? right spaced s = some (mark, trims)) :
    (s.drop mark.length).length + right.length ≤ s.length := by
  unfold closingMark? at h
  split at h
  · rename_i hmark
    have hlength := (List.isPrefixOf_iff_prefix.mp (Bool.and_eq_true_iff.mp hmark).2).length_le
    cases h
    simp only [List.length_drop, List.length_cons] at *
    omega
  · split at h
    · rename_i hmark
      have hlength := (List.isPrefixOf_iff_prefix.mp hmark).length_le
      cases h
      simp only [List.length_drop]
      omega
    · cases h

/-- The tokens of the action that was opened at `opened`, from the given offset on. -/
def lexAction (right : List Char) (opened offset : Nat) (first : Bool) (s : List Char) :
    Except SyntaxFault (Closed (List Token)) :=
  let blank := s.takeWhile Text.isSpace
  let body := s.dropWhile Text.isSpace
  let here := offset + Text.width blank
  match closingMark? right (!blank.isEmpty) body with
  | some (mark, trims) => .ok ⟨[], here + Text.width mark, body.drop mark.length, trims⟩
  | none =>
    match _hb : body with
    | []      => .error ⟨opened, .unclosedAction⟩
    | c :: cs =>
      match _h : scanToken (c :: cs) with
      | .error cause => .error ⟨here, cause⟩
      | .ok r        =>
        match lexAction right opened (here + Text.width r.lexeme) false r.rest with
        | .error fault => .error fault
        | .ok closed   =>
          .ok { closed with value := ⟨r.value, here, first || !blank.isEmpty⟩ :: closed.value }
termination_by s.length
decreasing_by
  have h1 := scanToken_length _h
  have h2 := (List.dropWhile_suffix (l := s) Text.isSpace).length_le
  simp only [body] at _hb
  rw [_hb] at h2
  omega

theorem lexAction_length {right : List Char} {opened offset : Nat} {first : Bool} {s : List Char}
    {r : Closed (List Token)} (h : lexAction right opened offset first s = .ok r) :
    r.rest.length + right.length ≤ s.length := by
  fun_induction lexAction right opened offset first s generalizing r with
  | case1 =>
    rename_i s blank body here mark trims hm
    have h1 := closingMark_length hm
    have h2 := (List.dropWhile_suffix (l := s) Text.isSpace).length_le
    simp only [Except.ok.injEq] at h
    subst h
    exact Nat.le_trans h1 h2
  | case2 => simp at h
  | case3 => simp at h
  | case4 => simp at h
  | case5 =>
    rename_i s blank body here hm c cs hb r' hr closed hc ih
    have h1 := scanToken_length hr
    have h2 := (List.dropWhile_suffix (l := s) Text.isSpace).length_le
    simp only [Except.ok.injEq] at h
    subst h
    have := ih hc
    simp only [body] at hb
    rw [hb] at h2
    simp only
    omega

/-- The right delimiter at the beginning of a text, with a blank and a trim marker before it if they
stand there, and whether there is such a marker. -/
def commentMark? (right : List Char) (s : List Char) : Option (List Char × Bool) :=
  match s with
  | c :: cs =>
    if Text.isSpace c && ('-' :: right).isPrefixOf cs then some (c :: '-' :: right, true)
    else if right.isPrefixOf s then some (right, false)
    else none
  | [] => if right.isEmpty then some ([], false) else none

theorem commentMark_length {right s mark : List Char} {trims : Bool}
    (h : commentMark? right s = some (mark, trims)) :
    (s.drop mark.length).length + right.length ≤ s.length := by
  unfold commentMark? at h
  split at h
  · split at h
    · rename_i hmark
      have hlength := (List.isPrefixOf_iff_prefix.mp (Bool.and_eq_true_iff.mp hmark).2).length_le
      cases h
      simp only [List.length_drop, List.length_cons] at *
      omega
    · split at h
      · rename_i hmark
        have hlength := (List.isPrefixOf_iff_prefix.mp hmark).length_le
        cases h
        simp only [List.length_drop]
        omega
      · cases h
  · split at h
    · rename_i hempty
      cases h
      simpa using hempty
    · cases h

/-- The comment that was opened at `opened`, from the given offset inside it on. -/
def lexComment (right : List Char) (opened offset : Nat) (s : List Char) :
    Except SyntaxFault (Closed String) :=
  match splitAt? ['*', '/'] s with
  | none              => .error ⟨opened, .unclosedComment⟩
  | some (text, rest) =>
    match commentMark? right rest with
    | none               => .error ⟨opened, .commentBeforeDelimiter⟩
    | some (mark, trims) =>
      .ok ⟨String.ofList text, offset + Text.width text + 2 + Text.width mark,
        rest.drop mark.length, trims⟩

theorem lexComment_length {right : List Char} {opened offset : Nat} {s : List Char}
    {r : Closed String} (h : lexComment right opened offset s = .ok r) :
    r.rest.length + right.length ≤ s.length := by
  unfold lexComment at h
  split at h
  · simp at h
  · rename_i text rest hs
    have hl := splitAt_length hs
    split at h
    · simp at h
    · rename_i mark trims hm
      have hr := commentMark_length hm
      simp only [Except.ok.injEq] at h
      subst h
      dsimp only
      omega

/-- The text behind a left delimiter begins with a trim marker. -/
def opensTrimmed : List Char → Bool
  | '-' :: c :: _ => Text.isSpace c
  | _             => false

/-- The comment or the action behind a left delimiter at the offset `opened`. -/
def lexEnclosed (d : Delimiters) (opened : Nat) (after : List Char) :
    Except SyntaxFault (Closed Item) :=
  let trim := opensTrimmed after
  let inside := opened + Text.width d.left.toList
  match after.drop (if trim then 2 else 0) with
  | '/' :: '*' :: body =>
    match lexComment d.right.toList opened (inside + (if trim then 4 else 2)) body with
    | .error fault => .error fault
    | .ok c        => .ok ⟨.comment opened c.value, c.offset, c.rest, c.trims⟩
  | _ =>
    match lexAction d.right.toList opened (inside + (if trim then 1 else 0)) true
        (after.drop (if trim then 1 else 0)) with
    | .error fault => .error fault
    | .ok c        => .ok ⟨.action opened c.value, c.offset, c.rest, c.trims⟩

theorem lexEnclosed_length {d : Delimiters} {opened : Nat} {after : List Char} {r : Closed Item}
    (h : lexEnclosed d opened after = .ok r) :
    r.rest.length + d.right.toList.length ≤ after.length := by
  unfold lexEnclosed at h
  simp only at h
  split at h
  · rename_i body hb
    have hl := congrArg List.length hb
    simp only [List.length_drop, List.length_cons] at hl
    split at h
    · simp at h
    · rename_i c hc
      have := lexComment_length hc
      simp only [Except.ok.injEq] at h
      subst h
      simp only
      omega
  · split at h
    · simp at h
    · rename_i c hc
      have := lexAction_length hc
      simp only [Except.ok.injEq] at h
      subst h
      simp only [List.length_drop] at this
      simp only
      omega

/-! ### The items of a source -/

/-- The item of a text that begins at an offset, or none where nothing of it is kept. -/
def textItem (offset : Nat) (s : List Char) (trimStart trimEnd : Bool) : List Item :=
  let dropped := if trimStart then s.takeWhile Text.isSpace else []
  let kept := if trimStart then s.dropWhile Text.isSpace else s
  let kept := if trimEnd then (kept.reverse.dropWhile Text.isSpace).reverse else kept
  if kept.isEmpty then [] else [.text (offset + Text.width dropped) (String.ofList kept)]

/-- The items from an offset on; `trim` says that the text there is trimmed. An empty left delimiter
opens an action everywhere, and there is always one that is not closed. If the right delimiter is
empty too, actions without tokens would be read for ever; this counts as an action that is not closed. -/
def lexFrom (d : Delimiters) (offset : Nat) (trim : Bool) (s : List Char) :
    Except SyntaxFault (List Item) :=
  if _hd : d.left.toList = [] ∧ d.right.toList = [] then .error ⟨offset, .unclosedAction⟩
  else
    match _h : splitAt? d.left.toList s with
    | none                 => .ok (textItem offset s trim false)
    | some (before, after) =>
      match _hc : lexEnclosed d (offset + Text.width before) after with
      | .error fault => .error fault
      | .ok closed   =>
        match lexFrom d closed.offset closed.trims closed.rest with
        | .error fault => .error fault
        | .ok items    =>
          .ok (textItem offset before trim (opensTrimmed after) ++ closed.value :: items)
termination_by s.length
decreasing_by
  have h1 := splitAt_length _h
  have h2 := lexEnclosed_length _hc
  have h3 : 0 < d.left.toList.length + d.right.toList.length := by
    simp only [← List.length_eq_zero_iff] at _hd
    omega
  omega

/-- Take a source apart. -/
def Item.ofSource (d : Delimiters) (source : String) : Except SyntaxFault (List Item) :=
  lexFrom d 0 false source.toList

end SafeQuery
