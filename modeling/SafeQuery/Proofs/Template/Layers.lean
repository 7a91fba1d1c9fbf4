import Mathlib.Tactic.Common
import SafeQuery.Settings.Basic

/-!
# Settings in layers

Settings laid over others and applied at once, against the two applied one after the other. The
policy for missing keys is the same both ways. A delimiter is not: settings with one delimiter put
the other one back to braces, so that what the lower settings say of it is lost when they are
applied before (`Settings.apply_merge`).
-/

namespace SafeQuery

inductive Side where
  | left
  | right
deriving DecidableEq

def Side.other : Side → Side
  | left  => right
  | right => left

def Delimiters.mark (d : Delimiters) : Side → String
  | .left  => d.left
  | .right => d.right

lemma Delimiters.eq_iff_mark {d d' : Delimiters} :
    d = d' ↔ ∀ side, d.mark side = d'.mark side := by
  constructor
  · rintro rfl side
    rfl
  · intro h
    obtain ⟨_, _⟩ := d
    obtain ⟨_, _⟩ := d'
    obtain rfl := h .left
    obtain rfl := h .right
    rfl

namespace Settings

def mark (s : Settings) : Side → Option String
  | .left  => s.left
  | .right => s.right

lemma mark_merge (lower upper : Settings) (side : Side) :
    (lower.merge upper).mark side = (upper.mark side).or (lower.mark side) := by
  cases side <;> rfl

/-- A delimiter that has been set, where an empty one stands for braces. -/
def orBraces (side : Side) (mark : String) : String :=
  if mark = "" then Delimiters.braces.mark side else mark

/-- The delimiter of a side that a template has when settings are applied to it: the one that is
set, and if there is none, braces or the one that it had before, as the other side is set or not. -/
def markOn (s : Settings) (d : Delimiters) (side : Side) : String :=
  match s.mark side, s.mark side.other with
  | some m, _      => orBraces side m
  | none,   some _ => Delimiters.braces.mark side
  | none,   none   => d.mark side

/-- The delimiters that a template has when settings are applied to it. -/
def delimitersOn (s : Settings) (d : Delimiters) : Delimiters :=
  ⟨s.markOn d .left, s.markOn d .right⟩

@[simp] lemma mark_delimitersOn (s : Settings) (d : Delimiters) (side : Side) :
    (s.delimitersOn d).mark side = s.markOn d side := by
  cases side <;> rfl

/-- Nothing of a template changes but its delimiters and its policy for missing keys. -/
lemma apply_eq (s : Settings) (t : Template) :
    s.apply t = { t with
      delimiters := s.delimitersOn t.delimiters
      missingKey := s.missingKey.getD t.missingKey } := by
  obtain ⟨left, right, missingKey⟩ := s
  cases left <;> cases right <;> cases missingKey <;>
    simp [apply, delimitersOn, markOn, mark, Side.other, orBraces, Template.withDelimiters,
      Template.withMissingKey, Delimiters.ofTexts, Delimiters.mark]

/-- The upper settings put a delimiter back to braces that the lower ones have set to something
else: they set the other one only. -/
def Resets (lower upper : Settings) (side : Side) : Prop :=
  upper.mark side = none ∧ upper.mark side.other ≠ none ∧
    ∃ m ∈ lower.mark side, orBraces side m ≠ Delimiters.braces.mark side

/-- A delimiter is the same with the settings over each other and one after the other, unless the
upper settings put it back. -/
lemma markOn_merge_iff (lower upper : Settings) (d : Delimiters) (side : Side) :
    (lower.merge upper).markOn d side = upper.markOn (lower.delimitersOn d) side ↔
      ¬ lower.Resets upper side := by
  rw [Resets]
  cases hside : upper.mark side with
  | some m => simp [markOn, mark_merge, hside]
  | none =>
    cases hother : upper.mark side.other with
    | none => simp [markOn, mark_merge, hside, hother]
    | some m' => cases hlower : lower.mark side <;> simp [markOn, mark_merge, hside, hother, hlower]

/-- Settings laid over others amount to the two one after the other unless the upper ones put a
delimiter back. The policy for missing keys and all that is not a setting stay as they are where
nothing is said of them; a delimiter does only if the other one is not set either, or if it was
braces before. -/
theorem apply_merge (lower upper : Settings) (t : Template) :
    ((lower.merge upper).apply t = upper.apply (lower.apply t) ↔
        ∀ side, ¬ lower.Resets upper side) ∧
      (lower.apply t = { t with
        delimiters := (lower.apply t).delimiters
        missingKey := lower.missingKey.getD t.missingKey }) ∧
      ∀ side,
        (∀ m ∈ lower.mark side, (lower.apply t).delimiters.mark side = orBraces side m) ∧
          (lower.mark side = none →
            ((lower.apply t).delimiters.mark side = t.delimiters.mark side ↔
              lower.mark side.other = none ∨
                t.delimiters.mark side = Delimiters.braces.mark side)) := by
  refine ⟨?_, ?_, fun side => ⟨fun m hm => ?_, fun hnone => ?_⟩⟩
  · have hpolicy : (lower.merge upper).missingKey.getD t.missingKey =
        upper.missingKey.getD (lower.missingKey.getD t.missingKey) := by
      cases hupper : upper.missingKey <;> simp [merge, hupper]
    -- Only the delimiters can differ.
    simp only [apply_eq, hpolicy, Template.mk.injEq, true_and, and_true]
    rw [Delimiters.eq_iff_mark]
    simp only [mark_delimitersOn, markOn_merge_iff]
  · rw [apply_eq]
  · rw [apply_eq, mark_delimitersOn, markOn, hm]
  · rw [apply_eq, mark_delimitersOn, markOn, hnone]
    cases lower.mark side.other with
    | none => simp
    | some m => simp [eq_comm]

/-- The left delimiter in one layer and the right one in the other: together they are both set, and
one after the other only the second one is. -/
theorem apply_merge_of_halves :
    let lower : Settings := ⟨some "[[", none, none⟩
    let upper : Settings := ⟨none, some "]]", none⟩
    let t := Template.new "q"
    (lower.merge upper).apply t ≠ upper.apply (lower.apply t) ∧
      ((lower.merge upper).apply t).delimiters = ⟨"[[", "]]"⟩ ∧
      (upper.apply (lower.apply t)).delimiters = ⟨"\x7b\x7b", "]]"⟩ ∧
      (upper.apply (lower.apply t)).delimiters.left ≠ (lower.apply t).delimiters.left := by
  intro lower upper t
  have hresets : lower.Resets upper .left := ⟨rfl, by decide, "[[", rfl, by decide⟩
  have hkept := ((apply_merge upper lower (lower.apply t)).2.2 .left).2 rfl
  refine ⟨fun heq => (apply_merge lower upper t).1.mp heq .left hresets, by decide, by decide, ?_⟩
  exact fun heq => absurd (hkept.mp heq) (by decide)

end Settings

end SafeQuery
