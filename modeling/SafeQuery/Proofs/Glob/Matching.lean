import Mathlib.Data.List.Infix
import SafeQuery.Glob.Walk
import SafeQuery.Proofs.Glob.Reading

/-!
# Matching paths segment by segment

A pattern matches a path as a whole, `Pattern.admits`. Patterns for segments match the segments of
the path one after the other, where a wildcard for segments takes any number of them, and `ways`
counts in how many ways they do. A path is matched as a whole if and only if there is such a way,
`matchBySegments`. Of wildcards for segments side by side one is enough (`ways_collapse_pos_iff`),
and where there is one at most, there is no second way (`ways_le_one`).
-/

namespace SafeQuery.Glob

section Admits

variable {w : Wildcard} {p q ws : Pattern} {s t r : List Char}

@[simp] lemma admits_nil_iff : Pattern.admits [] s = true ↔ s = [] := by
  rw [Pattern.admits, List.isEmpty_iff]

/-- What is left behind characters of a segment. -/
lemma mem_starRests : r ∈ starRests s ↔ ∃ a, '/' ∉ a ∧ s = a ++ r := by
  induction s with
  | nil =>
    rw [starRests, List.mem_singleton]
    constructor
    · rintro rfl
      exact ⟨[], List.not_mem_nil, rfl⟩
    · rintro ⟨a, -, heq⟩
      exact (List.append_eq_nil_iff.mp heq.symm).2
  | cons c s ih =>
    rw [starRests, List.mem_cons]
    constructor
    · rintro (rfl | h)
      · exact ⟨[], List.not_mem_nil, rfl⟩
      · split at h
        · cases h
        · rename_i hc
          obtain ⟨a, ha, rfl⟩ := ih.mp h
          refine ⟨c :: a, ?_, rfl⟩
          rw [List.mem_cons, not_or]
          exact ⟨Ne.symm hc, ha⟩
    · rintro ⟨a, ha, heq⟩
      cases a with
      | nil => exact .inl heq.symm
      | cons d a =>
        obtain ⟨rfl, rfl⟩ := List.cons.inj heq
        rw [List.mem_cons, not_or] at ha
        rw [if_neg (Ne.symm ha.1)]
        exact .inr (ih.mpr ⟨a, ha.2, rfl⟩)

/-- A star admits any characters but slashes. -/
lemma admits_star_iff : Pattern.admits (.star :: ws) s = true ↔
    ∃ a b, '/' ∉ a ∧ Pattern.admits ws b = true ∧ s = a ++ b := by
  rw [Pattern.admits, List.any_eq_true]
  constructor
  · rintro ⟨b, hb, h⟩
    obtain ⟨a, ha, rfl⟩ := mem_starRests.mp hb
    exact ⟨a, b, ha, h, rfl⟩
  · rintro ⟨a, b, ha, h, rfl⟩
    exact ⟨b, mem_starRests.mpr ⟨a, ha, rfl⟩, h⟩

/-- Every other wildcard of a segment admits one character. -/
lemma admits_cons_iff (hstar : w ≠ .star) (hdeep : w ≠ .deep) :
    Pattern.admits (w :: ws) s = true ↔
      ∃ c b, w.admits c = true ∧ Pattern.admits ws b = true ∧ s = c :: b := by
  have hequation : Pattern.admits (w :: ws) [] = false ∧
      ∀ c b, Pattern.admits (w :: ws) (c :: b) = (w.admits c && Pattern.admits ws b) := by
    cases w with
    | star => contradiction
    | deep => contradiction
    | char c | any | within cs | except cs => exact ⟨rfl, fun _ _ => rfl⟩
  cases s with
  | nil => simp [hequation.1]
  | cons c b =>
    rw [hequation.2, Bool.and_eq_true]
    constructor
    · rintro ⟨hc, hb⟩
      exact ⟨c, b, hc, hb, rfl⟩
    · rintro ⟨_, _, hc, hb, heq⟩
      cases heq
      exact ⟨hc, hb⟩

/-- A pattern within a segment and another one match a text that consists of what they match. -/
lemma admits_append_iff (hp : p.IsLocal) : Pattern.admits (p ++ ws) s = true ↔
    ∃ a b, p.admits a = true ∧ Pattern.admits ws b = true ∧ s = a ++ b := by
  induction p generalizing s with
  | nil =>
    simp only [List.nil_append, admits_nil_iff]
    constructor
    · intro h
      exact ⟨[], s, rfl, h, rfl⟩
    · rintro ⟨a, b, rfl, h, rfl⟩
      exact h
  | cons w p ih =>
    obtain ⟨hdeep, -, hp'⟩ := hp.of_cons
    rw [List.cons_append]
    by_cases hstar : w = .star
    · subst hstar
      simp only [admits_star_iff, ih hp']
      constructor
      · rintro ⟨a, b, ha, ⟨c, d, hc, hd, rfl⟩, rfl⟩
        exact ⟨a ++ c, d, ⟨a, c, ha, hc, rfl⟩, hd, (List.append_assoc ..).symm⟩
      · rintro ⟨_, d, ⟨a, c, ha, hc, rfl⟩, hd, rfl⟩
        exact ⟨a, c ++ d, ha, ⟨c, d, hc, hd, rfl⟩, List.append_assoc ..⟩
    · simp only [admits_cons_iff hstar hdeep, ih hp']
      constructor
      · rintro ⟨c, b, hc, ⟨d, e, hd, he, rfl⟩, rfl⟩
        exact ⟨c :: d, e, ⟨c, d, hc, hd, rfl⟩, he, rfl⟩
      · rintro ⟨_, e, ⟨c, d, hc, hd, rfl⟩, he, rfl⟩
        exact ⟨c, d ++ e, hc, ⟨d, e, hd, he, rfl⟩, rfl⟩

/-- Nothing but a slash itself admits a slash. -/
lemma Wildcard.ne_slash_of_admits {c : Char} (hw : w ≠ .char '/') (h : w.admits c = true) :
    c ≠ '/' := by
  rintro rfl
  cases w with
  | char d =>
    obtain rfl : '/' = d := of_decide_eq_true h
    exact hw rfl
  | any | star | deep | within cs | except cs => simp [Wildcard.admits] at h

/-- A pattern within a segment matches no slash. -/
lemma not_mem_of_admits (hp : p.IsLocal) (h : p.admits s = true) : '/' ∉ s := by
  induction p generalizing s with
  | nil =>
    obtain rfl := admits_nil_iff.mp h
    exact List.not_mem_nil
  | cons w p ih =>
    obtain ⟨hdeep, hslash, hp'⟩ := hp.of_cons
    by_cases hstar : w = .star
    · subst hstar
      obtain ⟨a, b, ha, hb, rfl⟩ := admits_star_iff.mp h
      rw [List.mem_append, not_or]
      exact ⟨ha, ih hp' hb⟩
    · obtain ⟨c, b, hc, hb, rfl⟩ := (admits_cons_iff hstar hdeep).mp h
      rw [List.mem_cons, not_or]
      exact ⟨(Wildcard.ne_slash_of_admits hslash hc).symm, ih hp' hb⟩

/-- A pattern of wildcards that can all be left out matches every segment. -/
lemma admits_of_admits_nil (hp : p.IsLocal) (hne : p ≠ []) (h : p.admits [] = true)
    (hs : '/' ∉ s) : p.admits s = true := by
  induction p generalizing s with
  | nil => exact absurd rfl hne
  | cons w p ih =>
    obtain ⟨hdeep, -, hp'⟩ := hp.of_cons
    by_cases hstar : w = .star
    · subst hstar
      obtain ⟨a, b, ha, hb, hnil⟩ := admits_star_iff.mp h
      obtain ⟨rfl, rfl⟩ := List.append_eq_nil_iff.mp hnil.symm
      exact admits_star_iff.mpr ⟨s, [], hs, hb, (List.append_nil s).symm⟩
    · obtain ⟨c, b, -, -, hnil⟩ := (admits_cons_iff hstar hdeep).mp h
      contradiction

end Admits

/-! ### Wildcards for segments -/

section Deep

variable {ws : Pattern} {ss ts : List (List Char)} {r : List Char}

lemma segmentRests_of_not_mem {s : List Char} (h : '/' ∉ s) : segmentRests s = [[]] := by
  induction s with
  | nil => rfl
  | cons c s ih =>
    rw [List.mem_cons, not_or] at h
    rw [segmentRests, if_neg (Ne.symm h.1), ih h.2]

/-- Behind a whole segment the rest can begin, or behind a later one. -/
lemma segmentRests_append_slash {s : List Char} (h : '/' ∉ s) (t : List Char) :
    segmentRests (s ++ '/' :: t) = t :: segmentRests t := by
  induction s with
  | nil => rw [List.nil_append, segmentRests, if_pos rfl]
  | cons c s ih =>
    rw [List.mem_cons, not_or] at h
    rw [List.cons_append, segmentRests, if_neg (Ne.symm h.1), ih h.2]

/-- What is left behind segments is the path of the others, or nothing. -/
lemma mem_segmentRests (hne : ss ≠ []) (hss : ∀ s ∈ ss, '/' ∉ s) :
    r ∈ Path.unite ss :: segmentRests (Path.unite ss) ↔
      r = [] ∨ ∃ ts, ts ≠ [] ∧ ts <:+ ss ∧ r = Path.unite ts := by
  induction ss with
  | nil => exact absurd rfl hne
  | cons s ss ih =>
    have hs := hss s List.mem_cons_self
    rcases ss.eq_nil_or_concat with rfl | ⟨_, _, hcons⟩
    · rw [Path.unite, segmentRests_of_not_mem hs, List.mem_pair]
      constructor
      · rintro (rfl | rfl)
        · exact .inr ⟨[r], List.cons_ne_nil _ _, List.suffix_rfl, rfl⟩
        · exact .inl rfl
      · rintro (rfl | ⟨ts, hts, hsuffix, rfl⟩)
        · exact .inr rfl
        · rcases List.suffix_cons_iff.mp hsuffix with rfl | hnil
          · exact .inl rfl
          · exact absurd (List.suffix_nil.mp hnil) hts
    · have hne' : ss ≠ [] := by simp [hcons]
      rw [Path.unite_cons s hne', segmentRests_append_slash hs, List.mem_cons,
        ih hne' fun t ht => hss t (List.mem_cons_of_mem _ ht)]
      constructor
      · rintro (rfl | rfl | ⟨ts, hts, hsuffix, rfl⟩)
        · exact .inr ⟨s :: ss, List.cons_ne_nil _ _, List.suffix_rfl, (Path.unite_cons s hne').symm⟩
        · exact .inl rfl
        · exact .inr ⟨ts, hts, hsuffix.trans (List.suffix_cons s ss), rfl⟩
      · rintro (rfl | ⟨ts, hts, hsuffix, rfl⟩)
        · exact .inr (.inl rfl)
        · rcases List.suffix_cons_iff.mp hsuffix with rfl | hsuffix
          · exact .inl (Path.unite_cons s hne')
          · exact .inr (.inr ⟨ts, hts, hsuffix, rfl⟩)

lemma nil_mem_segmentRests (s : List Char) : [] ∈ segmentRests s := by
  induction s with
  | nil => exact List.mem_singleton_self []
  | cons c s ih =>
    rw [segmentRests]
    split
    · exact List.mem_cons_of_mem _ ih
    · exact ih

lemma admits_deep_iff {s : List Char} : Pattern.admits (.deep :: ws) s = true ↔
    ∃ r ∈ s :: segmentRests s, Pattern.admits ws r = true := by
  rw [Pattern.admits, List.any_eq_true]

end Deep

/-! ### Ways to match a path -/

/-- The number of ways in which patterns for segments match the segments of a path. A wildcard for
segments takes any number of them before other patterns, and one or more at the end. -/
def ways : List Pattern → List String → Nat
  | [],      ss => if ss.isEmpty then 1 else 0
  | p :: ps, ss =>
    if p = [.deep] then
      if ps.isEmpty then (if ss.isEmpty then 0 else 1) else (ss.tails.map (ways ps)).sum
    else match ss with
      | []      => 0
      | s :: ss => if p.admits s.toList then ways ps ss else 0

/-- A pattern that stands for a segment or, as a wildcard, for segments. -/
def Pattern.IsSegment (p : Pattern) : Prop := p = [.deep] ∨ p.IsLocal ∧ p ≠ []

section Ways

variable {p : Pattern} {ps : List Pattern} {s : String} {ss : List String}

lemma ways_local_nil (hp : p ≠ [.deep]) : ways (p :: ps) [] = 0 := by
  rw [ways, if_neg hp]

lemma ways_local_cons (hp : p ≠ [.deep]) :
    ways (p :: ps) (s :: ss) = if p.admits s.toList then ways ps ss else 0 := by
  rw [ways, if_neg hp]

lemma ways_lastDeep : ways [[.deep]] ss = if ss.isEmpty then 0 else 1 := by
  cases ss <;> rfl

/-- A wildcard for segments can stand for any number of them. -/
lemma ways_deep (hps : ps ≠ []) : ways ([.deep] :: ps) ss = (ss.tails.map (ways ps)).sum := by
  cases ps with
  | nil => exact absurd rfl hps
  | cons p ps => cases ss <;> rfl

lemma ways_nil (hps : ps ≠ []) : ways ps [] = 0 := by
  induction ps with
  | nil => exact absurd rfl hps
  | cons p ps ih =>
    by_cases hp : p = [.deep]
    · subst hp
      by_cases hps : ps = []
      · subst hps
        rfl
      · rw [ways_deep hps]
        exact (List.sum_singleton ..).trans (ih hps)
    · exact ways_local_nil hp

lemma ways_deep_cons (hps : ps ≠ []) :
    ways ([.deep] :: ps) (s :: ss) = ways ps (s :: ss) + ways ([.deep] :: ps) ss := by
  rw [ways_deep hps, ways_deep hps, List.tails, List.map_cons, List.sum_cons]

lemma ways_deep_pos_iff (hps : ps ≠ []) :
    0 < ways ([.deep] :: ps) ss ↔ ∃ ts, ts <:+ ss ∧ 0 < ways ps ts := by
  rw [ways_deep hps, List.sum_pos_iff_exists_pos_nat]
  simp

/-- What patterns match if they match nothing. -/
lemma admits_uniteAll_of_nil (hne : ps ≠ []) (hps : ∀ p ∈ ps, p.IsSegment)
    (h : (uniteAll ps).admits [] = true) {s : List Char} (hs : '/' ∉ s) :
    (uniteAll ps).admits s = true := by
  induction ps with
  | nil => exact absurd rfl hne
  | cons p ps ih =>
    have hps' : ∀ q ∈ ps, q.IsSegment := fun q hq => hps q (List.mem_cons_of_mem _ hq)
    by_cases hne' : ps = []
    · subst hne'
      rcases hps p List.mem_cons_self with rfl | ⟨hlocal, hp⟩
      · exact admits_deep_iff.mpr ⟨[], List.mem_cons_of_mem _ (nil_mem_segmentRests s), rfl⟩
      · exact admits_of_admits_nil hlocal hp h hs
    · rw [uniteAll_cons p hne'] at h ⊢
      rcases hps p List.mem_cons_self with rfl | ⟨hlocal, hp⟩
      · have hdeep : Pattern.followedBy [.deep] (uniteAll ps) = .deep :: uniteAll ps := if_pos rfl
        rw [hdeep, admits_deep_iff] at h ⊢
        obtain ⟨r, hr, h⟩ := h
        obtain rfl : r = [] := by simpa [segmentRests] using hr
        exact ⟨s, List.mem_cons_self, ih hne' hps' h⟩
      · rw [hlocal.followedBy, admits_append_iff hlocal] at h
        obtain ⟨a, b, -, hb, hnil⟩ := h
        obtain ⟨rfl, rfl⟩ := List.append_eq_nil_iff.mp hnil.symm
        obtain ⟨c, b, -, -, hnil⟩ := (admits_cons_iff (by simp) (by simp)).mp hb
        contradiction

/-- The patterns match a path as a whole if they match its segments in some way. -/
def MatchBySegments (ps : List Pattern) : Prop :=
  ∀ ss : List String, ss ≠ [] → (∀ s ∈ ss, '/' ∉ s.toList) →
    ((uniteAll ps).admits (Path.unite (ss.map String.toList)) = true ↔ 0 < ways ps ss)

lemma matchBySegments_lastDeep : MatchBySegments [[.deep]] := by
  intro ss hss _
  have hall : (uniteAll [[.deep]]).admits (Path.unite (ss.map String.toList)) = true :=
    admits_deep_iff.mpr ⟨[], List.mem_cons_of_mem _ (nil_mem_segmentRests _), rfl⟩
  rw [hall, ways_lastDeep]
  simp [hss]

lemma matchBySegments_last (hp : p.IsLocal) : MatchBySegments [p] := by
  intro ss hss _
  obtain ⟨s, ss, rfl⟩ := List.exists_cons_of_ne_nil hss
  rw [ways_local_cons hp.ne_deep]
  cases ss with
  | nil =>
    change p.admits s.toList = true ↔ _
    split <;> simp_all [ways]
  | cons t ts =>
    have hzero : ways [] (t :: ts) = 0 := rfl
    rw [hzero, ite_self, iff_false_right (Nat.lt_irrefl 0)]
    intro h
    exact not_mem_of_admits hp h (by simp [Path.unite])

/-- Behind a wildcard for segments any end of the path is matched. -/
lemma MatchBySegments.deep (h : MatchBySegments ps) (hne : ps ≠ []) (hps : ∀ p ∈ ps, p.IsSegment) :
    MatchBySegments ([.deep] :: ps) := by
  intro ss hss hslash
  have hdeep : Pattern.followedBy [.deep] (uniteAll ps) = .deep :: uniteAll ps := if_pos rfl
  have hmap : ss.map String.toList ≠ [] := by simpa using hss
  have hmap' : ∀ t ∈ ss.map String.toList, '/' ∉ t := by
    intro t ht
    obtain ⟨u, hu, rfl⟩ := List.mem_map.mp ht
    exact hslash u hu
  rw [uniteAll_cons _ hne, hdeep, ways_deep_pos_iff hne, admits_deep_iff]
  constructor
  · rintro ⟨r, hr, hadmits⟩
    rcases (mem_segmentRests hmap hmap').mp hr with rfl | ⟨ts, hts, hsuffix, rfl⟩
    · -- What matches nothing matches the last segment.
      have hlast := hslash _ (List.getLast_mem hss)
      refine ⟨[ss.getLast hss], ⟨ss.dropLast, List.dropLast_append_getLast hss⟩, ?_⟩
      refine (h _ (List.cons_ne_nil _ _) (List.forall_mem_singleton.mpr hlast)).mp ?_
      exact admits_uniteAll_of_nil hne hps hadmits hlast
    · obtain ⟨us, hus, rfl⟩ := List.suffix_map_iff.mp hsuffix
      have hus' : us ≠ [] := by simpa using hts
      exact ⟨us, hus, (h us hus' fun t ht => hslash t (hus.subset ht)).mp hadmits⟩
  · rintro ⟨ts, hsuffix, hpos⟩
    have hts : ts ≠ [] := by
      rintro rfl
      rw [ways_nil hne] at hpos
      exact Nat.lt_irrefl 0 hpos
    refine ⟨_, (mem_segmentRests hmap hmap').mpr (.inr ⟨ts.map String.toList, ?_, ?_, rfl⟩), ?_⟩
    · simpa using hts
    · exact hsuffix.map _
    · exact (h ts hts fun t ht => hslash t (hsuffix.subset ht)).mpr hpos

/-- A pattern within a segment matches up to the first slash. -/
lemma MatchBySegments.local (h : MatchBySegments ps) (hne : ps ≠ []) (hp : p.IsLocal) :
    MatchBySegments (p :: ps) := by
  intro ss hss hslash
  obtain ⟨s, ss, rfl⟩ := List.exists_cons_of_ne_nil hss
  obtain ⟨hs, hslash⟩ := List.forall_mem_cons.mp hslash
  rw [uniteAll_cons p hne, hp.followedBy, admits_append_iff hp, ways_local_cons hp.ne_deep]
  constructor
  · rintro ⟨a, b, ha, hb, heq⟩
    obtain ⟨c, r, hc, hr, rfl⟩ := (admits_cons_iff (by simp) (by simp)).mp hb
    obtain rfl : c = '/' := of_decide_eq_true hc
    have hrest : ss ≠ [] := by
      rintro rfl
      rw [List.map_singleton, Path.unite] at heq
      exact hs (heq ▸ List.mem_append_right a List.mem_cons_self)
    rw [List.map_cons, Path.unite_cons _ (by simpa using hrest)] at heq
    obtain ⟨rfl, rfl⟩ := Path.append_slash_inj hs (not_mem_of_admits hp ha) heq
    rw [if_pos ha]
    exact (h ss hrest hslash).mp hr
  · intro hpos
    split at hpos
    · rename_i hadmits
      have hrest : ss ≠ [] := by
        rintro rfl
        rw [ways_nil hne] at hpos
        exact Nat.lt_irrefl 0 hpos
      refine ⟨s.toList, _, hadmits, (admits_cons_iff (by simp) (by simp)).mpr
        ⟨'/', _, rfl, (h ss hrest hslash).mpr hpos, rfl⟩, ?_⟩
      exact Path.unite_cons _ (by simpa using hrest)
    · exact absurd hpos (Nat.lt_irrefl 0)

/-- A path is matched as a whole if its segments are matched in some way. -/
theorem matchBySegments (hps : ∀ p ∈ ps, p.IsSegment) (hne : ps ≠ []) : MatchBySegments ps := by
  induction ps with
  | nil => exact absurd rfl hne
  | cons p ps ih =>
    obtain ⟨hp, hrest⟩ := List.forall_mem_cons.mp hps
    by_cases hnil : ps = []
    · subst hnil
      rcases hp with rfl | ⟨hlocal, -⟩
      · exact matchBySegments_lastDeep
      · exact matchBySegments_last hlocal
    · rcases hp with rfl | ⟨hlocal, -⟩
      · exact (ih hrest hnil).deep hnil hrest
      · exact (ih hrest hnil).local hnil hlocal

/-- Patterns without a wildcard for segments match as many segments as they are. -/
lemma length_of_ways_pos (hps : [.deep] ∉ ps) (h : 0 < ways ps ss) : ss.length = ps.length := by
  induction ps generalizing ss with
  | nil =>
    cases ss with
    | nil => rfl
    | cons s ss => exact absurd h (Nat.lt_irrefl 0)
  | cons p ps ih =>
    rw [List.mem_cons, not_or] at hps
    cases ss with
    | nil =>
      rw [ways_local_nil (Ne.symm hps.1)] at h
      exact absurd h (Nat.lt_irrefl 0)
    | cons s ss =>
      rw [ways_local_cons (Ne.symm hps.1)] at h
      split at h
      · rw [List.length_cons, List.length_cons, ih hps.2 h]
      · exact absurd h (Nat.lt_irrefl 0)

/-- Behind one wildcard for segments the other patterns match the last segments, as many as they
are. -/
lemma ways_deep_le_one (hps : [.deep] ∉ ps) (hle : ∀ ss, ways ps ss ≤ 1) :
    ways ([.deep] :: ps) ss ≤ 1 := by
  by_cases hnil : ps = []
  · subst hnil
    rw [ways_lastDeep]
    split
    · exact Nat.zero_le 1
    · exact Nat.le_refl 1
  · induction ss with
    | nil =>
      rw [ways_nil (List.cons_ne_nil _ _)]
      exact Nat.zero_le 1
    | cons s ss ih =>
      rw [ways_deep_cons hnil]
      by_cases hfirst : 0 < ways ps (s :: ss)
      · have hrest : ways ([.deep] :: ps) ss = 0 := by
          refine Nat.eq_zero_of_not_pos fun hpos => ?_
          obtain ⟨ts, hts, hpos⟩ := (ways_deep_pos_iff hnil).mp hpos
          have hlong := length_of_ways_pos hps hfirst
          rw [← length_of_ways_pos hps hpos, List.length_cons] at hlong
          have hshort := hts.length_le
          omega
        rw [hrest]
        exact hle _
      · rw [Nat.eq_zero_of_not_pos hfirst, Nat.zero_add]
        exact ih

/-- Where there is one wildcard for segments at most, there is one way at most. -/
lemma ways_le_one (hps : ps.count [.deep] ≤ 1) : ways ps ss ≤ 1 := by
  induction ps generalizing ss with
  | nil =>
    rw [ways]
    split
    · exact Nat.le_refl 1
    · exact Nat.zero_le 1
  | cons p ps ih =>
    by_cases hdeep : p = [.deep]
    · subst hdeep
      rw [List.count_cons_self] at hps
      exact ways_deep_le_one (List.count_eq_zero.mp (by omega)) fun ss => ih (by omega)
    · rw [List.count_cons_of_ne hdeep] at hps
      cases ss with
      | nil =>
        rw [ways_local_nil hdeep]
        exact Nat.zero_le 1
      | cons s ss =>
        rw [ways_local_cons hdeep]
        split
        · exact ih hps
        · exact Nat.zero_le 1

end Ways

/-! ### Wildcards for segments side by side -/

section Collapse

variable {p q : Pattern} {ps qs : List Pattern} {ss ts : List String}

lemma collapse_cons_cons (p q : Pattern) (ps : List Pattern) :
    collapse (p :: q :: ps) =
      if p = [.deep] ∧ q = [.deep] then collapse (q :: ps) else p :: collapse (q :: ps) := by
  rw [collapse]
  simp only [Bool.and_eq_true, decide_eq_true_eq]

/-- The first pattern stays. -/
lemma collapse_cons (p : Pattern) (ps : List Pattern) : ∃ qs, collapse (p :: ps) = p :: qs := by
  induction ps generalizing p with
  | nil => exact ⟨[], rfl⟩
  | cons q ps ih =>
    rw [collapse_cons_cons]
    split
    · rename_i hdeep
      rw [hdeep.1, ← hdeep.2]
      exact ih q
    · exact ⟨_, rfl⟩

lemma collapse_eq_nil_iff : collapse ps = [] ↔ ps = [] := by
  cases ps with
  | nil => exact .rfl
  | cons p ps =>
    obtain ⟨qs, hqs⟩ := collapse_cons p ps
    simp [hqs]

/-- Collapsing adds no patterns. -/
lemma mem_of_mem_collapse (h : p ∈ collapse ps) : p ∈ ps := by
  induction ps with
  | nil => exact h
  | cons q ps ih =>
    cases ps with
    | nil => exact h
    | cons r ps =>
      rw [collapse_cons_cons] at h
      split at h
      · exact List.mem_cons_of_mem _ (ih h)
      · rcases List.mem_cons.mp h with rfl | h
        · exact List.mem_cons_self
        · exact List.mem_cons_of_mem _ (ih h)

/-- No two wildcards for segments are left side by side. -/
lemma collapse_isChain (ps : List Pattern) :
    (collapse ps).IsChain fun p q => p = [.deep] → q ≠ [.deep] := by
  induction ps with
  | nil => exact .nil
  | cons p ps ih =>
    cases ps with
    | nil => exact .singleton p
    | cons q ps =>
      rw [collapse_cons_cons]
      split
      · exact ih
      · rename_i hdeep
        obtain ⟨qs, hqs⟩ := collapse_cons q ps
        rw [hqs] at ih ⊢
        exact List.isChain_cons_cons.mpr ⟨fun hp hq => hdeep ⟨hp, hq⟩, ih⟩

/-- Patterns for one segment in front do not collapse. -/
lemma collapse_append (hqs : ∀ q ∈ qs, q ≠ [.deep]) (ps : List Pattern) :
    collapse (qs ++ ps) = qs ++ collapse ps := by
  induction qs with
  | nil => rfl
  | cons q qs ih =>
    obtain ⟨hq, hqs⟩ := List.forall_mem_cons.mp hqs
    rw [List.cons_append, List.cons_append, ← ih hqs]
    cases h : qs ++ ps with
    | nil => rfl
    | cons r rs => rw [collapse_cons_cons, if_neg fun hdeep => hq hdeep.1]

/-- Behind a wildcard for segments what matches a rest matches the whole. -/
lemma ways_deep_suffix (h : 0 < ways ([.deep] :: ps) ts) (hsuffix : ts <:+ ss) :
    0 < ways ([.deep] :: ps) ss := by
  by_cases hps : ps = []
  · subst hps
    rw [ways_lastDeep] at h ⊢
    cases ss with
    | nil =>
      obtain rfl := List.suffix_nil.mp hsuffix
      exact h
    | cons s ss => exact Nat.one_pos
  · rw [ways_deep_pos_iff hps] at h ⊢
    obtain ⟨us, hus, hpos⟩ := h
    exact ⟨us, hus.trans hsuffix, hpos⟩

/-- A pattern before others matches alike if these match alike. -/
lemma ways_cons_pos_congr (p : Pattern) (hps : ps ≠ []) (hqs : qs ≠ [])
    (h : ∀ ss, 0 < ways ps ss ↔ 0 < ways qs ss) :
    0 < ways (p :: ps) ss ↔ 0 < ways (p :: qs) ss := by
  by_cases hdeep : p = [.deep]
  · subst hdeep
    simp only [ways_deep_pos_iff hps, ways_deep_pos_iff hqs, h]
  · cases ss with
    | nil => rw [ways_local_nil hdeep, ways_local_nil hdeep]
    | cons s ss =>
      rw [ways_local_cons hdeep, ways_local_cons hdeep]
      split
      · exact h ss
      · exact .rfl

/-- Of wildcards for segments side by side one is as good as all of them. -/
theorem ways_collapse_pos_iff (ps : List Pattern) (ss : List String) :
    0 < ways (collapse ps) ss ↔ 0 < ways ps ss := by
  induction ps generalizing ss with
  | nil => exact .rfl
  | cons p ps ih =>
    cases ps with
    | nil => exact .rfl
    | cons q ps =>
      have hne := List.cons_ne_nil q ps
      rw [collapse_cons_cons]
      split
      · rename_i hdeep
        obtain ⟨rfl, rfl⟩ := hdeep
        rw [ih, ways_deep_pos_iff hne]
        constructor
        · intro h
          exact ⟨ss, List.suffix_rfl, h⟩
        · rintro ⟨ts, hsuffix, h⟩
          exact ways_deep_suffix h hsuffix
      · exact ways_cons_pos_congr p (mt collapse_eq_nil_iff.mp hne) hne ih

end Collapse

/-! ### Texts without wildcards -/

section Verbatim

variable {c : Char} {s t : List Char}

/-- The piece that a character is read as when it is escaped. -/
lemma admits_escaped (hc : c ≠ '/') (d : Char) :
    Wildcard.admits (if c ∈ ['?', '*', '[', ']'] then .within [.one c] else .char c) d = true ↔
      d = c := by
  split
  · simp only [Wildcard.admits, List.any_cons, List.any_nil, Bool.or_false, Choice.has,
      Bool.and_eq_true, decide_eq_true_eq]
    exact ⟨And.right, fun h => ⟨h ▸ hc, h⟩⟩
  · simp only [Wildcard.admits, decide_eq_true_eq]

/-- An escaped text matches itself and nothing else. -/
lemma admits_verbatim (hs : '/' ∉ s) : (verbatim s).admits t = true ↔ t = s := by
  induction s generalizing t with
  | nil => exact admits_nil_iff
  | cons c s ih =>
    rw [List.mem_cons, not_or] at hs
    rw [verbatim, List.map_cons, ← verbatim,
      admits_cons_iff (by split <;> simp) (by split <;> simp)]
    constructor
    · rintro ⟨d, b, hd, hb, rfl⟩
      rw [(admits_escaped (Ne.symm hs.1) d).mp hd, (ih hs.2).mp hb]
    · rintro rfl
      exact ⟨c, s, (admits_escaped (Ne.symm hs.1) c).mpr rfl, (ih hs.2).mpr rfl, rfl⟩

lemma verbatim_ne_deep (s : List Char) : verbatim s ≠ [.deep] := by
  intro h
  cases s with
  | nil => cases h
  | cons c s =>
    have hhead : (if c ∈ ['?', '*', '[', ']'] then Wildcard.within [.one c] else .char c) = .deep :=
      (List.cons.inj h).1
    split at hhead <;> cases hhead

end Verbatim

end SafeQuery.Glob
