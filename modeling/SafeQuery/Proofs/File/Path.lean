import Mathlib.Algebra.GroupWithZero.Nat
import Mathlib.Data.List.Basic
import Mathlib.Data.List.TakeWhile
import SafeQuery.File.Path

/-!
# Segments of paths

A path is the same as its segments: `segments_ofSegments` and `ofSegments_segments`. A path behind
another one adds its segments to those of the other one (`segments_join`) and its components too
(`components_join`), and it is what comes back as the path relative to the other one:
`relative_eq_some`.
-/

namespace SafeQuery.Path

section Split

variable {s t : List Char} {ss : List (List Char)}

lemma split_cons_slash (cs : List Char) : split ('/' :: cs) = [] :: split cs := by
  rw [split, if_pos rfl]

/-- A slash ends a segment. -/
lemma split_append_slash (s t : List Char) : split (s ++ '/' :: t) = split s ++ split t := by
  induction s with
  | nil => exact split_cons_slash t
  | cons c s ih =>
    rw [List.cons_append, split, split]
    split
    · rw [ih, List.cons_append]
    · obtain ⟨u, us, hu⟩ := List.exists_cons_of_ne_nil (split_ne_nil s)
      simp only [ih, hu, List.cons_append]

lemma split_append_of_not_mem (hs : '/' ∉ s) {u : List Char} (ht : split t = u :: ss) :
    split (s ++ t) = (s ++ u) :: ss := by
  induction s with
  | nil => exact ht
  | cons c s ih =>
    rw [List.mem_cons, not_or] at hs
    simp only [List.cons_append, split, if_neg (Ne.symm hs.1), ih hs.2]

lemma split_of_not_mem (hs : '/' ∉ s) : split s = [s] := by
  induction s with
  | nil => rfl
  | cons c s ih =>
    rw [List.mem_cons, not_or] at hs
    simp only [split, if_neg (Ne.symm hs.1), ih hs.2]

/-- The characters of the segments are characters of the text. -/
lemma mem_of_mem_split {c : Char} (h : s ∈ split t) (hc : c ∈ s) : c ∈ t := by
  induction t generalizing s with
  | nil =>
    rw [split, List.mem_singleton] at h
    exact h ▸ hc
  | cons d t ih =>
    obtain ⟨u, us, hu⟩ := List.exists_cons_of_ne_nil (split_ne_nil t)
    rw [split] at h
    split at h
    · rcases List.mem_cons.mp h with rfl | h
      · cases hc
      · exact List.mem_cons_of_mem _ (ih h hc)
    · simp only [hu] at h
      rcases List.mem_cons.mp h with rfl | h
      · rcases List.mem_cons.mp hc with rfl | hc
        · exact List.mem_cons_self
        · exact List.mem_cons_of_mem _ (ih (hu ▸ List.mem_cons_self) hc)
      · exact List.mem_cons_of_mem _ (ih (hu ▸ List.mem_cons_of_mem _ h) hc)

/-- Every character but a slash is in some segment. -/
lemma exists_mem_split {c : Char} (hc : c ∈ t) (hne : c ≠ '/') : ∃ s ∈ split t, c ∈ s := by
  induction t with
  | nil => cases hc
  | cons d t ih =>
    obtain ⟨u, us, hu⟩ := List.exists_cons_of_ne_nil (split_ne_nil t)
    rw [split]
    split
    · rename_i hd
      rcases List.mem_cons.mp hc with rfl | hc
      · exact absurd hd hne
      · obtain ⟨s, hs, hcs⟩ := ih hc
        exact ⟨s, List.mem_cons_of_mem _ hs, hcs⟩
    · simp only [hu]
      rcases List.mem_cons.mp hc with rfl | hc
      · exact ⟨c :: u, List.mem_cons_self, List.mem_cons_self⟩
      · obtain ⟨s, hs, hcs⟩ := ih hc
        rcases List.mem_cons.mp (hu ▸ hs) with rfl | hs
        · exact ⟨d :: s, List.mem_cons_self, List.mem_cons_of_mem _ hcs⟩
        · exact ⟨s, List.mem_cons_of_mem _ hs, hcs⟩

/-- No segment has a slash. -/
lemma not_mem_of_mem_split (h : s ∈ split t) : '/' ∉ s := by
  induction t generalizing s with
  | nil =>
    rw [split, List.mem_singleton] at h
    subst h
    exact List.not_mem_nil
  | cons c t ih =>
    obtain ⟨u, us, hu⟩ := List.exists_cons_of_ne_nil (split_ne_nil t)
    rw [split] at h
    split at h
    · rcases List.mem_cons.mp h with rfl | h
      · exact List.not_mem_nil
      · exact ih h
    · rename_i hc
      simp only [hu] at h
      rcases List.mem_cons.mp h with rfl | h
      · rw [List.mem_cons, not_or]
        exact ⟨Ne.symm hc, ih (hu ▸ List.mem_cons_self)⟩
      · exact ih (hu ▸ List.mem_cons_of_mem _ h)

/-- The first slash of a text is at one place. -/
lemma append_slash_inj {r u : List Char} (hs : '/' ∉ s) (hr : '/' ∉ r)
    (h : s ++ '/' :: t = r ++ '/' :: u) : s = r ∧ t = u := by
  have hsplit := congrArg split h
  rw [split_append_slash, split_append_slash, split_of_not_mem hs, split_of_not_mem hr] at hsplit
  obtain ⟨hfirst, hrest⟩ := List.cons.inj hsplit
  refine ⟨hfirst, ?_⟩
  calc t = unite (split t) := (unite_split t).symm
    _ = unite (split u) := congrArg unite hrest
    _ = u := unite_split u

lemma unite_cons (s : List Char) (hne : ss ≠ []) : unite (s :: ss) = s ++ '/' :: unite ss := by
  obtain ⟨t, ts, rfl⟩ := List.exists_cons_of_ne_nil hne
  rfl

/-- Segments that have been put together are found again. -/
lemma split_unite (hne : ss ≠ []) (h : ∀ s ∈ ss, '/' ∉ s) : split (unite ss) = ss := by
  induction ss with
  | nil => exact absurd rfl hne
  | cons s ss ih =>
    rcases ss.eq_nil_or_concat with rfl | ⟨_, _, hcons⟩
    · exact split_of_not_mem (h s List.mem_cons_self)
    · have hss : ss ≠ [] := by simp [hcons]
      rw [unite_cons s hss, split_append_slash, split_of_not_mem (h s List.mem_cons_self),
        ih hss fun s hs => h s (List.mem_cons_of_mem _ hs)]
      rfl

end Split

/-! ### Segments -/

section Segments

variable {p q s : String} {ss : List String}

lemma segments_ne_nil (p : String) : segments p ≠ [] := by
  simp [segments, split_ne_nil]

lemma mem_of_mem_segments {c : Char} (h : s ∈ segments p) (hc : c ∈ s.toList) : c ∈ p.toList := by
  obtain ⟨t, ht, rfl⟩ := List.mem_map.mp h
  rw [String.toList_ofList] at hc
  exact mem_of_mem_split ht hc

lemma exists_mem_segments {c : Char} (hc : c ∈ p.toList) (hne : c ≠ '/') :
    ∃ s ∈ segments p, c ∈ s.toList := by
  obtain ⟨s, hs, hcs⟩ := exists_mem_split hc hne
  exact ⟨_, List.mem_map_of_mem hs, by rwa [String.toList_ofList]⟩

lemma not_mem_of_mem_segments (h : s ∈ segments p) : '/' ∉ s.toList := by
  obtain ⟨t, ht, rfl⟩ := List.mem_map.mp h
  rw [String.toList_ofList]
  exact not_mem_of_mem_split ht

@[simp] lemma ofSegments_segments (p : String) : ofSegments (segments p) = p := by
  rw [ofSegments, segments, List.map_map, List.map_congr_left (g := id) (fun s _ => by simp),
    List.map_id, unite_split, String.ofList_toList]

/-- Segments without slashes are found again in the path that they make. -/
lemma segments_ofSegments (hne : ss ≠ []) (h : ∀ s ∈ ss, '/' ∉ s.toList) :
    segments (ofSegments ss) = ss := by
  have hne' : ss.map String.toList ≠ [] := by simpa using hne
  have h' : ∀ s ∈ ss.map String.toList, '/' ∉ s := by
    intro s hs
    obtain ⟨t, ht, rfl⟩ := List.mem_map.mp hs
    exact h t ht
  rw [segments, ofSegments, String.toList_ofList, split_unite hne' h', List.map_map,
    List.map_congr_left (g := id) (fun s _ => by simp), List.map_id]

lemma ofSegments_cons (s : String) (hne : ss ≠ []) :
    ofSegments (s :: ss) = s ++ "/" ++ ofSegments ss := by
  have hne' : ss.map String.toList ≠ [] := by simpa using hne
  apply String.toList_injective
  simp [ofSegments, unite_cons s.toList hne']

/-- The number of bytes of segments with a slash behind each. -/
def extent (ss : List String) : Nat := (ss.map fun s => s.utf8ByteSize + 1).sum

lemma extent_append (ss ts : List String) : extent (ss ++ ts) = extent ss + extent ts := by
  simp [extent]

lemma extent_mono {ts : List String} (h : ss <+: ts) : extent ss ≤ extent ts := by
  obtain ⟨us, rfl⟩ := h
  rw [extent_append]
  exact Nat.le_add_right _ _

/-- The segments of a path take as much room as the path and one slash. -/
lemma extent_segments (p : String) : extent (segments p) = p.utf8ByteSize + 1 := by
  have hextent : ∀ ss : List String, ss ≠ [] → extent ss = (ofSegments ss).utf8ByteSize + 1 := by
    intro ss hne
    induction ss with
    | nil => exact absurd rfl hne
    | cons s ss ih =>
      by_cases hss : ss = []
      · subst hss
        simp [extent, ofSegments, unite]
      · rw [ofSegments_cons s hss, String.utf8ByteSize_append, String.utf8ByteSize_append]
        rw [extent, List.map_cons, List.sum_cons, ← extent, ih hss]
        have hslash : "/".utf8ByteSize = 1 := by decide
        omega
  rw [hextent _ (segments_ne_nil p), ofSegments_segments]

lemma segments_of_not_mem (h : '/' ∉ s.toList) : segments s = [s] := by
  rw [segments, split_of_not_mem h, List.map_singleton, String.ofList_toList]

/-- A slash between two paths puts their segments side by side. -/
lemma segments_append_slash (p q : String) :
    segments (p ++ "/" ++ q) = segments p ++ segments q := by
  simp only [segments, String.toList_append, List.append_assoc]
  exact (congrArg _ (split_append_slash p.toList q.toList)).trans (List.map_append ..)

end Segments

/-! ### Paths below paths -/

section Join

variable {p q s : String} {ss : List String}

/-- The segments of a path that stay when another one is put behind it. -/
def front (p : String) : List String :=
  if p.toList.getLast? = some '/' then (segments p).dropLast else segments p

lemma segments_of_endsInSlash (h : p.toList.getLast? = some '/') :
    ∃ p', p = p' ++ "/" ∧ segments p = segments p' ++ [""] := by
  obtain ⟨cs, hcs⟩ := List.getLast?_eq_some_iff.mp h
  refine ⟨String.ofList cs, ?_, ?_⟩
  · apply String.toList_injective
    simp [hcs]
  · simp only [segments, hcs, String.toList_ofList]
    exact (congrArg _ (split_append_slash cs [])).trans (List.map_append ..)

/-- A segment that is not counted is all that is lost. -/
lemma segments_eq_front (p : String) :
    segments p = front p ∨ segments p = front p ++ [""] := by
  rw [front]
  split
  · rename_i hlast
    obtain ⟨p', -, hsegments⟩ := segments_of_endsInSlash hlast
    exact .inr (by rw [hsegments, List.dropLast_concat])
  · exact .inl rfl

lemma front_of_getLast (h : (segments p).getLast? ≠ some "") : front p = segments p := by
  rcases segments_eq_front p with hfront | hfront
  · exact hfront.symm
  · rw [hfront, List.getLast?_concat] at h
    exact absurd rfl h

/-- What stays of a path is the beginning of its segments. -/
lemma front_isPrefix (p : String) : front p <+: segments p := by
  rcases segments_eq_front p with h | h
  · exact h ▸ List.prefix_rfl
  · exact h ▸ List.prefix_append _ _

lemma front_ne_nil (p : String) : front p ≠ [] := by
  rw [front]
  split
  · rename_i hlast
    obtain ⟨p', -, hsegments⟩ := segments_of_endsInSlash hlast
    rw [hsegments, List.dropLast_concat]
    exact segments_ne_nil p'
  · exact segments_ne_nil p

/-- The segments of a joined path are those that stay and those of the path behind. -/
lemma segments_join (hp : p ≠ "") (hq : isAbsolute q = false) :
    segments (join p q) = front p ++ segments q := by
  rw [join, if_neg (by rw [hq]; exact Bool.false_ne_true), front]
  by_cases hlast : p.toList.getLast? = some '/'
  · obtain ⟨p', hp', hsegments⟩ := segments_of_endsInSlash hlast
    rw [if_pos (by simp [hlast]), if_pos hlast, hsegments, List.dropLast_concat, hp',
      segments_append_slash]
  · rw [if_neg (by simp [hp, hlast]), if_neg hlast, segments_append_slash]

lemma isAbsolute_iff : isAbsolute p = true ↔ ∃ cs, p.toList = '/' :: cs := by
  rw [isAbsolute, decide_eq_true_eq, List.head?_eq_some_iff]

/-- A path begins with an empty segment if it is empty or begins at the root. -/
lemma head_segments_iff (p : String) :
    (segments p).head? = some "" ↔ p = "" ∨ isAbsolute p = true := by
  rw [isAbsolute_iff, segments, ← String.toList_inj]
  cases p.toList with
  | nil => simp [split]
  | cons c cs =>
    obtain ⟨s, ss, hs⟩ := List.exists_cons_of_ne_nil (split_ne_nil cs)
    by_cases hc : c = '/'
    · subst hc
      simp [split_cons_slash]
    · simp [split, hc, hs]

lemma not_isAbsolute_of_head (h : (segments p).head? = some ".") :
    ¬ isAbsolute p = true := by
  intro habsolute
  have hempty := (head_segments_iff p).mpr (.inr habsolute)
  rw [h] at hempty
  exact absurd (Option.some.inj hempty) (by decide)

lemma isAbsolute_of_not_mem (h : '/' ∉ s.toList) : isAbsolute s = false := by
  rw [isAbsolute, decide_eq_false_iff_not]
  intro hhead
  exact h (List.mem_of_head? hhead)

lemma isAbsolute_append (hp : p ≠ "") : isAbsolute (p ++ q) = isAbsolute p := by
  have hne : p.toList ≠ [] := by simpa using hp
  rw [isAbsolute, isAbsolute, String.toList_append, List.head?_append_of_ne_nil _ hne]

/-- A joined path begins at the root if the first one does. -/
lemma isAbsolute_join (hp : p ≠ "") (hq : isAbsolute q = false) :
    isAbsolute (join p q) = isAbsolute p := by
  rw [join, if_neg (by rw [hq]; exact Bool.false_ne_true)]
  split
  · exact isAbsolute_append hp
  · rw [String.append_assoc, isAbsolute_append hp]

lemma join_ne_empty (hp : p ≠ "") (hq : isAbsolute q = false) : join p q ≠ "" := by
  rw [join, if_neg (by rw [hq]; exact Bool.false_ne_true)]
  split <;> simp [hp]

/-- What neither path has is not in them together. -/
lemma not_mem_join {c : Char} (hc : c ≠ '/') (hp : c ∉ p.toList) (hq : c ∉ q.toList) :
    c ∉ (join p q).toList := by
  have hslash : c ∉ "/".toList := by simpa using hc
  rw [join]
  split
  · exact hq
  · split
    · rw [String.toList_append, List.mem_append, not_or]
      exact ⟨hp, hq⟩
    · rw [String.toList_append, String.toList_append, List.mem_append, List.mem_append, not_or,
        not_or]
      exact ⟨⟨hp, hslash⟩, hq⟩

/-- The components of segments, where those that are idle are left out. -/
def counted (ss : List String) : List Component :=
  (ss.filter fun s => !isIdle s).map .ofSegment

lemma here_not_mem_counted (ss : List String) : Component.here ∉ counted ss := by
  intro hmem
  obtain ⟨s, -, hs⟩ := List.mem_map.mp hmem
  rw [Component.ofSegment] at hs
  split at hs <;> cases hs

/-- What a path begins with besides its segments. -/
def start (p : String) : List Component :=
  if isAbsolute p then [.root] else if (segments p).head? = some "." then [.here] else []

lemma components_eq (p : String) : components p = start p ++ counted (segments p) := rfl

lemma counted_append (ss ts : List String) : counted (ss ++ ts) = counted ss ++ counted ts := by
  simp [counted]

/-- What does not stay of a path does not count. -/
lemma counted_front (p : String) : counted (front p) = counted (segments p) := by
  rcases segments_eq_front p with h | h
  · rw [h]
  · rw [h, counted_append]
    simp [counted, isIdle]

lemma start_join (hp : p ≠ "") (hq : isAbsolute q = false) : start (join p q) = start p := by
  have hhead : (segments (join p q)).head? = (segments p).head? := by
    rw [segments_join hp hq, List.head?_append_of_ne_nil _ (front_ne_nil p)]
    rcases segments_eq_front p with h | h
    · rw [h]
    · rw [h, List.head?_append_of_ne_nil _ (front_ne_nil p)]
  rw [start, start, hhead, isAbsolute_join hp hq]

/-- A path of one segment that counts begins with nothing else. -/
lemma start_of_counts (hs : isIdle s = false) (hslash : '/' ∉ s.toList) :
    start s = [] := by
  have hdot : s ≠ "." := of_decide_eq_false (Bool.or_eq_false_iff.mp hs).2
  rw [start, isAbsolute_of_not_mem hslash, segments_of_not_mem hslash]
  simp [hdot]

/-- A path behind another one adds its components. -/
lemma components_join (hp : p ≠ "") (hq : isAbsolute q = false) :
    components (join p q) = components p ++ counted (segments q) := by
  rw [components_eq, components_eq, start_join hp hq, segments_join hp hq, counted_append,
    counted_front, List.append_assoc]

/-- The segments that stay when the name of an entry is put behind a path. -/
def base (p : String) : List String := if components p = [.here] then [] else front p

/-- The path is not empty, and if it is the working directory, it says so with one point. -/
structure IsRooted (p : String) : Prop where
  ne_empty : p ≠ ""
  here : p = "." ∨ components p ≠ [.here]

lemma components_here : components "." = [.here] := by decide

lemma base_here : base "." = [] := if_pos components_here

lemma base_of_ne (h : components p ≠ [.here]) : base p = front p := if_neg h

lemma counted_base (h : components p ≠ [.here]) : counted (base p) = counted (segments p) := by
  rw [base_of_ne h, counted_front]

end Join

/-! ### Slashes at the end -/

section Untrailed

/-- The path without the slashes at its end. -/
def untrailed (p : String) : String :=
  String.ofList (p.toList.reverse.dropWhile (· = '/')).reverse

lemma dropWhile_slash_of_getLast {cs : List Char} (h : cs.getLast? ≠ some '/') :
    cs.reverse.dropWhile (· = '/') = cs.reverse := by
  cases hcs : cs.reverse with
  | nil => rfl
  | cons c r =>
    refine List.dropWhile_cons_of_neg ?_
    have hlast : cs.getLast? = some c := by rw [← List.head?_reverse, hcs, List.head?_cons]
    rw [hlast] at h
    simpa using h

/-- A path that ends in a slash is one that does not, with slashes behind it. -/
lemma exists_untrailed (p : String) : ∃ k, p.toList = (untrailed p).toList ++ List.replicate k '/' ∧
    (untrailed p).toList.getLast? ≠ some '/' := by
  have hsplit := (List.takeWhile_append_dropWhile (p := (· = '/')) (l := p.toList.reverse)).symm
  have hslashes : p.toList.reverse.takeWhile (· = '/') =
      List.replicate (p.toList.reverse.takeWhile (· = '/')).length '/' := by
    refine List.eq_replicate_iff.mpr ⟨rfl, ?_⟩
    intro c hc
    simpa using List.mem_takeWhile_imp hc
  refine ⟨(p.toList.reverse.takeWhile (· = '/')).length, ?_, ?_⟩
  · have := congrArg List.reverse hsplit
    rw [List.reverse_reverse, List.reverse_append] at this
    rw [untrailed, String.toList_ofList, ← List.reverse_replicate, ← hslashes]
    exact this
  · rw [untrailed, String.toList_ofList, List.getLast?_reverse]
    intro hhead
    have := List.head?_dropWhile_not (· = '/') p.toList.reverse
    rw [hhead] at this
    simp at this

/-- The slashes at the end of a path are segments that do not count. -/
lemma segments_eq_untrailed (p : String) :
    ∃ k, p.toList = (untrailed p).toList ++ List.replicate k '/' ∧
      (untrailed p).toList.getLast? ≠ some '/' ∧
        segments p = segments (untrailed p) ++ List.replicate k "" := by
  obtain ⟨k, hk, hlast⟩ := exists_untrailed p
  have hsplit : ∀ (cs : List Char) (k : Nat), split (cs ++ List.replicate k '/') =
      split cs ++ List.replicate k [] := by
    intro cs k
    induction k with
    | zero => simp
    | succ k ih =>
      rw [List.replicate_succ', ← List.append_assoc, split_append_slash, ih,
        List.replicate_succ', List.append_assoc]
      rfl
  refine ⟨k, hk, hlast, ?_⟩
  rw [segments, hk, hsplit]
  simp [segments]

lemma utf8ByteSize_untrailed_le (p : String) :
    (untrailed p).utf8ByteSize ≤ p.utf8ByteSize := by
  obtain ⟨k, -, -, hk⟩ := segments_eq_untrailed p
  have hbelow : segments (untrailed p) <+: segments p := by
    rw [hk]
    exact List.prefix_append _ _
  have hextent := extent_mono hbelow
  rw [extent_segments, extent_segments] at hextent
  omega

/-- Without the slashes at its end a path keeps what stays when another one is put behind it. -/
lemma segments_untrailed_isPrefix (p : String) :
    segments (untrailed p) <+: front p := by
  obtain ⟨k, hp, hlast, hk⟩ := segments_eq_untrailed p
  rw [front]
  split
  · rename_i hslash
    cases k with
    | zero =>
      rw [hp, List.replicate_zero, List.append_nil] at hslash
      exact absurd hslash hlast
    | succ k =>
      rw [hk, List.replicate_succ', ← List.append_assoc, List.dropLast_concat]
      exact List.prefix_append _ _
  · rw [hk]
    exact List.prefix_append _ _

/-- Slashes at the end do not count. -/
lemma counted_segments_untrailed (p : String) :
    counted (segments (untrailed p)) = counted (segments p) := by
  obtain ⟨k, -, -, hk⟩ := segments_eq_untrailed p
  have hnil : counted (List.replicate k "") = [] := by
    rw [counted, List.map_eq_nil_iff, List.filter_eq_nil_iff]
    intro s hs
    rw [List.eq_of_mem_replicate hs]
    decide
  rw [hk, counted_append, hnil, List.append_nil]

end Untrailed

/-! ### Paths relative to others -/

section Relative

variable {base p : String} {as ss : List String}

lemma trimmed_idle {s : String} (hs : isIdle s = true) (ss : List String) :
    trimmed (s :: ss) = trimmed ss := by
  rw [trimmed, List.dropWhile_cons_of_pos hs, trimmed]

/-- Dropping the segments of a path that count leaves what follows them, but for idle segments. -/
lemma trimmed_dropSegments (as ss : List String) :
    trimmed (dropSegments (as.countP fun s => !isIdle s) (as ++ ss)) = trimmed ss := by
  induction as with
  | nil => rfl
  | cons a as ih =>
    by_cases ha : isIdle a = true
    · rw [List.countP_cons_of_neg (by simp [ha]), List.cons_append]
      rcases hn : as.countP fun s => !isIdle s with _ | n
      · rw [hn, dropSegments] at ih
        rw [dropSegments, trimmed_idle ha, ih]
      · rw [hn, dropSegments] at ih
        rw [dropSegments, List.dropWhile_cons_of_pos ha, ih]
    · rw [List.countP_cons_of_pos (by simp [ha]), List.cons_append, dropSegments,
        List.dropWhile_cons_of_neg ha, List.tail_cons, ih]

/-- Nothing is trimmed of segments that all count. -/
lemma trimmed_of_counts (h : ∀ s ∈ ss, isIdle s = false) : trimmed ss = ss := by
  have hdrop : ∀ ts : List String, (∀ s ∈ ts, isIdle s = false) → ts.dropWhile isIdle = ts := by
    intro ts hts
    cases ts with
    | nil => rfl
    | cons t ts =>
      exact List.dropWhile_cons_of_neg (by simp [hts t List.mem_cons_self])
  rw [trimmed, hdrop ss h, hdrop ss.reverse fun s hs => h s (List.mem_reverse.mp hs),
    List.reverse_reverse]

lemma countP_counted (ss : List String) :
    (counted ss).countP (fun b => b != .root && b != .here) = ss.countP fun s => !isIdle s := by
  have hall : ∀ b ∈ counted ss, (b != .root && b != .here) = true := by
    intro b hb
    obtain ⟨s, -, rfl⟩ := List.mem_map.mp hb
    rw [Component.ofSegment]
    split <;> rfl
  rw [List.countP_eq_length.mpr hall, counted, List.length_map, List.countP_eq_length_filter]

lemma countP_start (p : String) : (start p).countP (fun b => b != .root && b != .here) = 0 := by
  rw [start]
  split
  · rfl
  · split <;> rfl

/-- Of a path that begins like another one, what counts behind it is its relative path. -/
theorem relative_eq_some (hne : components base ≠ []) (hstart : start p = start base)
    (hsegments : segments p = as ++ ss) (has : counted as = counted (segments base))
    (hss : ∀ s ∈ ss, isIdle s = false) : relative? base p = some (ofSegments ss) := by
  have hp : components p = components base ++ counted ss := by
    rw [components_eq, components_eq, hstart, hsegments, counted_append, has, List.append_assoc]
  have hcount : (components base).countP (fun b => b != .root && b != .here) =
      as.countP fun s => !isIdle s := by
    rw [components_eq, List.countP_append, countP_start, Nat.zero_add, ← has, countP_counted]
  rw [relative?]
  simp only [hcount, List.isEmpty_eq_false_iff.mpr hne, Bool.false_eq_true, if_false]
  rw [if_pos (by rw [hp, List.isPrefixOf_iff_prefix]; exact List.prefix_append _ _), hsegments,
    trimmed_dropSegments, trimmed_of_counts hss]

end Relative

end SafeQuery.Path
