import SafeQuery.File.Disk
import SafeQuery.Proofs.Dict

/-!
# Parts of file trees

The parts of a tree of directories and files are reached by names, `FileTree.at?`, and they can be
listed with these names, `FileTree.places`.
-/

namespace SafeQuery

/-- The segment leads from a directory to an entry of it. -/
structure Path.IsName (s : String) : Prop where
  counts : Path.isIdle s = false
  notUp : s ≠ ".."
  noSlash : '/' ∉ s.toList

lemma Path.IsName.ne_empty {s : String} (h : Path.IsName s) : s ≠ "" :=
  of_decide_eq_false (Bool.or_eq_false_iff.mp h.counts).1

lemma Path.IsName.ne_dot {s : String} (h : Path.IsName s) : s ≠ "." :=
  of_decide_eq_false (Bool.or_eq_false_iff.mp h.counts).2

/-- The text can be the name of an entry. -/
structure IsEntryName (s : String) : Prop extends Path.IsName s where
  noNul : '\x00' ∉ s.toList
  short : s.utf8ByteSize ≤ 255

instance (s : String) : Decidable (IsEntryName s) :=
  decidable_of_iff (Path.isIdle s = false ∧ s ≠ ".." ∧ '/' ∉ s.toList ∧ '\x00' ∉ s.toList ∧
      s.utf8ByteSize ≤ 255)
    ⟨fun ⟨hcounts, hup, hslash, hnul, hshort⟩ => ⟨⟨hcounts, hup, hslash⟩, hnul, hshort⟩,
      fun h => ⟨h.counts, h.notUp, h.noSlash, h.noNul, h.short⟩⟩

namespace FileTree

/-- The part of a tree that names lead to. -/
def at? : FileTree → List String → Option FileTree
  | t,           []            => some t
  | file _,      _ :: _        => none
  | directory d, name :: names => (d.get? name).bind fun t => t.at? names

/-- Every directory of the tree keeps entries with possible names in their order. -/
def IsProper (t : FileTree) : Prop :=
  ∀ names d, t.at? names = some (directory d) → d.Sorted ∧ ∀ e ∈ d.entries, IsEntryName e.1

mutual

/-- The parts of a tree with the names that lead to them, each before what lies in it. -/
def places : FileTree → List (List String × FileTree)
  | file bs        => [([], file bs)]
  | directory ⟨es⟩ => ([], directory ⟨es⟩) :: placesIn es

def placesIn : List (String × FileTree) → List (List String × FileTree)
  | []              => []
  | (name, t) :: es => t.places.map (fun e => (name :: e.1, e.2)) ++ placesIn es

end

/-- The parts inside a tree with the names that lead to them. -/
def inside : FileTree → List (List String × FileTree)
  | file _         => []
  | directory ⟨es⟩ => placesIn es

lemma places_eq (t : FileTree) : t.places = ([], t) :: t.inside := by
  cases t <;> rw [places, inside]

section Parts

variable {t u : FileTree} {d : Dict FileTree} {es : List (String × FileTree)} {name : String}
  {names : List String}

@[simp] lemma at?_nil (t : FileTree) : t.at? [] = some t := by
  cases t <;> rfl

lemma at?_cons (t : FileTree) (name : String) (names : List String) :
    t.at? (name :: names) = (t.at? [name]).bind fun u => u.at? names := by
  cases t with
  | file bs => rfl
  | directory d => cases h : d.get? name <;> simp [at?, h]

/-- Names lead to the part that the later ones lead to from that of the first ones. -/
lemma at?_append (t : FileTree) (names more : List String) :
    t.at? (names ++ more) = (t.at? names).bind fun u => u.at? more := by
  induction names generalizing t with
  | nil => rw [List.nil_append, at?_nil, Option.bind_some]
  | cons name names ih =>
    rw [List.cons_append, at?_cons, at?_cons t name names, Option.bind_assoc]
    exact congrArg _ (funext ih)

lemma at?_directory : (directory d).at? [name] = d.get? name := by
  cases h : d.get? name <;> simp [at?, h]

/-- The parts of a proper tree are proper. -/
lemma IsProper.at (h : t.IsProper) (hu : t.at? names = some u) : u.IsProper := by
  intro more d hd
  refine h (names ++ more) d ?_
  rw [at?_append, hu]
  exact hd

lemma IsProper.sorted (h : (directory d).IsProper) : d.Sorted := (h [] d (at?_nil _)).1

lemma IsProper.isEntryName {e : String × FileTree} (h : (directory d).IsProper)
    (he : e ∈ d.entries) : IsEntryName e.1 :=
  (h [] d (at?_nil _)).2 e he

lemma isProper_file (bs : List UInt8) : (file bs).IsProper := by
  intro names d h
  cases names <;> cases h

/-- A directory is proper if its entries are. -/
lemma isProper_directory (hsorted : d.Sorted)
    (hentries : ∀ e ∈ d.entries, IsEntryName e.1 ∧ e.2.IsProper) : (directory d).IsProper := by
  intro names d' h
  cases names with
  | nil =>
    cases h
    exact ⟨hsorted, fun e he => (hentries e he).1⟩
  | cons name names =>
    obtain ⟨t, ht, h⟩ := Option.bind_eq_some_iff.mp h
    exact (hentries _ ((Dict.mem_entries_iff hsorted).mpr ht)).2 names d' h

lemma isProper_singleton {t : FileTree} (hname : IsEntryName name) (ht : t.IsProper) :
    (directory ⟨[(name, t)]⟩).IsProper :=
  isProper_directory (List.pairwise_singleton _ _) (List.forall_mem_singleton.mpr ⟨hname, ht⟩)

/-- The names that lead to a part are names of entries. -/
lemma IsProper.isEntryName_of_at (h : t.IsProper) (hu : t.at? names = some u) :
    ∀ s ∈ names, IsEntryName s := by
  induction names generalizing t with
  | nil => exact fun s hs => absurd hs List.not_mem_nil
  | cons name names ih =>
    rw [at?_cons] at hu
    obtain ⟨v, hv, hu⟩ := Option.bind_eq_some_iff.mp hu
    refine List.forall_mem_cons.mpr ⟨?_, ih (h.at hv) hu⟩
    cases t with
    | file bs => cases hv
    | directory d =>
      rw [at?_directory] at hv
      exact h.isEntryName ((Dict.mem_entries_iff h.sorted).mpr hv)

/-- What lies in entries is one of them or lies inside one of them. -/
lemma mem_placesIn : (names, u) ∈ placesIn es ↔
    ∃ name t more, (name, t) ∈ es ∧ (more, u) ∈ t.places ∧ names = name :: more := by
  induction es with
  | nil => simp [placesIn]
  | cons e es ih =>
    obtain ⟨name, t⟩ := e
    rw [placesIn, List.mem_append, List.mem_map, ih]
    constructor
    · rintro (⟨⟨more, v⟩, hmore, heq⟩ | ⟨name', t', more, he, hmore, rfl⟩)
      · obtain ⟨rfl, rfl⟩ := Prod.mk.inj heq
        exact ⟨name, t, more, List.mem_cons_self, hmore, rfl⟩
      · exact ⟨name', t', more, List.mem_cons_of_mem _ he, hmore, rfl⟩
    · rintro ⟨name', t', more, he, hmore, rfl⟩
      rcases List.mem_cons.mp he with heq | he
      · obtain ⟨rfl, rfl⟩ := Prod.mk.inj heq
        exact .inl ⟨(more, u), hmore, rfl⟩
      · exact .inr ⟨name', t', more, he, hmore, rfl⟩

lemma ne_nil_of_mem_inside (h : (names, u) ∈ t.inside) : names ≠ [] := by
  cases t with
  | file bs => cases h
  | directory d =>
    obtain ⟨name, v, more, -, -, rfl⟩ := mem_placesIn.mp h
    exact List.cons_ne_nil name more

/-- The parts of a tree are what names lead to. -/
theorem mem_places (h : t.IsProper) : (names, u) ∈ t.places ↔ t.at? names = some u := by
  induction names generalizing t with
  | nil =>
    cases t with
    | file bs => simp [places, at?, eq_comm]
    | directory d =>
      rw [places, List.mem_cons, mem_placesIn]
      simp [at?, eq_comm]
  | cons name names ih =>
    cases t with
    | file bs => simp [places, at?]
    | directory d =>
      rw [places, List.mem_cons, mem_placesIn, at?_cons, at?_directory, Option.bind_eq_some_iff]
      constructor
      · rintro (hnil | ⟨name', t, more, he, hmore, heq⟩)
        · cases hnil
        · obtain ⟨rfl, rfl⟩ := List.cons.inj heq
          have ht := (Dict.mem_entries_iff h.sorted).mp he
          have hproper := h.at (at?_directory.trans ht)
          exact ⟨t, ht, (ih hproper).mp hmore⟩
      · rintro ⟨t, ht, hu⟩
        have hproper := h.at (at?_directory.trans ht)
        have he := (Dict.mem_entries_iff h.sorted).mpr ht
        exact .inr ⟨name, t, names, he, (ih hproper).mpr hu, rfl⟩

end Parts

mutual

/-- No two parts have the same names. -/
lemma places_pairwise (t : FileTree) (h : t.IsProper) :
    t.places.Pairwise fun a b => a.1 ≠ b.1 := by
  match t with
  | file bs =>
    rw [places]
    exact List.pairwise_singleton _ _
  | directory ⟨es⟩ =>
    have hes : ∀ e ∈ es, e.2.IsProper := fun e he =>
      h.at (at?_directory.trans ((Dict.mem_entries_iff h.sorted).mp he))
    rw [places, List.pairwise_cons]
    refine ⟨?_, placesIn_pairwise es h.sorted hes⟩
    rintro ⟨names, u⟩ he hnil
    obtain ⟨name, t, more, -, -, rfl⟩ := mem_placesIn.mp he
    cases hnil

/-- The parts of proper entries have different places. -/
lemma placesIn_pairwise (es : List (String × FileTree))
    (hsorted : es.Pairwise fun e e' => e.1 < e'.1) (hes : ∀ e ∈ es, e.2.IsProper) :
    (placesIn es).Pairwise fun a b => a.1 ≠ b.1 := by
  match es with
  | [] =>
    rw [placesIn]
    exact .nil
  | (name, t) :: es =>
    obtain ⟨hfirst, hsorted⟩ := List.pairwise_cons.mp hsorted
    obtain ⟨ht, hes⟩ := List.forall_mem_cons.mp hes
    rw [placesIn, List.pairwise_append, List.pairwise_map]
    refine ⟨?_, placesIn_pairwise es hsorted hes, ?_⟩
    · exact (places_pairwise t ht).imp fun hne heq => hne (List.cons.inj heq).2
    · rintro a ha ⟨names, u⟩ hb heq
      obtain ⟨e, -, rfl⟩ := List.mem_map.mp ha
      obtain ⟨name', t', more, he, -, rfl⟩ := mem_placesIn.mp hb
      have hlt : name < name' := hfirst (name', t') he
      exact String.lt_irrefl _ ((List.cons.inj heq).1 ▸ hlt)

end

end FileTree

end SafeQuery
