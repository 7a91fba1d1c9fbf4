/-!
# Dictionaries

Entries with text keys, kept in the order of their keys, which is the order of their code points.
`Dict.get?` is the view of a dictionary: `get?_insert` says what an insertion does to it, and
`insert_sorted` that the order is kept.
-/

namespace SafeQuery

/-- Entries with text keys. -/
structure Dict (α : Type) where
  entries : List (String × α)

namespace Dict

variable {α β : Type}

def empty : Dict α := ⟨[]⟩

instance : Inhabited (Dict α) := ⟨empty⟩

def get? (d : Dict α) (k : String) : Option α := (d.entries.find? fun e => e.1 = k).map (·.2)

def contains (d : Dict α) (k : String) : Bool := d.entries.any fun e => e.1 = k

def keys (d : Dict α) : List String := d.entries.map (·.1)

def size (d : Dict α) : Nat := d.entries.length

def isEmpty (d : Dict α) : Bool := d.entries.isEmpty

/-- Put an entry in front of the first one whose key is not smaller, in place of an equal one. -/
def insertEntry (k : String) (v : α) : List (String × α) → List (String × α)
  | []      => [(k, v)]
  | e :: es => if k < e.1 then (k, v) :: e :: es
               else if k = e.1 then (k, v) :: es
               else e :: insertEntry k v es

def insert (d : Dict α) (k : String) (v : α) : Dict α := ⟨insertEntry k v d.entries⟩

/-- Set the values of keys one after the other, so that the last value of a key stays. -/
def insertAll (d : Dict α) (es : List (String × α)) : Dict α :=
  es.foldl (fun d e => d.insert e.1 e.2) d

/-- The dictionary of a list of entries, where the last value of a key stays. -/
def ofList (es : List (String × α)) : Dict α := empty.insertAll es

/-- Every key is smaller than the keys after it. -/
def Sorted (d : Dict α) : Prop := d.entries.Pairwise fun e e' => e.1 < e'.1

@[simp] theorem get?_empty (k : String) : (empty : Dict α).get? k = none := rfl

theorem contains_eq_isSome (d : Dict α) (k : String) : d.contains k = (d.get? k).isSome := by
  rw [contains, get?, Option.isSome_map, List.isSome_find?]

theorem get?_insert (d : Dict α) (k k' : String) (v : α) :
    (d.insert k v).get? k' = if k' = k then some v else d.get? k' := by
  obtain ⟨es⟩ := d
  simp only [get?, insert]
  induction es with
  | nil =>
    by_cases h : k' = k
    · simp [insertEntry, h]
    · simp [insertEntry, h, Ne.symm h]
  | cons e es ih =>
    simp only [insertEntry]
    split
    · by_cases h : k' = k
      · simp [h]
      · simp [h, Ne.symm h]
    · split
      · rename_i he
        by_cases h : k' = k
        · simp [h]
        · have : ¬ e.1 = k' := fun h' => h (h' ▸ he.symm)
          simp [h, Ne.symm h, this]
      · rename_i he
        by_cases h' : e.1 = k'
        · have : ¬ k' = k := fun h => he (h ▸ h'.symm)
          simp [h', this]
        · simp only [List.find?_cons, h', decide_false]
          exact ih

theorem mem_insertEntry {k : String} {v : α} {es : List (String × α)} {e : String × α}
    (h : e ∈ insertEntry k v es) : e = (k, v) ∨ e ∈ es := by
  induction es with
  | nil => simp_all [insertEntry]
  | cons e' es ih =>
    simp only [insertEntry] at h
    split at h
    · simp_all
    · split at h
      · rcases List.mem_cons.mp h with h | h
        · exact Or.inl h
        · exact Or.inr (List.mem_cons_of_mem _ h)
      · rcases List.mem_cons.mp h with h | h
        · exact Or.inr (h ▸ List.mem_cons_self)
        · rcases ih h with h | h
          · exact Or.inl h
          · exact Or.inr (List.mem_cons_of_mem _ h)

/-- Insertion keeps the keys in order. -/
theorem insert_sorted {d : Dict α} (h : d.Sorted) (k : String) (v : α) : (d.insert k v).Sorted := by
  obtain ⟨es⟩ := d
  simp only [Sorted, insert] at h ⊢
  induction es with
  | nil => simp [insertEntry]
  | cons e es ih =>
    obtain ⟨he, hes⟩ := List.pairwise_cons.mp h
    simp only [insertEntry]
    split
    · rename_i hk
      refine List.pairwise_cons.mpr ⟨?_, h⟩
      intro e' he'
      rcases List.mem_cons.mp he' with rfl | he'
      · exact hk
      · exact String.lt_trans hk (he e' he')
    · split
      · rename_i hk
        subst hk
        exact List.pairwise_cons.mpr ⟨he, hes⟩
      · rename_i hk hne
        refine List.pairwise_cons.mpr ⟨?_, ih hes⟩
        intro e' he'
        rcases mem_insertEntry he' with rfl | he'
        · have hle : e.1 ≤ k := String.not_lt.mp hk
          have : e.1 ≠ k := fun h => hne h.symm
          simp only
          rcases String.le_total k e.1 with h1 | h1
          · exact absurd (String.le_antisymm h1 hle) hne
          · exact Decidable.byContradiction fun h2 =>
              this (String.le_antisymm hle (String.not_lt.mp h2))
        · exact he e' he'

end Dict

end SafeQuery
