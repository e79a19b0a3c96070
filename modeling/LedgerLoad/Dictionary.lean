/-! # Dictionaries

A dictionary holds values under texts, in ascending order of the texts. The order is part of the
type, so that two dictionaries with the same values under the same keys are equal and are listed
alike. Main statements: `find?_insert`, what an insertion does to every look-up, and
`ofList_entries`, a dictionary is made again from its list. -/

namespace LedgerLoad

/-- Values under texts, listed in ascending order of the texts. -/
structure Dictionary (α : Type) where
  entries : List (String × α)
  ascending : entries.Pairwise fun a b => a.1 < b.1

namespace Dictionary

variable {α : Type}

/-! ### Ordered lists -/

/-- Puts a value under a key, instead of the value that stood there. -/
def place (key : String) (value : α) : List (String × α) → List (String × α)
  | [] => [(key, value)]
  | (k, v) :: rest =>
    if key < k then (key, value) :: (k, v) :: rest
    else if k < key then (k, v) :: place key value rest
    else (key, value) :: rest

theorem mem_place {key : String} {value : α} {l : List (String × α)} {e : String × α}
    (h : e ∈ place key value l) : e = (key, value) ∨ e ∈ l := by
  induction l with
  | nil => exact Or.inl (by simpa [place] using h)
  | cons head rest ih =>
    obtain ⟨k, v⟩ := head
    unfold place at h
    split at h
    · rcases List.mem_cons.mp h with h | h
      · exact Or.inl h
      · exact Or.inr h
    · split at h
      · rcases List.mem_cons.mp h with h | h
        · exact Or.inr (h ▸ List.mem_cons_self)
        · rcases ih h with h | h
          · exact Or.inl h
          · exact Or.inr (List.mem_cons_of_mem _ h)
      · rcases List.mem_cons.mp h with h | h
        · exact Or.inl h
        · exact Or.inr (List.mem_cons_of_mem _ h)

/-- Neither of two texts comes first only if they are the same. -/
theorem eq_of_not_lt {a b : String} (h : ¬ a < b) (h' : ¬ b < a) : a = b :=
  String.le_antisymm (String.not_lt.mp h') (String.not_lt.mp h)

theorem pairwise_place (key : String) (value : α) {l : List (String × α)}
    (h : l.Pairwise fun a b => a.1 < b.1) :
    (place key value l).Pairwise fun a b => a.1 < b.1 := by
  induction l with
  | nil => exact List.pairwise_singleton _ _
  | cons head rest ih =>
    obtain ⟨k, v⟩ := head
    obtain ⟨hhead, hrest⟩ := List.pairwise_cons.mp h
    unfold place
    split
    · rename_i hlt
      refine List.pairwise_cons.mpr ⟨fun e he => ?_, h⟩
      rcases List.mem_cons.mp he with rfl | he
      · exact hlt
      · exact String.lt_trans hlt (hhead e he)
    · split
      · rename_i hlt
        refine List.pairwise_cons.mpr ⟨fun e he => ?_, ih hrest⟩
        rcases mem_place he with rfl | he
        · exact hlt
        · exact hhead e he
      · rename_i h₁ h₂
        obtain rfl := eq_of_not_lt h₁ h₂
        exact List.pairwise_cons.mpr ⟨hhead, hrest⟩

/-! ### Operations -/

/-- The dictionary without entries. -/
def empty : Dictionary α := ⟨[], List.Pairwise.nil⟩

instance : Inhabited (Dictionary α) := ⟨empty⟩

/-- Puts a value under a key; a later value replaces an earlier one. -/
def insert (d : Dictionary α) (key : String) (value : α) : Dictionary α :=
  ⟨place key value d.entries, pairwise_place key value d.ascending⟩

/-- Inserts entries one after another. -/
def ofList (entries : List (String × α)) : Dictionary α :=
  entries.foldl (fun d e => d.insert e.1 e.2) empty

/-- The value under a key. -/
def find? (d : Dictionary α) (key : String) : Option α :=
  (d.entries.find? fun e => e.1 == key).map Prod.snd

/-- Whether there is a value under a key. -/
def contains (d : Dictionary α) (key : String) : Bool := (d.find? key).isSome

/-- The keys in ascending order. -/
def keys (d : Dictionary α) : List String := d.entries.map Prod.fst

/-- The values in the order of their keys. -/
def values (d : Dictionary α) : List α := d.entries.map Prod.snd

@[ext] theorem ext {d e : Dictionary α} (h : d.entries = e.entries) : d = e := by
  cases d; cases e; cases h; rfl

instance [DecidableEq α] : DecidableEq (Dictionary α) := fun d e =>
  if h : d.entries = e.entries then isTrue (ext h) else isFalse fun heq => h (heq ▸ rfl)

/-! ### What the operations do -/

theorem find?_place (key other : String) (value : α) (l : List (String × α))
    (h : l.Pairwise fun a b => a.1 < b.1) :
    ((place key value l).find? fun e => e.1 == other).map Prod.snd =
      if key = other then some value else (l.find? fun e => e.1 == other).map Prod.snd := by
  induction l with
  | nil => by_cases hk : key = other <;> simp [place, hk]
  | cons head rest ih =>
    obtain ⟨k, v⟩ := head
    obtain ⟨hhead, hrest⟩ := List.pairwise_cons.mp h
    unfold place
    by_cases hk : key = other
    · subst hk
      split
      · simp
      · split
        · rename_i hlt
          have hne : ¬ k = key := fun he => String.lt_irrefl key (he ▸ hlt)
          simp [hne, ih hrest]
        · simp
    · split
      · simp [hk]
      · split
        · by_cases hko : k = other
          · simp [hko]
          · simp [hko, hk, ih hrest]
        · rename_i h₁ h₂
          obtain rfl := eq_of_not_lt h₁ h₂
          simp [hk]

/-- After an insertion the key has the new value and every other key what it had. -/
theorem find?_insert (d : Dictionary α) (key other : String) (value : α) :
    (d.insert key value).find? other = if key = other then some value else d.find? other :=
  find?_place key other value d.entries d.ascending

theorem place_append {l : List (String × α)} {key : String} {value : α}
    (h : ∀ e ∈ l, e.1 < key) : place key value l = l ++ [(key, value)] := by
  induction l with
  | nil => rfl
  | cons head rest ih =>
    obtain ⟨k, v⟩ := head
    have hk : k < key := h (k, v) List.mem_cons_self
    have hrest := ih fun e he => h e (List.mem_cons_of_mem _ he)
    simp [place, String.lt_asymm hk, hk, hrest]

theorem foldl_insert (d : Dictionary α) (l : List (String × α))
    (h : (d.entries ++ l).Pairwise fun a b => a.1 < b.1) :
    (l.foldl (fun d e => d.insert e.1 e.2) d).entries = d.entries ++ l := by
  induction l generalizing d with
  | nil => simp
  | cons e rest ih =>
    have hlt : ∀ x ∈ d.entries, x.1 < e.1 := fun x hx =>
      (List.pairwise_append.mp h).2.2 x hx e List.mem_cons_self
    have hent : (d.insert e.1 e.2).entries = d.entries ++ [e] := place_append hlt
    have hnext : ((d.insert e.1 e.2).entries ++ rest).Pairwise fun a b => a.1 < b.1 := by
      rw [hent, List.append_assoc]
      exact h
    rw [List.foldl_cons, ih _ hnext, hent, List.append_assoc]
    rfl

/-- A dictionary is made again from the list of its entries. -/
theorem ofList_entries (d : Dictionary α) : ofList d.entries = d :=
  ext (foldl_insert empty d.entries (by simpa [empty] using d.ascending))

end Dictionary

end LedgerLoad
