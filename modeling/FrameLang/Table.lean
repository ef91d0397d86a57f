/-!
# Tables that remember the order of their keys

A `Table` maps keys to values and lists them in the order in which the keys were first
put in: putting a value under a key that is already there replaces the value and leaves
the key where it was.  Environments, frames and the children of a name are tables,
because the order of their keys can be seen from outside.

## Strategy

`Table.find?` is the view of a table as a map and `Table.keys` its view as a list; each
operation has one lemma for each view.
-/

namespace FrameLang

/-- Keys with their values, in the order in which the keys first came. -/
structure Table (κ : Type) (α : Type) where
  /-- The pairs, first key first. -/
  entries : List (κ × α)
  deriving Repr

namespace Table

variable {κ α : Type}

/-- The table without keys. -/
def empty : Table κ α := ⟨[]⟩

instance : EmptyCollection (Table κ α) := ⟨empty⟩
instance : Inhabited (Table κ α) := ⟨empty⟩

/-- The keys, in order. -/
def keys (table : Table κ α) : List κ := table.entries.map Prod.fst

/-- The values, in the order of their keys. -/
def values (table : Table κ α) : List α := table.entries.map Prod.snd

/-- The number of keys. -/
def size (table : Table κ α) : Nat := table.entries.length

variable [DecidableEq κ]

/-- The value of the first pair with a given key. -/
def findIn (key : κ) : List (κ × α) → Option α
  | [] => none
  | entry :: rest => if entry.1 = key then some entry.2 else findIn key rest

/-- Replace the value of the first pair with a given key, or add a pair at the end. -/
def insertIn (key : κ) (value : α) : List (κ × α) → List (κ × α)
  | [] => [(key, value)]
  | entry :: rest =>
      if entry.1 = key then (key, value) :: rest else entry :: insertIn key value rest

/-- The value of a key. -/
def find? (table : Table κ α) (key : κ) : Option α := findIn key table.entries

/-- True when the table has the key. -/
def contains (table : Table κ α) (key : κ) : Bool := (table.find? key).isSome

/-- Put a value under a key: in place of the key's old value, or after all other keys. -/
def insert (table : Table κ α) (key : κ) (value : α) : Table κ α :=
  ⟨insertIn key value table.entries⟩

/-- The table that results from putting in the given pairs one after the other. -/
def ofList (pairs : List (κ × α)) : Table κ α :=
  pairs.foldl (fun table pair => table.insert pair.1 pair.2) ∅

/-! ## The two views -/

@[simp] theorem find?_empty (key : κ) : (∅ : Table κ α).find? key = none := rfl

theorem find?_insert (table : Table κ α) (key other : κ) (value : α) :
    (table.insert key value).find? other =
      if key = other then some value else table.find? other := by
  obtain ⟨entries⟩ := table
  simp only [find?, insert]
  induction entries with
  | nil => simp [insertIn, findIn]
  | cons entry rest ih =>
      by_cases hkey : entry.1 = key
      · by_cases hother : key = other
        · simp [insertIn, findIn, hkey, hother]
        · simp [insertIn, findIn, hkey, hother]
      · by_cases hother : entry.1 = other
        · have hne : ¬ key = other := fun h => hkey (hother.trans h.symm)
          rw [insertIn, if_neg hkey, findIn, if_pos hother, if_neg hne, findIn, if_pos hother]
        · simp [insertIn, findIn, hkey, hother, ih]

omit [DecidableEq κ] in
@[simp] theorem keys_empty : (∅ : Table κ α).keys = [] := rfl

private theorem map_fst_insertIn (key : κ) (value : α) (entries : List (κ × α)) :
    (insertIn key value entries).map Prod.fst =
      if key ∈ entries.map Prod.fst then entries.map Prod.fst
      else entries.map Prod.fst ++ [key] := by
  induction entries with
  | nil => simp [insertIn]
  | cons entry rest ih =>
      by_cases hkey : entry.1 = key
      · simp [insertIn, hkey]
      · have hne : ¬ key = entry.1 := fun h => hkey h.symm
        rw [insertIn, if_neg hkey, List.map_cons, ih, List.map_cons]
        by_cases hmem : key ∈ rest.map Prod.fst
        · rw [if_pos hmem, if_pos (List.mem_cons_of_mem _ hmem)]
        · rw [if_neg hmem, if_neg (by simpa [hne] using hmem), List.cons_append]

/-- A new key goes to the end, an old one stays where it is. -/
theorem keys_insert (table : Table κ α) (key : κ) (value : α) :
    (table.insert key value).keys =
      if key ∈ table.keys then table.keys else table.keys ++ [key] :=
  map_fst_insertIn key value table.entries

theorem mem_keys_iff (table : Table κ α) (key : κ) :
    key ∈ table.keys ↔ (table.find? key).isSome = true := by
  obtain ⟨entries⟩ := table
  simp only [keys, find?]
  induction entries with
  | nil => simp [findIn]
  | cons entry rest ih =>
      by_cases hkey : entry.1 = key
      · simp [findIn, hkey]
      · have hne : ¬ key = entry.1 := fun h => hkey h.symm
        simp only [List.map_cons, List.mem_cons, hne, false_or, findIn, if_neg hkey]
        exact ih

theorem nodup_keys_insert {table : Table κ α} (h : table.keys.Nodup) (key : κ) (value : α) :
    (table.insert key value).keys.Nodup := by
  rw [keys_insert]
  split
  · exact h
  · next hnot =>
    exact List.nodup_append.mpr ⟨h, by simp, fun first hfirst second hsecond => by
      rw [List.mem_singleton] at hsecond
      rintro rfl
      exact hnot (hsecond ▸ hfirst)⟩

/-- Every pair of a table whose keys are distinct can be found. -/
theorem find?_of_mem {table : Table κ α} (h : table.keys.Nodup) {entry : κ × α}
    (hmem : entry ∈ table.entries) : table.find? entry.1 = some entry.2 := by
  obtain ⟨entries⟩ := table
  simp only [keys, find?] at h hmem ⊢
  induction entries with
  | nil => cases hmem
  | cons first rest ih =>
      obtain ⟨hnotmem, hrest⟩ := List.nodup_cons.mp h
      rcases List.mem_cons.mp hmem with rfl | hmem
      · rw [findIn, if_pos rfl]
      · have hne : ¬ first.1 = entry.1 := fun heq =>
          hnotmem (heq ▸ List.mem_map.mpr ⟨entry, hmem, rfl⟩)
        rw [findIn, if_neg hne]
        exact ih hrest hmem

/-- A pair with a new key goes to the end. -/
private theorem insertIn_of_not_mem {key : κ} {value : α} {entries : List (κ × α)}
    (h : key ∉ entries.map Prod.fst) : insertIn key value entries = entries ++ [(key, value)] := by
  induction entries with
  | nil => rfl
  | cons entry rest ih =>
      obtain ⟨hne, hrest⟩ := not_or.mp fun hmem => h (List.mem_cons.mpr hmem)
      rw [insertIn, if_neg (Ne.symm hne), ih hrest, List.cons_append]

/-- A table that is made from pairs with distinct keys lists just these pairs. -/
theorem entries_ofList {pairs : List (κ × α)} (h : (pairs.map Prod.fst).Nodup) :
    (ofList pairs).entries = pairs := by
  have general : ∀ (rest : List (κ × α)) (table : Table κ α),
      ((table.entries ++ rest).map Prod.fst).Nodup →
        (rest.foldl (fun table pair => table.insert pair.1 pair.2) table).entries =
          table.entries ++ rest := by
    intro rest
    induction rest with
    | nil => exact fun table _ => (List.append_nil _).symm
    | cons pair rest ih =>
        intro table hnodup
        have hnew : pair.1 ∉ table.entries.map Prod.fst := by
          rw [List.map_append, List.map_cons, List.nodup_append] at hnodup
          exact fun hmem => hnodup.2.2 _ hmem _ List.mem_cons_self rfl
        have hentries : (table.insert pair.1 pair.2).entries = table.entries ++ [pair] :=
          insertIn_of_not_mem hnew
        rw [List.foldl_cons, ih _ (by rwa [hentries, List.append_assoc]), hentries,
          List.append_assoc, List.singleton_append]
  exact general pairs ∅ h

end Table

end FrameLang
