/-!
# `Externals.Data.Table`: tables that remember insertion order

A `Table` maps keys to values and lists its entries in the order in
which the keys first came in. Inserting under a key that is present
replaces the value and keeps the place; inserting under a new key
appends. That no key occurs twice is part of the type.

The view of a table is its list of entries. The lemmas say what
`insert` does to the keys and to every look-up.
-/

set_option autoImplicit false

namespace Externals

/-- Replace the value under a key in place, or append the entry. -/
def Table.put {κ ν : Type} [DecidableEq κ] (k : κ) (v : ν) : List (κ × ν) → List (κ × ν)
  | [] => [(k, v)]
  | (k', v') :: es => if k' = k then (k, v) :: es else (k', v') :: Table.put k v es

/-- A key that is there keeps its place, and a new one comes last. So
keys stay different. -/
theorem Table.map_fst_put {κ ν : Type} [DecidableEq κ] (k : κ) (v : ν) (es : List (κ × ν)) :
    (Table.put k v es).map Prod.fst
      = if k ∈ es.map Prod.fst then es.map Prod.fst else es.map Prod.fst ++ [k] := by
  induction es with
  | nil => simp [Table.put]
  | cons e es ih =>
      obtain ⟨k', v'⟩ := e
      by_cases h : k' = k
      · simp [Table.put, h]
      · have hne : k ≠ k' := fun hk => h hk.symm
        simp only [Table.put, if_neg h, List.map_cons, ih, List.mem_cons, hne, false_or]
        split <;> simp

/-- A map from keys to values with its entries in insertion order. -/
structure Table (κ ν : Type) where
  entries : List (κ × ν)
  nodup_keys : (entries.map Prod.fst).Nodup

namespace Table

variable {κ ν : Type}

/-- The table without entries. -/
def empty : Table κ ν := ⟨[], List.Pairwise.nil⟩

/-- The empty table. -/
instance : Inhabited (Table κ ν) := ⟨empty⟩

/-- The keys, in the order in which they were first inserted. -/
def keys (t : Table κ ν) : List κ := t.entries.map Prod.fst

/-- The values, in the order of their keys. -/
def values (t : Table κ ν) : List ν := t.entries.map Prod.snd

/-- The number of entries. -/
def size (t : Table κ ν) : Nat := t.entries.length

variable [DecidableEq κ]

/-- The value under a key. -/
def get? (t : Table κ ν) (k : κ) : Option ν :=
  (t.entries.find? fun e => e.1 = k).map Prod.snd

/-- The table has an entry for the key. -/
def contains (t : Table κ ν) (k : κ) : Bool := (t.get? k).isSome

/-- Set the value under a key. The place of a present key is kept; a
new key comes last. -/
def insert (t : Table κ ν) (k : κ) (v : ν) : Table κ ν where
  entries := put k v t.entries
  nodup_keys := by
    rw [map_fst_put]
    split
    · exact t.nodup_keys
    · rename_i h
      exact List.nodup_append.mpr ⟨t.nodup_keys, by simp, by
        intro a ha b hb
        rw [List.mem_singleton] at hb
        exact fun hab => h (hb ▸ hab ▸ ha)⟩

/-- Drop the entry of a key, if there is one. -/
def erase (t : Table κ ν) (k : κ) : Table κ ν where
  entries := t.entries.filter fun e => e.1 ≠ k
  nodup_keys := t.nodup_keys.sublist (List.filter_sublist.map Prod.fst)

/-- Insert entries one after the other. -/
def insertAll (t : Table κ ν) (es : List (κ × ν)) : Table κ ν :=
  es.foldl (fun t e => t.insert e.1 e.2) t

/-- Set the value under a key from the value it has now. -/
def upsert (t : Table κ ν) (k : κ) (f : Option ν → ν) : Table κ ν := t.insert k (f (t.get? k))

/-- The keys after an insertion. -/
theorem keys_insert (t : Table κ ν) (k : κ) (v : ν) :
    (t.insert k v).keys = if k ∈ t.keys then t.keys else t.keys ++ [k] :=
  map_fst_put k v t.entries

/-- What was put under a key is found there. -/
theorem find?_put_self (k : κ) (v : ν) (es : List (κ × ν)) :
    (put k v es).find? (fun e => e.1 = k) = some (k, v) := by
  induction es with
  | nil => simp [put]
  | cons e es ih =>
      obtain ⟨k', v'⟩ := e
      by_cases h : k' = k
      · simp [put, h]
      · simp [put, h, ih]

/-- What is under other keys is found as before. -/
theorem find?_put_of_ne {k k₀ : κ} (hk : k ≠ k₀) (v : ν) (es : List (κ × ν)) :
    (put k v es).find? (fun e => e.1 = k₀) = es.find? (fun e => e.1 = k₀) := by
  induction es with
  | nil => simp [put, hk]
  | cons e es ih =>
      obtain ⟨k', v'⟩ := e
      by_cases h : k' = k
      · subst h
        simp [put, hk]
      · simp only [put, if_neg h, List.find?_cons, ih]

/-- The value just inserted is found. -/
theorem get?_insert_self (t : Table κ ν) (k : κ) (v : ν) : (t.insert k v).get? k = some v := by
  simp only [get?, insert, find?_put_self, Option.map_some]

/-- Other keys keep their values. -/
theorem get?_insert_of_ne (t : Table κ ν) {k k₀ : κ} (hk : k ≠ k₀) (v : ν) :
    (t.insert k v).get? k₀ = t.get? k₀ := by
  simp only [get?, insert, find?_put_of_ne hk]

end Table

end Externals
