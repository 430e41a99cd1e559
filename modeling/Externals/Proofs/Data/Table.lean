import Externals.Data.Table

/-!
# `Externals.Proofs.Data.Table`: what tables remember

A table is known by the order of its keys and the value of each key
(`ext_get?`). Of a sequence of insertions it remembers for each key
the place of the first and the value of the last.

* `appendNew`: a list followed by what is new in another.
* `get?_insertAll`, `keys_insertAll`: the values and the keys after a
  sequence of insertions.
* `insertAll_insertAll_self`: inserting a sequence again changes
  nothing.
* `insertAll_eq_of_keys`: a table with the keys of a sequence is
  refreshed by it, whatever values it had.
-/

set_option autoImplicit false

namespace Externals

/-- A list with one more entry at the end. -/
theorem getElem?_concat {α : Type} (l : List α) (a : α) (i : Nat) :
    (l ++ [a])[i]? = if i = l.length then some a else l[i]? := by
  rcases Nat.lt_trichotomy i l.length with hlt | heq | hgt
  · rw [List.getElem?_append_left hlt, if_neg (Nat.ne_of_lt hlt)]
  · rw [heq, List.getElem?_concat_length, if_pos rfl]
  · rw [if_neg (Nat.ne_of_gt hgt), List.getElem?_eq_none (Nat.le_of_lt hgt),
      List.getElem?_eq_none (by rw [List.length_append]; exact hgt)]

/-- In the order of a relation, the first element with an answer gives
the answer. The search is described by which element it stops at, not by
how it gets there. -/
theorem findSome?_eq_some_iff_of_pairwise {α β : Type} {R : α → α → Prop} {l : List α}
    (hl : l.Pairwise R) (hasymm : ∀ {a b}, R a b → ¬ R b a) {f : α → Option β} {b : β} :
    l.findSome? f = some b
      ↔ ∃ a ∈ l, f a = some b ∧ ∀ a' ∈ l, (f a').isSome → a' = a ∨ R a a' := by
  have hfirst : ∀ {b}, l.findSome? f = some b
      → ∃ a ∈ l, f a = some b ∧ ∀ a' ∈ l, (f a').isSome → a' = a ∨ R a a' := by
    intro b hb
    obtain ⟨before, a, after, rfl, ha, hbefore⟩ := List.findSome?_eq_some_iff.mp hb
    refine ⟨a, by simp, ha, fun a' ha' hsome => ?_⟩
    rw [List.pairwise_append, List.pairwise_cons] at hl
    rcases List.mem_append.mp ha' with hmem | hmem
    · simp [hbefore a' hmem] at hsome
    · rcases List.mem_cons.mp hmem with heq | hmem
      · exact .inl heq
      · exact .inr (hl.2.1.1 a' hmem)
  -- The search finds something, since the given element has an answer.
  refine ⟨hfirst, ?_⟩
  rintro ⟨a, ha, hfa, hleast⟩
  cases hfound : l.findSome? f with
  | none =>
      rw [List.findSome?_eq_none_iff] at hfound
      rw [hfound a ha] at hfa
      exact absurd hfa nofun
  | some b' =>
      -- What is found comes first too, so it is at the same place.
      obtain ⟨a', ha', hfa', hleast'⟩ := hfirst hfound
      rcases hleast a' ha' (by simp [hfa']) with rfl | hR
      · exact hfa'.symm.trans hfa
      · rcases hleast' a ha (by simp [hfa]) with rfl | hR'
        · exact hfa'.symm.trans hfa
        · exact absurd hR' (hasymm hR)

/-! ### Appending what is new -/

/-- A list, followed by those elements of another that are not in it:
each of them once, in the order in which they come up. -/
def appendNew {α : Type} [DecidableEq α] (own more : List α) : List α :=
  own ++ (more.removeAll own).eraseDups

section

variable {α : Type} [DecidableEq α]

/-- It has the elements of both lists. -/
theorem mem_appendNew {own more : List α} {a : α} :
    a ∈ appendNew own more ↔ a ∈ own ∨ a ∈ more := by
  by_cases h : a ∈ own
  · simp [appendNew, h]
  · simp [appendNew, List.removeAll, h]

/-- One further element: it joins the list in front if it is new. -/
theorem appendNew_cons (own : List α) (a : α) (more : List α) :
    appendNew own (a :: more) = appendNew (if a ∈ own then own else own ++ [a]) more := by
  by_cases h : a ∈ own
  · simp [appendNew, List.removeAll, h]
  · -- The new element joins the list, and its later copies are removed with the rest of it.
    have hfilter :
        (more.removeAll own).filter (fun b => !b == a) = more.removeAll (own ++ [a]) := by
      simp only [List.removeAll, List.filter_filter]
      refine List.filter_congr fun b _ => ?_
      by_cases hb : b = a
      · simp [hb]
      · simp [hb]
    have hkept : (a :: more).removeAll own = a :: more.removeAll own := by
      simp [List.removeAll, h]
    rw [if_neg h, appendNew, appendNew, hkept, List.eraseDups_cons, hfilter, List.append_assoc]
    rfl

/-- Nothing is appended. -/
theorem appendNew_nil (own : List α) : appendNew own [] = own := by
  simp [appendNew, List.removeAll]

/-- Appending one element after the other is appending them all. -/
theorem foldl_appendNew (own more : List α) :
    more.foldl (fun acc a => if a ∈ acc then acc else acc ++ [a]) own = appendNew own more := by
  induction more generalizing own with
  | nil => rw [List.foldl_nil, appendNew_nil]
  | cons a more ih => rw [List.foldl_cons, ih, ← appendNew_cons]

/-- A loop that appends what it does not find appends what is new. The
loops of the merge and of the fusion are of this kind. -/
theorem eq_appendNew {f : List α → List α → List α} (hnil : ∀ own, f own [] = own)
    (hcons : ∀ own a more, f own (a :: more) = f (if own.contains a then own else own ++ [a]) more)
    (own more : List α) : f own more = appendNew own more := by
  induction more generalizing own with
  | nil => rw [hnil, appendNew_nil]
  | cons a more ih => simp only [hcons, ih, appendNew_cons, List.contains_iff_mem]

/-- Appending two lists is appending one after the other. -/
theorem appendNew_append (own more rest : List α) :
    appendNew own (more ++ rest) = appendNew (appendNew own more) rest := by
  rw [← foldl_appendNew, List.foldl_append, foldl_appendNew, foldl_appendNew]

/-- What is appended may itself have been put together so: what came up
twice is appended once either way. -/
theorem appendNew_assoc (own more rest : List α) :
    appendNew own (appendNew more rest) = appendNew (appendNew own more) rest := by
  induction rest generalizing more with
  | nil => rw [appendNew_nil, appendNew_nil]
  | cons a rest ih =>
      rw [appendNew_cons, ih, appendNew_cons]
      by_cases h : a ∈ more
      · rw [if_pos h, if_pos (mem_appendNew.mpr (.inr h))]
      · rw [if_neg h, appendNew_append, appendNew_cons, appendNew_nil]

/-- Nothing is new. -/
theorem appendNew_of_subset {own more : List α} (h : ∀ a ∈ more, a ∈ own) :
    appendNew own more = own := by
  induction more with
  | nil => exact appendNew_nil own
  | cons a more ih =>
      rw [appendNew_cons, if_pos (h a (.head _))]
      exact ih fun b hb => h b (.tail _ hb)

/-- Everything is new, and nothing comes up twice. -/
theorem appendNew_of_nodup {own more : List α} (h : (own ++ more).Nodup) :
    appendNew own more = own ++ more := by
  induction more generalizing own with
  | nil => rw [appendNew_nil, List.append_nil]
  | cons a more ih =>
      have ha : a ∉ own := fun hmem => (List.nodup_append.mp h).2.2 a hmem a (.head _) rfl
      rw [List.append_cons] at h ⊢
      rw [appendNew_cons, if_neg ha]
      exact ih h

/-- A list stays in front. -/
theorem prefix_appendNew (own more : List α) : own <+: appendNew own more :=
  List.prefix_append _ _

/-- A list that continues another one takes its place. -/
theorem appendNew_of_prefix {own more : List α} (h : own <+: more) (hnodup : more.Nodup) :
    appendNew own more = more := by
  obtain ⟨rest, rfl⟩ := h
  rw [appendNew_append, appendNew_of_subset fun _ ha => ha, appendNew_of_nodup hnodup]

end

namespace Table

variable {κ ν : Type}

/-- A table is its entries: the proof that keys differ adds nothing. -/
theorem ext_entries {t u : Table κ ν} (h : t.entries = u.entries) : t = u := by
  cases t
  cases u
  cases h
  rfl

/-- The empty table has no keys. -/
@[simp] theorem keys_empty : (empty : Table κ ν).keys = [] := rfl

variable [DecidableEq κ]

/-! ### Single entries -/

/-- It has no values. -/
@[simp] theorem get?_empty (k : κ) : (empty : Table κ ν).get? k = none := rfl

/-- An insertion sets the value of its key and of no other. -/
theorem get?_insert (t : Table κ ν) (k k₀ : κ) (v : ν) :
    (t.insert k v).get? k₀ = if k = k₀ then some v else t.get? k₀ := by
  split
  · rename_i h
    rw [← h, get?_insert_self]
  · rename_i h
    exact get?_insert_of_ne t h v

/-- A key without a value is not in the table. -/
theorem get?_eq_none_iff {t : Table κ ν} {k : κ} : t.get? k = none ↔ k ∉ t.keys := by
  simp only [get?, Option.map_eq_none_iff, List.find?_eq_none, decide_eq_true_eq, keys,
    List.mem_map, not_exists, not_and]

/-- A key with a value is in the table. -/
theorem mem_keys_of_get? {t : Table κ ν} {k : κ} {v : ν} (h : t.get? k = some v) :
    k ∈ t.keys := by
  rw [← Decidable.not_not (p := k ∈ t.keys), ← get?_eq_none_iff, h]
  exact Option.some_ne_none v

/-- A key of the table has a value. -/
theorem exists_of_mem_keys {t : Table κ ν} {k : κ} (h : k ∈ t.keys) : ∃ v, t.get? k = some v := by
  cases hget : t.get? k with
  | none => exact absurd h (get?_eq_none_iff.mp hget)
  | some v => exact ⟨v, rfl⟩

/-- The test for a key is about the list of keys. -/
theorem contains_iff {t : Table κ ν} {k : κ} : t.contains k = true ↔ k ∈ t.keys := by
  rw [contains, ← Decidable.not_not (p := k ∈ t.keys), ← get?_eq_none_iff]
  cases t.get? k <;> simp

/-- A value of a key makes an entry. -/
theorem mem_entries_of_get? {t : Table κ ν} {k : κ} {v : ν} (h : t.get? k = some v) :
    (k, v) ∈ t.entries := by
  simp only [get?, Option.map_eq_some_iff] at h
  obtain ⟨e, hfind, rfl⟩ := h
  have hkey : e.1 = k := by simpa using List.find?_some hfind
  rw [← hkey]
  exact List.mem_of_find?_eq_some hfind

/-- A list of entries with distinct keys is searched to any of them. -/
theorem find?_of_mem {es : List (κ × ν)} (hnodup : (es.map Prod.fst).Nodup) {e : κ × ν}
    (h : e ∈ es) : es.find? (fun e' => e'.1 = e.1) = some e := by
  induction es with
  | nil => cases h
  | cons e' es ih =>
      rw [List.map_cons, List.nodup_cons] at hnodup
      cases h with
      | head => simp
      | tail _ hmem =>
          -- Keys are distinct, so the head has another key and the search passes it.
          have hne : e'.1 ≠ e.1 := by
            intro heq
            exact hnodup.1 (heq ▸ List.mem_map_of_mem hmem)
          rw [List.find?_cons_of_neg (by simpa using hne)]
          exact ih hnodup.2 hmem

/-- An entry gives the value of its key, because no other entry has the
key. -/
theorem get?_of_mem_entries {t : Table κ ν} {k : κ} {v : ν} (h : (k, v) ∈ t.entries) :
    t.get? k = some v := by
  rw [get?, find?_of_mem t.nodup_keys h]
  rfl

/-- So entries are the pairs of keys and values. -/
theorem mem_entries_iff {t : Table κ ν} {k : κ} {v : ν} :
    (k, v) ∈ t.entries ↔ t.get? k = some v :=
  ⟨get?_of_mem_entries, mem_entries_of_get?⟩

/-- Entry lists with the same keys in the same order and the same value
for each key are equal. -/
theorem entries_eq_of_find? {es fs : List (κ × ν)} (hnodup : (es.map Prod.fst).Nodup)
    (hkeys : es.map Prod.fst = fs.map Prod.fst)
    (h : ∀ k, (es.find? fun e => e.1 = k).map Prod.snd = (fs.find? fun e => e.1 = k).map Prod.snd) :
    es = fs := by
  induction es generalizing fs with
  | nil =>
      rw [List.map_nil] at hkeys
      exact (List.map_eq_nil_iff.mp hkeys.symm).symm
  | cons e es ih =>
      cases fs with
      | nil => cases hkeys
      | cons f fs =>
          rw [List.map_cons, List.map_cons, List.cons.injEq] at hkeys
          rw [List.map_cons, List.nodup_cons] at hnodup
          have hvalue := h e.1
          simp only [List.find?_cons, hkeys.1, decide_true, Option.map_some, Option.some.injEq]
            at hvalue
          have hhead : e = f := Prod.ext hkeys.1 hvalue
          have htail : es = fs := by
            refine ih hnodup.2 hkeys.2 fun k => ?_
            by_cases hk : e.1 = k
            · -- The key of the head occurs in neither tail.
              have hnone : ∀ gs : List (κ × ν), gs.map Prod.fst = es.map Prod.fst →
                  gs.find? (fun g => g.1 = k) = none := by
                intro gs hgs
                rw [List.find?_eq_none]
                intro g hg heq
                refine hnodup.1 ?_
                rw [hk, ← hgs, ← of_decide_eq_true heq]
                exact List.mem_map_of_mem hg
              rw [hnone es rfl, hnone fs hkeys.2.symm]
            · have := h k
              simpa [List.find?_cons, hk, ← hkeys.1] using this
          rw [hhead, htail]

/-- A table is known by its keys in order and its values. -/
theorem ext_get? {t u : Table κ ν} (hkeys : t.keys = u.keys) (h : ∀ k, t.get? k = u.get? k) :
    t = u :=
  ext_entries (entries_eq_of_find? t.nodup_keys hkeys h)

/-- Inserting the value that is there changes nothing, not even the
order. -/
theorem insert_of_get? {t : Table κ ν} {k : κ} {v : ν} (h : t.get? k = some v) :
    t.insert k v = t := by
  refine ext_get? ?_ fun k₀ => ?_
  · rw [keys_insert, if_pos (mem_keys_of_get? h)]
  · rw [get?_insert]
    split
    · rename_i hk
      rw [← hk, h]
    · rfl

/-- A key that is not in the first part is put into the second. -/
theorem put_append_of_not_mem {k : κ} {v : ν} {es : List (κ × ν)} (h : k ∉ es.map Prod.fst)
    (fs : List (κ × ν)) : put k v (es ++ fs) = es ++ put k v fs := by
  induction es with
  | nil => rfl
  | cons e es ih =>
      rw [List.map_cons, List.mem_cons, not_or] at h
      rw [List.cons_append, put, if_neg (fun heq => h.1 heq.symm), ih h.2, List.cons_append]

/-- A key that is not there is put at the end. -/
theorem put_of_not_mem {k : κ} {v : ν} {es : List (κ × ν)} (h : k ∉ es.map Prod.fst) :
    put k v es = es ++ [(k, v)] := by
  have happend := put_append_of_not_mem (v := v) h []
  rwa [List.append_nil] at happend

/-- Replacing the value of one entry of a list that is given by an
enumeration. -/
theorem put_map {ι : Type} [DecidableEq ι] (f : ι → κ × ν) {is : List ι} {i : ι} (hi : i ∈ is)
    (hnodup : ((is.map f).map Prod.fst).Nodup) (v : ν) :
    put (f i).1 v (is.map f) = is.map fun j => if j = i then ((f i).1, v) else f j := by
  induction is with
  | nil => cases hi
  | cons j is ih =>
      rw [List.map_cons, List.map_cons, List.nodup_cons] at hnodup
      have hkey : ∀ j' ∈ is, (f j').1 ≠ (f j).1 := by
        intro j' hj' heq
        rw [← heq] at hnodup
        exact hnodup.1 (List.mem_map_of_mem (List.mem_map_of_mem hj'))
      -- Keys are distinct, so the entry written is the first of its key: either it is the head
      -- and no later entry changes, or the head is passed over.
      by_cases hji : j = i
      · subst hji
        rw [List.map_cons, List.map_cons, put, if_pos rfl, if_pos rfl]
        congr 1
        refine List.map_congr_left fun j' hj' => ?_
        rw [if_neg]
        rintro rfl
        exact hkey j' hj' rfl
      · have hmem : i ∈ is := (List.mem_cons.mp hi).resolve_left fun h => hji h.symm
        rw [List.map_cons, List.map_cons, put, if_neg (fun h => hkey i hmem h.symm), if_neg hji,
          ih hmem hnodup.2]

/-! ### Sequences of insertions -/

/-- The last value of a key in a list of entries. -/
def latest? (k : κ) : List (κ × ν) → Option ν
  | [] => none
  | (k', v) :: es => (latest? k es).or (if k' = k then some v else none)

/-- The second list is asked first. -/
theorem latest?_append (k : κ) (es fs : List (κ × ν)) :
    latest? k (es ++ fs) = (latest? k fs).or (latest? k es) := by
  induction es with
  | nil => simp [latest?]
  | cons e es ih => rw [List.cons_append, latest?, latest?, ih, Option.or_assoc]

/-- A key without a last value is not in the list. -/
theorem latest?_eq_none_iff {k : κ} {es : List (κ × ν)} :
    latest? k es = none ↔ k ∉ es.map Prod.fst := by
  induction es with
  | nil => simp [latest?]
  | cons e es ih =>
      rw [latest?, Option.or_eq_none_iff, ih, List.map_cons, List.mem_cons, not_or]
      constructor
      · rintro ⟨hrest, hhead⟩
        refine ⟨?_, hrest⟩
        rintro rfl
        simp at hhead
      · rintro ⟨hhead, hrest⟩
        exact ⟨hrest, if_neg fun h => hhead h.symm⟩

/-- A last value comes from an entry of the list. -/
theorem mem_of_latest? {k : κ} {v : ν} {es : List (κ × ν)} (h : latest? k es = some v) :
    (k, v) ∈ es := by
  induction es with
  | nil => cases h
  | cons e es ih =>
      obtain ⟨k', v'⟩ := e
      rw [latest?, Option.or_eq_some_iff] at h
      -- `latest?` asks the tail first, so the head is reached only when the tail has no entry.
      rcases h with hrest | ⟨-, hhead⟩
      · exact .tail _ (ih hrest)
      · split at hhead
        · rename_i hk
          cases hhead
          rw [hk]
          exact .head _
        · cases hhead

/-- Where keys are distinct, every entry is the last of its key. -/
theorem latest?_of_nodup {k : κ} {v : ν} {es : List (κ × ν)} (hnodup : (es.map Prod.fst).Nodup)
    (h : (k, v) ∈ es) : latest? k es = some v := by
  cases hlatest : latest? k es with
  | none => exact absurd (List.mem_map_of_mem h) (latest?_eq_none_iff.mp hlatest)
  | some w =>
      have hfound : es.find? (fun e => e.1 = k) = some (k, w) :=
        find?_of_mem hnodup (mem_of_latest? hlatest)
      rw [find?_of_mem hnodup h] at hfound
      cases hfound
      rfl

/-- The last value of a key in a table is its value. -/
theorem latest?_entries (t : Table κ ν) (k : κ) : latest? k t.entries = t.get? k := by
  cases h : latest? k t.entries with
  | none => exact (get?_eq_none_iff.mpr (latest?_eq_none_iff.mp h)).symm
  | some v => exact (get?_of_mem_entries (mem_of_latest? h)).symm

/-- The first entry is inserted first. -/
theorem insertAll_cons (t : Table κ ν) (e : κ × ν) (es : List (κ × ν)) :
    t.insertAll (e :: es) = (t.insert e.1 e.2).insertAll es := rfl

/-- Two lists of entries are inserted one after the other. -/
theorem insertAll_append (t : Table κ ν) (es fs : List (κ × ν)) :
    t.insertAll (es ++ fs) = (t.insertAll es).insertAll fs :=
  List.foldl_append

/-- The last value inserted under a key, or the old value. -/
theorem get?_insertAll (t : Table κ ν) (es : List (κ × ν)) (k : κ) :
    (t.insertAll es).get? k = (latest? k es).or (t.get? k) := by
  induction es generalizing t with
  | nil => rfl
  | cons e es ih =>
      rw [insertAll_cons, ih, get?_insert, latest?, Option.or_assoc]
      split <;> simp

/-- Of tables inserted one after the other, the last that has a key
gives its value. -/
theorem get?_foldl_insertAll {ι : Type} (f : ι → Table κ ν) (is : List ι) (t : Table κ ν) (k : κ) :
    (is.foldl (fun t i => t.insertAll (f i).entries) t).get? k
      = (is.reverse.findSome? fun i => (f i).get? k).or (t.get? k) := by
  induction is generalizing t with
  | nil => rfl
  | cons i is ih =>
      rw [List.foldl_cons, ih, get?_insertAll, latest?_entries, List.reverse_cons,
        List.findSome?_append, Option.or_assoc, List.findSome?_singleton]

/-- An insertion adds its key and no other. -/
theorem mem_keys_insert {t : Table κ ν} {k k₀ : κ} {v : ν} :
    k₀ ∈ (t.insert k v).keys ↔ k₀ ∈ t.keys ∨ k₀ = k := by
  rw [keys_insert]
  split
  · rename_i h
    constructor
    · exact .inl
    · rintro (hmem | rfl)
      · exact hmem
      · exact h
  · simp

/-- The keys after a sequence of insertions: the old ones, and the new
ones in the order in which they come up. -/
theorem keys_insertAll (t : Table κ ν) (es : List (κ × ν)) :
    (t.insertAll es).keys = appendNew t.keys (es.map Prod.fst) := by
  induction es generalizing t with
  | nil => rw [List.map_nil, appendNew_nil]; rfl
  | cons e es ih => rw [insertAll_cons, ih, keys_insert, List.map_cons, appendNew_cons]

/-- As a set these are the old keys and the keys of the entries. -/
theorem mem_keys_insertAll {t : Table κ ν} {es : List (κ × ν)} {k : κ} :
    k ∈ (t.insertAll es).keys ↔ k ∈ t.keys ∨ k ∈ es.map Prod.fst := by
  rw [keys_insertAll, mem_appendNew]

/-- Insertions under present keys keep the keys. -/
theorem keys_insertAll_of_subset {t : Table κ ν} {es : List (κ × ν)}
    (h : ∀ k ∈ es.map Prod.fst, k ∈ t.keys) : (t.insertAll es).keys = t.keys := by
  induction es generalizing t with
  | nil => rfl
  | cons e es ih =>
      have hkeys : (t.insert e.1 e.2).keys = t.keys := by
        rw [keys_insert, if_pos (h e.1 (.head _))]
      rw [insertAll_cons, ih, hkeys]
      intro k hk
      rw [hkeys]
      exact h k (.tail _ hk)

/-- A table that has all keys of a sequence, and whose values the
sequence repeats in the end, is not changed by it. -/
theorem insertAll_eq_self {t : Table κ ν} {es : List (κ × ν)}
    (h : ∀ k v, latest? k es = some v → t.get? k = some v) : t.insertAll es = t := by
  refine ext_get? (keys_insertAll_of_subset fun k hk => ?_) fun k => ?_
  · cases hlatest : latest? k es with
    | none => exact absurd hk (latest?_eq_none_iff.mp hlatest)
    | some v => exact mem_keys_of_get? (h k v hlatest)
  · rw [get?_insertAll]
    cases hlatest : latest? k es with
    | none => rfl
    | some v => exact (h k v hlatest).symm

/-- And only such a table is not changed by it. -/
theorem insertAll_eq_self_iff {t : Table κ ν} {es : List (κ × ν)} :
    t.insertAll es = t ↔ ∀ k v, latest? k es = some v → t.get? k = some v := by
  refine ⟨fun h k v hlatest => ?_, insertAll_eq_self⟩
  rw [← h, get?_insertAll, hlatest]
  rfl

/-- Inserting a sequence again changes nothing. -/
theorem insertAll_insertAll_self (t : Table κ ν) (es : List (κ × ν)) :
    (t.insertAll es).insertAll es = t.insertAll es := by
  refine insertAll_eq_self fun k v h => ?_
  rw [get?_insertAll, h]
  rfl

/-- A table with the keys of a sequence takes all its values from it,
whatever its own values were. -/
theorem insertAll_eq_of_keys {t : Table κ ν} {es : List (κ × ν)}
    (h : t.keys = (empty.insertAll es).keys) : t.insertAll es = empty.insertAll es := by
  have hmem : ∀ k, k ∈ t.keys ↔ k ∈ es.map Prod.fst := by
    intro k
    rw [h, mem_keys_insertAll]
    simp
  -- Two tables are equal when their keys stand in one order and each key has the same value.
  refine ext_get? ?_ fun k => ?_
  · rw [keys_insertAll_of_subset fun k hk => (hmem k).mpr hk, h]
  · rw [get?_insertAll, get?_insertAll, get?_empty]
    cases hlatest : latest? k es with
    | some v => rfl
    | none =>
        rw [latest?_eq_none_iff, ← hmem] at hlatest
        exact get?_eq_none_iff.mpr hlatest

/-- The values are those of the keys. -/
theorem mem_values_iff {t : Table κ ν} {v : ν} : v ∈ t.values ↔ ∃ k, t.get? k = some v := by
  simp only [values, List.mem_map, Prod.exists, exists_eq_right, mem_entries_iff]

end Table

end Externals
