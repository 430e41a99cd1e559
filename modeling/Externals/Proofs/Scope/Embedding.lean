import Externals.Proofs.Scope.Registry

/-!
# `Externals.Proofs.Scope.Embedding`: one index inside another

When modules are registered after others that have nothing to do with
them, they get the scopes they would have got in an index of their own,
with larger numbers. `Embedded n b a` says that the scopes of `b`, apart
from the global one that both share, stand in `a` behind its first `n`
scopes, in the same order and with the same names and parents.

While the modules of `b` are being registered these are the last scopes
of `a`: `Copied n b a`. Registering a further module in both keeps it so
(`Copied.register`), as long as `a` does not find the module among the
first `n` scopes. What `b` finds is found in `a`, since a copy has the
path of its original; and what `a` finds is a copy, or the global scope.
-/

set_option autoImplicit false

namespace Externals

/-- What a scope itself contributes to names: its segment, its stem and
its module name. All else in a name comes from the scopes around. -/
def Scope.seat (s : Scope) : String × String × Option String := (s.segment, s.stem, s.jsModule)

namespace SymbolIndex

/-! ### Numbers -/

/-- The number of a copy behind `n` scopes. The global scope is shared,
so it keeps its number, and the first scope of its own comes right
behind the `n`. -/
def moved (n j : Nat) : Nat := if j = root then root else n + (j - 1)

/-- The global scope keeps its number. -/
theorem moved_root (n : Nat) : moved n root = root := if_pos rfl

/-- Every other scope comes behind the first `n`. -/
theorem moved_of_pos (n : Nat) {j : Nat} (h : root < j) : moved n j = n + (j - 1) :=
  if_neg (Nat.ne_of_gt h)

/-- No other scope becomes the global one. -/
theorem moved_eq_root_iff {n j : Nat} (hn : root < n) : moved n j = root ↔ j = root := by
  unfold moved root at *
  split <;> omega

/-- Copies of different scopes are different. -/
theorem moved_injective {n i j : Nat} (hn : root < n) (h : moved n i = moved n j) : i = j := by
  unfold moved root at *
  split at h <;> split at h <;> omega

/-- The copies of `k` scopes come behind the first `n`, up to the end. -/
theorem moved_bounds (n : Nat) {j k : Nat} (hj : root < j) (hk : j < k) :
    n ≤ moved n j ∧ moved n j < n + (k - 1) := by
  rw [moved_of_pos n hj]
  unfold root at hj
  omega

/-- And there they are all numbers: nothing between the copies is left
out. -/
theorem exists_moved {n k id : Nat} (hid : n ≤ id) (hlt : id < n + (k - 1)) :
    ∃ j, root < j ∧ j < k ∧ moved n j = id := by
  have hpos : root < id - n + 1 := Nat.succ_pos _
  refine ⟨id - n + 1, hpos, by omega, ?_⟩
  rw [moved_of_pos n hpos]
  omega

/-! ### Copies of scopes -/

/-- All scopes of `b` stand in `a`, the global one in its place and the
others behind the first `n`. They have the seats of their originals, and
the copies of their parents. What they hold is not compared. -/
structure Embedded (n : Nat) (b a : SymbolIndex) : Prop where
  conventions : a.conventions = b.conventions
  inner : b.Consistent
  outer : a.Consistent
  pos : root < n
  lt : ∀ j < b.size, moved n j < a.size
  seat : ∀ j < b.size, a.scopes[moved n j]?.map Scope.seat = b.scopes[j]?.map Scope.seat
  parent : ∀ j < b.size, a.notedParent (moved n j) = (b.notedParent j).map (moved n)

namespace Embedded

variable {n : Nat} {a b : SymbolIndex} (h : Embedded n b a) {j : Nat} (hj : j < b.size)

include h

/-- The copies stay when the outer index grows, as a scope keeps its
seat and its parent. -/
theorem grown {a' : SymbolIndex} (hgrown : a.Grown a') (ha' : a'.Consistent) : Embedded n b a' where
  conventions := hgrown.conventions.trans h.conventions
  inner := h.inner
  outer := ha'
  pos := h.pos
  lt := fun j hj => Nat.lt_of_lt_of_le (h.lt j hj) hgrown.size_le
  seat := fun j hj => by
    rw [hgrown.map_scope Scope.seat (fun _ => rfl) (h.lt j hj), h.seat j hj]
  parent := fun j hj => by rw [hgrown.notedParent (h.lt j hj), h.parent j hj]

/-- What the scopes of the inner index hold does not matter. -/
theorem of_bare {b' : SymbolIndex} (hc : b'.conventions = b.conventions)
    (hp : b'.byPath = b.byPath) (hb : b'.scopes.map Scope.bare = b.scopes.map Scope.bare) :
    Embedded n b' a := by
  have hgrown : b.Grown b' := .of_bare hc hp hb
  have hsize : b'.size = b.size := size_of_bare hb
  refine ⟨h.conventions.trans hc.symm, h.inner.of_bare hc hp hb, h.outer, h.pos, fun j hj => ?_,
    fun j hj => ?_, fun j hj => ?_⟩
  all_goals rw [hsize] at hj
  · exact h.lt j hj
  · rw [hgrown.map_scope Scope.seat (fun _ => rfl) hj, h.seat j hj]
  · rw [hgrown.notedParent hj, h.parent j hj]

include hj

/-- A copy adds the same segment to its package. -/
theorem segmentOf : a.segmentOf (moved n j) = b.segmentOf j := by
  have hmap := congrArg (fun o => (o.map Prod.fst).getD "") (h.seat j hj)
  simp only [Option.map_map] at hmap
  exact hmap

/-- And it has the same module name of its own. -/
theorem ownModule : a.ownModule (moved n j) = b.ownModule j := by
  have hbind := congrArg (fun o => o.bind fun t => t.2.2) (h.seat j hj)
  simp only [Option.bind_map] at hbind
  exact hbind

/-- A copy has the package of its original. Both are put together from
the segments along the chains, and the chain of a copy consists of
copies. -/
theorem packageOf : a.packageOf (moved n j) = b.packageOf j := by
  induction j using Nat.strongRecOn with
  | ind j ih =>
      -- Parents have smaller numbers, so the induction is on the number of the original.
      have hparent := h.parent j hj
      cases hp : b.notedParent j with
      | none =>
          rw [hp, Option.map_none] at hparent
          rw [SymbolIndex.packageOf, SymbolIndex.packageOf,
            chain_of_root (h.outer.parent?_eq _ ▸ hparent),
            chain_of_root (h.inner.parent?_eq _ ▸ hp), h.conventions]
          simp only [List.foldr_cons, List.foldr_nil, h.segmentOf hj]
      | some p =>
          rw [hp, Option.map_some] at hparent
          have hlt := h.inner.lt_of_notedParent hp
          have houter : a.parent? (moved n j) = some (moved n p) := h.outer.parent?_eq _ ▸ hparent
          have hinner : b.parent? j = some p := h.inner.parent?_eq j ▸ hp
          rw [packageOf_of_parent? houter, packageOf_of_parent? hinner,
            ih p hlt (Nat.lt_trans hlt hj), h.segmentOf hj]

/-- And its path, which is made of the package and the stem. -/
theorem outputPath : a.outputPath (moved n j) = b.outputPath j := by
  have hstem : a.scopes[moved n j]?.map Scope.stem = b.scopes[j]?.map Scope.stem := by
    have hmap := congrArg (Option.map fun t => t.2.1) (h.seat j hj)
    simp only [Option.map_map] at hmap
    exact hmap
  rw [SymbolIndex.outputPath, SymbolIndex.outputPath, h.packageOf hj, hstem, h.conventions]

/-- The parent of a copy, by path. -/
theorem map_notedParent :
    (a.notedParent (moved n j)).map a.outputPath = (b.notedParent j).map b.outputPath := by
  rw [h.parent j hj]
  cases hp : b.notedParent j with
  | none => rfl
  | some p => exact congrArg some (h.outputPath (Nat.lt_trans (h.inner.lt_of_notedParent hp) hj))

/-- Modules in a copy have the places they have in the original. -/
theorem placeOf (name : String) (kind : ModuleKind) :
    a.placeOf name kind (moved n j) = b.placeOf name kind j := by
  have hroot : (moved n j != root) = (j != root) := by
    rw [Bool.eq_iff_iff, bne_iff_ne, bne_iff_ne, ne_eq, moved_eq_root_iff h.pos]
  simp only [SymbolIndex.placeOf, h.conventions, h.packageOf hj, hroot]

end Embedded

/-! ### Copies that come last -/

/-- The copies are the last scopes of `a`, and `n` is how many there
were before. So the next scope of `a` and the next one of `b` belong
together again. -/
structure Copied (n : Nat) (b a : SymbolIndex) : Prop extends Embedded n b a where
  size : a.size + 1 = n + b.size

/-- Any index that started with the global scope holds a copy of that.
This is where a walk through a further file begins. -/
theorem copied_initial {c : Conventions} {hs : Headers} {a : SymbolIndex}
    (hgrown : (initial c hs).1.Grown a) (ha : a.Consistent) : Copied a.size (initial c hs).1 a := by
  have hsize : (initial c hs).1.size = 1 := rfl
  -- The initial index has one scope, so each part is about the root, which the copy keeps.
  have hroot : ∀ j < (initial c hs).1.size, j = root := by
    intro j hj
    unfold root
    omega
  have hlt : root < (initial c hs).1.size := Nat.zero_lt_one
  refine ⟨⟨hgrown.conventions, consistent_initial c hs, ha, ha.root_lt, fun j hj => ?_,
    fun j hj => ?_, fun j hj => ?_⟩, rfl⟩
  all_goals
    have hj := hroot j hj
    subst hj
    rw [moved_root]
  · exact ha.root_lt
  · exact hgrown.map_scope Scope.seat (fun _ => rfl) hlt
  · rw [hgrown.notedParent hlt, (consistent_initial c hs).notedParent_root]
    rfl

namespace Copied

variable {n : Nat} {a b : SymbolIndex} (h : Copied n b a)

include h

/-- Every scope behind the first `n` is a copy, and so is the global
one. -/
theorem exists_copied {id : Nat} (hid : id < a.size) (hcopy : id = root ∨ n ≤ id) :
    ∃ j < b.size, moved n j = id := by
  rcases hcopy with rfl | hle
  · exact ⟨root, h.inner.root_lt, moved_root n⟩
  · have hsize := h.size
    obtain ⟨j, -, hj, hmoved⟩ := exists_moved hle (show id < n + (b.size - 1) by omega)
    exact ⟨j, hj, hmoved⟩

/-- The next scope of `a` is the copy of the next scope of `b`. -/
theorem moved_size : moved n b.size = a.size := by
  have hsize := h.size
  have hroot := h.inner.root_lt
  rw [moved_of_pos n hroot]
  unfold root at hroot
  omega

/-- The outer index may hold anything. -/
theorem of_bare {a' b' : SymbolIndex} (hca : a'.conventions = a.conventions)
    (hpa : a'.byPath = a.byPath) (hba : a'.scopes.map Scope.bare = a.scopes.map Scope.bare)
    (hcb : b'.conventions = b.conventions) (hpb : b'.byPath = b.byPath)
    (hbb : b'.scopes.map Scope.bare = b.scopes.map Scope.bare) : Copied n b' a' where
  toEmbedded := (h.toEmbedded.grown (.of_bare hca hpa hba) (h.outer.of_bare hca hpa hba)).of_bare
    hcb hpb hbb
  size := by rw [size_of_bare hba, size_of_bare hbb, h.size]

/-- A path is found in both indexes or in neither, provided that it is
not found among the first `n` scopes. -/
theorem byPath_eq {path : String}
    (hclear : ∀ id, a.byPath.get? path = some id → id = root ∨ n ≤ id) :
    a.byPath.get? path = (b.byPath.get? path).map (moved n) := by
  cases hfound : b.byPath.get? path with
  | some k =>
      obtain ⟨hk, hpath⟩ := (h.inner.byPath_iff path k).mp hfound
      rw [Option.map_some, h.outer.byPath_iff, h.outputPath hk]
      exact ⟨h.lt k hk, hpath⟩
  | none =>
      -- What the outer index finds would be a copy of a scope with the path.
      cases hfound' : a.byPath.get? path with
      | none => rfl
      | some id =>
          obtain ⟨hid, hpath⟩ := (h.outer.byPath_iff path id).mp hfound'
          obtain ⟨k, hk, rfl⟩ := h.exists_copied hid (hclear id hfound')
          rw [h.outputPath hk] at hpath
          rw [(h.inner.byPath_iff path k).mpr ⟨hk, hpath⟩] at hfound
          cases hfound

section

variable {j : Nat} (hj : j < b.size) (name : String) (kind : ModuleKind)

include hj

/-- A scope that is made in both is a copy again. Its header is not
compared, as the arenas have different headers. -/
theorem withScope (headerA headerB : Nat)
    (hpath : b.byPath.get? (b.placeOf name kind j).2.2 = none)
    (hpath' : a.byPath.get? (b.placeOf name kind j).2.2 = none) :
    Copied n (b.withScope (b.newScope name kind j headerB) (b.placeOf name kind j).2.2)
      (a.withScope (a.newScope name kind (moved n j) headerA) (b.placeOf name kind j).2.2) := by
  have hplace := h.placeOf hj name kind
  have hconsistent : (a.withScope (a.newScope name kind (moved n j) headerA)
      (b.placeOf name kind j).2.2).Consistent := by
    rw [← hplace] at hpath' ⊢
    exact h.outer.withScope (h.lt j hj) name kind headerA hpath'
  have hseat : (a.newScope name kind (moved n j) headerA).seat
      = (b.newScope name kind j headerB).seat := by
    simp only [newScope, Scope.seat, hplace]
  have hgrownA := Grown.withScope a (a.newScope name kind (moved n j) headerA) hpath'
  have hgrownB := Grown.withScope b (b.newScope name kind j headerB) hpath
  -- A scope is old, and then so is its copy, or it is the new one, and its copy the new one of `a`.
  have hlast : ∀ k, k < b.size + 1 → k < b.size ∨ (k = b.size ∧ moved n k = a.size) := by
    intro k hk
    by_cases hold : k < b.size
    · exact .inl hold
    · have heq : k = b.size := by omega
      exact .inr ⟨heq, heq ▸ h.moved_size⟩
  refine ⟨⟨h.conventions, h.inner.withScope hj name kind headerB hpath, hconsistent, h.pos,
    fun k hk => ?_, fun k hk => ?_, fun k hk => ?_⟩, ?_⟩
  · rw [size_withScope] at hk ⊢
    rcases hlast k hk with hold | ⟨-, hmoved⟩
    · exact Nat.lt_succ_of_lt (h.lt k hold)
    · omega
  · rw [size_withScope] at hk
    rcases hlast k hk with hold | ⟨rfl, hmoved⟩
    · rw [hgrownA.map_scope Scope.seat (fun _ => rfl) (h.lt k hold),
        hgrownB.map_scope Scope.seat (fun _ => rfl) hold, h.seat k hold]
    · rw [hmoved, getElem?_withScope, if_pos rfl, getElem?_withScope, if_pos rfl, Option.map_some,
        Option.map_some, hseat]
  · rw [size_withScope] at hk
    rcases hlast k hk with hold | ⟨rfl, hmoved⟩
    · rw [hgrownA.notedParent (h.lt k hold), hgrownB.notedParent hold, h.parent k hold]
    · rw [hmoved, notedParent, getElem?_withScope, if_pos rfl, notedParent, getElem?_withScope,
        if_pos rfl]
      rfl
  · rw [size_withScope, size_withScope, ← Nat.add_assoc, ← h.size]

/-- Registering a module below a scope and below its copy. Either both
find it, and what the outer index finds is the copy, or both make a
scope. -/
theorem register (hsA hsB : Headers)
    (hclear : kind ≠ .global → ∀ id,
      a.byPath.get? (b.placeOf name kind j).2.2 = some id → id = root ∨ n ≤ id) :
    Copied n (b.register hsB name kind (some j)).1 (a.register hsA name kind (some (moved n j))).1
      ∧ (a.register hsA name kind (some (moved n j))).2.2
        = moved n (b.register hsB name kind (some j)).2.2 := by
  by_cases hglobal : kind = .global
  · -- A global block stands for the global scope in both.
    rw [register_kept (.inl hglobal), register_kept (.inl hglobal), scopeOf, scopeOf,
      if_pos (by simp [hglobal]), if_pos (by simp [hglobal]), moved_root]
    exact ⟨h, rfl⟩
  · have hfound := h.byPath_eq (hclear hglobal)
    have hplace := h.placeOf hj name kind
    cases hpath : b.byPath.get? (b.placeOf name kind j).2.2 with
    | some k =>
        rw [hpath, Option.map_some] at hfound
        rw [← hplace] at hfound
        obtain ⟨hmB, hscopeB⟩ := scopeOf_of_byPath (some j) hglobal hpath
        obtain ⟨hmA, hscopeA⟩ := scopeOf_of_byPath (some (moved n j)) hglobal hfound
        rw [register_kept hmA, register_kept hmB, hscopeA, hscopeB]
        exact ⟨h, rfl⟩
    | none =>
        rw [hpath, Option.map_none] at hfound
        have hmB : ¬ b.HasModule name kind (some j) := by
          rw [HasModule, Option.getD_some, hpath]
          simp [hglobal]
        have hmA : ¬ a.HasModule name kind (some (moved n j)) := by
          rw [HasModule, Option.getD_some, hplace, hfound]
          simp [hglobal]
        rw [register_made hmA, register_made hmB]
        simp only [Option.getD_some]
        rw [hplace]
        exact ⟨h.withScope hj name kind _ _ hpath hfound, h.moved_size.symm⟩

end

end Copied

end SymbolIndex

end Externals
