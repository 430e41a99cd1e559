import Externals.Source.Resolve
import Mathlib.Data.List.Basic
import Mathlib.Data.List.Induction

/-!
# `Externals.Proofs.Source.Accessors`: getters and setters of one name

A body is read node by node, and each getter or setter is put into the
accessor it belongs to, if there is one among the members so far. Seen
from the whole body, a getter or a setter is a *half*, and the accessor
of a name is made of all its halves: where it stands and whether it
overrides is told by the first, its type by the last getter, and whether
it can be written by the presence of a setter.

`memberAt` says this position by position, without reference to the
members read before. The induction is on the body from its end, because
reading one more node changes an accessor that already stands.

* `addAccessor_of_new`, `addAccessor_of_key`: what a half does to members.
* `joined_concat`: one more half for an accessor that has one.
* `membersOf_eq`: the members of a body, position by position.
* `membersOf_accessors`: hence the accessors of a body, and everything
  else as it was.
-/

set_option autoImplicit false

namespace Externals

/-- What the halves of one accessor share: the name, and whether they are
static. -/
def Accessor.key (a : Accessor) : MemberName × Bool := (a.name, a.isStatic)

/-- The key of a member that is an accessor. -/
def Member.accessorKey? : Member → Option (MemberName × Bool)
  | .accessor a => some a.key
  | _ => none

namespace Source

/-! ### Halves -/

/-- A getter or a setter by itself. A setter has the type of its first
parameter, and a method that is marked as both is a getter. -/
def MemberNode.half? : MemberNode → Option Accessor
  | method name m ps returns =>
      if m.getter then some ⟨name, typeAt returns, m.isStatic, m.isOverride, false⟩
      else if m.setter then
        some ⟨name, ((paramsOf ps).head?.map Param.type).getD .implicitAny, m.isStatic,
          m.isOverride, true⟩
      else none
  | _ => none

/-- A method or a property. -/
def MemberNode.plain? : MemberNode → Option Member
  | method name m ps returns =>
      if m.getter || m.setter then none
      else some (.method ⟨name, paramsOf ps, typeAt returns, m.isStatic, m.isAsync, m.isOverride,
        m.optional⟩)
  | field name m type =>
      some (.property ⟨name, typeAt type, m.isStatic, m.isOverride, m.isReadonly, m.optional⟩)
  | index _ => none

/-- The halves in a body, in order. -/
def halves (nodes : List MemberNode) : List Accessor := nodes.filterMap MemberNode.half?

/-- The getters among halves that have a key. -/
def getters (key : MemberName × Bool) (hs : List Accessor) : List Accessor :=
  hs.filter fun h => h.key == key && !h.hasSetter

/-- The setters among halves that have a key. -/
def setters (key : MemberName × Bool) (hs : List Accessor) : List Accessor :=
  hs.filter fun h => h.key == key && h.hasSetter

/-- The type that halves give to their accessor: that of the last
getter, else that of the first setter. A later setter never changes the
type. -/
def joinedType (key : MemberName × Bool) (hs : List Accessor) : TypeRef :=
  (((getters key hs).getLast?.or (setters key hs).head?).map Accessor.type).getD .implicitAny

/-- The accessor of a key that is made of all halves with the key.
Whether it overrides is told by the first half, and so is passed in. -/
def joined (key : MemberName × Bool) (isOverride : Bool) (hs : List Accessor) : Accessor :=
  ⟨key.1, joinedType key hs, key.2, isOverride, !(setters key hs).isEmpty⟩

/-- The accessor has the key that it was made for. -/
@[simp]
theorem key_joined (key : MemberName × Bool) (isOverride : Bool) (hs : List Accessor) :
    (joined key isOverride hs).key = key := rfl

/-- Two accessors belong together if they have the same key. -/
theorem pairs_iff {a b : Accessor} : pairs a b = true ↔ a.key = b.key := by
  simp [pairs, Accessor.key]

/-- A node is a half and adds it to the members, or it is none and adds
its own member, if it has one. -/
theorem MemberNode.addTo_cases (node : MemberNode) :
    (∃ a, node.half? = some a ∧ node.plain? = none
        ∧ ∀ members, node.addTo members = addAccessor a members)
      ∨ (node.half? = none ∧ (∀ m, node.plain? = some m → m.accessorKey? = none)
        ∧ ∀ members, node.addTo members = members ++ node.plain?.toList) := by
  -- A method marked as a getter or a setter is half of an accessor; every other node is a
  -- member of its own or none.
  cases node with
  | method name m ps returns =>
      simp only [half?, plain?, addTo]
      cases m.getter with
      | true => exact .inl ⟨_, rfl, rfl, fun _ => rfl⟩
      | false =>
          cases m.setter with
          | true => exact .inl ⟨_, rfl, rfl, fun _ => rfl⟩
          | false => exact .inr ⟨rfl, fun _ h => Option.some.inj h ▸ rfl, fun _ => rfl⟩
  | field name m type => exact .inr ⟨rfl, fun _ h => Option.some.inj h ▸ rfl, fun _ => rfl⟩
  | index key =>
      refine .inr ⟨rfl, fun m h => ?_, fun members => (List.append_nil members).symm⟩
      cases h

/-! ### One half and the members so far -/

/-- A member after a half was read: the accessor of its key absorbs it,
and every other member stays. -/
def absorbed (more : Accessor) : Member → Member
  | .accessor a => if a.key = more.key then .accessor (absorb a more) else .accessor a
  | m => m

/-- A half with a new key is a new member, and comes last. -/
theorem addAccessor_of_new {more : Accessor} {members : List Member}
    (h : ∀ m ∈ members, m.accessorKey? ≠ some more.key) :
    addAccessor more members = members ++ [.accessor more] := by
  induction members with
  | nil => rfl
  | cons m members ih =>
      have hmembers := ih fun m hm => h m (.tail _ hm)
      -- No accessor pairs with the new one, so it is passed along to the end.
      cases m with
      | accessor a =>
          have hkey : ¬ pairs a more = true := fun hpairs =>
            h _ (.head _) (congrArg some (pairs_iff.mp hpairs))
          rw [addAccessor, if_neg hkey, hmembers, List.cons_append]
      | method m => rw [addAccessor, hmembers, List.cons_append]; exact nofun
      | property p => rw [addAccessor, hmembers, List.cons_append]; exact nofun

/-- A member of another key stays as it is. -/
theorem absorbed_of_ne {more : Accessor} {m : Member} (h : m.accessorKey? ≠ some more.key) :
    absorbed more m = m := by
  cases m with
  | accessor a => exact if_neg fun hkey => h (congrArg some hkey)
  | method m => rfl
  | property p => rfl

/-- Absorbing a half changes no key. -/
theorem accessorKey?_absorbed (more : Accessor) (m : Member) :
    (absorbed more m).accessorKey? = m.accessorKey? := by
  cases m with
  | accessor a =>
      rw [absorbed]
      split
      · unfold absorb
        split <;> rfl
      · rfl
  | method m => rfl
  | property p => rfl

/-- Members of other keys absorb nothing. -/
theorem map_absorbed_of_new {more : Accessor} {members : List Member}
    (h : ∀ m ∈ members, m.accessorKey? ≠ some more.key) :
    members.map (absorbed more) = members := by
  conv_rhs => rw [← List.map_id members]
  exact List.map_congr_left fun m hm => absorbed_of_ne (h m hm)

/-- The keys of the accessors among members. -/
def accessorKeys (members : List Member) : List (MemberName × Bool) :=
  members.filterMap Member.accessorKey?

/-- The keys of members are those of the accessors among them. -/
theorem mem_accessorKeys {key : MemberName × Bool} {members : List Member} :
    key ∈ accessorKeys members ↔ ∃ m ∈ members, m.accessorKey? = some key :=
  List.mem_filterMap

/-- A key that is not there belongs to no member. -/
theorem ne_of_not_mem_accessorKeys {key : MemberName × Bool} {members : List Member}
    (h : key ∉ accessorKeys members) : ∀ m ∈ members, m.accessorKey? ≠ some key :=
  fun m hm hkey => h (mem_accessorKeys.mpr ⟨m, hm, hkey⟩)

/-- Where keys tell accessors apart, a half with the key of a member is
absorbed by this member. Reading stops at the first accessor with the
key, and there is no second. -/
theorem addAccessor_of_key {more : Accessor} {members : List Member}
    (hkeys : (accessorKeys members).Nodup) (h : more.key ∈ accessorKeys members) :
    addAccessor more members = members.map (absorbed more) := by
  induction members with
  | nil => cases h
  | cons m members ih =>
      cases m with
      | accessor a =>
          replace hkeys : (a.key :: accessorKeys members).Nodup := hkeys
          replace h : more.key ∈ a.key :: accessorKeys members := h
          rw [List.nodup_cons] at hkeys
          by_cases hkey : a.key = more.key
          · -- No member behind has the key, so that nothing else changes.
            have hrest := map_absorbed_of_new (ne_of_not_mem_accessorKeys (hkey ▸ hkeys.1))
            rw [addAccessor, if_pos (pairs_iff.mpr hkey), List.map_cons, hrest, absorbed,
              if_pos hkey]
          · have hlater := (List.mem_cons.mp h).resolve_left (Ne.symm hkey)
            rw [addAccessor, if_neg fun hpairs => hkey (pairs_iff.mp hpairs), ih hkeys.2 hlater,
              List.map_cons, absorbed, if_neg hkey]
      | method m =>
          rw [addAccessor, ih hkeys h]
          · rfl
          · exact nofun
      | property p =>
          rw [addAccessor, ih hkeys h]
          · rfl
          · exact nofun

/-- The keys after a half was read: its key comes last, unless it was
there. -/
theorem accessorKeys_addAccessor {members : List Member} (hkeys : (accessorKeys members).Nodup)
    (more : Accessor) :
    accessorKeys (addAccessor more members)
      = if more.key ∈ accessorKeys members then accessorKeys members
        else accessorKeys members ++ [more.key] := by
  split
  · rename_i hmem
    rw [addAccessor_of_key hkeys hmem, accessorKeys, accessorKeys, List.filterMap_map]
    exact congrArg (members.filterMap ·) (funext (accessorKey?_absorbed more))
  · rename_i hnew
    rw [addAccessor_of_new (ne_of_not_mem_accessorKeys hnew), accessorKeys, accessorKeys,
      List.filterMap_append]
    rfl

/-- So a half adds its own key and nothing else. -/
theorem mem_accessorKeys_addAccessor {members : List Member}
    (hkeys : (accessorKeys members).Nodup) {more : Accessor} {key : MemberName × Bool} :
    key ∈ accessorKeys (addAccessor more members)
      ↔ key ∈ accessorKeys members ∨ key = more.key := by
  rw [accessorKeys_addAccessor hkeys]
  split
  · rename_i hmem
    exact ⟨.inl, fun h => h.elim id fun heq => heq ▸ hmem⟩
  · rw [List.mem_append, List.mem_singleton]

/-- And keys still tell accessors apart. -/
theorem nodup_accessorKeys_addAccessor {members : List Member}
    (hkeys : (accessorKeys members).Nodup) (more : Accessor) :
    (accessorKeys (addAccessor more members)).Nodup := by
  rw [accessorKeys_addAccessor hkeys]
  split
  · exact hkeys
  · rename_i hnew
    rw [List.nodup_append]
    refine ⟨hkeys, List.pairwise_singleton _ _, fun key hkey key' hkey' heq => hnew ?_⟩
    rw [← List.mem_singleton.mp hkey', ← heq]
    exact hkey

/-- Halves leave all other members alone, in the order they had. -/
theorem filter_addAccessor (more : Accessor) (members : List Member) :
    (addAccessor more members).filter (fun m => m.accessorKey?.isNone)
      = members.filter fun m => m.accessorKey?.isNone := by
  induction members with
  | nil => rfl
  | cons m members ih =>
      -- The accessor met is merged in place or passed by; a plain member is always passed by.
      cases m with
      | accessor a =>
          rw [addAccessor]
          split
          · rfl
          · exact ih
      | method m =>
          rw [addAccessor, List.filter_cons_of_pos rfl, List.filter_cons_of_pos rfl, ih]
          exact nofun
      | property p =>
          rw [addAccessor, List.filter_cons_of_pos rfl, List.filter_cons_of_pos rfl, ih]
          exact nofun

/-! ### Runs over a body -/

/-- A body is read node by node, the last one at the end. -/
theorem membersOf_concat (nodes : List MemberNode) (node : MemberNode) :
    membersOf (nodes ++ [node]) = node.addTo (membersOf nodes) := by
  rw [membersOf, List.foldl_append]
  rfl

/-- One more node is one more half, or none. -/
theorem halves_concat (nodes : List MemberNode) (node : MemberNode) :
    halves (nodes ++ [node]) = halves nodes ++ node.half?.toList := by
  rw [halves, List.filterMap_append, ← halves]
  cases h : node.half? <;> simp [h]

/-- Keys tell the accessors of a body apart, and they are the keys of its
halves. -/
theorem accessorKeys_membersOf (nodes : List MemberNode) :
    (accessorKeys (membersOf nodes)).Nodup
      ∧ ∀ key, key ∈ accessorKeys (membersOf nodes) ↔ key ∈ (halves nodes).map Accessor.key := by
  induction nodes using List.reverseRecOn with
  | nil => exact ⟨List.nodup_nil, fun key => Iff.rfl⟩
  | append_singleton nodes node ih =>
      obtain ⟨hnodup, hmem⟩ := ih
      rw [membersOf_concat, halves_concat]
      -- A half adds its key unless it is there; a plain member has no accessor key.
      rcases node.addTo_cases with ⟨a, hhalf, -, hadd⟩ | ⟨hhalf, hplain, hadd⟩
      · rw [hadd, hhalf]
        refine ⟨nodup_accessorKeys_addAccessor hnodup a, fun key => ?_⟩
        rw [mem_accessorKeys_addAccessor hnodup, hmem, List.map_append, List.mem_append]
        simp
      · have hkeys : accessorKeys (membersOf nodes ++ node.plain?.toList)
            = accessorKeys (membersOf nodes) := by
          rw [accessorKeys, List.filterMap_append, ← accessorKeys]
          cases hm : node.plain? with
          | none => simp
          | some m => simp [hplain m hm]
        rw [hadd, hhalf, hkeys, Option.toList_none, List.append_nil]
        exact ⟨hnodup, hmem⟩

/-- Methods and properties are kept as they are, in the order of the
body. -/
theorem filter_membersOf (nodes : List MemberNode) :
    (membersOf nodes).filter (fun m => m.accessorKey?.isNone)
      = nodes.filterMap MemberNode.plain? := by
  induction nodes using List.reverseRecOn with
  | nil => rfl
  | append_singleton nodes node ih =>
      rw [membersOf_concat, List.filterMap_append]
      -- An accessor leaves the plain members as they are; a plain member goes behind them.
      rcases node.addTo_cases with ⟨a, -, hnone, hadd⟩ | ⟨-, hplain, hadd⟩
      · rw [hadd, filter_addAccessor, ih]
        simp [hnone]
      · rw [hadd, List.filter_append, ih]
        cases hm : node.plain? with
        | none => simp [hm]
        | some m => simp [hm, hplain m hm]

/-! ### Joining halves -/

section

variable {key : MemberName × Bool} {hs : List Accessor}

/-- One more half of another key makes no difference. -/
theorem joined_concat_of_ne {a : Accessor} (h : a.key ≠ key) (isOverride : Bool) :
    joined key isOverride (hs ++ [a]) = joined key isOverride hs := by
  simp [joined, joinedType, getters, setters, h]

/-- There is a getter or a setter of a key that some half has, so the
type is never the default one. -/
theorem isSome_of_key (h : key ∈ hs.map Accessor.key) :
    ∃ half, (getters key hs).getLast?.or (setters key hs).head? = some half := by
  obtain ⟨half, hmem, hkey⟩ := List.mem_map.mp h
  -- The last getter is chosen if there is one, otherwise the first setter; one of the two
  -- lists holds `half`.
  cases hsetter : half.hasSetter with
  | false =>
      have hgetter : half ∈ getters key hs := List.mem_filter.mpr ⟨hmem, by simp [hkey, hsetter]⟩
      obtain ⟨last, hlast⟩ := Option.isSome_iff_exists.mp
        (List.getLast?_isSome.mpr (List.ne_nil_of_mem hgetter))
      exact ⟨last, by rw [hlast]; rfl⟩
  | true =>
      have hmem' : half ∈ setters key hs := List.mem_filter.mpr ⟨hmem, by simp [hkey, hsetter]⟩
      obtain ⟨first, rest, hfirst⟩ := List.exists_cons_of_ne_nil (List.ne_nil_of_mem hmem')
      cases (getters key hs).getLast? with
      | some last => exact ⟨last, rfl⟩
      | none => exact ⟨first, by rw [hfirst]; rfl⟩

/-- One more half of a key that has one is absorbed. A getter brings its
type, a setter only that the accessor can be written. -/
theorem joined_concat {a : Accessor} (hkey : a.key = key) (h : key ∈ hs.map Accessor.key)
    (isOverride : Bool) :
    joined key isOverride (hs ++ [a]) = absorb (joined key isOverride hs) a := by
  cases hsetter : a.hasSetter with
  | false => simp [joined, joinedType, getters, setters, absorb, hkey, hsetter]
  | true =>
      -- A setter keeps the type: there is a getter, or an earlier setter.
      obtain ⟨half, hhalf⟩ := isSome_of_key h
      have hgetters : getters key (hs ++ [a]) = getters key hs := by simp [getters, hsetter]
      have hsetters : setters key (hs ++ [a]) = setters key hs ++ [a] := by
        simp [setters, hkey, hsetter]
      have htype : joinedType key (hs ++ [a]) = joinedType key hs := by
        rw [joinedType, joinedType, hgetters, hsetters, List.head?_append, ← Option.or_assoc, hhalf]
        rfl
      rw [joined, htype, hsetters]
      simp [absorb, joined, hsetter]

/-- The first half of a key is the accessor, with its own type. -/
theorem joined_new {a : Accessor} (h : a.key ∉ hs.map Accessor.key) :
    joined a.key a.isOverride (hs ++ [a]) = a := by
  -- No earlier half has this key, so the accessor is made of `a` alone.
  have hnone : ∀ p : Accessor → Bool, hs.filter (fun g => g.key == a.key && p g) = [] := by
    intro p
    refine List.filter_eq_nil_iff.mpr fun g hg hkeep => h ?_
    exact List.mem_map.mpr ⟨g, hg, beq_iff_eq.mp (Bool.and_eq_true_iff.mp hkeep).1⟩
  have hgetters : getters a.key (hs ++ [a]) = [a].filter fun g => !g.hasSetter := by
    rw [getters, List.filter_append, hnone]
    simp [List.filter_cons]
  have hsetters : setters a.key (hs ++ [a]) = [a].filter Accessor.hasSetter := by
    rw [setters, List.filter_append, hnone]
    simp [List.filter_cons]
  rw [joined, joinedType, hgetters, hsetters]
  obtain ⟨name, type, isStatic, isOverride, hasSetter⟩ := a
  cases hasSetter <;> rfl

end

/-! ### Position by position -/

/-- The member that the node at a position gives to its body. A half
gives the accessor of its key if it is the first half of this key. The
accessor is made of all halves of the body, also of those behind the
position. -/
def memberAt (nodes : List MemberNode) (i : Nat) : Option Member :=
  nodes[i]?.bind fun node =>
    match node.half? with
    | some half =>
        if half.key ∈ (halves (nodes.take i)).map Accessor.key then none
        else some (.accessor (joined half.key half.isOverride (halves nodes)))
    | none => node.plain?

/-- The case of a half. -/
theorem memberAt_of_half {nodes : List MemberNode} {i : Nat} {node : MemberNode} {half : Accessor}
    (hnode : nodes[i]? = some node) (hhalf : node.half? = some half) :
    memberAt nodes i = if half.key ∈ (halves (nodes.take i)).map Accessor.key then none
      else some (.accessor (joined half.key half.isOverride (halves nodes))) := by
  rw [memberAt, hnode, Option.bind_some, hhalf]

/-- The case of a method or a property. -/
theorem memberAt_of_plain {nodes : List MemberNode} {i : Nat} {node : MemberNode}
    (hnode : nodes[i]? = some node) (hhalf : node.half? = none) :
    memberAt nodes i = node.plain? := by
  rw [memberAt, hnode, Option.bind_some, hhalf]

/-- A half at a position is one of the halves of the body. -/
theorem mem_halves {nodes : List MemberNode} {i : Nat} {node : MemberNode} {half : Accessor}
    (hnode : nodes[i]? = some node) (hhalf : node.half? = some half) : half ∈ halves nodes :=
  List.mem_filterMap.mpr ⟨node, List.mem_of_getElem? hnode, hhalf⟩

/-- A node that is no half does not change what stands before it. -/
theorem memberAt_concat_of_plain {nodes : List MemberNode} {node : MemberNode}
    (hnode : node.half? = none) {i : Nat} (hi : i < nodes.length) :
    memberAt (nodes ++ [node]) i = memberAt nodes i := by
  rw [memberAt, memberAt, List.getElem?_append_left hi,
    List.take_append_of_le_length (Nat.le_of_lt hi), halves_concat, hnode, Option.toList_none,
    List.append_nil]

/-- A half is absorbed by what stands before it: this is why the
induction is on the body from its end. -/
theorem memberAt_concat_of_half {nodes : List MemberNode} {node : MemberNode} {a : Accessor}
    (hnode : node.half? = some a) {i : Nat} (hi : i < nodes.length) :
    memberAt (nodes ++ [node]) i = (memberAt nodes i).map (absorbed a) := by
  have hold : nodes[i]? = some nodes[i] := List.getElem?_eq_getElem hi
  have hnew : (nodes ++ [node])[i]? = some nodes[i] := by rw [List.getElem?_append_left hi, hold]
  rcases nodes[i].addTo_cases with ⟨half, hhalf, -⟩ | ⟨hhalf, hplain, -⟩
  · rw [memberAt_of_half hnew hhalf, memberAt_of_half hold hhalf,
      List.take_append_of_le_length (Nat.le_of_lt hi), halves_concat, hnode]
    split
    · rfl
    · -- The half at the position is one of its key, so a further one is absorbed.
      have hmem : half.key ∈ (halves nodes).map Accessor.key :=
        List.mem_map.mpr ⟨half, mem_halves hold hhalf, rfl⟩
      rw [Option.toList_some, Option.map_some, absorbed, key_joined]
      split
      · rename_i hkey
        rw [joined_concat hkey.symm hmem]
      · rename_i hkey
        rw [joined_concat_of_ne (Ne.symm hkey)]
  · rw [memberAt_of_plain hnew hhalf, memberAt_of_plain hold hhalf]
    cases hm : nodes[i].plain? with
    | none => rfl
    | some m =>
        have hkey : m.accessorKey? ≠ some a.key := by
          rw [hplain m hm]
          exact nofun
        rw [Option.map_some, absorbed_of_ne hkey]

/-- The members of a body are those of its positions. Reading one more
node changes what stands before it by `absorbed` and adds what stands at
the new position. -/
theorem membersOf_eq (nodes : List MemberNode) :
    membersOf nodes = (List.range nodes.length).filterMap (memberAt nodes) := by
  induction nodes using List.reverseRecOn with
  | nil => rfl
  | append_singleton nodes node ih =>
      obtain ⟨hnodup, hkeys⟩ := accessorKeys_membersOf nodes
      have hlast : (nodes ++ [node])[nodes.length]? = some node := by simp
      have htake : (nodes ++ [node]).take nodes.length = nodes := List.take_left
      rw [membersOf_concat, List.length_append, List.length_singleton, List.range_succ,
        List.filterMap_append]
      rcases node.addTo_cases with ⟨a, hhalf, -, hadd⟩ | ⟨hhalf, -, hadd⟩
      -- The last node is a half. It is absorbed by the accessor of its key, or begins a new
      -- one.
      · have hbefore : (List.range nodes.length).filterMap (memberAt (nodes ++ [node]))
            = (membersOf nodes).map (absorbed a) := by
          rw [ih, List.map_filterMap]
          exact List.filterMap_congr fun i hi =>
            memberAt_concat_of_half hhalf (List.mem_range.mp hi)
        have hat := memberAt_of_half hlast hhalf
        rw [htake] at hat
        rw [hadd, hbefore]
        by_cases hmem : a.key ∈ (halves nodes).map Accessor.key
        · rw [if_pos hmem] at hat
          rw [addAccessor_of_key hnodup ((hkeys a.key).mpr hmem), List.filterMap_cons_none hat,
            List.filterMap_nil, List.append_nil]
        · have hother := ne_of_not_mem_accessorKeys (mt (hkeys a.key).mp hmem)
          rw [if_neg hmem, halves_concat, hhalf, Option.toList_some, joined_new hmem] at hat
          rw [addAccessor_of_new hother, map_absorbed_of_new hother,
            List.filterMap_cons_some hat, List.filterMap_nil]
      -- It is no half, so nothing before it changes.
      · have hbefore : (List.range nodes.length).filterMap (memberAt (nodes ++ [node]))
            = membersOf nodes := by
          rw [ih]
          exact List.filterMap_congr fun i hi =>
            memberAt_concat_of_plain hhalf (List.mem_range.mp hi)
        have hat := memberAt_of_plain hlast hhalf
        rw [hadd, hbefore]
        cases hplain : node.plain? with
        | none => rw [List.filterMap_cons_none (hat.trans hplain)]; rfl
        | some m => rw [List.filterMap_cons_some (hat.trans hplain)]; rfl

/-- An accessor of a body is made of all halves of its key, and overrides
if the first of them does. -/
theorem joined_of_mem_membersOf {nodes : List MemberNode} {a : Accessor}
    (h : .accessor a ∈ membersOf nodes) :
    ∃ first, (halves nodes).find? (fun half => half.key == a.key) = some first
      ∧ a = joined a.key first.isOverride (halves nodes) := by
  rw [membersOf_eq] at h
  obtain ⟨i, hi, hat⟩ := List.mem_filterMap.mp h
  have hlt : i < nodes.length := List.mem_range.mp hi
  have hnode : nodes[i]? = some nodes[i] := List.getElem?_eq_getElem hlt
  rcases nodes[i].addTo_cases with ⟨half, hhalf, -⟩ | ⟨hhalf, hplain, -⟩
  · rw [memberAt_of_half hnode hhalf] at hat
    split at hat
    · cases hat
    · rename_i hfirst
      obtain rfl : joined half.key half.isOverride (halves nodes) = a :=
        Member.accessor.inj (Option.some.inj hat)
      -- The position gives an accessor, so no half before it has its key.
      refine ⟨half, List.find?_eq_some_iff_append.mpr ⟨by simp, halves (nodes.take i),
        halves (nodes.drop (i + 1)), ?_, fun g hg => ?_⟩, rfl⟩
      · conv_lhs => rw [← List.take_append_drop i nodes, List.drop_eq_getElem_cons hlt]
        rw [halves, List.filterMap_append, List.filterMap_cons_some hhalf]
        rfl
      · have hother : g.key ≠ half.key := fun hkey => hfirst (List.mem_map.mpr ⟨g, hg, hkey⟩)
        simpa using hother
  · rw [memberAt_of_plain hnode hhalf] at hat
    cases hplain _ hat

/-- The accessors of a body. Position by position, a method or a property
gives itself, and a getter or a setter the accessor of its key if it is
the first half of it. So there is one accessor for each key that some
half has; it can be written if there is a setter of the key; its type is
that of the last getter, or of the first setter if there is no getter; it
overrides if the first half does. Methods and properties are those of the
body, in order. -/
theorem membersOf_accessors (nodes : List MemberNode) :
    membersOf nodes = (List.range nodes.length).filterMap (memberAt nodes)
      ∧ (accessorKeys (membersOf nodes)).Nodup
      ∧ (∀ key, key ∈ accessorKeys (membersOf nodes) ↔ ∃ half ∈ halves nodes, half.key = key)
      ∧ (∀ a, .accessor a ∈ membersOf nodes →
          (a.hasSetter = true ↔ ∃ half ∈ halves nodes, half.key = a.key ∧ half.hasSetter = true)
            ∧ a.type = joinedType a.key (halves nodes)
            ∧ ∃ first, (halves nodes).find? (fun half => half.key == a.key) = some first
                ∧ a.isOverride = first.isOverride)
      ∧ (membersOf nodes).filter (fun m => m.accessorKey?.isNone)
          = nodes.filterMap MemberNode.plain? := by
  obtain ⟨hnodup, hkeys⟩ := accessorKeys_membersOf nodes
  refine ⟨membersOf_eq nodes, hnodup, fun key => (hkeys key).trans List.mem_map, fun a ha => ?_,
    filter_membersOf nodes⟩
  -- An accessor is the join of all the halves under its key; what it shows is read off the
  -- join.
  obtain ⟨first, hfirst, hjoined⟩ := joined_of_mem_membersOf ha
  refine ⟨?_, congrArg Accessor.type hjoined, first, hfirst,
    (congrArg Accessor.isOverride hjoined).trans rfl⟩
  have hsetter : a.hasSetter = !(setters a.key (halves nodes)).isEmpty :=
    congrArg Accessor.hasSetter hjoined
  rw [hsetter]
  simp [setters]

end Source

end Externals
