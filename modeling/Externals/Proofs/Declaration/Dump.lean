import Externals.Declaration.Dump
import Externals.Proofs.Json.Pretty

/-!
# `Externals.Proofs.Declaration.Dump`: the dump loses nothing

Two files with one dump are equal, and so is everything in them:
modules at any nesting, statements, members, parameters and types of any
depth (`dump_eq_iff`). No field is left out, and nothing is told apart by
its place only: the tags under `statement` and `kind` and the names of the
fields are enough to find the constructor of every node.

The pretty form shows the whole value (`Json.pretty_inj`), so what is left
is that no two nodes have one value. This is said node by node, along the
constructors. The two types that contain themselves, resolved types and
statements, are taken together with the lists of their parts.
-/

set_option autoImplicit false

namespace Externals

open Json (obj str arr bool)

/-- An absent text is told apart from every text, also from the empty
one. -/
@[simp]
theorem Json.optional_inj {a b : Option String} : optional a = optional b ↔ a = b := by
  cases a <;> cases b <;> simp [optional]

/-! ### Types -/

/-- Every plain shape has a word of its own. -/
@[simp]
theorem PlainShape.word_inj {a b : PlainShape} : a.word = b.word ↔ a = b := by
  cases a <;> cases b <;> decide

namespace ResolvedType

/-- The constructor of a type, as a number. The number is found from the
tag under `kind`, before the fields are looked at. -/
def sort : ResolvedType → Nat
  | plain .. => 0
  | array .. => 1
  | nullable .. => 2
  | reference .. => 3

/-- Types of one value have one constructor: the tags differ. -/
theorem sort_eq_of_toJson {a b : ResolvedType} (h : a.toJson = b.toJson) : a.sort = b.sort := by
  cases a <;> cases b <;> simp [toJson, sort] at h ⊢

mutual

/-- Types of one value are equal, part by part. Their lists of arguments
are compared by the other half of the induction. -/
theorem eq_of_toJson (a b : ResolvedType) (h : a.toJson = b.toJson) : a = b := by
  -- The number of the constructor leaves only the pairs of one constructor.
  have hsort := sort_eq_of_toJson h
  match a, b, hsort with
  | plain t s, plain t' s', _ => simpa [toJson] using h
  | array t e, array t' e', _ =>
      have hparts : t = t' ∧ e.toJson = e'.toJson := by simpa [toJson] using h
      rw [hparts.1, eq_of_toJson e e' hparts.2]
  | nullable t e, nullable t' e', _ =>
      have hparts : t = t' ∧ e.toJson = e'.toJson := by simpa [toJson] using h
      rw [hparts.1, eq_of_toJson e e' hparts.2]
  | reference t n as, reference t' n' as', _ =>
      have hparts : t = t' ∧ n = n' ∧ as.map toJson = as'.map toJson := by
        simpa [toJson] using h
      rw [hparts.1, hparts.2.1, eq_of_map_toJson as as' hparts.2.2]

/-- Lists of types with the same values are equal. -/
theorem eq_of_map_toJson (as bs : List ResolvedType) (h : as.map toJson = bs.map toJson) :
    as = bs := by
  match as, bs with
  | [], [] => rfl
  | [], b :: bs => simp at h
  | a :: as, [] => simp at h
  | a :: as, b :: bs =>
      rw [List.map_cons, List.map_cons, List.cons.injEq] at h
      rw [eq_of_toJson a b h.1, eq_of_map_toJson as bs h.2]

end

/-- No two types have one value. -/
@[simp]
theorem toJson_inj {a b : ResolvedType} : a.toJson = b.toJson ↔ a = b :=
  ⟨eq_of_toJson a b, congrArg toJson⟩

end ResolvedType

/-- A type that was not resolved is told apart from every resolved one. -/
@[simp]
theorem TypeRef.toJson_inj {a b : TypeRef} : a.toJson = b.toJson ↔ a = b := by
  cases a <;> cases b <;> simp [toJson]

/-- No base is told apart from every base, because no type has the value
`null`. -/
@[simp]
theorem TypeRef.toJson_getD_inj {a b : Option TypeRef} :
    (a.map toJson).getD .null = (b.map toJson).getD .null ↔ a = b := by
  cases a with
  | none => cases b with
    | none => simp
    | some b => cases b <;> simp [toJson]
  | some a => cases b with
    | none => cases a <;> simp [toJson]
    | some b => simp

/-! ### Members -/

/-- No two parameters have one value. -/
@[simp]
theorem Param.toJson_inj {p q : Param} : p.toJson = q.toJson ↔ p = q := by
  cases p
  cases q
  simp [toJson]

/-- The three ways of writing a name are told apart. -/
@[simp]
theorem MemberName.toJson_inj {m n : MemberName} : m.toJson = n.toJson ↔ m = n := by
  cases m <;> cases n <;> simp [toJson]

/-- No two members have one value: methods, properties and accessors
have tags of their own. -/
@[simp]
theorem Member.toJson_inj {m n : Member} : m.toJson = n.toJson ↔ m = n := by
  obtain ⟨⟨⟩⟩ | ⟨⟨⟩⟩ | ⟨⟨⟩⟩ := m <;> obtain ⟨⟨⟩⟩ | ⟨⟨⟩⟩ | ⟨⟨⟩⟩ := n <;>
    simp [toJson, List.map_inj_right]

/-! ### Statements and files -/

/-- No two bindings of an import have one value. -/
@[simp]
theorem ImportBinding.toJson_inj {a b : ImportBinding} : a.toJson = b.toJson ↔ a = b := by
  cases a <;> cases b <;> simp [toJson]

/-- Every kind of module has a word of its own. -/
@[simp]
theorem ModuleKind.word_inj {a b : ModuleKind} : a.word = b.word ↔ a = b := by
  cases a <;> cases b <;> decide

namespace Statement

/-- The constructor of a statement, as a number. The number is found
from the tag under `statement`. -/
def sort : Statement → Nat
  | function _ => 0
  | classDecl _ => 1
  | interfaceDecl _ => 2
  | moduleDecl .. => 3
  | importDecl _ => 4

/-- Statements of one value have one constructor. -/
theorem sort_eq_of_toJson {a b : Statement} (h : a.toJson = b.toJson) : a.sort = b.sort := by
  cases a <;> cases b <;> simp [toJson, sort] at h ⊢

mutual

/-- Statements of one value are equal. All but modules have no
statements in them, and are compared field by field. -/
theorem eq_of_toJson (a b : Statement) (h : a.toJson = b.toJson) : a = b := by
  -- The number of the constructor leaves only the pairs of one constructor.
  have hsort := sort_eq_of_toJson h
  match a, b, hsort with
  | function c, function d, _ =>
      cases c
      cases d
      simpa [toJson, List.map_inj_right] using h
  | classDecl c, classDecl d, _ =>
      cases c
      cases d
      simpa [toJson, List.map_inj_right] using h
  | interfaceDecl c, interfaceDecl d, _ =>
      cases c
      cases d
      simpa [toJson, List.map_inj_right] using h
  | moduleDecl name kind body, moduleDecl name' kind' body', _ =>
      have hparts : name = name' ∧ kind = kind' ∧ body.map toJson = body'.map toJson := by
        simpa [toJson] using h
      rw [hparts.1, hparts.2.1, eq_of_map_toJson body body' hparts.2.2]
  | importDecl c, importDecl d, _ =>
      cases c
      cases d
      simpa [toJson, List.map_inj_right] using h

/-- Bodies with the same values are equal. -/
theorem eq_of_map_toJson (as bs : List Statement) (h : as.map toJson = bs.map toJson) :
    as = bs := by
  match as, bs with
  | [], [] => rfl
  | [], b :: bs => simp at h
  | a :: as, [] => simp at h
  | a :: as, b :: bs =>
      rw [List.map_cons, List.map_cons, List.cons.injEq] at h
      rw [eq_of_toJson a b h.1, eq_of_map_toJson as bs h.2]

end

end Statement

/-- Modules of one value are equal. -/
theorem Module.eq_of_toJson {m n : Module} (h : m.toJson = n.toJson) : m = n := by
  obtain ⟨name, kind, body⟩ := m
  obtain ⟨name', kind', body'⟩ := n
  have hparts : name = name' ∧ kind = kind' ∧ body.map Statement.toJson
      = body'.map Statement.toJson := by
    simpa [toJson] using h
  rw [hparts.1, hparts.2.1, Statement.eq_of_map_toJson body body' hparts.2.2]

/-- Files with one dump are equal, with everything in them. -/
theorem SourceFile.dump_eq_iff (f g : SourceFile) : f.dump = g.dump ↔ f = g := by
  refine ⟨fun h => ?_, congrArg dump⟩
  obtain ⟨path, modules⟩ := f
  obtain ⟨path', modules'⟩ := g
  have hparts : path = path' ∧ modules.map Module.toJson = modules'.map Module.toJson := by
    simpa [toJson] using Json.pretty_inj h
  have hmodules : modules = modules' :=
    (List.map_inj_right fun _ _ => Module.eq_of_toJson).mp hparts.2
  rw [hparts.1, hmodules]

end Externals
