import Externals.Proofs.Project.TypeNames
import Externals.Proofs.Scope.Resolution

/-!
# `Externals.Proofs.Project.TypePositions`: what type positions refer to

A type position that refers to a plain name is mapped to that name if it
can be located, before any other rule is looked at. Names are located by
declarations, and functions are declarations as well. So a position can
refer to a function, and then hide a type of the same name farther out.
A position without annotation reads `any`; it refers to whatever is
called `any` around it.

`TypesOnly` says that this does not happen. It comes down to the single
scopes: where a plain name leads to a function, the function must share
its name with a class or an interface.

* `TypeRef.dot_not_mem_symbol`: plain names have no dot.
* `SymbolIndex.Consistent.refersTo_iff`: type positions can refer to
  exactly what a plain name leads to at some scope.
* `Viewpoint.map_implicitAny_iff`: when a position without annotation is
  mapped to `JsAny`.
* `types_of_positions`: what positions refer to, in terms of the
  statements of the files.
* `not_typesOnly_hidingFunctions`: functions called like a class farther
  out, and like `any`.
-/

set_option autoImplicit false

namespace Externals

/-! ### Plain names of type positions -/

/-- The plain name of a type position has no dot, whether the type came
as a tree or as a text. Names with a dot are referred to in another
way. -/
theorem TypeRef.dot_not_mem_symbol {type : TypeRef} {name : String}
    (h : type.describe.symbol = some name) : '.' ∉ name.toList := by
  cases type with
  | resolved t =>
      cases t with
      | reference text n args =>
          obtain ⟨hdot, hname⟩ := Option.ite_none_left_eq_some.mp h
          cases hname
          simpa using hdot
      | plain text shape => cases h
      | array text element => cases h
      | nullable text inner => cases h
  | unresolved text =>
      -- The text is a name itself, or one with arguments.
      change (TypeText.ofString text).symbol? = some name at h
      rw [TypeText.symbol?] at h
      split at h
      · rename_i hname
        cases h
        rw [TypeText.text, String.toList_ofList]
        exact dot_not_mem_of_isName hname
      · obtain ⟨g, hgeneric, rfl⟩ := Option.map_eq_some_iff.mp h
        rw [String.toList_ofList]
        exact dot_not_mem_of_isName (Option.filter_eq_some_iff.mp hgeneric).2

/-- A reference to a name without a dot has this name. So every such
name is the plain name of some position. -/
theorem symbol_plainReference {name : String} (h : '.' ∉ name.toList) :
    (Project.plainReference name).describe.symbol = some name := by
  show (if name.toList.contains '.' then none else some name) = some name
  rw [if_neg (by simpa using h)]

/-! ### Positions that refer to a declaration -/

/-- A type position has a plain name, and the name is located. Then the
mapping writes the name and asks nothing else about the type. -/
def Viewpoint.RefersTo (v : Viewpoint) (type : TypeRef) (name : String) (l : Location) : Prop :=
  type.describe.symbol = some name ∧ v.locate name = some l

namespace SymbolIndex

/-- A scope declares a class or an interface of the name. -/
def DeclaresType (ix : SymbolIndex) (name : String) (i : Nat) : Prop :=
  ⟨.classType, name⟩ ∈ (ix.declarationsOf i).keys
    ∨ ⟨.interfaceType, name⟩ ∈ (ix.declarationsOf i).keys

/-- The keys of a scope are a list, so this can be decided. -/
instance (ix : SymbolIndex) (name : String) (i : Nat) : Decidable (ix.DeclaresType name i) :=
  inferInstanceAs (Decidable (_ ∨ _))

/-- Type positions refer to classes and interfaces only, wherever they
stand and wherever they are written. -/
def TypesOnly (ix : SymbolIndex) : Prop :=
  ∀ home origin type name l, Viewpoint.RefersTo ⟨ix, home, origin⟩ type name l →
    ix.DeclaresType l.name l.scope

/-- A name without a dot leads to the location at some scope. The scope
need not be the one of the declaration: an import leads there too,
perhaps under another name. -/
def Referable (ix : SymbolIndex) (l : Location) : Prop :=
  ∃ name i, '.' ∉ name.toList ∧ ix.Leads name i l

/-- What is no type is a function: there is no third kind of
declaration. -/
theorem declares_iff {ix : SymbolIndex} {name : String} {i : Nat} :
    ix.Declares name i
      ↔ ix.DeclaresType name i ∨ ⟨.function, name⟩ ∈ (ix.declarationsOf i).keys := by
  constructor
  · rintro ⟨kind, hkey⟩
    cases kind with
    | function => exact .inr hkey
    | classType => exact .inl (.inl hkey)
    | interfaceType => exact .inl (.inr hkey)
  · rintro ((hkey | hkey) | hkey)
    · exact ⟨_, hkey⟩
    · exact ⟨_, hkey⟩
    · exact ⟨_, hkey⟩

/-- What a name leads to is declared. -/
theorem Referable.declares {ix : SymbolIndex} {l : Location} (h : ix.Referable l) :
    ix.Declares l.name l.scope := by
  obtain ⟨name, i, -, hleads⟩ := h
  exact hleads.declares

/-- What a scope declares, its own name leads to. -/
theorem referable_of_declares {ix : SymbolIndex} {name : String} {i : Nat}
    (hdot : '.' ∉ name.toList) (h : ix.Declares name i) : ix.Referable ⟨i, name⟩ :=
  ⟨name, i, hdot, .declared h⟩

/-- Type positions can refer to what a plain name leads to. A name is
located at the nearest scope that knows it, and seen from the scope
where it leads somewhere, that is this scope. -/
theorem Consistent.refersTo_iff {ix : SymbolIndex} (h : ix.Consistent) {l : Location} :
    (∃ home origin type name, Viewpoint.RefersTo ⟨ix, home, origin⟩ type name l)
      ↔ ix.Referable l := by
  constructor
  · rintro ⟨home, origin, type, name, hsymbol, hlocate⟩
    rw [Viewpoint.locate_eq] at hlocate
    obtain ⟨i, -, hleads⟩ := h.locate_iff.mp hlocate
    exact ⟨name, i, TypeRef.dot_not_mem_symbol hsymbol, hleads⟩
  · -- Seen from the scope itself, nothing hides the name.
    rintro ⟨name, i, hdot, hleads⟩
    refine ⟨i, i, Project.plainReference name, name, symbol_plainReference hdot, ?_⟩
    rw [Viewpoint.locate_eq]
    exact h.locate_iff.mpr ⟨i, .self hleads.knows, hleads⟩

/-- Type positions refer to types only, if names lead to types only. A
function may be referred to if it shares its name with a type of its
scope. -/
theorem Consistent.typesOnly_iff {ix : SymbolIndex} (h : ix.Consistent) :
    ix.TypesOnly ↔ ∀ l, ix.Referable l →
      ⟨.function, l.name⟩ ∈ (ix.declarationsOf l.scope).keys → ix.DeclaresType l.name l.scope := by
  -- What can be referred to is declared, as a type or as a function; so only the functions
  -- are in question.
  constructor
  · intro htypes l hreferable _
    obtain ⟨home, origin, type, name, hrefers⟩ := h.refersTo_iff.mpr hreferable
    exact htypes home origin type name l hrefers
  · intro hfunctions home origin type name l hrefers
    have hreferable : ix.Referable l := h.refersTo_iff.mp ⟨home, origin, type, name, hrefers⟩
    rcases declares_iff.mp hreferable.declares with htype | hkey
    · exact htype
    · exact hfunctions l hreferable hkey

end SymbolIndex

/-! ### Positions without annotation -/

/-- A position without annotation has the plain name `any`. -/
theorem symbol_implicitAny : TypeRef.implicitAny.describe.symbol = some "any" := by decide +kernel

namespace Viewpoint

/-- It is mapped like a name: the name is looked for first, and only
then the rule for `any` applies. -/
theorem map_implicitAny (v : Viewpoint) (p : Position) :
    v.map p .implicitAny = v.symbolOr p "any" (some "any") (pure { base := "JsAny" }) := by
  have hreading : Reading.of .implicitAny = .atom "any" (some "any") .dynamic :=
    ofText_word .any
  rw [map, hreading]
  rfl

/-- A position without annotation is mapped to `JsAny`, unless something
is called `any` around it. Any declaration of that name will do, also a
function. -/
theorem map_implicitAny_iff (v : Viewpoint) (p : Position) :
    v.map p .implicitAny = pure { base := "JsAny" } ↔ v.locate "any" = none := by
  -- A declared `any` is printed under its own name, which is not the name the rule gives.
  cases hl : v.locate "any" with
  | none =>
      rw [map_implicitAny]
      simp only [symbolOr, resolve, hl, iff_true]
      rfl
  | some l =>
      have hbase := (map_of_locate symbol_implicitAny hl p).1
      simp only [reduceCtorEq, iff_false]
      intro hmap
      rw [hmap] at hbase
      exact absurd hbase (by decide)

end Viewpoint

/-! ### Positions of a project -/

namespace Project

/-- What the type positions of a new project can refer to, for any files
that it collects. A position with a located name is mapped to the name,
and a class, an interface or else a function of the location's name
stands among the statements of its scope. Positions refer to types only,
exactly if each function that a plain name leads to has the name of a
class or an interface of its scope; functions without a dot in their
names are among these. A position without annotation is mapped to
`JsAny` exactly if no scope around it knows the name `any`, and to `any`
otherwise. -/
theorem types_of_positions (c : Conventions) (files : List SourceFile) :
    let ix := ((Project.initial c).collect files).index
    (∀ name i, ix.DeclaresType name i
        ↔ ∃ s ∈ ix.statementsOf files i, s.typeName? = some name)
      ∧ (∀ home origin type name l, Viewpoint.RefersTo ⟨ix, home, origin⟩ type name l →
          (∀ p, (Viewpoint.map ⟨ix, home, origin⟩ p type).value.base = name)
            ∧ ((∃ s ∈ ix.statementsOf files l.scope, s.typeName? = some l.name)
              ∨ ∃ s ∈ ix.statementsOf files l.scope, s.key? = some ⟨.function, l.name⟩))
      ∧ (ix.TypesOnly ↔ ∀ name i, ix.Referable ⟨i, name⟩ →
          (∃ s ∈ ix.statementsOf files i, s.key? = some ⟨.function, name⟩) →
            ∃ s ∈ ix.statementsOf files i, s.typeName? = some name)
      ∧ (∀ name i, '.' ∉ name.toList →
          (∃ s ∈ ix.statementsOf files i, s.key? = some ⟨.function, name⟩) →
            ix.Referable ⟨i, name⟩)
      ∧ ∀ home origin p,
          (Viewpoint.map ⟨ix, home, origin⟩ p .implicitAny = pure { base := "JsAny" }
              ↔ ∀ i, ix.Within origin i → ¬ ix.Knows "any" i)
            ∧ ((∃ i, ix.Within origin i ∧ ix.Knows "any" i) →
              (Viewpoint.map ⟨ix, home, origin⟩ p .implicitAny).value.base = "any") := by
  intro ix
  have hix : ix.Consistent := (Reached.initial.collect files).standing.consistent
  -- Everything below speaks of keys in the index; these two facts turn it into statements of
  -- the files.
  have hkeys : ∀ {i key}, key ∈ (ix.declarationsOf i).keys
      ↔ ∃ s ∈ ix.statementsOf files i, s.key? = some key :=
    mem_keys_collect_initial c files
  have htypes : ∀ name i, ix.DeclaresType name i
      ↔ ∃ s ∈ ix.statementsOf files i, s.typeName? = some name := by
    intro name i
    rw [SymbolIndex.DeclaresType, hkeys, hkeys, ← exists_or]
    refine exists_congr fun s => ?_
    rw [Statement.typeName?_eq_some_iff, and_or_left]
  refine ⟨htypes, fun home origin type name l hrefers => ⟨fun p => ?_, ?_⟩, ?_,
    fun name i hdot hfunction => ?_, fun home origin p => ⟨?_, fun hknown => ?_⟩⟩
  · exact (Viewpoint.map_of_locate hrefers.1 hrefers.2 p).1
  · have hdeclares := (hix.refersTo_iff.mp ⟨home, origin, type, name, hrefers⟩).declares
    rwa [SymbolIndex.declares_iff, htypes, hkeys] at hdeclares
  · rw [hix.typesOnly_iff]
    simp only [htypes, hkeys]
    exact ⟨fun h name i => h ⟨i, name⟩, fun h l => h l.name l.scope⟩
  · exact SymbolIndex.referable_of_declares hdot ⟨_, hkeys.mpr hfunction⟩
  · rw [Viewpoint.map_implicitAny_iff, Viewpoint.locate_eq, Option.eq_none_iff_forall_ne_some,
      ← not_exists, hix.exists_locate_iff]
    simp only [not_exists, not_and]
  · obtain ⟨l, hl⟩ := hix.exists_locate_iff.mpr hknown
    exact (Viewpoint.map_of_locate symbol_implicitAny (Viewpoint.locate_of_origin hl) p).1

/-- A class outside of all modules, and a module with a function of the
same name and a function `any`. A third function has a parameter without
annotation, one of type `any`, and one of the class. -/
def hidingFunctions : List SourceFile :=
  [⟨"m.d.ts",
    [.global [.classDecl ⟨some "Foo", none, [], []⟩],
     ⟨"m", .ambient,
      [.function ⟨some "Foo", [], .resolved (.plain "void" .void), false⟩,
       .function ⟨some "any", [], .resolved (.plain "void" .void), false⟩,
       .function ⟨some "f",
         [⟨"a", .implicitAny, false, false⟩, ⟨"b", .resolved (.plain "any" .any), false, false⟩,
          ⟨"c", plainReference "Foo", false, false⟩],
         .resolved (.plain "void" .void), false⟩]⟩]⟩]

/-- The parameter without annotation gets the name of a function for its
type, and the class is not imported. -/
theorem not_typesOnly_hidingFunctions :
    ((Project.initial {}).transform hidingFunctions).2
        = [⟨"org/node/global.kt", "package org.node\n\nopen external class Foo() \x7b\x7d\n"⟩,
           ⟨"org/node/m/m.kt",
              "@file:JsModule(\"m\")\n\npackage org.node.m\n\nexternal fun Foo(): Unit\n\n"
                ++ "external fun any(): Unit\n\nexternal fun f(a: any, b: JsAny, c: Foo): Unit\n"⟩]
      ∧ ¬ ((Project.initial {}).collect hidingFunctions).index.TypesOnly := by
  refine ⟨by decide +kernel, fun htypes => ?_⟩
  have hfoo := htypes 1 1 (plainReference "Foo") "Foo" ⟨1, "Foo"⟩ ⟨by decide, by decide +kernel⟩
  exact absurd hfoo (by decide +kernel)

end Project

end Externals
