import Externals.Project.Collect
import Externals.Proofs.Imports.Shelf
import Externals.Proofs.Mapping.Symbol

/-!
# `Externals.Proofs.Mapping.Visibility`: names that the home file can use

A plain name that the scopes resolve is written as it is. The text
lands in the file of the home scope, where the name means something in
two cases: the header holds an import that makes it visible, or the
declaration has that very name and stands in the package of the file.
`Viewpoint.Visible` says so of a located name.

Resolving a name asks for an import only if the name was located
outside the home scope. A name that is located inside it is taken for
one of its declarations. It need not be one: a scope can import a
declaration of the home scope under another name, and seen from there
the located name is not the name that is written. The home scope can do
so itself, and the members of an interface that are drafted for a class
elsewhere see the imports of their own scope.

* `Viewpoint.importFor?_eq_none_iff`: the names that need no import.
* `SymbolIndex.exists_import_of_renamed`: a name that is located under
  another one was imported so.
* `Viewpoint.visible_resolve_iff`: after resolving, a name is visible
  exactly if it was not located in the home scope under another name.
-/

set_option autoImplicit false

namespace Externals

/-- A header holds an import of a name from a package, under the name
it makes visible. -/
def Headers.Imports (h : Headers) (header : Nat) (visible package name : String) : Prop :=
  ∃ line, (h.importsOf header).get? visible = some line
    ∧ line.key = visible ∧ line.package = package ∧ line.name = name

/-! ### Locations -/

namespace SymbolIndex

/-- What one scope says about a name: it declares it, or it imports it
from a module that declares what is imported. -/
theorem locateAt_eq_some_iff {ix : SymbolIndex} {name : String} {id : Nat} {l : Location} :
    ix.locateAt name id = some l
      ↔ (ix.declaresAt id name = true ∧ l = ⟨id, name⟩)
        ∨ (ix.declaresAt id name = false
            ∧ ∃ source, ix.importAt id name = some (.named source l.name)
              ∧ ix.resolveModule source = some l.scope
              ∧ ix.declaresAt l.scope l.name = true) := by
  unfold locateAt
  -- The scope's own declaration hides what it brings in under the same name.
  cases hdeclares : ix.declaresAt id name with
  | true =>
      simp only [if_true, Option.some.injEq, true_and, Bool.true_eq_false, false_and, or_false]
      exact eq_comm
  | false =>
      simp only [Bool.false_eq_true, if_false, false_and, true_and, false_or]
      constructor
      · intro hat
        split at hat
        · rename_i source imported himport
          split at hat
          · rename_i target htarget
            obtain ⟨hdeclared, hl⟩ := Option.ite_none_right_eq_some.mp hat
            cases hl
            exact ⟨source, himport, htarget, hdeclared⟩
          · cases hat
        · cases hat
      · rintro ⟨source, himport, htarget, hdeclared⟩
        rw [himport]
        simp [htarget, hdeclared]

/-- A name that is located under another one was imported so by a scope
of the chain. -/
theorem exists_import_of_renamed {ix : SymbolIndex} {id : Nat} {name : String} {l : Location}
    (hl : ix.locate id name = some l) (hne : l.name ≠ name) :
    ∃ i ∈ ix.chain id, ∃ source, ix.importAt i name = some (.named source l.name)
      ∧ ix.resolveModule source = some l.scope := by
  obtain ⟨i, hi, hat⟩ := List.exists_of_findSome?_eq_some hl
  rcases locateAt_eq_some_iff.mp hat with ⟨-, heq⟩ | ⟨-, source, himport, htarget, -⟩
  · exact absurd (congrArg Location.name heq) hne
  · exact ⟨i, hi, source, himport, htarget⟩

end SymbolIndex

/-! ### Imports of located names -/

namespace Viewpoint

variable {v : Viewpoint} {name : String} {l : Location}

/-- A name leads where the scopes locate it. That a scope has the name
follows, so the question that comes first is answered. -/
theorem locate_of_origin (hl : v.index.locate v.origin name = some l) : v.locate name = some l := by
  rw [Viewpoint.locate, if_pos (SymbolIndex.hasName_of_locate hl), hl]

/-- That some scope around has the name is asked first, and never
decides: where no scope has it, none locates it either. -/
theorem locate_eq (v : Viewpoint) (name : String) :
    v.locate name = v.index.locate v.origin name := by
  cases hl : v.index.locate v.origin name with
  | some l => exact locate_of_origin hl
  | none => rw [locate, hl, ite_self]

/-- The names that need no import: those that are located in the home
scope, and those that have their own name in the package of the home
file. In the first case the name is not looked at. -/
theorem importFor?_eq_none_iff :
    v.importFor? name l = none
      ↔ l.scope = v.home
        ∨ (l.name = name ∧ v.index.packageOf l.scope = v.index.packageOf v.home) := by
  by_cases hhome : l.scope = v.home
  · simp [importFor?, hhome]
  · by_cases hname : l.name = name
    · simp [importFor?, hhome, hname]
    · simp [importFor?, hhome, hname]

/-- An import names the declaration and its package, and makes the name
visible that is written. If the declaration has another name, the import
renames it. -/
theorem of_importFor? {line : ImportLine} (h : v.importFor? name l = some line) :
    line.key = name ∧ line.package = v.index.packageOf l.scope ∧ line.name = l.name := by
  simp only [importFor?] at h
  obtain ⟨-, hline⟩ := Option.ite_none_right_eq_some.mp h
  cases hline
  refine ⟨?_, rfl, rfl⟩
  by_cases hname : l.name = name
  · simp [ImportLine.key, hname]
  · simp [ImportLine.key, hname]

/-- An import is kept under the name that it was asked for. -/
theorem key_of_importFor? {line : ImportLine} (h : v.importFor? name l = some line) :
    line.key = name := (of_importFor? h).1

/-! ### Visible names -/

/-- A located name means its declaration in the home file: the header
imports it, or it stands in the package under that name. The scope that
it is located in does not count, only the package of that scope. -/
def Visible (v : Viewpoint) (h : Headers) (header : Nat) (name : String) (l : Location) : Prop :=
  h.Imports header name (v.index.packageOf l.scope) l.name
    ∨ (l.name = name ∧ v.index.packageOf l.scope = v.index.packageOf v.home)

/-- A located name is resolved, and asks for the import it needs. -/
theorem resolve_of_origin (hl : v.index.locate v.origin name = some l) :
    v.resolve name = ⟨true, (v.importFor? name l).toList, []⟩ := by
  rw [resolve, locate_of_origin hl]

/-- Recording the import of a name makes it visible. An import that was
kept under the name before is replaced. -/
theorem imports_addImports {line : ImportLine} (hline : v.importFor? name l = some line)
    (h : Headers) {header : Nat} (hheader : header < h.size) :
    (h.addImports header [line]).Imports header name (v.index.packageOf l.scope) l.name := by
  obtain ⟨hkey, hpackage, hname⟩ := of_importFor? hline
  refine ⟨line, ?_, hkey, hpackage, hname⟩
  rw [h.importsOf_addImports_self hheader, Table.get?_insertAll]
  simp [keyed, Table.latest?, hkey]

/-- A located name is resolved. Afterwards the home file can use it,
unless it was located in the home scope under another name and the
header did not import it before; and that happens only if a scope of
the chain imports a declaration of the home scope under the name. -/
theorem visible_resolve_iff (hl : v.index.locate v.origin name = some l) (h : Headers)
    {header : Nat} (hheader : header < h.size) :
    (v.resolve name).value = true
      ∧ (v.Visible (h.addImports header (v.resolve name).imports) header name l
          ↔ (l.scope = v.home → l.name = name
              ∨ h.Imports header name (v.index.packageOf l.scope) l.name))
      ∧ (l.scope = v.home → l.name ≠ name →
          ∃ i ∈ v.index.chain v.origin, ∃ source,
            v.index.importAt i name = some (.named source l.name)
              ∧ v.index.resolveModule source = some v.home) := by
  rw [resolve_of_origin hl]
  refine ⟨rfl, ?_, fun hhome hne => ?_⟩
  · dsimp only
    cases himport : v.importFor? name l with
    | some line =>
        -- An import is asked for, so the name is visible, and it was not located at home.
        have hvisible := imports_addImports himport h hheader
        have hhome : l.scope ≠ v.home := by
          intro heq
          rw [importFor?_eq_none_iff.mpr (.inl heq)] at himport
          cases himport
        exact ⟨fun _ heq => absurd heq hhome, fun _ => .inl hvisible⟩
    | none =>
        -- No import is asked for, so the header is as before.
        show v.Visible h header name l ↔ _
        rcases importFor?_eq_none_iff.mp himport with hhome | hsame
        · have hpackage : v.index.packageOf l.scope = v.index.packageOf v.home := by rw [hhome]
          unfold Visible
          constructor
          · rintro (hheld | ⟨hname, -⟩) -
            · exact .inr hheld
            · exact .inl hname
          · intro hcond
            rcases hcond hhome with hname | hheld
            · exact .inr ⟨hname, hpackage⟩
            · exact .inl hheld
        · exact ⟨fun _ _ => .inl hsame.1, fun _ => .inr hsame⟩
  · rw [← hhome]
    exact SymbolIndex.exists_import_of_renamed hl hne

/-- The module `b` imports the class `A` of `m` as `X`, and a member of
its interface `B` speaks of `X`. The class `C` of `m` is fused with an
interface that extends `B`. -/
def renamedHome : List SourceFile :=
  [⟨"m.d.ts",
    [⟨"m", .ambient,
      [.importDecl ⟨"b", [.named "B" none]⟩,
       .classDecl ⟨some "A", none, [], []⟩,
       .classDecl ⟨some "C", none, [], []⟩,
       .interfaceDecl ⟨some "C", [.resolved (.reference "B" "B" [])], []⟩]⟩,
     ⟨"b", .ambient,
      [.importDecl ⟨"m", [.named "A" (some "X")]⟩,
       .interfaceDecl ⟨some "B", [],
        [.method ⟨.identifier "make", [], .resolved (.reference "X" "X" []), false, false, false,
          false⟩]⟩]⟩]⟩]

/-- In its own module `X` is visible. Drafted for `C`, it is written in
the file of `m`, which does not know it. -/
theorem not_visible_renamedHome :
    let p := (Project.initial {}).collect renamedHome
    let own : Viewpoint := ⟨p.index, 2, 2⟩
    let fused : Viewpoint := ⟨p.index, 1, 2⟩
    p.index.locate 2 "X" = some ⟨1, "A"⟩
      ∧ own.Visible (p.headers.addImports (p.headerOf 2) (own.resolve "X").imports)
          (p.headerOf 2) "X" ⟨1, "A"⟩
      ∧ (fused.resolve "X").value = true
      ∧ ¬ fused.Visible (p.headers.addImports (p.headerOf 1) (fused.resolve "X").imports)
          (p.headerOf 1) "X" ⟨1, "A"⟩ := by
  intro p own fused
  have hl : p.index.locate 2 "X" = some ⟨1, "A"⟩ := by decide +kernel
  have hempty : (p.headers.importsOf (p.headerOf 1)).get? "X" = none := by decide +kernel
  have hheader : ∀ id < 3, p.headerOf id < p.headers.size := by decide +kernel
  obtain ⟨-, hown, -⟩ := visible_resolve_iff (v := own) hl p.headers (hheader 2 (by decide))
  obtain ⟨hvalue, hfused, -⟩ :=
    visible_resolve_iff (v := fused) hl p.headers (hheader 1 (by decide))
  -- Scope 2 calls it `X`, its home declares it as `A`, and no line there brings `X` in.
  refine ⟨hl, hown.mpr nofun, hvalue, fun hvisible => ?_⟩
  rcases hfused.mp hvisible rfl with hname | ⟨line, hline, -⟩
  · exact absurd hname (by decide)
  · rw [hempty] at hline
    cases hline

end Viewpoint

end Externals
