import Externals.Proofs.Project.Collection
import Externals.Proofs.Project.Placement
import Mathlib.Data.List.Nodup

/-!
# `Externals.Proofs.Project.Rendering`: every declaration in the files

A file lists artifacts, and artifacts are kept by earlier phases, so
what a file holds has to be traced back to what its scope declares. Two
facts carry this. Emission keeps an artifact for every declaration and
in the order of declaration: the keys of artifacts are a front part of
the declared keys at any time (`Reached.keys_prefix`), so emission, which
goes through all declared keys, completes them. And every artifact
renders something, but for the interfaces that a class of their name
renders; there the class itself stands for the scope in the output.

Rendering joins the signatures of a function before it joins artifacts.
Functions have at least one overload (`Reached.overloaded`), so joining
all signatures at once gives the same text (`intercalate_flatMap`).

A file is described here by what a reader finds between its blank lines:
the parts in front (`Project.frontOf`), then the items
(`Project.itemsOf`). Signatures are written out in
`Viewpoint.signatureText`, classes and interfaces line by line in
`Externals.Proofs.Emit.Layout`.

* `Settled`: what holds of a project between runs.
* `Settled.bodyOf_eq`: the artifacts of a scope, from its declarations.
* `fileText_eq`: a file from what stands between its blank lines.
* `render_foldl_transform`: the files after any number of runs.
-/

set_option autoImplicit false

namespace Externals

/-- Entries can be listed by their keys, since no key has two of them. -/
theorem Table.filterMap_entries {κ ν β : Type} [DecidableEq κ] (t : Table κ ν) (f : κ → Bool)
    (g : ν → Option β) :
    (t.entries.filter fun e => f e.1).filterMap (fun e => g e.2)
      = (t.keys.filter f).filterMap fun k => (t.get? k).bind g := by
  rw [keys, List.filter_map, List.filterMap_map]
  refine List.filterMap_congr fun e he => ?_
  have hget : t.get? e.1 = some e.2 := get?_of_mem_entries (List.mem_filter.mp he).1
  simp [hget]

/-- Joined groups can be joined again, if none of them is empty. An
empty group would still be set off by a separator. -/
theorem intercalate_flatMap {α : Type} (sep : String) (f : α → List String) (as : List α)
    (h : ∀ a ∈ as, f a ≠ []) (rest : List String) :
    sep.intercalate (as.map (fun a => sep.intercalate (f a)) ++ rest)
      = sep.intercalate (as.flatMap f ++ rest) := by
  induction as with
  | nil => rfl
  | cons a as ih =>
      have hhead := h a (.head _)
      have htail := ih fun b hb => h b (.tail _ hb)
      rw [List.map_cons, List.flatMap_cons, List.cons_append, List.append_assoc]
      by_cases hnil : as.flatMap f ++ rest = []
      · -- The group is the last one, since the others would have left something.
        rw [List.append_eq_nil_iff, List.flatMap_eq_nil_iff] at hnil
        have has : as = [] := List.eq_nil_iff_forall_not_mem.mpr fun b hb =>
          h b (.tail _ hb) (hnil.1 b hb)
        simp [has, hnil.2]
      · have hmore : as.map (fun a => sep.intercalate (f a)) ++ rest ≠ [] := by
          intro hmap
          rw [List.append_eq_nil_iff, List.map_eq_nil_iff] at hmap
          exact hnil (by rw [hmap.1, hmap.2]; rfl)
        rw [String.intercalate_cons_of_ne_nil hmore, String.intercalate_append_of_ne_nil hhead hnil,
          htail]

/-! ### Signatures -/

namespace Viewpoint

/-- A parameter as it is written: its name and type. A rest parameter
takes any number of values. -/
def parameterText (v : Viewpoint) (param : Param) : String :=
  if param.rest then "vararg " ++ kotlinName param.name ++ ": JsAny"
  else kotlinName param.name ++ ": "
    ++ (v.map { name := some param.name } param.type).value.render

/-- A signature as it is written: the name of the function, its
parameters and its result. -/
def signatureText (v : Viewpoint) (name : String) (decl : FunctionDecl) : String :=
  "external fun " ++ kotlinName name
    ++ "(" ++ ", ".intercalate (decl.params.map v.parameterText) ++ "): "
    ++ (v.draftReturn { name := some name } decl.returns decl.isAsync).value.render

/-- What is drafted for a parameter is its text. -/
theorem value_draftParam (v : Viewpoint) (param : Param) :
    (v.draftParam none param).value = v.parameterText param := by
  unfold draftParam parameterText
  cases param.rest <;> rfl

/-- What is drafted for an overload is its signature. -/
theorem value_draftSignature (v : Viewpoint) (name : String) (decl : FunctionDecl) :
    (v.draftSignature name decl).value = v.signatureText name decl := by
  have hparams : (v.draftParams none decl.params).value
      = ", ".intercalate (decl.params.map v.parameterText) := by
    have htexts := Draft.value_each (v.draftParam none) decl.params
    rw [List.map_congr_left fun param _ => v.value_draftParam param] at htexts
    exact congrArg (", ".intercalate ·) htexts
  unfold signatureText
  exact congrArg (fun params => "external fun " ++ kotlinName name ++ "(" ++ params ++ "): "
    ++ (v.draftReturn { name := some name } decl.returns decl.isAsync).value.render) hparams

end Viewpoint

/-! ### What a scope declares, kind by kind -/

namespace SymbolIndex

/-- The names a scope declares of a kind, in the order of declaration. A
name can be declared once of each kind. -/
def namesOf (ix : SymbolIndex) (id : Nat) (kind : DeclKind) : List String :=
  ((ix.declarationsOf id).keys.filter fun key => key.kind == kind).map DeclKey.name

/-- The names of the interfaces of a scope that has no class of their
name. These are rendered on their own. -/
def loneInterfaces (ix : SymbolIndex) (id : Nat) : List String :=
  (ix.namesOf id .interfaceType).filter fun name =>
    decide (⟨.classType, name⟩ ∉ (ix.declarationsOf id).keys)

/-- The overloads of a function of a scope, in the order of the text. -/
def overloadsOf (ix : SymbolIndex) (id : Nat) (name : String) : List FunctionDecl :=
  match (ix.declarationsOf id).get? ⟨.function, name⟩ with
  | some (.functions overloads) => overloads
  | _ => []

/-- One signature for each of them. -/
def signaturesOf (ix : SymbolIndex) (id : Nat) (name : String) : List String :=
  (ix.overloadsOf id name).map ((Viewpoint.within ix id).signatureText name)

/-- Every function has an overload. Without one it would have an
artifact with an empty text, and leave two blank lines in the file. -/
def Overloaded (ix : SymbolIndex) : Prop :=
  ∀ id key overloads, (ix.declarationsOf id).get? key = some (.functions overloads) →
    overloads ≠ []

/-- A name is declared of a kind iff the scope has the key. -/
theorem mem_namesOf {ix : SymbolIndex} {id : Nat} {kind : DeclKind} {name : String} :
    name ∈ ix.namesOf id kind ↔ ⟨kind, name⟩ ∈ (ix.declarationsOf id).keys := by
  simp only [namesOf, List.mem_map, List.mem_filter, beq_iff_eq]
  constructor
  · rintro ⟨key, ⟨hkey, rfl⟩, rfl⟩
    exact hkey
  · exact fun hkey => ⟨_, ⟨hkey, rfl⟩, rfl⟩

/-- No name comes up twice. -/
theorem nodup_namesOf (ix : SymbolIndex) (id : Nat) (kind : DeclKind) :
    (ix.namesOf id kind).Nodup := by
  have hkeys : (ix.declarationsOf id).keys.Nodup := (ix.declarationsOf id).nodup_keys
  refine List.Nodup.map_on (fun key hkey key' hkey' hname => ?_) (hkeys.filter _)
  have hkind : ∀ k ∈ (ix.declarationsOf id).keys.filter (fun k => k.kind == kind), k.kind = kind :=
    fun k hk => by simpa using (List.mem_filter.mp hk).2
  cases key
  cases key'
  simp only [DeclKey.mk.injEq]
  exact ⟨(hkind _ hkey).trans (hkind _ hkey').symm, hname⟩

/-- The keys of a kind are its names, in the same order. -/
theorem filter_keys (ix : SymbolIndex) (id : Nat) (kind : DeclKind) :
    (ix.declarationsOf id).keys.filter (fun key => key.kind == kind)
      = (ix.namesOf id kind).map fun name => ⟨kind, name⟩ := by
  rw [namesOf, List.map_map]
  refine (List.map_id _).symm.trans (List.map_congr_left fun key hkey => ?_)
  have hkind : key.kind = kind := by simpa using (List.mem_filter.mp hkey).2
  show key = ⟨kind, key.name⟩
  rw [← hkind]

end SymbolIndex

/-- Statements declare no function without an overload: the declaration
is made of the functions that were found. -/
theorem declaredUnder_overloads {key : DeclKey} {ss : List Statement}
    {overloads : List FunctionDecl} (h : declaredUnder key ss = some (.functions overloads)) :
    overloads ≠ [] := by
  simp only [declaredUnder] at h
  -- Only under a function's key can there be overloads, and there an empty list counts as
  -- nothing.
  split at h
  · split at h
    · cases h
    · rename_i hne
      cases h
      exact hne
  all_goals
    obtain ⟨decl, -, hdecl⟩ := Option.map_eq_some_iff.mp h
    cases hdecl

/-- Nothing is fused into a draft. So an artifact without what was fused
can be compared to its draft. -/
theorem SymbolIndex.map_unfused_draftOf (ix : SymbolIndex) (id : Nat) (e : DeclKey × Declaration) :
    (ix.draftOf id e).value.map Artifact.unfused = (ix.draftOf id e).value := by
  obtain ⟨key, decl⟩ := e
  -- A draft has no fused part yet, so taking it away changes nothing; only a class has such
  -- a part at all.
  cases decl with
  | functions overloads => rfl
  | interfaceType decl =>
      show (((Viewpoint.within ix id).draftInterface decl _).value.map Artifact.interfaceType).map
        Artifact.unfused = _
      rw [Option.map_map]
      rfl
  | classType decl =>
      show (((Viewpoint.within ix id).draftClass decl).value.map Artifact.classType).map
          Artifact.unfused
        = ((Viewpoint.within ix id).draftClass decl).value.map Artifact.classType
      cases hname : decl.name with
      | none => simp only [Viewpoint.draftClass, hname]; rfl
      | some name =>
          obtain ⟨a, ha, -, -, hfused⟩ := (Viewpoint.within ix id).draftClass_value hname
          rw [ha]
          show some (Artifact.classType { a with fused := none }) = some (.classType a)
          rw [← hfused]

namespace Project

/-! ### Between runs -/

/-- What holds of a project between runs: every declaration has an
artifact, in the same order, and apart from what was fused it is the one
of its draft. -/
structure Settled (p : Project) : Prop where
  wellKeyed : p.index.WellKeyed
  overloaded : p.index.Overloaded
  keys : ∀ id, (p.index.artifactsOf id).keys = (p.index.declarationsOf id).keys
  artifacts : ∀ id key, ((p.index.artifactsOf id).get? key).map Artifact.unfused
    = ((p.index.declarationsOf id).get? key).bind fun decl =>
        (p.index.draftOf id (key, decl)).value

/-- A new project declares nothing and keeps nothing. -/
theorem settled_initial (c : Conventions) : (Project.initial c).Settled where
  wellKeyed := (standing_initial c).wellKeyed
  overloaded := fun id key overloads hget => by
    rw [(contents_initial c id).1, Table.get?_empty] at hget
    cases hget
  keys := fun id => by rw [(contents_initial c id).1, (contents_initial c id).2]; rfl
  artifacts := fun id key => by rw [(contents_initial c id).1, (contents_initial c id).2]; rfl

/-- Where everything is filed under its own key, every declaration is
emitted: it has a name, and so an artifact. -/
theorem map_fst_emittedArtifacts {ix : SymbolIndex} (h : ix.WellKeyed) (id : Nat) :
    (ix.emittedArtifacts id).map Prod.fst = (ix.declarationsOf id).keys := by
  rw [SymbolIndex.emittedArtifacts, SymbolIndex.draftedArtifacts, List.map_filterMap, Table.keys,
    ← List.filterMap_eq_map]
  refine List.filterMap_congr fun e he => ?_
  obtain ⟨a, ha, -⟩ :=
    (h id e.1 e.2 (Table.get?_of_mem_entries he)).draft ix id
  rw [show (ix.draftOf id e).value = some a from ha]
  rfl

/-- An emission completes the keys of artifacts. It goes through the
declared keys in order; those that are there keep their places, and the
others come behind them. -/
theorem Standing.keys_emitAll {p : Project} (h : p.Standing) {id : Nat}
    (hfirst : (p.index.artifactsOf id).keys <+: (p.index.declarationsOf id).keys) :
    (p.emitAll.index.artifactsOf id).keys = (p.emitAll.index.declarationsOf id).keys := by
  obtain ⟨F, hF⟩ := h.shelved
  obtain ⟨hsource, hartifacts, -⟩ := emitAll_emitted hF
  rw [hartifacts, hsource.declarations, Table.keys_insertAll,
    map_fst_emittedArtifacts h.wellKeyed,
    appendNew_of_prefix hfirst (p.index.declarationsOf id).nodup_keys]

namespace Reached

variable {c : Conventions} {p : Project}

/-- Artifacts are kept in the order of declaration, for the first
declarations of a scope. Collecting adds keys behind, and emission
completes the artifacts, so the one is always a front part of the
other. -/
theorem keys_prefix (h : Reached c p) (id : Nat) :
    (p.index.artifactsOf id).keys <+: (p.index.declarationsOf id).keys := by
  -- Declaring appends keys and emitting brings the artifacts level; the two other phases
  -- change neither order.
  induction h with
  | initial => exact ⟨[], by rw [List.append_nil, (settled_initial c).keys]⟩
  | collect files h ih =>
      have hcollected := Project.collected _ files h.standing.rooted
      rw [hcollected.artifacts, hcollected.keys_declarationsOf]
      exact ih.trans (prefix_appendNew _ _)
  | emitAll h ih => exact ⟨[], by rw [List.append_nil, h.standing.keys_emitAll ih]⟩
  | resolveFusions h ih =>
      obtain ⟨F, hF⟩ := h.standing.shelved
      obtain ⟨hsource, hartifacts, -⟩ :=
        hF.resolveFusions fun id => nodup_fusedInterfaces (h.standing.fits id)
      rw [hartifacts, keys_foldl_fuseTable, hsource.declarations]
      exact ih

/-- Collecting gathers functions with their overloads, and the other
phases leave declarations alone. -/
theorem overloaded (h : Reached c p) : p.index.Overloaded := by
  -- Only collecting declares functions; the later phases leave the declarations as they are.
  induction h with
  | initial => exact (settled_initial c).overloaded
  | collect files h ih =>
      intro id key overloads hget
      rw [(Project.collected _ files h.standing.rooted).get?_declarationsOf,
        Option.or_eq_some_iff] at hget
      rcases hget with hnew | ⟨-, hold⟩
      · exact declaredUnder_overloads hnew
      · exact ih id key overloads hold
  | emitAll h ih =>
      obtain ⟨F, hF⟩ := h.standing.shelved
      intro id key overloads hget
      rw [(emitAll_emitted hF).1.declarations] at hget
      exact ih id key overloads hget
  | resolveFusions h ih =>
      obtain ⟨F, hF⟩ := h.standing.shelved
      intro id key overloads hget
      rw [(hF.resolveFusions fun id => nodup_fusedInterfaces (h.standing.fits id)).1.declarations]
        at hget
      exact ih id key overloads hget

/-- A run settles a project, whatever it went through before. It ends
with an emission and a fusion, and neither leaves anything of an earlier
run in an artifact. -/
theorem settled_transform (h : Reached c p) (files : List SourceFile) :
    (p.transform files).1.Settled := by
  have hcollect : Reached c (p.collect files) := h.collect files
  have hdrafted := hcollect.standing.drafted
  have hkeys := fun id => hcollect.standing.keys_emitAll (hcollect.keys_prefix id)
  have hend := (h.transform files)
  rw [transform_fst] at hend ⊢
  refine ⟨hend.standing.wellKeyed, hend.overloaded, fun id => ?_, fun id key => ?_⟩
  · rw [hdrafted.resolved.2, keys_foldl_fuseTable, hkeys, hdrafted.resolved.1.declarations]
  · rw [hdrafted.resolved.2, unfused_get?_foldl_fuseTable, hdrafted.artifacts,
      hdrafted.resolved.1.declarations]
    -- The drafts were made before the fusions were resolved, from an index alike in what a
    -- draft reads.
    cases hget : ((p.collect files).emitAll.index.declarationsOf id).get? key with
    | none => rfl
    | some decl =>
        rw [Option.bind_some, Option.bind_some, SymbolIndex.map_unfused_draftOf,
          hdrafted.resolved.1.alike.draftOf]

/-- So does any number of runs. -/
theorem foldl_transform (h : Reached c p) (runs : List (List SourceFile)) :
    Reached c (runs.foldl (fun p files => (p.transform files).1) p) := by
  induction runs generalizing p with
  | nil => exact h
  | cons files runs ih => exact ih (h.transform files)

end Reached

/-- After any number of runs a project is settled, also after none. -/
theorem settled_foldl_transform (c : Conventions) (runs : List (List SourceFile)) :
    (runs.foldl (fun p files => (p.transform files).1) (Project.initial c)).Settled := by
  rcases List.eq_nil_or_concat runs with rfl | ⟨earlier, last, rfl⟩
  · exact settled_initial c
  · rw [List.concat_eq_append, List.foldl_append]
    exact (Reached.initial.foldl_transform earlier).settled_transform last

/-! ### The body of a file -/

/-- The text of the artifact under a key, if it renders. -/
def text? (p : Project) (id : Nat) (key : DeclKey) : Option String :=
  ((p.index.artifactsOf id).get? key).bind Artifact.render?

/-- The text of the artifact under a key. It is asked for only where
there is one. -/
def blockOf (p : Project) (id : Nat) (key : DeclKey) : String := (p.text? id key).getD ""

/-- The text under a key is what its artifact renders. -/
theorem text?_of_get? {p : Project} {id : Nat} {key : DeclKey} {a : Artifact}
    (h : (p.index.artifactsOf id).get? key = some a) : p.text? id key = a.render? := by
  rw [text?, h]
  rfl

/-- Where there is a text, it is the block. -/
theorem blockOf_of_text? {p : Project} {id : Nat} {key : DeclKey} {text : String}
    (h : p.text? id key = some text) : p.blockOf id key = text := by
  rw [blockOf, h]
  rfl

/-- All that stands in the file of a scope, item by item: signatures of
functions, then classes, then interfaces that have no class. -/
def itemsOf (p : Project) (id : Nat) : List String :=
  (p.index.namesOf id .function).flatMap (p.index.signaturesOf id)
    ++ (p.index.namesOf id .classType).map (fun name => p.blockOf id ⟨.classType, name⟩)
    ++ (p.index.loneInterfaces id).map fun name => p.blockOf id ⟨.interfaceType, name⟩

/-- The imports of a file, one line below the other, if there are any. -/
def importsPart (p : Project) (id : Nat) : List String :=
  if p.headers.flatten (p.headerOf id) = [] then []
  else ["\n".intercalate ((p.headers.flatten (p.headerOf id)).map ImportLine.written)]

/-- What stands in front of the items of a file: the module it is bound
to, if there is one, its package, and its imports. -/
def frontOf (p : Project) (id : Nat) : List String :=
  (p.index.jsModuleOf id).toList.map (fun name => "@file:JsModule(\"" ++ name ++ "\")")
    ++ ("package " ++ p.index.packageOf id) :: p.importsPart id

/-- The file of a scope: what stands in front and the items, with blank
lines in between, and a line break at the end. -/
def unitOf (p : Project) (id : Nat) : OutputUnit :=
  { path := p.index.outputPath id,
    text := "\n\n".intercalate (p.frontOf id ++ p.itemsOf id) ++ "\n" }

/-- The line of a module is set off by a blank line. -/
theorem moduleLine_some (name : String) :
    moduleLine (some name) = "@file:JsModule(\"" ++ name ++ "\")" ++ "\n\n" := by
  have hbreak : "\")\n\n" = "\")" ++ "\n\n" := rfl
  calc moduleLine (some name)
    _ = "@file:JsModule(\"" ++ name ++ "\")\n\n" := rfl
    _ = "@file:JsModule(\"" ++ name ++ "\")" ++ "\n\n" := by
        rw [hbreak, ← String.append_assoc]

/-- A file begins with the module it is bound to, and its package comes
next. A file that is bound to no module begins with the package. -/
theorem intercalate_frontOf (p : Project) (id : Nat) (body : List String) :
    "\n\n".intercalate (p.frontOf id ++ body)
      = moduleLine (p.index.jsModuleOf id) ++ "\n\n".intercalate
          (("package " ++ p.index.packageOf id) :: (p.importsPart id ++ body)) := by
  rw [frontOf, List.append_assoc, List.cons_append]
  cases p.index.jsModuleOf id with
  | none => exact (String.empty_append).symm
  | some name =>
      rw [moduleLine_some]
      exact String.intercalate_cons_of_ne_nil (List.cons_ne_nil _ _)

/-- The text of a file with items, from its front and its items. Imports
that are not there leave no blank lines. -/
theorem fileText_eq (p : Project) (id : Nat) {body : List String} (hbody : body ≠ []) :
    fileText (p.index.jsModuleOf id) (p.index.packageOf id) (p.headers.render (p.headerOf id)) body
      = "\n\n".intercalate (p.frontOf id ++ body) ++ "\n" := by
  -- From the last part to the first: each is followed by a blank line.
  have himports : "\n\n".intercalate (p.importsPart id ++ body)
      = (if (p.headers.render (p.headerOf id)).isEmpty then ""
          else p.headers.render (p.headerOf id) ++ "\n\n") ++ "\n\n".intercalate body := by
    rw [importsPart, Headers.isEmpty_render, Headers.render_eq_written]
    cases p.headers.flatten (p.headerOf id) with
    | nil => exact (String.empty_append).symm
    | cons line lines => exact String.intercalate_cons_of_ne_nil hbody
  have hpackage := String.intercalate_cons_of_ne_nil (s := "\n\n")
    (t := "package " ++ p.index.packageOf id)
    (List.append_ne_nil_of_right_ne_nil (p.importsPart id) hbody)
  rw [p.intercalate_frontOf, hpackage, himports, fileText]
  simp only [String.append_assoc]

namespace Settled

variable {p : Project} (h : p.Settled) {id : Nat} {name : String}

include h

/-- The artifact of a declaration: it is there, fits its key, and is the
one of the draft but for what was fused. -/
theorem artifact {key : DeclKey} {decl : Declaration}
    (hdecl : (p.index.declarationsOf id).get? key = some decl) :
    ∃ a, (p.index.artifactsOf id).get? key = some a ∧ a.FitsKey key
      ∧ (p.index.draftOf id (key, decl)).value = some a.unfused := by
  obtain ⟨b, hdraft, hfits⟩ := (h.wellKeyed id key decl hdecl).draft p.index id
  have hartifact := h.artifacts id key
  rw [hdecl, Option.bind_some, hdraft] at hartifact
  obtain ⟨a, ha, rfl⟩ := Option.map_eq_some_iff.mp hartifact
  exact ⟨a, ha, (a.fitsKey_unfused key).mp hfits, hdraft⟩

/-- A function renders its signatures, of which there is one at least. -/
theorem text?_function (hname : name ∈ p.index.namesOf id .function) :
    p.text? id ⟨.function, name⟩ = some ("\n\n".intercalate (p.index.signaturesOf id name))
      ∧ p.index.signaturesOf id name ≠ [] := by
  obtain ⟨decl, hdecl⟩ := Table.exists_of_mem_keys (SymbolIndex.mem_namesOf.mp hname)
  obtain ⟨a, ha, hfits, hdraft⟩ := h.artifact hdecl
  have hkind := (h.wellKeyed id _ decl hdecl).kind_eq
  -- The key's kind is a function's, so the two other kinds of declaration, and below of
  -- artifact, cannot be under it.
  cases decl with
  | classType decl => cases hkind
  | interfaceType decl => cases hkind
  | functions overloads =>
      have hsignatures : p.index.signaturesOf id name
          = overloads.map fun decl =>
              ((Viewpoint.within p.index id).draftSignature name decl).value := by
        rw [SymbolIndex.signaturesOf, SymbolIndex.overloadsOf, hdecl]
        exact List.map_congr_left fun decl _ =>
          ((Viewpoint.within p.index id).value_draftSignature name decl).symm
      cases a with
      | classType a => cases hfits.1
      | interfaceType a => cases hfits.1
      | function a =>
          have heq : a.signatures = p.index.signaturesOf id name := by
            rw [hsignatures, ← Draft.value_each]
            exact congrArg FunctionArtifact.signatures
              (Artifact.function.inj (Option.some.inj hdraft)).symm
          refine ⟨by rw [text?_of_get? ha, ← heq]; rfl, fun hnil => ?_⟩
          rw [hsignatures, List.map_eq_nil_iff] at hnil
          exact h.overloaded id _ overloads hdecl hnil

/-- A class renders its parts below its heading. It always renders
something. -/
theorem text?_class (hname : name ∈ p.index.namesOf id .classType) :
    ∃ a, (p.index.artifactsOf id).get? ⟨.classType, name⟩ = some (.classType a) ∧ a.name = name
      ∧ p.text? id ⟨.classType, name⟩
        = some ("\n".intercalate (declarationLines a.heading a.parts)) := by
  obtain ⟨decl, hdecl⟩ := Table.exists_of_mem_keys (SymbolIndex.mem_namesOf.mp hname)
  obtain ⟨a, ha, hfits, -⟩ := h.artifact hdecl
  -- An artifact fits its key, so under a class's key there is a class.
  cases a with
  | function a => cases hfits.1
  | interfaceType a => cases hfits.1
  | classType a =>
      refine ⟨a, ha, hfits.2, (text?_of_get? ha).trans ?_⟩
      rw [← a.render_eq_lines]
      rfl

/-- An interface renders its members below its heading, unless there is
a class of its name. Whether there is one was decided at the last
emission, and no class has come since. -/
theorem text?_interface (hname : name ∈ p.index.namesOf id .interfaceType) :
    ∃ a, (p.index.artifactsOf id).get? ⟨.interfaceType, name⟩ = some (.interfaceType a)
      ∧ a.name = name
      ∧ p.text? id ⟨.interfaceType, name⟩
        = if ⟨.classType, name⟩ ∈ (p.index.declarationsOf id).keys then none
          else some ("\n".intercalate (declarationLines a.heading a.members)) := by
  obtain ⟨decl, hdecl⟩ := Table.exists_of_mem_keys (SymbolIndex.mem_namesOf.mp hname)
  obtain ⟨a, ha, hfits, hdraft⟩ := h.artifact hdecl
  have hwell := h.wellKeyed id _ decl hdecl
  cases a with
  | function a => cases hfits.1
  | classType a => cases hfits.1
  | interfaceType a =>
      obtain ⟨decl, rfl⟩ := hwell.eq_interface
      obtain ⟨b, hb, -, -, -, hfused⟩ :=
        (Viewpoint.within p.index id).draftInterface_value hwell.2 (p.index.hasClass id name)
      have hvalue : (p.index.draftOf id (⟨.interfaceType, name⟩, .interfaceType decl)).value
          = some (.interfaceType b) := congrArg (Option.map Artifact.interfaceType) hb
      rw [hvalue] at hdraft
      cases hdraft
      refine ⟨a, ha, hfits.2, ?_⟩
      rw [text?_of_get? ha]
      show a.render? = _
      -- The class was looked for when the interface was drafted.
      rw [a.render?_eq_lines, hfused]
      exact if_congr (h.wellKeyed.keyedByKind.hasClass_iff id name) rfl rfl

/-- The rendered artifacts of one kind, by the declared names. -/
theorem filterMap_render? {s : Scope} (hs : p.index.scopes[id]? = some s) (kind : DeclKind) :
    (s.artifacts.entries.filter fun e => e.1.kind == kind).filterMap (fun e => e.2.render?)
      = (p.index.namesOf id kind).filterMap fun name => p.text? id ⟨kind, name⟩ := by
  have hartifacts : p.index.artifactsOf id = s.artifacts := by rw [SymbolIndex.artifactsOf, hs]; rfl
  have hentries := (p.index.artifactsOf id).filterMap_entries (fun key => key.kind == kind)
    Artifact.render?
  rw [h.keys, SymbolIndex.filter_keys, List.filterMap_map] at hentries
  rw [← hartifacts]
  exact hentries

/-- Of the interfaces, those without a class are rendered. -/
theorem filterMap_interfaces :
    ((p.index.namesOf id .interfaceType).filterMap fun name => p.text? id ⟨.interfaceType, name⟩)
      = (p.index.loneInterfaces id).map fun name => p.blockOf id ⟨.interfaceType, name⟩ := by
  rw [SymbolIndex.loneInterfaces, ← List.filterMap_eq_map', List.filterMap_filter]
  refine List.filterMap_congr fun name hname => ?_
  obtain ⟨a, -, -, htext⟩ := h.text?_interface hname
  by_cases hclass : ⟨.classType, name⟩ ∈ (p.index.declarationsOf id).keys
  · rw [htext, if_pos hclass, if_neg (by simpa using hclass)]
  · rw [if_neg hclass] at htext
    rw [if_pos (by simpa using hclass), blockOf_of_text? htext, htext]

/-- The rendered artifacts of a scope, from what it declares. Here a
function is one block, however many overloads it has. -/
theorem bodyOf_eq {s : Scope} (hs : p.index.scopes[id]? = some s) :
    bodyOf s
      = (p.index.namesOf id .function).map
            (fun name => "\n\n".intercalate (p.index.signaturesOf id name))
          ++ ((p.index.namesOf id .classType).map (fun name => p.blockOf id ⟨.classType, name⟩)
          ++ (p.index.loneInterfaces id).map fun name => p.blockOf id ⟨.interfaceType, name⟩) := by
  -- The body lists the kinds in a fixed order; within one kind every declared name is
  -- printed.
  have hfunctions : ((p.index.namesOf id .function).filterMap fun name =>
      p.text? id ⟨.function, name⟩) = (p.index.namesOf id .function).map fun name =>
        "\n\n".intercalate (p.index.signaturesOf id name) :=
    List.filterMap_eq_map_iff_forall_eq_some.mpr fun name hname => (h.text?_function hname).1
  have hclasses : ((p.index.namesOf id .classType).filterMap fun name =>
      p.text? id ⟨.classType, name⟩) = (p.index.namesOf id .classType).map fun name =>
        p.blockOf id ⟨.classType, name⟩ := by
    refine List.filterMap_eq_map_iff_forall_eq_some.mpr fun name hname => ?_
    obtain ⟨a, -, -, htext⟩ := h.text?_class hname
    rw [blockOf_of_text? htext, htext]
  rw [bodyOf, DeclKind.all, List.flatMap_cons, List.flatMap_cons, List.flatMap_cons,
    List.flatMap_nil, List.append_nil, h.filterMap_render? hs, h.filterMap_render? hs,
    h.filterMap_render? hs, hfunctions, hclasses, h.filterMap_interfaces]

/-- Something renders exactly if something is declared: an interface that
is left out has a class that is not. -/
theorem bodyOf_eq_nil_iff {s : Scope} (hs : p.index.scopes[id]? = some s) :
    bodyOf s = [] ↔ (p.index.declarationsOf id).keys = [] := by
  rw [h.bodyOf_eq hs]
  simp only [List.append_eq_nil_iff, List.map_eq_nil_iff]
  constructor
  · rintro ⟨hfunctions, hclasses, hinterfaces⟩
    -- A function and a class are listed. An interface is listed, or its class is.
    refine List.eq_nil_iff_forall_not_mem.mpr fun key hkey => ?_
    have hname : key.name ∈ p.index.namesOf id key.kind := SymbolIndex.mem_namesOf.mpr hkey
    cases hkind : key.kind with
    | function =>
        rw [hkind, hfunctions] at hname
        cases hname
    | classType =>
        rw [hkind, hclasses] at hname
        cases hname
    | interfaceType =>
        rw [hkind] at hname
        have hlone : key.name ∉ p.index.loneInterfaces id := by
          rw [hinterfaces]
          exact List.not_mem_nil
        rw [SymbolIndex.loneInterfaces, List.mem_filter, not_and, decide_eq_true_eq,
          Decidable.not_not] at hlone
        have hclass := SymbolIndex.mem_namesOf.mpr (hlone hname)
        rw [hclasses] at hclass
        cases hclass
  · intro hnil
    have hnames : ∀ kind, p.index.namesOf id kind = [] := fun kind => by
      rw [SymbolIndex.namesOf, hnil]
      rfl
    refine ⟨hnames _, hnames _, ?_⟩
    rw [SymbolIndex.loneInterfaces, hnames]
    rfl

/-- A scope with a declaration has an item in its file, as every block
has one. -/
theorem itemsOf_ne_nil {s : Scope} (hs : p.index.scopes[id]? = some s) (hbody : bodyOf s ≠ []) :
    p.itemsOf id ≠ [] := by
  intro hnil
  rw [itemsOf, List.append_assoc, List.append_eq_nil_iff, List.flatMap_eq_nil_iff] at hnil
  have hfunctions : p.index.namesOf id .function = [] :=
    List.eq_nil_iff_forall_not_mem.mpr fun name hname =>
      (h.text?_function hname).2 (hnil.1 name hname)
  exact hbody (by rw [h.bodyOf_eq hs, hfunctions, hnil.2]; rfl)

/-- The file of a scope: none if it declares nothing, and otherwise what
stands in front and its items. -/
theorem renderScope_eq (hid : id < p.index.size) :
    p.renderScope id
      = if (p.index.declarationsOf id).keys = [] then none else some (p.unitOf id) := by
  obtain ⟨s, hs⟩ := SymbolIndex.exists_scope hid
  have hbody := h.bodyOf_eq_nil_iff hs
  -- Joined artifact by artifact or item by item, the body is the same text.
  have htext : ∀ jsModule package imports, fileText jsModule package imports (bodyOf s)
      = fileText jsModule package imports (p.itemsOf id) := by
    intro jsModule package imports
    rw [fileText, fileText, h.bodyOf_eq hs, intercalate_flatMap _ _ _ fun name hname =>
      (h.text?_function hname).2, itemsOf, List.append_assoc]
  rw [renderScope, hs]
  dsimp only
  by_cases hnil : (p.index.declarationsOf id).keys = []
  · rw [if_pos (by rw [hbody.mpr hnil]; rfl), if_pos hnil]
  · have hsome : bodyOf s ≠ [] := mt hbody.mp hnil
    have hitems : p.itemsOf id ≠ [] := h.itemsOf_ne_nil hs hsome
    rw [if_neg (mt List.isEmpty_iff.mp hsome), if_neg hnil, htext, unitOf,
      ← p.fileText_eq id hitems, headerOf_of_scope hs]

/-- All files, one for each scope that declares something. -/
theorem render_eq :
    p.render
      = (p.index.ids.filter fun id => (p.index.declarationsOf id).keys ≠ []).map p.unitOf := by
  rw [render, ← List.filterMap_eq_map', List.filterMap_filter]
  refine List.filterMap_congr fun id hid => ?_
  rw [h.renderScope_eq (List.mem_range.mp hid)]
  by_cases hnil : (p.index.declarationsOf id).keys = []
  · simp [hnil]
  · simp [hnil]

end Settled

/-- Rendering accounts for every declaration, after any number of runs.
The keys of the artifacts of a scope are those of its declarations, in
the same order, and each artifact is that of its draft but for what was
fused into a class. There is one file for each scope that declares
something, in the order of registration. After the module, the package
and the imports of the scope, a file has one signature for each overload
of each function, then the lines of each class, then those of each
interface without a class of its name, in the order of declaration and
with blank lines in between. No name comes up twice among the functions,
classes or interfaces. -/
theorem render_foldl_transform (c : Conventions) (runs : List (List SourceFile)) :
    let p := runs.foldl (fun p files => (p.transform files).1) (Project.initial c)
    (∀ id, (p.index.artifactsOf id).keys = (p.index.declarationsOf id).keys
        ∧ ∀ kind, (p.index.namesOf id kind).Nodup)
      ∧ (∀ id key decl, (p.index.declarationsOf id).get? key = some decl →
          ∃ a, (p.index.artifactsOf id).get? key = some a ∧ a.FitsKey key
            ∧ (p.index.draftOf id (key, decl)).value = some a.unfused)
      ∧ (∀ id, ∀ name ∈ p.index.namesOf id .function, p.index.signaturesOf id name ≠ [])
      ∧ (∀ id, ∀ name ∈ p.index.namesOf id .classType,
          ∃ a, (p.index.artifactsOf id).get? ⟨.classType, name⟩ = some (.classType a)
            ∧ a.name = name
            ∧ p.blockOf id ⟨.classType, name⟩
              = "\n".intercalate (declarationLines a.heading a.parts))
      ∧ (∀ id, ∀ name ∈ p.index.loneInterfaces id,
          ∃ a, (p.index.artifactsOf id).get? ⟨.interfaceType, name⟩ = some (.interfaceType a)
            ∧ a.name = name
            ∧ p.blockOf id ⟨.interfaceType, name⟩
              = "\n".intercalate (declarationLines a.heading a.members))
      ∧ p.render
        = (p.index.ids.filter fun id => (p.index.declarationsOf id).keys ≠ []).map p.unitOf := by
  intro p
  have h : p.Settled := settled_foldl_transform c runs
  refine ⟨fun id => ⟨h.keys id, p.index.nodup_namesOf id⟩, fun id key decl => h.artifact,
    fun id name hname => (h.text?_function hname).2, fun id name hname => ?_,
    fun id name hname => ?_, h.render_eq⟩
  · obtain ⟨a, ha, haname, htext⟩ := h.text?_class hname
    exact ⟨a, ha, haname, blockOf_of_text? htext⟩
  -- An interface is printed on its own only if no class of its name takes it in.
  · obtain ⟨hmem, hlone⟩ := List.mem_filter.mp hname
    obtain ⟨a, ha, haname, htext⟩ := h.text?_interface hmem
    rw [if_neg (of_decide_eq_true hlone)] at htext
    exact ⟨a, ha, haname, blockOf_of_text? htext⟩

/-- A module with two interfaces. -/
def twoInterfaces : List SourceFile :=
  [⟨"m.d.ts",
    [⟨"m", .ambient,
      [.interfaceDecl ⟨some "C", [], [voidMethod "own"]⟩,
       .interfaceDecl ⟨some "I", [], [voidMethod "stop"]⟩]⟩]⟩]

/-- For the same module, a class of the name of one interface, and a
function with two overloads. -/
def classAndOverloads : List SourceFile :=
  [⟨"m.d.ts",
    [⟨"m", .ambient,
      [.classDecl ⟨some "C", none, [], [voidMethod "mine"]⟩,
       .function ⟨some "f", [], .resolved (.plain "void" .void), false⟩,
       .function ⟨some "f", [{ name := "c", type := plainReference "C" }],
         .resolved (.plain "string" .string), true⟩]⟩]⟩]

/-- The file after two runs: the class has come to the interface of its
name and lists its member, the other interface stands for itself. -/
theorem render_foldl_transform_twoRuns :
    ([twoInterfaces, classAndOverloads].foldl (fun p files => (p.transform files).1)
        (Project.initial {})).render
      = [⟨"org/node/m/m.kt",
          "@file:JsModule(\"m\")\n\npackage org.node.m\n\nimport kotlin.js.Promise\n\n"
            ++ "external fun f(): Unit\n\nexternal fun f(c: C): Promise<String>\n\n"
            ++ "open external class C() \x7b\n  fun mine(): Unit\n\n  fun own(): Unit\n\x7d\n\n"
            ++ "external interface I \x7b\n  fun stop(): Unit\n\x7d\n"⟩] := by
  obtain ⟨-, -, -, -, -, hrender⟩ := render_foldl_transform {} [twoInterfaces, classAndOverloads]
  exact hrender.trans (by decide +kernel)

end Project

end Externals
