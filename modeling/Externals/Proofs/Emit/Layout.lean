import Externals.Emit.Declaration

/-!
# `Externals.Proofs.Emit.Layout`: the lines of a declaration

The renderer builds texts from inside out: it indents each entry of a
body as one text, joins the entries, and puts the result in braces. What
a reader of a generated file sees are lines. This module says which lines
a declaration has, without the renderer's functions, and shows that the
two descriptions give one text.

* `entryLines`, `bodyLines`, `declarationLines`: the lines of an entry,
  of all entries of a body, and of a whole declaration.
* `intercalate_declarationLines`: those lines, joined, are a head with a
  block behind it.
* `InterfaceArtifact.render?_eq_lines`, `ClassArtifact.render_eq_lines`:
  the texts of the two artifacts that have a body.
-/

set_option autoImplicit false

namespace Externals

open Text

/-! ### Lines -/

/-- The lines of an entry of a body: those of its text, two columns in.
A line without characters stays empty, and an entry without lines takes
up one empty line. -/
def entryLines (entry : String) : List String :=
  if lines entry.toList = [] then [""]
  else (lines entry.toList).map fun line =>
    if line = [] then "" else "  " ++ String.ofList line

/-- The lines of a body: those of its entries in order, with one empty
line between neighbours. -/
def bodyLines : List String → List String
  | [] => []
  | [entry] => entryLines entry
  | entry :: next :: entries => entryLines entry ++ "" :: bodyLines (next :: entries)

/-- The lines of a declaration that starts with a head and has a body in
braces. The braces stand on the line of the head if the body is empty;
otherwise the closing one has the last line to itself. -/
def declarationLines (head : String) (entries : List String) : List String :=
  if entries = [] then [head ++ " \x7b\x7d"]
  else (head ++ " \x7b") :: (bodyLines entries ++ ["\x7d"])

/-- Every entry takes up a line. -/
theorem entryLines_ne_nil (entry : String) : entryLines entry ≠ [] := by
  unfold entryLines
  split
  · exact List.cons_ne_nil _ _
  · rename_i hlines
    exact fun hnil => hlines (List.map_eq_nil_iff.mp hnil)

/-- A body with an entry has a line. -/
theorem bodyLines_ne_nil (entry : String) (entries : List String) :
    bodyLines (entry :: entries) ≠ [] := by
  cases entries with
  | nil => exact entryLines_ne_nil entry
  | cons next entries => exact List.append_ne_nil_of_left_ne_nil (entryLines_ne_nil entry) _

/-- Indenting a text moves its lines. The renderer indents the text as a
whole, and leaves out the indentation of an empty line. -/
theorem intercalate_entryLines (entry : String) :
    "\n".intercalate (entryLines entry) = indent 2 entry := by
  unfold entryLines
  split
  · -- Without lines both sides are empty: one line of no characters, or no line.
    rename_i hlines
    rw [indent, hlines]
    rfl
  · rw [indent]
    refine congrArg _ (List.map_congr_left fun line _ => ?_)
    cases line with
    | nil => rfl
    | cons c cs =>
        have happend : String.ofList ([' ', ' '] ++ c :: cs)
            = String.ofList [' ', ' '] ++ String.ofList (c :: cs) := String.ofList_append
        exact happend.symm

/-- The entries of a body, one behind the other, with an empty line
between two of them. -/
theorem intercalate_bodyLines (entry : String) (entries : List String) :
    "\n".intercalate (bodyLines (entry :: entries)) = layEntries (entry :: entries) := by
  induction entries generalizing entry with
  | nil =>
      rw [bodyLines, intercalate_entryLines, layEntries, List.map_cons, List.map_nil,
        String.intercalate_singleton]
  | cons next entries ih =>
      -- The empty line between two entries is where the two line breaks meet.
      have hbreaks (rest : String) : "\n" ++ ("\n" ++ rest) = "\n\n" ++ rest :=
        String.append_assoc.symm
      rw [bodyLines, String.intercalate_append_of_ne_nil (entryLines_ne_nil entry)
          (List.cons_ne_nil _ _),
        String.intercalate_cons_of_ne_nil (bodyLines_ne_nil next entries), ih,
        intercalate_entryLines, String.empty_append, String.append_assoc, hbreaks, layEntries,
        layEntries, List.map_cons (l := next :: entries), List.map_cons,
        String.intercalate_cons_cons, String.append_assoc]

/-- The lines of a declaration, joined, are its head and its block. The
block of the renderer opens on the line of the head. -/
theorem intercalate_declarationLines (head : String) (entries : List String) :
    "\n".intercalate (declarationLines head entries) = head ++ " " ++ block entries := by
  cases entries with
  | nil =>
      show "\n".intercalate [head ++ " \x7b\x7d"] = _
      rw [String.intercalate_singleton, String.append_assoc]
      rfl
  | cons entry entries =>
      -- The two sides cut the text around the opening brace at different places.
      have hopen (rest : String) : " \x7b" ++ ("\n" ++ rest) = " " ++ ("\x7b\n" ++ rest) := by
        rw [← String.append_assoc, ← String.append_assoc]
        rfl
      have hlines : declarationLines head (entry :: entries)
          = (head ++ " \x7b") :: (bodyLines (entry :: entries) ++ ["\x7d"]) := rfl
      have hblock : block (entry :: entries)
          = "\x7b\n" ++ layEntries (entry :: entries) ++ "\n\x7d" := rfl
      have hclose : "\n" ++ "\x7d" = "\n\x7d" := rfl
      rw [hlines, hblock, String.intercalate_cons_of_ne_nil
          (List.append_ne_nil_of_left_ne_nil (bodyLines_ne_nil entry entries) _),
        String.intercalate_append_of_ne_nil (bodyLines_ne_nil entry entries)
          (List.cons_ne_nil _ _),
        intercalate_bodyLines, String.intercalate_singleton]
      simp only [String.append_assoc, hclose, hopen]

/-- Two members, the second of which has an empty line. -/
example :
    declarationLines "interface A" ["val a: Int", "fun b(): /*\n\n*/ Unit"]
      = ["interface A \x7b", "  val a: Int", "", "  fun b(): /*", "", "  */ Unit", "\x7d"] := by
  decide +kernel

/-! ### Interfaces and classes -/

namespace InterfaceArtifact

/-- What stands before the body of an interface: its name, and the types
it extends. -/
def heading (a : InterfaceArtifact) : String :=
  if a.bases = [] then "external interface " ++ a.name
  else "external interface " ++ a.name ++ " : " ++ ", ".intercalate (a.bases.map KotlinType.render)

/-- An interface renders its members below its heading, unless a class
renders them. -/
theorem render?_eq_lines (a : InterfaceArtifact) :
    a.render? = if a.fusedIntoClass then none
      else some ("\n".intercalate (declarationLines a.heading a.members)) := by
  rw [intercalate_declarationLines]
  obtain ⟨name, bases, members, fusedIntoClass⟩ := a
  cases bases with
  | nil => rfl
  | cons base bases => rfl

end InterfaceArtifact

namespace ClassArtifact

/-- What stands before the body of a class: its name, the parameters of
its primary constructor, and its base. -/
def heading (a : ClassArtifact) : String :=
  "open external class " ++ a.name ++ "(" ++ a.primary ++ ")"
    ++ a.base.elim "" fun base => " : " ++ base

/-- What stands in the body of a class: a companion with the static
members if there are any, the other constructors, the instance members. -/
def parts (a : ClassArtifact) : List String :=
  (if a.statics = [] then []
    else ["\n".intercalate (declarationLines "companion object" a.statics)])
    ++ a.secondary.map (fun params => "constructor(" ++ params ++ ")")
    ++ a.instanceMembers

/-- The entries that the renderer lays out are these parts. -/
theorem entries_eq_parts (a : ClassArtifact) : a.entries = a.parts := by
  rw [parts, intercalate_declarationLines]
  obtain ⟨name, primary, secondary, base, statics, members, fused⟩ := a
  cases statics with
  | nil => rfl
  | cons member statics => rfl

/-- A class renders its parts below its heading. -/
theorem render_eq_lines (a : ClassArtifact) :
    a.render = "\n".intercalate (declarationLines a.heading a.parts) := by
  rw [intercalate_declarationLines, ← entries_eq_parts]
  unfold render heading
  cases a.base with
  | none => rw [Option.elim_none, String.append_empty]
  | some base => simp only [Option.elim_some, String.append_assoc]

end ClassArtifact

end Externals
