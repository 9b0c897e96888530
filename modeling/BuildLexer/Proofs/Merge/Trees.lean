/-
The trees inside a diagnostic.

A diagnostic is built from messages and lists of diagnostics, so what
holds of messages, and of a tree once it holds of its parts, holds of
all diagnostics (`Diagnostic.induction`). Statements about trees at any
depth speak of `Diagnostic.trees`, which lists them all, each before the
trees inside it.
-/
import BuildLexer.Diagnostic.Basic

namespace BuildLexer

namespace Diagnostic

-- ========================================================== induction

mutual

/-- What holds of messages, and of a tree when it holds of the parts,
holds of every diagnostic. -/
theorem induction {P : Diagnostic → Prop} (leaf : ∀ m, P (.leaf m))
    (node : ∀ (p : Position) (parts : List Diagnostic),
      (∀ d ∈ parts, P d) → P (.node p parts)) :
    ∀ d, P d
  | .leaf m => leaf m
  | .node p parts => node p parts (inductionAll leaf node parts)

/-- The induction over trees, for the parts of a tree. -/
theorem inductionAll {P : Diagnostic → Prop} (leaf : ∀ m, P (.leaf m))
    (node : ∀ (p : Position) (parts : List Diagnostic),
      (∀ d ∈ parts, P d) → P (.node p parts)) :
    ∀ (ds : List Diagnostic), ∀ d ∈ ds, P d
  | [], _, h => absurd h List.not_mem_nil
  | e :: es, d, h =>
    (List.mem_cons.1 h).elim
      (fun he => he ▸ induction leaf node e)
      (fun hd => inductionAll leaf node es d hd)

end

-- ============================================================= trees

mutual

/-- All trees in a diagnostic, with the diagnostic itself if it is
one. -/
def trees : Diagnostic → List Tree
  | leaf _ => []
  | node p parts => ⟨p, parts⟩ :: treesAll parts

/-- All trees in some diagnostics. -/
def treesAll : List Diagnostic → List Tree
  | [] => []
  | d :: ds => trees d ++ treesAll ds

end

/-- The trees in parts are those in each of them. -/
theorem mem_treesAll {t : Tree} {ds : List Diagnostic} :
    t ∈ treesAll ds ↔ ∃ d ∈ ds, t ∈ d.trees := by
  induction ds with
  | nil => simp [treesAll]
  | cons d ds ih => simp [treesAll, ih]

/-- The trees in parts and more parts are those in both. -/
theorem treesAll_append (a b : List Diagnostic) :
    treesAll (a ++ b) = treesAll a ++ treesAll b := by
  induction a with
  | nil => rfl
  | cons d a ih =>
      rw [List.cons_append, treesAll, ih, treesAll, List.append_assoc]

/-- The trees in a tree are itself and those in its parts. -/
theorem mem_trees_toDiagnostic {t u : Tree} :
    t ∈ u.toDiagnostic.trees ↔ t = u ∨ t ∈ treesAll u.parts :=
  List.mem_cons

/-- The trees in a part are trees in the whole. -/
theorem mem_trees_of_mem {t : Tree} {p : Position} {d : Diagnostic}
    {parts : List Diagnostic} (hd : d ∈ parts) (ht : t ∈ d.trees) :
    t ∈ (node p parts).trees :=
  List.mem_cons_of_mem _ (mem_treesAll.2 ⟨d, hd, ht⟩)

end Diagnostic

end BuildLexer
