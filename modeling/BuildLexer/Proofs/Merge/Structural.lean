/-
Merging without a limit, said by the structure of what is merged alone.

`graft` knows nothing of numbers of parts, of paths or of what is still
to be done. A message goes behind the parts unless it is one of them; a
tree whose position is that of a part is worked, part by part, into the
parts of the first such part; any other tree goes behind the parts, and
those at the positions of its own parts make way for it.

That is what merging does (`merge_noLimit_eq_foldl`). The list of pieces
has been turned into a recursion already (`Recursion`), in which a part
is still found by its number and changed at a path; what is left is that
the first tree at a position is at that number, and that no part of a
tree moves while it is changed.
-/
import BuildLexer.Proofs.Merge.Recursion

namespace BuildLexer

namespace Diagnostic

-- ========================================================= the structure

/-- The positions of the trees among some diagnostics. -/
def positions (ds : List Diagnostic) : List Position :=
  ds.filterMap position?

/-- Changes the parts of the first tree at a position. -/
def changeFirst (p : Position)
    (change : List Diagnostic → List Diagnostic) :
    List Diagnostic → List Diagnostic
  | [] => []
  | leaf m :: rest => leaf m :: changeFirst p change rest
  | node q parts :: rest =>
    if q = p then node q (change parts) :: rest
    else node q parts :: changeFirst p change rest

mutual

/-- The parts of a tree with a diagnostic merged into them. -/
def graft : Diagnostic → List Diagnostic → List Diagnostic
  | leaf m, parts =>
    if leaf m ∈ parts then parts else parts ++ [leaf m]
  | node p new, parts =>
    if p ∈ positions parts then changeFirst p (graftAll new) parts
    else
      parts.filter (fun d => !d.position?.any (· ∈ positions new))
        ++ [node p new]

/-- The parts of a tree with some diagnostics merged into them, one after
the other. -/
def graftAll : List Diagnostic → List Diagnostic → List Diagnostic
  | [], parts => parts
  | d :: ds, parts => graftAll ds (graft d parts)

end

/-- Merging parts one after the other is a fold. -/
theorem graftAll_eq_foldl (ds parts : List Diagnostic) :
    graftAll ds parts = ds.foldl (fun parts d => graft d parts) parts := by
  induction ds generalizing parts with
  | nil => rw [graftAll, List.foldl_nil]
  | cons d ds ih => rw [graftAll, ih, List.foldl_cons]

-- ============================================================= positions

/-- The positions of parts are those of the trees among them. -/
theorem mem_positions {p : Position} {ds : List Diagnostic} :
    p ∈ positions ds ↔ ∃ d ∈ ds, d.position? = some p :=
  List.mem_filterMap

/-- The first tree at a position is the one behind parts that are not
there. -/
theorem changeFirst_append {p : Position} {a : List Diagnostic}
    (change : List Diagnostic → List Diagnostic)
    (first : ∀ d ∈ a, d.position? ≠ some p) (parts b : List Diagnostic) :
    changeFirst p change (a ++ node p parts :: b)
      = a ++ node p (change parts) :: b := by
  induction a with
  | nil => rw [List.nil_append, changeFirst, if_pos rfl, List.nil_append]
  | cons d a ih =>
      have later := ih fun e he => first e (List.mem_cons_of_mem d he)
      cases d with
      | leaf m => rw [List.cons_append, changeFirst, later, List.cons_append]
      | node q old =>
          have other : q ≠ p := fun he =>
            first _ List.mem_cons_self (congrArg some he)
          rw [List.cons_append, changeFirst, if_neg other, later,
            List.cons_append]

end Diagnostic

namespace Tree

open Diagnostic

variable {t : Tree} {p : Position} {parts ds : List Diagnostic}

/-- A tree has a message if the message is one of its parts. -/
theorem hasMessage_iff {m : String} :
    t.hasMessage m = true ↔ .leaf m ∈ t.parts := by
  unfold hasMessage
  rw [List.any_eq_true]
  constructor
  · rintro ⟨d, hd, same⟩
    cases d with
    | leaf m' =>
        obtain rfl := Option.some.inj (beq_iff_eq.1 same)
        exact hd
    | node q old => cases same
  · exact fun h => ⟨_, h, beq_self_eq_true _⟩

/-- A tree is found at the positions of the parts, and nowhere else. -/
theorem isSome_find?_iff :
    (t.find? p).isSome = true ↔ p ∈ positions t.parts := by
  rw [mem_positions, ← Option.ne_none_iff_isSome, ne_eq,
    find?_eq_none_iff]
  simp

/-- What a tree carries is at the position of one of its parts. -/
theorem carries_eq (d : Diagnostic) :
    Tree.carries ⟨p, parts⟩ d
      = d.position?.any (· ∈ positions parts) := by
  unfold carries
  refine congrArg (Option.any · d.position?) (funext fun q => ?_)
  rw [Bool.eq_iff_iff, isSome_find?_iff, decide_eq_true_iff]

-- =============================================================== merging

/-- What each of some diagnostics does to a tree, all of them do. -/
theorem insertAll_eq_graftAll
    (each : ∀ d ∈ ds, ∀ t : Tree,
      insert noLimit d t = ⟨t.position, graft d t.parts⟩) (t : Tree) :
    insertAll noLimit ds t = ⟨t.position, graftAll ds t.parts⟩ := by
  induction ds generalizing t with
  | nil => rw [insertAll, graftAll]
  | cons d ds ih =>
      have others := ih fun e he => each e (List.mem_cons_of_mem d he)
      rw [insertAll, each d List.mem_cons_self, others, graftAll]

/-- Without a limit, inserting leaves the position of a tree and grafts on
its parts. -/
theorem insert_eq_graft (d : Diagnostic) :
    ∀ t : Tree, insert noLimit d t = ⟨t.position, graft d t.parts⟩ := by
  induction d using Diagnostic.induction with
  | leaf m =>
      intro t
      rw [insert_leaf_noLimit, addMessage, graft]
      by_cases known : .leaf m ∈ t.parts
      · rw [if_pos (hasMessage_iff.2 known), if_pos known]
      · rw [if_neg (mt hasMessage_iff.1 known), if_neg known]
  | node p new ih =>
      intro t
      rcases insert_node_noLimit p new t with
        ⟨a, b, u, cut, rfl, first, same⟩ | ⟨fresh, same⟩
      · have known : u.position ∈ positions t.parts := by
          refine mem_positions.2 ⟨u.toDiagnostic, ?_, rfl⟩
          rw [cut]
          exact List.mem_append_right a List.mem_cons_self
        have changed := changeFirst_append (graftAll new) first u.parts b
        rw [same, insertAll_eq_graftAll ih, graft, if_pos known, cut]
        exact congrArg (Tree.mk t.position) changed.symm
      · have unknown : p ∉ positions t.parts := by
          rw [mem_positions]
          rintro ⟨d, hd, he⟩
          exact fresh d hd he
        rw [same, adopt, graft, if_neg unknown]
        simp only [carries_eq]
        rfl

/-- Merging without a limit takes the diagnostics in order and grafts
each, with all that is in it, onto the parts that the tree has by
then. -/
theorem merge_noLimit_eq_foldl (t : Tree) (ds : List Diagnostic) :
    t.merge noLimit ds
      = { t with
          parts := ds.foldl (fun parts d => graft d parts) t.parts } := by
  rw [merge_eq_insertAll, ← graftAll_eq_foldl]
  exact insertAll_eq_graftAll (fun d _ => insert_eq_graft d) t

end Tree

end BuildLexer
