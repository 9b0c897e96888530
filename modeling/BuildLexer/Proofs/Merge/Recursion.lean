/-
Merging, said by recursion on what is merged.

`Tree.merge` works through a list of pieces, each with a path to the
tree it is meant for. The pieces of a tree stand in front of all that
came after it, and while they are worked off nothing changes on the way
to the tree they go to. So the list of pieces is the recursion over
their trees, written out: a piece is merged, with all that is in it, at
the place its path leads to when its turn comes (`mergeAll_cons_eq`),
and merging a list is merging its items one after the other
(`merge_eq_insertAll`). This holds under every limit. What a limit can
do is in the recursion too: the place of a part is looked up before the
oldest parts are dropped, and used after.

Without a limit a tree finds the first part at its position or becomes a
part itself, and there is no third case (`insert_node_noLimit`).
-/
import BuildLexer.Diagnostic.Merge
import BuildLexer.Proofs.Merge.Trees

namespace BuildLexer.Tree

open Diagnostic

-- ======================================================= the recursion

mutual

/-- Merges a diagnostic into a tree. -/
def insert (limit : Nat) : Diagnostic → Tree → Tree
  | .leaf m, t => (t.addMessage m).truncate limit
  | .node p parts, t =>
    match t.find? p with
    | some i => (t.truncate limit).modify (insertAll limit parts) [i]
    | none => (t.adopt ⟨p, parts⟩).truncate limit

/-- Merges diagnostics into a tree, one after the other. -/
def insertAll (limit : Nat) : List Diagnostic → Tree → Tree
  | [], t => t
  | d :: ds, t => insertAll limit ds (insert limit d t)

end

theorem insert_leaf (limit : Nat) (m : String) (t : Tree) :
    insert limit (.leaf m) t = (t.addMessage m).truncate limit := by
  rw [insert]

/-- A tree at the position of a part goes where that part was. -/
theorem insert_of_find? {limit i : Nat} {p : Position} {t : Tree}
    (h : t.find? p = some i) (parts : List Diagnostic) :
    insert limit (.node p parts) t
      = (t.truncate limit).modify (insertAll limit parts) [i] := by
  rw [insert, h]

/-- A tree at a new position becomes a part. -/
theorem insert_of_find?_none {limit : Nat} {p : Position} {t : Tree}
    (h : t.find? p = none) (parts : List Diagnostic) :
    insert limit (.node p parts) t
      = (t.adopt ⟨p, parts⟩).truncate limit := by
  rw [insert, h]

-- =============================================================== paths

variable {t u : Tree} {i : Nat} {path : List Nat} {f g : Tree → Tree}

/-- Putting an item where it is changes nothing. -/
theorem set_of_getElem? {α : Type} {items : List α} {item : α}
    (h : items[i]? = some item) : items.set i item = items := by
  obtain ⟨inside, rfl⟩ := List.getElem?_eq_some_iff.1 h
  exact List.set_getElem_self inside

theorem get?_cons (h : t.parts[i]? = some u.toDiagnostic) :
    t.get? (i :: path) = u.get? path := by
  rw [get?, h]
  rfl

theorem modify_cons (h : t.parts[i]? = some u.toDiagnostic) :
    t.modify f (i :: path)
      = { t with parts := t.parts.set i (u.modify f path).toDiagnostic } := by
  rw [modify, h]
  rfl

/-- A number leads to a part that is a tree, or nowhere. -/
theorem exists_tree_or (t : Tree) (i : Nat) :
    (∃ u : Tree, t.parts[i]? = some u.toDiagnostic)
      ∨ ∀ (path : List Nat) (f : Tree → Tree),
        t.get? (i :: path) = none ∧ t.modify f (i :: path) = t := by
  cases h : t.parts[i]? with
  | none =>
      refine Or.inr fun path f => ?_
      rw [get?, modify, h]
      exact ⟨rfl, rfl⟩
  | some d =>
      cases d with
      | leaf m =>
          refine Or.inr fun path f => ?_
          rw [get?, modify, h]
          exact ⟨rfl, rfl⟩
      | node p parts => exact Or.inl ⟨⟨p, parts⟩, rfl⟩

/-- Where a path leads nowhere nothing is changed. -/
theorem modify_of_get?_none (h : t.get? path = none) :
    t.modify f path = t := by
  induction path generalizing t with
  | nil => cases h
  | cons i path ih =>
      rcases t.exists_tree_or i with ⟨u, hu⟩ | nowhere
      · rw [get?_cons hu] at h
        rw [modify_cons hu, ih h, set_of_getElem? hu]
      · exact (nowhere path f).2

/-- A change matters only at the tree that is changed. -/
theorem modify_congr (h : t.get? path = some u) (same : f u = g u) :
    t.modify f path = t.modify g path := by
  induction path generalizing t with
  | nil =>
      obtain rfl := Option.some.inj h
      exact same
  | cons i path ih =>
      rcases t.exists_tree_or i with ⟨v, hv⟩ | nowhere
      · rw [get?_cons hv] at h
        rw [modify_cons hv, modify_cons hv, ih h]
      · rw [(nowhere path f).2, (nowhere path g).2]

theorem modify_id : t.modify (fun u => u) path = t := by
  induction path generalizing t with
  | nil => rfl
  | cons i path ih =>
      rcases t.exists_tree_or i with ⟨u, hu⟩ | nowhere
      · rw [modify_cons hu, ih, set_of_getElem? hu]
      · exact (nowhere path _).2

/-- Two changes at one place are one. -/
theorem modify_modify :
    (t.modify g path).modify f path = t.modify (fun u => f (g u)) path := by
  induction path generalizing t with
  | nil => rfl
  | cons i path ih =>
      rcases t.exists_tree_or i with ⟨u, hu⟩ | nowhere
      · have inside : i < t.parts.length :=
          (List.getElem?_eq_some_iff.1 hu).1
        have there : (t.modify g (i :: path)).parts[i]?
            = some (u.modify g path).toDiagnostic := by
          rw [modify_cons hu]
          exact List.getElem?_set_self inside
        rw [modify_cons there, ih, modify_cons hu, modify_cons hu]
        simp only [List.set_set]
      · rw [(nowhere path g).2, (nowhere path f).2, (nowhere path _).2]

/-- A change behind a path is a change of what the path leads to. -/
theorem modify_append {behind : List Nat} :
    t.modify f (path ++ behind)
      = t.modify (fun u => u.modify f behind) path := by
  induction path generalizing t with
  | nil => rfl
  | cons i path ih =>
      rw [List.cons_append]
      rcases t.exists_tree_or i with ⟨u, hu⟩ | nowhere
      · rw [modify_cons hu, ih, modify_cons hu]
      · rw [(nowhere _ f).2, (nowhere path _).2]

-- ================================================= the list of pieces

variable {limit : Nat}

/-- If each of some pieces is merged where its path leads to, all of
them are. -/
theorem mergeAll_ofParts {ds : List Diagnostic}
    (each : ∀ d ∈ ds, ∀ (path : List Nat) (rest : List Incoming) (t : Tree),
      mergeAll limit (⟨path, d⟩ :: rest) t
        = mergeAll limit rest (t.modify (insert limit d) path))
    (path : List Nat) (rest : List Incoming) (t : Tree) :
    mergeAll limit (Incoming.ofParts path ds ++ rest) t
      = mergeAll limit rest (t.modify (insertAll limit ds) path) := by
  induction ds generalizing t with
  | nil =>
      have nothing : insertAll limit [] = fun u => u := by
        funext u
        rw [insertAll]
      rw [nothing, modify_id]
      rfl
  | cons d ds ih =>
      have others := fun e he => each e (List.mem_cons_of_mem d he)
      have both : insertAll limit (d :: ds)
          = fun u => insertAll limit ds (insert limit d u) := by
        funext u
        rw [insertAll]
      have first : Incoming.ofParts path (d :: ds) ++ rest
          = ⟨path, d⟩ :: (Incoming.ofParts path ds ++ rest) := rfl
      rw [first, each d List.mem_cons_self, ih others, modify_modify, both]

theorem mergeOne_of_none {d : Diagnostic} (h : t.get? path = none) :
    t.mergeOne limit ⟨path, d⟩
      = (t.modify (insert limit d) path, []) := by
  rw [modify_of_get?_none h]
  unfold mergeOne
  rw [h]

theorem mergeOne_leaf {m : String} (h : t.get? path = some u) :
    t.mergeOne limit ⟨path, .leaf m⟩
      = (t.modify (insert limit (.leaf m)) path, []) := by
  have same : t.modify (insert limit (.leaf m)) path
      = t.modify (fun u => (u.addMessage m).truncate limit) path :=
    modify_congr h (insert_leaf limit m u)
  rw [same]
  unfold mergeOne
  rw [h]

theorem mergeOne_of_find?_none {p : Position} {parts : List Diagnostic}
    (h : t.get? path = some u) (hf : u.find? p = none) :
    t.mergeOne limit ⟨path, .node p parts⟩
      = (t.modify (insert limit (.node p parts)) path, []) := by
  have same : t.modify (insert limit (.node p parts)) path
      = t.modify (fun u => (u.adopt ⟨p, parts⟩).truncate limit) path :=
    modify_congr h (insert_of_find?_none hf parts)
  rw [same]
  unfold mergeOne
  rw [h]
  dsimp only
  rw [hf]

theorem mergeOne_of_find? {p : Position} {parts : List Diagnostic}
    (h : t.get? path = some u) (hf : u.find? p = some i) :
    t.mergeOne limit ⟨path, .node p parts⟩
      = (t.modify (truncate limit) path,
        Incoming.ofParts (path ++ [i]) parts) := by
  unfold mergeOne
  rw [h]
  dsimp only
  rw [hf]

/-- A piece is merged, with all that is in it, where its path leads to
when its turn comes. -/
theorem mergeAll_cons_eq (d : Diagnostic) :
    ∀ (path : List Nat) (rest : List Incoming) (t : Tree),
      mergeAll limit (⟨path, d⟩ :: rest) t
        = mergeAll limit rest (t.modify (insert limit d) path) := by
  induction d using Diagnostic.induction with
  | leaf m =>
      intro path rest t
      rw [mergeAll]
      cases h : t.get? path with
      | none => rw [mergeOne_of_none h, List.nil_append]
      | some u => rw [mergeOne_leaf h, List.nil_append]
  | node p parts ih =>
      intro path rest t
      rw [mergeAll]
      cases h : t.get? path with
      | none => rw [mergeOne_of_none h, List.nil_append]
      | some u =>
          cases hf : u.find? p with
          | none => rw [mergeOne_of_find?_none h hf, List.nil_append]
          | some i =>
              have same : t.modify (insert limit (.node p parts)) path
                  = t.modify (fun u => (u.truncate limit).modify
                      (insertAll limit parts) [i]) path :=
                modify_congr h (insert_of_find? hf parts)
              rw [mergeOne_of_find? h hf, mergeAll_ofParts ih,
                modify_append, modify_modify, same]

/-- Merging is the recursion. -/
theorem merge_eq_insertAll (limit : Nat) (ds : List Diagnostic)
    (t : Tree) : t.merge limit ds = insertAll limit ds t := by
  have all : mergeAll limit (Incoming.ofParts [] ds ++ []) t
      = mergeAll limit [] (t.modify (insertAll limit ds) []) :=
    mergeAll_ofParts (fun d _ => mergeAll_cons_eq d) [] [] t
  rw [List.append_nil] at all
  rw [merge, all, mergeAll]
  rfl

-- ================================================= what is looked up

theorem find?_eq_none_iff {p : Position} :
    t.find? p = none ↔ ∀ d ∈ t.parts, d.position? ≠ some p := by
  unfold find?
  rw [List.findIdx?_eq_none_iff]
  simp only [beq_eq_false_iff_ne]

/-- What a tree carries is a matter of positions alone. -/
theorem carries_congr {d e : Diagnostic} (h : d.position? = e.position?) :
    t.carries d = t.carries e := by
  unfold carries
  rw [h]

/-- What is found at a position is a tree there, and the first one. -/
theorem eq_append_of_find? {p : Position} (h : t.find? p = some i) :
    ∃ (a b : List Diagnostic) (u : Tree),
      t.parts = a ++ u.toDiagnostic :: b ∧ a.length = i
        ∧ u.position = p ∧ ∀ d ∈ a, d.position? ≠ some p := by
  obtain ⟨inside, there, before⟩ :=
    List.findIdx?_eq_some_iff_getElem.1 h
  have cut : t.parts
      = t.parts.take i ++ t.parts[i] :: t.parts.drop (i + 1) := by
    rw [List.getElem_cons_drop, List.take_append_drop]
  cases hd : t.parts[i] with
  | leaf m =>
      rw [hd] at there
      cases there
  | node q parts =>
      rw [hd] at there cut
      refine ⟨_, _, ⟨q, parts⟩, cut, List.length_take_of_le
        (Nat.le_of_lt inside), Option.some.inj (beq_iff_eq.1 there), ?_⟩
      intro d hd he
      obtain ⟨j, hj, rfl⟩ := List.mem_iff_getElem.1 hd
      rw [List.length_take] at hj
      rw [List.getElem_take] at he
      exact before j (by omega) (beq_iff_eq.2 he)

theorem getElem?_of_cut {a b : List Diagnostic}
    (cut : t.parts = a ++ u.toDiagnostic :: b) :
    t.parts[a.length]? = some u.toDiagnostic := by
  rw [cut, List.getElem?_append_right (Nat.le_refl _), Nat.sub_self]
  rfl

-- ====================================================== without a limit

theorem insert_leaf_noLimit (m : String) (t : Tree) :
    insert noLimit (.leaf m) t = t.addMessage m := by
  rw [insert_leaf]
  rfl

/-- Without a limit a tree goes into the part that is found at its
position, and that part stays where it is. -/
theorem insert_noLimit_of_find? {p : Position} {a b : List Diagnostic}
    (found : t.find? p = some a.length)
    (cut : t.parts = a ++ u.toDiagnostic :: b) (parts : List Diagnostic) :
    insert noLimit (.node p parts) t
      = ⟨t.position, a ++ (insertAll noLimit parts u).toDiagnostic :: b⟩ := by
  have whole : t.truncate noLimit = t := rfl
  rw [insert_of_find? found, whole, modify_cons (getElem?_of_cut cut), cut,
    List.set_append_right _ _ (Nat.le_refl _), Nat.sub_self,
    List.set_cons_zero]
  rfl

/-- Without a limit a tree goes into the first part at its position, or
is adopted where there is none. -/
theorem insert_node_noLimit (p : Position) (parts : List Diagnostic)
    (t : Tree) :
    (∃ (a b : List Diagnostic) (u : Tree),
      t.parts = a ++ u.toDiagnostic :: b ∧ u.position = p
        ∧ (∀ d ∈ a, d.position? ≠ some p)
        ∧ insert noLimit (.node p parts) t
          = ⟨t.position,
            a ++ (insertAll noLimit parts u).toDiagnostic :: b⟩)
      ∨ ((∀ d ∈ t.parts, d.position? ≠ some p)
        ∧ insert noLimit (.node p parts) t = t.adopt ⟨p, parts⟩) := by
  cases hf : t.find? p with
  | none =>
      rw [insert_of_find?_none hf]
      exact Or.inr ⟨find?_eq_none_iff.1 hf, rfl⟩
  | some i =>
      obtain ⟨a, b, u, cut, rfl, hu, first⟩ := eq_append_of_find? hf
      exact Or.inl ⟨a, b, u, cut, hu, first,
        insert_noLimit_of_find? hf cut parts⟩

end BuildLexer.Tree
