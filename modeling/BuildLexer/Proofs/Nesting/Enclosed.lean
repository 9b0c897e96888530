/-
What is done inside a construct stays inside it.

Behind `push` a stack may be worked on in every way there is
(`ContextStack.Operation`), as long as the construct that was entered is
not left. The contexts around the construct are out of reach then, but
for the one operation that sets inherited flags on all levels. So once
the construct is left the stack is the one from before, with these
settings made on every level alike, and of the settings of one flag the
last counts (`pop_performAll_push`).

The invariant is about the contexts that were saved when the construct
was entered. They stay at the end of what is saved, and an operation
changes each of them by itself (`Operation.around`), which is one step
(`saved_perform`). What some operations do to a context one after the
other is then told by their settings alone (`settled_aroundAll`).
-/
import BuildLexer.Proofs.Nesting.Layers
import Mathlib.Data.List.Infix

namespace BuildLexer.ContextStack

-- ========================================================= operations

/-- What can be done with a stack. -/
inductive Operation where
  | push (flags : Context)
  | pop (flags : Context)
  | insert (flags : Context)
  | remove (flags : Context)
  | replace (old new : Context)
  | setInherited (flags : Context) (on : Bool)

/-- A stack behind an operation. -/
def perform (s : ContextStack) : Operation → ContextStack
  | .push flags => s.push flags
  | .pop flags => s.pop flags
  | .insert flags => s.insert flags
  | .remove flags => s.remove flags
  | .replace old new => s.replace old new
  | .setInherited flags on => s.setInherited flags on

/-- A stack behind some operations. -/
def performAll (s : ContextStack) (ops : List Operation) : ContextStack :=
  ops.foldl perform s

namespace Operation

/-- How an operation sets a flag on all levels, if it does. -/
def setting? (f : Flag) : Operation → Option Bool
  | setInherited flags on =>
    if f ∈ flags ∩ Context.inherited then some on else none
  | _ => none

/-- How a flag was last set on all levels, if it was. -/
def lastSetting? (f : Flag) (ops : List Operation) : Option Bool :=
  (ops.filterMap (setting? f)).getLast?

/-- What a context around the place becomes by an operation. -/
def around : Operation → Context → Context
  | setInherited flags on, c => setFlags (flags ∩ Context.inherited) on c
  | _, c => c

/-- What a context around the place becomes by some operations. -/
def aroundAll (ops : List Operation) (c : Context) : Context :=
  ops.foldl (fun c op => op.around c) c

end Operation

open Operation

/-- A context before and after some operations that change it by their
settings and in no other way. -/
structure Settled (ops : List Operation) (before after : Context) :
    Prop where
  /-- A flag that is not inherited is as it was. -/
  others : ∀ f : Flag, f ∉ Context.inherited → (f ∈ after ↔ f ∈ before)
  /-- A flag that was set is as it was last set. -/
  set : ∀ (f : Flag) (on : Bool),
    lastSetting? f ops = some on → (f ∈ after ↔ on = true)
  /-- A flag that was not set is as it was. -/
  unset : ∀ f : Flag, lastSetting? f ops = none → (f ∈ after ↔ f ∈ before)

-- =========================================================== settings

namespace Operation

/-- No flag is set on all levels but an inherited one. -/
theorem setting?_eq_none {f : Flag} (h : f ∉ Context.inherited)
    (op : Operation) : op.setting? f = none := by
  cases op with
  | setInherited flags on =>
      exact if_neg fun hf => h (Context.mem_inter.1 hf).2
  | _ => rfl

theorem lastSetting?_eq_none {f : Flag} (h : f ∉ Context.inherited)
    (ops : List Operation) : lastSetting? f ops = none := by
  unfold lastSetting?
  rw [List.getLast?_eq_none_iff, List.filterMap_eq_nil_iff]
  exact fun op _ => setting?_eq_none h op

/-- A later setting comes before an earlier one. -/
theorem lastSetting?_cons (f : Flag) (op : Operation)
    (ops : List Operation) :
    lastSetting? f (op :: ops) = (lastSetting? f ops).or (op.setting? f) := by
  unfold lastSetting?
  cases hs : op.setting? f with
  | none => rw [List.filterMap_cons_none hs, Option.or_none]
  | some on =>
      rw [List.filterMap_cons_some hs, List.getLast?_cons]
      cases (ops.filterMap (setting? f)).getLast? <;> rfl

/-- A flag is in a context around the place if it was set there, or was
there and was not taken away. -/
theorem mem_around (op : Operation) (f : Flag) (c : Context) :
    f ∈ op.around c ↔ (op.setting? f).getD (decide (f ∈ c)) = true := by
  cases op with
  | setInherited flags on =>
      unfold around setting? setFlags
      by_cases hf : f ∈ flags ∩ Context.inherited
      · cases on with
        | true => simp only [if_true, Context.mem_union, hf, or_true,
            Option.getD_some]
        | false => simp only [Bool.false_eq_true, if_false, if_true,
            Context.mem_sdiff, hf, not_true, and_false, Option.getD_some]
      · cases on with
        | true => simp only [if_true, if_false, Context.mem_union, hf,
            or_false, Option.getD_none, decide_eq_true_eq]
        | false => simp only [Bool.false_eq_true, if_false,
            Context.mem_sdiff, hf, not_false_eq_true, and_true,
            Option.getD_none, decide_eq_true_eq]
  | _ => exact decide_eq_true_iff.symm

/-- Of the settings of a flag the last counts. -/
theorem mem_aroundAll (ops : List Operation) (f : Flag) (c : Context) :
    f ∈ aroundAll ops c
      ↔ (lastSetting? f ops).getD (decide (f ∈ c)) = true := by
  induction ops generalizing c with
  | nil => exact decide_eq_true_iff.symm
  | cons op ops ih =>
      have first : decide (f ∈ op.around c)
          = (op.setting? f).getD (decide (f ∈ c)) := by
        rw [Bool.eq_iff_iff, decide_eq_true_iff, mem_around]
      show f ∈ aroundAll ops (op.around c) ↔ _
      rw [ih, first, lastSetting?_cons]
      cases lastSetting? f ops <;> rfl

end Operation

/-- By some operations a context around the place is settled. -/
theorem settled_aroundAll (ops : List Operation) (c : Context) :
    Settled ops c (aroundAll ops c) := by
  have unset (f : Flag) (h : lastSetting? f ops = none) :
      f ∈ aroundAll ops c ↔ f ∈ c := by
    rw [mem_aroundAll, h]
    exact decide_eq_true_iff
  refine ⟨fun f hf => unset f (lastSetting?_eq_none hf ops), ?_, unset⟩
  intro f on h
  rw [mem_aroundAll, h]
  rfl

-- ============================================================= inside

section Enclosed

variable {s t : ContextStack} {inner outer : List Context}

/-- What leaving a construct brings back. -/
theorem eq_of_pop? {flags c : Context} {saved : List Context}
    (h : s.pop? flags = some t) (hs : s.saved = c :: saved) :
    t = { current := c, saved } := by
  unfold pop? at h
  rw [hs] at h
  split at h
  · exact (Option.some.inj h).symm
  · cases h

/-- A pop takes away the innermost of the saved contexts or nothing. -/
theorem saved_pop (s : ContextStack) (flags : Context) :
    (s.pop flags).saved = s.saved ∨ (s.pop flags).saved = s.saved.tail := by
  unfold pop pop?
  split
  · cases s.saved with
    | nil => exact Or.inr rfl
    | cons c saved => exact Or.inr rfl
  · exact Or.inl rfl

/-- The contexts around a construct that an operation does not leave are
changed one by one, and stay where they are. -/
theorem saved_perform (op : Operation) (hs : s.saved = inner ++ outer)
    (inside : outer.length ≤ (s.perform op).depth) :
    ∃ inner, (s.perform op).saved = inner ++ outer.map op.around := by
  have same : s.saved = inner ++ outer.map fun c => c := by
    rw [hs, List.map_id']
  cases op with
  | push flags =>
      refine ⟨s.current :: inner, ?_⟩
      show s.current :: s.saved = _
      rw [same]
      rfl
  | pop flags =>
      show ∃ inner, (s.pop flags).saved = inner ++ outer.map fun c => c
      rw [List.map_id']
      rcases s.saved_pop flags with kept | left
      · exact ⟨inner, kept.trans hs⟩
      · -- the construct left is an inner one, for the depth would fall
        cases inner with
        | cons c inner => exact ⟨inner, by rw [left, hs]; rfl⟩
        | nil =>
            change outer.length ≤ (s.pop flags).saved.length at inside
            rw [left, hs, List.nil_append, List.length_tail] at inside
            have none : outer = [] := List.length_eq_zero_iff.1 (by omega)
            exact ⟨[], by rw [left, hs, none]; rfl⟩
  | setInherited flags on =>
      refine ⟨inner.map (setFlags (flags ∩ Context.inherited) on), ?_⟩
      show s.saved.map _ = _
      rw [hs, List.map_append]
      rfl
  | insert flags => exact ⟨inner, same⟩
  | remove flags => exact ⟨inner, same⟩
  | replace old new => exact ⟨inner, same⟩

/-- So they are by any operations that do not leave it. -/
theorem saved_performAll {ops : List Operation}
    (hs : s.saved = inner ++ outer)
    (inside : ∀ front, front <+: ops →
      outer.length ≤ (s.performAll front).depth) :
    ∃ inner, (s.performAll ops).saved
      = inner ++ outer.map (aroundAll ops) := by
  induction ops generalizing s inner outer with
  | nil =>
      refine ⟨inner, ?_⟩
      show s.saved = inner ++ outer.map fun c => c
      rw [hs, List.map_id']
  | cons op ops ih =>
      obtain ⟨inner, first⟩ :=
        saved_perform op hs (inside [op] ⟨ops, rfl⟩)
      have later : ∀ front, front <+: ops →
          (outer.map op.around).length
            ≤ ((s.perform op).performAll front).depth := by
        intro front hf
        rw [List.length_map]
        exact inside (op :: front) (List.cons_prefix_cons.2 ⟨rfl, hf⟩)
      obtain ⟨inner, all⟩ := ih first later
      refine ⟨inner, ?_⟩
      show ((s.perform op).performAll ops).saved = _
      rw [all, List.map_map]
      rfl

end Enclosed

/-- A construct is entered, worked in and left: then every level around
it is settled, and nothing else has changed. A construct that a pop does
not name is not left, and nothing changes. -/
theorem pop_performAll_push {s t : ContextStack} {flags closing : Context}
    {ops : List Operation}
    (inside : ∀ front, front <+: ops →
      s.depth + 1 ≤ ((s.push flags).performAll front).depth)
    (left : ((s.push flags).performAll ops).pop? closing = some t)
    (back : t.depth = s.depth) :
    (∃ change : Context → Context,
      t = { current := change s.current, saved := s.saved.map change }
        ∧ ∀ c, Settled ops c (change c))
    ∧ ∀ (u : ContextStack) (bits : Context),
      (∀ f : Flag, f ∈ bits → f ∉ u.current) →
        u.pop? bits = none ∧ u.pop bits = u := by
  constructor
  · refine ⟨aroundAll ops, ?_, settled_aroundAll ops⟩
    have entered : (s.push flags).saved = [] ++ s.current :: s.saved := rfl
    obtain ⟨inner, saved⟩ := saved_performAll entered inside
    cases inner with
    | nil => exact eq_of_pop? left saved
    | cons c inner =>
        -- a construct would be left that is further inside
        rw [eq_of_pop? left saved] at back
        change (inner ++ (s.current :: s.saved).map _).length
          = s.saved.length at back
        rw [List.length_append, List.length_map, List.length_cons] at back
        omega
  · intro u bits unnamed
    have unmet : u.current.meets bits = false :=
      Context.meets_eq_false fun f hf hb => unnamed f hb hf
    have none : u.pop? bits = none := by
      unfold pop?
      rw [unmet]
      rfl
    refine ⟨none, ?_⟩
    unfold pop
    rw [none]
    rfl

/-- In a string at the start of a line. -/
def insideString : ContextStack where
  current := {.quoted, .recipesAllowed}
  saved := [{.lineStart, .recipesAllowed}]

/-- Recipes are switched off, a group is opened and closed by its own
mark but not by another, hash signs are switched to and fro, and the
flags of the call are exchanged. -/
def workInCall : List Operation :=
  [.setInherited {.recipesAllowed, .lineStart} false, .push {.group},
    .pop {.braceCall}, .setInherited {.commentsOff} false,
    .insert {.recipesAllowed, .tripleQuoted}, .pop {.group},
    .replace {.colonCallLeft} {.colonCallRight},
    .setInherited {.commentsOff} true, .remove {.commentsOff}]

theorem pop_performAll_push_call :
    (∀ front, front <+: workInCall → insideString.depth + 1
        ≤ ((insideString.push {.colonCallLeft}).performAll front).depth)
      ∧ ((insideString.push {.colonCallLeft}).performAll workInCall).pop?
          Context.colonCall
        = some { current := {.quoted, .commentsOff}
                 saved := [{.lineStart, .commentsOff}] }
      ∧ (∃ change : Context → Context,
        { current := {.quoted, .commentsOff}
          saved := [{.lineStart, .commentsOff}] }
          = ContextStack.mk (change insideString.current)
              (insideString.saved.map change)
          ∧ ∀ c, Settled workInCall c (change c))
      ∧ (insideString.pop? Context.call = none
        ∧ insideString.pop Context.call = insideString) := by
  have inside : ∀ front ∈ workInCall.inits, insideString.depth + 1
      ≤ ((insideString.push {.colonCallLeft}).performAll front).depth := by
    decide +kernel
  have inside : ∀ front, front <+: workInCall → insideString.depth + 1
      ≤ ((insideString.push {.colonCallLeft}).performAll front).depth :=
    fun front hf => inside front ((List.mem_inits front workInCall).2 hf)
  have left : ((insideString.push {.colonCallLeft}).performAll workInCall).pop?
      Context.colonCall
        = some { current := {.quoted, .commentsOff}
                 saved := [{.lineStart, .commentsOff}] } := by
    decide +kernel
  have both := pop_performAll_push inside left rfl
  exact ⟨inside, left, both.1, both.2 insideString Context.call (by
    intro f
    cases f <;> decide)⟩

end BuildLexer.ContextStack
