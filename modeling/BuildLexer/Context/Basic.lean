/-
Sets of flags.

A context is the set of facts that hold at a place, kept as one bit for
each flag. Everything about contexts is said through membership: two
contexts with the same members are equal (`Context.ext`), and each
operation is described by the members of its result.
-/
import BuildLexer.Context.Flag

namespace BuildLexer

/-- A set of flags. -/
structure Context where
  bits : BitVec 13
  deriving DecidableEq

namespace Context

-- ========================================================= operations

instance : Membership Flag Context where
  mem c f := c.bits.getLsbD f.number = true

instance (f : Flag) (c : Context) : Decidable (f ∈ c) :=
  inferInstanceAs (Decidable (_ = true))

instance : EmptyCollection Context where
  emptyCollection := ⟨0#13⟩

instance : Singleton Flag Context where
  singleton f := ⟨BitVec.twoPow 13 f.number⟩

instance : Union Context where
  union a b := ⟨a.bits ||| b.bits⟩

instance : Inter Context where
  inter a b := ⟨a.bits &&& b.bits⟩

instance : SDiff Context where
  sdiff a b := ⟨a.bits &&& ~~~b.bits⟩

instance : Insert Flag Context where
  insert f c := {f} ∪ c

instance : HasSubset Context where
  Subset a b := a \ b = ∅

instance (a b : Context) : Decidable (a ⊆ b) :=
  inferInstanceAs (Decidable (_ = _))

/-- Whether two contexts have a flag in common. -/
def meets (a b : Context) : Bool := decide (a ∩ b ≠ ∅)

-- ============================================================ members

/-- A flag is in a context when its bit is set. -/
theorem mem_def {f : Flag} {c : Context} :
    f ∈ c ↔ c.bits.getLsbD f.number = true := Iff.rfl

@[simp] theorem not_mem_empty (f : Flag) : ¬ f ∈ (∅ : Context) := by
  show ¬ (0#13).getLsbD f.number = true
  rw [BitVec.getLsbD_zero]
  exact Bool.false_ne_true

@[simp] theorem mem_singleton {f g : Flag} :
    f ∈ ({g} : Context) ↔ f = g := by
  show (BitVec.twoPow 13 g.number).getLsbD f.number = true ↔ _
  rw [BitVec.getLsbD_twoPow, ← Flag.number_inj]
  simp [g.number_lt, eq_comm]

/-- What a union holds, and so on for the other operations on sets of
flags. -/
@[simp] theorem mem_union {f : Flag} {a b : Context} :
    f ∈ a ∪ b ↔ f ∈ a ∨ f ∈ b := by
  show (a.bits ||| b.bits).getLsbD f.number = true ↔ _
  rw [BitVec.getLsbD_or, Bool.or_eq_true, mem_def, mem_def]

@[simp] theorem mem_inter {f : Flag} {a b : Context} :
    f ∈ a ∩ b ↔ f ∈ a ∧ f ∈ b := by
  show (a.bits &&& b.bits).getLsbD f.number = true ↔ _
  rw [BitVec.getLsbD_and, Bool.and_eq_true, mem_def, mem_def]

@[simp] theorem mem_sdiff {f : Flag} {a b : Context} :
    f ∈ a \ b ↔ f ∈ a ∧ ¬ f ∈ b := by
  show (a.bits &&& ~~~b.bits).getLsbD f.number = true ↔ _
  rw [BitVec.getLsbD_and, BitVec.getLsbD_not, Bool.and_eq_true, mem_def,
    mem_def]
  simp [f.number_lt]

@[simp] theorem mem_insert {f g : Flag} {c : Context} :
    f ∈ insert g c ↔ f = g ∨ f ∈ c := by
  show f ∈ ({g} : Context) ∪ c ↔ _
  rw [mem_union, mem_singleton]

/-- A context is its members. -/
theorem ext {a b : Context} (h : ∀ f : Flag, f ∈ a ↔ f ∈ b) : a = b := by
  have bit (f : Flag) :
      a.bits.getLsbD f.number = b.bits.getLsbD f.number :=
    Bool.eq_iff_iff.2 (h f)
  have same : a.bits = b.bits := by
    apply BitVec.eq_of_getLsbD_eq
    intro i hi
    match i, hi with
    | 0, _ => exact bit .recipeLine
    | 1, _ => exact bit .quoted
    | 2, _ => exact bit .parenCall
    | 3, _ => exact bit .braceCall
    | 4, _ => exact bit .colonCallLeft
    | 5, _ => exact bit .colonCallRight
    | 6, _ => exact bit .nameCall
    | 7, _ => exact bit .group
    | 8, _ => exact bit .tripleQuoted
    | 9, _ => exact bit .lineStart
    | 10, _ => exact bit .recipesAllowed
    | 11, _ => exact bit .recipesExpected
    | 12, _ => exact bit .commentsOff
  cases a
  cases b
  exact congrArg Context.mk same

/-- A context is empty when no flag is in it. -/
theorem eq_empty_iff {c : Context} : c = ∅ ↔ ∀ f : Flag, ¬ f ∈ c :=
  ⟨fun h f => h ▸ not_mem_empty f,
    fun h => ext fun f => iff_of_false (h f) (not_mem_empty f)⟩

/-- Contexts are compared flag by flag. -/
theorem subset_iff {a b : Context} :
    a ⊆ b ↔ ∀ f : Flag, f ∈ a → f ∈ b := by
  show a \ b = ∅ ↔ _
  simp [eq_empty_iff]

/-- Two contexts meet in a flag. -/
theorem meets_iff {a b : Context} :
    a.meets b = true ↔ ∃ f : Flag, f ∈ a ∧ f ∈ b := by
  simp [meets, eq_empty_iff]

-- ============================================================= groups

/-- The calls by colons, in either part. -/
def colonCall : Context := {.colonCallLeft, .colonCallRight}

/-- The arguments of any call. -/
def call : Context :=
  {.parenCall, .braceCall, .colonCallLeft, .colonCallRight, .nameCall}

/-- What belongs to an open construct. -/
def nested : Context :=
  call ∪ {.group, .quoted, .recipeLine, .tripleQuoted}

/-- What holds inside every construct once it holds outside. -/
def inherited : Context := {.recipesAllowed, .commentsOff}

/-- All flags. -/
def all : Context := ⟨BitVec.allOnes 13⟩

end Context

end BuildLexer
