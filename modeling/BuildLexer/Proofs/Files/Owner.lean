/-
The owner of a handle in a set of files.

The files of a set stand one behind the other from handle 1 on, each
with one handle more than it has bytes, and the next base is behind the
last of them (`Packed`). This holds of every set that is built by adding
files, as long as there are handles left for them, and lines do not
change it. So every handle below the next base is in one file and the
others lie on either side of it (`Owns`): the files before end before
the handle, those behind begin behind it.

`Owns` is also what is kept when the set goes on to grow. A file added
later begins at the next base or behind it, and a line that is added
changes one file and none of its handles (`Owns.update`). So a handle
stays with its file for good.
-/
import BuildLexer.Proofs.Scanner.Reports
import BuildLexer.Source.FileSet

namespace BuildLexer

namespace File

/-- What a file was added as. -/
def entry (f : File) : String × Nat := (f.name, f.size)

theorem entry_addLine (f : File) (start : Nat) :
    (f.addLine start).entry = f.entry := by
  unfold addLine
  split <;> rfl

end File

namespace FileSet

-- =================================================== building a set

/-- What is done to a set of files. -/
inductive Update where
  | addFile (name : String) (size : Nat)
  /-- A line is registered in the file with a number. -/
  | addLine (number start : Nat)
  deriving DecidableEq

/-- How many handles are taken. -/
def Update.handles : Update → Nat
  | addFile _ size => size + 1
  | addLine _ _ => 0

/-- The name and the size of the file that is added, if one is. -/
def Update.added? : Update → Option (String × Nat)
  | addFile name size => some (name, size)
  | addLine _ _ => none

/-- A line in a file that the set does not have is nowhere. -/
def update (s : FileSet) : Update → FileSet
  | .addFile name size => s.addFile name size
  | .addLine number start =>
    match s.file? number with
    | some f => s.setFile number (f.addLine start)
    | none => s

/-- All that is done to a set, one after the other. -/
def updates (s : FileSet) (us : List Update) : FileSet :=
  us.foldl update s

-- ====================================================== packed files

/-- Files one behind the other, from a handle on up to the next that is
free. -/
inductive Packed : (first : Nat) → List File → (next : Nat) → Prop
  | none (next : Nat) : Packed next [] next
  | file {f : File} {files : List File} {next : Nat} :
      Packed (f.base + f.size + 1) files next →
      Packed f.base (f :: files) next

namespace Packed

variable {first between next : Nat} {files more : List File} {f g : File}

theorem le (h : Packed first files next) : first ≤ next := by
  induction h with
  | none => exact Nat.le_refl _
  | file _ ih => omega

theorem append (h : Packed first files between)
    (later : Packed between more next) :
    Packed first (files ++ more) next := by
  induction h with
  | none => exact later
  | file _ ih => exact .file (ih later)

theorem inside (h : Packed first files next) (hf : f ∈ files) :
    first ≤ f.base ∧ f.base + f.size < next := by
  induction h with
  | none => cases hf
  | file later ih =>
      rcases List.mem_cons.1 hf with rfl | hf
      · exact ⟨Nat.le_refl _, later.le⟩
      · have := ih hf
        omega

/-- Each file ends before the next begins. -/
theorem ascends (h : Packed first files next) :
    files.Pairwise fun f g => f.base + f.size < g.base := by
  induction h with
  | none => exact .nil
  | file later ih =>
      exact List.pairwise_cons.2 ⟨fun g hg => (later.inside hg).1, ih⟩

/-- A file ends before any other that stands behind it. -/
theorem apart (h : Packed first files next) {i j : Nat}
    (hf : files[i]? = some f) (hg : files[j]? = some g) (less : i < j) :
    f.base + f.size < g.base := by
  obtain ⟨hi, rfl⟩ := List.getElem?_eq_some_iff.1 hf
  obtain ⟨hj, rfl⟩ := List.getElem?_eq_some_iff.1 hg
  exact List.pairwise_iff_getElem.1 h.ascends i j hi hj less

/-- A file may be exchanged for one with the same handles. -/
theorem set (h : Packed first files next) {number : Nat}
    (hf : files[number]? = some f) (base : g.base = f.base)
    (size : g.size = f.size) : Packed first (files.set number g) next := by
  induction h generalizing number with
  | none => cases hf
  | file later ih =>
      cases number with
      | zero =>
          obtain rfl := Option.some.inj hf
          rw [List.set_cons_zero, ← base]
          rw [← base, ← size] at later
          exact .file later
      | succ number =>
          rw [List.getElem?_cons_succ] at hf
          rw [List.set_cons_succ]
          exact .file (ih hf)

/-- Every handle from the first to the next is in a file. -/
theorem exists_contains (h : Packed first files next) {handle : Handle}
    (low : first ≤ handle.index) (high : handle.index < next) :
    ∃ (number : Nat) (f : File), files[number]? = some f
      ∧ f.contains handle = true := by
  induction h with
  | none => omega
  | @file f files next later ih =>
      by_cases here : handle.index ≤ f.base + f.size
      · exact ⟨0, f, rfl, File.contains_iff.2 ⟨low, here⟩⟩
      · obtain ⟨number, g, hg, holds⟩ := ih (by omega) high
        exact ⟨number + 1, g, hg, holds⟩

end Packed

-- ============================================================ growing

section Growing

variable {s : FileSet} {u : Update}

/-- Where a set knows no such file, no line is registered. -/
theorem update_addLine_of_none {number : Nat}
    (h : s.files[number]? = none) (start : Nat) :
    s.update (.addLine number start) = s := by
  unfold update file?
  dsimp only
  rw [h]

theorem update_addLine_of_some {number : Nat} {f : File}
    (h : s.files[number]? = some f) (start : Nat) :
    s.update (.addLine number start)
      = { s with files := s.files.set number (f.addLine start) } := by
  unfold update file? setFile
  dsimp only
  rw [h]

/-- A file of a set that has grown was there before, with the same
handles, or begins at what was the next base. -/
theorem file_of_update {i : Nat} {g : File}
    (h : (s.update u).files[i]? = some g) :
    (∃ old, s.files[i]? = some old ∧ g.base = old.base ∧ g.size = old.size)
      ∨ i = s.files.length ∧ g.base = s.nextBase := by
  cases u with
  | addFile name size =>
      have h : (s.files ++ [⟨name, s.nextBase, size, []⟩])[i]? = some g := h
      rw [List.getElem?_append] at h
      split at h
      next => exact .inl ⟨g, h, rfl, rfl⟩
      next behind =>
        rw [List.getElem?_singleton] at h
        split at h
        next here =>
          obtain rfl := Option.some.inj h
          exact .inr ⟨by omega, rfl⟩
        next => cases h
  | addLine number start =>
      cases hf : s.files[number]? with
      | none =>
          rw [update_addLine_of_none hf] at h
          exact .inl ⟨g, h, rfl, rfl⟩
      | some f =>
          rw [update_addLine_of_some hf] at h
          have h : (s.files.set number (f.addLine start))[i]? = some g := h
          by_cases same : number = i
          · have inside := (List.getElem?_eq_some_iff.1 hf).1
            rw [← same, List.getElem?_set_self inside] at h
            obtain rfl := Option.some.inj h
            exact .inl ⟨f, same ▸ hf, f.base_addLine start,
              f.size_addLine start⟩
          · rw [List.getElem?_set_ne same] at h
            exact .inl ⟨g, h, rfl, rfl⟩

/-- The files of a set that has grown are those it had and the one that
was added. -/
theorem entry_update (s : FileSet) (u : Update) :
    (s.update u).files.map File.entry
      = s.files.map File.entry ++ u.added?.toList := by
  cases u with
  | addFile name size => exact List.map_append
  | addLine number start =>
      rw [Update.added?, Option.toList_none, List.append_nil]
      cases hf : s.files[number]? with
      | none => rw [update_addLine_of_none hf]
      | some f =>
          obtain ⟨inside, rfl⟩ := List.getElem?_eq_some_iff.1 hf
          rw [update_addLine_of_some hf]
          show (s.files.set number (s.files[number].addLine start)).map _ = _
          rw [List.map_set, File.entry_addLine,
            ← List.getElem_map (f := File.entry)
              (h := by rwa [List.length_map]), List.set_getElem_self]

/-- All other files stay as they are. -/
theorem file_update {number : Nat} {f : File}
    (h : s.files[number]? = some f)
    (other : ∀ start, u ≠ .addLine number start) :
    (s.update u).files[number]? = some f := by
  cases u with
  | addFile name size =>
      have last := (List.getElem?_eq_some_iff.1 h).1
      rw [← h]
      exact List.getElem?_append_left last
  | addLine changed start =>
      cases hf : s.files[changed]? with
      | none => rwa [update_addLine_of_none hf]
      | some g =>
          have differ : changed ≠ number := fun same =>
            other start (same ▸ rfl)
          rw [update_addLine_of_some hf, ← h]
          exact List.getElem?_set_ne differ

/-- The next base never goes back, and stays in the space of handles. -/
theorem nextBase_update (room : s.nextBase ≤ lastHandle) (u : Update) :
    s.nextBase ≤ (s.update u).nextBase
      ∧ (s.update u).nextBase ≤ lastHandle := by
  cases u with
  | addFile name size =>
      show s.nextBase ≤ baseAfter s.nextBase size
        ∧ baseAfter s.nextBase size ≤ lastHandle
      unfold baseAfter
      omega
  | addLine number start =>
      cases hf : s.files[number]? with
      | none =>
          rw [update_addLine_of_none hf]
          exact ⟨Nat.le_refl _, room⟩
      | some f =>
          rw [update_addLine_of_some hf]
          exact ⟨Nat.le_refl _, room⟩

/-- As long as there are handles left, files are packed. -/
theorem Packed.update (h : Packed 1 s.files s.nextBase)
    (room : s.nextBase + u.handles ≤ lastHandle) :
    Packed 1 (s.update u).files (s.update u).nextBase
      ∧ (s.update u).nextBase = s.nextBase + u.handles := by
  cases u with
  | addFile name size =>
      have room : s.nextBase + (size + 1) ≤ lastHandle := room
      have next : baseAfter s.nextBase size = s.nextBase + size + 1 := by
        unfold baseAfter
        omega
      refine ⟨h.append ?_, next⟩
      show Packed s.nextBase [⟨name, s.nextBase, size, []⟩]
        (baseAfter s.nextBase size)
      rw [next]
      exact .file (f := ⟨name, s.nextBase, size, []⟩) (.none _)
  | addLine number start =>
      cases hf : s.files[number]? with
      | none =>
          rw [update_addLine_of_none hf]
          exact ⟨h, rfl⟩
      | some f =>
          rw [update_addLine_of_some hf]
          exact ⟨h.set hf (f.base_addLine start) (f.size_addLine start), rfl⟩

end Growing

-- ============================================================ owning

/-- The file with a number has a handle, and the others lie on either
side of it. -/
structure Owns (s : FileSet) (number : Nat) (f : File) (h : Handle) :
    Prop where
  file : s.files[number]? = some f
  holds : f.contains h = true
  before : ∀ i g, s.files[i]? = some g → i < number →
    g.base + g.size < h.index
  behind : ∀ i g, s.files[i]? = some g → number < i → h.index < g.base
  /-- So will be those that are added. -/
  next : h.index < s.nextBase ∧ s.nextBase ≤ lastHandle

namespace Owns

variable {s : FileSet} {number : Nat} {f : File} {h : Handle}

/-- No other file has the handle. -/
theorem unique (own : s.Owns number f h) {other : Nat} {g : File}
    (hg : s.files[other]? = some g) (holds : g.contains h = true) :
    other = number := by
  rw [File.contains_iff] at holds
  rcases Nat.lt_trichotomy other number with less | same | more
  · have := own.before other g hg less
    omega
  · exact same
  · have := own.behind other g hg more
    omega

/-- The files before the one and those behind it. -/
theorem split (own : s.Owns number f h) :
    ∃ before after, s.files = before ++ f :: after
      ∧ (∀ g ∈ before, g.base + g.size < h.index)
      ∧ ∀ g ∈ after, h.index < g.base := by
  obtain ⟨inside, here⟩ := List.getElem?_eq_some_iff.1 own.file
  refine ⟨s.files.take number, s.files.drop (number + 1), ?_, ?_, ?_⟩
  · rw [← here, List.getElem_cons_drop, List.take_append_drop]
  · intro g hg
    obtain ⟨i, hi⟩ := List.mem_iff_getElem?.1 hg
    rw [List.getElem?_take] at hi
    split at hi
    next less => exact own.before i g hi less
    next => cases hi
  · intro g hg
    obtain ⟨i, hi⟩ := List.mem_iff_getElem?.1 hg
    rw [List.getElem?_drop] at hi
    exact own.behind _ g hi (by omega)

/-- The owner is the last file that begins at the handle or before. -/
theorem owner? (own : s.Owns number f h) (valid : h.isValid = true) :
    s.owner? h = some f := by
  obtain ⟨before, after, files, early, late⟩ := own.split
  have range := File.contains_iff.1 own.holds
  have front : s.files.takeWhile (fun g => decide (g.base ≤ h.index))
      = before ++ [f] := by
    rw [files, List.append_cons, List.takeWhile_append_of_pos]
    · cases after with
      | nil => rw [List.takeWhile_nil, List.append_nil]
      | cons g after =>
          have := late g List.mem_cons_self
          rw [List.takeWhile_cons_of_neg (by simpa using this),
            List.append_nil]
    · intro g hg
      rw [decide_eq_true_eq]
      rcases List.mem_append.1 hg with hg | hg
      · have := early g hg
        omega
      · rw [List.mem_singleton.1 hg]
        exact range.1
  unfold FileSet.owner?
  rw [if_pos valid, front, List.getLast?_concat, Option.filter_some,
    if_pos own.holds]

/-- Whatever is added to the set, the handle stays with its file, which
is the same unless it is told of a line. -/
theorem update (own : s.Owns number f h) {u : Update}
    (other : ∀ start, u ≠ .addLine number start) :
    (s.update u).Owns number f h where
  file := file_update own.file other
  holds := own.holds
  before := by
    intro i g hg less
    have last := (List.getElem?_eq_some_iff.1 own.file).1
    rcases file_of_update hg with ⟨old, ho, base, size⟩ | ⟨new, -⟩
    · rw [base, size]
      exact own.before i old ho less
    · omega
  behind := by
    intro i g hg more
    rcases file_of_update hg with ⟨old, ho, base, -⟩ | ⟨-, base⟩
    · rw [base]
      exact own.behind i old ho more
    · rw [base]
      exact own.next.1
  next := by
    have grown := nextBase_update own.next.2 u
    have := own.next
    exact ⟨by omega, grown.2⟩

theorem updates (own : s.Owns number f h) {us : List Update}
    (others : ∀ start, .addLine number start ∉ us) :
    (s.updates us).Owns number f h := by
  induction us generalizing s with
  | nil => exact own
  | cons u us ih =>
      apply ih
      · apply own.update
        rintro start rfl
        exact others start List.mem_cons_self
      · intro start hm
        exact others start (List.mem_cons_of_mem u hm)

end Owns

end FileSet

end BuildLexer
