/-
What a set of files says of a handle.

The owner of a handle is looked up by a search among the bases: it is
the file that begins at the handle, or the one before the place where
such a file would have to stand. Bases ascend, so this is the last file
that does not begin behind the handle, whatever is in the set before and
behind it (`searchOwner?_eq`).

A set `Resolves` its handles when each of those that are taken has one
owner, for good, and no other handle has any. A set does so that was
built from nothing by adding files and lines, as long as there were
handles left for the files (`resolves_updates`): its files are packed,
and a handle of packed files is owned.
-/
import BuildLexer.Proofs.Bounds.Numbers
import BuildLexer.Proofs.Files.Owner
import Mathlib.Algebra.GroupWithZero.Nat

namespace BuildLexer

namespace FileSet

-- ========================================================= searching

/-- The number of the last file that begins at a handle or before it, by
a search among the bases. -/
def searchNumber? (s : FileSet) (h : Handle) : Option Nat :=
  match Checked.search (s.files.map (·.base)) h.index with
  | .ok number => some number
  | .error place => Checked.sub? place 1

/-- The owner of a handle, by a search among the bases. -/
def searchOwner? (s : FileSet) (h : Handle) : Option File :=
  if h.isValid then do
    let number ← s.searchNumber? h
    s.files[number]?.filter (·.contains h)
  else none

section Searching

variable {s : FileSet} {h : Handle}

/-- No file is found where all begin behind the handle. -/
theorem searchNumber?_of_behind
    (behind : ∀ g ∈ s.files, h.index < g.base) : s.searchNumber? h = none := by
  have missing : h.index ∉ s.files.map (·.base) := by
    intro hm
    obtain ⟨g, hg, same⟩ := List.mem_map.1 hm
    have := behind g hg
    omega
  have count : (s.files.map (·.base)).countP (· < h.index) = 0 := by
    rw [List.countP_eq_zero]
    intro n hn
    obtain ⟨g, hg, rfl⟩ := List.mem_map.1 hn
    have := behind g hg
    simp
    omega
  unfold searchNumber? Checked.search
  rw [if_neg missing, count]
  rfl

/-- The last file that does not begin behind the handle is found. -/
theorem searchNumber?_of_split {before after : List File} {last : File}
    (files : s.files = before ++ last :: after)
    (earlier : ∀ g ∈ before, g.base < last.base)
    (inside : last.base ≤ h.index)
    (behind : ∀ g ∈ after, h.index < g.base) :
    s.searchNumber? h = some before.length := by
  unfold searchNumber?
  rw [files, List.map_append, List.map_cons, Checked.search_of_split _ inside,
    List.length_map]
  · by_cases begins : h.index = last.base
    · rw [if_pos begins]
    · rw [if_neg begins]
      exact Checked.sub?_of_le (Nat.le_add_left 1 _)
  · intro n hn
    obtain ⟨g, hg, rfl⟩ := List.mem_map.1 hn
    exact behind g hg
  · intro n hn
    obtain ⟨g, hg, rfl⟩ := List.mem_map.1 hn
    exact earlier g hg

/-- Where bases ascend, a file behind one that begins behind a handle does
so too. -/
theorem behind_of_ascends {files : List File}
    (ascends : files.Pairwise fun f g => f.base < g.base) (n : Nat) :
    ∀ g ∈ files.dropWhile (fun f => decide (f.base ≤ n)), n < g.base := by
  intro g hg
  have stops :=
    List.head?_dropWhile_not (fun f : File => decide (f.base ≤ n)) files
  have sorted := ascends.sublist
    (List.dropWhile_sublist (fun f => decide (f.base ≤ n)))
  cases hd : files.dropWhile (fun f => decide (f.base ≤ n)) with
  | nil =>
      rw [hd] at hg
      cases hg
  | cons first later =>
      rw [hd] at hg stops sorted
      have behind : n < first.base := by simpa using stops
      rcases List.mem_cons.1 hg with rfl | hg
      · exact behind
      · exact Nat.lt_trans behind ((List.pairwise_cons.1 sorted).1 g hg)

/-- The search finds the owner. -/
theorem searchOwner?_eq
    (ascends : s.files.Pairwise fun f g => f.base < g.base) (h : Handle) :
    s.searchOwner? h = s.owner? h := by
  have whole := List.takeWhile_append_dropWhile
    (p := fun f : File => decide (f.base ≤ h.index)) (l := s.files)
  have behind := behind_of_ascends ascends h.index
  have early : ∀ g ∈ s.files.takeWhile (fun f => decide (f.base ≤ h.index)),
      g.base ≤ h.index := fun g hg => by
    simpa using List.mem_takeWhile_imp hg
  unfold searchOwner? owner?
  generalize s.files.takeWhile (fun f => decide (f.base ≤ h.index)) = front
    at whole early ⊢
  generalize s.files.dropWhile (fun f => decide (f.base ≤ h.index)) = later
    at whole behind
  rcases front.eq_nil_or_concat' with rfl | ⟨before, last, rfl⟩
  · rw [List.nil_append] at whole
    rw [searchNumber?_of_behind (whole ▸ behind)]
    rfl
  · have files : s.files = before ++ last :: later := by
      rw [← whole, List.append_assoc, List.singleton_append]
    have place : s.files[before.length]? = some last := by
      rw [files, List.getElem?_append_right (Nat.le_refl _), Nat.sub_self]
      rfl
    rw [files, List.pairwise_append] at ascends
    have earlier : ∀ g ∈ before, g.base < last.base :=
      fun g hg => ascends.2.2 g hg last List.mem_cons_self
    have inside := early last
      (List.mem_append_right _ (List.mem_singleton_self last))
    rw [searchNumber?_of_split files earlier inside behind,
      List.getLast?_concat]
    dsimp only [Option.bind_eq_bind, Option.bind_some]
    rw [place]

end Searching

-- ========================================================= resolving

/-- A handle belongs to the file with a number and to no other. -/
structure Belongs (s : FileSet) (h : Handle) (number : Nat) (f : File) :
    Prop where
  file : s.file? number = some f
  contains : f.contains h = true
  only : ∀ other g, s.file? other = some g → g.contains h = true →
    other = number
  owner : s.owner? h = some f
  position : s.position h = f.position h

/-- What a set of files promises of its handles. -/
structure Resolves (s : FileSet) : Prop where
  /-- A handle that is taken belongs to a file. That it still does when
  files are added, and lines to other files. -/
  owned : ∀ h : Handle, 1 ≤ h.index → h.index < s.nextBase →
    ∃ number f, s.Belongs h number f ∧
      ∀ more, (∀ start, .addLine number start ∉ more) →
        (s.updates more).Belongs h number f
  /-- Any other handle belongs to none and is nowhere. -/
  unowned : ∀ h : Handle, h.index = 0 ∨ s.nextBase ≤ h.index →
    (∀ f ∈ s.files, f.contains h = false) ∧ s.owner? h = none
      ∧ s.position h = Position.unknown
  /-- The handle of an offset is at that offset, or at the end. -/
  placed : ∀ f ∈ s.files, ∀ offset,
    s.position (f.handle offset) = f.position (f.handle offset)
      ∧ (f.position (f.handle offset)).isValid = true
      ∧ (f.position (f.handle offset)).filename = f.name
      ∧ (f.position (f.handle offset)).offset = min offset f.size
  /-- A search among the bases finds the owner. -/
  searched : ∀ h, s.searchOwner? h = s.owner? h

section Resolving

variable {s : FileSet} {number : Nat} {f : File} {h : Handle}

theorem position_of_owner? (own : s.owner? h = some f) :
    s.position h = f.position h := by
  unfold position
  rw [own]

theorem Owns.belongs (own : s.Owns number f h) (valid : h.isValid = true) :
    s.Belongs h number f where
  file := own.file
  contains := own.holds
  only _ _ := own.unique
  owner := own.owner? valid
  position := position_of_owner? (own.owner? valid)

/-- An owner is one of the files and has the handle. -/
theorem contains_of_owner? (own : s.owner? h = some f) :
    f ∈ s.files ∧ f.contains h = true := by
  unfold owner? at own
  split at own
  next =>
    obtain ⟨last, holds⟩ := Option.filter_eq_some_iff.1 own
    have front := List.mem_of_getLast? last
    exact ⟨(List.takeWhile_sublist _).subset front, holds⟩
  next => cases own

theorem owner?_of_not_contains (none : ∀ f ∈ s.files, f.contains h = false) :
    s.owner? h = Option.none := by
  rw [Option.eq_none_iff_forall_ne_some]
  intro f own
  obtain ⟨member, holds⟩ := contains_of_owner? own
  rw [none f member] at holds
  cases holds

end Resolving

namespace Packed

variable {s : FileSet} {h : Handle}

/-- The file that has a handle owns it. -/
theorem owns (packed : Packed 1 s.files s.nextBase)
    (room : s.nextBase ≤ lastHandle) {number : Nat} {f : File}
    (file : s.files[number]? = some f) (holds : f.contains h = true) :
    s.Owns number f h where
  file := file
  holds := holds
  before := by
    intro i g hg less
    have range := File.contains_iff.1 holds
    have := packed.apart hg file less
    omega
  behind := by
    intro i g hg more
    have range := File.contains_iff.1 holds
    have := packed.apart file hg more
    omega
  next := by
    have range := File.contains_iff.1 holds
    have inside := packed.inside (List.mem_of_getElem? file)
    omega

/-- Packed files resolve all handles. -/
theorem resolves (packed : Packed 1 s.files s.nextBase)
    (room : s.nextBase ≤ lastHandle) : s.Resolves where
  owned := by
    intro h low high
    obtain ⟨number, f, file, holds⟩ := packed.exists_contains low high
    have own := packed.owns room file holds
    have valid : h.isValid = true := by
      unfold Handle.isValid
      simp
      omega
    exact ⟨number, f, own.belongs valid,
      fun more others => (own.updates others).belongs valid⟩
  unowned := by
    intro h outside
    have none : ∀ f ∈ s.files, f.contains h = false := by
      intro f member
      have inside := packed.inside member
      rw [← Bool.not_eq_true, File.contains_iff]
      omega
    have owner := owner?_of_not_contains none
    refine ⟨none, owner, ?_⟩
    unfold position
    rw [owner]
  placed := by
    intro f member offset
    obtain ⟨number, file⟩ := List.mem_iff_getElem?.1 member
    have inside := packed.inside member
    have valid := File.isValid_handle inside.1 offset
    have own := packed.owns room file (f.contains_handle offset)
    have here := File.position_handle inside.1 offset
    refine ⟨position_of_owner? (own.owner? valid), ?_, ?_,
      f.offset_position offset⟩
    · rw [here]
      rfl
    · rw [here]
      rfl
  searched := by
    refine searchOwner?_eq ?_
    exact packed.ascends.imp fun apart => by omega

end Packed

/-- A set from nothing has packed files, all that were added. -/
theorem packed_updates {s : FileSet} (packed : Packed 1 s.files s.nextBase)
    {us : List Update}
    (room : s.nextBase + (us.map Update.handles).sum ≤ lastHandle) :
    Packed 1 (s.updates us).files (s.updates us).nextBase
      ∧ (s.updates us).nextBase
        = s.nextBase + (us.map Update.handles).sum := by
  induction us generalizing s with
  | nil => exact ⟨packed, rfl⟩
  | cons u us ih =>
      rw [List.map_cons, List.sum_cons, ← Nat.add_assoc] at room ⊢
      obtain ⟨grown, next⟩ := packed.update (Nat.le_of_add_right_le room)
      rw [← next] at room ⊢
      exact ih grown room

theorem entry_updates (s : FileSet) (us : List Update) :
    (s.updates us).files.map File.entry
      = s.files.map File.entry ++ us.filterMap Update.added? := by
  induction us generalizing s with
  | nil => exact (List.append_nil _).symm
  | cons u us ih =>
      show ((s.update u).updates us).files.map _ = _
      rw [ih, entry_update, List.append_assoc]
      cases u with
      | addFile name size => rfl
      | addLine number start => rfl

/-- A set that was built by adding files and lines resolves its handles,
if there were enough of them. -/
theorem resolves_updates (us : List Update)
    (room : (us.map Update.handles).sum < lastHandle) :
    (({} : FileSet).updates us).Resolves
      ∧ (({} : FileSet).updates us).nextBase
        = 1 + (us.map Update.handles).sum
      ∧ (({} : FileSet).updates us).files.map File.entry
        = us.filterMap Update.added? := by
  have fits : 1 + (us.map Update.handles).sum ≤ lastHandle := by omega
  obtain ⟨packed, next⟩ :=
    packed_updates (s := {}) (Packed.none 1) fits
  exact ⟨packed.resolves (next.trans_le fits), next, entry_updates {} us⟩

/-- An empty file has one handle, which borders on the next file. -/
theorem resolves_empty_file_before_another :
    ([Update.addFile "defaults" 0, .addFile "recipe" 5, .addLine 1 3].map
        Update.handles).sum < lastHandle
      ∧ (({} : FileSet).updates [.addFile "defaults" 0, .addFile "recipe" 5,
          .addLine 1 3]).Resolves
      ∧ (({} : FileSet).updates [.addFile "defaults" 0, .addFile "recipe" 5,
          .addLine 1 3]).nextBase = 1 + (0 + 1) + (5 + 1) :=
  have resolves := resolves_updates
    [.addFile "defaults" 0, .addFile "recipe" 5, .addLine 1 3] (by decide)
  ⟨by decide, resolves.1, resolves.2.1⟩

end FileSet

end BuildLexer
