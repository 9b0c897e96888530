/-
Working with a scanner: tokens are read one after the other, and recipes
may be switched on and off in between.

`Session s lexemes t` says that a scanner at `s` gave these lexemes, in
this order, and is at `t` now. What a scan and a switch keep, a session
keeps (`Session.preserves`), and a whole run is a session without
switches (`session_run`).

Where a scanner stands is counted in bytes: the offset and the width of
what is ahead make up the size of the file, always (`Placed`). So a
scanner has nothing ahead of it exactly when it stands at the end of the
source, and the handle of any offset on the way is the base plus the
offset.
-/
import BuildLexer.Proofs.Scanner.Effect
import BuildLexer.Proofs.Scanner.Reachable

namespace BuildLexer.Scanner

-- ============================================================ sessions

/-- What a scanner gives and becomes when tokens are read from it. -/
inductive Session : Scanner → List Lexeme → Scanner → Prop
  | done (s : Scanner) : Session s [] s
  | scan {s t : Scanner} {lexemes : List Lexeme} :
      Session s.scan.2 lexemes t → Session s (s.scan.1 :: lexemes) t
  | setRecipes {s t : Scanner} {lexemes : List Lexeme} (on : Bool) :
      Session (s.setRecipes on) lexemes t → Session s lexemes t

namespace Session

variable {s t : Scanner} {lexemes : List Lexeme}

/-- What reading a token and switching recipes keep, a session keeps. -/
theorem preserves {P : Scanner → Prop}
    (scan : ∀ s, P s → P s.scan.2)
    (recipes : ∀ s on, P s → P (s.setRecipes on))
    (h : Session s lexemes t) (hs : P s) : P t := by
  induction h with
  | done => exact hs
  | scan _ ih => exact ih (scan _ hs)
  | setRecipes on _ ih => exact ih (recipes _ on hs)

/-- A session ends where a scanner can be brought, if it began there. -/
theorem reachable (h : Session s lexemes t) (hs : Reachable s) :
    Reachable t :=
  h.preserves (fun _ => Reachable.scan)
    (fun _ on => Reachable.setRecipes on) hs

end Session

/-- A whole run is a session. -/
theorem session_run (s : Scanner) :
    ∃ t, Session s (s.run.map (·.1)) t := by
  induction s using run.induct with
  | case1 s last =>
      rw [run_of_end last]
      exact ⟨_, .scan (.done _)⟩
  | case2 s more ih =>
      rw [run_of_more more, List.map_cons]
      obtain ⟨t, later⟩ := ih
      exact ⟨t, .scan later⟩

-- ========================================================== placement

/-- A scanner in a file, at an offset that fits to what is ahead. -/
structure Placed (file : File) (s : Scanner) : Prop where
  base : s.file.base = file.base
  size : s.file.size = file.size
  cursor : s.offset + Glyph.totalWidth s.rest = file.size

namespace Placed

variable {file : File} {s : Scanner}

theorem offset_le (h : Placed file s) : s.offset ≤ file.size :=
  Nat.le.intro h.cursor

/-- What is ahead is in the file. -/
theorem ahead (h : Placed file s) :
    s.offset + Glyph.totalWidth s.rest ≤ s.file.size := by
  have cursor := h.cursor
  have size := h.size
  omega

/-- Nothing is ahead exactly at the end of the source. -/
theorem rest_eq_nil_iff (h : Placed file s) :
    s.rest = [] ↔ s.offset = file.size := by
  have cursor := h.cursor
  cases hr : s.rest with
  | nil =>
      rw [hr, Glyph.totalWidth_nil, Nat.add_zero] at cursor
      exact iff_of_true rfl cursor
  | cons g rest =>
      rw [hr, Glyph.totalWidth_cons] at cursor
      have := g.width_pos
      exact iff_of_false (List.cons_ne_nil g rest) (by omega)

/-- A handle in the file is the base plus the offset. -/
theorem handle (h : Placed file s) {offset : Nat}
    (inside : offset ≤ file.size) :
    s.file.handle offset = ⟨file.base + offset⟩ := by
  unfold File.handle
  rw [h.base, h.size, Nat.min_eq_left inside]

theorem perform (h : Placed file s) (p : Plan) :
    Placed file (s.perform p) where
  base := (s.kin_perform p).base.trans h.base
  size := (s.kin_perform p).size.trans h.size
  cursor := by
    rw [offset_perform, rest_perform, Nat.add_assoc,
      ← Glyph.totalWidth_append, Plan.reads_append_leaves]
    exact h.cursor

theorem scan (h : Placed file s) : Placed file s.scan.2 :=
  scan_preserves (fun s hs => hs.perform s.plan)
    (fun _ _ hs => ⟨hs.base, hs.size, hs.cursor⟩) h

theorem setRecipes (h : Placed file s) (on : Bool) :
    Placed file (s.setRecipes on) :=
  ⟨h.base, h.size, h.cursor⟩

theorem session {t : Scanner} {lexemes : List Lexeme}
    (h : Placed file s) (work : Session s lexemes t) : Placed file t :=
  work.preserves (fun _ => scan) (fun _ on hs => hs.setRecipes on) h

end Placed

/-- At the start of a source a scanner has the source ahead, less a byte
order mark that it has passed. -/
theorem placed_start {file : File} {mode : Mode} {source : List UInt8}
    {s : Scanner} (h : Scanner.start file mode source = .ok s) :
    Placed file s := by
  obtain ⟨size, rfl⟩ := start_eq_ok h
  have width := Glyph.totalWidth_ofBytes source
  rcases moved_ofGlyphs file mode (Glyph.ofBytes source) with
    ⟨-, moved⟩ | ⟨-, moved⟩
  · refine ⟨moved.kin.base, moved.kin.size, ?_⟩
    rw [moved.offset, moved.rest, Nat.zero_add,
      ← Glyph.totalWidth_append, List.take_append_drop, width, size]
  · refine ⟨moved.kin.base, moved.kin.size, ?_⟩
    rw [moved.offset, moved.rest, Nat.zero_add, ← Glyph.totalWidth_append,
      List.nil_append, width, size]

end BuildLexer.Scanner
