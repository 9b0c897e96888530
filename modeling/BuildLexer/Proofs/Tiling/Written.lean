/-
What a token is written as.

A token and its text determine the characters of the source that it was
read from (`Token.writings`), up to two forms of the quotes that close a
string. A plan is faithful when what it reads is written so, or, if it
makes no token, when what it reads is skipped text: a joined line or a
comment (`Plan.Faithful`). Plans come in two sorts. A token that carries
its text was given the text of exactly the glyphs it reads, which needs
no proof beyond its kind (`faithful_spanning`). A mark carries none, and
the characters that led to it have to be those of its spelling
(`Plan.Spells`).

All of it is said of glyphs, so it covers sources with broken bytes too:
there the text of some glyphs is their lossy text.
-/
import BuildLexer.Plan.Step
import BuildLexer.Proofs.Scanner.Effect

namespace BuildLexer

-- ============================================================ the texts

namespace Glyph

/-- A character of its own is in the text. -/
theorem lossyText_scalar_cons (c : Char) (gs : List Glyph) :
    lossyText (scalar c :: gs) = String.singleton c ++ lossyText gs :=
  String.ofList_cons

/-- Well-formed text is shown as it is. -/
theorem lossyText_map_scalar (cs : List Char) :
    lossyText (cs.map scalar) = String.ofList cs := by
  induction cs with
  | nil => rfl
  | cons c cs ih =>
      rw [List.map_cons, lossyText_scalar_cons, ih, String.ofList_cons]

/-- A glyph that stands for another character than the replacement
character is that character. -/
theorem eq_scalar_of_char {g : Glyph} {c : Char} (h : g.char = c)
    (hc : c ≠ '\uFFFD') : g = scalar c := by
  cases g with
  | scalar d => exact congrArg scalar h
  | broken b => exact absurd h.symm hc

theorem eq_map_scalar {gs : List Glyph}
    (h : '\uFFFD' ∉ gs.map char) : gs = (gs.map char).map scalar := by
  induction gs with
  | nil => rfl
  | cons g gs ih =>
      rw [List.map_cons, List.mem_cons, not_or] at h
      rw [List.map_cons, List.map_cons, ← ih h.2,
        ← eq_scalar_of_char rfl (Ne.symm h.1)]

/-- The text of some glyphs is no other character than the first. -/
theorem lossyText_ne_singleton {g : Glyph} {c : Char}
    (hg : g ≠ scalar c) (hc : c ≠ '\uFFFD') (gs : List Glyph) :
    lossyText (g :: gs) ≠ String.singleton c := by
  intro h
  have chars := congrArg String.toList h
  rw [lossyText, String.toList_ofList, String.toList_singleton] at chars
  cases g with
  | scalar d => exact hg (congrArg scalar (List.cons.inj chars).1)
  | broken b => exact hc (List.cons.inj chars).1.symm

/-- It begins with that character. -/
theorem head?_lossyText (g : Glyph) (gs : List Glyph) :
    (lossyText (g :: gs)).toList.head? = some g.char := by
  rw [lossyText, String.toList_ofList]
  cases g <;> rfl

/-- Only the glyph of a character has it as its text. -/
theorem eq_scalar_of_lossyText {gs : List Glyph} {c : Char}
    (hc : c ≠ '\uFFFD') (h : lossyText gs = String.singleton c) :
    gs = [scalar c] := by
  have chars : lossyFrom [] gs = [c] := by
    rw [String.singleton_eq_ofList] at h
    exact String.ofList_injective h
  cases gs with
  | nil => cases chars
  | cons g gs =>
      cases g with
      | scalar d =>
          obtain ⟨rfl, rest⟩ := List.cons.inj chars
          cases gs with
          | nil => rfl
          | cons g gs =>
              cases g with
              | scalar c => cases rest
              | broken b => cases rest
      | broken b => exact absurd (List.cons.inj chars).1.symm hc

end Glyph

-- ========================================================= the writings

/-- What a token with some text can be written as. -/
def Token.writings (text : String) : Token → List String
  | endOfFile => []
  | punct .lineEnd => ["\n"]
  | literal .recipe => ["\t" ++ text]
  | literal .escape => ["\\" ++ text]
  | literal .raw =>
    [if text = "$" ∨ text = "&" then text ++ text else text]
  | literal .composed => ["\"", "\"\"\""]
  | illegal | comment | punct .space | literal _ => [text]
  | token => [token.spelling]

/-- A kind of literal whose text is all that is written. -/
def Literal.Whole (kind : Literal) : Prop :=
  ∀ text : String, (Token.literal kind).writings text = [text]

/-- Text that is skipped, and what is left behind it: a line end behind
a backslash, or a comment up to the end of its line in a mode where
neither hash signs nor comments are tokens. -/
inductive Skipped (mode : Mode) : List Glyph → List Glyph → Prop
  | join {left : List Glyph} : Skipped mode [.scalar '\\', .newline] left
  | comment {body left : List Glyph} (plain : mode = {})
      (inLine : .newline ∉ body)
      (stop : ∀ g : Glyph, left.head? = some g → g = .newline) :
      Skipped mode (.scalar '#' :: body) left

namespace Plan

variable {mode : Mode} {n : Nesting}

/-- A plan that reads what its token is written as, or skips. -/
def Faithful (mode : Mode) (src : List Glyph) (p : Plan) : Prop :=
  match p.token with
  | some token =>
    Glyph.lossyText (p.reads src) ∈ token.writings p.text
  | none => Skipped mode (p.reads src) (p.leaves src)

/-- A token that is written as its text. -/
theorem faithful_spanning {token : Token} {src : List Glyph}
    (h : ∀ text : String, token.writings text = [text]) (more : Nat)
    (n : Nesting) : (spanning token src more n).Faithful mode src := by
  show Glyph.lossyText ((spanning token src more n).reads src)
    ∈ token.writings (Glyph.lossyText (src.take (more + 1)))
  rw [reads_of_not_skipsLine rfl, h]
  exact List.mem_singleton.2 rfl

/-- A plan whose token is spelled at the front of some characters. -/
structure Spells (chars : List Char) (p : Plan) : Prop where
  reads : p.skipsLine = false ∧ p.more ≤ 2
  whole : '\uFFFD' ∉ chars.take (p.more + 1)
  token : ∃ token, p.token = some token
    ∧ String.ofList (chars.take (p.more + 1)) ∈ token.writings p.text

/-- Those characters are the ones that are read. -/
theorem Spells.faithful {p : Plan} {g : Glyph} {rest : List Glyph}
    (h : p.Spells (g.char :: (rest.take 2).map Glyph.char)) :
    p.Faithful mode (g :: rest) := by
  obtain ⟨⟨hskip, hmore⟩, whole, token, ht, hw⟩ := h
  have ahead : (g.char :: (rest.take 2).map Glyph.char).take (p.more + 1)
      = ((g :: rest).take (p.more + 1)).map Glyph.char := by
    rw [List.take_succ_cons, List.take_succ_cons, List.map_cons,
      ← List.map_take, List.take_take, Nat.min_eq_left hmore]
  rw [ahead] at whole hw
  unfold Faithful
  rw [ht]
  show Glyph.lossyText (p.reads (g :: rest)) ∈ token.writings p.text
  rw [reads_of_not_skipsLine hskip, Glyph.eq_map_scalar whole,
    Glyph.lossyText_map_scalar]
  exact hw

end Plan

end BuildLexer
