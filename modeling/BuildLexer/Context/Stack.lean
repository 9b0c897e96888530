/-
The contexts of the constructs around a place.

Entering a construct saves the context outside and starts the one
inside from what is inherited; leaving it brings the saved one back.
A construct is left by naming flags, one of which must hold inside: a
closing mark that closes nothing leaves the stack as it is, so text out
of balance cannot take a construct away from its own closing mark.
-/
import BuildLexer.Context.Basic

namespace BuildLexer

/-- The context at a place and those saved outside it, nearest first. -/
structure ContextStack where
  current : Context := ∅
  saved : List Context := []
  deriving DecidableEq

namespace ContextStack

/-- How many constructs are open. -/
def depth (s : ContextStack) : Nat := s.saved.length

/-- The context that leaving brings back. -/
def outer? (s : ContextStack) : Option Context := s.saved.head?

/-- Adds flags at the place. -/
def insert (s : ContextStack) (flags : Context) : ContextStack :=
  { s with current := s.current ∪ flags }

/-- Takes flags away at the place. -/
def remove (s : ContextStack) (flags : Context) : ContextStack :=
  { s with current := s.current \ flags }

/-- Exchanges flags at the place; no construct is entered or left. -/
def replace (s : ContextStack) (old new : Context) : ContextStack :=
  { s with current := (s.current \ old) ∪ new }

/-- Adds or takes away flags of one context. -/
def setFlags (flags : Context) (on : Bool) (c : Context) : Context :=
  if on then c ∪ flags else c \ flags

/-- Adds or takes away inherited flags, in and around all constructs;
flags that are not inherited are left alone. -/
def setInherited (s : ContextStack) (flags : Context) (on : Bool) :
    ContextStack :=
  let set := setFlags (flags ∩ Context.inherited) on
  { current := set s.current, saved := s.saved.map set }

/-- Enters a construct. -/
def push (s : ContextStack) (flags : Context) : ContextStack where
  current := (s.current ∩ Context.inherited) ∪ flags
  saved := s.current :: s.saved

/-- Leaves the construct marked by one of the flags, if the place is in
such a one. Outside all constructs only the marks of one can go. -/
def pop? (s : ContextStack) (flags : Context) : Option ContextStack :=
  if s.current.meets flags then
    match s.saved with
    | outer :: saved => some { current := outer, saved }
    | [] => some { s with current := s.current \ Context.nested }
  else none

/-- Leaves the construct marked by one of the flags, or stays. -/
def pop (s : ContextStack) (flags : Context) : ContextStack :=
  (s.pop? flags).getD s

/-- Leaves all constructs, given the innermost context and those around
it: what remains, and the contexts left, innermost first. -/
def unwindFrom : Context → List Context → ContextStack × List Context
  | current, [] => ({ current }, [])
  | current, outer :: saved =>
    if current.meets Context.nested then
      let (rest, left) := unwindFrom outer saved
      (rest, current :: left)
    else ({ current, saved := outer :: saved }, [])

/-- Leaves all constructs: what remains, and the contexts left. -/
def unwind (s : ContextStack) : ContextStack × List Context :=
  unwindFrom s.current s.saved

end ContextStack

end BuildLexer
