/-
Single messages merged one by one.

Each message comes as a tree of its own. Without a limit, merging them
into an empty collection groups them by position: the entries are the
positions in the order in which they came first, and the parts of each
are its messages, likewise (`grouped`). One more message either goes into
the entry at its position, where it is new or known, or makes an entry,
and each of these is what grouping does with one more message at the end
(`mergeInto_grouped`).
-/
import BuildLexer.Proofs.Merge.Content
import BuildLexer.Proofs.Merge.Normal
import BuildLexer.Proofs.Merge.Structural
import Mathlib.Data.List.Induction

namespace BuildLexer

-- ============================================================= firsts

section Firsts

variable {α : Type} [DecidableEq α] {a : α} {l : List α}

/-- One more item is new or known. -/
theorem eraseDups_concat (l : List α) (a : α) :
    (l ++ [a]).eraseDups
      = if a ∈ l then l.eraseDups else l.eraseDups ++ [a] := by
  rw [List.eraseDups_append]
  by_cases known : a ∈ l
  · have nothing : [a].removeAll l = [] := by simp [List.removeAll, known]
    rw [if_pos known, nothing, List.eraseDups_nil, List.append_nil]
  · have new : [a].removeAll l = [a] := by simp [List.removeAll, known]
    rw [if_neg known, new]
    rfl

theorem nodup_eraseDups (l : List α) : l.eraseDups.Nodup := by
  induction l using List.reverseRecOn with
  | nil => exact List.Pairwise.nil
  | append_singleton l a ih =>
      rw [eraseDups_concat]
      split
      next => exact ih
      next new =>
        refine List.nodup_append.2 ⟨ih, List.pairwise_singleton _ _, ?_⟩
        rintro b hb c hc rfl
        rw [List.mem_singleton.1 hc, List.mem_eraseDups] at hb
        exact new hb

end Firsts

-- =========================================================== grouping

namespace Diagnostics

/-- The messages at a position among some, each once, in the order in
which they came first. -/
def messagesAt (messages : List (Position × String)) (p : Position) :
    List String :=
  ((messages.filter (·.1 = p)).map Prod.snd).eraseDups

/-- Messages grouped by position: a tree for each position, in the order
in which the positions came first, with the messages there as parts. -/
def grouped (messages : List (Position × String)) : List Tree :=
  (messages.map Prod.fst).eraseDups.map fun p =>
    ⟨p, (messagesAt messages p).map .leaf⟩

variable {messages : List (Position × String)} {p : Position} {m : String}

theorem messagesAt_concat_self (messages : List (Position × String))
    (p : Position) (m : String) :
    messagesAt (messages ++ [(p, m)]) p
      = if m ∈ messagesAt messages p then messagesAt messages p
        else messagesAt messages p ++ [m] := by
  have here : [(p, m)].filter (·.1 = p) = [(p, m)] :=
    List.filter_cons_of_pos (decide_eq_true rfl)
  unfold messagesAt
  rw [List.filter_append, here, List.map_append, List.map_singleton,
    eraseDups_concat]
  simp only [List.mem_eraseDups]

theorem messagesAt_concat_of_ne {q : Position} (h : q ≠ p) :
    messagesAt (messages ++ [(p, m)]) q = messagesAt messages q := by
  have elsewhere : [(p, m)].filter (·.1 = q) = [] :=
    List.filter_cons_of_neg (by simpa using h.symm)
  unfold messagesAt
  rw [List.filter_append, elsewhere, List.append_nil]

theorem mem_messagesAt :
    m ∈ messagesAt messages p ↔ (p, m) ∈ messages := by
  unfold messagesAt
  rw [List.mem_eraseDups, List.mem_map]
  constructor
  · rintro ⟨⟨q, n⟩, there, rfl⟩
    obtain ⟨member, here⟩ := List.mem_filter.1 there
    obtain rfl : q = p := of_decide_eq_true here
    exact member
  · intro member
    exact ⟨_, List.mem_filter.2 ⟨member, decide_eq_true rfl⟩, rfl⟩

-- ==================================================== one message more

/-- A message merged into messages is put behind them if it is new. -/
theorem merge_message (p : Position) (ms : List String) (m : String) :
    Tree.merge noLimit [.leaf m] ⟨p, ms.map .leaf⟩
      = ⟨p, (if m ∈ ms then ms else ms ++ [m]).map .leaf⟩ := by
  rw [Tree.merge_eq_insertAll, Tree.insertAll, Tree.insertAll,
    Tree.insert_leaf_noLimit, Tree.addMessage]
  have known : Tree.hasMessage ⟨p, ms.map .leaf⟩ m = true ↔ m ∈ ms := by
    rw [Tree.hasMessage_iff]
    simp
  by_cases h : m ∈ ms
  · rw [if_pos (known.2 h), if_pos h]
  · rw [if_neg (mt known.1 h), if_neg h, List.map_append]
    rfl

/-- Where there is one tree for each of some positions, a merge changes
the tree at its position or adds one. -/
theorem mergeInto_map {limit : Nat} {trees : Position → Tree} {new : Tree}
    (placed : ∀ q, (trees q).position = q) {ps : List Position}
    (apart : ps.Nodup) (here : new.position = p) :
    mergeInto limit new (ps.map trees)
      = if p ∈ ps then
          ps.map fun q =>
            if q = p then (trees q).merge limit new.parts else trees q
        else ps.map trees ++ [new] := by
  induction ps with
  | nil => rfl
  | cons q ps ih =>
      obtain ⟨once, apart⟩ := List.nodup_cons.1 apart
      rw [List.map_cons, mergeInto, placed, here]
      by_cases found : q = p
      · rw [if_pos found, if_pos (List.mem_cons.2 (Or.inl found.symm)),
          List.map_cons, if_pos found]
        refine congrArg _ (List.map_congr_left fun r hr => ?_)
        have other : r ≠ p := by
          rintro rfl
          exact once (found ▸ hr)
        exact (if_neg other).symm
      · have later : p ∈ q :: ps ↔ p ∈ ps := by
          rw [List.mem_cons]
          exact or_iff_right (Ne.symm found)
        rw [if_neg found, ih apart]
        by_cases known : p ∈ ps
        · rw [if_pos known, if_pos (later.2 known), List.map_cons,
            if_neg found]
        · rw [if_neg known, if_neg (mt later.1 known), List.cons_append]

/-- To merge one more message is to group one more at the end. -/
theorem mergeInto_grouped (messages : List (Position × String))
    (p : Position) (m : String) :
    mergeInto noLimit (Tree.single p m) (grouped messages)
      = grouped (messages ++ [(p, m)]) := by
  have there : (Tree.single p m).position = p := rfl
  unfold grouped
  rw [mergeInto_map (fun _ => rfl) (nodup_eraseDups _) there,
    List.map_append, List.map_singleton, eraseDups_concat]
  simp only [List.mem_eraseDups]
  by_cases known : p ∈ messages.map Prod.fst
  · rw [if_pos known, if_pos known]
    refine List.map_congr_left fun q _ => ?_
    by_cases here : q = p
    · rw [if_pos here, here, messagesAt_concat_self]
      exact merge_message p (messagesAt messages p) m
    · rw [if_neg here, messagesAt_concat_of_ne here]
  · have alone : messagesAt messages p = [] := by
      rw [List.eq_nil_iff_forall_not_mem]
      exact fun n hn =>
        known (List.mem_map_of_mem (f := Prod.fst) (mem_messagesAt.1 hn))
    rw [if_neg known, if_neg known, List.map_append, List.map_singleton,
      messagesAt_concat_self, alone]
    refine congrArg (· ++ _) (List.map_congr_left fun q hq => ?_)
    have other : q ≠ p := by
      rintro rfl
      exact known (List.mem_eraseDups.1 hq)
    rw [messagesAt_concat_of_ne other]

-- ======================================================= all messages

/-- Merges messages, each as a tree of its own, in order. -/
def mergeMessages (d : Diagnostics) (messages : List (Position × String)) :
    Diagnostics :=
  d.merge (messages.map fun r => Tree.single r.1 r.2)

/-- The collection without a limit that messages are merged into, some at
a time. -/
def ofMessages (calls : List (List (Position × String))) : Diagnostics :=
  calls.foldl mergeMessages { entries := [], limit := noLimit }

/-- Messages merged into grouped messages are grouped with them. -/
theorem mergeMessages_grouped (before messages : List (Position × String)) :
    mergeMessages { entries := grouped before, limit := noLimit } messages
      = { entries := grouped (before ++ messages), limit := noLimit } := by
  induction messages generalizing before with
  | nil =>
      rw [List.append_nil]
      rfl
  | cons r messages ih =>
      have one : mergeTree { entries := grouped before, limit := noLimit }
            (Tree.single r.1 r.2)
          = { entries := grouped (before ++ [r]), limit := noLimit } := by
        rw [← mergeInto_grouped]
        rfl
      have more := ih (before ++ [r])
      rw [List.append_assoc, List.singleton_append] at more
      rw [← more, ← one]
      rfl

theorem ofMessages_eq (calls : List (List (Position × String))) :
    ofMessages calls
      = { entries := grouped calls.flatten, limit := noLimit } := by
  have from_before (before : List (Position × String)) :
      calls.foldl mergeMessages { entries := grouped before, limit := noLimit }
        = { entries := grouped (before ++ calls.flatten),
            limit := noLimit } := by
    induction calls generalizing before with
    | nil => rw [List.flatten_nil, List.append_nil, List.foldl_nil]
    | cons messages calls ih =>
        rw [List.foldl_cons, mergeMessages_grouped, ih, List.flatten_cons,
          List.append_assoc]
  exact from_before []

/-- The messages of a collection, each with its position. -/
def content (d : Diagnostics) : List (Position × String) :=
  d.entries.flatMap Tree.content

theorem content_messages (p : Position) (ms : List String) :
    Tree.content ⟨p, ms.map .leaf⟩ = ms.map fun m => (p, m) := by
  induction ms with
  | nil => rfl
  | cons m ms ih => exact congrArg ((p, m) :: ·) ih

/-- What is grouped is neither lost nor made. -/
theorem mem_content_ofMessages {calls : List (List (Position × String))}
    {e : Position × String} :
    e ∈ (ofMessages calls).content ↔ e ∈ calls.flatten := by
  rw [ofMessages_eq]
  unfold content grouped
  dsimp only
  rw [List.flatMap_map, List.mem_flatMap]
  simp only [content_messages, List.mem_eraseDups, List.mem_map]
  constructor
  · rintro ⟨p, -, m, there, rfl⟩
    exact mem_messagesAt.1 there
  · intro member
    exact ⟨e.1, ⟨e, member, rfl⟩, e.2, mem_messagesAt.2 member, rfl⟩

/-- Single messages that are merged without a limit, in any number of
calls, are grouped by position; no message is lost and none is made, so
what is held does not depend on the order that they came in. -/
theorem entries_ofMessages (calls : List (List (Position × String))) :
    (ofMessages calls).entries = grouped calls.flatten
      ∧ (∀ e, e ∈ (ofMessages calls).content ↔ e ∈ calls.flatten)
      ∧ ∀ others : List (List (Position × String)),
        others.flatten.Perm calls.flatten →
          ∀ e, e ∈ (ofMessages others).content
            ↔ e ∈ (ofMessages calls).content := by
  refine ⟨congrArg entries (ofMessages_eq calls),
    fun e => mem_content_ofMessages, fun others same e => ?_⟩
  rw [mem_content_ofMessages, mem_content_ofMessages]
  exact same.mem_iff

/-- Two positions in turn, and a message that is known by then. -/
theorem entries_ofMessages_swapped :
    let a : Position := ⟨"BUILD", 0, 1, 1⟩
    let b : Position := ⟨"BUILD", 4, 1, 5⟩
    [[(b, "x")], [(a, "y"), (a, "x"), (a, "y")]].flatten.Perm
        [[(a, "y"), (b, "x")], [(a, "x"), (a, "y")]].flatten
      ∧ (∀ e, e ∈ (ofMessages
            [[(b, "x")], [(a, "y"), (a, "x"), (a, "y")]]).content
          ↔ e ∈ (ofMessages
            [[(a, "y"), (b, "x")], [(a, "x"), (a, "y")]]).content)
      ∧ (ofMessages [[(a, "y"), (b, "x")], [(a, "x"), (a, "y")]]).entries
        = [⟨a, [.leaf "y", .leaf "x"]⟩, ⟨b, [.leaf "x"]⟩] := by
  intro a b
  have turned : [[(b, "x")], [(a, "y"), (a, "x"), (a, "y")]].flatten.Perm
      [[(a, "y"), (b, "x")], [(a, "x"), (a, "y")]].flatten :=
    List.Perm.swap _ _ _
  have merged := entries_ofMessages
    [[(a, "y"), (b, "x")], [(a, "x"), (a, "y")]]
  refine ⟨turned, merged.2.2 _ turned, merged.1.trans ?_⟩
  decide +kernel

end Diagnostics

end BuildLexer
