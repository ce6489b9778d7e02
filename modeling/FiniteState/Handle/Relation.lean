import FiniteState.Construction.Removal
import FiniteState.Handle.Basic
import FiniteState.Relation.Difference
import FiniteState.Relation.Matching
/-!
Relations between the states of two automata, asked through handles.  A relation keeps what it found
out from one question to the next: pairs that were proved or refuted, or the latest difference.
States that do not belong to the respective automaton are never related.
-/

namespace FiniteState

universe u

variable {L : Type u} [Label L]

/-- Two automata whose states are compared by matching transitions, with what is known by now. -/
structure Coinductive (L : Type u) [Label L] where
  left : Tagged L
  right : Tagged L
  /-- The automata whose transitions are matched, with the same states as `left` and `right`. -/
  matching : Matching L
  memo : Memo

namespace Coinductive

/-- Every move is answered by an equal one, in both directions, and terminal states by terminal
ones. -/
def bisimulation (left right : Tagged L) : Coinductive L :=
  ⟨left, right, ⟨left.automaton, right.automaton, true⟩, .empty⟩

/-- Every move of the left state is answered by the right one, which may do more. -/
def simulation (left right : Tagged L) : Coinductive L :=
  ⟨left, right, ⟨left.automaton, right.automaton, false⟩, .empty⟩

/-- Bisimulation that disregards silent moves. -/
def weakBisimulation (left right : Tagged L) : Coinductive L :=
  ⟨left, right, ⟨left.automaton.removeEpsilon, right.automaton.removeEpsilon, true⟩, .empty⟩

/-- Whether two states are related, as an inquiry. -/
def ask (r : Coinductive L) (s t : Handle) : Inquiry :=
  if r.left.contains s && r.right.contains t then r.matching.related (s.index, t.index)
  else Inquiry.answer false

/-- Whether every state of the one set is related to some state of the other.  If the relation is
two-sided, this is asked for both sets. -/
def askSets (r : Coinductive L) (s t : HandleSet) : Inquiry :=
  (Inquiry.every (fun p => Inquiry.some (fun q => r.ask p q) t.toList) s.toList).and
    (if r.matching.twoSided then
      Inquiry.every (fun q => Inquiry.some (fun p => r.ask p q) s.toList) t.toList
    else Inquiry.answer true)

/-- Answer a question and remember what was found out. -/
def pose (r : Coinductive L) (question : Inquiry) : Bool × Coinductive L :=
  let (answer, memo) := question r.memo
  (answer, { r with memo })

def equivalent (r : Coinductive L) (s t : Handle) : Bool × Coinductive L :=
  r.pose (r.ask s t)

def equivalentSets (r : Coinductive L) (s t : HandleSet) : Bool × Coinductive L :=
  r.pose (r.askSets s t)

def areEquivalent (r : Coinductive L) : Bool × Coinductive L :=
  r.equivalentSets r.left.initials r.right.initials

end Coinductive

/-- Two automata whose states are compared by the words that can be read or are accepted. -/
structure Comparison (L : Type u) [Label L] where
  left : Tagged L
  right : Tagged L
  aspect : Aspect
  /-- The word on which the latest question showed a difference. -/
  counterexample : Option (List L)

namespace Comparison

/-- The comparison of two automata, before anything was asked. -/
def between (left right : Tagged L) (aspect : Aspect) : Comparison L :=
  ⟨left, right, aspect, none⟩

def equivalentSets (r : Comparison L) (s t : HandleSet) : Bool × Comparison L :=
  let counterexample :=
    Difference.first? r.left.automaton r.right.automaton r.aspect
      (r.left.own s.toList) (r.right.own t.toList)
  (counterexample.isNone, { r with counterexample })

def equivalent (r : Comparison L) (s t : Handle) : Bool × Comparison L :=
  if r.left.contains s && r.right.contains t then
    r.equivalentSets (OrderedSet.ofList [s]) (OrderedSet.ofList [t])
  else (false, r)

def areEquivalent (r : Comparison L) : Bool × Comparison L :=
  r.equivalentSets r.left.initials r.right.initials

end Comparison

end FiniteState
