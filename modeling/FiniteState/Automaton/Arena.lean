import FiniteState.Automaton.Adjacency
/-!
The records behind an automaton, and the operations that change them.  For every state there are its
flags and what is recorded about the transitions out of it and into it, so a transition is recorded
twice; transitions are counted as they are added, and names lead to states and back.

Nothing forces these records to agree.  That they do is the invariant `Arena.WellFormed`, which each
operation keeps.
-/

namespace FiniteState

universe u

/-- Whether a state is initial and whether it is terminal. -/
structure Flags where
  initial : Bool
  terminal : Bool
deriving DecidableEq, Repr

/-- A transition from one state to another one. -/
structure Transition (L : Type u) where
  start : Nat
  label : Option L
  target : Nat
deriving DecidableEq, Repr

/-- Transitions are ordered by start, label and target. -/
instance {L : Type u} [Ordered L] : Ordered (Transition L) :=
  Ordered.byKey (fun t => (t.start, t.label, t.target)) fun {a b} h => by
    cases a
    cases b
    simpa using h

/-- The states of an automaton with their transitions and names.  States are known by their
places. -/
structure Arena (L : Type u) [Label L] where
  flags : Array Flags
  /-- The transitions out of each state. -/
  outgoing : Array (Adjacency L)
  /-- The transitions into each state. -/
  incoming : Array (Adjacency L)
  /-- The names that were given to states. -/
  names : List (String × Nat)
  /-- The number of transitions. -/
  transitionCount : Nat

namespace Arena

variable {L : Type u} [Label L]

/-- What is recorded in a place, nothing if there is no such place. -/
def adjacencyAt (adjacencies : Array (Adjacency L)) (p : Nat) : Adjacency L :=
  adjacencies[p]?.getD ∅

def outgoingAt (a : Arena L) (p : Nat) : Adjacency L :=
  adjacencyAt a.outgoing p

def incomingAt (a : Arena L) (p : Nat) : Adjacency L :=
  adjacencyAt a.incoming p

def countMoves : List (Adjacency L) → Nat
  | [] => 0
  | a :: rest => a.moves.size + countMoves rest

/-- The records agree with each other. -/
structure WellFormed (a : Arena L) : Prop where
  outgoing_size : a.outgoing.size = a.flags.size
  incoming_size : a.incoming.size = a.flags.size
  /-- Both ends of a transition know of it. -/
  mirrored : ∀ (p : Nat) (l : Option L) (q : Nat),
    q ∈ (a.outgoingAt p).statesAt l ↔ p ∈ (a.incomingAt q).statesAt l
  outgoing_filled : ∀ p, (a.outgoingAt p).Filled
  incoming_filled : ∀ p, (a.incomingAt p).Filled
  counted : a.transitionCount = countMoves a.outgoing.toList
  /-- Only states are named. -/
  names_lt : ∀ entry ∈ a.names, entry.2 < a.flags.size
  /-- A name is given once. -/
  names_nodup : (a.names.map Prod.fst).Nodup
  /-- A state has at most one name. -/
  named_nodup : (a.names.map Prod.snd).Nodup

section Operations

def empty : Arena L :=
  ⟨#[], #[], #[], [], 0⟩

/-- Add a state, which gets the next place. -/
def addState (a : Arena L) (flags : Flags) : Arena L :=
  { a with
    flags := a.flags.push flags
    outgoing := a.outgoing.push ∅
    incoming := a.incoming.push ∅ }

def mark (a : Arena L) (p : Nat) (f : Flags → Flags) : Arena L :=
  { a with flags := a.flags.modify p f }

/-- Record a transition.  It is recorded at its target, and counted, only if its start did not know
of it yet. -/
def link (a : Arena L) (t : Transition L) : Arena L :=
  let isNew := !((a.outgoingAt t.start).statesAt t.label).contains t.target
  let a := { a with outgoing := a.outgoing.modify t.start fun b => b.add t.label t.target }
  if isNew then
    { a with
      incoming := a.incoming.modify t.target fun b => b.add t.label t.start
      transitionCount := a.transitionCount + 1 }
  else a

/-- Give a name to the state `p`.  As the names are a bijection, inserting a pair takes out the
pairs that share the name or the state with it.  There are none where this is used, as only new
names are given and only to new states. -/
def giveName (a : Arena L) (name : String) (p : Nat) : Arena L :=
  { a with
    names := (name, p) :: a.names.filter fun entry => entry.1 != name && entry.2 != p }

@[simp] theorem link_flags (a : Arena L) (t : Transition L) : (a.link t).flags = a.flags := by
  dsimp only [link]
  split <;> rfl

@[simp] theorem link_names (a : Arena L) (t : Transition L) : (a.link t).names = a.names := by
  dsimp only [link]
  split <;> rfl

@[simp] theorem link_outgoing (a : Arena L) (t : Transition L) :
    (a.link t).outgoing = a.outgoing.modify t.start fun b => b.add t.label t.target := by
  dsimp only [link]
  split <;> rfl

end Operations

section Records

variable {adjacencies : Array (Adjacency L)} {p p' q r : Nat} {l k : Option L}

@[simp] theorem adjacencyAt_push_empty (p : Nat) :
    adjacencyAt (adjacencies.push ∅) p = adjacencyAt adjacencies p := by
  unfold adjacencyAt
  rw [Array.getElem?_push]
  split
  · rename_i h
    simp [h]
  · rfl

theorem lt_size_of_mem_statesAt (h : q ∈ (adjacencyAt adjacencies p).statesAt l) :
    p < adjacencies.size := by
  refine Nat.lt_of_not_le fun hle => ?_
  rw [adjacencyAt, Array.getElem?_eq_none hle] at h
  exact Adjacency.not_mem_statesAt_empty h

theorem exists_adjacencyAt_of_mem {b : Adjacency L} (hb : b ∈ adjacencies.toList) :
    ∃ p, adjacencyAt adjacencies p = b := by
  obtain ⟨p, hp⟩ := List.mem_iff_getElem?.mp hb
  exact ⟨p, by rw [adjacencyAt, ← Array.getElem?_toList, hp, Option.getD_some]⟩

theorem adjacencyAt_modify (f : Adjacency L → Adjacency L) (hp : p < adjacencies.size) :
    adjacencyAt (adjacencies.modify p f) p' =
      if p = p' then f (adjacencyAt adjacencies p') else adjacencyAt adjacencies p' := by
  unfold adjacencyAt
  rw [Array.getElem?_modify]
  split
  · rename_i h
    subst h
    simp [hp]
  · rfl

theorem mem_statesAt_modify (hp : p < adjacencies.size) :
    r ∈ (adjacencyAt (adjacencies.modify p fun b => b.add l q) p').statesAt k ↔
      (p' = p ∧ k = l ∧ r = q) ∨ r ∈ (adjacencyAt adjacencies p').statesAt k := by
  rw [adjacencyAt_modify _ hp]
  split
  · rename_i h
    simp [h]
  · rename_i h
    simp [Ne.symm h]

theorem filled_modify (h : ∀ p, (adjacencyAt adjacencies p).Filled) (hp : p < adjacencies.size) :
    (adjacencyAt (adjacencies.modify p fun b => b.add l q) p').Filled := by
  rw [adjacencyAt_modify _ hp]
  split
  · exact (h p').add l q
  · exact h p'

theorem eq_of_adjacencyAt_eq {adjacencies' : Array (Adjacency L)}
    (hsize : adjacencies.size = adjacencies'.size)
    (h : ∀ p, adjacencyAt adjacencies p = adjacencyAt adjacencies' p) :
    adjacencies = adjacencies' := by
  refine Array.ext hsize fun p hp hp' => ?_
  have hat := h p
  simpa [adjacencyAt, hp, hp'] using hat

theorem countMoves_append (front back : List (Adjacency L)) :
    countMoves (front ++ back) = countMoves front + countMoves back := by
  induction front with
  | nil => simp [countMoves]
  | cons head rest ih => rw [List.cons_append, countMoves, countMoves, ih, Nat.add_assoc]

theorem countMoves_modify {adjacencies : List (Adjacency L)} {b : Adjacency L}
    (hb : adjacencies[p]? = some b) (f : Adjacency L → Adjacency L) :
    countMoves (adjacencies.modify p f) + b.moves.size =
      countMoves adjacencies + (f b).moves.size := by
  induction adjacencies generalizing p with
  | nil => simp at hb
  | cons head rest ih =>
      cases p with
      | zero =>
          simp only [List.getElem?_cons_zero, Option.some.injEq] at hb
          subst hb
          simp [countMoves]
          omega
      | succ p =>
          have hrest := ih (p := p) (by simpa using hb)
          simp only [countMoves, List.modify_succ_cons] at hrest ⊢
          omega

theorem countMoves_modify_add (hp : p < adjacencies.size)
    (hnew : q ∉ (adjacencyAt adjacencies p).statesAt l) :
    countMoves (adjacencies.modify p fun b => b.add l q).toList =
      countMoves adjacencies.toList + 1 := by
  obtain ⟨b, hb⟩ : ∃ b, adjacencies.toList[p]? = some b := ⟨_, List.getElem?_eq_getElem hp⟩
  rw [adjacencyAt, ← Array.getElem?_toList, hb, Option.getD_some] at hnew
  have hcount := countMoves_modify hb fun b => b.add l q
  rw [Adjacency.size_moves_add hnew] at hcount
  rw [Array.toList_modify]
  omega

end Records

section Invariant

variable {a : Arena L} {t : Transition L}

theorem wellFormed_empty : (empty : Arena L).WellFormed where
  outgoing_size := rfl
  incoming_size := rfl
  mirrored _ _ _ := by simp [outgoingAt, incomingAt, adjacencyAt, empty]
  outgoing_filled _ := Adjacency.filled_empty
  incoming_filled _ := Adjacency.filled_empty
  counted := rfl
  names_lt _ h := absurd h List.not_mem_nil
  names_nodup := List.nodup_nil
  named_nodup := List.nodup_nil

theorem WellFormed.addState (h : a.WellFormed) (flags : Flags) : (a.addState flags).WellFormed where
  outgoing_size := by simp [Arena.addState, h.outgoing_size]
  incoming_size := by simp [Arena.addState, h.incoming_size]
  mirrored p l q := by
    simp only [Arena.addState, outgoingAt, incomingAt, adjacencyAt_push_empty]
    exact h.mirrored p l q
  outgoing_filled p := by
    simp only [Arena.addState, outgoingAt, adjacencyAt_push_empty]
    exact h.outgoing_filled p
  incoming_filled p := by
    simp only [Arena.addState, incomingAt, adjacencyAt_push_empty]
    exact h.incoming_filled p
  counted := by
    have hnone : (∅ : Adjacency L).moves.size = 0 := rfl
    simp [Arena.addState, countMoves_append, countMoves, hnone, h.counted]
  names_lt entry hentry := by
    have hlt := h.names_lt entry hentry
    simp only [Arena.addState, Array.size_push]
    omega
  names_nodup := h.names_nodup
  named_nodup := h.named_nodup

theorem WellFormed.mark (h : a.WellFormed) (p : Nat) (f : Flags → Flags) :
    (a.mark p f).WellFormed where
  outgoing_size := by simp [Arena.mark, h.outgoing_size]
  incoming_size := by simp [Arena.mark, h.incoming_size]
  mirrored := h.mirrored
  outgoing_filled := h.outgoing_filled
  incoming_filled := h.incoming_filled
  counted := h.counted
  names_lt entry hentry := by simpa [Arena.mark] using h.names_lt entry hentry
  names_nodup := h.names_nodup
  named_nodup := h.named_nodup

/-- A transition that is recorded already leaves everything as it is. -/
theorem WellFormed.link_of_mem (h : a.WellFormed)
    (hmem : t.target ∈ (a.outgoingAt t.start).statesAt t.label) : a.link t = a := by
  have hsame : (a.outgoing.modify t.start fun b => b.add t.label t.target) = a.outgoing := by
    refine eq_of_adjacencyAt_eq Array.size_modify fun p => ?_
    rw [adjacencyAt_modify _ (lt_size_of_mem_statesAt hmem)]
    split
    · rename_i hp
      subst hp
      exact (h.outgoing_filled t.start).add_of_mem hmem
    · rfl
  dsimp only [link]
  rw [OrderedSet.contains_iff.mpr hmem, hsame, Bool.not_true, if_neg Bool.false_ne_true]

theorem link_of_not_mem (hnew : t.target ∉ (a.outgoingAt t.start).statesAt t.label) :
    a.link t = { a with
      outgoing := a.outgoing.modify t.start fun b => b.add t.label t.target
      incoming := a.incoming.modify t.target fun b => b.add t.label t.start
      transitionCount := a.transitionCount + 1 } := by
  rw [← OrderedSet.contains_iff, Bool.not_eq_true] at hnew
  dsimp only [link]
  rw [hnew, Bool.not_false, if_pos rfl]

/-- A transition between states keeps the records in step, whether it is new or not. -/
theorem WellFormed.link (h : a.WellFormed) (hstart : t.start < a.flags.size)
    (htarget : t.target < a.flags.size) : (a.link t).WellFormed := by
  by_cases hmem : t.target ∈ (a.outgoingAt t.start).statesAt t.label
  · rw [h.link_of_mem hmem]
    exact h
  · have hout : t.start < a.outgoing.size := h.outgoing_size ▸ hstart
    have hin : t.target < a.incoming.size := h.incoming_size ▸ htarget
    rw [link_of_not_mem hmem]
    exact {
      outgoing_size := by simp [h.outgoing_size]
      incoming_size := by simp [h.incoming_size]
      mirrored := fun p l q => by
        refine (mem_statesAt_modify hout).trans (Iff.trans ?_ (mem_statesAt_modify hin).symm)
        refine or_congr ?_ (h.mirrored p l q)
        constructor
        · exact fun ⟨hp, hl, hq⟩ => ⟨hq, hl, hp⟩
        · exact fun ⟨hq, hl, hp⟩ => ⟨hp, hl, hq⟩
      outgoing_filled := fun p => filled_modify h.outgoing_filled hout
      incoming_filled := fun p => filled_modify h.incoming_filled hin
      counted := (congrArg (· + 1) h.counted).trans (countMoves_modify_add hout hmem).symm
      names_lt := h.names_lt
      names_nodup := h.names_nodup
      named_nodup := h.named_nodup }

theorem WellFormed.giveName (h : a.WellFormed) (name : String) {p : Nat} (hp : p < a.flags.size) :
    (a.giveName name p).WellFormed where
  outgoing_size := h.outgoing_size
  incoming_size := h.incoming_size
  mirrored := h.mirrored
  outgoing_filled := h.outgoing_filled
  incoming_filled := h.incoming_filled
  counted := h.counted
  names_lt entry hentry := by
    rcases List.mem_cons.mp hentry with rfl | hentry
    · exact hp
    · exact h.names_lt entry (List.mem_filter.mp hentry).1
  names_nodup := by
    refine List.nodup_cons.mpr ⟨?_, h.names_nodup.sublist (List.filter_sublist.map _)⟩
    simp
  named_nodup := by
    refine List.nodup_cons.mpr ⟨?_, h.named_nodup.sublist (List.filter_sublist.map _)⟩
    simp

end Invariant

end Arena

end FiniteState
