import FiniteState.Session.Command
/-!
Sessions.  A session holds automata in named registers and one generator of random numbers.  Every
automaton that is created gets the next tag, so handles of one automaton are foreign to all others,
as long as the counter of the tags has not run over.  A command that fails changes nothing.

What a construction makes on its way to an automaton takes no tag here.  Where that matters, it can
be created by a command of its own.
-/

namespace FiniteState

namespace Tagged

variable {L : Type} [Label L]

def telling (T : Tagged L) (result : Nat × Automaton L) : Except NoSuchState Outcome × Tagged L :=
  (.ok (.state (T.give result.1)), { T with automaton := result.2 })

/-- The automaton after a change, and what the change tells. -/
def edit (T : Tagged L) : Edit L → Except NoSuchState Outcome × Tagged L
  | .addState initial terminal =>
      T.telling (T.automaton.size, T.automaton.addState initial terminal)
  | .named name => T.telling (T.automaton.named name)
  | .initialNamed name => T.telling (T.automaton.initialNamed name)
  | .terminalNamed name => T.telling (T.automaton.terminalNamed name)
  | .setInitial state value =>
      let (result, T) := T.setInitial state value
      (result.map fun _ => .nothing, T)
  | .setTerminal state value =>
      let (result, T) := T.setTerminal state value
      (result.map fun _ => .nothing, T)
  | .addTransition start label target =>
      let (result, T) := T.addTransition start label target
      (result.map .isNew, T)
  | .path name steps => T.telling (T.automaton.path name steps)

end Tagged

/-- The state of a session. -/
structure Session (L : Type) [Label L] where
  /-- The tag of the next automaton.  Tags have 64 bits. -/
  nextTag : UInt64
  /-- The automata in the order of their creation, also those that no register holds any more. -/
  automata : Array (Tagged L)
  /-- The registers with the numbers of their automata, the latest entry for a register counts. -/
  registers : List (String × Nat)
  generator : Generator

namespace Session

variable {L : Type} [Label L]

def begin : Session L :=
  ⟨0, #[], [], ⟨0⟩⟩

def find? (s : Session L) (register : String) : Option (Nat × Tagged L) := do
  let i ← s.registers.lookup register
  let T ← s.automata[i]?
  some (i, T)

def fetch (s : Session L) (register : String) : Except Failure (Tagged L) :=
  match s.find? register with
  | some (_, T) => .ok T
  | none => .error (.register register)

def resolve (s : Session L) (r : Reference) : Except Failure Handle := do
  let T ← s.fetch r.register
  if r.index < T.automaton.size then .ok (T.give r.index)
  else .error (.index r.register r.index)

/-- Put an automaton with a new identity into a register. -/
def issue (s : Session L) (register : String) (A : Automaton L) : Session L :=
  { s with
    nextTag := s.nextTag + 1
    automata := s.automata.push ⟨s.nextTag.toNat, A⟩
    registers := (register, s.automata.size) :: s.registers }

def prepare (s : Session L) : Recipe L → Except Failure (Automaton L × Generator)
  | .given A => .ok (A, s.generator)
  | .built blueprint =>
      match blueprint.build with
      | some A => .ok (A, s.generator)
      | none => .error .missing
  | .parsed tokens =>
      match tokens.parse with
      | .ok term => .ok (term.automaton, s.generator)
      | .error e => .error (.parsing e)
  | .unary operand construction => do
      let T ← s.fetch operand
      .ok (construction T.automaton, s.generator)
  | .binary left right construction => do
      let T ← s.fetch left
      let U ← s.fetch right
      .ok (construction T.automaton U.automaton, s.generator)
  | .drawn draw => .ok (draw s.generator)

def create (s : Session L) (register : String) (recipe : Recipe L) :
    Except Failure (Answer L) × Session L :=
  match s.prepare recipe with
  | .error e => (.error e, s)
  | .ok (A, generator) => (.ok (.created A), { s with generator }.issue register A)

def change (s : Session L) (register : String) (edit : Edit L) :
    Except Failure (Answer L) × Session L :=
  match s.find? register with
  | none => (.error (.register register), s)
  | some (i, T) =>
      let (result, T) := T.edit edit
      let s := { s with automata := s.automata.setIfInBounds i T }
      match result with
      | .error e => (.error (.state e), s)
      | .ok outcome => (.ok (.changed outcome T.automaton), s)

def drawWords (s : Session L) (alphabet : List L) (least greatest count : Nat) :
    Except Failure (Answer L) × Session L :=
  match Draw.words Generator.next Generator.attempts alphabet least greatest count s.generator with
  | .error e => (.error (.range e), s)
  | .ok (words, generator) => (.ok (.drawn words), { s with generator })

/-- Carry out a command.  The session goes on also if the command fails. -/
def perform (s : Session L) : Command L → Except Failure (Answer L) × Session L
  | .create register recipe => s.create register recipe
  | .change register edit => s.change register edit
  | .reseed seed => (.ok .reseeded, { s with generator := ⟨seed⟩ })
  | .drawWords alphabet least greatest count => s.drawWords alphabet least greatest count

def run (s : Session L) (commands : List (Command L)) : Session L :=
  commands.foldl (fun s command => (s.perform command).2) s

end Session

end FiniteState
