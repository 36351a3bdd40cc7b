import Smalltalk.Proofs.Machine.Step

namespace Smalltalk

/-! No run leaves a reference to an object that is gone: not in a register, not in
a cache, not in another object. The one thing a program may not do is to send a
message whose selector is a small integer, because the method cache takes the
entry of such a message for a vacant one. -/

namespace Run

variable {scope : Scope} {species : Value}

/-- The search for the method of a message leaves the class in which it started. -/
abbrev KeepsLookupClass {α : Type} (run : Run α) : Prop :=
  ∀ start, Maintains (fun machine => machine.registers.lookupClass = start) run fun _ => True

theorem methodFrom_keepsLookupClass (selector : Value) (budget : Nat) (species : Value) :
    KeepsLookupClass (methodFrom selector budget species) := by
  intro start
  induction budget generalizing species with
  | zero =>
    unfold methodFrom
    exact maintains_getNil.bind fun _ _ => .ite (fun _ => .pure trivial) fun _ => .throw
  | succ budget induction =>
    unfold methodFrom
    apply maintains_getNil.bind
    intro _ _
    refine .ite (fun _ => .pure trivial) fun _ => ?_
    apply (maintains_modifyRegisters fun _ same => same).bind
    intro _ _
    apply maintains_readHeap.bind
    intro _ _
    refine maintains_readHeap.bind fun found _ => ?_
    cases found with
    | some method => exact .pure trivial
    | none => exact maintains_readHeap.bind fun above _ => induction above

theorem lookupMethod_keepsLookupClass (selector species : Value) :
    KeepsLookupClass (lookupMethod selector species) := by
  intro start
  have asked : Maintains (fun machine => machine.registers.lookupClass = start)
      (cachedMethod selector species) fun _ => True :=
    fun machine same => (ensures_modifyGet machine _).mono <| by
      intro _ _ ended
      cases ended
      exact ⟨same, trivial⟩
  apply asked.bind
  intro cached _
  cases cached with
  | some entry => exact .pure trivial
  | none =>
    apply maintains_getHeap.bind
    intro _ _
    apply (methodFrom_keepsLookupClass selector _ species start).bind
    intro found _
    cases found with
    | none => exact .pure trivial
    | some method =>
      apply maintains_readHeap.bind
      intro header _
      have remembered (entry : CacheEntry) :
          Maintains (fun machine => machine.registers.lookupClass = start) (rememberMethod entry)
            fun _ => True := maintains_modify fun _ same => same
      exact (remembered _).bind fun _ _ => .pure trivial

theorem resolveMessage_keepsLookupClass (species : Value) :
    KeepsLookupClass (resolveMessage species) := by
  intro start
  refine maintains_getRegisters.bind fun registers _ => ?_
  refine (lookupMethod_keepsLookupClass _ species start).bind fun found _ => ?_
  cases found with
  | none => exact .pure trivial
  | some entry => exact (maintains_modifyRegisters fun _ same => same).bind fun _ _ => .pure trivial

theorem packMessage_keepsLookupClass (lookupClass : Value) :
    KeepsLookupClass (packMessage lookupClass) := by
  intro start
  refine packMessage_maintains (fun object machine same => ?_) (fun object index value machine same => ?_)
    (fun _ _ _ same => same) lookupClass
  · refine (ensures_onHeap machine _).mono ?_
    rintro _ _ ⟨rooted, registered, rfl⟩
    exact ⟨(Registers.lookupClass_of_flushed (HeapM.flushed_register registered)).trans same, trivial⟩
  · refine (ensures_store machine object index value).mono ?_
    rintro _ _ ⟨-, rfl⟩
    exact ⟨same, trivial⟩

/-- Find the method for the message being sent, and stop if its selector is a
small integer. -/
def resolveObject : Resolver := fun species => do
  if (← getRegisters).messageSelector.isSmall then throw .undefinedOperand
  resolveMessage species

theorem resolveObject_searches : Searches resolveObject := by
  intro scope machine species within seen
  refine (ensures_getRegisters machine).bindExactly ?_
  split
  · intro _ _ ended
    cases ended
  · rename_i isObject
    refine (ensures_getRegisters machine).bindExactly ?_
    refine ((lookupMethod_stays (by simpa using isObject) within.registers.messageSelector seen
      machine within).and (lookupMethod_keepsLookupClass _ species _ machine rfl)).bind
      fun found after ⟨⟨inside, visible⟩, same, _⟩ => ?_
    cases found with
    | none => exact .pure ⟨inside, same⟩
    | some entry =>
      refine (ensures_modifyRegisters after _).bindChange fun _ => ?_
      exact .pure ⟨⟨inside.heap, { inside.registers with newMethod := visible entry rfl }⟩, same⟩

/-- Execute one instruction, and stop if the selector of a message is a small
integer. -/
def objectStep : Run Unit := stepBy (sendToClassBy resolveObject Machine.nestingLimit)

theorem objectStep_ensures {machine : Machine} (within : machine.Within scope)
    (recycling : machine.Returning → scope.recycling) :
    objectStep.Ensures machine fun _ after =>
      scope.Discreet after → ∃ later : Scope, later.Narrows scope ∧ after.Within later :=
  stepBy_ensures (sendToClassBy_sends resolveObject_searches _) within recycling

end Run

namespace Machine

variable {machine after : Machine} {scope : Scope}

/-- Whether the selectors of the messages that the next step sends are objects, so
that a check of them would make no difference. -/
def SendsOnlyObjects (machine : Machine) : Prop := Run.objectStep machine = Run.step machine

/-- A step that comes to its end and sends only messages with objects for
selectors. -/
structure Steps (machine after : Machine) : Prop where
  sends : machine.SendsOnlyObjects
  ended : Run.step machine = .ok () after

instance (machine after : Machine) : Decidable (machine.Steps after) :=
  decidable_of_iff
    (Run.objectStep.ended? machine = some ((), after) ∧
      Run.step.ended? machine = some ((), after)) <| by
      rw [Run.ended?_eq_some, Run.ended?_eq_some]
      constructor
      · exact fun ⟨checked, ended⟩ => ⟨checked.trans ended.symm, ended⟩
      · exact fun ⟨sends, ended⟩ => ⟨sends.trans ended, ended⟩

/-- The machine after a number of instructions; one that stops is not executed. -/
def nth (machine : Machine) : Nat → Machine
  | 0 => machine
  | n + 1 => ((Run.step.ended? (machine.nth n)).map Prod.snd).getD (machine.nth n)

/-- Any number of steps. -/
inductive Runs (machine : Machine) : Machine → Prop
  | refl : Runs machine machine
  | step {middle after : Machine} (run : Runs machine middle) (step : middle.Steps after) :
    Runs machine after

theorem runs_nth {n : Nat} (steps : ∀ k < n, (machine.nth k).Steps (machine.nth (k + 1))) :
    machine.Runs (machine.nth n) := by
  induction n with
  | zero => exact .refl
  | succ n induction =>
    exact .step (induction fun k before => steps k (before.trans n.lt_succ_self))
      (steps n n.lt_succ_self)

/-- No reference names an object that is not there: the table lists exactly the
objects, and the registers, the caches and the objects hold small integers and
references to objects. -/
structure NoDangling (machine : Machine) : Prop where
  consistent : machine.heap.Consistent
  closed : machine.heap.Closed
  held : ∀ value ∈ machine.registers.values, machine.heap.Holds value

instance (machine : Machine) : Decidable machine.NoDangling :=
  decidable_of_iff (machine.heap.Consistent ∧ machine.heap.Closed ∧
    ∀ value ∈ machine.registers.values, machine.heap.Holds value)
    ⟨fun ⟨consistent, closed, held⟩ => ⟨consistent, closed, held⟩,
      fun ⟨consistent, closed, held⟩ => ⟨consistent, closed, held⟩⟩

theorem Within.noDangling (within : machine.Within scope) : machine.NoDangling where
  consistent := within.heap.consistent
  closed := within.heap.closed
  held value member := by
    have free (inside : value ∈ machine.registers.free) : machine.heap.Holds value := by
      cases value with
      | small n => trivial
      | object slot =>
        rcases within.registers.free _ inside slot rfl with spare | ⟨-, visible⟩
        · exact (within.heap.live_iff slot).mpr (.inr (within.heap.spare slot spare))
        · exact (within.heap.live_iff slot).mpr (.inl visible)
    rcases Registers.mem_values member with forget | method | known | inside
    · exact within.heap.holds (within.registers.sees_forget value forget)
    · exact within.heap.holds (within.registers.methodCache value method)
    · cases value with
      | small n => trivial
      | object slot =>
        exact (within.heap.live_iff slot).mpr (within.registers.atCache _ known slot rfl)
    · exact free inside

/-- The scope of everything that is there. -/
def wholeScope (machine : Machine) : Scope where
  visible := machine.heap.Live
  concealed := fun _ => False
  spare := fun _ => False
  recycling := True

theorem NoDangling.within (sound : machine.NoDangling) : machine.Within machine.wholeScope := by
  have sees {value : Value} (held : machine.heap.Holds value) : machine.wholeScope.Sees value := by
    cases value with
    | small n => exact .small n
    | object slot => exact .object held
  have inside {value : Value} (member : value ∈ machine.registers.values) :
      machine.wholeScope.Sees value := sees (sound.held value member)
  refine ⟨?_, ?_⟩
  · exact
      { consistent := sound.consistent
        closed := sound.closed
        live_iff := fun slot => (or_iff_left id).symm
        apart := fun _ _ concealed => concealed
        sees := fun slot object _ found value member =>
          sees (sound.closed slot object found value member)
        spare := fun _ spare => spare
        species := fun _ _ spare => spare.elim }
  · apply Registers.Within.of_forget
    · exact fun value member => inside (Registers.mem_values_of_forget member)
    · exact fun value member => inside (by simp [Registers.values, member])
    · intro value member slot same
      exact .inl (sound.held (.object slot) (by simp [Registers.values, ← same, member]))
    · intro value member slot same
      rw [same] at member
      exact .inr ⟨trivial, sound.held (.object slot) (Registers.mem_values_of_free member)⟩
    · exact .inl trivial

theorem NoDangling.step (sound : machine.NoDangling) (step : machine.Steps after) :
    after.NoDangling := by
  have ended : Run.objectStep machine = .ok () after := step.sends.trans step.ended
  rcases Run.objectStep_ensures sound.within (fun _ => trivial) () after ended
    fun _ _ _ spare => spare with ⟨later, -, inside⟩
  exact inside.noDangling

/-- An object that holds values. -/
def sampleNode (species : Value) (fields : Array Value) : HeapObject :=
  { species, format := 1, body := .pointers fields }

/-- A method without arguments and temporaries. -/
def sampleMethod (primitive : Nat) (literals : List Value) (bytecode : Array UInt8) : HeapObject :=
  let header := MethodHeader.pack 0 0 literals.length primitive false
  { species := .zero
    format := Format.method
    body := .method (header.value :: literals).toArray bytecode }

/-- A machine at the start of the method with number six, whose context and receiver
have the next two numbers. Nil has number zero, and it stands for all special
objects but the class of method contexts. -/
def sampleMachine (objects : List HeapObject) (capacity : Nat) (methodContextClass : Value) :
    Machine :=
  let nil : Value := .object 0
  { heap :=
      { cells := (objects.map some).toArray
        table := Array.range objects.length
        capacity
        limit := capacity
        growth := 1
        attempts := 1 }
    registers :=
      { specials :=
          { array := nil, nil, false := nil, true := nil, smallIntegerClass := nil
            floatClass := nil, methodContextClass, blockContextClass := nil, pointClass := nil
            largePositiveIntegerClass := nil, arrayClass := nil, messageClass := nil
            characterClass := nil, specialSelectors := nil, characterTable := nil }
        activeContext := .object 7
        homeContext := .object 7
        method := .object 6
        receiver := .object 8
        sp := ContextField.frame - 1
        newMethod := nil
        messageSelector := nil
        lookupClass := nil
        methodCache := .ofSize 1 1
        atCache := .ofSize 1 }
    config := { smallFrameSize := 2 }
    timing := .ofConfig {}
    input := { limit := 1 } }

/-- A machine with a full object table, whose running method sends a message to its
receiver. The object with the last number is not used by anyone. -/
def tightMachine : Machine :=
  let nil : Value := .object 0
  sampleMachine
    [sampleNode .zero #[], sampleNode .zero #[nil, .object 2, .zero],
      sampleNode .zero #[.zero, .object 3, .object 4], sampleNode .zero #[.object 5],
      sampleNode .zero #[], sampleMethod 0 [] #[120], sampleMethod 0 [.object 4] #[112, 208],
      sampleNode .zero #[nil, nil, nil, .object 6, nil, .object 8, nil, nil],
      sampleNode (.object 1) #[], sampleNode .zero #[.object 8]]
    10 nil

end Machine

end Smalltalk
