import Smalltalk.Proofs.Machine.References
import Smalltalk.Proofs.Machine.Returns

namespace Smalltalk

/-! A free context may be made active again as a new one, so a program must not come
across it. A run keeps the free contexts apart from what the program uses exactly as
long as no return frees a context that is still in use and no answer leads to a free
one. Nothing sees to either: a walk through all instances answers free contexts too,
and a block that runs refers to its caller without being counted for that. -/

namespace Machine

variable {machine before after : Machine} {scope : Scope}

/-- Whether a program can come across an object. It starts from the registers and
the special objects, but neither from the free contexts nor from the caches. -/
def InUse (machine : Machine) (slot : Nat) : Prop :=
  machine.heap.Reaches (machine.registers.forget.values.filterMap Value.slot?) slot

instance (machine : Machine) (slot : Nat) : Decidable (machine.InUse slot) :=
  inferInstanceAs (Decidable (machine.heap.Reaches _ slot))

/-- The free contexts are distinct, and none of them is in use. -/
structure FreeUnused (machine : Machine) : Prop where
  nodup : machine.registers.free.Nodup
  unused : ∀ slot, .object slot ∈ machine.registers.free → ¬ machine.InUse slot

/-- The classes of the free contexts, which these keep when they are used again. -/
def freeClasses (machine : Machine) : List Value :=
  machine.registers.free.filterMap fun context =>
    (machine.heap.get? context).map HeapObject.species

/-- What a step can bring back into use: the methods that are remembered with what
they were found for, and the classes of the contexts that are used again. -/
def recalled (machine : Machine) : List Value :=
  machine.registers.methodCache.values ++ machine.freeClasses

/-- Whether a program will come across an object when it is reminded of it. -/
def Recallable (machine : Machine) (slot : Nat) : Prop :=
  machine.heap.Reaches (machine.recalled.filterMap Value.slot?) slot

/-- No step can bring a free context into use by itself. -/
structure FreeApart (machine : Machine) : Prop extends machine.FreeUnused where
  unrecalled : ∀ slot, .object slot ∈ machine.registers.free → ¬ machine.Recallable slot

/-- A step frees no context that is or may come into use after it, and what it leaves
at the top of the stack leads to no context that was free and still is. -/
structure KeepsApart (before after : Machine) : Prop where
  freed : ∀ slot, .object slot ∈ after.registers.free →
    .object slot ∉ before.registers.free → ¬ after.InUse slot ∧ ¬ after.Recallable slot
  answered : ∀ slot, .object slot ∈ after.registers.free →
    .object slot ∈ before.registers.free →
      ¬ after.heap.Reaches (after.exposed.filterMap Value.slot?) slot

/-! ## The scope of a program -/

theorem mem_freeClasses_iff {value : Value} :
    value ∈ machine.freeClasses ↔
      ∃ context ∈ machine.registers.free, ∃ object,
        machine.heap.get? context = some object ∧ object.species = value := by
  simp [freeClasses]

def sources (machine : Machine) : List Value :=
  machine.registers.forget.values ++ machine.recalled

/-- Whether an object is in use or may come into use. -/
def Traced (machine : Machine) (slot : Nat) : Prop :=
  machine.heap.Reaches (machine.sources.filterMap Value.slot?) slot

theorem traced_iff {slot : Nat} :
    machine.Traced slot ↔ machine.InUse slot ∨ machine.Recallable slot := by
  rw [Traced, sources, List.filterMap_append, Heap.reaches_append_iff, InUse, Recallable]

theorem FreeApart.untraced (apart : machine.FreeApart) {slot : Nat}
    (free : .object slot ∈ machine.registers.free) : ¬ machine.Traced slot := by
  rw [traced_iff]
  intro either
  rcases either with used | recallable
  · exact apart.unused slot free used
  · exact apart.unrecalled slot free recallable

theorem NoDangling.holds_sources (sound : machine.NoDangling) :
    ∀ value ∈ machine.sources, machine.heap.Holds value := by
  intro value member
  simp only [sources, recalled, List.mem_append] at member
  rcases member with forget | method | species
  · apply sound.held value
    rw [Registers.values_forget] at forget
    simp only [Registers.values, List.mem_append] at forget ⊢
    tauto
  · exact sound.held value (by simp [Registers.values, method])
  · rcases mem_freeClasses_iff.mp species with ⟨context, -, object, found, rfl⟩
    cases context with
    | small n => cases found
    | object slot => exact sound.closed slot object found _ (List.mem_cons_self ..)

/-- A program sees what is in use or may come into use, and the free contexts least of
all. -/
def programScope (machine : Machine) (recycling : Prop) : Scope where
  visible := machine.Traced
  concealed := fun slot => machine.heap.Live slot ∧ ¬ machine.Traced slot
  spare := fun slot => .object slot ∈ machine.registers.free
  recycling := recycling

theorem FreeApart.concealed (apart : machine.FreeApart) (sound : machine.NoDangling)
    (recycling : Prop) :
    ∀ slot, .object slot ∈ machine.registers.free →
      (machine.programScope recycling).concealed slot := by
  intro slot free
  exact ⟨sound.held (.object slot) (Registers.mem_values_of_free free), apart.untraced free⟩

theorem FreeApart.within (apart : machine.FreeApart) (sound : machine.NoDangling)
    (recycling : Prop) : machine.Within (machine.programScope recycling) := by
  have sees {value : Value} (member : value ∈ machine.sources) :
      (machine.programScope recycling).Sees value := by
    cases value with
    | small n => exact .small n
    | object slot =>
      exact .object (.seed (List.mem_filterMap.mpr ⟨_, member, rfl⟩)
        (sound.holds_sources _ member))
  have either (slot : Nat) :
      machine.heap.Live slot ↔ (machine.programScope recycling).visible slot ∨
        (machine.programScope recycling).concealed slot := by
    constructor
    · intro live
      by_cases traced : machine.Traced slot
      · exact .inl traced
      · exact .inr ⟨live, traced⟩
    · intro which
      rcases which with traced | ⟨live, -⟩
      · exact traced.live
      · exact live
  constructor
  · exact
      { consistent := sound.consistent
        closed := sound.closed
        live_iff := either
        apart := fun _ traced concealed => concealed.2 traced
        sees := by
          intro slot object traced found value member
          cases value with
          | small n => exact .small n
          | object next =>
            exact .object (.step traced found (Heap.mem_successors_iff.mpr member)
              (sound.closed slot object found _ member))
        spare := apart.concealed sound recycling
        species := fun slot object spare found =>
          sees (List.mem_append_right _ (List.mem_append_right _
            (mem_freeClasses_iff.mpr ⟨_, spare, object, found, rfl⟩))) }
  · apply Registers.Within.of_forget
    · exact fun value member => sees (List.mem_append_left _ member)
    · exact fun value member => sees (List.mem_append_right _ (List.mem_append_left _ member))
    · intro value member slot same
      apply (either slot).mp
      exact sound.held (.object slot) (by simp [Registers.values, ← same, member])
    · intro value member slot same
      rw [same] at member
      exact .inl member
    · exact .inr apart.nodup

theorem Within.sees_sources (within : machine.Within scope) :
    ∀ value ∈ machine.sources, scope.Sees value := by
  intro value member
  simp only [sources, recalled, List.mem_append] at member
  rcases member with forget | method | species
  · exact within.registers.sees_forget value forget
  · exact within.registers.methodCache value method
  · rcases mem_freeClasses_iff.mp species with ⟨context, free, object, found, rfl⟩
    cases context with
    | small n => cases found
    | object slot =>
      rcases within.registers.free _ free slot rfl with spare | ⟨-, visible⟩
      · exact within.heap.species slot object spare found
      · exact within.heap.sees slot object visible found _ (List.mem_cons_self ..)

/-- What is concealed in a scope is neither in use nor can it come into use. -/
theorem Within.not_traced (within : machine.Within scope) {slot : Nat}
    (concealed : scope.concealed slot) : ¬ machine.InUse slot ∧ ¬ machine.Recallable slot := by
  rw [← not_or, ← traced_iff]
  exact fun traced => within.heap.apart slot
    (within.heap.visible_of_reaches within.sees_sources traced) concealed

/-! ## Steps and runs -/

/-- What the top of the stack leads to is in use. -/
theorem inUse_of_exposed {slot : Nat}
    (reached : machine.heap.Reaches (machine.exposed.filterMap Value.slot?) slot) :
    machine.InUse slot := by
  apply reached.trans
  intro seed member live
  rcases List.mem_filterMap.mp member with ⟨value, onTop, names⟩
  cases value with
  | small n => cases names
  | object next =>
    cases names
    have fetched : machine.heap.fetch machine.registers.activeContext machine.registers.sp
        = .ok (.object seed) := by
      rw [exposed] at onTop
      cases read : machine.heap.fetch machine.registers.activeContext machine.registers.sp with
      | error reason => simp [read, Except.toOption] at onTop
      | ok value =>
        simp only [read, Except.toOption, Option.toList_some, List.mem_singleton] at onTop
        rw [← onTop]
    rcases Heap.mem_references_of_fetch fetched with ⟨object, here, inside⟩
    cases active : machine.registers.activeContext with
    | small n =>
      rw [active] at here
      cases here
    | object context =>
      rw [active] at here
      have root : .object context ∈ machine.registers.forget.values := by
        simp [Registers.values_forget, active]
      exact .step (.seed (List.mem_filterMap.mpr ⟨_, root, rfl⟩) (Heap.live_of_cell? here)) here
        (Heap.mem_successors_iff.mpr inside) live

theorem FreeApart.keepsApart (apart : after.FreeApart) : before.KeepsApart after where
  freed slot free _ := ⟨apart.unused slot free, apart.unrecalled slot free⟩
  answered slot free _ reached := apart.unused slot free (inUse_of_exposed reached)

/-- Instructions that do not return free no context, and they come across one that
is free only in an answer. -/
theorem KeepsApart.freeApart_of_not_returning (keeps : before.KeepsApart after)
    (sound : before.NoDangling) (apart : before.FreeApart) (step : before.Steps after)
    (stays : ¬ before.Returning) : after.FreeApart := by
  have ended : Run.objectStep before = .ok () after := step.sends.trans step.ended
  rcases Run.objectStep_ensures (apart.within sound False) stays ()
    after ended fun slot reached free spare => keeps.answered slot free spare reached
    with ⟨later, narrows, inside⟩
  have never : ¬ later.recycling := narrows.recycling.mp
  have concealed {slot : Nat} (free : .object slot ∈ after.registers.free) :
      later.concealed slot := by
    rcases inside.registers.free _ free slot rfl with spare | ⟨recycling, -⟩
    · exact inside.heap.spare slot spare
    · exact absurd recycling never
  constructor
  · exact ⟨inside.registers.free_nodup.resolve_left never,
      fun _ free => (inside.not_traced (concealed free)).1⟩
  · exact fun _ free => (inside.not_traced (concealed free)).2

/-- Instructions that return come across nothing new, so contexts that were free
before remain apart. -/
theorem KeepsApart.freeApart_of_returning (keeps : before.KeepsApart after)
    (sound : before.NoDangling) (apart : before.FreeApart) (step : before.Steps after)
    (returning : before.Returning) : after.FreeApart := by
  rcases Run.stepBy_return_ensures (apart.within sound True) trivial
    apart.nodup (apart.concealed sound True) _ returning () after step.ended with ⟨inside, nodup⟩
  have neither {slot : Nat} (free : .object slot ∈ after.registers.free) :
      ¬ after.InUse slot ∧ ¬ after.Recallable slot := by
    by_cases old : .object slot ∈ before.registers.free
    · exact inside.not_traced (apart.concealed sound True slot old)
    · exact keeps.freed slot free old
  exact ⟨⟨nodup, fun _ free => (neither free).1⟩, fun _ free => (neither free).2⟩

theorem KeepsApart.freeApart (keeps : before.KeepsApart after) (sound : before.NoDangling)
    (apart : before.FreeApart) (step : before.Steps after) : after.FreeApart := by
  by_cases returning : before.Returning
  · exact keeps.freeApart_of_returning sound apart step returning
  · exact keeps.freeApart_of_not_returning sound apart step returning

/-- A machine whose running method sends a message to its receiver, which returns at
once, and then asks its own context for the next instance of its class. -/
def wanderingMachine : Machine :=
  let nil : Value := .object 0
  sampleMachine
    [sampleNode .zero #[], sampleNode .zero #[nil, .object 2, .zero],
      sampleNode .zero #[.zero, .object 3, .object 4], sampleNode .zero #[.object 5],
      sampleNode .zero #[], sampleMethod 0 [] #[120],
      sampleMethod 0 [.object 4, .object 11] #[112, 208, 135, 137, 209],
      sampleNode (.object 9) #[nil, nil, nil, .object 6, nil, .object 8, nil, nil],
      sampleNode (.object 1) #[], sampleNode .zero #[nil, .object 10, .zero],
      sampleNode .zero #[.zero, .object 12, .object 11], sampleNode .zero #[],
      sampleNode .zero #[.object 13], sampleMethod 78 [] #[120]]
    20 (.object 9)

end Machine

end Smalltalk
