import Smalltalk.Proofs.Heap.Allocation
import Smalltalk.Proofs.Heap.Exchange
import Smalltalk.Proofs.Machine.Ensures

namespace Smalltalk

/-! A running program comes across some of the objects of the heap and across no
others. Where it starts and what it does never lead it out of what it sees, and
what it sees is there. -/

/-- A partition of the objects that are there into those that a program may come
across and those that it may not. Some of the latter are spare contexts. When a
program is recycling, contexts that it sees may become free as well. -/
structure Scope where
  visible : Nat → Prop
  concealed : Nat → Prop
  spare : Nat → Prop
  recycling : Prop

namespace Scope

/-- Whether a program may come across a value. -/
inductive Sees (scope : Scope) : Value → Prop
  | small (n : SmallInt) : scope.Sees (.small n)
  | object {slot : Nat} (visible : scope.visible slot) : scope.Sees (.object slot)

@[simp] theorem sees_small (scope : Scope) (n : SmallInt) : scope.Sees (.small n) := .small n

@[simp] theorem sees_object (scope : Scope) (slot : Nat) :
    scope.Sees (.object slot) ↔ scope.visible slot := by
  constructor
  · intro same
    cases same
    assumption
  · exact .object

@[simp] theorem sees_zero (scope : Scope) : scope.Sees .zero := .small _

theorem sees_ofInt (scope : Scope) (n : Int) : scope.Sees (.ofInt n) := by
  rw [Value.ofInt]
  cases SmallInt.ofInt? n <;> exact .small _

theorem sees_ofInt? {scope : Scope} {n : Int} {value : Value}
    (small : Value.ofInt? n = some value) :
    scope.Sees value := by
  rcases Option.map_eq_some_iff.mp small with ⟨_, _, rfl⟩
  exact .small _

theorem sees_ofWrapped (scope : Scope) (n : Int) : scope.Sees (.ofWrapped n) :=
  scope.sees_ofInt _

theorem sees_ofSigned (scope : Scope) (word : UInt32) : scope.Sees (.ofSigned word) :=
  scope.sees_ofInt _

/-- Whether a value that names an object names one that is there. -/
def Knows (scope : Scope) (value : Value) : Prop :=
  ∀ slot, value = .object slot → scope.visible slot ∨ scope.concealed slot

/-- Whether a program sees everything that an object refers to. -/
def SeesInto (scope : Scope) (object : HeapObject) : Prop :=
  ∀ value ∈ object.references, scope.Sees value

theorem seesInto_of_pointers {scope : Scope} {object : HeapObject} {fields : Array Value}
    (species : scope.Sees object.species) (pointers : object.pointers? = some fields)
    (seen : ∀ value ∈ fields, scope.Sees value) : scope.SeesInto object := by
  intro value member
  rcases List.mem_cons.mp member with rfl | inside
  · exact species
  · rw [pointers] at inside
    exact seen value (Array.mem_toList_iff.mp inside)

theorem seesInto_of_raw {scope : Scope} {object : HeapObject} (species : scope.Sees object.species)
    (raw : object.pointers? = none) : scope.SeesInto object := by
  intro value member
  rcases List.mem_cons.mp member with rfl | inside
  · exact species
  · rw [raw] at inside
    exact absurd inside List.not_mem_nil

/-- Whether a value that names a context names one that may be made active again as
a new one. -/
def Recyclable (scope : Scope) (value : Value) : Prop :=
  ∀ slot, value = .object slot → scope.spare slot ∨ scope.recycling ∧ scope.visible slot

/-- The part of a scope that is left in a heap. -/
def among (scope : Scope) (heap : Heap) : Scope :=
  { scope with
    visible := fun slot => scope.visible slot ∧ heap.Live slot
    concealed := fun slot => scope.concealed slot ∧ heap.Live slot
    spare := fun slot => scope.spare slot ∧ heap.Live slot }

/-- The scope with more in sight. -/
def reveal (scope : Scope) (shown : Nat → Prop) : Scope :=
  { scope with
    visible := fun slot => scope.visible slot ∨ shown slot
    concealed := fun slot => scope.concealed slot ∧ ¬ shown slot
    spare := fun slot => scope.spare slot ∧ ¬ shown slot }

theorem Sees.reveal {scope : Scope} {value : Value} (seen : scope.Sees value)
    (shown : Nat → Prop) : (scope.reveal shown).Sees value := by
  cases seen with
  | small n => exact .small n
  | object visible => exact .object (.inl visible)

theorem Sees.among {scope : Scope} {value : Value} {heap : Heap} (seen : scope.Sees value)
    (held : heap.Holds value) : (scope.among heap).Sees value := by
  cases seen with
  | small n => exact .small n
  | object visible => exact .object ⟨visible, held⟩

/-- A later scope conceals no more than an earlier one did. -/
structure Narrows (later earlier : Scope) : Prop where
  concealed : ∀ slot, later.concealed slot → earlier.concealed slot
  spare : ∀ slot, later.spare slot → earlier.spare slot
  recycling : later.recycling ↔ earlier.recycling

namespace Narrows

theorem refl (scope : Scope) : scope.Narrows scope :=
  ⟨fun _ concealed => concealed, fun _ spare => spare, Iff.rfl⟩

theorem trans {first middle last : Scope} (late : last.Narrows middle)
    (early : middle.Narrows first) : last.Narrows first :=
  ⟨fun slot concealed => early.concealed slot (late.concealed slot concealed),
    fun slot spare => early.spare slot (late.spare slot spare),
    late.recycling.trans early.recycling⟩

theorem among (scope : Scope) (heap : Heap) : (scope.among heap).Narrows scope :=
  ⟨fun _ concealed => concealed.1, fun _ spare => spare.1, Iff.rfl⟩

theorem reveal (scope : Scope) (shown : Nat → Prop) : (scope.reveal shown).Narrows scope :=
  ⟨fun _ concealed => concealed.1, fun _ spare => spare.1, Iff.rfl⟩

end Narrows

end Scope

/-- A heap whose objects a scope divides: what is visible refers only to what is
visible, and a spare context is an instance of a visible class. -/
structure Heap.Within (scope : Scope) (heap : Heap) : Prop where
  consistent : heap.Consistent
  closed : heap.Closed
  live_iff : ∀ slot, heap.Live slot ↔ scope.visible slot ∨ scope.concealed slot
  apart : ∀ slot, scope.visible slot → ¬ scope.concealed slot
  sees : ∀ slot object, scope.visible slot → heap.cell? slot = some object → scope.SeesInto object
  spare : ∀ slot, scope.spare slot → scope.concealed slot
  species : ∀ slot object, scope.spare slot → heap.cell? slot = some object →
    scope.Sees object.species

/-- The lists of free contexts. -/
def Registers.free (registers : Registers) : List Value :=
  registers.freeContexts ++ registers.freeLargeContexts

/-- Giving up the caches and the free contexts leaves the other values. -/
theorem Registers.values_forget (registers : Registers) :
    registers.forget.values = registers.specials.values
      ++ [registers.activeContext, registers.homeContext, registers.method, registers.receiver,
        registers.newMethod, registers.messageSelector, registers.lookupClass]
      ++ registers.scratch := by
  simp [Registers.values, Registers.forget]

/-- The other values are in the caches or name free contexts. -/
theorem Registers.mem_values {registers : Registers} {value : Value}
    (member : value ∈ registers.values) :
    value ∈ registers.forget.values ∨ value ∈ registers.methodCache.values ∨
      value ∈ registers.atCache.values ∨ value ∈ registers.free := by
  rw [Registers.values_forget]
  simp only [Registers.values, Registers.free, List.mem_append] at member ⊢
  tauto

theorem Registers.mem_values_of_forget {registers : Registers} {value : Value}
    (member : value ∈ registers.forget.values) : value ∈ registers.values := by
  rw [Registers.values_forget] at member
  simp only [Registers.values, List.mem_append] at member ⊢
  tauto

theorem Registers.mem_values_of_free {registers : Registers} {value : Value}
    (member : value ∈ registers.free) : value ∈ registers.values := by
  simp only [Registers.values, Registers.free, List.mem_append] at member ⊢
  tauto

/-- Registers that hold only what is visible, apart from the objects of the
at-cache, which are compared and not used, and from the free contexts. -/
structure Registers.Within (scope : Scope) (registers : Registers) : Prop where
  specials : ∀ value ∈ registers.specials.values, scope.Sees value
  activeContext : scope.Sees registers.activeContext
  homeContext : scope.Sees registers.homeContext
  method : scope.Sees registers.method
  receiver : scope.Sees registers.receiver
  newMethod : scope.Sees registers.newMethod
  messageSelector : scope.Sees registers.messageSelector
  lookupClass : scope.Sees registers.lookupClass
  methodCache : ∀ value ∈ registers.methodCache.values, scope.Sees value
  atCache : ∀ value ∈ registers.atCache.values, scope.Knows value
  free : ∀ value ∈ registers.free, scope.Recyclable value
  free_nodup : scope.recycling ∨ registers.free.Nodup
  scratch : ∀ value ∈ registers.scratch, scope.Sees value

/-- A machine that a scope divides. -/
structure Machine.Within (scope : Scope) (machine : Machine) : Prop where
  heap : machine.heap.Within scope
  registers : machine.registers.Within scope

namespace Registers.Within

variable {scope : Scope} {registers : Registers}

theorem sees_nil (within : registers.Within scope) : scope.Sees registers.specials.nil :=
  within.specials _ (by simp [Specials.values])

theorem sees_boolean (within : registers.Within scope) (value : Bool) :
    scope.Sees (registers.specials.boolean value) := by
  cases value <;> exact within.specials _ (by simp [Specials.values, Specials.boolean])

theorem sees_cached (within : registers.Within scope) {entry : CacheEntry}
    (cached : entry ∈ registers.methodCache.entries) (used : entry.isVacant = false) :
    scope.Sees entry.selector ∧ scope.Sees entry.species ∧ scope.Sees entry.method := by
  have inside {value : Value} (member : value ∈ entry.values) : scope.Sees value :=
    within.methodCache value (List.mem_flatMap.mpr ⟨entry, Array.mem_toList_iff.mpr cached, member⟩)
  refine ⟨inside ?_, inside ?_, inside ?_⟩ <;> simp [CacheEntry.values, used]

theorem sees_forget (within : registers.Within scope) :
∀ value ∈ registers.forget.values, scope.Sees value := by
  intro value member
  rw [Registers.values_forget] at member
  simp only [List.mem_append, List.mem_cons, List.not_mem_nil, or_false] at member
  rcases member with (special | rest) | scratch
  · exact within.specials value special
  · rcases rest with same | same | same | same | same | same | same <;> rw [same]
    · exact within.activeContext
    · exact within.homeContext
    · exact within.method
    · exact within.receiver
    · exact within.newMethod
    · exact within.messageSelector
    · exact within.lookupClass
  · exact within.scratch value scratch

/-- Apart from the caches and the free contexts, everything has to be visible. -/
theorem of_forget (sees : ∀ value ∈ registers.forget.values, scope.Sees value)
    (methodCache : ∀ value ∈ registers.methodCache.values, scope.Sees value)
    (atCache : ∀ value ∈ registers.atCache.values, scope.Knows value)
    (free : ∀ value ∈ registers.free, scope.Recyclable value)
    (free_nodup : scope.recycling ∨ registers.free.Nodup) : registers.Within scope where
  specials value member := sees value (by simp [Registers.values_forget, member])
  activeContext := sees _ (by simp [Registers.values_forget])
  homeContext := sees _ (by simp [Registers.values_forget])
  method := sees _ (by simp [Registers.values_forget])
  receiver := sees _ (by simp [Registers.values_forget])
  newMethod := sees _ (by simp [Registers.values_forget])
  messageSelector := sees _ (by simp [Registers.values_forget])
  lookupClass := sees _ (by simp [Registers.values_forget])
  methodCache := methodCache
  atCache := atCache
  free := free
  free_nodup := free_nodup
  scratch value member := sees value (by simp [Registers.values_forget, member])

end Registers.Within

namespace Heap.Within

variable {scope : Scope} {heap : Heap}

theorem holds (within : heap.Within scope) {value : Value} (seen : scope.Sees value) :
    heap.Holds value := by
  cases seen with
  | small n => trivial
  | object visible => exact (within.live_iff _).mpr (.inl visible)

theorem seesInto (within : heap.Within scope) {value : Value} {object : HeapObject}
    (seen : scope.Sees value) (found : heap.get? value = some object) :
    scope.SeesInto object := by
  cases seen with
  | small n => cases found
  | object visible => exact within.sees _ object visible found

theorem sees_fetch (within : heap.Within scope) {object value : Value} {index : Nat}
    (seen : scope.Sees object) (found : heap.fetch object index = .ok value) :
    scope.Sees value := by
  rcases Heap.mem_references_of_fetch found with ⟨owner, here, member⟩
  exact within.seesInto seen here value member

theorem sees_fields (within : heap.Within scope) {object : Value} {fields : Array Value}
    (seen : scope.Sees object) (found : (heap.get? object).bind HeapObject.pointers? = some fields)
    {value : Value} (member : value ∈ fields) : scope.Sees value := by
  rcases Option.bind_eq_some_iff.mp found with ⟨owner, here, pointers⟩
  apply within.seesInto seen here
  simp [HeapObject.references, pointers, member]

/-- What visible values lead to is visible. -/
theorem visible_of_reaches (within : heap.Within scope) {values : List Value}
    (seen : ∀ value ∈ values, scope.Sees value) {slot : Nat}
    (reached : heap.Reaches (values.filterMap Value.slot?) slot) : scope.visible slot := by
  induction reached with
  | @seed slot member _ =>
    rcases List.mem_filterMap.mp member with ⟨value, root, names⟩
    cases value with
    | small n => cases names
    | object other =>
      cases names
      exact (scope.sees_object slot).mp (seen _ root)
  | step _ found edge _ visible =>
    exact (scope.sees_object _).mp
      (within.sees _ _ visible found _ (Heap.mem_successors_iff.mp edge))

/-- An update that puts only visible references into an object. -/
theorem update (within : heap.Within scope) (target : Value) {change : HeapObject → HeapObject}
    (species : ∀ old, (change old).species = old.species)
    (seen : ∀ old, ∀ value ∈ (change old).references, value ∈ old.references ∨ scope.Sees value) :
    (heap.update target change).Within scope where
  consistent := Heap.consistent_update within.consistent target change
  closed := by
    intro slot object found value member
    have holds (value : Value) (held : heap.Holds value) :
        (heap.update target change).Holds value := by
      cases value with
      | small n => trivial
      | object other => exact (Heap.live_update_iff target change other).mpr held
    rcases Heap.cell?_update_eq_some found with same | ⟨-, old, here, rfl⟩
    · exact holds value (within.closed slot object same value member)
    · rcases seen old value member with kept | visible
      · exact holds value (within.closed slot old here value kept)
      · exact holds value (within.holds visible)
  live_iff slot := (Heap.live_update_iff target change slot).trans (within.live_iff slot)
  apart := within.apart
  sees := by
    intro slot object visible found value member
    rcases Heap.cell?_update_eq_some found with same | ⟨-, old, here, rfl⟩
    · exact within.sees slot object visible same value member
    · exact (seen old value member).elim (within.sees slot old visible here value) id
  spare := within.spare
  species := by
    intro slot object spare found
    rcases Heap.cell?_update_eq_some found with same | ⟨-, old, here, rfl⟩
    · exact within.species slot object spare same
    · rw [species]
      exact within.species slot old spare here

/-- An update of bodies that puts only visible references into one. -/
theorem updateBody (within : heap.Within scope) (target : Value) (change : Body → Body)
    (seen : ∀ (old : Body), ∀ value ∈ ((change old).pointers?.getD #[]).toList,
      value ∈ (old.pointers?.getD #[]).toList ∨ scope.Sees value) :
    (heap.updateBody target change).Within scope := by
  apply within.update target
  · exact fun _ => rfl
  · intro old value member
    rcases List.mem_cons.mp member with rfl | inside
    · exact .inl (List.mem_cons_self ..)
    · exact (seen old.body value inside).imp_left (List.mem_cons_of_mem _)

theorem setField (within : heap.Within scope) (target : Value) (index : Nat) {value : Value}
    (seen : scope.Sees value) : (heap.setField target index value).Within scope := by
  apply within.updateBody target _
  intro old other member
  rw [Body.pointers?_mapPointers] at member
  cases pointers : old.pointers? with
  | none =>
    rw [pointers] at member
    exact .inl member
  | some fields =>
    simp only [pointers, Option.map_some, Option.getD_some, Array.toList_setIfInBounds] at member ⊢
    rcases List.mem_or_eq_of_mem_set member with kept | rfl
    · exact .inl kept
    · exact .inr seen

end Heap.Within

/-! ## Collecting, placing and revealing -/

namespace Registers.Within

variable {scope : Scope} {registers : Registers}

/-- Registers fit into another scope when each of their values does. -/
theorem transfer {later : Scope} (within : registers.Within scope)
    (sees : ∀ value ∈ registers.values, scope.Sees value → later.Sees value)
    (known : ∀ slot, .object slot ∈ registers.values → scope.visible slot ∨ scope.concealed slot →
      later.visible slot ∨ later.concealed slot)
    (recyclable : ∀ value ∈ registers.values, value ∈ registers.free →
      scope.Recyclable value → later.Recyclable value)
    (recycling : scope.recycling → later.recycling) : registers.Within later := by
  apply of_forget
  · exact fun value member =>
      sees value (mem_values_of_forget member) (within.sees_forget value member)
  · exact fun value member =>
      sees value (by simp [Registers.values, member]) (within.methodCache value member)
  · exact fun value member slot same =>
      known slot (by simp [Registers.values, ← same, member])
        (within.atCache value member slot same)
  · exact fun value member =>
      recyclable value (mem_values_of_free member) member (within.free value member)
  · exact within.free_nodup.imp_left recycling

/-- A context that is taken from the free ones was free once. -/
theorem take (within : registers.Within scope) (context : Value)
    (before after small large : List Value) (free : registers.free = before ++ context :: after)
    (rest : small ++ large = before ++ after) :
    { registers with freeContexts := small, freeLargeContexts := large }.Within scope ∧
      scope.Recyclable context ∧ (scope.recycling ∨ context ∉ small ++ large) := by
  have sublist : (small ++ large).Sublist registers.free := by
    rw [free, rest]
    exact (List.Sublist.refl before).append (List.sublist_cons_self context after)
  refine ⟨{ within with free := ?_, free_nodup := ?_ }, ?_, ?_⟩
  · exact fun value member => within.free value (sublist.subset member)
  · exact within.free_nodup.imp_right sublist.nodup
  · exact within.free context (by simp [free])
  · apply within.free_nodup.imp_right
    intro nodup
    rw [free, List.nodup_middle] at nodup
    rw [rest]
    exact (List.nodup_cons.mp nodup).1

/-- Giving up the caches and the free contexts. -/
theorem forget (within : registers.Within scope) : registers.forget.Within scope :=
  { within with
    methodCache := by simp [Registers.forget]
    atCache := by simp [Registers.forget]
    free := by simp [Registers.forget, Registers.free]
    free_nodup := .inr (by simp [Registers.forget, Registers.free]) }

/-- No context that remains free may be revealed, unless the program is recycling. -/
theorem reveal (within : registers.Within scope) {shown : Nat → Prop}
    (discreet : ∀ slot, .object slot ∈ registers.free → scope.spare slot → shown slot →
      scope.recycling) :
    registers.Within (scope.reveal shown) := by
  refine within.transfer (fun value _ seen => seen.reveal shown) ?_ ?_ id
  · intro slot _ either
    rcases either with visible | concealed
    · exact .inl (.inl visible)
    · by_cases here : shown slot
      · exact .inl (.inr here)
      · exact .inr ⟨concealed, here⟩
  · intro value _ member recyclable slot same
    rcases same with rfl
    rcases recyclable slot rfl with spare | ⟨recycling, visible⟩
    · by_cases here : shown slot
      · exact .inr ⟨discreet slot member spare here, .inr here⟩
      · exact .inl ⟨spare, here⟩
    · exact .inr ⟨recycling, .inl visible⟩

end Registers.Within

namespace Heap.Within

variable {scope : Scope} {heap : Heap}

/-- What is revealed has to be there and to refer only to what is then in sight. -/
theorem reveal (within : heap.Within scope) {shown : Nat → Prop}
    (live : ∀ slot, shown slot → heap.Live slot)
    (sees : ∀ slot object, shown slot → heap.cell? slot = some object →
      (scope.reveal shown).SeesInto object) :
    heap.Within (scope.reveal shown) where
  consistent := within.consistent
  closed := within.closed
  live_iff slot := by
    constructor
    · intro alive
      rcases (within.live_iff slot).mp alive with visible | concealed
      · exact .inl (.inl visible)
      · by_cases here : shown slot
        · exact .inl (.inr here)
        · exact .inr ⟨concealed, here⟩
    · intro either
      rcases either with (visible | here) | ⟨concealed, -⟩
      · exact (within.live_iff slot).mpr (.inl visible)
      · exact live slot here
      · exact (within.live_iff slot).mpr (.inr concealed)
  apart := by
    rintro slot (visible | here) ⟨concealed, hidden⟩
    · exact within.apart slot visible concealed
    · exact hidden here
  sees := by
    intro slot object either found
    rcases either with visible | here
    · exact fun value member => (within.sees slot object visible found value member).reveal shown
    · exact sees slot object here found
  spare slot spare := ⟨within.spare slot spare.1, spare.2⟩
  species slot object spare found := (within.species slot object spare.1 found).reveal shown

/-- The new object is in sight. -/
theorem places (within : heap.Within scope) {object : HeapObject} {slot : Nat} {after : Heap}
    (placed : Heap.Places object slot heap after) (seen : scope.SeesInto object) :
    after.Within (scope.reveal (· = slot)) := by
  have alive (other : Nat) : after.Live other ↔ heap.Live other ∨ other = slot := by
    by_cases same : other = slot
    · simp [same, Heap.Live, placed.filled]
    · simp [same, Heap.Live, placed.others other same]
  have holds {value : Value} (held : heap.Holds value) : after.Holds value := by
    cases value with
    | small n => trivial
    | object other => exact (alive other).mpr (.inl held)
  refine
    { consistent := placed.consistent
      closed := ?_
      live_iff := ?_
      apart := ?_
      sees := ?_
      spare := fun other spare => ⟨within.spare other spare.1, spare.2⟩
      species := ?_ }
  · intro other found here value member
    by_cases same : other = slot
    · rw [same, placed.filled] at here
      cases here
      exact holds (within.holds (seen value member))
    · rw [placed.others other same] at here
      exact holds (within.closed other found here value member)
  · intro other
    rw [alive, within.live_iff]
    by_cases same : other = slot
    · simp [Scope.reveal, same]
    · simp [Scope.reveal, same]
  · rintro other (visible | same) ⟨concealed, different⟩
    · exact within.apart other visible concealed
    · exact different same
  · intro other found either here value member
    rcases either with visible | same
    · by_cases same : other = slot
      · rw [same, placed.filled] at here
        cases here
        exact (seen value member).reveal _
      · rw [placed.others other same] at here
        exact (within.sees other found visible here value member).reveal _
    · rw [same, placed.filled] at here
      cases here
      exact (seen value member).reveal _
  · intro other found spare here
    rw [placed.others other spare.2] at here
    exact (within.species other found spare.1 here).reveal _

end Heap.Within

instance : LawfulRootSet Registers where
  mem_of_mem_flush := by
    intro registers value member
    exact Registers.mem_values_of_forget member
  values_flush_flush registers := by
    change registers.forget.forget.values = registers.forget.values
    rw [Registers.values_forget, Registers.values_forget]
    rfl

namespace Machine.Within

variable {scope : Scope} {machine : Machine}

theorem flushed_registers {last : Registers} (flushed : Flushed machine.registers last)
    (within : machine.registers.Within scope) : last.Within scope := by
  induction flushed with
  | refl => exact within
  | flush _ induction => exact induction.forget

/-- What collections leave of a machine lies in what they leave of its scope. -/
theorem survives (within : machine.Within scope) {heap : Heap} {registers : Registers}
    (survives : Rooted.Survives ⟨machine.heap, machine.registers⟩ ⟨heap, registers⟩) :
    heap.Within (scope.among heap) ∧ registers.Within (scope.among heap) := by
  have early {slot : Nat} (live : heap.Live slot) : machine.heap.Live slot := by
    rw [Heap.Live, ← survives.cell slot live]
    exact live
  have kept {slot : Nat} {object : HeapObject} (found : heap.cell? slot = some object) :
      machine.heap.cell? slot = some object :=
    (survives.cell slot (Heap.live_of_cell? found)).symm.trans found
  constructor
  · refine
      { consistent := survives.consistent
        closed := ?_
        live_iff := ?_
        apart := fun slot visible concealed => within.heap.apart slot visible.1 concealed.1
        sees := ?_
        spare := fun slot spare => ⟨within.heap.spare slot spare.1, spare.2⟩
        species := ?_ }
    · intro slot object found value member
      exact survives.closed slot object found value member
        (within.heap.closed slot object (kept found) value member)
    · intro slot
      constructor
      · intro live
        exact ((within.heap.live_iff slot).mp (early live)).imp (⟨·, live⟩) (⟨·, live⟩)
      · rintro (⟨-, live⟩ | ⟨-, live⟩) <;> exact live
    · intro slot object visible found value member
      have seen := within.heap.sees slot object visible.1 (kept found) value member
      exact seen.among (survives.closed slot object found value member (within.heap.holds seen))
    · intro slot object spare found
      have seen := within.heap.species slot object spare.1 (kept found)
      exact seen.among (survives.closed slot object found _ (List.mem_cons_self ..)
        (within.heap.holds seen))
  · refine (flushed_registers survives.flushed within.registers).transfer ?_ ?_ ?_ id
    · intro value member seen
      exact seen.among (survives.held value member (within.heap.holds seen))
    · intro slot member known
      have live : heap.Live slot :=
        survives.held (.object slot) member ((within.heap.live_iff slot).mpr known)
      exact known.imp (⟨·, live⟩) (⟨·, live⟩)
    · intro value member _ recyclable slot same
      rcases same with rfl
      have either := recyclable slot rfl
      have known : scope.visible slot ∨ scope.concealed slot :=
        either.elim (fun spare => .inr (within.heap.spare slot spare)) fun seen => .inl seen.2
      have live : heap.Live slot :=
        survives.held (.object slot) member ((within.heap.live_iff slot).mpr known)
      exact either.imp (⟨·, live⟩) fun seen => ⟨seen.1, seen.2, live⟩

end Machine.Within

end Smalltalk
