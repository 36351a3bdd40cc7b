import Smalltalk.Proofs.Machine.Contexts

namespace Smalltalk

/-! Computations that make objects, take free contexts or collect leave a machine
in another scope, which conceals no more than the one before. An answer that may
be any object that is there can only be the last thing that happens. -/

/-- The value at the top of the stack, if there is one. -/
def Machine.exposed (machine : Machine) : List Value :=
  (machine.heap.fetch machine.registers.activeContext machine.registers.sp).toOption.toList

/-- The value at the top of the stack does not lead to a spare context that is still
free. -/
def Scope.Discreet (scope : Scope) (machine : Machine) : Prop :=
  ∀ slot, machine.heap.Reaches (machine.exposed.filterMap Value.slot?) slot →
    .object slot ∈ machine.registers.free → ¬ scope.spare slot

namespace Run

variable {α β : Type} {scope : Scope}

/-- The computation takes a machine in a scope to a later scope, where its result
has a property. When its result is the last one it may have exposed any object,
and nothing is said unless that is discreet. -/
def Leads (scope : Scope) (run : Run α) (last : α → Prop) (good : Scope → α → Prop) : Prop :=
  ∀ machine, machine.Within scope → run.Ensures machine fun result after =>
    (last result → scope.Discreet after) →
      ∃ later, later.Narrows scope ∧ after.Within later ∧ good later result

/-- The computation takes a machine in a scope to a later scope. -/
def Moves (scope : Scope) (run : Run α) (good : Scope → α → Prop) : Prop :=
  Leads scope run (fun _ => False) good

theorem Stays.leads {run : Run α} {last : α → Prop} {good : Scope → α → Prop}
    (stays : Stays scope run (good scope)) : Leads scope run last good :=
  fun machine within => (stays machine within).mono
    fun _ _ ended _ => ⟨scope, .refl scope, ended⟩

theorem Stays.moves {run : Run α} {good : Scope → α → Prop} (stays : Stays scope run (good scope)) :
    Moves scope run good :=
  stays.leads

namespace Leads

variable {run : Run α} {next : α → Run β} {last : α → Prop} {final : β → Prop}
  {middle good : Scope → α → Prop} {goal : Scope → β → Prop}

/-- After an answer that may be the last, nothing more may happen. -/
theorem bind (first : Leads scope run last middle)
    (second : ∀ later result, ¬ last result → middle later result →
      Leads later (next result) final goal)
    (ended : ∀ result, last result → ∃ answer, next result = pure answer ∧ final answer ∧
      ∀ later, middle later result → goal later answer) :
    Leads scope (run >>= next) final goal := by
  refine fun machine within => (first machine within).bind fun result between led => ?_
  by_cases isLast : last result
  · rcases ended result isLast with ⟨answer, same, isFinal, carried⟩
    rw [same]
    refine .pure fun discreet => ?_
    rcases led fun _ => discreet isFinal with ⟨later, narrows, inside, found⟩
    exact ⟨later, narrows, inside, carried later found⟩
  · rcases led fun absurd => (isLast absurd).elim with ⟨later, narrows, inside, found⟩
    refine (second later result isLast found between inside).mono
      fun answer after led discreet => ?_
    have modest (isFinal : final answer) : later.Discreet after :=
      fun slot reached free spare => discreet isFinal slot reached free (narrows.spare slot spare)
    rcases led modest with ⟨latest, further, there, reached⟩
    exact ⟨latest, further.trans narrows, there, reached⟩

theorem ite {condition : Prop} [Decidable condition] {first second : Run α}
    (yes : condition → Leads scope first last good)
    (no : ¬ condition → Leads scope second last good) :
    Leads scope (if condition then first else second) last good := by
  split
  · exact yes ‹_›
  · exact no ‹_›

end Leads

namespace Moves

variable {run : Run α} {next : α → Run β} {last : α → Prop} {final : β → Prop}
  {middle good : Scope → α → Prop} {goal : Scope → β → Prop}

theorem leads (moves : Moves scope run good) : Leads scope run last good :=
  fun machine within => (moves machine within).mono
    fun _ _ led _ => led False.elim

theorem pure {result : α} (holds : good scope result) : Moves scope (Pure.pure result) good :=
  fun _ within => .pure fun _ => ⟨scope, .refl scope, within, holds⟩

theorem bindLeads (first : Moves scope run middle)
    (second : ∀ later result, middle later result → Leads later (next result) final goal) :
    Leads scope (run >>= next) final goal :=
  Leads.bind first (fun later result _ found => second later result found)
    fun _ absurd => absurd.elim

theorem bind (first : Moves scope run middle)
    (second : ∀ later result, middle later result → Moves later (next result) goal) :
    Moves scope (run >>= next) goal :=
  first.bindLeads second

theorem ite {condition : Prop} [Decidable condition] {first second : Run α}
    (yes : condition → Moves scope first good) (no : ¬ condition → Moves scope second good) :
    Moves scope (if condition then first else second) good :=
  Leads.ite yes no

end Moves

/-- A computation that stays may come before one that leads on. -/
theorem Stays.bindLeads {run : Run α} {next : α → Run β} {middle : α → Prop} {final : β → Prop}
    {goal : Scope → β → Prop} (first : Stays scope run middle)
    (second : ∀ result, middle result → Leads scope (next result) final goal) :
    Leads scope (run >>= next) final goal :=
  fun machine within => (first machine within).bind
    fun result after ended => second result ended.2 after ended.1

theorem Stays.bindMoves {run : Run α} {next : α → Run β} {middle : α → Prop}
    {goal : Scope → β → Prop} (first : Stays scope run middle)
    (second : ∀ result, middle result → Moves scope (next result) goal) :
    Moves scope (run >>= next) goal :=
  first.bindLeads second

end Run

/-! ## Values that an allocation keeps -/

namespace Machine

/-- Whether the registers lead to a value without their caches and without the
free contexts, so that no collection frees it. -/
def Anchors (machine : Machine) (value : Value) : Prop :=
  ∀ slot, value = .object slot →
    machine.heap.Reaches (machine.registers.forget.values.filterMap Value.slot?) slot

theorem anchors_of_mem {machine : Machine} {value : Value}
    (member : value ∈ machine.registers.forget.values) (held : machine.heap.Holds value) :
    machine.Anchors value := by
  intro slot same
  rcases same with rfl
  exact .seed (List.mem_filterMap.mpr ⟨_, member, rfl⟩) held

theorem anchors_of_fetch {machine : Machine} (closed : machine.heap.Closed) {object value : Value}
    {index : Nat} (anchored : machine.Anchors object)
    (found : machine.heap.fetch object index = .ok value) : machine.Anchors value := by
  intro next same
  rcases same with rfl
  rcases Heap.mem_references_of_fetch found with ⟨owner, here, member⟩
  cases object with
  | small n => cases here
  | object slot =>
    exact .step (anchored slot rfl) here (Heap.mem_successors_iff.mpr member)
      (closed slot owner here _ member)

/-- What anchors a value lies in registers that were at most flushed and in objects
that are as they were. -/
theorem Anchors.replay {machine after : Machine} {value : Value} (anchored : machine.Anchors value)
    (flushed : Flushed machine.registers after.registers)
    (same : ∀ other, machine.Anchors other → after.heap.get? other = machine.heap.get? other) :
    after.Anchors value := by
  intro slot equal
  rcases equal with rfl
  have values : after.registers.forget.values = machine.registers.forget.values :=
    flushed.values_flush
  rw [values]
  refine (anchored slot rfl).replay fun {other} reached => same (.object other) ?_
  rintro _ ⟨⟩
  exact reached

theorem Within.sees_of_anchors {scope : Scope} {machine : Machine} (within : machine.Within scope)
    {value : Value} (anchored : machine.Anchors value) : scope.Sees value := by
  cases value with
  | small n => exact .small n
  | object slot =>
    exact .object (within.heap.visible_of_reaches within.registers.sees_forget (anchored slot rfl))

/-- How a machine comes out of an allocation that answers a value. -/
structure Gains (scope : Scope) (machine : Machine) (value : Value) (later : Scope)
    (after : Machine) : Prop where
  narrows : later.Narrows scope
  within : after.Within later
  sees : later.Sees value
  flushed : Flushed machine.registers after.registers
  fresh : ∀ other, machine.Anchors other → other ≠ value
  kept : ∀ other, machine.Anchors other → later.Sees other
  same : ∀ other, machine.Anchors other → after.heap.get? other = machine.heap.get? other

end Machine

namespace Run

variable {α β : Type} {scope : Scope}

/-! ## Making objects -/

/-- What a registration leaves: the new object is in sight, and so is what was
anchored. -/
theorem register_ensures {machine : Machine} (within : machine.Within scope) {object : HeapObject}
    (seen : scope.SeesInto object) :
    (register object).Ensures machine fun value after =>
      ∃ later, machine.Gains scope value later after := by
  refine (ensures_onHeap machine _).mono ?_
  intro value _ ended
  rcases ended with ⟨rooted, registered, rfl⟩
  obtain ⟨heap, slot, hash, rfl, survives, pending, places⟩ :=
    HeapM.register_cases within.heap.consistent registered
  rcases within.survives survives with ⟨collected, registers⟩
  have into : (scope.among heap).SeesInto object := by
    intro value member
    have sees := seen value member
    exact sees.among (pending value member (within.heap.holds sees))
  have different {other : Nat} (live : heap.Live other) : other ≠ slot := by
    intro equal
    rcases equal with rfl
    exact places.dead live
  have kept {other : Nat} (anchored : machine.Anchors (.object other)) : heap.Live other :=
    survives.live_of_reaches (anchored other rfl)
  refine ⟨(scope.among heap).reveal (· = slot),
    { narrows := (Scope.Narrows.reveal _ _).trans (.among _ _)
      within := ⟨collected.places places into, registers.reveal ?_⟩
      sees := .object (.inr rfl)
      flushed := survives.flushed
      fresh := ?_
      kept := ?_
      same := ?_ }⟩
  · exact fun other _ spare same => (different spare.2 same).elim
  · intro _ anchored equal
    rcases equal with rfl
    exact different (kept anchored) rfl
  · intro other anchored
    have seen := within.sees_of_anchors anchored
    cases other with
    | small n => exact .small n
    | object other => exact (seen.among (kept anchored)).reveal _
  · intro other anchored
    cases other with
    | small n => rfl
    | object other =>
      have live := kept anchored
      exact (places.others other (different live)).trans (survives.cell other live)

theorem register_moves {object : HeapObject} (seen : scope.SeesInto object) :
    Moves scope (register object) fun later value => later.Sees value :=
  fun _ within => (register_ensures within seen).mono
    fun _ _ ⟨later, gains⟩ _ => ⟨later, gains.narrows, gains.within, gains.sees⟩

theorem onHeap_read {query : Heap → Except MemoryError α} {next : α → HeapM Registers β} :
    onHeap (HeapM.read query >>= next) = readHeap query >>= fun result => onHeap (next result) := by
  funext machine
  simp only [onHeap, readHeap, HeapM.read, bind, EStateM.bind, HeapM.get_apply]
  cases query machine.heap <;> rfl

/-- A new instance refers to its class, and otherwise to nil at most. -/
theorem seesInto_instantiate {species nil : Value} (seen : scope.Sees species)
    (none : scope.Sees nil) (format : ClassFormat) (size : Nat) :
    scope.SeesInto (format.instantiate species size nil) := by
  rw [ClassFormat.instantiate]
  split
  · apply Scope.seesInto_of_pointers seen rfl
    intro value member
    rw [Array.eq_of_mem_replicate member]
    exact none
  · split
    · exact Scope.seesInto_of_raw seen rfl
    · split
      · exact Scope.seesInto_of_raw seen rfl
      · apply Scope.seesInto_of_pointers seen rfl
        intro value member
        rw [Array.mem_singleton.mp member]
        exact scope.sees_zero

theorem instantiate_ensures {machine : Machine} (within : machine.Within scope)
    {species nil : Value} (seen : scope.Sees species) (none : scope.Sees nil) (size : Nat) :
    (onHeap (HeapM.instantiate species size nil)).Ensures machine fun value after =>
      ∃ later, machine.Gains scope value later after := by
  rw [HeapM.instantiate, onHeap_read]
  refine (ensures_readHeap machine _).bindTo fun description _ => ?_
  cases description.int? with
  | none => exact fun _ _ absurd => nomatch absurd
  | some bits => exact register_ensures within (seesInto_instantiate seen none _ size)

theorem instantiate_moves {species nil : Value} (seen : scope.Sees species)
    (none : scope.Sees nil) (size : Nat) :
    Moves scope (onHeap (HeapM.instantiate species size nil)) fun later value =>
      later.Sees value :=
  fun _ within => (instantiate_ensures within seen none size).mono
    fun _ _ ⟨later, gains⟩ _ => ⟨later, gains.narrows, gains.within, gains.sees⟩

theorem copy_moves {object : Value} (seen : scope.Sees object) :
    Moves scope (onHeap (HeapM.copy object)) fun later value => later.Sees value := by
  rw [HeapM.copy, onHeap_read]
  exact (object_stays seen).bindMoves fun _ into => register_moves into

/-! ## Collecting -/

theorem collect_moves {change : Rooted Registers → Rooted Registers}
    (survives : ∀ rooted : Rooted Registers, rooted.heap.Consistent →
      rooted.Survives (change rooted)) :
    Moves scope (collect change) fun _ _ => True :=
  fun machine within => (ensures_modify machine _).mono <| by
    intro _ _ same _
    rcases same with rfl
    rcases within.survives (survives _ within.heap.consistent) with ⟨heap, registers⟩
    exact ⟨_, .among scope _, ⟨heap, registers⟩, trivial⟩

/-! ## Taking free contexts -/

theorem takeFreeContext_ensures {machine : Machine} (within : machine.Within scope)
    (large : Bool) :
    (takeFreeContext large).Ensures machine fun taken after =>
      after.heap = machine.heap ∧ after.registers.forget = machine.registers.forget ∧
        after.registers.Within scope ∧ ∀ context, taken = some context →
          scope.Recyclable context ∧ (scope.recycling ∨ context ∉ after.registers.free) := by
  refine (ensures_getRegisters machine).bindExactly ?_
  cases large with
  | false =>
    cases listed : machine.registers.freeContexts with
    | nil => exact .pure ⟨rfl, rfl, within.registers, by simp⟩
    | cons context rest =>
      rcases within.registers.take context []
        (rest ++ machine.registers.freeLargeContexts) rest machine.registers.freeLargeContexts
        (by simp [Registers.free, listed]) rfl with ⟨inside, recyclable, once⟩
      refine (ensures_get machine).bindExactly ?_
      refine (ensures_set _ _).bindChange fun _ => ?_
      refine .pure ⟨rfl, rfl, inside, ?_⟩
      intro _ same
      cases same
      exact ⟨recyclable, once⟩
  | true =>
    cases listed : machine.registers.freeLargeContexts with
    | nil => exact .pure ⟨rfl, rfl, within.registers, by simp⟩
    | cons context rest =>
      obtain ⟨inside, recyclable, once⟩ := within.registers.take context
        machine.registers.freeContexts rest machine.registers.freeContexts rest
        (by simp [Registers.free, listed]) rfl
      refine (ensures_get machine).bindExactly ?_
      refine (ensures_set _ _).bindChange fun _ => ?_
      refine .pure ⟨rfl, rfl, inside, ?_⟩
      intro _ same
      cases same
      exact ⟨recyclable, once⟩

/-- A context that is filled with nil comes into sight. -/
theorem refill {machine : Machine} (heap : machine.heap.Within scope)
    (registers : machine.registers.Within scope) {context : Value}
    (recyclable : scope.Recyclable context)
    (once : scope.recycling ∨ context ∉ machine.registers.free) {object : HeapObject}
    (found : machine.heap.get? context = some object) {nil : Value} (none : scope.Sees nil) :
    ∃ later : Scope, later.Narrows scope ∧ later.Sees context ∧
      (∀ value, scope.Sees value → later.Sees value) ∧ { machine with
        heap := machine.heap.updateBody context
          (·.mapPointers (·.map fun _ => nil)) }.Within later := by
  have filled (body : Body) :
      ∀ value ∈ ((body.mapPointers (·.map fun _ => nil)).pointers?.getD #[]).toList,
        value = nil := by
    intro value member
    rw [Body.pointers?_mapPointers] at member
    cases pointers : body.pointers? with
    | none => simp [pointers] at member
    | some fields =>
      simp only [pointers, Option.map_some, Option.getD_some, Array.toList_map, List.mem_map]
        at member
      rcases member with ⟨_, _, same⟩
      exact same.symm
  have blank := heap.updateBody context (·.mapPointers (·.map fun _ => nil))
    fun old value member => .inr (filled old value member ▸ none)
  cases context with
  | small n => cases found
  | object slot =>
  rcases recyclable slot rfl with spare | ⟨recycling, visible⟩
  · refine ⟨scope.reveal (· = slot), .reveal _ _, .object (.inr rfl),
      fun value seen => seen.reveal _, blank.reveal ?_ ?_, registers.reveal ?_⟩
    · intro slot equal
      rcases equal with rfl
      exact (blank.live_iff slot).mpr (.inr (blank.spare slot spare))
    · intro slot new equal here value member
      rcases equal with rfl
      rcases List.mem_cons.mp member with rfl | inside
      · exact (blank.species slot new spare here).reveal _
      · have same := here.symm.trans (machine.heap.get?_update_same (.object slot) _)
        rcases Option.map_eq_some_iff.mp same.symm with ⟨old, -, rfl⟩
        rw [filled old.body value inside]
        exact none.reveal _
    · intro slot member _ equal
      rcases equal with rfl
      exact once.resolve_right fun absent => absent member
  · exact ⟨scope, .refl scope, .object visible, fun _ seen => seen, blank, registers⟩

/-- A context to be used for a new frame comes into sight, and what was anchored
remains there. -/
theorem newContext_ensures {machine : Machine} (within : machine.Within scope) (large : Bool) :
    (newContext large).Ensures machine fun context after =>
      ∃ later : Scope, later.Narrows scope ∧ after.Within later ∧ later.Sees context ∧
        ∀ other, machine.Anchors other → later.Sees other := by
  refine (ensures_getNil machine).bindExactly ?_
  refine (takeFreeContext_ensures within large).bind
    fun taken after ⟨same, forgotten, registers, free⟩ => ?_
  have heap : after.heap.Within scope := same ▸ within.heap
  have none : scope.Sees machine.registers.specials.nil := within.registers.sees_nil
  have anchors {value : Value} (anchored : machine.Anchors value) : after.Anchors value := by
    rw [Machine.Anchors, same, forgotten]
    exact anchored
  cases taken with
  | some context =>
    rcases free context rfl with ⟨recyclable, once⟩
    refine (Ensures.discard ((ensures_readHeap after _).mono ?_)).bind
      fun _ last (read : (∃ object, after.heap.get? context = some object) ∧ last = after) => ?_
    · intro object _ ended
      rcases ended with ⟨found, rfl⟩
      exact ⟨⟨object, Heap.object_eq_ok_iff.mp found⟩, rfl⟩
    · rcases read with ⟨⟨object, found⟩, rfl⟩
      refine (ensures_modifyHeap last _).bindChange fun _ => ?_
      obtain ⟨later, narrows, seen, more, inside⟩ :=
        refill heap registers recyclable once found none
      exact .pure ⟨later, narrows, inside, seen, fun other anchored =>
        more other (within.sees_of_anchors anchored)⟩
  | none =>
    refine (ensures_get after).bindExactly ?_
    refine (ensures_getRegisters after).bindExactly ?_
    refine (register_ensures ⟨heap, registers⟩ ?_).mono
      fun context last ⟨later, gains⟩ => ⟨later, gains.narrows, gains.within, gains.sees,
        fun other anchored => gains.kept other (anchors anchored)⟩
    apply Scope.seesInto_of_pointers (registers.specials _ (by simp [Specials.values])) rfl
    intro value member
    rw [Array.eq_of_mem_replicate member]
    exact none

end Run

end Smalltalk
