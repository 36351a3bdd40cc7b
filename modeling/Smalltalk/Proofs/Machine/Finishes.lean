import Smalltalk.Proofs.Heap.Chains
import Smalltalk.Proofs.Machine.References
import Smalltalk.Proofs.Machine.Stops

namespace Smalltalk

/-! Only three walks of the machine follow links for as long as there are any: that from a
class to its last superclass, that from a class to one it inherits from, and that from a
context to its last sender. They come to an end unless the links lead back to where they
came from. Everything else comes to an end by itself, apart from messages within messages. -/

namespace Heap

/-- A field of an object holds a value. -/
def Links (heap : Heap) (index : Nat) (object value : Value) : Prop :=
  heap.fetch object index = .ok value

theorem links_live {heap : Heap} {index : Nat} {values : List Value}
    (chain : values.IsChain (heap.Links index)) :
    ∀ value ∈ values.dropLast, ∃ object, heap.get? value = some object := by
  induction values with
  | nil => exact fun _ member => absurd member List.not_mem_nil
  | cons first rest induction =>
    cases rest with
    | nil => exact fun _ member => absurd member List.not_mem_nil
    | cons second rest =>
      rcases List.isChain_cons_cons.mp chain with ⟨leads, further⟩
      rw [List.dropLast_cons_cons]
      refine List.forall_mem_cons.mpr ⟨?_, induction further⟩
      rcases mem_references_of_fetch leads with ⟨object, here, -⟩
      exact ⟨object, here⟩

/-- Who follows a field more often than there are cells goes in a circle. -/
theorem circular_of_long {heap : Heap} {index : Nat} {start : Value} {values : List Value}
    (chain : (start :: values).IsChain (heap.Links index))
    (long : heap.cells.size < values.length) : start.EntersCircle (heap.Links index) := by
  cases values with
  | nil => exact absurd long (Nat.not_lt_zero _)
  | cons next rest =>
    have live := links_live chain
    rw [List.dropLast_cons_cons] at live
    have front : (start :: (next :: rest).dropLast).IsChain (heap.Links index) := by
      refine chain.prefix ?_
      exact List.dropLast_cons_cons ▸ List.dropLast_prefix _
    refine entersCircle_of_long front live ?_
    rw [List.length_dropLast, List.length_cons] at *
    omega

end Heap

namespace Machine

/-- The classes in which a search for a method may start: that of the message being sent and
that of any object. -/
inductive SearchStart (machine : Machine) : (species : Value) → Prop
  | sent : SearchStart machine machine.registers.lookupClass
  | small : SearchStart machine machine.registers.specials.smallIntegerClass
  | object {value : Value} {object : HeapObject} (here : machine.heap.get? value = some object) :
      SearchStart machine object.species

/-- A class in which a search may arrive. -/
def Climbs (machine : Machine) (species : Value) : Prop :=
  ∃ start, machine.SearchStart start ∧
    Relation.ReflTransGen (machine.heap.Links ClassField.superclass) start species

variable {before after : Machine} {species : Value}

theorem SearchStart.climbs (searches : before.SearchStart species) : before.Climbs species :=
  ⟨species, searches, .refl⟩

theorem Climbs.further (climbs : before.Climbs species) {ancestor : Value}
    (reached : Relation.ReflTransGen (before.heap.Links ClassField.superclass) species ancestor) :
    before.Climbs ancestor := by
  rcases climbs with ⟨start, searches, early⟩
  exact ⟨start, searches, early.trans reached⟩

theorem Climbs.of_same (climbs : before.Climbs species) (heap : after.heap = before.heap)
    (lookupClass : after.registers.lookupClass = before.registers.lookupClass)
    (specials : after.registers.specials = before.registers.specials) : after.Climbs species := by
  rcases climbs with ⟨start, searches, reached⟩
  refine ⟨start, ?_, by rwa [heap]⟩
  cases searches with
  | sent => exact lookupClass ▸ .sent
  | small => exact specials ▸ .small
  | object here => exact .object (by rwa [heap])

end Machine

/-- Whether a computation had to stop there: not for a walk that could have gone on to its
end, and not for messages that are nested too deep. -/
def Stop.Due : Stop → Machine → Prop
  | .error _, _ => True
  | .undefinedOperand, _ => True
  | .endlessChain, machine =>
    (∃ species, machine.SearchStart species ∧
        species.EntersCircle (machine.heap.Links ClassField.superclass)) ∨
      machine.registers.activeContext.EntersCircle (machine.heap.Links ContextField.sender)
  | .nestedTooDeep, _ => False

theorem Machine.Climbs.due {machine : Machine} {species : Value} (climbs : machine.Climbs species)
    (circle : species.EntersCircle (machine.heap.Links ClassField.superclass)) :
    Stop.Due .endlessChain machine := by
  rcases climbs with ⟨start, searches, reached⟩
  exact .inl ⟨start, searches, circle.of_reached reached⟩

namespace Run

variable {α β : Type}

/-- If the computation stops, it had to. -/
def Finishes (run : Run α) : Prop := ∀ machine, Stops Stop.Due run machine

namespace Finishes

variable {run : Run α} {next : α → Run β}

theorem bind (first : Finishes run) (second : ∀ result, Finishes (next result)) :
    Finishes (run >>= next) :=
  fun machine => (first machine).andThen fun result after => second result after

theorem andThen {run : Run Unit} {next : Unit → Run β} (first : Finishes run)
    (second : Finishes (next ())) : Finishes (run >>= next) := first.bind fun _ => second

theorem pure {result : α} : Finishes (Pure.pure result : Run α) := fun _ => .pure

theorem fail {reason : MachineError} : Finishes (Run.fail reason : Run α) := fun _ => .fail trivial

theorem throw : Finishes (MonadExcept.throw Stop.undefinedOperand : Run α) :=
  fun _ => .throw trivial

theorem throwThen {next : β → Run α} :
    Finishes ((MonadExcept.throw Stop.undefinedOperand : Run β) >>= next) :=
  fun _ => .throwThen trivial

theorem failThen {reason : MachineError} {next : β → Run α} :
    Finishes (Run.fail reason >>= next) := fun _ => .failThen trivial

theorem discard (finishes : Finishes run) : Finishes (Functor.discard run) :=
  fun machine => (finishes machine).discard

theorem ite {condition : Prop} [Decidable condition] {first second : Run α}
    (yes : condition → Finishes first) (no : ¬ condition → Finishes second) :
    Finishes (if condition then first else second) :=
  fun machine => .ite (fun holds => yes holds machine) fun fails => no fails machine

end Finishes

/-! ## The machine itself -/

theorem get_finishes : Finishes (get : Run Machine) := fun _ => .of_ok rfl

theorem set_finishes {machine : Machine} : Finishes (set machine : Run Unit) := fun _ => .of_ok rfl

theorem modify_finishes {change : Machine → Machine} : Finishes (modify change : Run Unit) :=
  fun _ => .of_ok rfl

theorem modifyGet_finishes {change : Machine → α × Machine} :
    Finishes (modifyGet change : Run α) := fun _ => .of_ok rfl

theorem getRegisters_finishes : Finishes getRegisters := fun _ => .of_ok rfl

theorem getHeap_finishes : Finishes getHeap := fun _ => .of_ok rfl

theorem modifyRegisters_finishes {change : Registers → Registers} :
    Finishes (modifyRegisters change) := modify_finishes

theorem modifyHeap_finishes {change : Heap → Heap} : Finishes (modifyHeap change) :=
  modify_finishes

theorem collect_finishes {change : Rooted Registers → Rooted Registers} :
    Finishes (collect change) := modify_finishes

/-! ## The heap -/

theorem readHeap_finishes {query : Heap → Except MemoryError α} : Finishes (readHeap query) :=
  fun machine => readHeap_stops (fun _ _ => trivial) query machine

theorem onHeap_finishes {run : HeapM Registers α} : Finishes (onHeap run) :=
  fun machine => onHeap_stops (fun _ _ => trivial) run machine

theorem store_finishes {object : Value} {index : Nat} {value : Value} :
    Finishes (store object index value) :=
  fun machine => store_stops (fun _ _ => trivial) object index value machine

theorem fetch_finishes {object : Value} {index : Nat} : Finishes (fetch object index) :=
  readHeap_finishes

/-! ## Walks -/

section

variable {machine : Machine} {behind : List Value} {budget : Nat} {here : Value}

/-- A walk has come from its start through `behind`. With the steps that it may still take
it is longer than there are cells. -/
structure Walking (heap : Heap) (index : Nat) (origin : Value) (behind : List Value) (here : Value)
    (budget : Nat) : Prop where
  chain : (behind ++ [here]).IsChain (heap.Links index)
  first : (behind ++ [here]).head? = some origin
  long : heap.cells.size < behind.length + budget

namespace Walking

variable {heap : Heap} {index : Nat} {origin next : Value}

theorem start (heap : Heap) (index : Nat) (here : Value) :
    Walking heap index here [] here (heap.cells.size + 1) :=
  ⟨List.isChain_singleton here, rfl, by simp⟩

theorem further (walking : Walking heap index origin behind here (budget + 1))
    (leads : heap.fetch here index = .ok next) :
    Walking heap index origin (behind ++ [here]) next budget where
  chain := by
    refine List.isChain_append.mpr ⟨walking.chain, List.isChain_singleton next, ?_⟩
    intro last isLast first isFirst
    rw [List.getLast?_concat] at isLast
    cases isLast
    cases isFirst
    exact leads
  first := by rw [List.head?_append, walking.first, Option.some_or]
  long := by
    have := walking.long
    rw [List.length_append, List.length_singleton]
    omega

theorem circular (walking : Walking heap index origin behind here 0) :
    origin.EntersCircle (heap.Links index) := by
  rcases List.head?_eq_some_iff.mp walking.first with ⟨rest, same⟩
  refine Heap.circular_of_long (same ▸ walking.chain) ?_
  have length := congrArg List.length same
  have := walking.long
  simp only [List.length_append, List.length_cons, List.length_nil] at length
  omega

end Walking

theorem methodFrom_due {selector origin : Value} (climbs : machine.Climbs origin)
    (walking : Walking machine.heap ClassField.superclass origin behind here budget) :
    Stops Stop.Due (methodFrom selector budget here) machine := by
  induction budget generalizing machine behind here with
  | zero =>
    refine .bindOk getNil_apply (.ite (fun _ => .pure) fun _ => ?_)
    exact .throw (climbs.due walking.circular)
  | succ budget induction =>
    refine .bindOk getNil_apply (.ite (fun _ => .pure) fun _ => ?_)
    refine .bindOk (modifyRegisters_apply _) ?_
    refine .bind (fetch_finishes _) (ensures_fetch _ _ _) ?_
    rintro dictionary machine ⟨-, rfl⟩
    refine .bind (readHeap_finishes _) (ensures_readHeap _ _) ?_
    rintro method machine ⟨-, rfl⟩
    cases method with
    | some method => exact .pure
    | none =>
      refine .bind (fetch_finishes _) (ensures_fetch _ _ _) ?_
      rintro superclass machine ⟨leads, rfl⟩
      exact induction (climbs.of_same rfl rfl rfl) (walking.further leads)

/-- The search in the class of a value starts there. -/
theorem classOf_climbs (machine : Machine) (value : Value) :
    (classOf value).Ensures machine fun species after =>
      machine.Climbs species ∧ after = machine := by
  unfold classOf
  split
  · exact (ensures_getRegisters machine).bindExactly (.pure ⟨Machine.SearchStart.small.climbs, rfl⟩)
  · refine (ensures_readHeap machine _).bindTo fun object found => .pure ⟨?_, rfl⟩
    exact (Machine.SearchStart.object (Heap.object_eq_ok_iff.mp found)).climbs

theorem inheritsFrom_due {ancestor origin : Value} (climbs : machine.Climbs origin)
    (walking : Walking machine.heap ClassField.superclass origin behind here budget) :
    Stops Stop.Due (inheritsFrom ancestor budget here) machine := by
  induction budget generalizing behind here with
  | zero =>
    refine .bindOk getNil_apply (.ite (fun _ => .pure) fun _ => .ite (fun _ => .pure) fun _ => ?_)
    exact .throw (climbs.due walking.circular)
  | succ budget induction =>
    refine .bindOk getNil_apply (.ite (fun _ => .pure) fun _ => .ite (fun _ => .pure) fun _ => ?_)
    refine .bind (fetch_finishes _) (ensures_fetch _ _ _) ?_
    rintro superclass machine ⟨leads, rfl⟩
    exact induction (walking.further leads)

/-- What a class inherits from was reached from it. -/
theorem inheritsFrom_reaches {ancestor origin : Value}
    (reached : Relation.ReflTransGen (machine.heap.Links ClassField.superclass) origin here) :
    (inheritsFrom ancestor budget here).Ensures machine fun inherits after =>
      after = machine ∧ (inherits = true →
        Relation.ReflTransGen (machine.heap.Links ClassField.superclass) origin ancestor) := by
  induction budget generalizing here with
  | zero =>
    refine (ensures_getNil machine).bindTo fun nil _ => ?_
    split
    · exact .pure ⟨rfl, nofun⟩
    split
    · rename_i same
      exact .pure ⟨rfl, fun _ => same ▸ reached⟩
    · exact .throw
  | succ budget induction =>
    refine (ensures_getNil machine).bindTo fun nil _ => ?_
    split
    · exact .pure ⟨rfl, nofun⟩
    split
    · rename_i same
      exact .pure ⟨rfl, fun _ => same ▸ reached⟩
    · exact (ensures_fetch machine _ _).bindTo fun superclass leads =>
        induction (reached.tail leads)

theorem contextsAbove_due {target : Value}
    (walking : Walking machine.heap ContextField.sender machine.registers.activeContext behind here
      budget) :
    Stops Stop.Due (contextsAbove target budget here) machine := by
  induction budget generalizing behind here with
  | zero =>
    refine .ite (fun _ => .pure) fun _ => .bindOk getNil_apply ?_
    refine .ite (fun _ => .failThen trivial) fun _ => ?_
    exact .throw (.inr walking.circular)
  | succ budget induction =>
    refine .ite (fun _ => .pure) fun _ => .bindOk getNil_apply ?_
    refine .ite (fun _ => .failThen trivial) fun _ => ?_
    refine .bind (fetch_finishes _) (ensures_fetch _ _ _) ?_
    rintro sender machine ⟨leads, rfl⟩
    exact (induction (walking.further leads)).andThen fun _ _ => .pure

end

theorem lookupMethod_due {machine : Machine} {selector species : Value}
    (climbs : machine.Climbs species) :
    Stops Stop.Due (lookupMethod selector species) machine := by
  have asked : (cachedMethod selector species).Ensures machine fun _ after =>
      after.Climbs species := by
    refine (ensures_modifyGet machine _).mono ?_
    rintro _ _ ⟨⟩
    exact climbs.of_same rfl rfl rfl
  refine .bind (modifyGet_finishes _) asked fun cached counted climbs => ?_
  cases cached with
  | some entry => exact .pure
  | none =>
    refine .bindOk getHeap_apply ?_
    refine (methodFrom_due climbs (.start _ _ _)).andThen fun found after => ?_
    revert after
    cases found with
    | none => exact Finishes.pure
    | some method =>
      exact readHeap_finishes.bind fun header => modify_finishes.andThen .pure

theorem resolveMessage_due {machine : Machine} {species : Value} (climbs : machine.Climbs species) :
    Stops Stop.Due (resolveMessage species) machine := by
  refine .bindOk getRegisters_apply ((lookupMethod_due climbs).andThen fun found after => ?_)
  revert after
  cases found with
  | none => exact Finishes.pure
  | some entry => exact modifyRegisters_finishes.andThen .pure

end Run

end Smalltalk
