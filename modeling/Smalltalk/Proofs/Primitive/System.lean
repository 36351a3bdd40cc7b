import Smalltalk.Primitive.Allocation
import Smalltalk.Primitive.Devices
import Smalltalk.Primitive.System
import Smalltalk.Proofs.Heap.Substitution
import Smalltalk.Proofs.Machine.Lookup
import Smalltalk.Proofs.Primitive.Basic

namespace Smalltalk

/-! The primitives of identity, memory, allocation and of the devices. -/

namespace Heap.Within

variable {scope : Scope} {heap : Heap}

/-- Redirecting references among the objects in sight. -/
theorem rename (within : heap.Within scope) {redirect : Nat → Nat}
    (visible : ∀ slot, scope.visible slot → scope.visible (redirect slot))
    (live : ∀ slot, heap.Live slot → heap.Live (redirect slot)) :
    (heap.rename redirect).Within scope := by
  have tabled := within.consistent.toTabled
  have sees {value : Value} (seen : scope.Sees value) : scope.Sees (value.rename redirect) := by
    cases seen with
    | small n => exact .small n
    | object before => exact .object (visible _ before)
  have origin {slot : Nat} {object : HeapObject}
      (found : (heap.rename redirect).cell? slot = some object) :
      ∃ old, heap.cell? slot = some old ∧ old.rename redirect = object := by
    rw [Heap.cell?_rename tabled] at found
    exact Option.map_eq_some_iff.mp found
  refine
    { consistent := Heap.consistent_rename within.consistent redirect
      closed := ?_
      live_iff := fun slot =>
        (Heap.live_rename_iff tabled redirect slot).trans (within.live_iff slot)
      apart := within.apart
      sees := ?_
      spare := within.spare
      species := ?_ }
  · intro slot object found value member
    rcases origin found with ⟨old, here, rfl⟩
    rw [HeapObject.references_rename] at member
    rcases List.mem_map.mp member with ⟨before, inside, rfl⟩
    cases before with
    | small n => trivial
    | object next =>
      have held : heap.Live next := within.closed slot old here (.object next) inside
      exact (Heap.live_rename_iff tabled redirect _).mpr (live next held)
  · intro slot object seen found value member
    rcases origin found with ⟨old, here, rfl⟩
    rw [HeapObject.references_rename] at member
    rcases List.mem_map.mp member with ⟨before, inside, rfl⟩
    exact sees (within.sees slot old seen here before inside)
  · intro slot object spare found
    rcases origin found with ⟨old, here, rfl⟩
    exact sees (within.species slot old spare here)

end Heap.Within

instance : RenamableRootSet Registers where
  values_flush_rename redirect registers := by
    change (registers.map (Value.rename redirect)).forget.values
      = registers.forget.values.map (Value.rename redirect)
    rw [Registers.values_forget, Registers.values_forget, List.map_append, List.map_append]
    rfl

theorem Registers.Within.rename {scope : Scope} {registers : Registers}
    (within : registers.Within scope) {redirect : Nat → Nat}
    (visible : ∀ slot, scope.visible slot → scope.visible (redirect slot)) :
    (registers.map (Value.rename redirect)).forget.Within scope := by
  have sees {value : Value} (seen : scope.Sees value) : scope.Sees (value.rename redirect) := by
    cases seen with
    | small n => exact .small n
    | object before => exact .object (visible _ before)
  have renamed : (registers.map (Value.rename redirect)).forget.forget.values
      = registers.forget.values.map (Value.rename redirect) :=
    (LawfulRootSet.values_flush_flush (registers.map (Value.rename redirect))).trans
      (RenamableRootSet.values_flush_rename redirect registers)
  apply of_forget
  · intro value member
    rw [renamed] at member
    rcases List.mem_map.mp member with ⟨before, inside, rfl⟩
    exact sees (within.sees_forget before inside)
  · simp [Registers.forget]
  · simp [Registers.forget]
  · simp [Registers.forget, Registers.free]
  · exact .inr (by simp [Registers.forget, Registers.free])

namespace Reply

open Run

variable {scope : Scope}

/-! ## Caches -/

theorem flushCaches_stays : Stays scope flushCaches fun _ => True := by
  refine .bind (modifyRegisters_stays fun _ within => ?_) fun _ _ => .pure trivial
  exact { within with methodCache := by simp, atCache := by simp }

theorem flushMethod_stays (count : Nat) : Stays scope (flushMethod count) fun _ => True := by
  apply (receiverOf_stays count).bind
  intro method _
  refine .bind (modifyRegisters_stays fun _ within => ?_) fun _ _ => .pure trivial
  exact { within with
    methodCache := fun value member => within.methodCache value (MethodCache.values_forget member)
    atCache := by simp }

theorem flushSelector_stays (count : Nat) : Stays scope (flushSelector count) fun _ => True := by
  apply (receiverOf_stays count).bind
  intro selector _
  refine .bind (modifyRegisters_stays fun _ within => ?_) fun _ _ => .pure trivial
  exact { within with
    methodCache := fun value member => within.methodCache value (MethodCache.values_forget member)
    atCache := by simp }

/-! ## Identity -/

theorem identical_stays (count : Nat) : Stays scope (identical count) fun _ => True := by
  refine .ite (fun _ => .pure trivial) fun _ => (receiverOf_stays count).bind fun _ _ => ?_
  apply (argument_stays count 0).bind
  intro _ _
  refine (booleanObject_stays _).bind fun _ seen => ?_
  exact succeed_stays count seen

theorem species_stays (count : Nat) : Stays scope (species count) fun _ => True :=
  (receiverOf_stays count).bind fun _ seen =>
    (classOf_stays seen).bind fun _ found => succeed_stays count found

theorem arrayOperands_stays (count : Nat) :
    Stays scope (arrayOperands count) fun operands =>
      ∀ sources targets, operands = some (sources, targets) →
        ∀ value ∈ sources ++ targets, scope.Sees value := by
  have elements {array : Value} (seen : scope.Sees array) (arrayClass : Value) : Stays scope (do
      if array.isSmall then return none
      if (← classOf array) ≠ arrayClass then return none
      return some ((← object array).pointers?.getD #[]).toList) fun found =>
        ∀ values, found = some values → ∀ value ∈ values, scope.Sees value := by
    refine .ite (fun _ => .pure (by simp)) fun _ => (classOf_stays seen).bind fun species _ => ?_
    refine .ite (fun _ => .pure (by simp)) fun _ => (object_stays seen).bind fun owner into => ?_
    refine .pure ?_
    intro _ same value member
    cases same
    exact into value (List.mem_cons_of_mem _ member)
  apply (receiverOf_stays count).bind
  intro receiver seen
  apply (argument_stays count 0).bind
  intro argument known
  refine getRegisters_stays.bind fun _ _ => ?_
  apply (elements seen _).bind
  intro sources fromReceiver
  cases sources with
  | none => exact .pure (by simp)
  | some sources =>
    apply (elements known _).bind
    intro targets fromArgument
    cases targets with
    | none => exact .pure (by simp)
    | some targets =>
      refine .pure ?_
      intro _ _ ended value member
      cases ended
      exact (List.mem_append.mp member).elim (fromReceiver _ rfl value) (fromArgument _ rfl value)

theorem become_stays (twoWay : Bool) (count : Nat) :
    Stays scope (become twoWay count) fun _ => True := by
  refine .ite (fun _ => .pure trivial) fun _ => (arrayOperands_stays count).bind ?_
  intro either seen
  rcases either with - | ⟨sources, targets⟩
  · exact .pure trivial
  · intro machine within
    refine (ensures_get machine).bindExactly ?_
    cases changed : Rooted.become ⟨machine.heap, machine.registers⟩ sources targets twoWay with
    | error reason => exact .pure ⟨within, trivial⟩
    | ok after =>
      rcases bind_eq_ok_iff.mp changed with ⟨redirection, accepted, same⟩
      cases same
      have leads := Heap.redirection_apply accepted
      have visible (slot : Nat) (before : scope.visible slot) :
          scope.visible (redirection.apply slot) := by
        rcases leads slot with same | ⟨member, -⟩
        · rw [same]
          exact before
        · exact (scope.sees_object _).mp (seen _ _ rfl _ member)
      have live (slot : Nat) (before : machine.heap.Live slot) :
          machine.heap.Live (redirection.apply slot) := by
        rcases leads slot with same | ⟨-, there⟩
        · rw [same]
          exact before
        · exact there
      refine (ensures_set machine _).bindChange fun _ => ?_
      exact succeedSelf_stays count _
        ⟨within.heap.rename visible live, within.registers.rename visible⟩

theorem specialObjectsArray_stays (count : Nat) :
    Stays scope (specialObjectsArray count) fun _ => True :=
  getRegisters_stays.bind fun _ within =>
    succeed_stays count (within.specials _ (by simp [Specials.values]))

/-! ## Memory -/

theorem slotsLeft_stays (count : Nat) : Stays scope (slotsLeft count) fun _ => True :=
  getHeap_stays.bind fun _ _ => succeed_stays count (scope.sees_ofInt _)

theorem fullCollection_moves (count : Nat) :
    Moves scope (fullCollection count) fun _ _ => True :=
  (collect_moves fun _ => Rooted.survives_fullCollect).bind
    fun _ _ _ => (slotsLeft_stays count).moves

theorem partialCollection_moves (count : Nat) :
    Moves scope (partialCollection count) fun _ _ => True :=
  (collect_moves fun _ => Rooted.survives_partialCollect).bind
    fun _ _ _ => (slotsLeft_stays count).moves

/-! ## Time -/

theorem millisecondClock_stays (count : Nat) :
    Stays scope (millisecondClock count) fun _ => True :=
  Run.millisecondClock_stays.bind fun _ _ => succeed_stays count (scope.sees_ofInt _)

theorem secondsClock_moves (count : Nat) : Moves scope (secondsClock count) fun _ _ => True :=
  get_stays.bindMoves fun _ _ => succeed_moves count (wordObject_moves _)

theorem signalAt_stays (count : Nat) : Stays scope (signalAt count) fun _ => True := by
  refine .ite (fun _ => .pure trivial) fun _ => ?_
  apply (argument_stays count 0).bind
  intro semaphore seen
  apply (argument_stays count 1).bind
  intro tick _
  cases tick.int? with
  | none => exact .pure trivial
  | some tick =>
    refine .ite (fun _ => .pure trivial) fun _ => getRegisters_stays.bind fun registers _ => ?_
    apply (store_stays _ _ seen).bind
    intro _ _
    refine .bind (modify_stays fun _ within => ⟨within.heap, within.registers⟩) fun _ _ => ?_
    exact succeedSelf_stays count

theorem quit_stays : Stays scope quit fun _ => True :=
  .bind (modify_stays fun _ within => ⟨within.heap, within.registers⟩) fun _ _ => .pure trivial

/-! ## Devices -/

theorem beCursor_stays (count : Nat) : Stays scope (beCursor count) fun _ => True := by
  have setShape (shape : Bitmap) (mask : Option (Array UInt32)) : Stays scope (do
      modify fun machine => { machine with screen := machine.screen.setCursor shape.words mask }
      drop count
      return true) fun _ => True :=
    .bind (modify_stays fun _ within => ⟨within.heap, within.registers⟩) fun _ _ =>
      succeedSelf_stays count
  refine .ite (fun _ => .pure trivial) fun _ => getHeap_stays.bind fun heap _ => ?_
  apply (receiverOf_stays count).bind
  intro form _
  cases bitmap? heap form with
  | none => exact .pure trivial
  | some shape =>
    refine .ite (fun _ => setShape shape none) fun _ => getHeap_stays.bind fun heap _ => ?_
    apply (argument_stays count 0).bind
    intro form _
    cases bitmap? heap form with
    | none => exact .pure trivial
    | some mask => exact setShape shape mask.words

theorem showBitmap_stays (bitmap : Bitmap) : Stays scope (showBitmap bitmap) fun _ => True :=
  modify_stays fun _ within => ⟨within.heap, within.registers⟩

theorem beDisplay_stays (count : Nat) : Stays scope (beDisplay count) fun _ => True := by
  apply (receiverOf_stays count).bind
  intro form seen
  refine getHeap_stays.bind fun heap _ => ?_
  cases bitmap? heap form with
  | none => exact .pure trivial
  | some bitmap =>
    apply (showBitmap_stays bitmap).bind
    intro _ _
    refine getRegisters_stays.bind fun registers _ => ?_
    exact (store_stays _ _ seen).bind fun _ _ => succeedSelf_stays count

theorem forceDisplay_stays (count : Nat) : Stays scope (forceDisplay count) fun _ => True := by
  apply (specialObject_stays _).bind
  intro form _
  refine getHeap_stays.bind fun heap _ => ?_
  cases bitmap? heap form with
  | none => exact succeedSelf_stays count
  | some bitmap => exact (showBitmap_stays bitmap).bind fun _ _ => succeedSelf_stays count

theorem screenSize_moves (count : Nat) : Moves scope (screenSize count) fun _ _ => True :=
  get_stays.bindMoves fun _ _ =>
    succeed_moves count (makePoint_moves (scope.sees_ofSigned _) (scope.sees_ofSigned _))

theorem mousePoint_moves (count : Nat) : Moves scope (mousePoint count) fun _ _ => True := by
  apply get_stays.bindMoves
  intro machine _
  dsimp only
  split
  · rename_i x y isX isY
    exact succeed_moves count (makePoint_moves (Scope.sees_ofInt? isX) (Scope.sees_ofInt? isY))
  · exact .pure trivial

theorem setMousePoint_stays (count : Nat) : Stays scope (setMousePoint count) fun _ => True := by
  refine .ite (fun _ => .pure trivial) fun _ => getHeap_stays.bind fun heap _ => ?_
  apply (argument_stays count 0).bind
  intro point _
  rcases coordinates? heap point with - | ⟨x, y⟩
  · exact .pure trivial
  · exact .bind (modify_stays fun _ within => ⟨within.heap, within.registers⟩) fun _ _ =>
      succeedSelf_stays count

theorem mouseButtons_stays (count : Nat) : Stays scope (mouseButtons count) fun _ => True :=
  get_stays.bind fun _ _ => succeed_stays count (scope.sees_ofSigned _)

theorem keyObject_stays (key : Option UInt32) : Stays scope (keyObject key) scope.Sees := by
  cases key with
  | none => exact getNil_stays
  | some code => exact .pure (scope.sees_ofSigned code)

theorem nextKey_stays (count : Nat) : Stays scope (nextKey count) fun _ => True := by
  have kept (next : InputQueue → Option UInt32 × InputQueue) : Stays scope
      (modifyGet fun machine => ((next machine.input).1,
        { machine with input := (next machine.input).2 })) fun _ => True :=
    modifyGet_stays fun _ within => ⟨trivial, within.heap, within.registers⟩
  exact (kept InputQueue.nextKey).bind fun key _ =>
    (keyObject_stays key).bind fun _ seen => succeed_stays count seen

theorem peekKey_stays (count : Nat) : Stays scope (peekKey count) fun _ => True :=
  get_stays.bind fun _ _ => (keyObject_stays _).bind fun _ seen => succeed_stays count seen

end Reply

end Smalltalk
