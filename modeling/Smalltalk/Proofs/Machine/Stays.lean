import Smalltalk.Proofs.Machine.Scope

namespace Smalltalk

/-! Computations that make no object and free none stay within a scope. Such a
computation is followed by what its parts answer: values that are visible. -/

namespace Run

variable {α β : Type} {scope : Scope}

/-- The computation leaves a machine in the scope it found it in, and its result
has a property. -/
abbrev Stays (scope : Scope) (run : Run α) (good : α → Prop) : Prop :=
  Maintains (Machine.Within scope) run good

/-! ## The machine itself -/

theorem get_stays : Stays scope (get : Run Machine) (Machine.Within scope) :=
  fun machine within => (ensures_get machine).mono <| by
    intro _ _ ended
    rcases ended with ⟨rfl, rfl⟩
    exact ⟨within, within⟩

theorem getRegisters_stays : Stays scope getRegisters (Registers.Within scope) :=
  get_stays.bind fun _ within => .pure within.registers

theorem getHeap_stays : Stays scope getHeap (Heap.Within scope) :=
  get_stays.bind fun _ within => .pure within.heap

/-- The devices and the counters are not part of a scope. -/
theorem modify_stays {change : Machine → Machine}
    (kept : ∀ machine, machine.Within scope → (change machine).Within scope) :
    Stays scope (modify change : Run Unit) fun _ => True :=
  fun machine within => (ensures_modify machine change).mono <| by
    intro _ _ same
    rcases same with rfl
    exact ⟨kept machine within, trivial⟩

theorem modifyGet_stays {change : Machine → α × Machine} {good : α → Prop}
    (kept : ∀ machine, machine.Within scope →
      good (change machine).1 ∧ (change machine).2.Within scope) :
    Stays scope (modifyGet change : Run α) good :=
  fun machine within => (ensures_modifyGet machine change).mono fun result after ended => by
    rcases kept machine within with ⟨found, stayed⟩
    rw [← ended] at found stayed
    exact ⟨stayed, found⟩

theorem modifyRegisters_stays {change : Registers → Registers}
    (kept : ∀ registers, registers.Within scope → (change registers).Within scope) :
    Stays scope (modifyRegisters change) fun _ => True :=
  modify_stays fun _ within => ⟨within.heap, kept _ within.registers⟩

theorem modifyHeap_stays {change : Heap → Heap}
    (kept : ∀ heap, heap.Within scope → (change heap).Within scope) :
    Stays scope (modifyHeap change) fun _ => True :=
  modify_stays fun _ within => ⟨kept _ within.heap, within.registers⟩

theorem readHeap_stays {query : Heap → Except MemoryError α} {good : α → Prop}
    (found : ∀ heap result, heap.Within scope → query heap = .ok result → good result) :
    Stays scope (readHeap query) good :=
  fun machine within => (ensures_readHeap machine query).mono <| by
    intro result _ ended
    rcases ended with ⟨answered, rfl⟩
    exact ⟨within, found _ result within.heap answered⟩

/-! ## Objects -/

theorem fetch_stays {object : Value} (seen : scope.Sees object) (index : Nat) :
    Stays scope (fetch object index) scope.Sees :=
  readHeap_stays fun _ _ within found => within.sees_fetch seen found

theorem fetchInt_stays (object : Value) (index : Nat) :
    Stays scope (fetchInt object index) fun _ => True :=
  readHeap_stays fun _ _ _ _ => trivial

theorem object_stays {value : Value} (seen : scope.Sees value) :
    Stays scope (object value) scope.SeesInto :=
  readHeap_stays fun _ _ within found =>
    within.seesInto seen (Heap.object_eq_ok_iff.mp found)

theorem store_stays (object : Value) (index : Nat) {value : Value} (seen : scope.Sees value) :
    Stays scope (store object index value) fun _ => True :=
  fun machine within => (ensures_store machine object index value).mono <| by
    intro _ _ ended
    rcases ended with ⟨-, rfl⟩
    exact ⟨⟨within.heap.setField object index seen, within.registers⟩, trivial⟩

theorem getNil_stays : Stays scope getNil scope.Sees :=
  getRegisters_stays.bind fun _ within => .pure within.sees_nil

theorem specialObject_stays (index : Nat) : Stays scope (specialObject index) scope.Sees :=
  getRegisters_stays.bind fun _ within =>
    fetch_stays (within.specials _ (by simp [Specials.values])) index

theorem methodHeader_stays (method : Value) :
    Stays scope (methodHeader method) fun _ => True := by
  apply (readHeap_stays fun _ _ _ _ => trivial).bind
  intro header _
  cases header with
  | none => exact .fail
  | some header => exact .pure trivial

theorem classOf_stays {value : Value} (seen : scope.Sees value) :
    Stays scope (classOf value) scope.Sees := by
  refine .ite (fun _ => ?_) fun _ => ?_
  · exact getRegisters_stays.bind fun _ within =>
      .pure (within.specials _ (by simp [Specials.values]))
  · exact (object_stays seen).bind fun _ into => .pure (into _ (List.mem_cons_self ..))

theorem classFormat_stays (species : Value) : Stays scope (classFormat species) fun _ => True :=
  readHeap_stays fun _ _ _ _ => trivial

/-! ## The stack -/

theorem operand_stays (depth : Nat) : Stays scope (operand depth) scope.Sees := by
  apply getRegisters_stays.bind
  intro registers within
  refine .ite (fun _ => ?_) fun _ => .fail
  exact fetch_stays within.activeContext _

theorem top_stays : Stays scope top scope.Sees := operand_stays 0

theorem drop_stays (count : Nat) : Stays scope (drop count) fun _ => True :=
  modifyRegisters_stays fun _ within => { within with }

theorem push_stays {value : Value} (seen : scope.Sees value) :
    Stays scope (push value) fun _ => True := by
  refine .bind (modifyRegisters_stays fun _ within => { within with }) fun _ _ => ?_
  exact getRegisters_stays.bind fun _ _ => store_stays _ _ seen

theorem pop_stays : Stays scope pop scope.Sees := by
  apply top_stays.bind
  intro value seen
  refine getRegisters_stays.bind fun registers _ => ?_
  refine .ite (fun _ => .throwThen) fun _ => ?_
  exact (drop_stays 1).bind fun _ _ => .pure seen

theorem replace_stays (count : Nat) {value : Value} (seen : scope.Sees value) :
    Stays scope (replace count value) fun _ => True :=
  (drop_stays count).bind fun _ _ => push_stays seen

theorem copyOperands_stays (target : Value) (count index : Nat) :
    Stays scope (copyOperands target count index) fun _ => True := by
  induction count generalizing index with
  | zero => exact .pure trivial
  | succ count induction =>
    apply (operand_stays count).bind
    intro value seen
    exact (store_stays target index seen).bind fun _ _ => induction (index + 1)

end Run

end Smalltalk
