import Smalltalk.Primitive.Allocation
import Smalltalk.Proofs.Primitive.Basic

namespace Smalltalk

/-! New objects, copies, and the walk through the objects that there are. The walk
may answer an object that the program has not come across, so that it leads out
of the scope unless what it answers is discreet. -/

namespace Machine.Within

variable {scope : Scope} {machine : Machine}

/-- A value that does not lead to a spare context that is still free may be revealed
with all that it leads to. -/
theorem expose (within : machine.Within scope) {value : Value} (known : scope.Knows value)
    (discreet : ∀ slot, machine.heap.Reaches value.slot?.toList slot →
      .object slot ∈ machine.registers.free → ¬ scope.spare slot) :
    machine.Within (scope.reveal (machine.heap.Reaches value.slot?.toList)) ∧
      (scope.reveal (machine.heap.Reaches value.slot?.toList)).Sees value := by
  refine ⟨⟨within.heap.reveal (fun _ reached => reached.live) ?_, within.registers.reveal ?_⟩, ?_⟩
  · intro slot object reached found next member
    cases next with
    | small n => exact .small n
    | object next =>
      have live : machine.heap.Live next := within.heap.closed slot object found _ member
      exact .object (.inr (.step reached found (Heap.mem_successors_iff.mpr member) live))
  · exact fun slot free spare reached => (discreet slot reached free spare).elim
  · cases value with
    | small n => exact .small n
    | object slot =>
      have live : machine.heap.Live slot := (within.heap.live_iff slot).mpr (known slot rfl)
      exact .object (.inr (.seed (by simp [Value.slot?]) live))

end Machine.Within

namespace Run

variable {scope : Scope}

/-- After an answer has been pushed it lies at the top of the stack, and what it
leads to it leads to still, as far as that was out of sight. -/
theorem succeed_ensures {machine : Machine} (within : machine.Within scope) (count : Nat)
    (value : Value) :
    (succeed count value).Ensures machine fun answered after =>
      answered = true ∧ after.registers.free = machine.registers.free ∧
        ∀ slot, machine.heap.Reaches value.slot?.toList slot → scope.visible slot ∨
          after.heap.Reaches (after.exposed.filterMap Value.slot?) slot := by
  refine (ensures_replace machine (count + 1) value).bind ?_
  intro _ after ended
  rcases ended with ⟨onTop, same⟩
  refine .pure ⟨rfl, by rw [same]; rfl, fun slot reached => ?_⟩
  have heap : after.heap = machine.heap.setField machine.registers.activeContext
      (machine.registers.sp - (count + 1) + 1) value := by rw [same]
  have exposed : after.exposed.filterMap Value.slot? = value.slot?.toList := by
    rw [Machine.exposed, onTop]
    cases value <;> rfl
  have live {slot : Nat} (alive : machine.heap.Live slot) : after.heap.Live slot := by
    rw [heap]
    exact (Heap.live_update_iff _ _ slot).mpr alive
  have visible {slot next : Nat} {object : HeapObject} (seen : scope.visible slot)
      (found : machine.heap.cell? slot = some object) (edge : next ∈ object.successors) :
      scope.visible next :=
    (scope.sees_object next).mp
      (within.heap.sees slot object seen found _ (Heap.mem_successors_iff.mp edge))
  rw [exposed]
  induction reached with
  | seed member alive => exact .inr (.seed member (live alive))
  | @step slot next object _ found edge alive induction =>
    rcases induction with seen | reached
    · exact .inl (visible seen found edge)
    · by_cases active : machine.registers.activeContext = .object slot
      · have seen : scope.Sees (.object slot) := active ▸ within.registers.activeContext
        exact .inl (visible ((scope.sees_object slot).mp seen) found edge)
      · have kept : after.heap.get? (.object slot) = machine.heap.get? (.object slot) := by
          rw [heap]
          exact machine.heap.get?_update_other active _
        exact .inr (.step reached (kept.trans found) edge (live alive))

/-- Answering any object that is there. -/
theorem succeed_leads {value : Value} (known : scope.Knows value) (count : Nat) :
    Leads scope (succeed count value) (· = true) fun _ _ => True := by
  intro machine within answered after ended discreet
  rcases succeed_ensures within count value answered after ended with ⟨isLast, same, reaches⟩
  rcases within.expose known fun slot reached free spare =>
    (reaches slot reached).elim
      (fun visible => within.heap.apart slot visible (within.heap.spare slot spare))
      fun reached => discreet isLast slot reached (same ▸ free) spare with ⟨exposed, seen⟩
  exact ⟨_, .reveal scope _, (succeed_stays count seen _ exposed answered after ended).1, trivial⟩

end Run

namespace Reply

open Run

variable {scope : Scope}

theorem instantiate_moves {species : Value} (seen : scope.Sees species) (size : Nat) :
    Moves scope (instantiate species size) fun later value => later.Sees value :=
  getNil_stays.bindMoves fun _ none => Run.instantiate_moves seen none size

theorem classFormat?_stays (species : Value) :
    Stays scope (classFormat? species) fun _ => True :=
  .ite (fun _ => .pure trivial) fun _ => getHeap_stays.bind fun _ _ => .pure trivial

theorem basicNew_moves (count : Nat) : Moves scope (basicNew count) fun _ _ => True := by
  apply (receiverOf_stays count).bindMoves
  intro species seen
  refine (classFormat?_stays species).bindMoves fun format _ => ?_
  cases format with
  | none => exact .pure trivial
  | some format =>
    exact .ite (fun _ => .pure trivial) fun _ => succeed_moves count (instantiate_moves seen 0)

theorem basicNewWithSize_moves (count : Nat) :
    Moves scope (basicNewWithSize count) fun _ _ => True := by
  apply (receiverOf_stays count).bindMoves
  intro species seen
  apply (argument_stays count 0).bindMoves
  intro size _
  cases size.nat? with
  | none => exact .pure trivial
  | some size =>
    refine (classFormat?_stays species).bindMoves fun format _ => ?_
    cases format with
    | none => exact .pure trivial
    | some format =>
      exact .ite (fun _ => .pure trivial) fun _ => succeed_moves count (instantiate_moves seen size)

theorem newMethod_moves (count : Nat) : Moves scope (newMethod count) fun _ _ => True := by
  refine .ite (fun _ => .pure trivial) fun _ => ?_
  apply (receiverOf_stays count).bindMoves
  intro species seen
  apply (argument_stays count 1).bindMoves
  intro header shown
  apply (argument_stays count 0).bindMoves
  intro size _
  split
  · apply getNil_stays.bindMoves
    intro nil none
    refine succeed_moves count (register_moves ?_)
    apply Scope.seesInto_of_pointers seen rfl
    intro value member
    rcases Array.mem_append.mp member with isHeader | literal
    · rw [Array.mem_singleton.mp isHeader]
      exact shown
    · rw [Array.eq_of_mem_replicate literal]
      exact none
  · exact .pure trivial

theorem copy_moves (count : Nat) : Moves scope (copy count) fun _ _ => True := by
  apply (receiverOf_stays count).bindMoves
  intro receiver seen
  refine .ite (fun _ => ?_) fun _ => ?_
  · exact (succeed_stays count seen).moves
  · exact succeed_moves count (Run.copy_moves seen)

/-! ## Enumeration -/

theorem nextFrom_stays (start : Nat) (species : Option Value) :
    Stays scope (nextFrom start species) fun found =>
      ∀ value, found = some value → scope.Knows value := by
  apply modifyGet_stays
  intro machine within
  simp only [Heap.nextInstance]
  split
  · exact ⟨by simp, within⟩
  · rename_i position _
    refine ⟨?_, ?_, within.registers⟩
    · intro value found slot same
      rcases Option.map_eq_some_iff.mp found with ⟨listed, inTable, rfl⟩
      cases same
      have member : slot ∈ machine.heap.table.toList :=
        Array.mem_toList_iff.mpr (Array.mem_of_getElem? inTable)
      exact (within.heap.live_iff slot).mp (within.heap.consistent.live slot member)
    · exact { within.heap with
        consistent :=
          within.heap.consistent.transfer rfl rfl (fun _ => Iff.rfl) fun _ empty => empty }

theorem someInstance_leads (count : Nat) :
    Leads scope (someInstance count) (· = true) fun _ _ => True := by
  apply (receiverOf_stays count).bindLeads
  intro species _
  refine (nextFrom_stays 0 _).bindLeads ?_
  rintro (- | first) known
  · exact Moves.leads (.pure trivial)
  · exact succeed_leads (known first rfl) count

theorem nextInstance_leads (count : Nat) :
    Leads scope (nextInstance count) (· = true) fun _ _ => True := by
  apply (receiverOf_stays count).bindLeads
  intro receiver seen
  refine .ite (fun _ => Moves.leads (.pure trivial)) fun _ => ?_
  apply (classOf_stays seen).bindLeads
  intro species _
  refine getHeap_stays.bindLeads fun heap _ => ?_
  cases heap.indexOf? receiver with
  | none => exact Moves.leads (.pure trivial)
  | some index =>
    apply (nextFrom_stays (index + 1) _).bindLeads
    intro either known
    rcases either with - | next
    · exact getNil_stays.bindLeads fun nil none => (succeed_stays count none).leads
    · exact succeed_leads (known next rfl) count

theorem someObject_leads (count : Nat) :
    Leads scope (someObject count) (· = true) fun _ _ => True := by
  apply (nextFrom_stays 0 none).bindLeads
  intro either known
  rcases either with - | first
  · exact getNil_stays.bindLeads fun nil none => (succeed_stays count none).leads
  · exact succeed_leads (known first rfl) count

theorem nextObject_leads (count : Nat) :
    Leads scope (nextObject count) (· = true) fun _ _ => True := by
  apply (receiverOf_stays count).bindLeads
  intro receiver _
  refine getHeap_stays.bindLeads fun heap _ => ?_
  cases heap.indexOf? receiver with
  | none => exact (succeed_stays count scope.sees_zero).leads
  | some index =>
    apply (nextFrom_stays (index + 1) none).bindLeads
    intro either known
    rcases either with - | next
    · exact (succeed_stays count scope.sees_zero).leads
    · exact succeed_leads (known next rfl) count

theorem identityHash_stays (count : Nat) : Stays scope (identityHash count) fun _ => True := by
  apply (receiverOf_stays count).bind
  intro receiver _
  refine .ite (fun _ => .pure trivial) fun _ => ?_
  exact getHeap_stays.bind fun _ _ => succeed_stays count (scope.sees_ofInt _)

end Reply

end Smalltalk
