import Smalltalk.Proofs.Frame.Entry
import Smalltalk.Proofs.Machine.Returns

namespace Smalltalk

/-! A return to the sender wipes where the frame that is left came from and was, and
loads the sender, on whose stack the answer is pushed. -/

namespace Machine

/-- Whether the active context can return to its sender, which waits with what is
given. -/
structure Answerable (machine : Machine) (caller home method receiver : Value) (pc sp : Nat) :
    Prop where
  sender : machine.heap.fetch machine.registers.activeContext ContextField.sender = .ok caller
  waits : machine.heap.Waits caller home method receiver pc sp
  apart : ∀ value ∈ [caller, home, method], value ≠ machine.registers.activeContext

/-- How a machine comes out of a return to a caller that was waiting. -/
structure Resumed (machine : Machine) (caller home method receiver : Value) (pc sp : Nat)
    (answer : Value) (after : Machine) : Prop where
  active : after.registers.activeContext = caller
  atHome : after.registers.homeContext = home
  runs : after.registers.method = method
  receives : after.registers.receiver = receiver
  next : after.registers.pc = pc
  depth : after.registers.sp = sp + 1
  top : after.heap.fetch caller (sp + 1) = .ok answer
  elsewhere : ∀ index, index ≠ sp + 1 →
    after.heap.fetch caller index = machine.heap.fetch caller index
  others : ∀ other, other ≠ caller → other ≠ machine.registers.activeContext →
    after.heap.get? other = machine.heap.get? other

theorem Retired.rewrites {machine after : Machine} {context : Value}
    (retired : machine.Retired context after) : machine.heap.Rewrites context after.heap := by
  rw [retired.heap]
  exact .trans (.setField ..) (.setField ..)

end Machine

namespace Run

variable {machine : Machine}

theorem forM_retire_singleton (context : Value) : [context].forM retire = retire context := by
  simp only [List.forM_eq_forM, List.forM_cons, List.forM_nil, bind_pure_unit]

/-- A return to the sender retires the active context alone. -/
theorem returnTo_answers {caller home method receiver answer : Value} {pc sp : Nat}
    (answerable : machine.Answerable caller home method receiver pc sp) :
    (returnTo answer caller).Ensures machine fun _ after => ∃ retired,
      machine.Retired machine.registers.activeContext retired ∧
      (∀ value ∈ [caller, home, method], retired.heap.get? value = machine.heap.get? value) ∧
      after.heap.fetch caller (sp + 1) = .ok answer ∧
      after = { retired with
        heap := retired.heap.setField caller (sp + 1) answer
        registers := { retired.registers with
          pc, sp := sp + 1, activeContext := caller, homeContext := home, method, receiver } } := by
  refine (returnTo_returnsBy machine answer caller).mono ?_
  rintro _ after ⟨above, retired, loaded, returns⟩
  have apart := (answerable.apart caller (by simp)).symm
  cases returns.chain.unique (.sent apart answerable.sender .arrived)
  have retires := returns.retires
  rw [forM_retire_singleton] at retires
  have wiped := retire_retired machine _ _ _ retires
  have same (value : Value) (member : value ∈ [caller, home, method]) :
      retired.heap.get? value = machine.heap.get? value :=
    wiped.rewrites.others value (answerable.apart value member)
  have waits := answerable.waits.transfer (same caller (by simp)) (same home (by simp))
    (same method (by simp))
  cases (loadContext_of_waits waits).symm.trans returns.loads
  rcases ensures_push _ answer _ _ returns.pushes with ⟨pushed, rfl⟩
  exact ⟨retired, wiped, same, pushed, rfl⟩

theorem returnTo_resumes {caller home method receiver answer : Value} {pc sp : Nat}
    (answerable : machine.Answerable caller home method receiver pc sp) :
    (returnTo answer caller).Ensures machine fun _ after =>
      machine.Resumed caller home method receiver pc sp answer after := by
  refine (returnTo_answers answerable).mono ?_
  rintro _ _ ⟨retired, wiped, same, pushed, rfl⟩
  refine ⟨rfl, rfl, rfl, rfl, rfl, rfl, pushed, ?_, ?_⟩
  · intro index different
    exact (Heap.fetch_setField_other (.inr different.symm)).trans
      (Heap.fetch_congr (same caller (by simp)) _)
  · intro other notCaller notActive
    exact (Heap.get?_update_other _ notCaller.symm _).trans (wiped.rewrites.others other notActive)

/-! ## Returns that come to their end -/

theorem store_ends {object value : Value} {index : Nat} {fields : Array Value}
    (readable : machine.heap.pointers object = .ok fields) (inside : index < fields.size) :
    (store object index value).Ends machine := by
  have stored := Heap.store_eq_ok_iff.mpr
    ⟨⟨fields, readable, inside⟩, (rfl : machine.heap.setField object index value = _)⟩
  refine ⟨(), machine.withHeap (machine.heap.setField object index value), ?_⟩
  rw [store, stored]
  rfl

theorem recycle_ends (context : Value) : (recycle context).Ends machine := by
  refine .bindOk get_apply ?_
  have kept (change : Registers → Registers) : (modifyRegisters change).Ends machine :=
    .of_ok (modifyRegisters_apply change)
  have done : (pure () : Run Unit).Ends machine := .of_ok (pure_apply ())
  split
  · exact done
  · split
    · exact done
    · dsimp only
      split
      · exact kept _
      · split
        · exact kept _
        · exact done

theorem retire_ends {context : Value} {fields : Array Value}
    (readable : machine.heap.pointers context = .ok fields)
    (inside : ContextField.pc < fields.size) : (retire context).Ends machine := by
  have first : ContextField.sender < fields.size := lt_trans (by decide) inside
  have read : Functor.discard (fetch context ContextField.sender) machine = .ok () machine := by
    have known := fetch_ok (Heap.fetch_eq_ok_iff.mpr
      ⟨fields, readable, Array.getElem?_eq_getElem first⟩)
    simp only [Functor.discard, Functor.mapConst, Function.comp, EStateM.map, known]
  refine .bindOk getNil_apply (.bindOk read ?_)
  refine (store_ends readable first).bind (store_wrote _ _ _) ?_
  rintro _ _ ⟨unsent, rfl, wrote⟩
  rcases wrote.toRewrites.readable readable with ⟨later, still, size⟩
  refine Ends.bind (store_ends still (size ▸ inside)) (store_wrote _ _ _) ?_
  rintro _ _ ⟨ended, rfl, -⟩
  refine .bindOk getRegisters_apply ?_
  split
  · exact .bindOk (modifyRegisters_apply _) (recycle_ends context)
  · exact .of_ok (pure_apply ())

theorem contextsAbove_self (target : Value) (budget : Nat) :
    contextsAbove target budget target machine = .ok [] machine := by
  cases budget <;> rw [contextsAbove, if_pos rfl, pure_apply]

theorem contextsAbove_ok {caller context : Value} {budget : Nat}
    (sender : machine.heap.fetch context ContextField.sender = .ok caller)
    (apart : context ≠ caller) (notNil : context ≠ machine.registers.specials.nil) :
    contextsAbove caller (budget + 1) context machine = .ok [context] machine := by
  rw [contextsAbove, if_neg apart, bind_ok getNil_apply]
  simp only []
  rw [if_neg notNil, bind_ok (fetch_ok sender), bind_ok (contextsAbove_self caller budget)]
  rfl

/-- A return comes to its end if nil is an object but none of the two contexts, and if
there is room for what it writes. -/
theorem returnTo_ends {caller home method receiver : Value} {pc sp : Nat}
    (answerable : machine.Answerable caller home method receiver pc sp)
    (isObject : machine.registers.specials.nil.isSmall = false)
    (notActive : machine.registers.activeContext ≠ machine.registers.specials.nil)
    (notCaller : caller ≠ machine.registers.specials.nil) {left waiting : Array Value}
    (readable : machine.heap.pointers machine.registers.activeContext = .ok left)
    (wide : ContextField.pc < left.size)
    (waits : machine.heap.pointers caller = .ok waiting) (deep : sp + 1 < waiting.size)
    (answer : Value) : (returnTo answer caller).Ends machine := by
  rcases answerable.waits.next with ⟨header, -, counter⟩
  rcases bind_eq_ok_iff.mp counter with ⟨kept, fetched, small⟩
  have different : kept ≠ machine.registers.specials.nil := by
    rintro rfl
    cases known : machine.registers.specials.nil with
    | small n => simp [known, Value.isSmall] at isObject
    | object slot => simp [known, Value.int?] at small
  refine .bindOk getNil_apply ?_
  rw [if_neg notCaller]
  refine .bindOk (fetch_ok fetched) ?_
  rw [if_neg different]
  refine .bindOk getHeap_apply (.bindOk getRegisters_apply ?_)
  refine .bindOk (contextsAbove_ok answerable.sender (answerable.apart caller (by simp)).symm
    notActive) ?_
  rw [forM_retire_singleton]
  refine (retire_ends readable wide).bind (retire_retired machine _) fun _ retired wiped => ?_
  have same {value : Value} (member : value ∈ [caller, home, method]) :
      retired.heap.get? value = machine.heap.get? value :=
    wiped.rewrites.others value (answerable.apart value member)
  have again := answerable.waits.transfer (same (by simp)) (same (by simp)) (same (by simp))
  refine .bindOk (loadContext_of_waits again) (.bindOk (modifyRegisters_apply _) ?_)
  have room := (Heap.pointers_congr (same (by simp))).trans waits
  exact .bindOk getRegisters_apply (store_ends room deep)

end Run

end Smalltalk
