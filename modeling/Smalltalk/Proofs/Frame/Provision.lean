import Smalltalk.Machine.Context
import Smalltalk.Proofs.Machine.Evaluation
import Smalltalk.Proofs.Machine.Scope

namespace Smalltalk

/-! A frame for a method is either a context that is free, wiped clean, or a new
one, for which objects that nothing refers to may be collected. Either way it is
filled with nil, and what the registers hold remains as it was. -/

/-! ## Registers -/

theorem MethodCache.clear_clear (cache : MethodCache) : cache.clear.clear = cache.clear := by
  simp [clear]

theorem AtCache.clear_clear (cache : AtCache) : cache.clear.clear = cache.clear := by
  simp [clear]

namespace Registers

variable {registers last : Registers}

theorem forget_forget (registers : Registers) : registers.forget.forget = registers.forget := by
  simp [forget, MethodCache.clear_clear, AtCache.clear_clear]

theorem forget_of_flushed (flushed : Flushed registers last) : last.forget = registers.forget := by
  induction flushed with
  | refl => rfl
  | flush _ induction => exact (forget_forget _).trans induction

/-- Registers that differ in what they forget have the same frame. -/
theorem frame_of_forget (same : last.forget = registers.forget) :
    last.activeContext = registers.activeContext ∧ last.homeContext = registers.homeContext ∧
      last.method = registers.method ∧ last.receiver = registers.receiver ∧
      last.pc = registers.pc ∧ last.sp = registers.sp ∧
      last.argumentCount = registers.argumentCount := by
  simp only [forget, Registers.mk.injEq] at same
  tauto

/-- The free contexts of a size. -/
def freeOf (registers : Registers) (large : Bool) : List Value :=
  if large then registers.freeLargeContexts else registers.freeContexts

/-- The registers without the next free context of a size. -/
def withoutFree (registers : Registers) (large : Bool) : Registers :=
  if large then { registers with freeLargeContexts := registers.freeLargeContexts.tail }
  else { registers with freeContexts := registers.freeContexts.tail }

theorem forget_withoutFree (registers : Registers) (large : Bool) :
    (registers.withoutFree large).forget = registers.forget := by
  cases large <;> rfl

end Registers

/-- The number of slots of a frame for temporaries and operands. -/
def Config.frameSize (config : Config) (large : Bool) : Nat :=
  if large then config.largeFrameSize else config.smallFrameSize

namespace Machine

/-- Whether a value is a method context with a frame of a size. -/
def HasFrame (machine : Machine) (size : Nat) (context : Value) : Prop :=
  ∃ object fields, machine.heap.get? context = some object ∧
    object.species = machine.registers.specials.methodContextClass ∧
    object.body = .pointers fields ∧ fields.size = ContextField.frame + size

/-- How a context comes to be used for a new frame. -/
structure Provides (machine : Machine) (large : Bool) (callee : Value) (after : Machine) :
    Prop where
  registers : after.registers.forget = machine.registers.forget
  config : after.config = machine.config
  species : (after.heap.get? callee).map HeapObject.species
    = some machine.registers.specials.methodContextClass
  blank : after.heap.pointers callee = .ok
    (Array.replicate (ContextField.frame + machine.config.frameSize large)
      machine.registers.specials.nil)
  apart : ∀ value ∈ machine.registers.forget.values, (machine.heap.get? value).isSome →
    value ∉ machine.registers.freeOf large → value ≠ callee
  others : ∀ value ∈ machine.registers.forget.values, value ≠ callee →
    after.heap.get? value = machine.heap.get? value

end Machine

namespace Run

variable {machine : Machine}

theorem takeFreeContext_nil {large : Bool} (empty : machine.registers.freeOf large = []) :
    takeFreeContext large machine = .ok none machine := by
  rw [takeFreeContext, bind_ok getRegisters_apply]
  change (if large then _ else _) = _ at empty
  rw [empty]
  rfl

theorem takeFreeContext_cons {large : Bool} {context : Value} {rest : List Value}
    (listed : machine.registers.freeOf large = context :: rest) :
    takeFreeContext large machine
      = .ok (some context) { machine with registers := machine.registers.withoutFree large } := by
  rw [takeFreeContext, bind_ok getRegisters_apply]
  cases large with
  | false =>
    change machine.registers.freeContexts = _ at listed
    simp only [listed, Registers.withoutFree]
    rfl
  | true =>
    change machine.registers.freeLargeContexts = _ at listed
    simp only [listed, Registers.withoutFree]
    rfl

/-- A free context is wiped. -/
theorem provides_of_free {large : Bool} {callee : Value} {rest : List Value}
    (listed : machine.registers.freeOf large = callee :: rest)
    (frame : machine.HasFrame (machine.config.frameSize large) callee) :
    machine.Provides large callee { machine with
      heap := machine.heap.updateBody callee
        (·.mapPointers (·.map fun _ => machine.registers.specials.nil))
      registers := machine.registers.withoutFree large } := by
  rcases frame with ⟨object, fields, found, species, body, size⟩
  have wiped := machine.heap.get?_update_same callee fun object => { object with
    body := object.body.mapPointers (·.map fun _ => machine.registers.specials.nil) }
  rw [found, Option.map_some, body] at wiped
  refine
    { registers := machine.registers.forget_withoutFree large
      config := rfl
      species := ?_
      blank := ?_
      apart := ?_
      others := fun value _ different => machine.heap.get?_update_other different.symm _ }
  · exact (congrArg (Option.map HeapObject.species) wiped).trans (congrArg some species)
  · refine Heap.pointers_eq_ok_iff.mpr ⟨_, wiped, ?_⟩
    rw [HeapObject.pointers?, Body.mapPointers, Body.pointers?, ← size]
    exact congrArg some Array.map_const'
  · rintro value - - absent rfl
    exact absent (listed ▸ List.mem_cons_self ..)

/-- A new context takes no place that the registers know. -/
theorem provides_of_register {large : Bool} {callee : Value} {after : Machine}
    (consistent : machine.heap.Consistent)
    (registered : register
      { species := machine.registers.specials.methodContextClass
        format := Format.fixedIndexable
        body := .pointers (Array.replicate (ContextField.frame + machine.config.frameSize large)
          machine.registers.specials.nil) } machine = .ok callee after) :
    machine.Provides large callee after := by
  rcases ensures_onHeap machine _ _ _ registered with ⟨rooted, ended, rfl⟩
  obtain ⟨heap, slot, hash, rfl, survives, -, places⟩ := HeapM.register_cases consistent ended
  have kept {value : Value} (root : value ∈ machine.registers.forget.values)
      (live : (machine.heap.get? value).isSome) : (heap.get? value).isSome := by
    cases value with
    | small n => cases live
    | object other =>
      exact survives.held (.object other) (survives.flushed.mem_of_mem_flush root) live
  refine
    { registers := Registers.forget_of_flushed survives.flushed
      config := rfl
      species := congrArg (Option.map HeapObject.species) places.filled
      blank := Heap.pointers_eq_ok_iff.mpr ⟨_, places.filled, rfl⟩
      apart := ?_
      others := ?_ }
  · rintro _ root live - rfl
    exact places.dead (kept root live)
  · intro value root different
    cases value with
    | small n => rfl
    | object other =>
      have same : rooted.heap.cell? other = heap.cell? other :=
        places.others other fun equal => different (congrArg Value.object equal)
      refine same.trans ?_
      by_cases live : heap.Live other
      · exact survives.cell other live
      · have gone : ¬ machine.heap.Live other := fun alive => live (kept root alive)
        rw [Heap.Live, Option.not_isSome_iff_eq_none] at live gone
        exact live.trans gone.symm

/-- A frame for a method is blank and belongs to nobody, if the free contexts are
frames of their sizes. -/
theorem newContext_provides (consistent : machine.heap.Consistent) (large : Bool)
    (frames : ∀ context ∈ machine.registers.freeOf large,
      machine.HasFrame (machine.config.frameSize large) context) :
    (newContext large).Ensures machine (machine.Provides large) := by
  intro callee after ended
  rw [newContext, bind_ok getNil_apply] at ended
  cases listed : machine.registers.freeOf large with
  | nil =>
    rw [bind_ok (takeFreeContext_nil listed)] at ended
    exact provides_of_register consistent ended
  | cons context rest =>
    have frame := frames context (listed ▸ List.mem_cons_self ..)
    have provides := provides_of_free listed frame
    rcases frame with ⟨object, fields, found, -⟩
    rw [bind_ok (takeFreeContext_cons listed)] at ended
    let taken : Machine := { machine with registers := machine.registers.withoutFree large }
    have readable : taken.heap.object context = .ok object := Heap.object_eq_ok_iff.mpr found
    have read : Functor.discard (Run.object context) taken = .ok () taken := by
      have known : Run.object context taken = .ok object taken := readHeap_ok readable
      simp only [Functor.discard, Functor.mapConst, Function.comp, EStateM.map, known]
    have rest := (bind_ok read).symm.trans ended
    cases rest
    exact provides

end Run

end Smalltalk
