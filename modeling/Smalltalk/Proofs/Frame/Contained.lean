import Smalltalk.Proofs.Frame.Settling
import Smalltalk.Proofs.Machine.Branches
import Smalltalk.Proofs.Primitive.Deliveries

namespace Smalltalk

/-! The machine does not ask where the operand stack begins. It stays inside the frame all
the same, as long as every instruction finds its operands above the fixed fields and contexts
keep their stack pointers inside their frames: each instruction takes no more operands than
it needs, and what it pushes has to fit into the context. -/

/-! ## Operands of instructions -/

/-- The operands that a message of its own takes, before it is sent. -/
def CommonMessage.operands : CommonMessage → Nat
  | .atIndex => 2
  | .atIndexPut => 3
  | .identical => 2
  | .species => 1
  | .blockCopy => 2
  | .value => 1
  | .valueWithArgument => 2
  | .sent _ => 0

/-- The operands that an instruction takes. `second` is the byte after it, and `arity` the
number of arguments of each special selector. A receiver is an operand as well. -/
def Opcode.operands (second : Nat) (arity : Nat → Nat) : Opcode → Nat
  | .popIntoField _ | .popIntoTemporary _ | .returnTop | .returnTopToCaller | .extendedStore
  | .extendedPop | .pop | .duplicate | .jumpIfFalse _ | .longJumpIf _ _ => 1
  | .extendedSend | .extendedSuperSend => second / 32 + 1
  | .secondExtendedSend => second / 64 + 1
  | .doubleExtended =>
    match second / 32 with
    | 0 | 1 => second % 32 + 1
    | 2 | 3 | 4 => 0
    | _ => 1
  | .arithmetic message => max 2 (arity message.index + 1)
  | .common message => max message.operands (arity message.index + 1)
  | .sendLiteral _ count => count + 1
  | _ => 0

example : (Opcode.ofByte 0xE1).operands 0 (fun _ => 0) = 2 := by decide
example : (Opcode.ofByte 0xB0).operands 0 (fun _ => 1) = 2 := by decide

namespace Machine

variable {start machine between last after : Machine} {base count : Nat}

/-- The number of arguments that is listed for a special selector. -/
def arity (machine : Machine) (index : Nat) : Nat :=
  match machine.heap.fetchInt machine.registers.specials.specialSelectors (index * 2 + 1) with
  | .ok count => count.toNat
  | .error _ => 0

/-- The operands that the instruction at a byte takes, if it is the one that has just been
read. -/
def operandsOf (machine : Machine) (byte : UInt8) : Nat :=
  (Opcode.ofByte byte).operands ((machine.nextByte?.map UInt8.toNat).getD 0) machine.arity

/-- The operands that the next instruction takes. -/
def demand (machine : Machine) : Nat :=
  (machine.nextByte?.map (machine.ahead 1).operandsOf).getD 0

/-- The next instruction finds its operands above the fixed fields of the context. -/
def Supplied (machine : Machine) : Prop :=
  ContextField.frame + machine.demand ≤ machine.registers.sp + 1

instance (machine : Machine) : Decidable machine.Supplied :=
  inferInstanceAs (Decidable (_ ≤ _))

/-! ## What an instruction leaves -/

/-- The active context has become another one by an exchange of identities. -/
def Exchanges (start after : Machine) : Prop :=
  after.registers.activeContext ≠ start.registers.activeContext ∧
    ∃ (between : Machine) (sources targets : List Value) (twoWay : Bool) (sp : Nat),
      between.registers.activeContext = start.registers.activeContext ∧
        between.Exchanged sources targets twoWay sp after

/-- The stack pointer is inside the frame of the active context, and so are those that
contexts keep. -/
structure Ready (machine : Machine) : Prop extends machine.Orderly, machine.Inside where
  consistent : machine.heap.Consistent

/-- The stack pointer has stayed inside the frame if contexts keep theirs inside, and the
active context has not been exchanged. -/
structure Contained (start after : Machine) : Prop where
  consistent : after.heap.Consistent
  inside : after.Orderly → ¬ start.Exchanges after → after.Inside

theorem Ready.rests (ready : start.Ready) : start.Rests 0 start := by
  rcases Heap.exists_pointers_of_lt_pointerCount ready.upper with ⟨fields, readable⟩
  exact .refl ready.consistent readable

namespace Contained

theorem of_carries (inside : start.Inside) (carries : start.Carries 0 after)
    (lower : ContextField.frame ≤ after.registers.sp + 1) : start.Contained after where
  consistent := carries.consistent
  inside _ _ := ⟨lower, carries.fits inside.upper⟩

theorem of_placed (consistent : after.heap.Consistent) (placed : after.Placed) :
    start.Contained after where
  consistent := consistent
  inside orderly _ := placed.inside orderly

theorem of_restored (consistent : after.heap.Consistent) (restored : after.Restored) :
    start.Contained after := of_placed consistent fun _ => .inr restored

end Contained

/-! ## What a message leaves -/

/-- A primitive that answers leaves the stack pointer at the place of the receiver, unless
another context is loaded. -/
theorem contained_of_effect {manner : Manner} (inside : start.Inside)
    (carries : start.Carries 0 last) (framed : ContextField.frame ≤ base)
    (place : last.registers.sp = base + count) (effect : manner.Effect last 0 count after) :
    start.Contained after := by
  have frame : ContextField.frame = 6 := rfl
  cases manner with
  | answers =>
    rcases effect with ⟨between, rests, answer, puts⟩
    rcases puts.carries rests (by omega) with ⟨later, sp⟩
    exact .of_carries inside (carries.trans later) (by omega)
  | drops =>
    rcases effect with ⟨between, rests, drops⟩
    rcases Drops.carries rests drops with ⟨later, sp⟩
    exact .of_carries inside (carries.trans later) (by omega)
  | leaves =>
    exact .of_carries inside (carries.trans (Rests.carries effect)) (by rw [effect.sp]; omega)
  | passes =>
    rcases effect with rests | switched
    · exact .of_carries inside (carries.trans rests.carries) (by rw [rests.sp]; omega)
    · exact .of_restored switched.consistent switched.restored
  | suspends =>
    rcases effect with ⟨_, _, _, _, switched⟩
    exact .of_restored switched.consistent switched.restored
  | enters => exact .of_restored effect.1 effect.2.1
  | exchanges twoWay =>
    rcases effect with ⟨sources, targets, -, exchanged⟩
    refine ⟨exchanged.consistent carries.consistent, fun _ never => ?_⟩
    have same : after.registers.activeContext = start.registers.activeContext := by
      by_contra different
      exact never ⟨different, last, sources, targets, twoWay, _, carries.active, exchanged⟩
    have sp : after.registers.sp = last.registers.sp - count := by
      rcases exchanged with ⟨_, _, rfl⟩
      rfl
    have fits := carries.fits inside.upper
    rw [Fits, carries.active] at fits
    refine ⟨by omega, ?_⟩
    rw [same, exchanged.pointerCount_eq carries.consistent]
    omega
  | performs => exact effect.elim

/-- However a message comes to its end, the stack pointer stays inside the frame. -/
theorem Sent.contained (inside : start.Inside) (framed : ContextField.frame ≤ base)
    (sent : start.Sent 0 base after) : start.Contained after := by
  cases sent with
  | answered carries operands replied =>
    cases replied with
    | quick _ _ _ puts =>
      have rests := carries.rests
      rcases puts.carries rests (by omega) with ⟨later, sp⟩
      refine .of_carries inside (carries.trans later) ?_
      have frame : ContextField.frame = 6 := rfl
      omega
    | numbered _ _ effect => exact contained_of_effect inside carries framed operands effect
  | activated carries ended =>
    refine .of_placed ?_ (Run.activateMethod_places () after ended)
    exact (Run.activateMethod_plain.kept _ (.refl carries.consistent) () after ended).1.consistent

theorem Ready.dropped (ready : start.Ready)
    (enough : ContextField.frame + count ≤ start.registers.sp + 1) :
    (start.dropped count).Ready where
  running := ready.running
  calm := ready.calm
  depths := ready.depths
  lower := by
    change ContextField.frame ≤ start.registers.sp - count + 1
    omega
  upper := Nat.lt_of_le_of_lt (Nat.sub_le _ _) ready.upper
  consistent := ready.consistent

theorem Rests.dropped (rests : start.Rests 0 machine) (count : Nat) :
    (start.dropped count).Rests 0 (machine.dropped count) where
  consistent := rests.consistent
  active := rests.active
  specials := rests.specials
  slots := rests.slots
  sp := congrArg (· - count) rests.sp
  argumentCount := rests.argumentCount

end Machine

end Smalltalk
