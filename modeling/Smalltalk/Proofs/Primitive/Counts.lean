import Smalltalk.Proofs.Machine.Send
import Smalltalk.Proofs.Primitive.Plain

namespace Smalltalk

/-! Primitives do not ask for the counts of the method cache, and neither do the messages that
they perform. -/

namespace Reply

open Run

/-! ## Elements -/

theorem rememberPart_ignores {part : IndexedPart} {access : Access} :
    IgnoresCounts (rememberPart part access) := .modify fun _ _ => rfl

theorem elementAt_ignores {chars : Bool} {count : Nat} : IgnoresCounts (elementAt chars count) := by
  refine .ite (fun _ => .pure) fun _ => receiverOf_plain.ignores.bind fun receiver => ?_
  refine indexedPart_plain.ignores.bind fun part => ?_
  cases part with
  | none => exact .pure
  | some part =>
    refine argument_plain.ignores.bind fun index => ?_
    cases place? index part.size with
    | none => exact .pure
    | some place =>
      have answer : Plain (do succeed count (← readElement part place)) := by
        grind
      refine isCacheable_plain.ignores.bind fun cacheable => ?_
      exact .ite (fun _ => rememberPart_ignores.andThen answer.ignores) fun _ => answer.ignores

theorem setElementAt_ignores {chars : Bool} {count : Nat} :
    IgnoresCounts (setElementAt chars count) := by
  refine .ite (fun _ => .pure) fun _ => receiverOf_plain.ignores.bind fun receiver => ?_
  refine indexedPart_plain.ignores.bind fun part => ?_
  cases part with
  | none => exact .pure
  | some part =>
    refine argument_plain.ignores.bind fun index => ?_
    cases place? index part.size with
    | none => exact .pure
    | some place =>
      refine argument_plain.ignores.bind fun value => ?_
      refine writeElement_plain.ignores.bind fun written => .ite (fun _ => .pure) fun _ => ?_
      refine isCacheable_plain.ignores.bind fun cacheable => .ite (fun _ => ?_) fun _ => ?_
      · exact rememberPart_ignores.andThen succeed_plain.ignores
      · exact succeed_plain.ignores

/-! ## Computed selectors -/

theorem mismatches_ignores {selector species : Value} {count : Nat} :
    IgnoresCounts (mismatches selector species count) := by
  refine .bind .lookupMethod fun found => ?_
  cases found with
  | none => exact .pure
  | some entry =>
    refine .bind .readHeap fun header => ?_
    cases header <;> exact .pure

section

variable {send : Sender} (sends : ∀ selector count species, IgnoresCounts (send selector count species))

include sends

theorem perform_ignores {count : Nat} : IgnoresCounts (perform send count) := by
  refine .ite (fun _ => .pure) fun _ => argument_plain.ignores.bind fun selector => ?_
  refine .ite (fun _ => .pure) fun _ => receiverOf_plain.ignores.bind fun receiver => ?_
  refine classOf_plain.ignores.bind fun species => mismatches_ignores.bind fun mismatched => ?_
  refine .ite (fun _ => .pure) fun _ => .bindRegisters (fun _ _ => rfl) fun registers => ?_
  refine shiftDown_plain.ignores.andThen (drop_plain.ignores.andThen ?_)
  exact .andThen (sends _ _ _) .pure

theorem performWithArray_ignores {count : Nat} {selector array species : Value} :
    IgnoresCounts (performWithArray send count selector array species) := by
  refine .ite (fun _ => .pure) fun _ => .bindRegisters (fun _ _ => rfl) fun registers => ?_
  refine classOf_plain.ignores.bind fun arrayClass => .ite (fun _ => .pure) fun _ => ?_
  refine object_plain.ignores.bind fun owner => .bind .getHeap fun heap => ?_
  refine .ite (fun _ => .pure) fun _ => mismatches_ignores.bind fun mismatched => ?_
  refine .ite (fun _ => .pure) fun _ => drop_plain.ignores.andThen ?_
  exact (forM_plain fun _ => push_plain).ignores.andThen (.andThen (sends _ _ _) .pure)

theorem performWithArguments_ignores {count : Nat} :
    IgnoresCounts (performWithArguments send count) := by
  refine .ite (fun _ => .pure) fun _ => argument_plain.ignores.bind fun selector => ?_
  refine argument_plain.ignores.bind fun array => receiverOf_plain.ignores.bind fun receiver => ?_
  exact classOf_plain.ignores.bind fun species => performWithArray_ignores sends

theorem performInSuperclass_ignores {count : Nat} :
    IgnoresCounts (performInSuperclass send count) := by
  refine .ite (fun _ => .pure) fun _ => argument_plain.ignores.bind fun selector => ?_
  refine argument_plain.ignores.bind fun array => argument_plain.ignores.bind fun lookup => ?_
  refine receiverOf_plain.ignores.bind fun receiver => classOf_plain.ignores.bind fun species => ?_
  refine .ite (fun _ => .pure) fun _ => .bind .getHeap fun heap => ?_
  refine .bind .inheritsFrom fun inherits => .ite (fun _ => .pure) fun _ => ?_
  exact performWithArray_ignores sends

end

end Reply

namespace Run

section

variable {send : Reply.Sender}
  (sends : ∀ selector count species, IgnoresCounts (send selector count species))

include sends

theorem primitive_ignores (primitive : Primitive) (count : Nat) :
    IgnoresCounts (primitive.run send count) := by
  rcases primitive.plain_or_special send count with plain | special
  · exact plain.ignores
  cases special with
  | elementAt chars => exact Reply.elementAt_ignores
  | setElementAt chars => exact Reply.setElementAt_ignores
  | perform => exact Reply.perform_ignores sends
  | performWithArguments => exact Reply.performWithArguments_ignores sends
  | performInSuperclass => exact Reply.performInSuperclass_ignores sends

theorem respond_ignores {number : Nat} : IgnoresCounts (respond send number) := by
  refine .ite (fun _ => quickPrimitive_plain.ignores) fun _ => ?_
  cases Primitive.ofNumber? number with
  | none => exact .pure
  | some primitive =>
    refine .bindRegisters (fun _ _ => rfl) fun registers => ?_
    refine .bind (primitive_ignores sends primitive _) fun answered => ?_
    refine .ite (fun _ => ?_) fun _ => .pure
    exact .andThen (.modifyRegisters fun _ _ => rfl) .pure

end

/-! ## Messages -/

theorem findMethodBy_follows {resolve : Resolver}
    (resolves : ∀ species, IgnoresCounts (resolve species)) {species : Value}
    {machine other : Machine} (first : (resolve species).Follows machine other) :
    (findMethodBy resolve species).Follows machine other := by
  refine first.bind fun found => .ite (fun _ => .pure) fun _ => ?_
  refine .bindRegisters (fun _ _ => rfl) fun registers => ?_
  refine specialObject_plain.ignores.bind fun doesNotUnderstand => ?_
  refine .ite (fun _ => failUnderstanding_plain.ignores.andThen ?_) fun _ => ?_
  all_goals
    refine packMessage_plain.ignores.andThen (.andThen (.modifyRegisters fun _ _ => rfl) ?_)
    refine (resolves species).bind fun found => ?_
    exact .ite (fun _ => .pure) fun _ => failUnderstanding_plain.ignores

/-- A message that is looked up alike goes on alike, as long as those that it performs do. -/
theorem sendToClassBy_follows {resolve : Resolver}
    (resolves : ∀ species, IgnoresCounts (resolve species)) {depth : Nat}
    (inner : ∀ selector count species,
      IgnoresCounts (sendToClassBy resolve depth selector count species))
    {selector species : Value} {count : Nat} {machine other : Machine}
    (first : Follows (resolve species) (machine.sending selector count species)
      (other.sending selector count species)) :
    Follows (sendToClassBy resolve (depth + 1) selector count species) machine other := by
  refine .bindOk (modifyRegisters_apply _) (modifyRegisters_apply _) ?_
  refine (findMethodBy_follows resolves first).bind fun _ => ?_
  refine .bindRegisters (fun _ _ => rfl) fun registers => .ite (fun _ => ?_) fun _ => ?_
  · refine .bind (respond_ignores inner) fun answered => ?_
    exact .ite (fun _ => .pure) fun _ => activateMethod_plain.ignores
  · exact .bind .pure fun answered => .ite (fun _ => .pure) fun _ => activateMethod_plain.ignores

/-- Messages do not ask for the counts, however deep those that they perform are nested. -/
theorem sendToClassBy_ignores {resolve : Resolver}
    (resolves : ∀ species, IgnoresCounts (resolve species)) (depth : Nat) (selector : Value)
    (count : Nat) (species : Value) :
    IgnoresCounts (sendToClassBy resolve depth selector count species) := by
  induction depth generalizing selector count species with
  | zero => exact .throw
  | succ depth induction =>
    exact fun machine counts =>
      sendToClassBy_follows resolves induction (resolves species _ counts)

end Run

end Smalltalk
