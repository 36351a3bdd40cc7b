import Smalltalk.Proofs.Machine.Messages
import Smalltalk.Proofs.Machine.Piles
import Smalltalk.Proofs.Primitive.Finishes

namespace Smalltalk

/-! Messages within messages come to an end. As long as every message has a method, each one
has fewer arguments than the one before or takes them from an array that was an argument
before, so that they run out unless an array contains itself. Once a message had no method,
each further one needs a new object, which stays, so that the memory runs out. -/

namespace Machine

/-! ## Arrays within arrays -/

/-- Arrays lie within a value fewer than so many levels deep. -/
def Nests (machine : Machine) : (levels : Nat) → Value → Prop
  | 0, _ => False
  | levels + 1, value => ∀ element, machine.Element value element → machine.Nests levels element

variable {before machine after : Machine} {levels : Nat} {value : Value}

theorem Nests.of_element (nests : before.Nests levels value)
    (elements : ∀ array element, after.Element array element → before.Element array element) :
    after.Nests levels value := by
  induction levels generalizing value with
  | zero => exact nests
  | succ levels induction =>
    exact fun element isElement => induction (nests element (elements value element isElement))

/-- A value that reaches deeper is the first of as many arrays, each within the one before. -/
theorem exists_chain_of_not_nests (deep : ¬ machine.Nests (levels + 1) value) :
    ∃ arrays : List Value, arrays.length = levels ∧ (value :: arrays).IsChain machine.Element ∧
      ∀ array ∈ value :: arrays, ∃ object, machine.heap.get? array = some object := by
  rw [Nests] at deep
  simp only [not_forall] at deep
  rcases deep with ⟨element, isElement, deeper⟩
  have live : ∃ object, machine.heap.get? value = some object := by
    rcases isElement with ⟨-, object, here, -⟩
    exact ⟨object, here⟩
  induction levels generalizing value element with
  | zero => exact ⟨[], rfl, List.isChain_singleton value, by simpa using live⟩
  | succ levels induction =>
    rw [Nests] at deeper
    simp only [not_forall] at deeper
    rcases deeper with ⟨inner, isInner, deeper⟩
    have liveElement : ∃ object, machine.heap.get? element = some object := by
      rcases isInner with ⟨-, object, here, -⟩
      exact ⟨object, here⟩
    rcases induction inner isInner deeper liveElement with ⟨arrays, length, chain, all⟩
    refine ⟨element :: arrays, by rw [List.length_cons, length], ?_, ?_⟩
    · exact List.isChain_cons_cons.mpr ⟨isElement, chain⟩
    · exact List.forall_mem_cons.mpr ⟨live, all⟩

/-- Unless an array within a value contains itself, there are no more levels than objects. -/
theorem nests_of_acyclic (acyclic : ¬ value.EntersCircle machine.Element) :
    machine.Nests (machine.heap.cells.size + 1) value := by
  by_contra deep
  rcases exists_chain_of_not_nests deep with ⟨arrays, length, chain, live⟩
  exact acyclic (Heap.entersCircle_of_long chain live length.ge)

/-! ## What one message leads to -/

theorem Untouched.of_sending {selector species : Value} {count : Nat}
    (untouched : (machine.sending selector count species).Untouched after) :
    machine.Untouched after :=
  ⟨untouched.heap, untouched.context, untouched.specials⟩

/-- How the method of a message is found: the message goes on as it is, or the message that
takes its place has it as its only argument. -/
inductive Understands (machine : Machine) (pile : List Value) : Machine → Prop
  | asIs {after : Machine} (untouched : machine.Untouched after)
    (sp : after.registers.sp = machine.registers.sp)
    (arguments : after.registers.argumentCount = machine.registers.argumentCount) :
    Understands machine pile after
  | packed {after : Machine} {message : Value} (balances : machine.heap.Balances after.heap)
    (piled : after.heap.Piled (message :: pile))
    (only : ∀ value, after.Operand 0 value → value = message)
    (arguments : after.registers.argumentCount = 1) : Understands machine pile after

/-- The message that a message leads to: one that it performs, or the selector that has just
been put on the pile. -/
inductive Continues (machine : Machine) (count : Nat) (pile : List Value) :
    Value → Nat → Machine → Prop
  | performed {selector : Value} {rest : Nat} {after : Machine}
    (performs : machine.Performs count selector rest after) :
    Continues machine count pile selector rest after
  | piled {message : Value} {after : Machine} (balances : machine.heap.Balances after.heap)
    (piled : after.heap.Piled (message :: pile)) : Continues machine count pile message 0 after

end Machine

namespace Run

open Machine

variable {machine : Machine} {pile : List Value}

/-- Looking for a method changes neither the objects nor the message. -/
theorem resolveMessage_ensures (machine : Machine) (species : Value) :
    (resolveMessage species).Ensures machine fun _ after =>
      machine.Untouched after ∧ after.registers.sp = machine.registers.sp ∧
        after.registers.argumentCount = machine.registers.argumentCount ∧
        after.registers.messageSelector = machine.registers.messageSelector := by
  refine (ensures_getRegisters machine).bindExactly ?_
  refine .bind (Looks.lookupMethod machine machine (.refl machine)) ?_
  rintro found _ ⟨⟨cache, rfl⟩, -⟩
  cases found with
  | none => exact .pure ⟨⟨rfl, rfl, rfl⟩, rfl, rfl, rfl⟩
  | some entry =>
    refine (ensures_modifyRegisters _ _).bindChange fun _ => ?_
    exact .pure ⟨⟨rfl, rfl, rfl⟩, rfl, rfl, rfl⟩

theorem findMethodBy_understands (tops : Tops pile machine) (balanced : machine.heap.Balanced)
    (piled : machine.heap.Piled pile) (species : Value) :
    (findMethodBy resolveMessage species).Ensures machine fun _ after =>
      machine.Understands pile after := by
  refine (resolveMessage_ensures machine species).bind ?_
  rintro found resolved ⟨untouched, sp, arguments, selector⟩
  split
  · exact .pure (.asIs untouched sp arguments)
  · refine (ensures_getRegisters resolved).bindExactly ?_
    refine (ensures_specialObject resolved _).bindTo fun doesNotUnderstand _ => ?_
    have again : (do
        packMessage species
        modifyRegisters fun registers => { registers with messageSelector := doesNotUnderstand }
        unless ← resolveMessage species do failUnderstanding doesNotUnderstand).Ensures resolved
          fun _ after => machine.Understands pile after := by
      rw [← untouched.heap] at balanced piled
      refine (packMessage_piles balanced piled (tops.of_selector selector) species).bind ?_
      rintro - packed ⟨message, balances, higher, only, argument⟩
      rw [untouched.heap] at balances
      refine (ensures_modifyRegisters packed _).bindChange fun _ => ?_
      refine (resolveMessage_ensures _ species).bind ?_
      rintro understood after ⟨same, sp, arguments, -⟩
      split
      · refine .pure (.packed (same.heap ▸ balances) (same.heap ▸ higher) ?_ ?_)
        · exact fun value operand => only value (same.operand sp operand)
        · exact arguments.trans argument
      · exact (failUnderstanding_ensures _ _).mono fun _ _ => False.elim
    split
    · exact (failUnderstanding_ensures _ _).bind fun _ _ => False.elim
    · exact again

/-- Sending a message finds its method and then goes on as the primitive of the method
does. -/
theorem sendOnce_delegates (balanced : machine.heap.Balanced) (piled : machine.heap.Piled pile)
    {selector : Value} (last : ∀ message ∈ pile.head?, message = selector) (count : Nat)
    (species : Value) :
    Delegates (machine.Continues count pile) (fun sender => sendOnce sender selector count species)
      () machine := by
  have tops : Tops pile (machine.sending selector count species) := last
  refine .bindOk (modifyRegisters_apply _) ?_
  refine .bind (findMethodBy_understands tops balanced piled species) ?_
  rintro - understood understands
  have responds : Delegates (machine.Continues count pile)
      (fun sender => respond sender understood.registers.primitiveIndex) true understood := by
    refine (respond_delegates _ understood).mono fun next rest after performs => ?_
    cases understands with
    | asIs untouched sp arguments =>
      rw [arguments] at performs
      exact .performed (performs.of_untouched untouched.of_sending sp)
    | packed balances higher only argument =>
      rw [argument] at performs
      cases performs with
      | shift _ fewer isSelector _ idle =>
        cases Nat.succ.inj fewer
        cases only _ isSelector
        exact .piled (idle rfl ▸ balances) (idle rfl ▸ higher)
      | spread _ several => omega
  refine .bindOk getRegisters_apply (.ite (fun _ => ?_) fun _ => .const)
  exact responds.andThen rfl

/-! ## The whole of a message -/

/-- Once the selector is itself a message without a method, every further message makes
another one, for which there is room only so often. -/
theorem settles_of_piled (room : Nat) {selector : Value} (balanced : machine.heap.Balanced)
    (piled : machine.heap.Piled pile) (last : ∀ message ∈ pile.head?, message = selector)
    (enough : machine.heap.limit < pile.length + room) (species : Value) :
    Settles (fun sender => sender selector 0 species) machine := by
  induction room generalizing machine pile selector species with
  | zero =>
    have few := piled.length_le balanced
    omega
  | succ room induction =>
    refine settles_of_sendOnce ((sendOnce_delegates balanced piled last 0 species).settles ?_)
    intro next rest species after continues
    cases continues with
    | performed performs =>
      cases performs with
      | shift _ fewer => omega
      | spread _ several => omega
    | piled balances higher =>
      refine induction balances.balanced higher (by simp) ?_ species
      rw [balances.limit, List.length_cons]
      omega

/-- The messages that a message leads to come to an end if its arguments are arrays within
arrays only so many levels deep: passing on the elements of an array leads to fewer levels,
passing on the other arguments to fewer arguments. -/
theorem settles_of_nests (levels count : Nat) {machine : Machine} (selector species : Value)
    (balanced : machine.heap.Balanced)
    (nests : ∀ depth < count, ∀ value, machine.Operand depth value → machine.Nests levels value) :
    Settles (fun sender => sender selector count species) machine := by
  refine settles_of_sendOnce ((sendOnce_delegates balanced (.nil _) (by simp) count species).settles
    ?_)
  intro next rest species after continues
  cases continues with
  | performed performs =>
    cases performs with
    | shift restacked fewer _ others =>
      refine settles_of_nests levels rest next species (restacked.balances balanced).balanced ?_
      intro depth shallow value operand
      have nested := nests depth (by omega) value (others depth shallow value operand)
      exact nested.of_element fun _ _ => restacked.element
    | spread restacked _ isArgument isArray elements =>
      have nested := nests _ isArgument _ isArray
      cases levels with
      | zero => exact nested.elim
      | succ levels =>
        refine settles_of_nests levels rest next species (restacked.balances balanced).balanced ?_
        intro depth shallow value operand
        have inside := nested value (elements depth shallow value operand)
        exact inside.of_element fun _ _ => restacked.element
  | piled balances piled =>
    refine settles_of_piled (after.heap.limit + 1) balances.balanced piled (by simp) ?_ species
    omega
termination_by (levels, count)

/-- A step comes to its end, unless an array that it may pass on contains itself. -/
theorem step_settles (balanced : machine.heap.Balanced)
    (acyclic : ∀ slot value,
      machine.heap.fetch machine.registers.activeContext slot = .ok value →
        ¬ value.EntersCircle machine.Element) :
    Settles (fun sender => stepBy sender) machine := by
  refine (stepBy_delegates machine).settles fun selector count species between untouched => ?_
  have restacked : machine.Restacked between := .of_untouched untouched
  refine settles_of_nests (machine.heap.cells.size + 1) count selector species
    (restacked.balances balanced).balanced fun depth _ value operand => ?_
  have passed := operand.2
  rw [untouched.heap, untouched.context] at passed
  exact (nests_of_acyclic (acyclic _ value passed)).of_element fun _ _ => restacked.element

end Run

end Smalltalk
