import Smalltalk.Proofs.Indexed.Asking

namespace Smalltalk

/-! The instructions for `at:` and `at:put:` come to the same as the full send of their
special selectors, whatever the caches remember. -/

namespace Machine

/-- Whether the special selectors have a selector for the message that asks for an access,
with the number of its arguments. -/
def Asks (machine : Machine) (access : Access) (selector : Value) : Prop :=
  machine.Selects access selector ∧
    machine.heap.fetchInt machine.registers.specials.specialSelectors
      (access.message.index * 2 + 1) = .ok access.count

variable {machine : Machine} {access : Access} {receiver : Value} {part : IndexedPart}

/-- Whether `at:` reads a word of a receiver whose part is remembered, and there is no small
integer for the word. -/
def ReadsLargeWord (machine : Machine) (word : UInt32) : Prop :=
  ∃ part index place, Run.operand 1 machine = .ok part.object machine ∧
    machine.recalled? .read part.object = some part ∧
    Run.operand 0 machine = .ok index machine ∧ Reply.place? index part.size = some place ∧
    part.kind = .words ∧ Reply.wordAt part.object (part.fixed + place) machine = .ok word machine ∧
    Value.ofInt? word.toNat = none

/-- What is recalled has been remembered, for the receiver itself. -/
theorem recalled_eq_some (recalled : machine.recalled? access receiver = some part) :
    some part ∈ machine.registers.atCache.side access ∧ part.object = receiver := by
  rw [recalled?] at recalled
  split at recalled
  · cases recalled
  · refine ⟨?_, AtCache.object_of_find? recalled⟩
    have joined := (Option.filter_eq_some_iff.mp recalled).1
    exact Array.mem_of_getElem? (Option.join_eq_some_iff.mp joined)

end Machine

namespace Run

open Reply

variable {machine found after : Machine} {access : Access} {selector receiver : Value}
  {part : IndexedPart} {owner : HeapObject}

theorem sendSpecial_apply (sender : Reply.Sender) (asks : machine.Asks access selector) :
    sendSpecial sender access.message.index machine
      = (do sender selector access.count (← classOf (← operand access.count))) machine := by
  have counted : fetchInt machine.registers.specials.specialSelectors
      (access.message.index * 2 + 1) machine = .ok access.count machine := readHeap_ok asks.2
  refine (bind_ok getRegisters_apply).trans ((bind_ok (fetch_ok asks.1.2)).trans
    ((bind_ok counted).trans ?_))
  cases access <;> rfl

/-- The full send for a receiver whose part is remembered comes to the primitive that does
the access. -/
theorem sendSpecial_replies (remembers : machine.Remembers machine)
    (asks : machine.Asks access selector)
    (asked : operand access.count machine = .ok receiver machine)
    (recalled : machine.recalled? access receiver = some part) (depth : Nat) :
    ∃ (found : Machine) (number : Nat), found.Alike machine ∧
      found.registers.argumentCount = access.count ∧
      Primitive.ofNumber? number = some (access.primitive part.hasChars) ∧
      sendSpecial (sendToClass (depth + 1)) access.message.index machine = (do
        let answered ← respond (sendToClass depth) number
        unless answered do activateMethod) found := by
  rcases Machine.recalled_eq_some recalled with ⟨member, rfl⟩
  rcases remembers.parts access part member selector asks.1 with ⟨owner, here, vouches⟩
  rcases vouches.answered with ⟨method, number, confirms, known⟩
  have cached (stored : CacheEntry) (listed : stored ∈ machine.registers.methodCache.entries)
      (same : stored.selector = selector) :
      machine.heap.Confirms machine.registers.specials.nil stored :=
    remembers.methods stored listed access (same ▸ asks.1)
  rcases sendToClass_confirmed asks.1.1 confirms cached (Primitive.number_of_ofNumber? known).1
    depth access.count with ⟨found, alike, count, sent⟩
  refine ⟨found, number, alike, count, known, ?_⟩
  rw [sendSpecial_apply _ asks]
  exact (bind_ok asked).trans ((bind_ok (classOf_object here)).trans sent)

/-- The primitive that answers an access does what the instruction does on the spot. -/
theorem primitive_outcome (vouches : machine.Vouches access selector owner part)
    (asks : machine.Asks access selector)
    (asked : operand access.count machine = .ok part.object machine)
    (here : machine.heap.get? part.object = some owner)
    (recalled : machine.recalled? access part.object = some part) (alike : found.Alike machine)
    (room : access = .read → ∀ word, machine.ReadsLargeWord word →
      machine.heap.size < machine.heap.capacity) (send : Reply.Sender) :
    (access.perform part).outcome machine
      = ((access.primitive part.hasChars).run send access.count).outcome found := by
  rcases vouches.described with ⟨format, described, same⟩
  have again := Blind.operand_reads alike asked
  have fetched := asks.1.2
  rw [← alike.heap] at here described fetched
  rw [← alike.specials] at fetched
  cases access with
  | read =>
    refine elementAt_outcome alike.symm again here described same fetched ?_
    intro index place word index_known inside words read large
    exact room rfl word
      ⟨part, index, place, asked, recalled, index_known, inside, words, read, large⟩
  | write => exact setElementAt_outcome alike.symm again here described same fetched

/-- The instruction for an access comes to what the full send comes to, unless it reads a
word for which a new number is made while the table is full. -/
theorem execute_outcome (remembers : machine.Remembers machine)
    (asks : machine.Asks access selector)
    (room : access = .read → ∀ word, machine.ReadsLargeWord word →
      machine.heap.size < machine.heap.capacity) (depth : Nat) :
    (execute (sendToClass (depth + 1)) access.opcode).outcome machine
      = (sendSpecial (sendToClass (depth + 1)) access.message.index).outcome machine := by
  rw [execute_access]
  cases asked : operand access.count machine with
  | error stop after =>
    have stopped : sendSpecial (sendToClass (depth + 1)) access.message.index machine
        = .error stop after :=
      (sendSpecial_apply _ asks).trans (bind_error asked)
    rw [outcome_of_error stopped]
    exact outcome_of_error (bind_error (inline_fails asked))
  | ok receiver after =>
    rcases ensures_operand machine access.count receiver after asked with ⟨-, rfl⟩
    cases recalled : after.recalled? access receiver with
    | none => exact outcome_of_eq (bind_ok (inline_forgotten asked recalled))
    | some part =>
      rcases Machine.recalled_eq_some recalled with ⟨member, rfl⟩
      rcases remembers.parts access part member selector asks.1 with ⟨owner, here, vouches⟩
      rcases sendSpecial_replies remembers asks asked recalled depth with
        ⟨found, number, alike, count, known, sent⟩
      have same := primitive_outcome vouches asks asked here recalled alike room
        (sendToClass depth)
      have inline := inline_recalled asked recalled
      have responds := @respond_apply found number _ (sendToClass depth) known
      rw [count] at responds
      cases performed : access.perform part after with
      | error stop stopped =>
        rcases outcome_eq_error (same.symm.trans (outcome_of_error performed)) with
          ⟨last, replied, equal⟩
        rw [outcome_of_error (bind_error (inline.trans performed)), outcome_of_error
          (sent.trans (bind_error (responds.trans (bind_error replied)))), equal]
      | ok done ended =>
        cases done with
        | false =>
          -- Nothing was done, and the send follows anyway.
          cases access.perform_ensures part after false ended performed rfl
          exact outcome_of_eq (bind_ok (inline.trans performed))
        | true =>
          rcases outcome_eq_ok (same.symm.trans (outcome_of_ok performed)) with
            ⟨last, replied, equal⟩
          have responded : respond (sendToClass depth) number found = .ok true last :=
            responds.trans (bind_ok replied)
          have finished : sendSpecial (sendToClass (depth + 1)) access.message.index after
              = .ok () last := sent.trans (bind_ok responded)
          rw [outcome_of_ok finished, equal]
          exact outcome_of_ok (bind_ok (inline.trans performed))

end Run

end Smalltalk
