import Smalltalk.Proofs.Lookup.Transparency
import Smalltalk.Proofs.Lookup.Walk
import Smalltalk.Proofs.Machine.Delegates
import Smalltalk.Proofs.Machine.References
import Smalltalk.Proofs.Machine.Stops

namespace Smalltalk

/-! What leads back to itself has no end: a walk through classes or contexts that never meets
what it looks for, and a message that passes on an array which contains itself. -/

namespace Run

variable {machine : Machine}

/-- Classes none of which has the method, and whose superclasses are again among them, are
walked through for ever. -/
theorem methodFrom_endless {selector species : Value} (around : Value → Prop)
    (proper : ∀ species, around species → species ≠ machine.registers.specials.nil)
    (without : ∀ species, around species →
      machine.heap.ownMethod selector machine.registers.specials.nil species = .ok none)
    (further : ∀ species, around species → ∃ above,
      machine.heap.fetch species ClassField.superclass = .ok above ∧ around above)
    (start : around species) (budget : Nat) :
    ∃ after, methodFrom selector budget species machine = .error .endlessChain after := by
  induction budget generalizing machine species with
  | zero =>
    refine ⟨machine, ?_⟩
    rw [methodFrom, bind_ok getNil_apply, if_neg (proper species start)]
    rfl
  | succ budget induction =>
    rcases further species start with ⟨above, leads, again⟩
    rw [methodFrom_proper (proper species start), without species start]
    let counted := machine.withCacheCounts machine.registers.methodCache.countDictionaryProbe.counts
    have next : fetch species ClassField.superclass counted = .ok above counted := fetch_ok leads
    rcases @induction counted above proper without further again with ⟨after, stopped⟩
    exact ⟨after, (bind_ok next).trans stopped⟩

/-- Contexts apart from the one that is looked for, whose senders are again among them, are
walked through for ever. -/
theorem contextsAbove_endless {target context : Value} (around : Value → Prop)
    (proper : ∀ context, around context →
      context ≠ target ∧ context ≠ machine.registers.specials.nil)
    (further : ∀ context, around context → ∃ sender,
      machine.heap.fetch context ContextField.sender = .ok sender ∧ around sender)
    (start : around context) (budget : Nat) :
    contextsAbove target budget context machine = .error .endlessChain machine := by
  induction budget generalizing context with
  | zero =>
    rcases proper context start with ⟨apart, isObject⟩
    rw [contextsAbove, if_neg apart, bind_ok getNil_apply, if_neg isObject]
    rfl
  | succ budget induction =>
    rcases proper context start with ⟨apart, isObject⟩
    rcases further context start with ⟨sender, leads, again⟩
    rw [contextsAbove, if_neg apart, bind_ok getNil_apply, if_neg isObject]
    exact (bind_ok (fetch_ok leads)).trans (bind_error (induction again))

/-- A machine that is about to send a message to an object whose class is its own
superclass. -/
def circularClass : Machine :=
  let nil : Value := .object 0
  Machine.sampleMachine
    [Machine.sampleNode .zero #[], Machine.sampleNode .zero #[.object 1, nil, .zero],
      Machine.sampleNode .zero #[], Machine.sampleNode .zero #[], Machine.sampleNode .zero #[],
      Machine.sampleNode .zero #[], Machine.sampleMethod 0 [.object 4] #[208],
      Machine.sampleNode .zero #[nil, nil, nil, .object 6, nil, .object 8, nil, nil],
      Machine.sampleNode (.object 1) #[]]
    9 nil

/-- A machine that is about to return from a block whose sender is the block itself. -/
def circularSender : Machine :=
  let nil : Value := .object 0
  let machine := Machine.sampleMachine
    [Machine.sampleNode .zero #[], Machine.sampleNode .zero #[], Machine.sampleNode .zero #[],
      Machine.sampleNode .zero #[], Machine.sampleNode .zero #[], Machine.sampleNode .zero #[],
      Machine.sampleMethod 0 [] #[120],
      Machine.sampleNode .zero #[.object 7, nil, nil, .zero, nil, .object 9, nil, nil],
      Machine.sampleNode .zero #[],
      Machine.sampleNode .zero #[.object 10, nil, nil, .object 6, nil, .object 8, nil, nil],
      Machine.sampleNode .zero #[nil, .zero, .zero, .object 6, nil, .object 8, nil, nil]]
    11 nil
  { machine with registers.homeContext := .object 9 }

/-- A machine in the middle of a message that asks its receiver to perform a selector with the
elements of an array. The elements are the same selector and the array. -/
def passingOn (counts : CacheCounts) : Machine :=
  let nil : Value := .object 0
  let machine := Machine.sampleMachine
    [Machine.sampleNode .zero #[], Machine.sampleNode .zero #[nil, nil, .zero],
      Machine.sampleNode .zero #[], Machine.sampleNode .zero #[], Machine.sampleNode .zero #[],
      { species := .zero
        format := Format.method
        body := .method #[(MethodHeader.pack 2 2 0 84 false).value] #[120] },
      Machine.sampleMethod 0 [.object 4] #[240],
      Machine.sampleNode .zero #[nil, nil, nil, .object 6, nil, .object 8, .object 4, .object 9],
      Machine.sampleNode (.object 1) #[], Machine.sampleNode nil #[.object 4, .object 9]]
    10 nil
  { machine with
    bytecodes := 1
    registers := { machine.registers with
      pc := 1
      sp := 7
      newMethod := .object 5
      messageSelector := .object 4
      lookupClass := .object 1
      argumentCount := 2
      primitiveIndex := 84
      methodCache :=
        { entries := #[⟨.object 4, .object 1, .object 5, 84⟩], probes := 1, counts } } }

/-- The method that the cache remembers for the message. -/
def passingOnEntry : CacheEntry := ⟨.object 4, .object 1, .object 5, 84⟩

theorem lookupMethod_passingOn (counts : CacheCounts) :
    lookupMethod (.object 4) (.object 1) (passingOn counts)
      = .ok (some passingOnEntry) (passingOn { counts with hits := counts.hits + 1 }) := by
  have selectorHash : (passingOn counts).heap.hashOf (.object 4) = 0 := rfl
  have classHash : (passingOn counts).heap.hashOf (.object 1) = 0 := rfl
  have present : (passingOn counts).registers.methodCache.find? (.object 4) (.object 1)
      ((passingOn counts).heap.hashOf (.object 4)) ((passingOn counts).heap.hashOf (.object 1))
        = some passingOnEntry := by
    rw [selectorHash, classHash]
    rfl
  exact bind_ok (cachedMethod_some present)

/-- The message that is performed is the same again. -/
theorem performWithArguments_passingOn (sender : Reply.Sender) (counts : CacheCounts) :
    Reply.performWithArguments sender 2 (passingOn counts)
      = (sender (.object 4) 2 (.object 1) >>= fun _ => pure true)
        (passingOn { counts with hits := counts.hits + 1 }) := by
  have selector : argument 2 0 (passingOn counts) = .ok (.object 4) (passingOn counts) := rfl
  have array : argument 2 1 (passingOn counts) = .ok (.object 9) (passingOn counts) := rfl
  have receiver : receiverOf 2 (passingOn counts) = .ok (.object 8) (passingOn counts) := rfl
  have species : classOf (.object 8) (passingOn counts) = .ok (.object 1) (passingOn counts) := rfl
  have arrayClass : classOf (.object 9) (passingOn counts) = .ok (.object 0) (passingOn counts) := rfl
  have elements : object (.object 9) (passingOn counts)
      = .ok (Machine.sampleNode (.object 0) #[.object 4, .object 9]) (passingOn counts) := rfl
  have fits (counts : CacheCounts) : Reply.mismatches (.object 4) (.object 1) 2 (passingOn counts)
      = .ok false (passingOn { counts with hits := counts.hits + 1 }) :=
    (bind_ok (lookupMethod_passingOn counts)).trans rfl
  refine (bind_ok selector).trans ((bind_ok array).trans ((bind_ok receiver).trans ?_))
  refine (bind_ok species).trans ((bind_ok getRegisters_apply).trans ((bind_ok arrayClass).trans ?_))
  refine (bind_ok elements).trans ((bind_ok getHeap_apply).trans ((bind_ok (fits counts)).trans ?_))
  rfl

theorem sendOnce_passingOn (sender : Reply.Sender) (counts : CacheCounts) :
    sendOnce sender (.object 4) 2 (.object 1) (passingOn counts)
      = sender (.object 4) 2 (.object 1) (passingOn { counts with hits := counts.hits + 2 }) := by
  let later : CacheCounts := { counts with hits := counts.hits + 1 }
  have found : findMethodBy resolveMessage (.object 1) (passingOn counts)
      = .ok () (passingOn later) :=
    (bind_ok ((bind_ok getRegisters_apply).trans
      ((bind_ok (lookupMethod_passingOn counts)).trans rfl))).trans rfl
  have responds : respond sender 84 (passingOn later)
      = (sender (.object 4) 2 (.object 1) >>= fun _ => pure true)
        (passingOn { counts with hits := counts.hits + 2 }) := by
    have primitive : Primitive.ofNumber? 84 = some .performWithArguments := by decide
    have quick : ¬ (quickSelf ≤ 84 ∧ 84 ≤ quickLast) := by decide
    rw [respond, if_neg quick, primitive]
    refine (bind_ok getRegisters_apply).trans ?_
    have performs := performWithArguments_passingOn sender later
    change (Reply.performWithArguments sender 2 >>= _) (passingOn later) = _
    simp only [bind, EStateM.bind] at performs ⊢
    rw [performs]
    cases sender (.object 4) 2 (.object 1) (passingOn { counts with hits := counts.hits + 2 })
    all_goals rfl
  refine (bind_ok found).trans ((bind_ok getRegisters_apply).trans ?_)
  change (respond sender 84 >>= _) (passingOn later) = _
  simp only [bind, EStateM.bind] at responds ⊢
  rw [responds]
  cases sender (.object 4) 2 (.object 1) (passingOn { counts with hits := counts.hits + 2 })
  all_goals rfl

theorem sendToClass_passingOn (depth : Nat) (counts : CacheCounts) :
    ∃ after, sendToClass depth (.object 4) 2 (.object 1) (passingOn counts)
      = .error .nestedTooDeep after := by
  rw [sendToClass_eq]
  induction depth generalizing counts with
  | zero => exact ⟨_, rfl⟩
  | succ depth induction =>
    rcases induction { counts with hits := counts.hits + 2 } with ⟨after, stopped⟩
    exact ⟨after, (sendOnce_passingOn _ counts).trans stopped⟩

/-- The same machine before the message that starts it all. -/
def aboutToPass : Machine := { passingOn {} with registers.pc := 0, bytecodes := 0 }

/-- The step performs messages within messages for ever. -/
theorem stepBy_aboutToPass (depth : Nat) :
    ∃ after, stepBy (sendToClass depth) aboutToPass = .error .nestedTooDeep after := by
  have byte : nextByte aboutToPass = .ok 240 { passingOn {} with bytecodes := 0 } := rfl
  have opcode : Opcode.ofByte 240 = .sendLiteral 0 2 := by decide
  have sends : stepBy (sendToClass depth) aboutToPass =
      sendToClass depth (.object 4) 2 (.object 1) (passingOn {}) := by
    refine (bind_ok byte).trans ((bind_ok (modify_apply _)).trans ?_)
    rw [execute, opcode]
    rfl
  rw [sends]
  exact sendToClass_passingOn depth {}

/-- The class whose superclass it is itself is walked through for ever. -/
theorem methodFrom_circularClass (budget : Nat) :
    ∃ after, methodFrom (.object 4) budget (.object 1) circularClass
      = .error .endlessChain after := by
  refine methodFrom_endless (· = .object 1) ?_ ?_ ?_ rfl budget
  · rintro _ rfl
    decide
  · rintro _ rfl
    rfl
  · rintro _ rfl
    exact ⟨.object 1, rfl, rfl⟩

/-- The context whose sender it is itself is walked through for ever. -/
theorem contextsAbove_circularSender (budget : Nat) :
    contextsAbove (.object 10) budget (.object 7) circularSender
      = .error .endlessChain circularSender := by
  refine contextsAbove_endless (· = .object 7) ?_ ?_ rfl budget
  · rintro _ rfl
    decide
  · rintro _ rfl
    exact ⟨.object 7, rfl, rfl⟩

end Run

end Smalltalk
