import Smalltalk.Proofs.Indexed.Elements
import Smalltalk.Proofs.Machine.References

namespace Smalltalk

/-! A range of elements is replaced by one of another object, or of the same one. What is
copied is what was there before, also where the two ranges overlap, and whether it is
copied at all depends on the two parts and the three numbers alone. -/

namespace Reply

variable {α : Type} {target source : Array α} {start origin count : Nat}

/-- A range that is copied is taken from the source as it was. -/
theorem getElem?_copyRange (inTarget : start + count ≤ target.size)
    (inSource : origin + count ≤ source.size) (index : Nat) :
    (copyRange target source start origin count)[index]?
      = if start ≤ index ∧ index < start + count then source[origin + (index - start)]?
        else target[index]? := by
  have front : (target.extract 0 start).size = start := by
    simp
    omega
  have middle : (source.extract origin (origin + count)).size = count := by
    simp
    omega
  rw [copyRange, Array.append_assoc]
  rcases Nat.lt_or_ge index start with before | behind
  · rw [Array.getElem?_append_left (by omega), if_neg (by omega), Array.getElem?_extract,
      if_pos (by omega), Nat.zero_add]
  · rw [Array.getElem?_append_right (by omega), front]
    rcases Nat.lt_or_ge index (start + count) with inside | beyond
    · rw [Array.getElem?_append_left (by omega), if_pos ⟨behind, inside⟩,
        Array.getElem?_extract, if_pos (by omega)]
    · rw [Array.getElem?_append_right (by omega), middle, if_neg (by omega),
        Array.getElem?_extract]
      rcases Nat.lt_or_ge index target.size with known | unknown
      · rw [if_pos (by omega)]
        congr 1
        omega
      · rw [if_neg (by omega), Array.getElem?_eq_none unknown]

end Reply

namespace Body

/-- Two bodies have slots of one kind. -/
inductive Alike : Body → Body → Prop
  | pointers {fields others : Array Value} : Alike (.pointers fields) (.pointers others)
  | words {data others : Array UInt32} : Alike (.words data) (.words others)
  | bytes {data others : Array UInt8} : Alike (.bytes data) (.bytes others)

/-- A body after slots from `first` on have been replaced by those of another one. -/
def copied (source : Body) (first origin length : Nat) : Body → Body :=
  match source with
  | .pointers elements => .mapPointers (Reply.copyRange · elements first origin length)
  | .words elements => .mapWords (Reply.copyRange · elements first origin length)
  | .bytes elements => .mapBytes (Reply.copyRange · elements first origin length)
  | .method _ _ => id
  | .float _ => id

variable {source target : Body} {first origin length : Nat}

theorem Alike.sameShape_copied (alike : target.Alike source)
    (inTarget : first + length ≤ target.slotCount)
    (inSource : origin + length ≤ source.slotCount) :
    target.SameShape (source.copied first origin length target) := by
  cases alike <;> constructor <;> exact Reply.size_copyRange inTarget inSource

theorem Alike.datum?_copied (alike : target.Alike source)
    (inTarget : first + length ≤ target.slotCount)
    (inSource : origin + length ≤ source.slotCount) (slot : Nat) :
    (source.copied first origin length target).datum? slot
      = if first ≤ slot ∧ slot < first + length then source.datum? (origin + (slot - first))
        else target.datum? slot := by
  cases alike <;>
    · simp only [copied, mapPointers, mapWords, mapBytes, datum?,
        Reply.getElem?_copyRange inTarget inSource]
      split <;> rfl

end Body

namespace IndexedPart

variable {part other : IndexedPart} {body source : Body}

theorem IsOf.alike (isOf : part.IsOf body) (isOther : other.IsOf source)
    (kind : part.kind = other.kind) : body.Alike source := by
  cases isOf <;> cases isOther <;> cases kind <;> constructor

end IndexedPart

/-- A range of a part that is to be replaced, and where its replacement starts. The indexes
count from one. -/
structure Replacement where
  target : IndexedPart
  source : IndexedPart
  start : Int
  stop : Int
  origin : Int

namespace Replacement

variable {request : Replacement} {old copied : Body}

/-- The number of elements that are replaced. -/
def length (request : Replacement) : Nat := (request.stop - request.start + 1).toNat

/-- The slot of the first element that is replaced. -/
def firstSlot (request : Replacement) : Nat :=
  request.target.fixed + (request.start - 1).toNat

/-- The slot of the first element that is copied. -/
def originSlot (request : Replacement) : Nat :=
  request.source.fixed + (request.origin - 1).toNat

/-- Whether a slot is one of those that are replaced. -/
def Covers (request : Replacement) (slot : Nat) : Prop :=
  request.firstSlot ≤ slot ∧ slot < request.firstSlot + request.length

/-- Both parts are of one kind, and both ranges lie inside them. An empty range may lie
before the first element or behind the last one. -/
structure Fits (request : Replacement) : Prop where
  kind : request.target.kind = request.source.kind
  start : 1 ≤ request.start
  origin : 1 ≤ request.origin
  length : request.start - 1 ≤ request.stop
  target : request.stop ≤ request.target.size
  source : request.origin - 1 + (request.stop - request.start + 1) ≤ request.source.size

theorem Fits.target_slots (fits : request.Fits) :
    request.firstSlot + request.length ≤ request.target.fixed + request.target.size := by
  have := fits.start
  have := fits.length
  have := fits.target
  simp only [firstSlot, Replacement.length]
  omega

theorem Fits.source_slots (fits : request.Fits) :
    request.originSlot + request.length ≤ request.source.fixed + request.source.size := by
  have := fits.origin
  have := fits.length
  have := fits.source
  simp only [originSlot, Replacement.length]
  omega

end Replacement

namespace Machine

variable {machine after : Machine} {receiver start stop replacement origin object : Value}
  {part : IndexedPart} {owner : HeapObject} {request : Replacement}

/-- The values on the stack ask for a replacement. -/
structure Requests (machine : Machine) (receiver start stop replacement origin : Value)
    (request : Replacement) : Prop where
  target : machine.part? receiver false = some request.target
  source : machine.part? replacement false = some request.source
  start : start.int? = some request.start
  stop : stop.int? = some request.stop
  origin : origin.int? = some request.origin

/-- The three numbers are small integers, but the class of the receiver or of the replacement
has no description. -/
def LacksDescription (machine : Machine) (receiver start stop replacement origin : Value) :
    Prop :=
  start.isSmall = true ∧ stop.isSmall = true ∧ origin.isSmall = true ∧
    ¬ (machine.IsDescribed receiver ∧ machine.IsDescribed replacement)

/-- An object that has fields has at least the named ones, if its class is described. -/
def HoldsNamed (machine : Machine) (object : Value) : Prop :=
  ∀ owner format fields, machine.heap.get? object = some owner →
    machine.heap.classFormat owner.species = .ok format → owner.body = .pointers fields →
    format.fieldCount ≤ fields.size

theorem HoldsNamed.reach (named : machine.HoldsNamed object)
    (here : machine.heap.get? object = some owner)
    (found : machine.part? object false = some part) :
    part.IsOf owner.body ∧ part.fixed + part.size = owner.body.slotCount := by
  rcases part?_eq_some_iff.mp found with ⟨same, format, isSame, described, isPart⟩
  obtain rfl : owner = same := Option.some.inj (here.symm.trans isSame)
  have isOf := IndexedPart.isOf_of_ofBody? isPart
  refine ⟨isOf, isOf.reach ?_⟩
  cases body : owner.body with
  | pointers fields =>
    rw [IndexedPart.fixed_of_ofBody? isPart body]
    exact named owner format fields here described body
  | words data | bytes data | method literals bytecode | float bits =>
    rw [body] at isOf
    cases isOf <;> exact Nat.zero_le _

/-- How a replacement leaves a machine. The receiver lies on top of the stack, and nothing but
its body has been written to. The slots that are replaced hold what the replacement held
before, and all others what they held. -/
structure Replaced (machine : Machine) (receiver replacement : Value) (request : Replacement)
    (after : Machine) : Prop where
  only : ∃ change, after = machine.withTop (machine.heap.updateBody receiver change)
    (machine.registers.sp - 4)
  answer : after.Operand 0 receiver
  body : ∃ owner source, machine.heap.get? receiver = some owner ∧
    machine.heap.get? replacement = some source ∧ ∃ body,
    after.heap.get? receiver = some { owner with body } ∧ owner.body.SameShape body ∧
    (∀ step < request.length, ∃ datum,
      source.body.datum? (request.originSlot + step) = some datum ∧
      body.datum? (request.firstSlot + step) = some datum) ∧
    ∀ slot, ¬ (request.firstSlot ≤ slot ∧ slot < request.firstSlot + request.length) →
      body.datum? slot = owner.body.datum? slot

/-- No other object has been written to. -/
theorem Replaced.others (replaced : machine.Replaced receiver replacement request after)
    {other : Value} (different : other ≠ receiver) :
    after.heap.get? other = machine.heap.get? other := by
  rcases replaced.only with ⟨change, rfl⟩
  exact machine.heap.get?_update_other different.symm _

end Machine

namespace Reply

open Run

variable {machine : Machine} {receiver start stop replacement origin : Value}
  {request : Replacement} {owner source : HeapObject}

/-- Where the receiver and the arguments of a replacement are found. -/
theorem replaceFromTo_operands
    (operands : machine.Operands [receiver, start, stop, replacement, origin])
    (next : Value → Value → Value → Value → Value → Run Bool) :
    (do
      let receiver ← receiverOf 4
      let replacement ← argument 4 2
      let start ← argument 4 0
      let stop ← argument 4 1
      let origin ← argument 4 3
      next receiver replacement start stop origin) machine
      = next receiver replacement start stop origin machine := by
  have onReceiver : machine.Operand 4 receiver := operands.operand (show 0 < 5 by decide)
  have onStart : machine.Operand 3 start := operands.operand (show 1 < 5 by decide)
  have onStop : machine.Operand 2 stop := operands.operand (show 2 < 5 by decide)
  have onReplacement : machine.Operand 1 replacement :=
    operands.operand (show 3 < 5 by decide)
  have onOrigin : machine.Operand 0 origin := operands.operand (show 4 < 5 by decide)
  refine (bind_ok (receiverOf_ok onReceiver)).trans ?_
  refine (bind_ok (argument_ok (by decide) onReplacement)).trans ?_
  refine (bind_ok (argument_ok (by decide) onStart)).trans ?_
  refine (bind_ok (argument_ok (by decide) onStop)).trans ?_
  exact bind_ok (argument_ok (by decide) onOrigin)

/-- Copying between two bodies with slots of one kind. -/
theorem replaceRange_apply {α : Type} {part : Body → Option (Array α)}
    {change : (Array α → Array α) → Body → Body} {first origin length : Nat}
    {elements old : Array α} (here : machine.heap.get? receiver = some owner)
    (there : machine.heap.get? replacement = some source)
    (isTarget : part owner.body = some old) (isSource : part source.body = some elements)
    (inTarget : first + length ≤ old.size) (inSource : origin + length ≤ elements.size) :
    replaceRange part change receiver replacement first origin length machine
      = .ok () (machine.withHeap (machine.heap.updateBody receiver
          (change (copyRange · elements first origin length)))) := by
  refine (bind_ok (object_ok there)).trans ((bind_ok (object_ok here)).trans ?_)
  rw [isSource, isTarget]
  dsimp only
  rw [if_neg (by omega)]
  rfl

/-- What does not fit is not touched. -/
theorem replaceFromTo_refuses
    (operands : machine.Operands [receiver, start, stop, replacement, origin])
    (described : ¬ machine.LacksDescription receiver start stop replacement origin)
    (unfit : ∀ request, machine.Requests receiver start stop replacement origin request →
      ¬ request.Fits) :
    replaceFromTo 4 machine = .ok false machine := by
  rw [replaceFromTo, if_neg (by decide)]
  refine (replaceFromTo_operands operands _).trans ?_
  cases start with
  | object _ => rfl
  | small first =>
    cases stop with
    | object _ => rfl
    | small last =>
      cases origin with
      | object _ => rfl
      | small offset =>
        have both : machine.IsDescribed receiver ∧ machine.IsDescribed replacement := by
          by_contra missing
          exact described ⟨rfl, rfl, rfl, missing⟩
        refine (bind_ok (indexedPart_apply both.1)).trans
          ((bind_ok (indexedPart_apply both.2)).trans ?_)
        cases isTarget : machine.part? receiver false with
        | none => rfl
        | some target =>
          cases isSource : machine.part? replacement false with
          | none => rfl
          | some source =>
            have unfit := unfit ⟨target, source, first.val, last.val, offset.val⟩
              ⟨isTarget, isSource, rfl, rfl, rfl⟩
            dsimp only
            split
            · rfl
            · rename_i kind
              rw [if_pos]
              · rfl
              · by_contra inside
                refine unfit ⟨not_not.mp kind, ?_, ?_, ?_, ?_, ?_⟩ <;> dsimp only <;> omega

/-- A description that is missing stops the machine. -/
theorem replaceFromTo_stops
    (operands : machine.Operands [receiver, start, stop, replacement, origin])
    (lacks : machine.LacksDescription receiver start stop replacement origin) :
    ∃ error, replaceFromTo 4 machine = .error (.error (.memory error)) machine := by
  rcases lacks with ⟨smallStart, smallStop, smallOrigin, undescribed⟩
  rw [replaceFromTo, if_neg (by decide), replaceFromTo_operands operands]
  cases start with
  | object _ => cases smallStart
  | small first =>
    cases stop with
    | object _ => cases smallStop
    | small last =>
      cases origin with
      | object _ => cases smallOrigin
      | small offset =>
        by_cases described : machine.IsDescribed receiver
        · rcases indexedPart_refused fun too => undescribed ⟨described, too⟩ with ⟨error, refused⟩
          exact ⟨error, (bind_ok (indexedPart_apply described)).trans (bind_error refused)⟩
        · rcases indexedPart_refused described with ⟨error, refused⟩
          exact ⟨error, bind_error refused⟩

/-- What fits is copied, and the receiver is left on top of the stack. -/
theorem replaceFromTo_copies
    (operands : machine.Operands [receiver, start, stop, replacement, origin])
    (named : machine.HoldsNamed receiver) (namedToo : machine.HoldsNamed replacement)
    (requests : machine.Requests receiver start stop replacement origin request)
    (fits : request.Fits) (here : machine.heap.get? receiver = some owner)
    (there : machine.heap.get? replacement = some source) :
    replaceFromTo 4 machine = .ok true (machine.withTop
      (machine.heap.updateBody receiver
        (source.body.copied request.firstSlot request.originSlot request.length))
      (machine.registers.sp - 4)) := by
  have inTarget := fits.target_slots
  have inSource := fits.source_slots
  rcases named.reach here requests.target with ⟨target, reach⟩
  rcases namedToo.reach there requests.source with ⟨copied, reachToo⟩
  rw [reach] at inTarget
  rw [reachToo] at inSource
  rw [replaceFromTo, if_neg (by decide), replaceFromTo_operands operands, requests.start,
    requests.stop, requests.origin]
  refine (bind_ok (indexedPart_apply (Machine.isDescribed_of_part? requests.target))).trans
    ((bind_ok (indexedPart_apply (Machine.isDescribed_of_part? requests.source))).trans ?_)
  rw [requests.target, requests.source]
  dsimp only
  have inside : ¬ (request.stop - request.start + 1 < 0 ∨ request.start < 1 ∨ request.origin < 1 ∨
      (request.target.size : Int) < request.stop ∨ (request.source.size : Int)
        < request.origin - 1 + (request.stop - request.start + 1)) := by
    have := fits.start
    have := fits.origin
    have := fits.length
    have := fits.target
    have := fits.source
    omega
  rw [if_neg (not_not.mpr fits.kind), if_neg inside]
  have alike := target.alike copied fits.kind
  have kinds := copied.kinds
  generalize old : owner.body = before at alike inTarget
  cases kind : request.source.kind <;>
    · rw [kind] at kinds
      rcases kinds with ⟨elements, body⟩
      rw [body] at alike inSource
      cases alike
      refine (bind_ok (replaceRange_apply here there (by rw [old]; rfl) (by rw [body]; rfl)
        inTarget inSource)).trans ?_
      rw [body]
      rfl

/-- How the copy leaves the machine, if the receiver is not the context whose stack is used. -/
theorem replaced_of_copied
    (operands : machine.Operands [receiver, start, stop, replacement, origin])
    (apart : receiver ≠ machine.registers.activeContext)
    (named : machine.HoldsNamed receiver) (namedToo : machine.HoldsNamed replacement)
    (requests : machine.Requests receiver start stop replacement origin request)
    (fits : request.Fits) (here : machine.heap.get? receiver = some owner)
    (there : machine.heap.get? replacement = some source) :
    machine.Replaced receiver replacement request (machine.withTop
      (machine.heap.updateBody receiver
        (source.body.copied request.firstSlot request.originSlot request.length))
      (machine.registers.sp - 4)) := by
  have inTarget := fits.target_slots
  have inSource := fits.source_slots
  rcases named.reach here requests.target with ⟨target, reach⟩
  rcases namedToo.reach there requests.source with ⟨copied, reachToo⟩
  rw [reach] at inTarget
  rw [reachToo] at inSource
  have alike := target.alike copied fits.kind
  have onReceiver : machine.Operand 4 receiver := operands.operand (show 0 < 5 by decide)
  have changed := alike.datum?_copied inTarget inSource
  refine ⟨⟨_, rfl⟩, ⟨Nat.zero_le _, ?_⟩, owner, source, here, there, _, ?_,
    alike.sameShape_copied inTarget inSource, fun step inside => ?_, fun slot outside => ?_⟩
  · refine (Heap.fetch_congr ?_ _).trans onReceiver.2
    exact machine.heap.get?_update_other apart _
  · exact (machine.heap.get?_update_same _ _).trans (by rw [here]; rfl)
  · rw [changed, if_pos (by omega), Nat.add_sub_cancel_left]
    rcases source.body.exists_datum? (show request.originSlot + step < _ by omega) with
      ⟨datum, held⟩
    exact ⟨datum, held, held⟩
  · rw [changed, if_neg outside]

end Reply

namespace Machine

variable {machine : Machine} {receiver start stop replacement origin : Value}

/-- What `replaceFrom:to:with:startingAt:` comes to. When the two parts are of one kind and both
ranges lie inside them, the range is copied as it was before. Otherwise nothing changes, and
the reply is that it failed, unless a class lacks the description that has to be looked at:
then the machine stops. -/
theorem replace_takes_snapshot (send : Reply.Sender)
    (operands : machine.Operands [receiver, start, stop, replacement, origin])
    (count : machine.registers.argumentCount = 4)
    (apart : receiver ≠ machine.registers.activeContext)
    (named : machine.HoldsNamed receiver) (namedToo : machine.HoldsNamed replacement) :
    (∀ request, machine.Requests receiver start stop replacement origin request → request.Fits →
      ∃ after, Run.respond send 105 machine = .ok true after ∧
        machine.Replaced receiver replacement request after) ∧
    ((∀ request, machine.Requests receiver start stop replacement origin request →
        ¬ request.Fits) →
      (¬ machine.LacksDescription receiver start stop replacement origin →
        Run.respond send 105 machine = .ok false machine) ∧
      (machine.LacksDescription receiver start stop replacement origin →
        ∃ error, Run.respond send 105 machine = .error (.error (.memory error)) machine)) := by
  have known : Primitive.ofNumber? 105 = some .replaceFromTo := rfl
  simp only [Run.respond_apply send known, Primitive.run, count]
  refine ⟨fun request requests fits => ?_, fun unfit => ⟨fun described => ?_, fun lacks => ?_⟩⟩
  · rcases part?_eq_some_iff.mp requests.target with ⟨owner, _, here, -, -⟩
    rcases part?_eq_some_iff.mp requests.source with ⟨source, _, there, -, -⟩
    have copied := Reply.replaceFromTo_copies operands named namedToo requests fits here there
    exact ⟨_, Run.bind_ok copied,
      Reply.replaced_of_copied operands apart named namedToo requests fits here there⟩
  · exact Run.bind_ok (Reply.replaceFromTo_refuses operands described unfit)
  · rcases Reply.replaceFromTo_stops operands lacks with ⟨error, stopped⟩
    exact ⟨error, Run.bind_error stopped⟩

/-- A machine that has been asked to replace the second to fifth of five elements of an object
by the elements from the first on of the same object. -/
def shiftMachine (species : Value) : Machine :=
  let nil : Value := .object 0
  let machine := sampleMachine
    [sampleNode .zero #[],
      sampleNode .zero #[nil, nil, (ClassFormat.pack 1 Format.fixedIndexable).value],
      sampleNode .zero #[], sampleNode .zero #[], sampleNode .zero #[], sampleNode .zero #[],
      sampleMethod 0 [] #[120],
      sampleNode .zero #[nil, nil, nil, .object 6, nil, .object 8, .object 8, .ofInt 2, .ofInt 5,
        .object 8, .ofInt 1],
      sampleNode species #[nil, .ofInt 10, .ofInt 20, .ofInt 30, .ofInt 40, .ofInt 50]]
    10 nil
  { machine with registers := { machine.registers with sp := 10, argumentCount := 4 } }

theorem operands_shiftMachine (species : Value) : (shiftMachine species).Operands
    [.object 8, .ofInt 2, .ofInt 5, .object 8, .ofInt 1] := by
  refine ⟨Nat.le_of_ble_eq_true rfl, fun index inside => ?_⟩
  match index, inside with
  | 0, _ | 1, _ | 2, _ | 3, _ | 4, _ => rfl

/-- The object has one named field, when it is an instance of the class that has one. -/
theorem holdsNamed_shiftMachine {species : Value}
    (known : species = .object 1 ∨ species = .object 2) :
    (shiftMachine species).HoldsNamed (.object 8) := by
  intro owner format fields here described body
  obtain rfl : _ = owner := Option.some.inj here
  obtain rfl : _ = fields := Body.pointers.inj body
  rcases known with rfl | rfl
  · obtain rfl : _ = format := Except.ok.inj described
    decide +kernel
  · cases described

/-- The ranges overlap, and each element is taken from where it was before the call. -/
theorem replaced_shiftMachine :
    (shiftMachine (.object 1)).Operands [.object 8, .ofInt 2, .ofInt 5, .object 8, .ofInt 1] ∧
      (shiftMachine (.object 1)).HoldsNamed (.object 8) ∧
      ∃ after, Run.respond (Run.sendToClass 0) 105 (shiftMachine (.object 1)) = .ok true after ∧
        (shiftMachine (.object 1)).Replaced (.object 8) (.object 8)
          ⟨⟨.object 8, .pointers, 1, 5⟩, ⟨.object 8, .pointers, 1, 5⟩, 2, 5, 1⟩ after ∧
        (after.heap.get? (.object 8)).map HeapObject.body = some (.pointers
          #[.object 0, .ofInt 10, .ofInt 10, .ofInt 20, .ofInt 30, .ofInt 40]) := by
  have operands := operands_shiftMachine (.object 1)
  have named := holdsNamed_shiftMachine (.inl rfl)
  have fits : Replacement.Fits
      ⟨⟨.object 8, .pointers, 1, 5⟩, ⟨.object 8, .pointers, 1, 5⟩, 2, 5, 1⟩ := by
    constructor <;> decide
  rcases (replace_takes_snapshot (Run.sendToClass 0) operands rfl (by decide) named named).1 _
    ⟨by decide +kernel, by decide +kernel, rfl, rfl, rfl⟩ fits with ⟨after, ended, replaced⟩
  refine ⟨operands, named, after, ended, replaced, ?_⟩
  have left : Run.respond (Run.sendToClass 0) 105 (shiftMachine (.object 1))
      = .ok true ((Run.respond (Run.sendToClass 0) 105).left (shiftMachine (.object 1))) :=
    Run.ended?_eq_some.mp (by decide +kernel)
  rw [(EStateM.Result.ok.inj (ended.symm.trans left)).2]
  decide +kernel

/-- An object whose class has no description has no part, but that is not found out. -/
theorem replace_undescribed :
    (shiftMachine (.object 2)).Operands [.object 8, .ofInt 2, .ofInt 5, .object 8, .ofInt 1] ∧
      (shiftMachine (.object 2)).registers.argumentCount = 4 ∧
      (.object 8) ≠ (shiftMachine (.object 2)).registers.activeContext ∧
      (shiftMachine (.object 2)).HoldsNamed (.object 8) ∧
      (shiftMachine (.object 2)).part? (.object 8) false = none ∧
      Run.respond (Run.sendToClass 0) 105 (shiftMachine (.object 2))
        ≠ .ok false (shiftMachine (.object 2)) := by
  refine ⟨operands_shiftMachine _, rfl, by decide, holdsNamed_shiftMachine (.inr rfl),
    by decide +kernel, fun failed => ?_⟩
  have unanswered :
      (Run.respond (Run.sendToClass 0) 105).ended? (shiftMachine (.object 2)) = none := by
    decide +kernel
  rw [Run.ended?_eq_some.mpr failed] at unanswered
  cases unanswered

end Machine

end Smalltalk
