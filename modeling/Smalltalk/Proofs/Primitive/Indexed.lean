import Smalltalk.Primitive.Indexed
import Smalltalk.Proofs.Primitive.Basic

namespace Smalltalk

/-! Elements are read from and written to objects that are visible. What the
at-cache remembers of an object is used only for that object itself. -/

namespace Reply

open Run

variable {scope : Scope}

theorem indexedPart_stays {object : Value} (seen : scope.Sees object) (chars : Bool) :
    Stays scope (indexedPart object chars) fun part =>
      ∀ found, part = some found → found.object = object := by
  refine .ite (fun _ => .pure (by simp)) fun _ => ?_
  apply (classOf_stays seen).bind
  intro species _
  refine (classFormat_stays species).bind fun format _ => ?_
  refine .ite (fun _ => .pure (by simp)) fun _ => (object_stays seen).bind fun owner _ => ?_
  cases owner.body with
  | pointers fields => exact .pure (by cases chars <;> simp)
  | words data => exact .pure (by cases chars <;> simp)
  | bytes data => exact .pure (by simp)
  | method literals bytecode => exact .pure (by simp)
  | float bits => exact .pure (by simp)

theorem byteAt_stays {object : Value} (seen : scope.Sees object) (slot : Nat) :
    Stays scope (byteAt object slot) fun _ => True := by
  apply (object_stays seen).bind
  intro owner _
  split
  · exact .pure trivial
  · split
    · exact .pure trivial
    · exact .throw

theorem wordAt_stays {object : Value} (seen : scope.Sees object) (slot : Nat) :
    Stays scope (wordAt object slot) fun _ => True := by
  apply (object_stays seen).bind
  intro owner _
  split
  · exact .pure trivial
  · split
    · exact .pure trivial
    · exact .throw

theorem readElement_moves {part : IndexedPart} (seen : scope.Sees part.object) (place : Nat) :
    Moves scope (readElement part place) fun later value => later.Sees value := by
  unfold readElement
  cases part.kind with
  | pointers => exact (fetch_stays seen _).moves
  | words => exact (wordAt_stays seen _).bindMoves fun word _ => wordObject_moves word
  | bytes =>
    exact (byteAt_stays seen _).bindMoves fun byte _ => .pure (scope.sees_ofInt _)
  | chars =>
    apply getRegisters_stays.bindMoves
    intro registers within
    apply (byteAt_stays seen _).bindMoves
    intro byte _
    exact (fetch_stays (within.specials _ (by simp [Specials.values])) _).moves

/-- Raw data is not followed by references. -/
theorem setByte_stays {object : Value} (seen : scope.Sees object) (slot : Nat) (byte : UInt8) :
    Stays scope (setByte object slot byte) fun _ => True := by
  have write : Stays scope (modifyHeap
      (·.updateBody object (·.mapBytes (·.setIfInBounds slot byte)))) fun _ => True :=
    modifyHeap_stays fun heap within => within.updateBody object _ fun old value member =>
      .inl (by simpa using member)
  apply (object_stays seen).bind
  intro owner _
  cases owner.bytes? with
  | none => exact write
  | some bytes => exact .ite (fun _ => .throwThen) fun _ => write

theorem setWord_stays {object : Value} (seen : scope.Sees object) (slot : Nat) (word : UInt32) :
    Stays scope (setWord object slot word) fun _ => True := by
  have write : Stays scope (modifyHeap
      (·.updateBody object (·.mapWords (·.setIfInBounds slot word)))) fun _ => True :=
    modifyHeap_stays fun heap within => within.updateBody object _ fun old value member =>
      .inl (by simpa using member)
  apply (object_stays seen).bind
  intro owner _
  cases owner.words? with
  | none => exact write
  | some words => exact .ite (fun _ => .throwThen) fun _ => write

theorem characterCode_stays {value : Value} (seen : scope.Sees value) :
    Stays scope (characterCode value) fun _ => True := by
  refine .ite (fun _ => .pure trivial) fun _ => (classOf_stays seen).bind fun species _ => ?_
  apply getRegisters_stays.bind
  intro registers _
  refine .ite (fun _ => .pure trivial) fun _ => ?_
  exact (fetch_stays seen _).bind fun _ _ => .pure trivial

theorem writeElement_stays {part : IndexedPart} (seen : scope.Sees part.object) (place : Nat)
    {value : Value} (element : scope.Sees value) :
    Stays scope (writeElement part place value) fun _ => True := by
  have writeByte (code : Int) : Stays scope (do
      if code < 0 ∨ 255 < code then return false
      setByte part.object (part.fixed + place) (UInt8.ofNat code.toNat)
      return true) fun _ => True :=
    .ite (fun _ => .pure trivial) fun _ =>
      (setByte_stays seen _ _).bind fun _ _ => .pure trivial
  unfold writeElement
  cases part.kind with
  | pointers => exact (store_stays _ _ element).bind fun _ _ => .pure trivial
  | words =>
    apply (wordOf_stays value).bind
    intro word _
    cases word with
    | none => exact .pure trivial
    | some word => exact (setWord_stays seen _ _).bind fun _ _ => .pure trivial
  | bytes =>
    cases value.int? with
    | none => exact .pure trivial
    | some code => exact writeByte code
  | chars =>
    apply (characterCode_stays element).bind
    intro code _
    cases code with
    | none => exact .pure trivial
    | some code => exact writeByte code

/-! ## `at:` and `at:put:` -/

theorem isCacheable_stays {receiver : Value} (seen : scope.Sees receiver)
    (message : CommonMessage) : Stays scope (isCacheable receiver message) fun _ => True := by
  apply getRegisters_stays.bind
  intro registers within
  apply (fetch_stays (within.specials _ (by simp [Specials.values])) _).bind
  intro selector _
  refine .ite (fun _ => .pure trivial) fun _ => (classOf_stays seen).bind fun species _ => ?_
  exact .ite (fun _ => .pure trivial) fun _ => get_stays.bind fun _ _ => .pure trivial

end Reply

namespace AtCache

theorem values_insert {cache : AtCache} {part : IndexedPart} {hash : Nat} {access : Access}
    {value : Value} (member : value ∈ (cache.insert part hash access).values) :
    value ∈ cache.values ∨ value = part.object := by
  rcases List.mem_filterMap.mp member with ⟨slot, inside, shown⟩
  rcases Option.map_eq_some_iff.mp shown with ⟨stored, rfl, rfl⟩
  have either : some stored ∈ cache.reads.toList ++ cache.writes.toList ∨ stored = part := by
    cases access with
    | read =>
      simp only [insert, Array.toList_setIfInBounds, List.mem_append] at inside ⊢
      rcases inside with read | written
      · rcases List.mem_or_eq_of_mem_set read with old | same
        · exact .inl (.inl old)
        · exact .inr (Option.some.inj same)
      · exact .inl (.inr written)
    | write =>
      simp only [insert, Array.toList_setIfInBounds, List.mem_append] at inside ⊢
      rcases inside with read | written
      · exact .inl (.inl read)
      · rcases List.mem_or_eq_of_mem_set written with old | same
        · exact .inl (.inr old)
        · exact .inr (Option.some.inj same)
  rcases either with old | rfl
  · exact .inl (List.mem_filterMap.mpr ⟨_, old, rfl⟩)
  · exact .inr rfl

end AtCache

namespace Reply

open Run

variable {scope : Scope}

theorem rememberPart_stays {part : IndexedPart} (seen : scope.Sees part.object) (access : Access) :
    Stays scope (rememberPart part access) fun _ => True := by
  refine modify_stays fun machine within =>
    ⟨within.heap, { within.registers with atCache := fun value member slot same => ?_ }⟩
  rcases AtCache.values_insert member with old | new
  · exact within.registers.atCache value old slot same
  · rw [← new, same] at seen
    exact .inl ((scope.sees_object slot).mp seen)

theorem elementAt_moves (chars : Bool) (count : Nat) :
    Moves scope (elementAt chars count) fun _ _ => True := by
  refine .ite (fun _ => .pure trivial) fun _ => ?_
  apply (receiverOf_stays count).bindMoves
  intro receiver seen
  apply (indexedPart_stays seen chars).bindMoves
  intro part same
  cases part with
  | none => exact .pure trivial
  | some part =>
    have known : scope.Sees part.object := (same part rfl).symm ▸ seen
    have answer (place : Nat) : Moves scope (do
        succeed count (← readElement part place)) fun _ _ => True :=
      succeed_moves count (readElement_moves known place)
    apply (argument_stays count 0).bindMoves
    intro index _
    cases place? index part.size with
    | none => exact .pure trivial
    | some place =>
      apply (isCacheable_stays seen _).bindMoves
      intro cacheable _
      refine .ite (fun _ => ?_) fun _ => ?_
      · exact (rememberPart_stays known .read).bindMoves fun _ _ => answer place
      · exact answer place

theorem setElementAt_stays (chars : Bool) (count : Nat) :
    Stays scope (setElementAt chars count) fun _ => True := by
  refine .ite (fun _ => .pure trivial) fun _ => ?_
  apply (receiverOf_stays count).bind
  intro receiver seen
  apply (indexedPart_stays seen chars).bind
  intro part same
  cases part with
  | none => exact .pure trivial
  | some part =>
    have known : scope.Sees part.object := (same part rfl).symm ▸ seen
    apply (argument_stays count 0).bind
    intro index _
    cases place? index part.size with
    | none => exact .pure trivial
    | some place =>
      apply (argument_stays count 1).bind
      intro value element
      apply (writeElement_stays known place element).bind
      intro written _
      refine .ite (fun _ => .pure trivial) fun _ => (isCacheable_stays seen _).bind fun _ _ => ?_
      refine .ite (fun _ => ?_) fun _ => succeed_stays count element
      exact (rememberPart_stays known .write).bind fun _ _ => succeed_stays count element

theorem rememberedPart_stays {object : Value} (seen : scope.Sees object) (access : Access) :
    Stays scope (rememberedPart object access) fun part =>
      ∀ found, part = some found → scope.Sees found.object := by
  refine .ite (fun _ => .pure (by simp)) fun _ => get_stays.bind fun machine _ => .pure ?_
  intro part found
  rw [AtCache.object_of_find? found]
  exact seen

theorem inlineElementAt_moves : Moves scope inlineElementAt fun _ _ => True := by
  apply (operand_stays 1).bindMoves
  intro receiver seen
  apply (rememberedPart_stays seen .read).bindMoves
  intro part known
  cases part with
  | none => exact .pure trivial
  | some part =>
    apply (operand_stays 0).bindMoves
    intro index _
    cases place? index part.size with
    | none => exact .pure trivial
    | some place =>
      apply (readElement_moves (known part rfl) place).bind
      intro later value found
      exact Stays.moves ((replace_stays 2 found).bind fun _ _ => .pure trivial)

theorem inlineSetElementAt_stays : Stays scope inlineSetElementAt fun _ => True := by
  apply (operand_stays 2).bind
  intro receiver seen
  apply (rememberedPart_stays seen .write).bind
  intro part known
  cases part with
  | none => exact .pure trivial
  | some part =>
    apply (operand_stays 1).bind
    intro index _
    cases place? index part.size with
    | none => exact .pure trivial
    | some place =>
      apply (operand_stays 0).bind
      intro value element
      apply (writeElement_stays (known part rfl) place element).bind
      intro _ _
      refine .ite (fun _ => .pure trivial) fun _ => ?_
      exact (replace_stays 3 element).bind fun _ _ => .pure trivial

theorem sizeOf_stays (count : Nat) : Stays scope (sizeOf count) fun _ => True := by
  apply (receiverOf_stays count).bind
  intro receiver seen
  apply (indexedPart_stays seen false).bind
  intro part _
  cases part with
  | some part => exact succeed_stays count (scope.sees_ofInt _)
  | none =>
    apply getHeap_stays.bind
    intro heap _
    split
    · exact succeed_stays count (scope.sees_ofInt _)
    · exact .pure trivial

/-! ## Fields and literals by index -/

theorem literalsOf_stays (receiver : Value) :
    Stays scope (literalsOf receiver) fun _ => True := by
  apply getHeap_stays.bind
  intro heap _
  cases heap.get? receiver <;> exact .pure trivial

theorem fieldAt_stays (size count : Nat) : Stays scope (fieldAt size count) fun _ => True := by
  apply (argument_stays count 0).bind
  intro index _
  cases place? index size with
  | none => exact .pure trivial
  | some place =>
    apply (receiverOf_stays count).bind
    intro receiver seen
    exact (fetch_stays seen place).bind fun _ found => succeed_stays count found

theorem setFieldAt_stays (size count : Nat) :
    Stays scope (setFieldAt size count) fun _ => True := by
  apply (argument_stays count 0).bind
  intro index _
  cases place? index size with
  | none => exact .pure trivial
  | some place =>
    apply (argument_stays count 1).bind
    intro value seen
    apply (receiverOf_stays count).bind
    intro receiver _
    exact (store_stays _ _ seen).bind fun _ _ => succeed_stays count seen

theorem literalAt_stays (count : Nat) : Stays scope (literalAt count) fun _ => True := by
  apply (receiverOf_stays count).bind
  intro receiver _
  refine (literalsOf_stays receiver).bind ?_
  rintro (- | size) _
  · exact .pure trivial
  · exact fieldAt_stays size count

theorem setLiteralAt_stays (count : Nat) : Stays scope (setLiteralAt count) fun _ => True := by
  apply (receiverOf_stays count).bind
  intro receiver _
  refine (literalsOf_stays receiver).bind ?_
  rintro (- | size) _
  · exact .pure trivial
  · exact setFieldAt_stays size count

theorem instanceVariableAt_stays (count : Nat) :
    Stays scope (instanceVariableAt count) fun _ => True :=
  (receiverOf_stays count).bind fun _ _ => getHeap_stays.bind fun _ _ => fieldAt_stays _ count

theorem setInstanceVariableAt_stays (count : Nat) :
    Stays scope (setInstanceVariableAt count) fun _ => True :=
  (receiverOf_stays count).bind fun _ _ => getHeap_stays.bind fun _ _ => setFieldAt_stays _ count

/-! ## Copying a range -/

theorem mem_copyRange {α : Type} {target source : Array α} {start origin count : Nat} {element : α}
    (member : element ∈ copyRange target source start origin count) :
    element ∈ target ∨ element ∈ source := by
  have inside (array : Array α) (low high : Nat) (found : element ∈ array.extract low high) :
      element ∈ array := by
    rcases Array.mem_iff_getElem.mp found with ⟨index, _, same⟩
    rw [Array.getElem_extract] at same
    exact same ▸ Array.getElem_mem _
  simp only [copyRange, Array.mem_append] at member
  rcases member with (early | copied) | late
  · exact .inl (inside _ _ _ early)
  · exact .inr (inside _ _ _ copied)
  · exact .inl (inside _ _ _ late)

theorem replaceRange_stays {α : Type} {part : Body → Option (Array α)}
    {change : (Array α → Array α) → Body → Body} {target source : Value}
    (replaced : scope.Sees target) (copied : scope.Sees source) (start origin count : Nat)
    (kept : ∀ owner elements, scope.SeesInto owner → part owner.body = some elements →
      ∀ (old : Body), ∀ value ∈
        ((change (fun old => copyRange old elements start origin count) old).pointers?.getD
          #[]).toList,
        value ∈ (old.pointers?.getD #[]).toList ∨ scope.Sees value) :
    Stays scope (replaceRange part change target source start origin count) fun _ => True := by
  apply (object_stays copied).bind
  intro owner into
  refine (object_stays replaced).bind fun other _ => ?_
  cases found : part owner.body with
  | none => exact .pure trivial
  | some elements =>
    cases part other.body with
    | none => exact .pure trivial
    | some old =>
      refine .ite (fun _ => .throwThen) fun _ => modifyHeap_stays fun heap within => ?_
      exact within.updateBody target _ (kept owner elements into found)

theorem replaceFromTo_stays (count : Nat) : Stays scope (replaceFromTo count) fun _ => True := by
  refine .ite (fun _ => .pure trivial) fun _ => ?_
  apply (receiverOf_stays count).bind
  intro receiver replaced
  apply (argument_stays count 2).bind
  intro replacement copied
  apply (argument_stays count 0).bind
  intro start _
  refine (argument_stays count 1).bind fun stop _ => ?_
  apply (argument_stays count 3).bind
  intro origin _
  split
  · apply (indexedPart_stays replaced false).bind
    intro target _
    apply (indexedPart_stays copied false).bind
    intro source _
    split
    · refine .ite (fun _ => .pure trivial) fun _ => .ite (fun _ => .pure trivial) fun _ => ?_
      have raw {body changed : Body} (same : changed.pointers? = body.pointers?) :
          ∀ value ∈ (changed.pointers?.getD #[]).toList,
            value ∈ (body.pointers?.getD #[]).toList ∨ scope.Sees value :=
        fun value member => .inl (same ▸ member)
      split
      · refine .bind (replaceRange_stays replaced copied _ _ _ ?_)
          fun _ _ => succeedSelf_stays count
        intro owner elements into found old value member
        rw [Body.pointers?_mapPointers] at member
        cases pointers : old.pointers? with
        | none =>
          rw [pointers] at member
          exact .inl member
        | some fields =>
          simp only [pointers, Option.map_some, Option.getD_some, Array.mem_toList_iff] at member ⊢
          rcases mem_copyRange member with before | copied
          · exact .inl before
          · apply Or.inr
            exact into value (by simp [HeapObject.references, HeapObject.pointers?, found, copied])
      · refine .bind (replaceRange_stays replaced copied _ _ _ ?_)
          fun _ _ => succeedSelf_stays count
        exact fun _ _ _ _ old => raw (Body.pointers?_mapWords _ old)
      · refine .bind (replaceRange_stays replaced copied _ _ _ ?_)
          fun _ _ => succeedSelf_stays count
        exact fun _ _ _ _ old => raw (Body.pointers?_mapBytes _ old)
      · refine .bind (replaceRange_stays replaced copied _ _ _ ?_)
          fun _ _ => succeedSelf_stays count
        exact fun _ _ _ _ old => raw (Body.pointers?_mapBytes _ old)
    · exact .pure trivial
  · exact .pure trivial

end Reply

end Smalltalk
