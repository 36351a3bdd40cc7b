import Smalltalk.Machine.Step
import Smalltalk.Proofs.Machine.Send

namespace Smalltalk

/-! Every instruction leads to a later scope. -/

/-- Whether an instruction returns from a context. -/
def Opcode.isReturn : Opcode → Bool
  | .returnConstant _ => true
  | .returnTop => true
  | .returnTopToCaller => true
  | _ => false

namespace Run

variable {scope : Scope}

theorem nextByte_stays : Stays scope nextByte fun _ => True := by
  apply getRegisters_stays.bind
  intro registers within
  apply (object_stays within.method).bind
  intro owner _
  split
  · exact .fail
  · exact .bind (modifyRegisters_stays fun _ within => { within with }) fun _ _ => .pure trivial

theorem failReserved_stays (opcode : UInt8) : Stays scope (failReserved opcode) fun _ => True :=
  getRegisters_stays.bind fun _ _ => .fail

/-! ## Variables -/

theorem field_stays (index : Nat) : Stays scope (field index) scope.Sees :=
  getRegisters_stays.bind fun _ within => fetch_stays within.receiver index

theorem storeField_stays (index : Nat) {value : Value} (seen : scope.Sees value) :
    Stays scope (storeField index value) fun _ => True :=
  getRegisters_stays.bind fun _ _ => store_stays _ _ seen

theorem temporary_stays (index : Nat) : Stays scope (temporary index) scope.Sees :=
  getRegisters_stays.bind fun _ within => fetch_stays within.homeContext _

theorem storeTemporary_stays (index : Nat) {value : Value} (seen : scope.Sees value) :
    Stays scope (storeTemporary index value) fun _ => True :=
  getRegisters_stays.bind fun _ _ => store_stays _ _ seen

theorem literal_stays (index : Nat) : Stays scope (literal index) scope.Sees :=
  getRegisters_stays.bind fun _ within => fetch_stays within.method _

theorem literalVariable_stays (index : Nat) : Stays scope (literalVariable index) scope.Sees :=
  (literal_stays index).bind fun _ seen => fetch_stays seen _

theorem storeLiteralVariable_stays (index : Nat) {value : Value} (seen : scope.Sees value) :
    Stays scope (storeLiteralVariable index value) fun _ => True :=
  (literal_stays index).bind fun _ _ => store_stays _ _ seen

theorem constant_stays (name : Constant) : Stays scope (constant name) scope.Sees := by
  apply getRegisters_stays.bind
  intro registers within
  cases name with
  | receiver => exact .pure within.receiver
  | true => exact .pure (within.specials _ (by simp [Specials.values]))
  | false => exact .pure (within.specials _ (by simp [Specials.values]))
  | nil => exact .pure within.sees_nil

/-! ## Jumps -/

theorem advance_stays (distance : Nat) : Stays scope (advance distance) fun _ => True :=
  modifyRegisters_stays fun _ within => { within with }

theorem jumpBy_stays (distance : Int) : Stays scope (jumpBy distance) fun _ => True := by
  apply getRegisters_stays.bind
  intro registers _
  refine .ite (fun _ => .failThen) fun _ => ?_
  exact modifyRegisters_stays fun _ within => { within with }

theorem pushOrBranch_stays (result : Bool) : Stays scope (pushOrBranch result) fun _ => True := by
  apply getRegisters_stays.bind
  intro registers within
  apply (object_stays within.method).bind
  intro owner _
  dsimp only
  split
  · exact advance_stays _
  · exact push_stays (within.sees_boolean result)

/-! ## Messages -/

theorem superclassOfMethod_stays : Stays scope superclassOfMethod scope.Sees := by
  apply getRegisters_stays.bind
  intro registers within
  apply (methodHeader_stays _).bind
  intro header _
  apply (fetch_stays within.method _).bind
  intro association seen
  exact (fetch_stays seen _).bind fun species found => fetch_stays found _

variable {sender : Reply.Sender} (sends : Reply.Sends sender)

include sends

theorem sendBy_leads {selector : Value} (seen : scope.Sees selector) (count : Nat)
    (toSuper : Bool) :
    Leads scope (sendBy sender selector count toSuper) (fun _ => True) fun _ _ => True := by
  refine .ite (fun _ => ?_) fun _ => ?_
  · exact superclassOfMethod_stays.bindLeads fun species found =>
      sends scope selector count species seen found
  · apply (operand_stays count).bindLeads
    intro receiver known
    exact (classOf_stays known).bindLeads fun species found =>
      sends scope selector count species seen found

theorem jumpIf_leads (condition : Bool) (distance : Nat) :
    Leads scope (jumpIf sender condition distance) (fun _ => True) fun _ _ => True := by
  apply pop_stays.bindLeads
  intro value _
  refine getRegisters_stays.bindLeads fun registers _ => ?_
  refine .ite (fun _ => (advance_stays distance).leads) fun _ => .ite (fun _ => ?_) fun _ => ?_
  · refine Stays.bindLeads (modifyRegisters_stays fun _ within => { within with }) fun _ _ => ?_
    exact (specialObject_stays _).bindLeads fun selector seen => sendBy_leads sends seen 0 false
  · exact Moves.leads (.pure trivial)

theorem sendSpecial_leads (index : Nat) :
    Leads scope (sendSpecial sender index) (fun _ => True) fun _ _ => True := by
  apply getRegisters_stays.bindLeads
  intro registers within
  apply (fetch_stays (within.specials _ (by simp [Specials.values])) _).bindLeads
  intro selector seen
  apply (fetchInt_stays _ _).bindLeads
  intro count _
  refine .ite (fun _ => ?_) fun _ => ?_
  · exact Stays.leads .failThen
  · exact sendBy_leads sends seen _ false

omit sends

/-! ## Messages with an instruction of their own -/

theorem integerPair_stays : Stays scope integerPair fun _ => True :=
  (operand_stays 1).bind fun _ _ => (operand_stays 0).bind fun _ _ => .pure trivial

theorem inlineArithmetic_moves (message : ArithmeticMessage) :
    Moves scope (inlineArithmetic message) fun _ _ => True := by
  unfold inlineArithmetic
  cases message.meaning with
  | makePoint => exact Reply.pointOf_moves 1
  | operation operation =>
    apply integerPair_stays.bindMoves
    intro either _
    rcases either with - | ⟨a, b⟩
    · exact .pure trivial
    · cases computed : operation.value? a b with
      | none => simpa [computed] using Moves.pure trivial
      | some result =>
        have answered : Stays scope (do
            replace 2 result
            return true) fun _ => True :=
          (replace_stays 2 (Reply.sees_value? computed)).bind fun _ _ => .pure trivial
        simpa [computed] using answered.moves
  | comparison comparison =>
    apply integerPair_stays.bindMoves
    intro either _
    rcases either with - | ⟨a, b⟩
    · exact .pure trivial
    · apply (drop_stays 2).bindMoves
      intro _ _
      exact (pushOrBranch_stays _).bindMoves fun _ _ => .pure trivial

theorem inlineCommon_moves (message : CommonMessage) :
    Moves scope (inlineCommon message) fun _ _ => True := by
  cases message with
  | atIndex => exact Reply.inlineElementAt_moves
  | atIndexPut => exact Reply.inlineSetElementAt_stays.moves
  | identical =>
    apply (operand_stays 0).bindMoves
    intro _ _
    refine (operand_stays 1).bindMoves fun _ _ => ?_
    apply (drop_stays 2).bindMoves
    intro _ _
    exact (pushOrBranch_stays _).bindMoves fun _ _ => .pure trivial
  | species =>
    apply top_stays.bindMoves
    intro value seen
    refine (classOf_stays seen).bindMoves fun species found => ?_
    exact (replace_stays 1 found).bindMoves fun _ _ => .pure trivial
  | blockCopy => exact Reply.blockCopy_moves 1
  | value => exact (Reply.blockValue_stays 0).moves
  | valueWithArgument => exact (Reply.blockValue_stays 1).moves
  | sent index => exact .pure trivial

/-! ## Instructions with operand bytes -/

theorem pushFrom_stays {run : Run Value} (stays : Stays scope run scope.Sees) :
    Stays scope (run >>= push) fun _ => True :=
  stays.bind fun _ seen => push_stays seen

theorem extendedPush_stays (operand : UInt8) :
    Stays scope (extendedPush operand) fun _ => True := by
  unfold extendedPush
  dsimp only
  split
  · exact pushFrom_stays (field_stays _)
  · exact pushFrom_stays (temporary_stays _)
  · exact pushFrom_stays (literal_stays _)
  · exact pushFrom_stays (literalVariable_stays _)

theorem extendedStore_stays (opcode operand : UInt8) :
    Stays scope (extendedStore opcode operand) fun _ => True := by
  apply top_stays.bind
  intro value seen
  split
  · exact storeField_stays _ seen
  · exact storeTemporary_stays _ seen
  · exact failReserved_stays opcode
  · exact storeLiteralVariable_stays _ seen

theorem doubleExtended_leads {sender : Reply.Sender} (sends : Reply.Sends sender) :
    Leads scope (doubleExtended sender) (fun _ => True) fun _ _ => True := by
  apply nextByte_stays.bindLeads
  intro second _
  refine nextByte_stays.bindLeads fun third _ => ?_
  dsimp only
  split
  · exact (literal_stays _).bindLeads fun _ seen => sendBy_leads sends seen _ false
  · exact (literal_stays _).bindLeads fun _ seen => sendBy_leads sends seen _ true
  · exact (pushFrom_stays (field_stays _)).leads
  · exact (pushFrom_stays (literal_stays _)).leads
  · exact (pushFrom_stays (literalVariable_stays _)).leads
  · exact Stays.leads (top_stays.bind fun _ seen => storeField_stays _ seen)
  · refine Stays.leads (top_stays.bind fun _ seen => ?_)
    exact (storeField_stays _ seen).bind fun _ _ => drop_stays 1
  · exact Stays.leads (top_stays.bind fun _ seen => storeLiteralVariable_stays _ seen)

/-! ## Returns -/

theorem returnToHomeSender_stays (recycling : scope.recycling) {value : Value}
    (seen : scope.Sees value) : Stays scope (returnToHomeSender value) fun _ => True := by
  apply getRegisters_stays.bind
  intro registers within
  apply (fetch_stays within.homeContext _).bind
  intro sender found
  exact returnTo_stays recycling seen found

/-! ## Dispatch -/

/-- Contexts become free only on a return. -/
theorem execute_leads {sender : Reply.Sender} (sends : Reply.Sends sender) (byte : UInt8)
    (recycling : (Opcode.ofByte byte).isReturn = true → scope.recycling) :
    Leads scope (execute sender byte) (fun _ => True) fun _ _ => True := by
  unfold execute
  cases opcode : Opcode.ofByte byte with
  | pushField index => exact (pushFrom_stays (field_stays index)).leads
  | pushTemporary index => exact (pushFrom_stays (temporary_stays index)).leads
  | pushLiteral index => exact (pushFrom_stays (literal_stays index)).leads
  | pushVariable index => exact (pushFrom_stays (literalVariable_stays index)).leads
  | popIntoField index =>
    exact Stays.leads (pop_stays.bind fun _ seen => storeField_stays index seen)
  | popIntoTemporary index =>
    exact Stays.leads (pop_stays.bind fun _ seen => storeTemporary_stays index seen)
  | pushConstant name => exact (pushFrom_stays (constant_stays name)).leads
  | pushInteger n => exact (push_stays (scope.sees_ofInt n)).leads
  | returnConstant name =>
    have allowed := recycling (by rw [opcode]; rfl)
    exact Stays.leads
      ((constant_stays name).bind fun _ seen => returnToHomeSender_stays allowed seen)
  | returnTop =>
    have allowed := recycling (by rw [opcode]; rfl)
    exact Stays.leads (pop_stays.bind fun _ seen => returnToHomeSender_stays allowed seen)
  | returnTopToCaller =>
    have allowed := recycling (by rw [opcode]; rfl)
    apply pop_stays.bindLeads
    intro value seen
    refine getRegisters_stays.bindLeads fun registers within => ?_
    apply (fetch_stays within.activeContext _).bindLeads
    intro caller found
    exact (returnTo_stays allowed seen found).leads
  | extendedPush =>
    exact Stays.leads (nextByte_stays.bind fun operand _ => extendedPush_stays operand)
  | extendedStore =>
    exact Stays.leads (nextByte_stays.bind fun operand _ => extendedStore_stays byte operand)
  | extendedPop =>
    refine Stays.leads (nextByte_stays.bind fun operand _ => ?_)
    exact (extendedStore_stays byte operand).bind fun _ _ => drop_stays 1
  | extendedSend =>
    apply nextByte_stays.bindLeads
    intro operand _
    exact (literal_stays _).bindLeads fun _ seen => sendBy_leads sends seen _ false
  | doubleExtended => exact doubleExtended_leads sends
  | extendedSuperSend =>
    apply nextByte_stays.bindLeads
    intro operand _
    exact (literal_stays _).bindLeads fun _ seen => sendBy_leads sends seen _ true
  | secondExtendedSend =>
    apply nextByte_stays.bindLeads
    intro operand _
    exact (literal_stays _).bindLeads fun _ seen => sendBy_leads sends seen _ false
  | pop => exact (drop_stays 1).leads
  | duplicate => exact (pushFrom_stays top_stays).leads
  | pushContext =>
    refine Stays.bindLeads (modifyRegisters_stays fun _ within => { within with }) fun _ _ => ?_
    exact getRegisters_stays.bindLeads fun _ within => (push_stays within.activeContext).leads
  | jump distance => exact (advance_stays distance).leads
  | jumpIfFalse distance => exact jumpIf_leads sends false distance
  | longJump page =>
    apply nextByte_stays.bindLeads
    intro low _
    refine (jumpBy_stays _).bindLeads fun _ _ => ?_
    exact .ite (fun _ => checkInterrupts_stays.leads) fun _ => Moves.leads (.pure trivial)
  | longJumpIf condition page =>
    exact nextByte_stays.bindLeads fun low _ => jumpIf_leads sends condition _
  | arithmetic message =>
    apply (inlineArithmetic_moves message).bindLeads
    intro later _ _
    exact .ite (fun _ => Moves.leads (.pure trivial)) fun _ => sendSpecial_leads sends _
  | common message =>
    apply (inlineCommon_moves message).bindLeads
    intro later _ _
    exact .ite (fun _ => Moves.leads (.pure trivial)) fun _ => sendSpecial_leads sends _
  | sendLiteral index count =>
    exact (literal_stays index).bindLeads fun _ seen => sendBy_leads sends seen count false
  | reserved => exact (failReserved_stays byte).leads

end Run

/-! ## Steps -/

/-- The next byte of the running method, if there is one. -/
def Machine.nextByte? (machine : Machine) : Option UInt8 :=
  ((machine.heap.get? machine.registers.method).bind HeapObject.bytes?).bind
    (·[machine.registers.pc]?)

/-- Whether the next instruction returns from a context. -/
def Machine.Returning (machine : Machine) : Prop :=
  ∃ byte, machine.nextByte? = some byte ∧ (Opcode.ofByte byte).isReturn = true

namespace Run

variable {scope : Scope}

theorem ensures_nextByte (machine : Machine) :
    nextByte.Ensures machine fun byte after =>
      machine.nextByte? = some byte ∧
        after = { machine with registers.pc := machine.registers.pc + 1 } := by
  refine (ensures_getRegisters machine).bindExactly ?_
  refine (ensures_readHeap machine _).bindTo fun owner found => ?_
  rw [Heap.object_eq_ok_iff] at found
  have next : (owner.bytes?).bind (·[machine.registers.pc]?) = machine.nextByte? := by
    rw [Machine.nextByte?, found, Option.bind_some]
  rw [next]
  split
  · exact .fail
  · rename_i byte read
    refine (ensures_modifyRegisters machine _).bindChange fun _ => ?_
    exact .pure ⟨read, rfl⟩

theorem stepBy_ensures {sender : Reply.Sender} (sends : Reply.Sends sender) {machine : Machine}
    (within : machine.Within scope) (recycling : machine.Returning → scope.recycling) :
    (stepBy sender).Ensures machine fun _ after =>
      scope.Discreet after → ∃ later : Scope, later.Narrows scope ∧ after.Within later := by
  refine (ensures_nextByte machine).bindTo fun byte read => ?_
  refine (ensures_modify _ _).bindChange fun _ => ?_
  have start : { machine with
      registers.pc := machine.registers.pc + 1
      bytecodes := machine.bytecodes + 1 }.Within scope :=
    ⟨within.heap, { within.registers with }⟩
  refine (execute_leads sends byte (fun returns => recycling ⟨byte, read, returns⟩) _ start).mono
    fun _ after led discreet => ?_
  rcases led fun _ => discreet with ⟨later, narrows, inside, -⟩
  exact ⟨later, narrows, inside⟩

end Run

end Smalltalk
