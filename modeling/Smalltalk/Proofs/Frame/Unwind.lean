import Smalltalk.Proofs.Frame.Return
import Smalltalk.Proofs.Heap.Chains
import Smalltalk.Proofs.Machine.References
import Smalltalk.Proofs.Machine.Stops

namespace Smalltalk

/-! A return leaves every context between the active one and its target behind: none of
them can be returned to any more, and the target goes on where it was, with the answer on
its stack. A return that is refused leaves everything as it was. -/

namespace Heap

/-! ## Contexts that cannot be returned to -/

/-- The senders and the program counters of some contexts were wiped, and nothing else
was written. -/
structure Retires (contexts : List Value) (nil : Value) (before after : Heap) : Prop where
  others : ∀ other, other ∉ contexts → after.get? other = before.get? other
  sender : ∀ context ∈ contexts, after.fetch context ContextField.sender = .ok nil
  pc : ∀ context ∈ contexts, after.fetch context ContextField.pc = .ok nil
  elsewhere : ∀ context ∈ contexts, ∀ index, index ≠ ContextField.sender →
    index ≠ ContextField.pc → after.fetch context index = before.fetch context index

namespace Retires

variable {contexts : List Value} {nil context : Value} {before middle after : Heap}

theorem refl : Retires [] nil before before :=
  ⟨fun _ _ => rfl, fun _ member => absurd member List.not_mem_nil,
    fun _ member => absurd member List.not_mem_nil, fun _ member => absurd member List.not_mem_nil⟩

/-- What is neither a sender nor a program counter is as before, in whatever object. -/
theorem fetch (retires : Retires contexts nil before after) (object : Value) {index : Nat}
    (notSender : index ≠ ContextField.sender) (notPc : index ≠ ContextField.pc) :
    after.fetch object index = before.fetch object index := by
  by_cases member : object ∈ contexts
  · exact retires.elsewhere object member index notSender notPc
  · exact fetch_congr (retires.others object member) index

/-- A context that is wiped twice stays wiped. -/
theorem cons (first : Retires [context] nil before middle)
    (rest : Retires contexts nil middle after) : Retires (context :: contexts) nil before after := by
  have kept {index : Nat} (wiped : ∀ other ∈ contexts, after.fetch other index = .ok nil)
      (now : middle.fetch context index = .ok nil) {other : Value}
      (member : other ∈ context :: contexts) : after.fetch other index = .ok nil := by
    by_cases again : other ∈ contexts
    · exact wiped other again
    · rcases List.mem_cons.mp member with rfl | inside
      · exact (fetch_congr (rest.others other again) _).trans now
      · exact absurd inside again
  refine ⟨fun other absent => ?_, fun _ member => ?_, fun _ member => ?_,
    fun other _ index notSender notPc => ?_⟩
  · rw [List.mem_cons, not_or] at absent
    exact (rest.others other absent.2).trans (first.others other (by simpa using absent.1))
  · exact kept rest.sender (first.sender context (by simp)) member
  · exact kept rest.pc (first.pc context (by simp)) member
  · exact (rest.fetch other notSender notPc).trans (first.fetch other notSender notPc)

/-- The home of a context that was not wiped is the one of before. -/
theorem homeOf (retires : Retires contexts nil before after) {home : Value}
    (known : after.HomeOf context home) : before.HomeOf context home :=
  known.transfer (retires.fetch context (by decide) (by decide)).symm
    (retires.fetch context (by decide) (by decide)).symm

end Retires

/-- A chain of senders has no more contexts than there are cells. -/
theorem Ascends.length_le {heap : Heap} {target context : Value} {above : List Value}
    (ascends : heap.Ascends target context above) : above.length ≤ heap.cells.size := by
  refine length_le_of_nodup ascends.nodup fun middle member => ?_
  induction ascends with
  | arrived => cases member
  | sent _ found _ induction =>
    rcases List.mem_cons.mp member with rfl | inside
    · rcases mem_references_of_fetch found with ⟨owner, here, -⟩
      exact live_of_get? here
    · exact induction inside

end Heap

/-- One context is wiped. -/
theorem Machine.Retired.retires {machine after : Machine} {context : Value}
    (retired : machine.Retired context after) :
    machine.heap.Retires [context] machine.registers.specials.nil after.heap where
  others other absent := retired.rewrites.others other (by simpa using absent)
  sender _ member := List.mem_singleton.mp member ▸ retired.sender
  pc _ member := List.mem_singleton.mp member ▸ retired.pc
  elsewhere _ _ index notSender notPc := by
    rw [retired.heap, Heap.fetch_setField_other (.inr notPc.symm),
      Heap.fetch_setField_other (.inr notSender.symm)]

namespace Run

variable {machine : Machine}

theorem forM_retire_retires (contexts : List Value) :
    (contexts.forM retire).Ensures machine fun _ after =>
      machine.heap.Retires contexts machine.registers.specials.nil after.heap ∧
        machine.RecyclingApart after := by
  induction contexts generalizing machine with
  | nil => exact .pure ⟨.refl, rfl⟩
  | cons context contexts induction =>
    refine (retire_retired machine context).bind fun _ middle retired => ?_
    refine induction.mono fun _ after ⟨rest, further⟩ => ?_
    have nil : middle.registers.specials.nil = machine.registers.specials.nil := by
      rw [retired.apart]
    exact ⟨retired.retires.cons (nil ▸ rest), retired.apart.trans further⟩

end Run

/-! ## The return -/

namespace Machine

/-- How a machine comes out of a return of `answer` to `target`, which left the contexts
`above` it behind. -/
structure Unwound (machine : Machine) (target answer : Value) (above : List Value)
    (after : Machine) : Prop where
  proper : target ≠ machine.registers.specials.nil
  resumable : ∃ pc, machine.heap.fetch target ContextField.pc = .ok pc ∧
    pc ≠ machine.registers.specials.nil
  /-- The target was on the chain of senders, before its end. -/
  chain : machine.heap.Ascends target machine.registers.activeContext above
  inside : machine.registers.specials.nil ∉ above
  sender : ∀ context ∈ above, after.heap.fetch context ContextField.sender
    = .ok machine.registers.specials.nil
  pc : ∀ context ∈ above, after.heap.fetch context ContextField.pc
    = .ok machine.registers.specials.nil
  kept : ∀ context ∈ above, ∀ index, index ≠ ContextField.sender → index ≠ ContextField.pc →
    after.heap.fetch context index = machine.heap.fetch context index
  others : ∀ other, other ≠ target → other ∉ above →
    after.heap.get? other = machine.heap.get? other
  active : after.registers.activeContext = target
  home : machine.heap.HomeOf target after.registers.homeContext
  runs : machine.heap.fetch after.registers.homeContext ContextField.method
    = .ok after.registers.method
  receives : machine.heap.fetch after.registers.homeContext ContextField.receiver
    = .ok after.registers.receiver
  next : ∃ header, after.heap.methodHeader? after.registers.method = .ok (some header) ∧
    machine.heap.fetchInt target ContextField.pc = .ok (after.registers.pc + header.firstPc)
  header : after.registers.method ∉ above →
    after.heap.methodHeader? after.registers.method
      = machine.heap.methodHeader? after.registers.method
  depth : ∃ depth, machine.heap.fetchInt target ContextField.stackPointer = .ok depth ∧
    after.registers.sp = (ContextField.frame - 1 + depth).toNat + 1
  top : after.heap.fetch target after.registers.sp = .ok answer
  slots : ∀ index, index ≠ after.registers.sp →
    after.heap.fetch target index = machine.heap.fetch target index
  rest : after = { machine with
    heap := after.heap
    registers := { machine.registers with
      activeContext := after.registers.activeContext
      homeContext := after.registers.homeContext
      method := after.registers.method
      receiver := after.registers.receiver
      pc := after.registers.pc
      sp := after.registers.sp
      freeContexts := after.registers.freeContexts
      freeLargeContexts := after.registers.freeLargeContexts
      reclaimable := after.registers.reclaimable } }

end Machine

namespace Run

variable {machine : Machine}

/-- A return that comes to its end has found its target among the senders and leaves
nothing in between that could be returned to. -/
theorem returnTo_unwinds (answer target : Value) :
    (returnTo answer target).Ensures machine fun _ after =>
      ∃ above, machine.Unwound target answer above after := by
  refine (returnTo_returnsBy machine answer target).mono ?_
  rintro _ after ⟨above, retired, loaded, proper, resumable, chain, inside, leaves, loads, pushes⟩
  rcases forM_retire_retires above _ _ leaves with ⟨retires, apart⟩
  have absent := chain.target_not_mem
  have same := retires.others target absent
  rcases loadContext_loads target _ _ loads with
    ⟨home, method, receiver, header, pc, depth, known, runs, receives, headed, next, deep, rfl⟩
  rcases ensures_push _ answer _ _ pushes with ⟨pushed, rfl⟩
  have notTarget {context : Value} (member : context ∈ above) : target ≠ context :=
    fun equal => absent (equal ▸ member)
  have written {context : Value} (member : context ∈ above) (index : Nat) :
      (retired.heap.setField target ((ContextField.frame - 1 + depth).toNat + 1) answer).fetch
        context index = retired.heap.fetch context index :=
    Heap.fetch_setField_other (.inl (notTarget member))
  have headers : (retired.heap.setField target ((ContextField.frame - 1 + depth).toNat + 1)
      answer).methodHeader? method = retired.heap.methodHeader? method :=
    Heap.methodHeader?_setField (Nat.succ_pos _)
  refine ⟨above, ?_⟩
  exact
    { proper, resumable, chain, inside
      sender := fun context member => (written member _).trans (retires.sender context member)
      pc := fun context member => (written member _).trans (retires.pc context member)
      kept := fun context member index notSender notPc =>
        (written member index).trans (retires.elsewhere context member index notSender notPc)
      others := fun other different away =>
        (Heap.get?_update_other _ different.symm _).trans (retires.others other away)
      active := rfl
      home := retires.homeOf known
      runs := (retires.fetch home (by decide) (by decide)).symm.trans runs
      receives := (retires.fetch home (by decide) (by decide)).symm.trans receives
      next := ⟨header, headers.trans headed, (Heap.fetchInt_congr same _).symm.trans next⟩
      header := fun away =>
        headers.trans (Heap.methodHeader?_congr (retires.others method away))
      depth := ⟨depth, (Heap.fetchInt_congr same _).symm.trans deep, rfl⟩
      top := pushed
      slots := fun index different =>
        (Heap.fetch_setField_other (.inr different.symm)).trans (Heap.fetch_congr same index)
      rest := by rw [apart] }

/-! ## Returns that are refused -/

end Run

namespace Machine

/-- Whether the senders of the active context come to an end: at the target of a return,
or at nil. -/
def Unwinds (machine : Machine) (target : Value) : Prop :=
  ∃ last above, (last = target ∨ last = machine.registers.specials.nil) ∧
    machine.heap.Ascends last machine.registers.activeContext above

/-- What a return that stops says about the machine. When it is refused, nothing has been
changed. -/
structure Refused (machine : Machine) (target : Value) (stop : Stop) (after : Machine) :
    Prop where
  cannotReturn : ∀ context, stop = .error (.cannotReturn context) →
    after = machine ∧ context = target ∧ (target = machine.registers.specials.nil ∨
      machine.heap.fetch target ContextField.pc = .ok machine.registers.specials.nil)
  brokenSenderChain : ∀ context, stop = .error (.brokenSenderChain context) →
    after = machine ∧ context = target ∧ ∃ above,
      machine.heap.Ascends machine.registers.specials.nil machine.registers.activeContext above ∧
        target ∉ machine.registers.specials.nil :: above
  ends : machine.Unwinds target → stop ≠ .endlessChain

end Machine

/-- The stop is for none of the reasons that a return gives. -/
def Stop.Other (stop : Stop) : Prop :=
  (∀ context, stop ≠ .error (.cannotReturn context)) ∧
    (∀ context, stop ≠ .error (.brokenSenderChain context)) ∧ stop ≠ .endlessChain

theorem Stop.Other.refused {stop : Stop} (other : stop.Other) (machine after : Machine)
    (target : Value) : machine.Refused target stop after :=
  ⟨fun context same => absurd same (other.1 context),
    fun context same => absurd same (other.2.1 context), fun _ => other.2.2⟩

/-- What a walk along the senders that stops says about them, from `context` on. It fails
where a sender cannot be read and where nil comes before the target. -/
structure Machine.Astray (machine : Machine) (target context : Value) (budget : Nat)
    (stop : Stop) (after : Machine) : Prop where
  granted : ∀ other, stop ≠ .error (.cannotReturn other)
  broken : ∀ other, stop = .error (.brokenSenderChain other) → after = machine ∧
    other = target ∧ ∃ above,
      machine.heap.Ascends machine.registers.specials.nil context above ∧
        target ∉ machine.registers.specials.nil :: above
  ends : ∀ last above, (last = target ∨ last = machine.registers.specials.nil) →
    machine.heap.Ascends last context above → above.length ≤ budget → stop ≠ .endlessChain

theorem Stop.Other.astray {stop : Stop} (other : stop.Other) (machine after : Machine)
    (target context : Value) (budget : Nat) : machine.Astray target context budget stop after :=
  ⟨other.1, fun _ same => absurd same (other.2.1 _), fun _ _ _ _ _ => other.2.2⟩

theorem Stop.memory_other (error : MemoryError) : (Stop.error (.memory error)).Other := by
  refine ⟨?_, ?_, ?_⟩ <;> simp

namespace Machine

variable {machine : Machine} {target context : Value}

/-- The walk ends where it should not: at nil. -/
theorem astray_of_nil (budget : Nat) (away : machine.registers.specials.nil ≠ target) :
    machine.Astray target machine.registers.specials.nil budget
      (.error (.brokenSenderChain target)) machine where
  granted := by simp
  broken := by
    rintro other ⟨⟩
    exact ⟨rfl, rfl, [], .arrived, by simpa using away.symm⟩
  ends := by simp

/-- What goes wrong further up goes wrong from below. -/
theorem Astray.sent {sender : Value} {budget : Nat} {stop : Stop} {after : Machine}
    (astray : machine.Astray target sender budget stop after)
    (away : context ≠ target) (proper : context ≠ machine.registers.specials.nil)
    (found : machine.heap.fetch context ContextField.sender = .ok sender) :
    machine.Astray target context (budget + 1) stop after where
  granted := astray.granted
  broken := by
    intro other same
    rcases astray.broken other same with ⟨kept, named, above, ascends, absent⟩
    refine ⟨kept, named, context :: above, .sent proper found ascends, ?_⟩
    simp_all [eq_comm]
  ends := by
    intro last above either ascends few
    cases ascends with
    | arrived =>
      rcases either with same | same
      · exact absurd same away
      · exact absurd same proper
    | sent _ again rest =>
      rw [found] at again
      cases again
      exact astray.ends last _ either rest (Nat.le_of_succ_le_succ few)

end Machine

namespace Run

open Stop (memory_other)

variable {machine : Machine} {target : Value}

theorem contextsAbove_stops (budget : Nat) (context : Value) :
    Stops (machine.Astray target context budget) (contextsAbove target budget context)
      machine := by
  induction budget generalizing context with
  | zero =>
    unfold contextsAbove
    refine .ite (fun _ => .pure) fun away => .bindOk getNil_apply ?_
    refine .ite (fun ended => ?_) fun proper => .throw ⟨by simp, by simp, ?_⟩
    · subst ended
      exact .failThen (Machine.astray_of_nil 0 away)
    · rintro last above either ascends few -
      cases ascends with
      | arrived => exact either.elim away proper
      | sent => cases few
  | succ budget induction =>
    unfold contextsAbove
    refine .ite (fun _ => .pure) fun away => .bindOk getNil_apply ?_
    refine .ite (fun ended => ?_) fun proper => ?_
    · subst ended
      exact .failThen (Machine.astray_of_nil _ away)
    · have read : Stops (machine.Astray target context (budget + 1))
          (fetch context ContextField.sender) machine :=
        readHeap_stops (fun error after => (memory_other error).astray machine after _ _ _) _ _
      refine read.bind (ensures_fetch machine _ _) ?_
      rintro sender machine ⟨found, rfl⟩
      refine Stops.andThen ((induction sender).mono fun stop after astray => ?_) fun _ _ => .pure
      exact astray.sent away proper found

/-- Loading a context stops for other reasons than a return gives. -/
theorem loadContext_other (context : Value) (machine : Machine) :
    Stops (fun stop _ => stop.Other) (loadContext context) machine := by
  have read {α : Type} (query : Heap → Except MemoryError α) (machine : Machine) :
      Stops (fun stop _ => stop.Other) (readHeap query) machine :=
    readHeap_stops (fun error _ => memory_other error) query machine
  have homes : Stops (fun stop _ => stop.Other) (homeOf context) machine :=
    (read _ machine).andThen fun kept machine => .ite (fun _ => read _ machine) fun _ => .pure
  refine homes.andThen fun home machine => (read _ machine).andThen fun method machine => ?_
  refine (read _ machine).andThen fun receiver machine => (read _ machine).andThen ?_
  refine fun encoded machine => (read _ machine).andThen fun depth machine => ?_
  have decodes : Stops (fun stop _ => stop.Other) (decodePc method encoded) machine := by
    have header : Stops (fun stop _ => stop.Other) (methodHeader method) machine := by
      refine (read _ machine).andThen fun header machine => ?_
      cases header with
      | none => exact .fail ⟨by simp, by simp, by simp⟩
      | some header => exact .pure
    refine header.andThen fun header machine => ?_
    exact .ite (fun _ => .failThen ⟨by simp, by simp, by simp⟩) fun _ => .pure
  exact decodes.andThen fun pc machine => .of_ok (modifyRegisters_apply _)

theorem retire_other (context : Value) (machine : Machine) :
    Stops (fun stop _ => stop.Other) (retire context) machine := by
  have read : Stops (fun stop _ => stop.Other) (fetch context ContextField.sender) machine :=
    readHeap_stops (fun error _ => memory_other error) _ _
  have write (index : Nat) (value : Value) (machine : Machine) :
      Stops (fun stop _ => stop.Other) (store context index value) machine :=
    store_stops (fun error _ => memory_other error) context index value machine
  refine .bindOk getNil_apply (read.discard.andThen fun _ machine => ?_)
  refine (write _ _ machine).andThen fun _ machine => (write _ _ machine).andThen ?_
  refine fun _ machine => .bindOk getRegisters_apply (.ite (fun _ => ?_) fun _ => .pure)
  refine .bindOk (modifyRegisters_apply _) ?_
  rcases recycle_ends context with ⟨result, after, ended⟩
  exact .of_ok ended

theorem forM_retire_other (contexts : List Value) (machine : Machine) :
    Stops (fun stop _ => stop.Other) (contexts.forM retire) machine := by
  induction contexts generalizing machine with
  | nil => exact .pure
  | cons context contexts induction =>
    exact (retire_other context machine).andThen fun _ machine => induction machine

/-- A return is refused before anything is changed: because the target is dead or missing,
or because the senders end without it. -/
theorem returnTo_refused (answer target : Value) (machine : Machine) :
    Stops (machine.Refused target) (returnTo answer target) machine := by
  have refused {α : Type} {run : Run α} {after : Machine}
      (stops : Stops (fun stop _ => stop.Other) run after) :
      Stops (machine.Refused target) run after :=
    stops.mono fun stop last other => other.refused machine last target
  have dead (gone : target = machine.registers.specials.nil ∨
      machine.heap.fetch target ContextField.pc = .ok machine.registers.specials.nil) :
      machine.Refused target (.error (.cannotReturn target)) machine := by
    refine ⟨?_, by simp, by simp⟩
    rintro context ⟨⟩
    exact ⟨rfl, rfl, gone⟩
  refine .bindOk getNil_apply (.ite (fun missing => .failThen (dead (.inl missing))) ?_)
  intro proper
  refine Stops.bind (refused (readHeap_stops (fun error _ => memory_other error) _ _))
    (ensures_fetch machine target ContextField.pc) ?_
  rintro saved machine ⟨found, rfl⟩
  refine .ite (fun same => .failThen (dead (.inr (same ▸ found)))) fun resumable => ?_
  refine .bindOk getHeap_apply (.bindOk getRegisters_apply ?_)
  have walk : Stops (machine.Refused target) (contextsAbove target (machine.heap.cells.size + 1)
      machine.registers.activeContext) machine := by
    refine (contextsAbove_stops _ _).mono fun stop after astray => ?_
    refine ⟨fun context same => absurd same (astray.granted context), astray.broken, ?_⟩
    rintro ⟨last, above, either, ascends⟩
    exact astray.ends last above either ascends (ascends.length_le.trans (Nat.le_succ _))
  refine walk.andThen fun left machine => (refused (forM_retire_other left machine)).andThen ?_
  refine fun _ machine => (refused (loadContext_other target machine)).andThen ?_
  exact fun _ machine => refused (push_stops (fun error _ => memory_other error) answer machine)

/-- A context that was left by a return and has not been used again cannot be returned to. -/
theorem returnTo_dead {answer context : Value} (proper : context ≠ machine.registers.specials.nil)
    (dead : machine.heap.fetch context ContextField.pc = .ok machine.registers.specials.nil) :
    returnTo answer context machine = .error (.error (.cannotReturn context)) machine := by
  rw [returnTo, bind_ok getNil_apply, if_neg proper]
  refine (bind_ok (fetch_ok dead)).trans ?_
  rw [if_pos rfl]
  rfl

end Run

namespace Machine

/-- Where the senders of the active context end, a return to whatever target comes to its
end or stops. If it comes to its end, the target goes on, and every context between cannot
be returned to as long as it is not used again. If it is refused, the machine is what it
was. -/
theorem return_unwinds_or_changes_nothing {machine : Machine} {target : Value}
    (finite : machine.Unwinds target) (answer : Value) :
    (∀ after, Run.returnTo answer target machine = .ok () after → ∃ above,
      machine.Unwound target answer above after ∧
        ∀ context ∈ above, ∀ later : Machine,
          later.registers.specials.nil = machine.registers.specials.nil →
          later.heap.get? context = after.heap.get? context → ∀ other,
            Run.returnTo other context later = .error (.error (.cannotReturn context)) later) ∧
      ∀ stop after, Run.returnTo answer target machine = .error stop after →
        machine.Refused target stop after ∧ stop ≠ .endlessChain := by
  refine ⟨fun after ended => ?_, fun stop after stopped => ?_⟩
  · rcases Run.returnTo_unwinds answer target () after ended with ⟨above, unwound⟩
    refine ⟨above, unwound, fun context member later none same other => ?_⟩
    refine Run.returnTo_dead (fun absurd => ?_) ?_
    · exact unwound.inside (none ▸ absurd ▸ member)
    · rw [none, Heap.fetch_congr same]
      exact unwound.pc context member
  · have refused := Run.returnTo_refused answer target machine stop after stopped
    exact ⟨refused, refused.ends finite⟩

/-- A machine whose active context was made by one that was made by a third one. -/
def calledTwice : Machine :=
  let nil : Value := .object 0
  let frame (sender : Value) : HeapObject :=
    sampleNode nil #[sender, .ofInt 5, .zero, .object 6, nil, .object 8, nil, nil]
  sampleMachine
    [sampleNode .zero #[], sampleNode .zero #[], sampleNode .zero #[], sampleNode .zero #[],
      sampleNode .zero #[], sampleNode .zero #[], sampleMethod 0 [] #[120], frame (.object 9),
      sampleNode (.object 1) #[], frame (.object 10), frame nil]
    12 nil

/-- A return across the second context takes that one away as well. -/
theorem return_calledTwice :
    calledTwice.Unwinds (.object 10) ∧ ∃ after,
      Run.returnTo .zero (.object 10) calledTwice = .ok () after ∧
        Run.returnTo .zero (.object 9) after
          = .error (.error (.cannotReturn (.object 9))) after := by
  have chain : calledTwice.heap.Ascends (.object 10) (.object 7) [.object 7, .object 9] :=
    .sent (by decide) (by decide +kernel) (.sent (by decide) (by decide +kernel) .arrived)
  have finite : calledTwice.Unwinds (.object 10) := ⟨_, _, .inl rfl, chain⟩
  have ended : Run.returnTo .zero (.object 10) calledTwice =
      .ok () ((Run.returnTo .zero (.object 10)).left calledTwice) :=
    Run.ended?_eq_some.mp (by decide +kernel)
  rcases (return_unwinds_or_changes_nothing finite .zero).1 _ ended with ⟨above, unwound, dead⟩
  have member : .object 9 ∈ above := by
    rw [unwound.chain.unique chain]
    decide
  have none : ((Run.returnTo .zero (.object 10)).left calledTwice).registers.specials.nil =
      calledTwice.registers.specials.nil := by rw [unwound.rest]
  exact ⟨finite, _, ended, dead _ member _ none rfl .zero⟩

end Machine

end Smalltalk
