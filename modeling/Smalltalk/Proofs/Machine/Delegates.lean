import Smalltalk.Machine.Step
import Smalltalk.Proofs.Machine.Evaluation

namespace Smalltalk

/-! Whatever the machine does sends at most one message, and sends it as the last thing. How
messages are sent within messages is therefore a chain: sending one message settles what the
next one is, in which machine it is sent, and that nothing is left to do after it. -/

namespace Run

variable {α β : Type} {machine : Machine} {sent : Value → Nat → Machine → Prop}

/-- The computation either does not depend on how messages are sent, or comes to a message
that it sends, with nothing left to do but to answer. What is known of the message relates
its selector, the number of its arguments and the machine in which it is sent. -/
def Delegates (sent : Value → Nat → Machine → Prop) (run : Reply.Sender → Run α) (answer : α)
    (machine : Machine) : Prop :=
  (∃ outcome, ∀ sender, run sender machine = outcome) ∨
    ∃ selector count species between, sent selector count between ∧
      ∀ sender : Reply.Sender,
        run sender machine = (sender selector count species >>= fun _ => pure answer) between

namespace Delegates

variable {answer : α}

theorem const {run : Run α} : Delegates sent (fun _ => run) answer machine :=
  .inl ⟨run machine, fun _ => rfl⟩

theorem send {selector species : Value} {count : Nat} (known : sent selector count machine) :
    Delegates sent (fun sender => sender selector count species >>= fun _ => pure answer) answer
      machine :=
  .inr ⟨selector, count, species, machine, known, fun _ => rfl⟩

/-- A message with nothing to answer after it. -/
theorem tail {selector species : Value} {count : Nat} (known : sent selector count machine) :
    Delegates sent (fun sender => sender selector count species) () machine :=
  .inr ⟨selector, count, species, machine, known,
    fun sender => congrFun (bind_pure (sender selector count species)).symm machine⟩

theorem mono {other : Value → Nat → Machine → Prop} {run : Reply.Sender → Run α}
    (delegates : Delegates sent run answer machine)
    (weaker : ∀ selector count between, sent selector count between →
      other selector count between) : Delegates other run answer machine := by
  rcases delegates with outcome | ⟨selector, count, species, between, known, same⟩
  · exact .inl outcome
  · exact .inr ⟨selector, count, species, between, weaker _ _ _ known, same⟩

/-- What comes first does not send. -/
theorem bind {first : Run β} {next : β → Reply.Sender → Run α} {middle : β → Machine → Prop}
    (ensures : first.Ensures machine middle)
    (second : ∀ result between, middle result between →
      Delegates sent (next result) answer between) :
    Delegates sent (fun sender => first >>= fun result => next result sender) answer machine := by
  cases ended : first machine with
  | error stop after => exact .inl ⟨.error stop after, fun _ => bind_error ended⟩
  | ok result between =>
    rcases second result between (ensures result between ended) with
      ⟨outcome, same⟩ | ⟨selector, count, species, later, known, same⟩
    · exact .inl ⟨outcome, fun sender => (bind_ok ended).trans (same sender)⟩
    · exact .inr ⟨selector, count, species, later, known,
        fun sender => (bind_ok ended).trans (same sender)⟩

/-- What comes first does not send and is known to come to its end. -/
theorem bindOk {first : Run β} {next : β → Reply.Sender → Run α} {result : β} {between : Machine}
    (ended : first machine = .ok result between)
    (rest : Delegates sent (next result) answer between) :
    Delegates sent (fun sender => first >>= fun result => next result sender) answer machine := by
  have exactly : first.Ensures machine fun found after => found = result ∧ after = between := by
    intro found after again
    cases ended.symm.trans again
    exact ⟨rfl, rfl⟩
  refine bind exactly ?_
  rintro found after ⟨rfl, rfl⟩
  exact rest

/-- What comes after a message has nothing left to do. -/
theorem andThen {run : Reply.Sender → Run β} {given : β} {next : β → Run α}
    (delegates : Delegates sent run given machine) (idle : next given = pure answer) :
    Delegates sent (fun sender => run sender >>= next) answer machine := by
  rcases delegates with ⟨outcome, same⟩ | ⟨selector, count, species, between, known, same⟩
  · refine .inl ⟨((show Run β from fun _ => outcome) >>= next) machine, fun sender => ?_⟩
    simp only [Bind.bind, EStateM.bind, same]
  · refine .inr ⟨selector, count, species, between, known, fun sender => ?_⟩
    have goesOn : (run sender >>= next) machine
        = ((sender selector count species >>= fun _ => pure given) >>= next) between := by
      simp only [Bind.bind, EStateM.bind, same]
    have idles : ((sender selector count species >>= fun _ => pure given) >>= next)
        = sender selector count species >>= fun _ => pure answer := by
      rw [bind_assoc]
      simp only [pure_bind, idle]
    exact goesOn.trans (congrFun idles between)

theorem ite {condition : Prop} [Decidable condition] {first second : Reply.Sender → Run α}
    (yes : condition → Delegates sent first answer machine)
    (no : ¬ condition → Delegates sent second answer machine) :
    Delegates sent (fun sender => if condition then first sender else second sender) answer
      machine := by
  by_cases holds : condition
  · simpa only [if_pos holds] using yes holds
  · simpa only [if_neg holds] using no holds

end Delegates

/-! ## Messages within messages -/

/-- Send one message, whose primitive sends the messages that it performs in a given way. -/
def sendOnce (inner : Reply.Sender) : Reply.Sender := fun selector count species => do
  modifyRegisters fun registers =>
    { registers with
      messageSelector := selector
      argumentCount := count
      lookupClass := species }
  findMethodBy resolveMessage species
  let number := (← getRegisters).primitiveIndex
  let answered ← if 0 < number then respond inner number else pure false
  unless answered do activateMethod

/-- Send a message, with messages within messages down to a given depth, below which they are
sent in another way. -/
def sendWithin (bottom : Reply.Sender) : (depth : Nat) → Reply.Sender
  | 0 => bottom
  | depth + 1 => sendOnce (sendWithin bottom depth)

theorem sendToClass_eq (depth : Nat) :
    sendToClass depth = sendWithin (fun _ _ _ => throw .nestedTooDeep) depth := by
  induction depth with
  | zero => rfl
  | succ depth induction =>
    rw [sendWithin, ← induction]
    rfl

/-- Messages are nested only so deep, and what happens further down does not matter. -/
def Settles (run : Reply.Sender → Run α) (machine : Machine) : Prop :=
  ∃ limit outcome, ∀ bottom depth, limit ≤ depth → run (sendWithin bottom depth) machine = outcome

theorem Delegates.settles {run : Reply.Sender → Run α} {answer : α}
    (delegates : Delegates sent run answer machine)
    (settles : ∀ selector count species between, sent selector count between →
      Settles (fun sender => sender selector count species) between) : Settles run machine := by
  rcases delegates with ⟨outcome, same⟩ | ⟨selector, count, species, between, known, same⟩
  · exact ⟨0, outcome, fun _ _ _ => same _⟩
  · rcases settles selector count species between known with ⟨limit, outcome, settled⟩
    refine ⟨limit, ((show Run Unit from fun _ => outcome) >>= fun _ => pure answer) between, ?_⟩
    intro bottom depth deep
    rw [same]
    simp only [Bind.bind, EStateM.bind, settled bottom depth deep]

/-- A message settles if the one that its primitive sends does. -/
theorem settles_of_sendOnce {selector species : Value} {count : Nat}
    (settles : Settles (fun sender => sendOnce sender selector count species) machine) :
    Settles (fun sender => sender selector count species) machine := by
  rcases settles with ⟨limit, outcome, settled⟩
  refine ⟨limit + 1, outcome, fun bottom depth deep => ?_⟩
  cases depth with
  | zero => omega
  | succ depth => exact settled bottom depth (Nat.le_of_succ_le_succ deep)

end Run

end Smalltalk
