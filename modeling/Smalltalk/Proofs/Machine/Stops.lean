import Smalltalk.Proofs.Machine.Evaluation

namespace Smalltalk

/-! Why a computation on a machine may stop. Nothing is said about computations that come
to their end. -/

namespace Run

variable {α β : Type} {allowed : Stop → Machine → Prop} {run : Run α} {next : α → Run β}
  {machine : Machine}

/-- If the computation stops, it does so for a reason that is allowed for the machine it
leaves. -/
def Stops (allowed : Stop → Machine → Prop) (run : Run α) (machine : Machine) : Prop :=
  ∀ stop after, run machine = .error stop after → allowed stop after

namespace Stops

theorem mono {other : Stop → Machine → Prop} (stops : Stops allowed run machine)
    (weaker : ∀ stop after, allowed stop after → other stop after) : Stops other run machine :=
  fun stop after stopped => weaker stop after (stops stop after stopped)

theorem of_ok {result : α} {after : Machine} (ended : run machine = .ok result after) :
    Stops allowed run machine := by
  intro _ _ stopped
  cases ended.symm.trans stopped

theorem pure {result : α} : Stops allowed (Pure.pure result : Run α) machine := of_ok rfl

theorem throw {stop : Stop} (holds : allowed stop machine) :
    Stops allowed (MonadExcept.throw stop : Run α) machine := by
  intro _ _ stopped
  cases stopped
  exact holds

theorem fail {reason : MachineError} (holds : allowed (.error reason) machine) :
    Stops allowed (Run.fail reason : Run α) machine := throw holds

theorem bind {middle : α → Machine → Prop} (first : Stops allowed run machine)
    (ensures : run.Ensures machine middle)
    (second : ∀ result after, middle result after → Stops allowed (next result) after) :
    Stops allowed (run >>= next) machine := by
  intro stop after stopped
  simp only [Bind.bind, EStateM.bind] at stopped
  split at stopped
  · rename_i result between ended
    exact second result between (ensures result between ended) stop after stopped
  · rename_i reason between failed
    cases stopped
    exact first _ _ failed

/-- Where the first part ended does not matter. -/
theorem andThen (first : Stops allowed run machine)
    (second : ∀ result after, Stops allowed (next result) after) :
    Stops allowed (run >>= next) machine :=
  first.bind (fun _ _ _ => trivial) fun result after _ => second result after

/-- Nothing comes after a stop. -/
theorem throwThen {stop : Stop} (holds : allowed stop machine) {next : α → Run β} :
    Stops allowed ((MonadExcept.throw stop : Run α) >>= next) machine :=
  (throw holds).bind (fun _ _ ended => nomatch ended) fun _ _ absurd => False.elim absurd

theorem failThen {reason : MachineError} (holds : allowed (.error reason) machine)
    {next : α → Run β} : Stops allowed (Run.fail reason >>= next) machine := throwThen holds

/-- The first part is known to come to its end. -/
theorem bindOk {result : α} {after : Machine} (ended : run machine = .ok result after)
    (rest : Stops allowed (next result) after) : Stops allowed (run >>= next) machine := by
  intro stop last stopped
  exact rest stop last ((bind_ok ended).symm.trans stopped)

theorem ite {condition : Prop} [Decidable condition] {first second : Run α}
    (yes : condition → Stops allowed first machine)
    (no : ¬ condition → Stops allowed second machine) :
    Stops allowed (if condition then first else second) machine := by
  split
  · exact yes ‹_›
  · exact no ‹_›

theorem discard (stops : Stops allowed run machine) :
    Stops allowed (Functor.discard run) machine := by
  intro stop after stopped
  simp only [Functor.discard, Functor.mapConst, Function.comp, EStateM.map] at stopped
  split at stopped
  · cases stopped
  · rename_i reason between failed
    cases stopped
    exact stops _ _ failed

end Stops

/-- Why a computation stops, if it does. -/
def stopped? (run : Run α) (machine : Machine) : Option Stop :=
  match run machine with
  | .ok _ _ => none
  | .error stop _ => some stop

theorem stopped?_eq_some {stop : Stop} :
    run.stopped? machine = some stop ↔ ∃ after, run machine = .error stop after := by
  rw [stopped?]
  cases run machine <;> simp

/-! ## Accesses to memory -/

section

variable (memory : ∀ error after, allowed (.error (.memory error)) after)

include memory

theorem readHeap_stops (query : Heap → Except MemoryError α) (machine : Machine) :
    Stops allowed (readHeap query) machine := by
  intro stop after stopped
  rw [readHeap] at stopped
  split at stopped
  · cases stopped
  · cases stopped
    exact memory _ _

theorem store_stops (object : Value) (index : Nat) (value : Value) (machine : Machine) :
    Stops allowed (store object index value) machine := by
  intro stop after stopped
  rw [store] at stopped
  split at stopped
  · cases stopped
  · cases stopped
    exact memory _ _

theorem onHeap_stops (run : HeapM Registers α) (machine : Machine) :
    Stops allowed (onHeap run) machine := by
  intro stop after stopped
  rw [onHeap] at stopped
  split at stopped
  · cases stopped
  · cases stopped
    exact memory _ _

theorem operand_stops (depth : Nat) (machine : Machine) :
    Stops allowed (operand depth) machine :=
  .bindOk getRegisters_apply (.ite (fun _ => readHeap_stops memory _ _) fun _ => .fail (memory _ _))

theorem push_stops (value : Value) (machine : Machine) : Stops allowed (push value) machine :=
  .bindOk (modifyRegisters_apply _) (.bindOk getRegisters_apply (store_stops memory _ _ _ _))

end

end Run

end Smalltalk
