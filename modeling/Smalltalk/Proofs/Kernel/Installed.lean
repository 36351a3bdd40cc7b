import Smalltalk.Proofs.Kernel.Founding

namespace Smalltalk

/-! Methods that are installed in the classes of a kernel are found there: the
one installed last under each name, and no others. -/

namespace Kernel

/-- What a kernel can be asked to make before it is started. -/
inductive Call where
  | intern (name : String)
  | method (header : MethodHeader) (literals : Array Value) (bytecode : Array UInt8)
  | install (species : KernelClass) (name : String) (code : Value)

/-- Take the step that a call asks for. A failure is recorded. -/
def Call.perform (kernel : Kernel) : Call → Kernel
  | .intern name => (kernel.attempt (Build.intern name)).2
  | .method header literals bytecode => (kernel.attempt (Build.method header literals bytecode)).2
  | .install species name code =>
    kernel.attemptUnit (Build.install (kernel.classes species) name code)

/-- What a call adds to the log of installations. -/
def Call.note (log : MethodLog) : Call → MethodLog
  | .install species name code => log.note species name code
  | _ => log

/-- Perform calls in order. -/
def run (kernel : Kernel) (calls : List Call) : Kernel := calls.foldl Call.perform kernel

/-- The method that the last of the calls that install something under a name in
a class puts there. -/
def lastInstalled (calls : List Call) : MethodLog := calls.foldl Call.note fun _ _ => none

/-- Something has gone wrong that is not a fault of the insertions. -/
def Spoiled (kernel : Kernel) : Prop :=
  (∃ error, kernel.failure = some (.error (.memory error))) ∨ kernel.Outgrown

variable {kernel origin : Kernel} {log : MethodLog}

/-! ## Attempts -/

theorem attempt_of_ok {step : Build Value} {value : Value} {after : Kernel}
    (ends : step kernel = .ok value after) : kernel.attempt step = (value, after) := by
  rw [attempt, ends]

theorem attempt_of_error {step : Build Value} {stop : Stop} {after : Kernel}
    (ends : step kernel = .error stop after) :
    kernel.attempt step
      = (after.nil, { after with failure := after.failure.or (some stop) }) := by
  rw [attempt, ends]

/-- The first failure is kept. -/
theorem attempt_spoiled {step : Build Value} {count : Nat} (steady : Build.Steady count step)
    (spoiled : kernel.Spoiled) : (kernel.attempt step).2.Spoiled := by
  have precedes := steady kernel
  cases ends : step kernel with
  | ok value after =>
    rw [ends] at precedes
    rw [attempt_of_ok ends]
    exact spoiled.imp (fun failed => precedes.failure.symm ▸ failed) (·.precedes precedes)
  | error stop after =>
    rw [ends] at precedes
    rw [attempt_of_error ends]
    refine spoiled.imp (fun failed => ?_)
      fun outgrown => show after.Outgrown from outgrown.precedes precedes
    obtain ⟨error, failed⟩ := failed
    exact ⟨error, congrArg (Option.or · (some stop)) (precedes.failure.trans failed)⟩

theorem attempt_ends {step : Build Value} {count : Nat} {good : Kernel → Prop}
    (steady : Build.Steady count step) (unfailed : kernel.failure = none)
    (ensures : Build.Ensures step kernel fun _ after => after.Outgrown ∨ good after) :
    (kernel.attempt step).2.Spoiled ∨ good (kernel.attempt step).2 := by
  have precedes := steady kernel
  cases ends : step kernel with
  | ok value after =>
    rw [attempt_of_ok ends]
    exact ((Build.Ensures.iff_of_ok ends).mp ensures).imp_left .inr
  | error stop after =>
    rw [ends] at precedes
    rw [Build.Ensures, ends] at ensures
    rw [attempt_of_error ends]
    refine .inl (ensures.imp (fun full => ?_) id)
    obtain ⟨⟨capacity, rfl⟩, -⟩ := full
    exact ⟨_, congrArg (Option.or · _) (precedes.failure.trans unfailed)⟩

/-- With enough room, an attempt succeeds. -/
theorem attempt_of_room {step : Build Value} {count rest : Nat} {good : Kernel → Prop}
    (steady : Build.Steady count step) (room : kernel.HasRoom (count + rest))
    (ensures : Build.Ensures step kernel fun _ after => after.Outgrown ∨ good after) :
    (kernel.attempt step).2.HasRoom rest ∧ good (kernel.attempt step).2 := by
  obtain ⟨value, after, ends, reached, precedes⟩ :=
    ensures.ends_of_room steady (room.mono (Nat.le_add_right ..))
  have left := room.precedes precedes
  rw [attempt_of_ok ends]
  exact ⟨left, reached.resolve_left left.not_outgrown⟩

/-! ## Calls -/

/-- The step that a call asks for. -/
def Call.step (kernel : Kernel) : Call → Build Value
  | .intern name => Build.intern name
  | .method header literals bytecode => Build.method header literals bytecode
  | .install species name code => do
    Build.install (kernel.classes species) name code
    Build.getNil

theorem Call.perform_eq (kernel : Kernel) (call : Call) :
    call.perform kernel = (kernel.attempt (call.step kernel)).2 := by
  cases call <;> rfl

/-- A call adds at most a symbol and a dictionary with its array. -/
theorem Call.step_steady (kernel : Kernel) (call : Call) : Build.Steady 3 (call.step kernel) := by
  cases call with
  | intern name => exact (Build.Steady.intern name).mono (by decide)
  | method header literals bytecode =>
    exact (Build.Steady.method header literals bytecode).mono (by decide)
  | install species name method => exact .bind (.install _ _ _) fun _ => .getNil

/-- What a call does to the methods of the classes, the log says. -/
theorem Call.step_ensures {records : KernelClass → ClassRecord}
    (recorded : kernel.Recorded origin log records) (call : Call) :
    Build.Ensures (call.step kernel) kernel fun _ after =>
      after.Outgrown ∨ ∃ records, after.Recorded origin (call.note log) records := by
  cases call with
  | intern name =>
    exact .mono ((Build.Keeps.intern name).ensures recorded) fun _ _ kept => .inr ⟨_, kept⟩
  | method header literals bytecode =>
    exact .mono ((Build.Keeps.method header literals bytecode).ensures recorded)
      fun _ _ kept => .inr ⟨_, kept⟩
  | install species name method =>
    exact .bind (Build.install_ensures recorded species name method) fun _ _ installed => installed

/-- Calls leave a kernel with the methods that they have installed, unless they
run into the limits of memory. -/
theorem run_recorded (calls : List Call)
    (start : kernel.Spoiled ∨ ∃ records, kernel.Recorded origin log records) :
    (kernel.run calls).Spoiled ∨
      ∃ records, (kernel.run calls).Recorded origin (calls.foldl Call.note log) records := by
  induction calls generalizing kernel log with
  | nil => exact start
  | cons call rest ih =>
    refine ih ?_
    rw [Call.perform_eq]
    rcases start with spoiled | ⟨records, recorded⟩
    · exact .inl (attempt_spoiled (call.step_steady kernel) spoiled)
    · exact attempt_ends (call.step_steady kernel) recorded.failure (call.step_ensures recorded)

/-- With room for three objects for each of them, calls do not run into the
limits of memory. -/
theorem run_of_room {records : KernelClass → ClassRecord} {calls : List Call}
    (room : kernel.HasRoom (3 * calls.length)) (recorded : kernel.Recorded origin log records) :
    (kernel.run calls).HasRoom 0 ∧
      ∃ records, (kernel.run calls).Recorded origin (calls.foldl Call.note log) records := by
  induction calls generalizing kernel log records with
  | nil => exact ⟨room, records, recorded⟩
  | cons call rest ih =>
    rw [List.length_cons, Nat.mul_succ, Nat.add_comm] at room
    obtain ⟨left, records, next⟩ :=
      attempt_of_room (call.step_steady kernel) room (call.step_ensures recorded)
    rw [← Call.perform_eq] at left next
    exact ih left next

/-- A table with room for a kernel and for three more objects for each call is
never full. -/
theorem exists_run {config : Config} {calls : List Call}
    (room : 411 + 3 * calls.length < config.tableSize)
    (few : 411 + 3 * calls.length ≤ 2147483648) :
    ∃ kernel, ofConfig config = .ok kernel ∧ (kernel.run calls).failure = none ∧
      (kernel.run calls).heap.cells.size ≤ 2147483648 := by
  obtain ⟨kernel, made, left⟩ := exists_ofConfig room few
  obtain ⟨_, recorded⟩ := recorded_of_ofConfig made
  obtain ⟨left, _, recorded⟩ := run_of_room left recorded
  exact ⟨kernel, made, recorded.failure, left.cells⟩

/-! ## What is found -/

theorem Recorded.methodAt?_eq {records : KernelClass → ClassRecord}
    (recorded : kernel.Recorded origin log records) (species : KernelClass) :
    ∃ dictionary,
      kernel.heap.fetch (kernel.classes species) ClassField.methodDictionary = .ok dictionary ∧
      (∀ name method, log species name = some method →
        ∃ symbol, kernel.symbols.lookup name = some symbol ∧
          kernel.heap.methodAt? dictionary symbol kernel.nil = .ok (some method)) ∧
      ∀ selector, selector ≠ kernel.nil →
        (∀ name, kernel.symbols.lookup name = some selector → log species name = none) →
        kernel.heap.methodAt? dictionary selector kernel.nil = .ok none := by
  have holdsClass := recorded.classes species
  obtain ⟨tally, holds, -⟩ := holdsClass.holds
  refine ⟨_, holdsClass.stands ▸ holdsClass.linked, fun name method installed => ?_,
    fun selector proper unknown => ?_⟩
  · obtain ⟨symbol, interned⟩ := holdsClass.interned name method installed
    have proper := (recorded.symbols name symbol interned).2
    exact ⟨symbol, interned, holds.methodAt?_of_answers proper
      ((holdsClass.answers symbol method proper).mpr ⟨name, interned, installed⟩)⟩
  · refine holds.methodAt?_of_not_answers fun method answers => ?_
    obtain ⟨name, interned, installed⟩ := (holdsClass.answers selector method proper).mp answers
    cases (unknown name interned).symm.trans installed

/-- After any calls that record no memory error, all of them have ended well, and
a class answers for every name the method that was installed last under it, and
nothing for any other selector. References tell `2 ^ 31` objects apart. -/
theorem installed_methods_found {config : Config} (made : ofConfig config = .ok kernel)
    (calls : List Call)
    (healthy : ∀ error, (kernel.run calls).failure ≠ some (.error (.memory error)))
    (numbered : (kernel.run calls).heap.cells.size ≤ 2147483648) :
    (kernel.run calls).failure = none ∧ ∀ species, ∃ dictionary,
      (kernel.run calls).heap.fetch (kernel.classes species) ClassField.methodDictionary
        = .ok dictionary ∧
      (∀ name method, lastInstalled calls species name = some method →
        ∃ symbol, (kernel.run calls).symbols.lookup name = some symbol ∧
          (kernel.run calls).heap.methodAt? dictionary symbol kernel.nil = .ok (some method)) ∧
      ∀ selector, selector ≠ kernel.nil →
        (∀ name, (kernel.run calls).symbols.lookup name = some selector →
          lastInstalled calls species name = none) →
        (kernel.run calls).heap.methodAt? dictionary selector kernel.nil = .ok none := by
  rcases run_recorded calls (.inr (recorded_of_ofConfig made)) with spoiled | ⟨records, recorded⟩
  · rcases spoiled with ⟨error, failed⟩ | outgrown
    · exact absurd failed (healthy error)
    · exact absurd numbered (Nat.not_le.mpr outgrown)
  · refine ⟨recorded.failure, fun species => ?_⟩
    rw [← recorded.sameNil, ← recorded.sameClasses]
    exact recorded.methodAt?_eq species

/-- A method is installed, then another one under the same name and one under
another name. -/
def sampleCalls : List Call :=
  [.install .point "first" (.object 5), .install .point "second" (.object 6),
    .install .point "first" (.object 7)]

theorem installed_methods_found_sampleCalls :
    ∃ kernel, ofConfig .compact = .ok kernel ∧ (kernel.run sampleCalls).failure = none ∧
      ∃ dictionary symbol,
        (kernel.run sampleCalls).heap.fetch (kernel.classes .point) ClassField.methodDictionary
          = .ok dictionary ∧
        (kernel.run sampleCalls).symbols.lookup "first" = some symbol ∧
        (kernel.run sampleCalls).heap.methodAt? dictionary symbol kernel.nil
          = .ok (some (.object 7)) := by
  obtain ⟨kernel, made, unfailed, few⟩ :=
    exists_run (show 411 + 3 * sampleCalls.length < Config.compact.tableSize by decide) (by decide)
  obtain ⟨well, found⟩ := installed_methods_found made sampleCalls
    (fun error failed => by cases unfailed.symm.trans failed) few
  obtain ⟨dictionary, fetched, answers, -⟩ := found .point
  obtain ⟨symbol, interned, answered⟩ := answers "first" (.object 7) (by decide)
  exact ⟨kernel, made, well, dictionary, symbol, fetched, interned, answered⟩

end Kernel

end Smalltalk
