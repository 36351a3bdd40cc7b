import Smalltalk.Proofs.Indexed.Sending
import Smalltalk.Proofs.Machine.Instructions

namespace Smalltalk

/-! A run during which nothing disturbs what searches and accesses read leaves a
machine remembering only what would be found in the machine itself. -/

namespace Run

variable {base : Machine} {sender : Reply.Sender} {run : Run Unit}

/-- What is plain up to a message settles if the message does. -/
theorem SendsLast.settling (settles : Reply.Settles base sender) (sends : SendsLast sender run) :
    Settling base run := by
  induction sends with
  | plain plain => exact .of_plain plain
  | send selector count species => exact settles selector count species
  | bind first _ induction =>
    exact fun machine remembers => (first.remembers remembers).bind fun result =>
      induction result
  | bindRegisters _ induction =>
    exact fun machine remembers => (ensures_getRegisters machine).bindExactly
      (induction machine.registers machine remembers)

end Run

namespace Machine

variable {base before after start machine : Machine}

/-! ## Quiet steps -/

/-- Whether the caches are empty. -/
structure Oblivious (machine : Machine) : Prop where
  methods : ∀ entry ∈ machine.registers.methodCache.entries, entry.isVacant = true
  parts : ∀ access, ∀ part ∈ machine.registers.atCache.side access, part = none

instance (machine : Machine) : Decidable machine.Oblivious :=
  decidable_of_iff
    ((∀ entry ∈ machine.registers.methodCache.entries, entry.isVacant = true) ∧
      ∀ access, ∀ part ∈ machine.registers.atCache.side access, part = none)
    ⟨fun ⟨methods, parts⟩ => ⟨methods, parts⟩, fun ⟨methods, parts⟩ => ⟨methods, parts⟩⟩

theorem Oblivious.remembers (oblivious : machine.Oblivious) (consistent : machine.heap.Consistent)
    (base : Machine) : base.Remembers machine where
  consistent := consistent
  methods entry member access selects := by
    have vacant := oblivious.methods entry member
    rw [CacheEntry.isVacant, decide_eq_true_eq] at vacant
    have isObject := selects.1
    rw [vacant] at isObject
    cases isObject
  parts access part member := nomatch oblivious.parts access _ member

/-- One step that comes to its end. Every search for a method in it finds what searches
and accesses read as it was before the step, and after it that is still so, unless the
caches have been emptied. -/
structure QuietStep (before after : Machine) : Prop where
  ended : Run.step before = .ok () after
  searches : Run.stepBy (Run.sendToClassBy (Run.resolveUndisturbed before) nestingLimit) before
    = Run.step before
  undisturbed : before.Undisturbed after ∨ after.Oblivious

/-- Any number of quiet steps. -/
inductive QuietRuns (start : Machine) : Machine → Prop
  | refl : QuietRuns start start
  | step {before after : Machine} (run : QuietRuns start before) (step : before.QuietStep after) :
    QuietRuns start after

instance (before after : Machine) : Decidable (before.QuietStep after) :=
  decidable_of_iff
    (Run.step.ended? before = some ((), after) ∧
      (Run.stepBy (Run.sendToClassBy (Run.resolveUndisturbed before) nestingLimit)).ended? before
        = some ((), after) ∧ (before.Undisturbed after ∨ after.Oblivious)) <| by
    rw [Run.ended?_eq_some, Run.ended?_eq_some]
    constructor
    · exact fun ⟨ended, searches, undisturbed⟩ => ⟨ended, searches.trans ended.symm, undisturbed⟩
    · exact fun ⟨ended, searches, undisturbed⟩ => ⟨ended, searches.trans ended, undisturbed⟩

/-- What would be found in the machine before would be found in the one after. -/
theorem Undisturbed.remembers (undisturbed : before.Undisturbed after)
    (remembers : before.Remembers after) : after.Remembers after where
  consistent := remembers.consistent
  methods entry member access selects := by
    have known := undisturbed.selects_iff.mp selects
    have listed : entry.species ∈ after.searched := by
      have inside : entry.species
          ∈ after.registers.methodCache.entries.toList.map CacheEntry.species :=
        List.mem_map.mpr ⟨entry, Array.mem_toList_iff.mpr member, rfl⟩
      simp [searched, inside]
    have alike := undisturbed.classes entry.species listed
    exact (undisturbed.confirms_iff alike known).mpr (remembers.methods entry member access known)
  parts access part member selector selects := by
    have known := undisturbed.selects_iff.mp selects
    rcases remembers.parts access part member selector known with ⟨object, here, vouches⟩
    have alike := undisturbed.classes object.species (IsClassOf.object here).mem_searched
    rcases vouches with ⟨⟨format, described, same⟩, ⟨method, number, confirms, primitive⟩⟩
    refine ⟨object, here, ⟨⟨format, ?_, same⟩, ⟨method, number, ?_, primitive⟩⟩⟩
    · exact (alike.classFormat_eq confirms.walks.proper).trans described
    · exact (undisturbed.confirms_iff alike known).mpr confirms

theorem QuietStep.remembers (step : before.QuietStep after) (remembers : before.Remembers before) :
    after.Remembers after := by
  have settled : before.Settled after :=
    Run.SendsLast.stepBy.settling (Run.sendToClassBy_settles _) before remembers () after
      (step.searches.trans step.ended)
  rcases step.undisturbed with undisturbed | oblivious
  · exact undisturbed.remembers (settled.remembers undisturbed.selectors)
  · exact oblivious.remembers settled.consistent after

/-- What is remembered after any number of quiet steps would be found. -/
theorem QuietRuns.remembers (runs : start.QuietRuns machine) (consistent : start.heap.Consistent)
    (oblivious : start.Oblivious) : machine.Remembers machine := by
  induction runs with
  | refl => exact oblivious.remembers consistent start
  | step _ step induction => exact step.remembers induction

end Machine

end Smalltalk
