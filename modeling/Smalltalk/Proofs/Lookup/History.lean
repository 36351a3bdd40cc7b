import Smalltalk.Machine.Send
import Smalltalk.Proofs.Lookup.Transparency
import Smalltalk.Proofs.Machine.References

namespace Smalltalk

/-! Lookups, flushes and collections in any order, from a machine whose method
cache is empty: every lookup answers what a walk through the superclasses finds. -/

/-! ## Flushes -/

namespace Machine

/-- Of what a lookup needs, a machine at most forgets entries of its method cache. -/
structure Forgets (before after : Machine) : Prop where
  heap : after.heap = before.heap
  nil : after.registers.specials.nil = before.registers.specials.nil
  entries : ∀ entry ∈ after.registers.methodCache.entries, entry.isVacant = false →
    entry ∈ before.registers.methodCache.entries

variable {before middle after : Machine}

theorem Forgets.refl : before.Forgets before := ⟨rfl, rfl, fun _ member _ => member⟩

theorem Forgets.trans (early : before.Forgets middle) (late : middle.Forgets after) :
    before.Forgets after where
  heap := late.heap.trans early.heap
  nil := late.nil.trans early.nil
  entries entry member used := early.entries entry (late.entries entry member used) used

theorem Faithful.forgets (faithful : before.Faithful) (forgets : before.Forgets after) :
    after.Faithful :=
  faithful.of_subset forgets.heap forgets.nil forgets.entries

end Machine

namespace Run

variable {α β : Type} {run : Run α} {next : α → Run β} {machine : Machine}
  {good : Machine → Prop}

/-- What holds of the machine that a sequence of two computations leaves. -/
theorem left_bind (first : good (run.left machine))
    (second : ∀ result after, run machine = .ok result after → good ((next result).left after)) :
    good ((run >>= next).left machine) := by
  cases ended : run machine with
  | ok result after =>
    rw [left, bind_ok ended]
    exact second result after ended
  | error stop after =>
    rw [left_of_error (bind_error ended)]
    rwa [left_of_error ended] at first

theorem operand_left (depth : Nat) : (operand depth).left machine = machine := by
  rw [operand, left, bind_ok getRegisters_apply]
  by_cases within : depth ≤ machine.registers.sp
  · rw [if_pos within, fetch, readHeap]
    cases machine.heap.fetch _ _ <;> rfl
  · rw [if_neg within]
    rfl

/-- Asking for the receiver changes nothing. -/
theorem receiverOf_forgets {next : Value → Run Bool} (count : Nat)
    (forgets : ∀ receiver, machine.Forgets ((next receiver).left machine)) :
    machine.Forgets ((receiverOf count >>= next).left machine) := by
  refine left_bind ?_ fun receiver after ended => ?_
  · rw [receiverOf, operand_left]
    exact .refl
  · have same : after = machine := (left_of_ok ended).symm.trans (operand_left count)
    exact same ▸ forgets receiver

theorem flushMethod_forgets (count : Nat) :
    machine.Forgets ((Reply.flushMethod count).left machine) :=
  receiverOf_forgets count fun _ => ⟨rfl, rfl, fun _ => MethodCache.mem_entries_forget⟩

theorem flushSelector_forgets (count : Nat) :
    machine.Forgets ((Reply.flushSelector count).left machine) :=
  receiverOf_forgets count fun _ => ⟨rfl, rfl, fun _ => MethodCache.mem_entries_forget⟩

theorem flushCaches_forgets : machine.Forgets (Reply.flushCaches.left machine) := by
  refine ⟨rfl, rfl, fun entry member used => ?_⟩
  rcases Array.mem_map.mp member with ⟨_, -, rfl⟩
  cases used

/-- The primitives that make the method cache forget. -/
def flushNumbers : List Nat := [89, 116, 119]

/-- Whoever asks for a flush, and whether it succeeds or not. -/
theorem respond_forgets {number : Nat} (flush : number ∈ flushNumbers) (sender : Reply.Sender) :
    machine.Forgets ((respond sender number).left machine) := by
  have listed {primitive : Primitive} (found : Primitive.ofNumber? number = some primitive)
      (small : ¬ (quickSelf ≤ number ∧ number ≤ quickLast))
      (forgets : machine.Forgets
        ((primitive.run sender machine.registers.argumentCount).left machine)) :
      machine.Forgets ((respond sender number).left machine) := by
    rw [respond, if_neg small, found]
    refine left_bind .refl fun registers after ended => ?_
    cases ended
    refine left_bind forgets fun succeeded later ended => ?_
    rw [left_of_ok ended] at forgets
    cases succeeded
    · exact forgets.trans ⟨rfl, rfl, fun _ member _ => member⟩
    · exact forgets
  simp only [flushNumbers, List.mem_cons, List.not_mem_nil, or_false] at flush
  rcases flush with rfl | rfl | rfl
  · exact listed rfl (by decide) flushCaches_forgets
  · exact listed rfl (by decide) (flushMethod_forgets _)
  · exact listed rfl (by decide) (flushSelector_forgets _)

end Run

namespace Machine

variable {start before machine after : Machine} {selector species : Value}

/-! ## Histories -/

/-- Whether a change leaves alone what the entries of the method cache were found
by: their selectors, their classes and superclasses with the methods of these, and
the entries themselves. -/
structure KeepsCached (before after : Machine) : Prop where
  consistent : after.heap.Consistent
  closed : after.heap.Closed
  nil : after.registers.specials.nil = before.registers.specials.nil
  entries : after.registers.methodCache.entries = before.registers.methodCache.entries
  selectors : ∀ entry ∈ before.registers.methodCache.entries, entry.isVacant = false →
    after.heap.Holds entry.selector ∧
      after.heap.hashOf entry.selector = before.heap.hashOf entry.selector
  classes : ∀ entry ∈ before.registers.methodCache.entries, entry.isVacant = false →
    ∀ above, before.heap.Ancestor entry.species above →
      Heap.KeepsClass before.heap after.heap above

/-- What can come of a machine by lookups, flushes and collections, and by changes in
between that leave alone what is cached. Lookups may fail, and so may flushes. -/
inductive Interleaves (start : Machine) : Machine → Prop
  | start : Interleaves start start
  | lookup {machine : Machine} {selector species : Value} (earlier : Interleaves start machine)
      (isObject : selector.isSmall = false) (held : machine.heap.Holds selector)
      (lineage : machine.heap.HasLineage machine.registers.specials.nil species) :
      Interleaves start ((Run.lookupMethod selector species).left machine)
  | flush {machine : Machine} {number : Nat} (earlier : Interleaves start machine)
      (flush : number ∈ Run.flushNumbers) (sender : Reply.Sender) :
      Interleaves start ((Run.respond sender number).left machine)
  | partialCollection {machine : Machine} (earlier : Interleaves start machine) :
      Interleaves start ((Run.collect Rooted.partialCollect).left machine)
  | fullCollection {machine : Machine} (earlier : Interleaves start machine) :
      Interleaves start ((Run.collect Rooted.fullCollect).left machine)
  | elsewhere {machine after : Machine} (earlier : Interleaves start machine)
      (keeps : machine.KeepsCached after) : Interleaves start after

theorem Faithful.keepsCached (faithful : before.Faithful) (keeps : before.KeepsCached after) :
    after.Faithful where
  consistent := keeps.consistent
  closed := keeps.closed
  selector entry member used := by
    rw [keeps.entries] at member
    exact (keeps.selectors entry member used).1
  confirms entry member used := by
    rw [keeps.entries] at member
    rw [keeps.nil]
    exact (faithful.confirms entry member used).transfer (keeps.classes entry member used)
      (keeps.selectors entry member used).2

theorem Faithful.interleaves (faithful : start.Faithful) (history : start.Interleaves machine) :
    machine.Faithful := by
  induction history with
  | start => exact faithful
  | lookup _ isObject held lineage induction =>
    rcases Run.lookupMethod_answers induction isObject held lineage with ⟨_, _, -, ended, later⟩
    rwa [Run.left_of_ofMemory ended]
  | flush _ flush sender induction => exact induction.forgets (Run.respond_forgets flush sender)
  | partialCollection _ induction =>
    exact induction.survives (Rooted.survives_partialCollect induction.consistent)
  | fullCollection _ induction =>
    exact induction.survives (Rooted.survives_fullCollect induction.consistent)
  | elsewhere _ keeps induction => exact induction.keepsCached keeps

/-- After any such history from an empty method cache, a lookup answers the one thing
that a walk through the superclasses finds, with the number of the method's primitive:
a method, nothing, or an error. -/
theorem lookupMethod_of_interleaves (consistent : start.heap.Consistent)
    (closed : start.heap.Closed)
    (empty : ∀ entry ∈ start.registers.methodCache.entries, entry.isVacant = true)
    (history : start.Interleaves machine) (isObject : selector.isSmall = false)
    (held : machine.heap.Holds selector)
    (lineage : machine.heap.HasLineage machine.registers.specials.nil species) :
    ∃ answer later,
      (∀ other, machine.heap.Answers selector machine.registers.specials.nil species other ↔
        other = answer) ∧
      Run.lookupMethod selector species machine
        = Run.ofMemory (answer.map (Option.map (CacheEntry.ofFound selector species))) later := by
  have faithful : start.Faithful := .of_vacant consistent closed empty
  rcases Run.lookupMethod_answers (faithful.interleaves history) isObject held lineage with
    ⟨answer, cache, answers, ended, -⟩
  exact ⟨answer, _, fun other => ⟨answers.unique, fun same => same ▸ answers⟩, ended⟩

/-- The second lookup hits what the first one remembered, also after a collection. -/
theorem lookupMethod_tightMachine :
    let looked := (Run.lookupMethod (.object 4) (.object 1)).left tightMachine
    let collected := (Run.collect Rooted.partialCollect).left looked
    let again := (Run.lookupMethod (.object 4) (.object 1)).left collected
    tightMachine.Interleaves collected ∧ collected.heap.counts.freed = 1 ∧
      again.registers.methodCache.counts = ⟨1, 1, 1⟩ ∧
      ∃ later, Run.lookupMethod (.object 4) (.object 1) collected
        = .ok (some ⟨.object 4, .object 1, .object 5, 0⟩) later := by
  intro looked collected again
  have lineage : tightMachine.heap.HasLineage (.object 0) (.object 1) :=
    ⟨[.object 1], .inherits (by decide) rfl .ended⟩
  have history : tightMachine.Interleaves collected :=
    .partialCollection (.lookup .start rfl (by decide) lineage)
  have kept : collected.heap.HasLineage (.object 0) (.object 1) :=
    ⟨[.object 1], .inherits (by decide) (by decide +kernel) .ended⟩
  have walks : collected.heap.Walks (.object 4) (.object 0) (.object 1)
      (.ok (some (.object 5))) := .own (by decide) (by decide +kernel)
  have primitive : collected.heap.primitiveOf (.object 5) = .ok 0 := by decide +kernel
  have answers := Heap.Answers.found walks
  rw [primitive] at answers
  have held : collected.heap.Holds (.object 4) := by decide +kernel
  rcases lookupMethod_of_interleaves (by decide +kernel) (by decide +kernel) (by decide) history
    rfl held kept with ⟨answer, later, only, ended⟩
  rcases (only _).mp answers with rfl
  exact ⟨history, by decide +kernel, by decide +kernel, later, ended⟩

end Machine

end Smalltalk
