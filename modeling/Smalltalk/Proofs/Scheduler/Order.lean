import Smalltalk.Proofs.Scheduler.Plan

namespace Smalltalk

/-! A roster is in order when the right process runs and those that are ready wait
where they belong. That is a matter of the roster alone. -/

namespace Plan

/-- Whether a process runs or waits. -/
def Has (plan : Plan) (roster : Roster) (process : Value) : Prop :=
  process = roster.active ∨ plan.Waits roster process

/-- Those who are ready wait in the list of their priority. -/
def Sorted (plan : Plan) (roster : Roster) : Prop :=
  ∀ index list process, plan.ready[index]? = some list → process ∈ roster.queue list →
    plan.priority process = some (index + 1)

/-- The active process waits nowhere, and nobody who is ready comes before it. -/
structure Orderly (plan : Plan) (roster : Roster) : Prop where
  resting : ¬ plan.Waits roster roster.active
  sorted : plan.Sorted roster
  foremost : ∀ index list process, plan.ready[index]? = some list → process ∈ roster.queue list →
    ∃ priority, plan.priority roster.active = some priority ∧ index + 1 ≤ priority

variable {plan : Plan} {roster later : Roster} {list process : Value} {index : Nat}

theorem index_eq {other : Nat} (first : plan.ready[index]? = some list)
    (second : plan.ready[other]? = some list) : index = other := by
  rcases List.getElem?_eq_some_iff.mp first with ⟨inside, _⟩
  exact (List.getElem?_inj inside plan.ready_nodup).mp (first.trans second.symm)

theorem role_of_ready (ready : plan.ready[index]? = some list) : plan.role list = some .queue :=
  plan.ready_role list (List.mem_of_getElem? ready)

theorem Sorted.enqueue (sorted : plan.Sorted roster)
    (sits : ∀ index, plan.ready[index]? = some list → plan.priority process = some (index + 1)) :
    plan.Sorted (roster.enqueue list process) := by
  intro place other member ready inside
  rcases (roster.mem_queue_enqueue_iff process).mp inside with old | ⟨rfl, rfl⟩
  · exact sorted place other member ready old
  · exact sits place ready

theorem Sorted.dequeue (sorted : plan.Sorted roster) (list : Value) :
    plan.Sorted (roster.dequeue list) :=
  fun place other member ready inside =>
    sorted place other member ready (roster.mem_of_mem_dequeue inside)

theorem Orderly.dequeue (orderly : plan.Orderly roster) (list : Value) :
    plan.Orderly (roster.dequeue list) where
  resting := fun ⟨other, role, inside⟩ =>
    orderly.resting ⟨other, role, roster.mem_of_mem_dequeue inside⟩
  sorted := orderly.sorted.dequeue list
  foremost place other member ready inside :=
    orderly.foremost place other member ready (roster.mem_of_mem_dequeue inside)

/-- Who is next depends only on the ready lists. -/
theorem IsNext.of_queue_eq (next : plan.IsNext later index list process)
    (same : ∀ {place : Nat} {other : Value}, plan.ready[place]? = some other →
      later.queue other = roster.queue other) : plan.IsNext roster index list process where
  ready := next.ready
  first := same next.ready ▸ next.first
  highest higher other above found :=
    (same found).symm.trans (next.highest higher other above found)

/-- When the process that is next becomes active, nobody who is ready comes before
it, wherever the one before it has gone. -/
theorem IsNext.orderly (next : plan.IsNext roster index list process)
    (distributes : plan.Distributes roster) (sorted : plan.Sorted roster) :
    plan.Orderly ((roster.dequeue list).activate process) where
  resting := by
    rcases next.first with ⟨rest, members⟩
    exact fun waits =>
      ((distributes.waits_dequeue_iff (role_of_ready next.ready) members _).mp waits).2 rfl
  sorted := sorted.dequeue list
  foremost := by
    intro place other member ready inside
    rcases next.first with ⟨rest, members⟩
    refine ⟨index + 1, ?_, ?_⟩
    · exact sorted index list process next.ready (members ▸ List.mem_cons_self ..)
    · by_contra above
      have none := next.highest place other (by omega) ready
      exact List.not_mem_nil (none ▸ roster.mem_of_mem_dequeue inside)

/-- A switch loses nobody who waited. -/
theorem IsNext.has_iff (next : plan.IsNext roster index list process)
    (distributes : plan.Distributes roster) {member : Value} :
    plan.Has ((roster.dequeue list).activate process) member ↔ plan.Waits roster member := by
  rcases next.first with ⟨rest, members⟩
  have role := role_of_ready next.ready
  have moved := distributes.waits_dequeue_iff role members member
  constructor
  · intro either
    rcases either with rfl | waits
    · exact ⟨list, role, by simp [members]⟩
    · exact (moved.mp waits).1
  · intro waits
    by_cases same : member = process
    · exact .inl same
    · exact .inr (moved.mpr ⟨waits, same⟩)

/-- What resuming a process does to a roster. -/
structure Resumes (plan : Plan) (roster : Roster) (process : Value) (later : Roster) : Prop where
  has_iff : ∀ member, plan.Has later member ↔ plan.Has roster member ∨ member = process
  others : ∀ list, list ∉ plan.ready → later.queue list = roster.queue list
  placed : later.active = process ∨ ∃ index list, plan.ready[index]? = some list ∧
    plan.priority process = some (index + 1) ∧ later.queue list = roster.queue list ++ [process]

/-- The process has a higher priority than the active one, which goes to its list. -/
theorem Orderly.preempt (orderly : plan.Orderly roster) (new : ¬ plan.Has roster process)
    (ready : plan.ready[index]? = some list)
    (sits : plan.priority roster.active = some (index + 1)) {priority : Nat}
    (given : plan.priority process = some priority) (above : index + 1 < priority) :
    plan.Orderly ((roster.enqueue list roster.active).activate process) ∧
      plan.Resumes roster process ((roster.enqueue list roster.active).activate process) := by
  have waits (member : Value) :=
    plan.waits_enqueue_iff roster (role_of_ready ready) roster.active member
  refine ⟨⟨?_, ?_, ?_⟩, ⟨?_, ?_, .inl rfl⟩⟩
  · intro late
    rcases (waits _).mp late with early | same
    · exact new (.inr early)
    · exact new (.inl same)
  · exact orderly.sorted.enqueue fun place found => by rw [sits, index_eq ready found]
  · intro place other member found inside
    refine ⟨priority, given, ?_⟩
    rcases (roster.mem_queue_enqueue_iff roster.active).mp inside with old | ⟨rfl, rfl⟩
    · rcases orderly.foremost place other member found old with ⟨own, same, bound⟩
      rw [sits] at same
      cases same
      omega
    · rw [index_eq found ready]
      omega
  · intro member
    constructor
    · intro either
      rcases either with same | late
      · exact .inr same
      · exact .inl (((waits _).mp late).elim .inr .inl)
    · intro either
      rcases either with (same | early) | same
      · exact .inr ((waits _).mpr (.inr same))
      · exact .inr ((waits _).mpr (.inl early))
      · exact .inl same
  · intro other outside
    refine roster.queue_enqueue_other _ fun same => outside ?_
    exact same ▸ List.mem_of_getElem? ready

/-- The process goes to its list, and the active one remains active. -/
theorem Orderly.defer (orderly : plan.Orderly roster) (new : ¬ plan.Has roster process)
    (ready : plan.ready[index]? = some list) (sits : plan.priority process = some (index + 1))
    {priority : Nat} (given : plan.priority roster.active = some priority)
    (below : index + 1 ≤ priority) :
    plan.Orderly (roster.enqueue list process) ∧
      plan.Resumes roster process (roster.enqueue list process) := by
  have waits (member : Value) := plan.waits_enqueue_iff roster (role_of_ready ready) process member
  refine ⟨⟨?_, ?_, ?_⟩, ⟨?_, ?_, .inr ⟨index, list, ready, sits, by simp⟩⟩⟩
  · exact fun late => ((waits _).mp late).elim orderly.resting fun same => new (.inl same.symm)
  · exact orderly.sorted.enqueue fun place found => by rw [sits, index_eq ready found]
  · intro place other member found inside
    rcases (roster.mem_queue_enqueue_iff process).mp inside with old | ⟨rfl, rfl⟩
    · exact orderly.foremost place other member found old
    · exact ⟨priority, given, index_eq found ready ▸ below⟩
  · intro member
    constructor
    · intro either
      rcases either with same | late
      · exact .inl (.inl same)
      · exact ((waits _).mp late).imp .inr id
    · intro either
      rcases either with (same | early) | same
      · exact .inl same
      · exact .inr ((waits _).mpr (.inl early))
      · exact .inr ((waits _).mpr (.inr same))
  · intro other outside
    refine roster.queue_enqueue_other _ fun same => outside ?_
    exact same ▸ List.mem_of_getElem? ready

end Plan

end Smalltalk
