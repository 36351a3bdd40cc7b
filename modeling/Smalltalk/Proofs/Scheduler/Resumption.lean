import Smalltalk.Proofs.Primitive.DirectSend
import Smalltalk.Proofs.Scheduler.Conservation

namespace Smalltalk

/-! A process is resumed by adding it to the end of a ready list, wherever it is. The lists
stand this if it is in none of them and does not run; otherwise there is no telling any
more who waits. -/

namespace Heap

/-- Each of the objects is named by the first field of the one before it: by the first link
of a list, or by the next link of a process. -/
def Strung (heap : Heap) : Value → List Value → Prop
  | _, [] => True
  | front, link :: rest =>
    heap.fetch front ProcessField.nextLink = .ok link ∧ heap.Strung link rest

variable {heap before after : Heap} {nil list front link : Value}
  {links others members : List Value}

/-- Whoever follows the links has no choice. -/
theorem Strung.prefix_or_prefix (strung : heap.Strung front links)
    (again : heap.Strung front others) : links <+: others ∨ others <+: links := by
  induction links generalizing front others with
  | nil => exact .inl List.nil_prefix
  | cons link rest induction =>
    cases others with
    | nil => exact .inr List.nil_prefix
    | cons other more =>
      have same : link = other := Except.ok.inj (strung.1.symm.trans again.1)
      subst same
      exact (induction strung.2 again.2).imp
        (List.prefix_cons_inj link).mpr (List.prefix_cons_inj link).mpr

theorem Strung.of_prefix (strung : heap.Strung front others) (short : links <+: others) :
    heap.Strung front links := by
  induction links generalizing front others with
  | nil => trivial
  | cons link rest induction =>
    rcases List.cons_prefix_iff.mp short with ⟨more, rfl, shorter⟩
    exact ⟨strung.1, induction strung.2 shorter⟩

theorem Strung.frame (strung : before.Strung front links)
    (same : ∀ other ∈ front :: links,
      after.fetch other ProcessField.nextLink = before.fetch other ProcessField.nextLink) :
    after.Strung front links := by
  induction links generalizing front with
  | nil => trivial
  | cons link rest induction =>
    refine ⟨(same front (List.mem_cons_self ..)).trans strung.1, induction strung.2 ?_⟩
    exact fun other member => same other (List.mem_cons_of_mem _ member)

/-- When the last one comes to name another object, that one is strung behind it. -/
theorem Strung.rejoin (strung : before.Strung list members) (nodup : (list :: members).Nodup)
    (joins : after.fetch (joint list members) ProcessField.nextLink = .ok link)
    (same : ∀ other, joint list members ≠ other →
      after.fetch other ProcessField.nextLink = before.fetch other ProcessField.nextLink) :
    after.Strung list (members ++ [link]) := by
  induction members generalizing list with
  | nil => exact ⟨joins, trivial⟩
  | cons first rest induction =>
    have further : joint list (first :: rest) = joint first rest := by
      rw [joint, joint, List.getLast?_cons]
      rfl
    rw [further] at joins same
    have distinct := List.nodup_cons.mp nodup
    refine ⟨(same list fun equal => distinct.1 ?_).trans strung.1,
      induction strung.2 distinct.2 joins same⟩
    rcases joint_eq first rest with ⟨alone, -⟩ | inside
    · rw [← equal, alone]
      exact List.mem_cons_self ..
    · exact equal ▸ List.mem_cons_of_mem _ inside

theorem Linked.strung (linked : heap.Linked nil members)
    (first : heap.fetch front ProcessField.nextLink = .ok (members.head?.getD nil)) :
    heap.Strung front (members ++ [nil]) := by
  induction members generalizing front with
  | nil => exact ⟨first, trivial⟩
  | cons link rest induction => exact ⟨first, induction linked.2 linked.1⟩

/-- A queue is strung from its list to nil. -/
theorem Queues.strung (queues : heap.Queues nil list members) :
    heap.Strung list (members ++ [nil]) :=
  queues.linked.strung queues.first

end Heap

namespace Plan

/-- Following the links of a list leads through those that wait there to nil. Nobody waits
twice, in one list or in two, and the active process does not wait. -/
structure Intact (plan : Plan) (roster : Roster) (machine : Machine) : Prop
    extends plan.Distributes roster where
  active : machine.heap.fetch plan.scheduler SchedulerField.activeProcess = .ok roster.active
  strung : ∀ list, plan.role list = some .queue →
    machine.heap.Strung list (roster.queue list ++ [machine.registers.specials.nil])
  resting : ¬ plan.Waits roster roster.active

variable {plan : Plan} {roster later : Roster} {machine after : Machine}
  {list process : Value} {links : List Value}

theorem Arranges.intact (arranges : plan.Arranges roster machine)
    (resting : ¬ plan.Waits roster roster.active) : plan.Intact roster machine where
  toDistributes := arranges.toDistributes
  active := arranges.active
  strung list role := (arranges.queues list role).strung
  resting := resting

/-- Whatever is strung to a list before nil comes waits in it. -/
theorem Intact.prefix_queue (intact : plan.Intact later after)
    (role : plan.role list = some .queue) (strung : after.heap.Strung list links)
    (proper : after.registers.specials.nil ∉ links) : links <+: later.queue list := by
  rcases strung.prefix_or_prefix (intact.strung list role) with short | long
  · refine (List.prefix_concat_iff.mp short).resolve_left fun same => proper ?_
    simp [same]
  · exact absurd (long.subset (List.mem_append_right _ (List.mem_singleton.mpr rfl))) proper

/-- Nil serves in no way, so it waits nowhere. -/
theorem Arranges.nil_not_mem (arranges : plan.Arranges roster machine)
    (role : plan.role list = some .queue) :
    machine.registers.specials.nil ∉ roster.queue list := fun member => by
  have isProcess := arranges.processes list _ role member
  rw [arranges.nil] at isProcess
  cases isProcess

theorem Arranges.strung (arranges : plan.Arranges roster machine)
    (role : plan.role list = some .queue) : machine.heap.Strung list (roster.queue list) :=
  (arranges.queues list role).strung.of_prefix (List.prefix_append ..)

/-- Where the active process waits, no roster is intact. -/
theorem Arranges.not_intact (arranges : plan.Arranges roster machine)
    (waits : plan.Waits roster roster.active) (later : Roster) :
    ¬ plan.Intact later machine := by
  intro intact
  rcases waits with ⟨list, role, inside⟩
  have among := intact.prefix_queue role (arranges.strung role) (arranges.nil_not_mem role)
  have same : later.active = roster.active :=
    Except.ok.inj (intact.active.symm.trans arranges.active)
  exact intact.resting ⟨list, role, same ▸ among.subset inside⟩

/-- Where a process that waits has been added to a list, no roster is intact. -/
theorem not_intact_of_joined (arranges : plan.Arranges roster machine)
    (role : plan.role list = some .queue) (waits : plan.Waits roster process)
    (registers : after.registers = machine.registers)
    (joined : machine.heap.Joined after.heap (Heap.joint list (roster.queue list)) process list)
    (later : Roster) : ¬ plan.Intact later after := by
  intro intact
  rcases waits with ⟨home, isQueue, inside⟩
  have isProcess := arranges.processes home process isQueue inside
  have proper : process ≠ machine.registers.specials.nil :=
    plan.ne_of_role isProcess arranges.nil (by simp)
  have same (other : Value) (away : Heap.joint list (roster.queue list) ≠ other) :
      after.heap.fetch other ProcessField.nextLink
        = machine.heap.fetch other ProcessField.nextLink :=
    joined.others other _ (.inl away) (.inr (by decide)) (.inr (by decide))
  have longer : roster.queue list ++ [process] <+: later.queue list := by
    refine intact.prefix_queue role ?_ ?_
    · refine (arranges.strung role).rejoin ?_ joined.joins same
      exact List.nodup_cons.mpr ⟨arranges.not_mem_queue role role, arranges.nodup list role⟩
    · rw [registers, List.mem_append, List.mem_singleton, not_or]
      exact ⟨arranges.nil_not_mem role, proper.symm⟩
  by_cases here : home = list
  · subst here
    have nodup := (intact.nodup home role).sublist longer.sublist
    exact (List.nodup_append.mp nodup).2.2 process inside process (by simp) rfl
  · -- The list in which the process waited is as it was.
    have front : Heap.joint list (roster.queue list) ∉ home :: roster.queue home := by
      intro member
      rcases Heap.joint_eq list (roster.queue list) with ⟨alone, -⟩ | last
      · rw [alone] at member
        rcases List.mem_cons.mp member with equal | waiting
        · exact here equal.symm
        · exact arranges.not_mem_queue isQueue role waiting
      · rcases List.mem_cons.mp member with equal | waiting
        · exact arranges.not_mem_queue role isQueue (equal ▸ last)
        · exact here (arranges.apart home list _ isQueue role waiting last)
    have strung := (arranges.strung isQueue).frame fun other member =>
      same other fun equal => front (equal ▸ member)
    have among := intact.prefix_queue isQueue strung (registers ▸ arranges.nil_not_mem isQueue)
    exact here (intact.apart home list process isQueue role (among.subset inside)
      (longer.subset (by simp)))

/-! ## Who runs or waits afterwards -/

theorem has_iff_preempt (role : plan.role list = some .queue) (member : Value) :
    plan.Has ((roster.enqueue list roster.active).activate process) member ↔
      plan.Has roster member ∨ member = process := by
  have waits : plan.Waits ((roster.enqueue list roster.active).activate process) member ↔ _ :=
    plan.waits_enqueue_iff roster role roster.active member
  rw [Has, waits, Has, Roster.active_activate]
  tauto

theorem has_iff_defer (role : plan.role list = some .queue) (member : Value) :
    plan.Has (roster.enqueue list process) member ↔
      plan.Has roster member ∨ member = process := by
  rw [Has, plan.waits_enqueue_iff roster role process member, Has, Roster.active_enqueue]
  tauto

/-- How a resumption leaves the lists: those who run and wait are arranged together with
the process if it did neither, and otherwise no roster is intact. -/
structure Resumed (plan : Plan) (roster : Roster) (process : Value) (after : Machine) :
    Prop where
  arranged : ¬ plan.Has roster process → ∃ later, plan.Arranges later after ∧
    plan.Intact later after ∧
    ∀ member, plan.Has later member ↔ plan.Has roster member ∨ member = process
  spoiled : plan.Has roster process → ∀ later, ¬ plan.Intact later after

end Plan

namespace Run

variable {plan : Plan} {roster : Roster} {machine : Machine} {list process : Value}

/-- The active process makes way for another one. -/
theorem preempt_resumes (arranges : plan.Arranges roster machine)
    (resting : ¬ plan.Waits roster roster.active) (role : plan.role process = some .process)
    (different : process ≠ roster.active) :
    (do
      sleep roster.active
      transferTo process : Run Unit).Ensures machine fun _ after =>
        plan.Resumed roster process after := by
  refine (sleep_ensures arranges arranges.active_role resting).bind
    fun _ asleep ⟨index, list, _, ready, slept⟩ => ?_
  have isQueue := plan.role_of_ready ready
  refine (transferTo_ensures slept role).mono fun _ after switched => ?_
  have waits := plan.waits_enqueue_iff roster isQueue roster.active process
  refine ⟨fun new => ⟨_, switched, switched.intact fun late => ?_, plan.has_iff_preempt isQueue⟩,
    fun has => switched.not_intact (waits.mpr (.inl (has.resolve_left different)))⟩
  exact (waits.mp late).elim (fun early => new (.inr early)) different

/-- A process goes to its list while the active one remains active. -/
theorem defer_resumes (arranges : plan.Arranges roster machine)
    (resting : ¬ plan.Waits roster roster.active) (role : plan.role process = some .process) :
    (sleep process).Ensures machine fun _ after => plan.Resumed roster process after := by
  by_cases waits : plan.Waits roster process
  · refine (priorityOf_ensures arranges.toFits role).bindTo fun priority _ => ?_
    refine (readyList_ensures arranges.toFits priority).bindTo fun list ready => ?_
    have isQueue := plan.role_of_ready ready
    refine (addLast_joins arranges isQueue process).mono fun _ after outcome => ?_
    rcases outcome with ⟨joined, same⟩
    exact ⟨fun new => absurd (.inr waits) new, fun _ =>
      plan.not_intact_of_joined arranges isQueue waits (by rw [same]) joined⟩
  · refine (sleep_ensures arranges role waits).mono fun _ after ⟨index, list, _, ready, slept⟩ => ?_
    have isQueue := plan.role_of_ready ready
    have later := plan.waits_enqueue_iff roster isQueue process roster.active
    refine ⟨fun new => ⟨_, slept, slept.intact fun late => ?_, plan.has_iff_defer isQueue⟩,
      fun has => slept.not_intact (later.mpr (.inr (has.resolve_right waits).symm))⟩
    exact (later.mp late).elim resting fun same => new (.inl same.symm)

theorem resume_resumes (arranges : plan.Arranges roster machine)
    (resting : ¬ plan.Waits roster roster.active) (role : plan.role process = some .process) :
    (resume process).Ensures machine fun _ after => plan.Resumed roster process after := by
  refine (activeProcess_ensures arranges).bindExactly ?_
  refine (priorityOf_ensures arranges.toFits role).bindTo fun priority given => ?_
  refine (priorityOf_ensures arranges.toFits arranges.active_role).bindTo fun own owned => ?_
  split
  · rename_i above
    refine preempt_resumes arranges resting role ?_
    rintro rfl
    have same : own = priority := Option.some.inj (owned.1.symm.trans given.1)
    omega
  · exact defer_resumes arranges resting role

theorem resumeProcess_resumes {count : Nat} (arranges : plan.Arranges roster machine)
    (resting : ¬ plan.Waits roster roster.active) (role : plan.role process = some .process)
    (receiver : machine.Operand count process) :
    (Reply.resumeProcess count).Ensures machine fun answered after =>
      if answered then plan.Resumed roster process after else after = machine := by
  refine .bindOk (operand_eq_ok receiver) (.bindOk getHeap_apply ?_)
  split
  · exact .pure rfl
  · exact (resume_resumes arranges resting role).bind fun _ _ resumed => .pure resumed

/-- A primitive that answers false has changed nothing. One that answers true has left the
lists intact if and only if the process neither ran nor waited. -/
theorem respond_resumes (sender : Reply.Sender) (arranges : plan.Arranges roster machine)
    (resting : ¬ plan.Waits roster roster.active) (role : plan.role process = some .process)
    (receiver : machine.Operand machine.registers.argumentCount process) :
    (respond sender 87).Ensures machine fun answered after =>
      if answered then plan.Resumed roster process after else after = machine := by
  have known : Primitive.ofNumber? 87 = some .resume := rfl
  exact respond_decides sender known (resumeProcess_resumes arranges resting role receiver)

end Run

namespace Plan

/-- A process is about to be resumed: it is on top of the stack. -/
def asking (machine : Machine) (process : Value) : Machine :=
  { machine with
    heap := machine.heap.setField machine.registers.activeContext machine.registers.sp process }

theorem Arranges.asking {plan : Plan} {roster : Roster} {machine : Machine}
    (arranges : plan.Arranges roster machine) (process : Value) :
    plan.Arranges roster (Plan.asking machine process) :=
  arranges.setField_other _ arranges.context

/-- The active process, the one that waits at the semaphore and the one that is ready can be
resumed, which spoils the lists. The one that has been taken from the semaphore joins the
others. -/
theorem respond_resumes_crew :
    let resume := Run.respond (Run.sendToClass 0) 87
    (∀ process ∈ [Value.object 10, .object 11, .object 12],
      ∃ after, resume (asking crewMachine process) = .ok true after ∧
        ∀ later, ¬ crewPlan.Intact later after) ∧
    ∃ after, resume (asking fullMachine (.object 11)) = .ok true after ∧
      ∃ later, crewPlan.Intact later after ∧ crewPlan.Has later (.object 11) := by
  intro resume
  have resumes {roster : Roster} {machine : Machine} {process : Value}
      (wellFormed : crewPlan.WellFormed roster machine)
      (role : crewPlan.role process = some .process)
      (asks : (asking machine process).Operand machine.registers.argumentCount process)
      (answers : (resume.ended? (asking machine process)).map Prod.fst = some true) :
      ∃ after, resume (asking machine process) = .ok true after ∧
        crewPlan.Resumed roster process after := by
    rcases Option.map_eq_some_iff.mp answers with ⟨⟨answered, after⟩, ended, rfl⟩
    have responded := Run.ended?_eq_some.mp ended
    exact ⟨after, responded, Run.respond_resumes _ (wellFormed.toArranges.asking process)
      wellFormed.resting role asks true after responded⟩
  constructor
  · intro process among
    have each : ∀ process ∈ [Value.object 10, .object 11, .object 12],
        crewPlan.role process = some .process ∧
        (process = crewRoster.active ∨ process ∈ crewRoster.queue (.object 8) ∨
          process ∈ crewRoster.queue (.object 5)) ∧
        (asking crewMachine process).heap.fetch (.object 7) 5 = .ok process ∧
        (resume.ended? (asking crewMachine process)).map Prod.fst = some true := by
      decide +kernel
    rcases each process among with ⟨role, place, asks, answers⟩
    have has : crewPlan.Has crewRoster process := by
      rcases place with active | waits | ready
      · exact .inl active
      · exact .inr ⟨.object 8, rfl, waits⟩
      · exact .inr ⟨.object 5, rfl, ready⟩
    rcases resumes wellFormed_crewMachine role ⟨Nat.zero_le _, asks⟩ answers
      with ⟨after, responded, resumed⟩
    exact ⟨after, responded, resumed.spoiled has⟩
  · have role : crewPlan.role (.object 11) = some .process := rfl
    have new : ¬ crewPlan.Has (crewRoster.dequeue (.object 8)) (.object 11) :=
      Request.not_has_of_woken wellFormed_crewMachine rfl rfl
    rcases resumes wellFormed_fullMachine role ⟨Nat.zero_le _, by decide +kernel⟩
      (by decide +kernel) with ⟨after, responded, resumed⟩
    rcases resumed.arranged new with ⟨later, -, intact, has⟩
    exact ⟨after, responded, later, intact, (has _).mpr (.inr rfl)⟩

end Plan

end Smalltalk
