import Smalltalk.Proofs.Heap.Calls
import Smalltalk.Proofs.Heap.Pressure

namespace Smalltalk

/-! The table lists objects in the order in which they were registered. Collections take entries
out and leave the order of the others, and a registration adds an entry at the end, also when it
takes a cell that another object had before. -/

namespace Heap

variable {before middle after heap : Heap} {log taken : List Nat}

/-- What a call does to the table: it takes entries out, and puts the slots that it registers
objects in, one at most, at the end. -/
structure Advances (before after : Heap) (taken : List Nat) : Prop where
  consistent : after.Consistent
  entries : ∃ kept : List Nat, kept.Sublist before.table.toList ∧
    after.table.toList = kept ++ taken
  single : taken.length ≤ 1

/-- A call that registers nothing. -/
theorem Advances.of_sublist (consistent : after.Consistent)
    (entries : after.table.toList.Sublist before.table.toList) : before.Advances after [] :=
  ⟨consistent, ⟨_, entries, (List.append_nil _).symm⟩, Nat.zero_le _⟩

theorem Advances.of_table (consistent : after.Consistent) (same : after.table = before.table) :
    before.Advances after [] := by
  apply Advances.of_sublist consistent
  rw [same]

/-- A call that touches neither the cells nor the lists of slots. -/
theorem Advances.of_cells (consistent : before.Consistent) (cells : after.cells = before.cells)
    (table : after.table = before.table) (free : after.free = before.free) :
    before.Advances after [] := by
  have live (slot : Nat) : after.Live slot ↔ before.Live slot := by
    rw [Live, Live, cell?, cell?, cells]
  apply Advances.of_table (consistent.transfer table free live ?_) table
  intro slot empty
  rw [cells]
  exact empty

theorem Advances.trans (early : before.Advances middle [])
    (late : middle.Advances after taken) : before.Advances after taken := by
  rcases early.entries with ⟨first, within, same⟩
  rcases late.entries with ⟨kept, among, listed⟩
  rw [same, List.append_nil] at among
  exact ⟨late.consistent, ⟨kept, among.trans within, listed⟩, late.single⟩

/-- Whether slots are listed in the order of a log of registrations, the latest of which comes
first: objects were registered in all of them, and most recently in those at the end. -/
structure ByRegistration (log slots : List Nat) : Prop where
  logged : ∀ slot ∈ slots, slot ∈ log
  ordered : slots.Pairwise fun first second => log.idxOf second < log.idxOf first

theorem ByRegistration.sublist {few many : List Nat} (listed : ByRegistration log many)
    (within : few.Sublist many) : ByRegistration log few where
  logged slot member := listed.logged slot (within.subset member)
  ordered := listed.ordered.sublist within

/-- A registration comes before the older ones in the log, and its slot behind theirs. -/
theorem ByRegistration.append {kept : List Nat} (listed : ByRegistration log kept)
    (single : taken.length ≤ 1) (nodup : (kept ++ taken).Nodup) :
    ByRegistration (taken ++ log) (kept ++ taken) := by
  have apart := (List.nodup_append.mp nodup).2.2
  have older {slot : Nat} (member : slot ∈ kept) :
      (taken ++ log).idxOf slot = taken.length + log.idxOf slot :=
    List.idxOf_append_of_notMem fun again => apart slot member slot again rfl
  constructor
  · intro slot member
    rcases List.mem_append.mp member with old | new
    · exact List.mem_append_right _ (listed.logged slot old)
    · exact List.mem_append_left _ new
  · apply List.pairwise_append.mpr
    refine ⟨?_, ?_, ?_⟩
    · apply listed.ordered.imp_of_mem
      intro first second one other earlier
      rw [older one, older other]
      exact Nat.add_lt_add_left earlier _
    · cases taken with
      | nil => exact .nil
      | cons slot rest =>
        have alone : rest = [] := List.eq_nil_of_length_eq_zero (by simpa using single)
        rw [alone]
        exact List.pairwise_singleton _ _
    · intro first one second other
      rw [older one, List.idxOf_append_of_mem other]
      exact Nat.lt_of_lt_of_le (List.idxOf_lt_length_of_mem other) (Nat.le_add_right _ _)

theorem Advances.byRegistration (advances : before.Advances after taken)
    (listed : ByRegistration log before.table.toList) :
    ByRegistration (taken ++ log) after.table.toList := by
  rcases advances.entries with ⟨kept, within, same⟩
  have nodup := advances.consistent.nodup
  rw [same] at nodup ⊢
  exact (listed.sublist within).append advances.single nodup

/-! ## Collecting and placing -/

theorem advances_compact (consistent : heap.Consistent) (start : Nat) (roots : List Value) :
    heap.Advances (heap.compact start roots) [] := by
  apply Advances.of_sublist (consistent_compact consistent start roots)
  rw [table_compact consistent.toTabled]
  exact List.filter_sublist

theorem advances_place (consistent : heap.Consistent) (object : HeapObject) :
    ∃ slot, (heap.advanceHash.place object).1 = .object slot ∧
      heap.Advances (heap.advanceHash.place object).2 [slot] := by
  rcases places_advanceHash consistent object with ⟨slot, named, places⟩
  refine ⟨slot, named, places.consistent, ⟨heap.table.toList, .refl _, ?_⟩, Nat.le_refl _⟩
  rw [table_place named, Array.toList_push]
  rfl

end Heap

namespace Rooted

variable {ρ : Type} [RootSet ρ] {rooted : Rooted ρ}

omit [RootSet ρ] in
/-- Counting a collection changes no entry. -/
theorem advances_counted (consistent : rooted.heap.Consistent) (counts : HeapCounts) :
    rooted.heap.Advances { rooted.heap with counts } [] :=
  .of_cells consistent rfl rfl rfl

theorem advances_partialCollect (consistent : rooted.heap.Consistent) :
    rooted.heap.Advances rooted.partialCollect.heap [] := by
  have counted := advances_counted consistent
    { rooted.heap.counts with
      partialCollections := rooted.heap.counts.partialCollections + 1 }
  exact counted.trans (Heap.advances_compact counted.consistent _ _)

theorem advances_fullCollect (consistent : rooted.heap.Consistent) :
    rooted.heap.Advances rooted.fullCollect.heap [] := by
  have counted := advances_counted consistent
    { rooted.heap.counts with
      fullCollections := rooted.heap.counts.fullCollections + 1 }
  exact counted.trans (Heap.advances_compact counted.consistent _ _)

end Rooted

namespace HeapM

variable {ρ : Type}

/-- What a registration may come to: an object in a slot at the end of the table, or an error
with no more than what was there. -/
def Registers (run : HeapM ρ Value) (rooted : Rooted ρ) : Prop :=
  match run rooted with
  | .ok value left => ∃ slot, value = .object slot ∧ rooted.heap.Advances left.heap [slot]
  | .error _ left => rooted.heap.Advances left.heap []

/-- Asking the heap for something first changes nothing. -/
theorem registers_read {α : Type} {query : Heap → Except MemoryError α}
    {next : α → HeapM ρ Value} {rooted : Rooted ρ} (consistent : rooted.heap.Consistent)
    (onward : ∀ result, Registers (next result) rooted) :
    Registers (read query >>= next) rooted := by
  cases found : query rooted.heap with
  | ok result =>
    have same : (read query >>= next) rooted = next result rooted := by
      simp only [read, bind, EStateM.bind, get_apply, found]
      rfl
    rw [Registers, same]
    exact onward result
  | error error =>
    have same : (read query >>= next) rooted = .error error rooted := by
      simp only [read, bind, EStateM.bind, get_apply, found]
      rfl
    rw [Registers, same]
    exact .of_table consistent rfl

theorem registers_placeFresh {rooted : Rooted ρ} (consistent : rooted.heap.Consistent)
    (object : HeapObject) : Registers (placeFresh object) rooted := by
  rw [Registers, placeFresh_apply]
  exact Heap.advances_place consistent _

variable [RootSet ρ]

theorem advances_makeRoom (request : Nat) {rooted : Rooted ρ}
    (consistent : rooted.heap.Consistent) :
    rooted.heap.Advances ((makeRoom request).after rooted).heap [] := by
  rcases makeRoom_cases request rooted with ⟨enough, collected, reclaimed, outcome⟩
  have kept := Rooted.reclaim_keeps (fun left => rooted.heap.Advances left.heap [])
    (fun _ kept => kept)
    (fun _ kept => kept.trans (Rooted.advances_partialCollect kept.consistent))
    request rooted.heap.size 0 rooted.heap.attempts true (.of_table consistent rfl)
  rw [reclaimed] at kept
  have swept := kept.trans (Rooted.advances_fullCollect kept.consistent)
  rcases outcome with ⟨-, ended⟩ | ⟨-, ended⟩ | ⟨-, ⟨-, ended⟩ | ⟨-, ended⟩⟩
  · rw [after_of_ok ended]
    exact kept
  · rw [after_of_ok ended]
    exact kept.trans (.of_cells kept.consistent rfl rfl rfl)
  · rw [after_of_ok ended]
    exact swept
  · rw [after_of_error ended]
    exact swept

theorem registers_register {rooted : Rooted ρ} (consistent : rooted.heap.Consistent)
    (object : HeapObject) : Registers (register object) rooted := by
  have made := @advances_makeRoom (PendingRoots ρ) _ rooted.heap.growth
    ⟨rooted.heap, ⟨rooted.roots, object.references⟩⟩ consistent
  rcases register_steps object rooted with
    ⟨-, same⟩ | ⟨-, ⟨room, ended, same⟩ | ⟨error, room, ended, same⟩⟩
  · rw [Registers, same]
    exact registers_placeFresh consistent object
  · rw [after_of_ok ended] at made
    have placed : Registers (placeFresh object) (⟨room.heap, room.roots.roots⟩ : Rooted ρ) :=
      registers_placeFresh made.consistent object
    rw [Registers, same]
    rw [Registers, placeFresh_apply] at placed
    rcases placed with ⟨slot, named, advances⟩
    exact ⟨slot, named, made.trans advances⟩
  · rw [after_of_error ended] at made
    rw [Registers, same]
    exact made

theorem registers_instantiate {rooted : Rooted ρ} (consistent : rooted.heap.Consistent)
    (species : Value) (size : Nat) (nil : Value) :
    Registers (instantiate species size nil) rooted := by
  apply registers_read consistent
  intro description
  cases description.int? with
  | none => exact .of_table consistent rfl
  | some bits => exact registers_register consistent _

theorem registers_copy {rooted : Rooted ρ} (consistent : rooted.heap.Consistent)
    (object : Value) : Registers (copy object) rooted :=
  registers_read consistent fun original => registers_register consistent original

end HeapM

/-! ## Any call -/

namespace HeapCall

variable {ρ : Type} [RootSet ρ] {rooted : Rooted ρ}

/-- The slot in which a computation has registered an object, if it has. -/
def slotOf : EStateM.Result MemoryError (Rooted ρ) Value → List Nat
  | .ok value _ => value.slot?.toList
  | .error _ _ => []

/-- The slots in which a call registers an object: none or one. -/
def registered (rooted : Rooted ρ) : HeapCall → List Nat
  | register object => slotOf (HeapM.register object rooted)
  | registerLoaded object =>
    ((rooted.heap.registerLoaded object).toOption.bind fun placed => placed.1.slot?).toList
  | instantiate species size nil => slotOf (HeapM.instantiate species size nil rooted)
  | copy object => slotOf (HeapM.copy object rooted)
  | _ => []

omit [RootSet ρ] in
theorem advances_of_registers {run : HeapM ρ Value} (registers : HeapM.Registers run rooted) :
    rooted.heap.Advances (run.after rooted).heap (slotOf (run rooted)) := by
  rw [HeapM.Registers] at registers
  cases ended : run rooted with
  | ok value left =>
    rw [ended] at registers
    rcases registers with ⟨slot, rfl, advances⟩
    rw [HeapM.after_of_ok ended]
    exact advances
  | error error left =>
    rw [ended] at registers
    rw [HeapM.after_of_error ended]
    exact registers

theorem registerLoaded_advances (consistent : rooted.heap.Consistent) (object : HeapObject) :
    rooted.heap.Advances ((registerLoaded object).perform rooted).heap
      ((registerLoaded object).registered rooted) := by
  have placed {heap : Heap} (grown : rooted.heap.Advances heap []) :
      rooted.heap.Advances (heap.advanceHash.place object).2
        (heap.advanceHash.place object).1.slot?.toList := by
    rcases Heap.advances_place grown.consistent object with ⟨slot, named, advances⟩
    rw [named]
    exact grown.trans advances
  have same : rooted.heap.Advances rooted.heap [] := .of_table consistent rfl
  simp only [perform, registered, Heap.registerLoaded]
  by_cases full : rooted.heap.capacity ≤ rooted.heap.size
  · rw [if_pos full]
    cases grown : rooted.heap.grow rooted.heap.growth with
    | error error => exact same
    | ok heap =>
      rw [Heap.grow] at grown
      split at grown
      · cases grown
      · cases grown
        exact placed (.of_cells consistent rfl rfl rfl)
  · rw [if_neg full]
    exact placed same

theorem become_advances (consistent : rooted.heap.Consistent) (sources targets : List Value)
    (twoWay : Bool) :
    rooted.heap.Advances ((become sources targets twoWay).perform rooted).heap [] := by
  simp only [perform, Rooted.become]
  cases rooted.heap.redirection sources targets twoWay with
  | error error => exact .of_table consistent rfl
  | ok redirection =>
    change rooted.heap.Advances (rooted.heap.rename redirection.apply) []
    apply Heap.Advances.of_table (Heap.consistent_rename consistent redirection.apply)
    rw [Heap.rename_eq consistent.toTabled]

theorem nextInstance_advances (consistent : rooted.heap.Consistent) (start : Nat)
    (species : Option Value) :
    rooted.heap.Advances ((nextInstance start species).perform rooted).heap [] := by
  simp only [perform, Rooted.mapHeap, Heap.nextInstance]
  cases rooted.heap.nextPosition? start species with
  | none => exact .of_table consistent rfl
  | some position => exact .of_cells consistent rfl rfl rfl

theorem store_advances (consistent : rooted.heap.Consistent) (object : Value) (index : Nat)
    (value : Value) :
    rooted.heap.Advances ((store object index value).perform rooted).heap [] := by
  simp only [perform]
  cases stored : rooted.heap.store object index value with
  | error error => exact .of_table consistent rfl
  | ok heap =>
    rcases Heap.store_eq_ok_iff.mp stored with ⟨-, rfl⟩
    exact .of_table (Heap.consistent_update consistent object _) (Heap.table_update object _)

/-- Every call keeps a heap consistent and its entries in their order, whether or not it
succeeds. -/
theorem perform_advances (rooted : Rooted ρ) (consistent : rooted.heap.Consistent)
    (call : HeapCall) :
    rooted.heap.Advances (call.perform rooted).heap (call.registered rooted) := by
  cases call with
  | register object => exact advances_of_registers (HeapM.registers_register consistent object)
  | registerLoaded object => exact registerLoaded_advances consistent object
  | compact start => exact Heap.advances_compact consistent start _
  | partialCollect => exact Rooted.advances_partialCollect consistent
  | fullCollect => exact Rooted.advances_fullCollect consistent
  | makeRoom request => exact HeapM.advances_makeRoom request consistent
  | become sources targets twoWay => exact become_advances consistent sources targets twoWay
  | tenure => exact .of_cells consistent rfl rfl rfl
  | nextInstance start species => exact nextInstance_advances consistent start species
  | instantiate species size nil =>
    exact advances_of_registers (HeapM.registers_instantiate consistent species size nil)
  | copy object => exact advances_of_registers (HeapM.registers_copy consistent object)
  | store object index value => exact store_advances consistent object index value

end HeapCall

namespace Heap

/-- The heaps that come out of any sequence of calls, each with roots of its own, of changes to
single objects and of new seeds for the hashes, with the slots in which objects were registered,
the latest first. -/
inductive Logged : Heap → List Nat → Prop
  | new (config : Config) : Logged (ofConfig config) []
  | call {ρ : Type} [RootSet ρ] {heap : Heap} {log : List Nat} (before : Logged heap log)
    (roots : ρ) (call : HeapCall) :
    Logged (call.perform ⟨heap, roots⟩).heap (call.registered ⟨heap, roots⟩ ++ log)
  | change {heap : Heap} {log : List Nat} (before : Logged heap log) (value : Value)
    (change : HeapObject → HeapObject) : Logged (heap.update value change) log
  | seed {heap : Heap} {log : List Nat} (before : Logged heap log) (seed : UInt32) :
    Logged (heap.seedHash seed) log

theorem consistent_ofConfig (config : Config) : (ofConfig config).Consistent where
  nodup := List.nodup_nil
  live _ member := absurd member List.not_mem_nil
  listed _ live := absurd live.lt_size (Nat.not_lt_zero _)
  free_nodup := List.nodup_nil
  free_empty _ member := absurd member List.not_mem_nil

/-- After any sequence of calls the table lists the live objects, each once, in the order in
which they were registered. -/
theorem Logged.byRegistration {heap : Heap} {log : List Nat} (logged : heap.Logged log) :
    heap.Consistent ∧ ByRegistration log heap.table.toList := by
  induction logged with
  | new config =>
    exact ⟨consistent_ofConfig config, ⟨fun _ member => absurd member List.not_mem_nil, .nil⟩⟩
  | @call ρ _ heap log before roots call induction =>
    rcases induction with ⟨consistent, listed⟩
    have advances := HeapCall.perform_advances ⟨heap, roots⟩ consistent call
    exact ⟨advances.consistent, advances.byRegistration listed⟩
  | change before value change induction =>
    rcases induction with ⟨consistent, listed⟩
    rw [table_update]
    exact ⟨consistent_update consistent value change, listed⟩
  | @seed heap log before seed induction =>
    rcases induction with ⟨consistent, listed⟩
    have advances : heap.Advances (heap.seedHash seed) [] := .of_cells consistent rfl rfl rfl
    exact ⟨advances.consistent, listed⟩

end Heap

end Smalltalk
