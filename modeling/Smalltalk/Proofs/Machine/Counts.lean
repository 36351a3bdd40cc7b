import Smalltalk.Machine.Send
import Smalltalk.Proofs.Frame.Provision
import Smalltalk.Proofs.Heap.Holders
import Smalltalk.Proofs.Lookup.Transparency
import Smalltalk.Proofs.Machine.Keeps
import Smalltalk.Proofs.Machine.Moves

namespace Smalltalk

/-! The method cache counts hits, misses and probed dictionaries, and nothing ever asks for
these counts: a computation that comes to its end does so with the same result, and leaves the
same machine apart from the counts, whatever was counted before. -/

/-- The same registers with other counts of their method cache. -/
@[grind =]
def Registers.withCacheCounts (registers : Registers) (counts : CacheCounts) : Registers :=
  { registers with methodCache.counts := counts }

/-- Counts are not among what registers hold. -/
theorem Registers.standsFor_withCacheCounts (counts : CacheCounts) :
    RootSet.StandsFor fun registers : Registers => registers.withCacheCounts counts where
  values _ := rfl
  rename _ _ := rfl
  flush _ := rfl

attribute [grind =] Machine.withCacheCounts

namespace Run

variable {α β : Type} {run : Run α} {next : α → Run β}

/-- A computation that comes to its end in one machine does so in another one, and what is left
differs in the counts only. -/
abbrev Follows (run : Run α) (machine other : Machine) : Prop :=
  run.Ensures machine fun result after =>
    ∃ later, run other = .ok result (after.withCacheCounts later)

/-- A computation that comes to its end does so whatever was counted. -/
def IgnoresCounts (run : Run α) : Prop :=
  ∀ (machine : Machine) (counts : CacheCounts), run.Follows machine (machine.withCacheCounts counts)

/-- Once two machines differ in the counts only, they go on alike. -/
theorem Follows.bind {machine other : Machine} (first : run.Follows machine other)
    (rest : ∀ result, IgnoresCounts (next result)) : (run >>= next).Follows machine other := by
  refine Ensures.bind first ?_
  rintro result between ⟨later, again⟩
  refine (rest result between later).mono ?_
  rintro final after ⟨last, ended⟩
  exact ⟨last, (bind_ok again).trans ended⟩

/-- The first part of a computation is known in both machines. -/
theorem Follows.bindOk {machine other between left : Machine} {result : α}
    (ended : run machine = .ok result between) (again : run other = .ok result left)
    (rest : (next result).Follows between left) : (run >>= next).Follows machine other := by
  refine Ensures.bindOk ended (Ensures.mono rest ?_)
  rintro final after ⟨later, last⟩
  exact ⟨later, (Run.bind_ok again).trans last⟩

namespace IgnoresCounts

theorem pure {result : α} : IgnoresCounts (Pure.pure result) := by
  rintro machine counts _ _ ⟨⟩
  exact ⟨counts, rfl⟩

theorem throw {stop : Stop} : IgnoresCounts (MonadExcept.throw stop : Run α) := by
  rintro machine counts _ _ ⟨⟩

theorem fail {reason : MachineError} : IgnoresCounts (Run.fail reason : Run α) := throw

theorem throwThen {stop : Stop} {next : β → Run α} :
    IgnoresCounts ((MonadExcept.throw stop : Run β) >>= next) := by
  rintro machine counts _ _ ⟨⟩

theorem failThen {reason : MachineError} {next : β → Run α} :
    IgnoresCounts (Run.fail reason >>= next) := throwThen

theorem bind (first : IgnoresCounts run) (rest : ∀ result, IgnoresCounts (next result)) :
    IgnoresCounts (run >>= next) :=
  fun machine counts => (first machine counts).bind rest

theorem andThen {run : Run Unit} {next : Unit → Run β} (first : IgnoresCounts run)
    (rest : IgnoresCounts (next ())) : IgnoresCounts (run >>= next) :=
  first.bind fun _ => rest

theorem map {change : α → β} (ignores : IgnoresCounts run) : IgnoresCounts (change <$> run) := by
  rw [map_eq_pure_bind]
  exact ignores.bind fun _ => pure

theorem discard (ignores : IgnoresCounts run) : IgnoresCounts (Functor.discard run) :=
  ignores.map

theorem ite {condition : Prop} [Decidable condition] {first second : Run α}
    (yes : condition → IgnoresCounts first) (no : ¬ condition → IgnoresCounts second) :
    IgnoresCounts (if condition then first else second) := by
  split
  · exact yes ‹_›
  · exact no ‹_›

/-! ## The machine -/

/-- The machine is asked, but not for the counts. -/
theorem bindMachine {next : Machine → Run β}
    (same : ∀ (machine : Machine) counts, next (machine.withCacheCounts counts) = next machine)
    (rest : ∀ machine, IgnoresCounts (next machine)) :
    IgnoresCounts ((get : Run Machine) >>= next) := by
  intro machine counts
  refine Ensures.bindOk get_apply (Ensures.mono (rest machine machine counts) ?_)
  rintro result after ⟨later, again⟩
  refine ⟨later, ?_⟩
  rw [bind_ok get_apply]
  exact (congrFun (same machine counts) _).trans again

theorem bindRegisters {next : Registers → Run β}
    (same : ∀ (registers : Registers) counts,
      next (registers.withCacheCounts counts) = next registers)
    (rest : ∀ registers, IgnoresCounts (next registers)) :
    IgnoresCounts (getRegisters >>= next) := by
  intro machine counts
  refine Ensures.bindOk getRegisters_apply (Ensures.mono (rest machine.registers machine counts) ?_)
  rintro result after ⟨later, again⟩
  refine ⟨later, ?_⟩
  rw [bind_ok getRegisters_apply]
  exact (congrFun (same machine.registers counts) _).trans again

theorem getHeap : IgnoresCounts getHeap := by
  rintro machine counts _ _ ⟨⟩
  exact ⟨counts, rfl⟩

theorem getNil : IgnoresCounts getNil := bindRegisters (fun _ _ => rfl) fun _ => pure

theorem modify {change : Machine → Machine}
    (same : ∀ (machine : Machine) counts,
      change (machine.withCacheCounts counts) = (change machine).withCacheCounts counts) :
    IgnoresCounts (modify change : Run Unit) := by
  rintro machine counts _ _ ⟨⟩
  exact ⟨counts, congrArg (EStateM.Result.ok ()) (same machine counts)⟩

theorem modifyGet {change : Machine → α × Machine}
    (same : ∀ (machine : Machine) counts, change (machine.withCacheCounts counts)
      = ((change machine).1, (change machine).2.withCacheCounts counts)) :
    IgnoresCounts (modifyGet change : Run α) := by
  intro machine counts result after ended
  have moved : (result, after) = change machine := by
    cases known : change machine with
    | mk value left =>
      have now : (EStateM.Result.ok value left : EStateM.Result Stop Machine α) = .ok result after := by
        rw [← ended]
        change _ = match change machine with | (value, left) => EStateM.Result.ok value left
        rw [known]
      cases now
      rfl
  refine ⟨counts, ?_⟩
  change (match change (machine.withCacheCounts counts) with
    | (value, left) => EStateM.Result.ok value left) = _
  rw [same, ← moved]

theorem modifyRegisters {change : Registers → Registers}
    (same : ∀ (registers : Registers) counts,
      change (registers.withCacheCounts counts) = (change registers).withCacheCounts counts) :
    IgnoresCounts (modifyRegisters change) :=
  modify fun machine counts => congrArg (fun registers => { machine with registers })
    (same machine.registers counts)

/-! ## The heap -/

theorem modifyHeap {change : Heap → Heap} : IgnoresCounts (modifyHeap change) :=
  modify fun _ _ => rfl

theorem readHeap {query : Heap → Except MemoryError α} : IgnoresCounts (readHeap query) := by
  intro machine counts
  refine (ensures_readHeap machine query).mono ?_
  rintro result _ ⟨found, rfl⟩
  exact ⟨counts, readHeap_ok found⟩

theorem fetch {object : Value} {index : Nat} : IgnoresCounts (fetch object index) := readHeap

theorem store {object value : Value} {index : Nat} : IgnoresCounts (store object index value) := by
  intro machine counts result after ended
  rw [Run.store] at ended ⊢
  cases stored : machine.heap.store object index value with
  | error error =>
    rw [stored] at ended
    cases ended
  | ok heap =>
    have again : (machine.withCacheCounts counts).heap.store object index value = .ok heap := stored
    rw [stored] at ended
    cases ended
    rw [again]
    exact ⟨counts, rfl⟩

/-- The registers are the roots of a collection, but their counts are not looked at. -/
theorem onHeap {run : HeapM Registers α}
    (ignores : ∀ counts (rooted : Rooted Registers),
      run (rooted.mapRoots (·.withCacheCounts counts))
        = HeapM.mapRoots (·.withCacheCounts counts) (run rooted)) : IgnoresCounts (onHeap run) := by
  intro machine counts result after ended
  have same : run ⟨(machine.withCacheCounts counts).heap,
      (machine.withCacheCounts counts).registers⟩ = _ := ignores counts ⟨machine.heap, machine.registers⟩
  rw [Run.onHeap] at ended ⊢
  rw [same]
  cases known : run ⟨machine.heap, machine.registers⟩ with
  | error error left =>
    rw [known] at ended
    cases ended
  | ok value left =>
    rw [known] at ended
    cases ended
    exact ⟨counts, rfl⟩

theorem register {object : HeapObject} : IgnoresCounts (register object) :=
  onHeap fun counts => HeapM.register_mapRoots (Registers.standsFor_withCacheCounts counts) object

theorem instantiate {species nil : Value} {size : Nat} :
    IgnoresCounts (Run.onHeap (HeapM.instantiate species size nil)) := by
  rw [HeapM.instantiate, onHeap_read]
  refine readHeap.bind fun description => ?_
  cases description.int? with
  | none =>
    intro _ _ _ _ stopped
    cases stopped
  | some bits => exact register

theorem copy {object : Value} : IgnoresCounts (Run.onHeap (HeapM.copy object)) := by
  rw [HeapM.copy, onHeap_read]
  exact readHeap.bind fun _ => register

theorem collect {change : Rooted Registers → Rooted Registers}
    (ignores : ∀ counts (rooted : Rooted Registers),
      change (rooted.mapRoots (·.withCacheCounts counts))
        = (change rooted).mapRoots (·.withCacheCounts counts)) : IgnoresCounts (collect change) :=
  modify fun machine counts => congrArg
    (fun after : Rooted Registers => { machine with heap := after.heap, registers := after.roots })
    (ignores counts ⟨machine.heap, machine.registers⟩)

/-! ## Contexts -/

theorem takeFreeContext {large : Bool} : IgnoresCounts (takeFreeContext large) := by
  intro machine counts result after ended
  cases listed : machine.registers.freeOf large with
  | nil =>
    cases (takeFreeContext_nil listed).symm.trans ended
    exact ⟨counts, @takeFreeContext_nil (machine.withCacheCounts counts) large listed⟩
  | cons context rest =>
    cases (takeFreeContext_cons listed).symm.trans ended
    refine ⟨counts, (@takeFreeContext_cons (machine.withCacheCounts counts) _ _ _ listed).trans ?_⟩
    cases large <;> rfl

theorem contextsAbove {target context : Value} {budget : Nat} :
    IgnoresCounts (contextsAbove target budget context) := by
  induction budget generalizing context with
  | zero =>
    refine ite (fun _ => pure) fun _ => getNil.bind fun nil => ?_
    exact ite (fun _ => failThen) fun _ => throw
  | succ budget induction =>
    refine ite (fun _ => pure) fun _ => getNil.bind fun nil => ?_
    refine ite (fun _ => failThen) fun _ => fetch.bind fun sender => ?_
    exact induction.bind fun _ => pure

/-! ## Lookups -/

theorem countDictionaryProbe : IgnoresCounts (Run.modifyRegisters fun registers =>
    { registers with methodCache := registers.methodCache.countDictionaryProbe }) := by
  rintro machine counts _ _ ⟨⟩
  exact ⟨{ counts with dictionaryProbes := counts.dictionaryProbes + 1 }, rfl⟩

theorem methodFrom {selector species : Value} {budget : Nat} :
    IgnoresCounts (methodFrom selector budget species) := by
  induction budget generalizing species with
  | zero => exact getNil.bind fun nil => ite (fun _ => pure) fun _ => throw
  | succ budget induction =>
    refine getNil.bind fun nil => ite (fun _ => pure) fun _ => countDictionaryProbe.andThen ?_
    refine fetch.bind fun dictionary => readHeap.bind fun found => ?_
    cases found with
    | some method => exact pure
    | none => exact fetch.bind fun _ => induction

theorem cachedMethod {selector species : Value} : IgnoresCounts (cachedMethod selector species) := by
  intro machine counts result after ended
  cases present : machine.registers.methodCache.find? selector species
      (machine.heap.hashOf selector) (machine.heap.hashOf species) with
  | none =>
    cases (cachedMethod_none present).symm.trans ended
    refine ⟨{ counts with misses := counts.misses + 1 }, ?_⟩
    exact @cachedMethod_none (machine.withCacheCounts counts) _ _ present
  | some entry =>
    cases (cachedMethod_some present).symm.trans ended
    refine ⟨{ counts with hits := counts.hits + 1 }, ?_⟩
    exact @cachedMethod_some (machine.withCacheCounts counts) _ _ _ present

theorem insert_withCounts (cache : MethodCache) (counts : CacheCounts) (entry : CacheEntry)
    (first second : Nat) : { cache with counts }.insert entry first second
      = { cache.insert entry first second with counts } := by
  have same : ({ cache with counts }.slots first second).find?
      (fun slot => ({ cache with counts }.entryAt slot).isVacant)
        = (cache.slots first second).find? fun slot => (cache.entryAt slot).isVacant := rfl
  rw [MethodCache.insert, same, MethodCache.insert]
  cases (cache.slots first second).find? fun slot => (cache.entryAt slot).isVacant <;> rfl

theorem rememberMethod {entry : CacheEntry} : IgnoresCounts (rememberMethod entry) :=
  modify fun machine counts => congrArg
    (fun methodCache => { machine with registers.methodCache := methodCache })
    (insert_withCounts machine.registers.methodCache counts entry _ _)

theorem lookupMethod {selector species : Value} : IgnoresCounts (lookupMethod selector species) := by
  refine cachedMethod.bind fun found => ?_
  cases found with
  | some entry => exact pure
  | none =>
    refine getHeap.bind fun heap => methodFrom.bind fun found => ?_
    cases found with
    | none => exact pure
    | some method => exact readHeap.bind fun header => rememberMethod.andThen pure

theorem resolveMessage {species : Value} : IgnoresCounts (resolveMessage species) := by
  refine bindRegisters (fun _ _ => rfl) fun registers => lookupMethod.bind fun found => ?_
  cases found with
  | none => exact pure
  | some entry => exact (modifyRegisters fun _ _ => rfl).andThen pure

theorem inheritsFrom {ancestor species : Value} {budget : Nat} :
    IgnoresCounts (inheritsFrom ancestor budget species) := by
  induction budget generalizing species with
  | zero => exact getNil.bind fun nil => ite (fun _ => pure) fun _ => ite (fun _ => pure) fun _ => throw
  | succ budget induction =>
    refine getNil.bind fun nil => ite (fun _ => pure) fun _ => ite (fun _ => pure) fun _ => ?_
    exact fetch.bind fun _ => induction

end IgnoresCounts

end Run

end Smalltalk
