import Smalltalk.Machine.Step
import Smalltalk.Proofs.Heap.Exchange
import Smalltalk.Proofs.Lookup.Transparency

namespace Smalltalk

/-! Most computations remember nothing: they may forget what the caches hold, but
they add nothing to it, and an object that stays in the at-cache stays what it is.
Its elements may change, its class and its size never do. -/

/-- Whether two bodies are of one kind and size. -/
inductive Body.SameShape : Body → Body → Prop
  | pointers {old new : Array Value} (size : new.size = old.size) :
      SameShape (.pointers old) (.pointers new)
  | words {old new : Array UInt32} (size : new.size = old.size) :
      SameShape (.words old) (.words new)
  | bytes {old new : Array UInt8} (size : new.size = old.size) :
      SameShape (.bytes old) (.bytes new)
  | method {old new : Array Value} {code newCode : Array UInt8} (size : new.size = old.size)
      (codeSize : newCode.size = code.size) : SameShape (.method old code) (.method new newCode)
  | float (old new : UInt64) : SameShape (.float old) (.float new)

namespace Body.SameShape

variable {first middle last : Body}

theorem refl (body : Body) : body.SameShape body := by
  cases body <;> constructor <;> rfl

theorem trans (early : first.SameShape middle) (late : middle.SameShape last) :
    first.SameShape last := by
  cases early <;> cases late <;> constructor <;> omega

theorem mapPointers {change : Array Value → Array Value} (body : Body)
    (size : ∀ fields, body.pointers? = some fields → (change fields).size = fields.size) :
    body.SameShape (body.mapPointers change) := by
  cases body with
  | pointers fields => exact .pointers (size fields rfl)
  | method literals bytecode => exact .method (size literals rfl) rfl
  | _ => exact .refl _

theorem mapBytes {change : Array UInt8 → Array UInt8} (body : Body)
    (size : ∀ data, body.bytes? = some data → (change data).size = data.size) :
    body.SameShape (body.mapBytes change) := by
  cases body with
  | bytes data => exact .bytes (size data rfl)
  | method literals bytecode => exact .method rfl (size bytecode rfl)
  | _ => exact .refl _

theorem mapWords {change : Array UInt32 → Array UInt32} (body : Body)
    (size : ∀ data, body.words? = some data → (change data).size = data.size) :
    body.SameShape (body.mapWords change) := by
  cases body with
  | words data => exact .words (size data rfl)
  | _ => exact .refl _

end Body.SameShape

/-- Whether an object has become another one only by changes of its elements. -/
structure HeapObject.Persists (before after : HeapObject) : Prop where
  species : after.species = before.species
  shape : before.body.SameShape after.body

namespace HeapObject.Persists

variable {first middle last : HeapObject}

theorem refl (object : HeapObject) : object.Persists object := ⟨rfl, .refl _⟩

theorem trans (early : first.Persists middle) (late : middle.Persists last) :
    first.Persists last :=
  ⟨late.species.trans early.species, early.shape.trans late.shape⟩

end HeapObject.Persists

/-- Every object persists when the body of one changes and keeps its shape. -/
theorem Heap.persists_updateBody {heap : Heap} (target : Value) {change : Body → Body}
    (shape : ∀ object, heap.get? target = some object →
      object.body.SameShape (change object.body))
    {value : Value} {object : HeapObject} (found : heap.get? value = some object) :
    ∃ later, (heap.updateBody target change).get? value = some later ∧ object.Persists later := by
  by_cases same : target = value
  · subst same
    refine ⟨{ object with body := change object.body }, ?_, ⟨rfl, shape object found⟩⟩
    exact (heap.get?_update_same _ _).trans (by rw [found]; rfl)
  · exact ⟨object, (heap.get?_update_other same _).trans found, .refl object⟩

namespace Machine

/-- What the caches hold they held before, the objects of the at-cache are still
what they were, and the heap is sound. -/
structure Keeps (before after : Machine) : Prop where
  consistent : after.heap.Consistent
  methods : ∀ entry ∈ after.registers.methodCache.entries, entry.isVacant = false →
    entry ∈ before.registers.methodCache.entries
  parts : ∀ access part, some part ∈ after.registers.atCache.side access →
    some part ∈ before.registers.atCache.side access
  objects : ∀ access part, some part ∈ after.registers.atCache.side access →
    ∀ object, before.heap.get? part.object = some object →
      ∃ later, after.heap.get? part.object = some later ∧ object.Persists later

namespace Keeps

variable {first middle last before after : Machine}

theorem refl (consistent : before.heap.Consistent) : before.Keeps before where
  consistent := consistent
  methods _ member _ := member
  parts _ _ member := member
  objects _ _ _ object found := ⟨object, found, .refl object⟩

theorem trans (early : first.Keeps middle) (late : middle.Keeps last) : first.Keeps last where
  consistent := late.consistent
  methods entry member used := early.methods entry (late.methods entry member used) used
  parts access part member := early.parts access part (late.parts access part member)
  objects access part member object found := by
    rcases early.objects access part (late.parts access part member) object found with
      ⟨between, here, persists⟩
    rcases late.objects access part member between here with ⟨later, there, further⟩
    exact ⟨later, there, persists.trans further⟩

/-- What changes neither objects nor caches. -/
theorem of_same (consistent : before.heap.Consistent)
    (cells : after.heap.cells = before.heap.cells) (table : after.heap.table = before.heap.table)
    (free : after.heap.free = before.heap.free)
    (methodCache : after.registers.methodCache.entries = before.registers.methodCache.entries)
    (atCache : after.registers.atCache = before.registers.atCache) : before.Keeps after := by
  have get (value : Value) : after.heap.get? value = before.heap.get? value := by
    cases value with
    | small n => rfl
    | object slot => simp only [Heap.get?_object, Heap.cell?, cells]
  have live (slot : Nat) : after.heap.Live slot ↔ before.heap.Live slot := by
    rw [Heap.Live, Heap.cell?, cells, Heap.Live, Heap.cell?]
  exact
    { consistent := consistent.transfer table free live fun slot empty => cells ▸ empty
      methods := fun entry member _ => methodCache ▸ member
      parts := fun access part member => atCache ▸ member
      objects := fun _ _ _ object found => ⟨object, (get _).trans found, .refl object⟩ }

theorem of_updateBody (consistent : before.heap.Consistent) (target : Value)
    {change : Body → Body}
    (shape : ∀ object, before.heap.get? target = some object →
      object.body.SameShape (change object.body)) :
    before.Keeps { before with heap := before.heap.updateBody target change } where
  consistent := Heap.consistent_update consistent target _
  methods _ member _ := member
  parts _ _ member := member
  objects _ _ _ _ found := Heap.persists_updateBody target shape found

/-- What forgets parts and methods and leaves the objects. -/
theorem of_forget (consistent : after.heap.Consistent)
    (methods : ∀ entry ∈ after.registers.methodCache.entries, entry.isVacant = false →
      entry ∈ before.registers.methodCache.entries)
    (parts : ∀ access part, some part ∉ after.registers.atCache.side access) :
    before.Keeps after where
  consistent := consistent
  methods := methods
  parts access part member := absurd member (parts access part)
  objects access part member := absurd member (parts access part)

end Keeps

end Machine

theorem AtCache.not_mem_clear (cache : AtCache) (access : Access) (part : IndexedPart) :
    some part ∉ cache.clear.side access := by
  cases access <;> simp [side, clear]

theorem MethodCache.vacant_of_mem_clear {cache : MethodCache} {entry : CacheEntry}
    (member : entry ∈ cache.clear.entries) : entry.isVacant = true := by
  rcases Array.mem_map.mp member with ⟨_, -, rfl⟩
  rfl

namespace Registers

/-- A flush gives up parts and adds none. -/
theorem parts_of_flushed {registers last : Registers} (flushed : Flushed registers last) :
    ∀ access part, some part ∈ last.atCache.side access →
      some part ∈ registers.atCache.side access := by
  induction flushed with
  | refl => exact fun _ _ member => member
  | flush _ induction =>
    exact fun access part member => absurd member (AtCache.not_mem_clear _ access part)

theorem mem_values_of_part {registers : Registers} {access : Access} {part : IndexedPart}
    (member : some part ∈ registers.atCache.side access) : part.object ∈ registers.values := by
  have listed : part.object ∈ registers.atCache.values := by
    refine List.mem_filterMap.mpr ⟨some part, ?_, rfl⟩
    cases access with
    | read => exact List.mem_append_left _ (Array.mem_toList_iff.mpr member)
    | write => exact List.mem_append_right _ (Array.mem_toList_iff.mpr member)
  simp [Registers.values, listed]

end Registers

namespace Machine.Keeps

variable {machine : Machine} {heap : Heap} {registers : Registers}

/-- Collections keep what the caches hold. -/
theorem of_survives
    (survives : Rooted.Survives ⟨machine.heap, machine.registers⟩ ⟨heap, registers⟩) :
    machine.Keeps { machine with heap, registers } where
  consistent := survives.consistent
  methods := (Registers.cached_of_flushed survives.flushed).2
  parts := Registers.parts_of_flushed survives.flushed
  objects access part member object found := by
    refine ⟨object, ?_, .refl object⟩
    have held : machine.heap.Holds part.object := by
      cases named : part.object with
      | small n => trivial
      | object slot =>
        rw [named] at found
        exact Heap.live_of_cell? found
    exact (survives.get?_eq
      (survives.held _ (Registers.mem_values_of_part member) held)).trans found

/-- A new object takes the place of no other. -/
theorem of_places {object : HeapObject} {slot : Nat}
    (places : Heap.Places object slot machine.heap heap) :
    machine.Keeps { machine with heap } where
  consistent := places.consistent
  methods _ member _ := member
  parts _ _ member := member
  objects _ part _ old found := by
    refine ⟨old, ?_, .refl old⟩
    cases named : part.object with
    | small n =>
      rw [named] at found
      cases found
    | object other =>
      rw [named] at found
      have apart : other ≠ slot := fun same => places.dead (same ▸ Heap.live_of_cell? found)
      exact (places.others other apart).trans found

end Machine.Keeps

namespace Run

variable {α β : Type} {start : Machine}

/-- The computation adds nothing to what is remembered. -/
def Kept (start : Machine) (run : Run α) : Prop :=
  Maintains start.Keeps run fun _ => True

namespace Kept

theorem of_ensures {run : Run α}
    (ensures : ∀ machine, machine.heap.Consistent → run.Ensures machine fun _ => machine.Keeps) :
    Kept start run :=
  fun machine keeps => (ensures machine keeps.consistent).mono
    fun _ _ ended => ⟨keeps.trans ended, trivial⟩

theorem bind {run : Run α} {next : α → Run β} (first : Kept start run)
    (second : ∀ result, Kept start (next result)) : Kept start (run >>= next) :=
  Maintains.bind first fun result _ => second result

theorem pure {result : α} : Kept start (Pure.pure result : Run α) := Maintains.pure trivial

theorem throw {stop : Stop} : Kept start (MonadExcept.throw stop : Run α) := Maintains.throw

theorem fail {reason : MachineError} : Kept start (Run.fail reason : Run α) := Maintains.fail

theorem throwThen {stop : Stop} {next : β → Run α} :
    Kept start ((MonadExcept.throw stop : Run β) >>= next) := Maintains.throwThen

theorem failThen {reason : MachineError} {next : β → Run α} :
    Kept start (Run.fail reason >>= next) := Maintains.failThen

theorem discard {run : Run α} (kept : Kept start run) : Kept start (Functor.discard run) :=
  Maintains.discard kept

theorem ite {condition : Prop} [Decidable condition] {first second : Run α}
    (yes : condition → Kept start first) (no : ¬ condition → Kept start second) :
    Kept start (if condition then first else second) := Maintains.ite yes no

end Kept

/-! ## The machine itself -/

theorem get_kept : Kept start (get : Run Machine) := maintains_get

theorem getRegisters_kept : Kept start getRegisters := maintains_getRegisters

theorem getHeap_kept : Kept start getHeap := maintains_getHeap

theorem getNil_kept : Kept start getNil := maintains_getNil

/-- The devices, the counters and the other registers are not remembered. -/
theorem modify_kept {change : Machine → Machine}
    (same : ∀ machine, ((change machine).heap, (change machine).registers.methodCache,
        (change machine).registers.atCache)
      = (machine.heap, machine.registers.methodCache, machine.registers.atCache)) :
    Kept start (modify change : Run Unit) :=
  .of_ensures fun machine consistent => (ensures_modify machine change).mono <| by
    intro _ _ ended
    rcases ended with rfl
    have heap : (change machine).heap = machine.heap := congrArg Prod.fst (same machine)
    have methodCache := congrArg (fun state => state.2.1.entries) (same machine)
    exact .of_same consistent (by rw [heap]) (by rw [heap]) (by rw [heap]) methodCache
      (congrArg (fun state => state.2.2) (same machine))

theorem modifyGet_kept {change : Machine → α × Machine}
    (same : ∀ machine, (change machine).2.heap.cells = machine.heap.cells ∧
      (change machine).2.heap.table = machine.heap.table ∧
      (change machine).2.heap.free = machine.heap.free ∧
      (change machine).2.registers = machine.registers) :
    Kept start (modifyGet change : Run α) :=
  .of_ensures fun machine consistent =>
    (ensures_modifyGet machine change).mono fun _ after ended => by
    have left : after = (change machine).2 := congrArg Prod.snd ended
    rcases same machine with ⟨cells, table, free, registers⟩
    subst left
    exact .of_same consistent cells table free (by rw [registers]) (by rw [registers])

/-! ## The heap -/

theorem readHeap_kept {query : Heap → Except MemoryError α} : Kept start (readHeap query) :=
  maintains_readHeap

theorem fetch_kept {object : Value} {index : Nat} : Kept start (fetch object index) :=
  readHeap_kept

theorem modifyBody_kept {target : Value} {change : Body → Body}
    (shape : ∀ body : Body, body.SameShape (change body)) :
    Kept start (modifyHeap (·.updateBody target change)) :=
  .of_ensures fun machine consistent => (ensures_modifyHeap machine _).mono <| by
    intro _ _ ended
    rcases ended with rfl
    exact .of_updateBody consistent target fun object _ => shape object.body

theorem store_kept {object : Value} {index : Nat} {value : Value} :
    Kept start (store object index value) :=
  .of_ensures fun machine consistent => (ensures_store machine object index value).mono <| by
    intro _ _ ended
    rcases ended with ⟨-, rfl⟩
    exact .of_updateBody consistent object fun owner _ =>
      .mapPointers owner.body fun _ _ => Array.size_setIfInBounds

theorem register_kept {object : HeapObject} : Kept start (register object) :=
  .of_ensures fun machine consistent => (ensures_onHeap machine _).mono <| by
    intro _ _ ended
    rcases ended with ⟨rooted, registered, rfl⟩
    obtain ⟨heap, slot, hash, -, survives, -, places⟩ := HeapM.register_cases consistent registered
    have collected := Machine.Keeps.of_survives survives
    exact collected.trans (.of_places places)

theorem instantiate_kept {species nil : Value} {size : Nat} :
    Kept start (onHeap (HeapM.instantiate species size nil)) := by
  rw [HeapM.instantiate, onHeap_read]
  refine readHeap_kept.bind fun description => ?_
  cases description.int? with
  | none =>
    intro _ _ _ _ stopped
    cases stopped
  | some bits => exact register_kept

theorem copy_kept {object : Value} : Kept start (onHeap (HeapM.copy object)) := by
  rw [HeapM.copy, onHeap_read]
  exact readHeap_kept.bind fun _ => register_kept

theorem collect_kept {change : Rooted Registers → Rooted Registers}
    (survives : ∀ rooted : Rooted Registers, rooted.heap.Consistent →
      rooted.Survives (change rooted)) : Kept start (collect change) :=
  .of_ensures fun machine consistent => (ensures_modify machine _).mono <| by
    intro _ _ same
    rcases same with rfl
    exact .of_survives (survives _ consistent)

/-! ## Contexts -/

theorem takeFreeContext_kept {large : Bool} : Kept start (takeFreeContext large) := by
  refine .of_ensures fun machine consistent => ?_
  refine (ensures_getRegisters machine).bindExactly ?_
  split
  · exact .pure (.refl consistent)
  · refine (ensures_get machine).bindExactly ?_
    refine (ensures_set machine _).bindChange fun _ => ?_
    refine .pure (.of_same consistent rfl rfl rfl ?_ ?_) <;> cases large <;> rfl

theorem contextsAbove_kept {target context : Value} {budget : Nat} :
    Kept start (contextsAbove target budget context) := by
  induction budget generalizing context with
  | zero =>
    refine .ite (fun _ => .pure) fun _ => getNil_kept.bind fun nil => ?_
    exact .ite (fun _ => .failThen) fun _ => .throw
  | succ budget induction =>
    refine .ite (fun _ => .pure) fun _ => getNil_kept.bind fun nil => ?_
    refine .ite (fun _ => .failThen) fun _ => fetch_kept.bind fun sender => ?_
    exact induction.bind fun _ => .pure

end Run

end Smalltalk
