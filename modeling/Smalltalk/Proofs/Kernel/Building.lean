import Smalltalk.Kernel.Genesis
import Smalltalk.Proofs.Heap.Access

namespace Smalltalk

/-! Steps of the construction of a kernel: what they leave as it was and how
they can end. -/

namespace Heap

/-! ## Additions to a heap -/

/-- A value is a reference to a cell of the heap. -/
def Names (heap : Heap) (value : Value) : Prop := ∃ slot, slot < heap.cells.size ∧ value = .object slot

/-- Objects are added, and only certain ones of the old objects are written to. -/
structure Extends (written : Value → Prop) (before after : Heap) : Prop where
  free : after.free = before.free
  size : before.cells.size ≤ after.cells.size
  hashes : ∀ value, before.Names value → after.hashOf value = before.hashOf value
  pointers : ∀ value, before.Names value → ¬ written value →
    after.pointers value = before.pointers value

variable {written : Value → Prop} {heap before middle after : Heap}

theorem names_of_pointers {value : Value} {fields : Array Value}
    (readable : heap.pointers value = .ok fields) : heap.Names value := by
  obtain ⟨owner, here, -⟩ := pointers_eq_ok_iff.mp readable
  cases value with
  | small n => cases here
  | object slot =>
    rw [get?_object, cell?, Option.join_eq_some_iff] at here
    exact ⟨slot, (Array.getElem?_eq_some_iff.mp here).1, rfl⟩

/-- What is new has no reference yet. -/
theorem Names.ne {value : Value} (named : heap.Names value) {slot : Nat}
    (fresh : heap.cells.size ≤ slot) : value ≠ .object slot := by
  obtain ⟨old, inside, rfl⟩ := named
  intro same
  cases same
  omega

theorem names_of_fetch {object value : Value} {index : Nat}
    (found : heap.fetch object index = .ok value) : heap.Names object := by
  obtain ⟨fields, readable, -⟩ := fetch_eq_ok_iff.mp found
  exact names_of_pointers readable

namespace Extends

theorem names (stays : Extends written before after) {value : Value} (old : before.Names value) :
    after.Names value := by
  obtain ⟨slot, inside, rfl⟩ := old
  exact ⟨slot, Nat.lt_of_lt_of_le inside stays.size, rfl⟩

theorem refl (written : Value → Prop) (heap : Heap) : Extends written heap heap where
  free := rfl
  size := Nat.le_refl _
  hashes _ _ := rfl
  pointers _ _ _ := rfl

/-- What is written later but was not there before does not count. -/
theorem trans {later : Value → Prop} (first : Extends written before middle)
    (second : Extends later middle after)
    (covered : ∀ value, before.Names value → later value → written value) :
    Extends written before after where
  free := second.free.trans first.free
  size := Nat.le_trans first.size second.size
  hashes value old := (second.hashes value (first.names old)).trans (first.hashes value old)
  pointers value old untouched :=
    (second.pointers value (first.names old) fun touched => untouched (covered value old touched)).trans
      (first.pointers value old untouched)

theorem mono {wider : Value → Prop} (narrow : Extends written before after)
    (covered : ∀ value, before.Names value → written value → wider value) :
    Extends wider before after :=
  (refl wider before).trans narrow covered

theorem fetch (stays : Extends written before after) {object : Value} (old : before.Names object)
    (untouched : ¬ written object) (index : Nat) :
    after.fetch object index = before.fetch object index := by
  rw [Heap.fetch, stays.pointers object old untouched, Heap.fetch]

/-- A change of an object that keeps its hash. -/
theorem update (heap : Heap) (object : Value) {change : HeapObject → HeapObject}
    (hash : ∀ owner, (change owner).hash = owner.hash) :
    Extends (· = object) heap (heap.update object change) where
  free := free_update object change
  size := by
    cases object with
    | small n => exact Nat.le_refl _
    | object slot => exact Nat.le_of_eq (Array.size_modify ..).symm
  hashes value _ := by
    by_cases same : object = value
    · subst same
      rw [hashOf, get?_update_same, hashOf]
      cases heap.get? object <;> simp [hash]
    · rw [hashOf, get?_update_other _ same, hashOf]
  pointers value _ untouched := by
    rw [Heap.pointers, Heap.object,
      get?_update_other _ fun same => untouched same.symm, Heap.pointers, Heap.object]

theorem setField (heap : Heap) (object : Value) (index : Nat) (value : Value) :
    Extends (· = object) heap (heap.setField object index value) :=
  update heap object fun _ => rfl

/-- The class of an object is none of its fields. -/
theorem setSpecies (heap : Heap) (object species : Value) :
    Extends (fun _ => False) heap (heap.update object fun found => { found with species }) := by
  have changed : Extends (· = object) heap
      (heap.update object fun found => { found with species }) := update heap object fun _ => rfl
  refine ⟨changed.free, changed.size, changed.hashes, fun value old _ => ?_⟩
  by_cases same : object = value
  · subst same
    rw [Heap.pointers, Heap.object, get?_update_same, Heap.pointers, Heap.object]
    cases heap.get? object <;> rfl
  · exact changed.pointers value old fun touched => same touched.symm

end Extends

/-! ## Registration -/

variable {object : HeapObject} {value : Value}

theorem get?_push (pushed : after.cells = before.cells.push (some object)) :
    after.get? (.object before.cells.size) = some object := by
  simp [cell?, pushed]

theorem get?_push_old (pushed : after.cells = before.cells.push (some object)) {value : Value}
    (old : before.Names value) : after.get? value = before.get? value := by
  obtain ⟨slot, inside, rfl⟩ := old
  simp [cell?, pushed, Array.getElem?_push_lt inside, inside]

theorem Extends.push (pushed : after.cells = before.cells.push (some object))
    (free : after.free = before.free) : Extends (fun _ => False) before after where
  free := free
  size := by simp [pushed]
  hashes value old := by rw [hashOf, get?_push_old pushed old, hashOf]
  pointers value old _ := by
    rw [Heap.pointers, Heap.object, get?_push_old pushed old, Heap.pointers, Heap.object]

/-- At most so many objects are added. -/
structure Grows (count : Nat) (before after : Heap) : Prop where
  least : before.cells.size ≤ after.cells.size
  cells : after.cells.size ≤ before.cells.size + count
  size : after.size ≤ before.size + count
  capacity : before.capacity ≤ after.capacity

theorem Grows.refl (count : Nat) (heap : Heap) : Grows count heap heap :=
  ⟨Nat.le_refl _, Nat.le_add_right .., Nat.le_add_right .., Nat.le_refl _⟩

theorem Grows.trans {first second count : Nat} (grows : Grows first before middle)
    (follows : Grows second middle after) (total : first + second ≤ count) :
    Grows count before after where
  least := Nat.le_trans grows.least follows.least
  cells := by
    have first := grows.cells
    have second := follows.cells
    omega
  size := by
    have first := grows.size
    have second := follows.size
    omega
  capacity := Nat.le_trans grows.capacity follows.capacity

theorem grows_update (heap : Heap) (object : Value) (change : HeapObject → HeapObject) :
    Grows 0 heap (heap.update object change) := by
  cases object with
  | small n => exact .refl _ _
  | object slot =>
    have same : (heap.updateCell slot change).cells.size = heap.cells.size := Array.size_modify ..
    exact ⟨Nat.le_of_eq same.symm, Nat.le_of_eq same, Nat.le_refl _, Nat.le_refl _⟩

/-- Growing the table touches no cell. -/
theorem registerLoaded_places (registers : heap.registerLoaded object = .ok (value, after)) :
    ∃ grown : Heap, grown.cells = heap.cells ∧ grown.free = heap.free ∧
      grown.table = heap.table ∧ heap.capacity ≤ grown.capacity ∧
      grown.place object = (value, after) := by
  rw [registerLoaded] at registers
  split at registers
  · obtain ⟨grown, grows, places⟩ := bind_eq_ok_iff.mp registers
    rw [grow] at grows
    split at grows
    · cases grows
    · obtain rfl := Except.ok.inj grows
      refine ⟨_, ?_, ?_, ?_, ?_, Except.ok.inj places⟩
      case refine_4 => exact Nat.le_add_right ..
      all_goals rfl
  · exact ⟨advanceHash _, rfl, rfl, rfl, Nat.le_refl _, Except.ok.inj registers⟩

/-- Where nothing has been freed, an object gets the next cell. -/
theorem registerLoaded_pushes (unused : heap.free = [])
    (registers : heap.registerLoaded object = .ok (value, after)) :
    value = .object heap.cells.size ∧ after.cells = heap.cells.push (some object) ∧
      after.free = [] := by
  obtain ⟨grown, cells, free, -, -, places⟩ := registerLoaded_places registers
  rw [place, free.trans unused, cells] at places
  cases places
  exact ⟨rfl, rfl, rfl⟩

theorem registerLoaded_grows (registers : heap.registerLoaded object = .ok (value, after)) :
    Grows 1 heap after := by
  obtain ⟨grown, cells, -, table, capacity, places⟩ := registerLoaded_places registers
  rw [place] at places
  split at places <;> cases places <;>
    exact ⟨by simp [cells], by simp [cells], by simp [size, table], capacity⟩

/-- Only a full table keeps an object from being registered. -/
theorem registerLoaded_full {error : MemoryError}
    (refuses : heap.registerLoaded object = .error error) :
    error = .tableFull heap.capacity ∧ heap.capacity ≤ heap.size := by
  rw [registerLoaded] at refuses
  split at refuses
  · rename_i full
    rw [grow] at refuses
    split at refuses
    · cases refuses
      exact ⟨rfl, full⟩
    · cases refuses
  · cases refuses

end Heap

/-! ## Additions to a kernel -/

namespace Kernel

/-- More objects than the thirty-one bits of a reference tell apart. -/
def Outgrown (kernel : Kernel) : Prop := 2147483648 < kernel.heap.cells.size

/-- The table has no more room for an object. -/
def Full (kernel : Kernel) : Prop := kernel.heap.capacity ≤ kernel.heap.size

/-- The heap is extended, and the rest stays as it is. -/
structure Extends (written : Value → Prop) (before after : Kernel) : Prop where
  heap : before.heap.Extends written after.heap
  nil : after.nil = before.nil
  classes : after.classes = before.classes
  symbols : after.symbols = before.symbols
  failure : after.failure = before.failure

/-- A kernel before a step and after it, even if the step fails. -/
structure Precedes (count : Nat) (before after : Kernel) : Prop where
  heap : before.heap.Grows count after.heap
  failure : after.failure = before.failure

variable {written : Value → Prop} {before middle after : Kernel}

namespace Extends

theorem refl (written : Value → Prop) (kernel : Kernel) : Extends written kernel kernel :=
  ⟨.refl _ _, rfl, rfl, rfl, rfl⟩

theorem trans {later : Value → Prop} (first : Extends written before middle)
    (second : Extends later middle after)
    (covered : ∀ value, before.heap.Names value → later value → written value) :
    Extends written before after where
  heap := first.heap.trans second.heap covered
  nil := second.nil.trans first.nil
  classes := second.classes.trans first.classes
  symbols := second.symbols.trans first.symbols
  failure := second.failure.trans first.failure

theorem mono {wider : Value → Prop} (narrow : Extends written before after)
    (covered : ∀ value, before.heap.Names value → written value → wider value) :
    Extends wider before after :=
  (refl wider before).trans narrow covered

end Extends

theorem Precedes.refl (count : Nat) (kernel : Kernel) : Precedes count kernel kernel :=
  ⟨.refl _ _, rfl⟩

theorem Precedes.trans {first second count : Nat} (precedes : Precedes first before middle)
    (follows : Precedes second middle after) (total : first + second ≤ count) :
    Precedes count before after :=
  ⟨precedes.heap.trans follows.heap total, follows.failure.trans precedes.failure⟩

/-- Once there are too many objects, there always are. -/
theorem Outgrown.precedes {count : Nat} (outgrown : before.Outgrown)
    (precedes : Precedes count before after) : after.Outgrown :=
  Nat.lt_of_lt_of_le outgrown precedes.heap.least

/-- More than so many objects can be added. -/
structure HasRoom (kernel : Kernel) (count : Nat) : Prop where
  table : kernel.heap.size + count < kernel.heap.capacity
  cells : kernel.heap.cells.size + count ≤ 2147483648

namespace HasRoom

variable {kernel : Kernel} {count rest : Nat}

theorem mono (room : kernel.HasRoom count) (fewer : rest ≤ count) : kernel.HasRoom rest :=
  ⟨Nat.lt_of_le_of_lt (Nat.add_le_add_left fewer _) room.table,
    Nat.le_trans (Nat.add_le_add_left fewer _) room.cells⟩

theorem not_full (room : kernel.HasRoom count) : ¬ kernel.Full := by
  have below := room.table
  rw [Full]
  omega

theorem not_outgrown (room : kernel.HasRoom count) : ¬ kernel.Outgrown := by
  have few := room.cells
  rw [Outgrown]
  omega

/-- What is added takes its part of the room. -/
theorem precedes (room : before.HasRoom (count + rest)) (precedes : Precedes count before after) :
    after.HasRoom rest where
  table := by
    have below := room.table
    have more := precedes.heap.size
    have wider := precedes.heap.capacity
    omega
  cells := by
    have few := room.cells
    have more := precedes.heap.cells
    omega

end HasRoom

end Kernel

/-! ## Steps -/

namespace Build

variable {α β : Type} {kernel middle : Kernel} {result : α}

/-- The kernel that a step leaves, whether it ends well or not. -/
def left : EStateM.Result Stop Kernel α → Kernel
  | .ok _ kernel => kernel
  | .error _ kernel => kernel

/-- A step that takes nothing away and adds at most so many objects. -/
def Steady (count : Nat) (step : Build α) : Prop :=
  ∀ kernel : Kernel, kernel.Precedes count (left (step kernel))

/-- From a kernel, a step reaches a result and a kernel of a certain kind, unless
there are too many objects for the table or for references. -/
def Ensures (step : Build α) (kernel : Kernel) (post : α → Kernel → Prop) : Prop :=
  match step kernel with
  | .ok result after => post result after
  | .error stop after =>
    (∃ capacity, stop = .error (.memory (.tableFull capacity))) ∧ after.Full ∨ after.Outgrown

theorem bind_of_ok {step : Build α} {next : α → Build β} (ends : step kernel = .ok result middle) :
    (step >>= next) kernel = next result middle := by
  rw [show (step >>= next) kernel = EStateM.bind step next kernel from rfl, EStateM.bind, ends]

theorem bind_of_error {step : Build α} {next : α → Build β} {stop : Stop}
    (ends : step kernel = .error stop middle) : (step >>= next) kernel = .error stop middle := by
  rw [show (step >>= next) kernel = EStateM.bind step next kernel from rfl, EStateM.bind, ends]

theorem get_apply : (get : Build Kernel) kernel = .ok kernel kernel := rfl

theorem modify_apply (change : Kernel → Kernel) :
    (modify change : Build Unit) kernel = .ok () (change kernel) := rfl

theorem read_of_ok {query : Heap → Except MemoryError α}
    (found : query kernel.heap = .ok result) : read query kernel = .ok result kernel := by
  rw [read, bind_of_ok get_apply, found]
  rfl

theorem read_of_error {query : Heap → Except MemoryError α} {error : MemoryError}
    (failed : query kernel.heap = .error error) :
    read query kernel = .error (.error (.memory error)) kernel := by
  rw [read, bind_of_ok get_apply, failed]
  rfl

theorem fetch_of_ok {object value : Value} {index : Nat}
    (found : kernel.heap.fetch object index = .ok value) :
    fetch object index kernel = .ok value kernel :=
  read_of_ok found

theorem fetchInt_of_ok {object : Value} {index : Nat} {n : Int}
    (found : kernel.heap.fetchInt object index = .ok n) :
    fetchInt object index kernel = .ok n kernel :=
  read_of_ok found

theorem store_of_inside {object : Value} {index : Nat} {fields : Array Value}
    (readable : kernel.heap.pointers object = .ok fields) (inside : index < fields.size)
    (value : Value) :
    store object index value kernel
      = .ok () { kernel with heap := kernel.heap.setField object index value } := by
  have written : kernel.heap.store object index value = .ok (kernel.heap.setField object index value) :=
    Heap.store_eq_ok_iff.mpr ⟨⟨fields, readable, inside⟩, rfl⟩
  rw [store, bind_of_ok (read_of_ok written), modify_apply]

/-! ## Steps that take nothing away -/

namespace Steady

variable {count first second : Nat}

theorem pure (result : α) : Steady 0 (pure result : Build α) := fun _ => .refl _ _

theorem throw (stop : Stop) : Steady 0 (throw stop : Build α) := fun _ => .refl _ _

theorem mono {step : Build α} (steady : Steady first step) (fewer : first ≤ count) :
    Steady count step :=
  fun kernel => (steady kernel).trans (.refl 0 _) fewer

theorem bind {step : Build α} {next : α → Build β} (steady : Steady first step)
    (follows : ∀ result, Steady second (next result)) :
    Steady (first + second) (step >>= next) := by
  intro kernel
  have precedes := steady kernel
  cases ends : step kernel with
  | ok result middle =>
    rw [ends] at precedes
    rw [bind_of_ok ends]
    exact precedes.trans (follows result middle) (Nat.le_refl _)
  | error stop middle =>
    rw [ends] at precedes
    rw [bind_of_error ends]
    exact precedes.trans (.refl second _) (Nat.le_refl _)

/-- A step takes its part of what may be added, what follows the rest. -/
theorem spend {step : Build α} {next : α → Build β} (steady : Steady first step)
    (enough : first ≤ count) (follows : ∀ result, Steady (count - first) (next result)) :
    Steady count (step >>= next) :=
  (bind steady follows).mono (Nat.le_of_eq (Nat.add_sub_of_le enough))

theorem get : Steady 0 (get : Build Kernel) := fun _ => .refl _ _

theorem changes {change : Kernel → Kernel} (keeps : ∀ kernel : Kernel, kernel.Precedes 0 (change kernel)) :
    Steady 0 (modify change : Build Unit) := keeps

theorem ite {condition : Prop} [Decidable condition] {yes no : Build α} (holds : Steady count yes)
    (fails : Steady count no) : Steady count (if condition then yes else no) := by
  split
  · exact holds
  · exact fails

theorem read (query : Heap → Except MemoryError α) : Steady 0 (read query) := by
  intro kernel
  cases found : query kernel.heap with
  | ok result => rw [read_of_ok found]; exact .refl _ _
  | error error => rw [read_of_error found]; exact .refl _ _

theorem fetch (object : Value) (index : Nat) : Steady 0 (fetch object index) := read _

theorem fetchInt (object : Value) (index : Nat) : Steady 0 (fetchInt object index) := read _

theorem getNil : Steady 0 getNil := bind get fun _ => pure _

theorem classAt (species : KernelClass) : Steady 0 (classAt species) := bind get fun _ => pure _

theorem store (object : Value) (index : Nat) (value : Value) :
    Steady 0 (store object index value) := by
  intro kernel
  cases written : kernel.heap.store object index value with
  | ok heap =>
    obtain ⟨-, rfl⟩ := Heap.store_eq_ok_iff.mp written
    rw [Build.store, bind_of_ok (read_of_ok written), modify_apply]
    exact ⟨Heap.grows_update .., rfl⟩
  | error error =>
    rw [Build.store, bind_of_error (read_of_error written)]
    exact .refl _ _

theorem setClass (object species : Value) : Steady 0 (setClass object species) :=
  changes fun _ => ⟨Heap.grows_update .., rfl⟩

theorem allocate (species : Value) (format : Nat) (body : Body) :
    Steady 1 (allocate species format body) := by
  intro kernel
  rw [Build.allocate, bind_of_ok (modify_apply _), bind_of_ok get_apply]
  set numbered : Kernel := { kernel with lastHash := (kernel.lastHash + 1) % 4096 }
  cases registers : numbered.heap.registerLoaded
      { species, format, hash := numbered.lastHash, body } with
  | ok registered =>
    obtain ⟨value, heap⟩ := registered
    rw [bind_of_ok (read_of_ok registers)]
    exact ⟨Heap.registerLoaded_grows registers, rfl⟩
  | error error =>
    rw [bind_of_error (read_of_error registers)]
    exact ⟨.refl _ _, rfl⟩

theorem intern (name : String) : Steady 1 (intern name) := by
  refine (bind get fun kernel => ?_ : Steady (0 + 1) _)
  cases kernel.symbols.lookup name with
  | some symbol => exact (pure symbol).mono (Nat.zero_le _)
  | none =>
    have enter (symbol : Value) : Steady 0 (modify fun kernel : Kernel =>
        { kernel with symbols := (name, symbol) :: kernel.symbols } : Build Unit) :=
      changes fun _ => ⟨.refl _ _, rfl⟩
    exact bind (classAt _) fun _ => bind (allocate _ _ _) fun _ => bind (enter _) fun _ => pure _

theorem method (header : MethodHeader) (literals : Array Value) (bytecode : Array UInt8) :
    Steady 1 (method header literals bytecode) :=
  bind (classAt _) fun _ => allocate _ _ _

theorem emptyDictionary (capacity : Nat) : Steady 2 (emptyDictionary capacity) :=
  bind getNil fun _ => bind (classAt _) fun _ => bind (allocate _ _ _) fun _ =>
    bind (classAt _) fun _ => allocate _ _ _

theorem vacancy (dictionary selector : Value) (places : List Nat) :
    Steady 0 (vacancy dictionary selector places) := by
  induction places with
  | nil => exact throw _
  | cons place rest ih =>
    exact bind (fetch _ _) fun _ => bind getNil fun _ => ite (pure _) ih

theorem insertMethod (dictionary selector method : Value) :
    Steady 0 (insertMethod dictionary selector method) := by
  have finishes (place : Nat) : Steady 0 (do
      Build.store dictionary (DictionaryField.selectors + place) selector
      Build.store (← Build.fetch dictionary DictionaryField.methods) place method) :=
    bind (store _ _ _) fun _ => bind (fetch _ _) fun _ => store _ _ _
  exact bind (bind get fun _ => pure _) fun _ => bind get fun _ => bind (vacancy _ _ _) fun _ =>
    bind (fetch _ _) fun _ => bind getNil fun _ =>
      ite (bind (fetchInt _ _) fun _ => bind (store _ _ _) fun _ => finishes _) (finishes _)

theorem insertAll (target source methods : Value) (places : List Nat) :
    Steady 0 (insertAll target source methods places) := by
  induction places with
  | nil => exact pure ()
  | cons place rest ih =>
    exact bind (fetch _ _) fun _ => bind getNil fun _ =>
      ite (bind (fetch _ _) fun _ => bind (insertMethod _ _ _) fun _ => ih) ih

theorem growDictionary (species old : Value) (capacity : Nat) :
    Steady 2 (growDictionary species old capacity) :=
  bind (emptyDictionary _) fun _ => bind (fetch _ _) fun _ => bind (bind get fun _ => pure _) fun _ =>
    bind (insertAll _ _ _ _) fun _ => bind (store _ _ _) fun _ => pure _

theorem install (species : Value) (name : String) (method : Value) :
    Steady 3 (install species name method) := by
  refine bind (intern _) fun _ => bind (fetch _ _) fun _ => bind (bind get fun _ => pure _) fun _ =>
    bind (fetchInt _ _) fun _ => ite ?_ ((insertMethod _ _ _).mono (Nat.zero_le 2))
  exact bind (growDictionary _ _ _) fun _ => insertMethod _ _ _

end Steady

/-! ## Steps that end in a certain way -/

namespace Ensures

variable {post : α → Kernel → Prop} {step : Build α}

theorem iff_of_ok (ends : step kernel = .ok result middle) :
    Ensures step kernel post ↔ post result middle := by
  rw [Ensures, ends]

theorem pure (holds : post result kernel) : Ensures (pure result) kernel post := holds

theorem mono {weaker : α → Kernel → Prop} (ensures : Ensures step kernel post)
    (implies : ∀ result after, post result after → weaker result after) :
    Ensures step kernel weaker := by
  cases ends : step kernel with
  | ok result middle =>
    rw [iff_of_ok ends] at ensures ⊢
    exact implies result middle ensures
  | error stop middle =>
    rw [Ensures, ends] at ensures ⊢
    exact ensures

theorem bind {goal : β → Kernel → Prop} {next : α → Build β} (first : Ensures step kernel post)
    (second : ∀ result middle, post result middle → Ensures (next result) middle goal) :
    Ensures (step >>= next) kernel goal := by
  cases ends : step kernel with
  | ok result middle =>
    rw [iff_of_ok ends] at first
    rw [Ensures, bind_of_ok ends]
    exact second result middle first
  | error stop middle =>
    rw [Ensures, ends] at first
    rwa [Ensures, bind_of_error ends]

theorem bindOk {goal : β → Kernel → Prop} {next : α → Build β}
    (ends : step kernel = .ok result middle) (second : Ensures (next result) middle goal) :
    Ensures (step >>= next) kernel goal := by
  rwa [Ensures, bind_of_ok ends]

theorem bindModify {goal : β → Kernel → Prop} {next : Unit → Build β}
    {change : Kernel → Kernel}
    (second : ∀ middle, middle = change kernel → Ensures (next ()) middle goal) :
    Ensures (modify change >>= next) kernel goal :=
  bindOk (modify_apply change) (second _ rfl)

/-- Once there are too many objects, no step changes that. -/
theorem of_outgrown {count : Nat} (outgrown : kernel.Outgrown) (steady : Steady count step) :
    Ensures step kernel fun result after => after.Outgrown ∨ post result after := by
  have precedes := steady kernel
  cases ends : step kernel with
  | ok result middle =>
    rw [ends] at precedes
    exact (iff_of_ok ends).mpr (.inl (outgrown.precedes precedes))
  | error stop middle =>
    rw [ends] at precedes
    rw [Ensures, ends]
    exact .inr (outgrown.precedes precedes)

/-- A step for which there is room does what it ensures. -/
theorem ends_of_room {count : Nat} (ensures : Ensures step kernel post) (steady : Steady count step)
    (room : kernel.HasRoom count) :
    ∃ result after, step kernel = .ok result after ∧ post result after ∧
      kernel.Precedes count after := by
  have precedes := steady kernel
  cases ends : step kernel with
  | ok result after =>
    rw [ends] at precedes
    exact ⟨result, after, rfl, (iff_of_ok ends).mp ensures, precedes⟩
  | error stop after =>
    rw [ends] at precedes
    rw [Ensures, ends] at ensures
    have left : after.HasRoom 0 := room.precedes precedes
    rcases ensures with ⟨-, full⟩ | outgrown
    · exact absurd full left.not_full
    · exact absurd outgrown left.not_outgrown

end Ensures

/-! ## Allocation -/

/-- An object with a certain body has been added. -/
structure Adds (before after : Kernel) (value : Value) (body : Body) : Prop where
  next : value = .object before.heap.cells.size
  keeps : before.Extends (fun _ => False) after
  size : after.heap.cells.size = before.heap.cells.size + 1
  holds : (after.heap.get? value).map HeapObject.body = some body

theorem Adds.pointers {before after : Kernel} {value : Value} {fields : Array Value}
    (adds : Adds before after value (.pointers fields)) : after.heap.pointers value = .ok fields := by
  obtain ⟨owner, here, held⟩ := Option.map_eq_some_iff.mp adds.holds
  exact Heap.pointers_eq_ok_iff.mpr ⟨owner, here, by rw [HeapObject.pointers?, held]; rfl⟩

theorem allocate_ensures (unused : kernel.heap.free = []) (species : Value) (format : Nat)
    (body : Body) :
    Ensures (allocate species format body) kernel fun value after =>
      Adds kernel after value body := by
  rw [allocate]
  refine .bindOk (modify_apply _) (.bindOk get_apply ?_)
  set numbered : Kernel := { kernel with lastHash := (kernel.lastHash + 1) % 4096 }
  cases registers : numbered.heap.registerLoaded
      { species, format, hash := numbered.lastHash, body } with
  | error error =>
    obtain ⟨rfl, full⟩ := Heap.registerLoaded_full registers
    rw [Ensures, bind_of_error (read_of_error registers)]
    exact .inl ⟨⟨_, rfl⟩, full⟩
  | ok registered =>
    obtain ⟨value, heap⟩ := registered
    obtain ⟨next, pushed, free⟩ := Heap.registerLoaded_pushes unused registers
    refine .bindOk (read_of_ok registers) (.bindOk (modify_apply _) (.pure ⟨next,
      ⟨.push pushed (free.trans unused.symm), rfl, rfl, rfl, rfl⟩, by simp [pushed, numbered], ?_⟩))
    rw [next]
    exact congrArg (Option.map HeapObject.body) (Heap.get?_push pushed)

end Build

end Smalltalk
