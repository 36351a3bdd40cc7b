import Smalltalk.Proofs.Kernel.Records

namespace Smalltalk

/-! The kernel classes as they are made: each with an empty dictionary of its
own, and nothing that is made later changes that. -/

namespace Kernel

/-- A class with an empty dictionary. -/
structure HoldsFresh (kernel : Kernel) (slot : ClassPart → Nat) : Prop where
  linked : kernel.heap.fetch (.object (slot .species)) ClassField.methodDictionary
    = .ok (.object (slot .dictionary))
  nameable : ∃ name, kernel.heap.fetch (.object (slot .species)) ClassField.name = .ok name
  holds : kernel.heap.HoldsTable kernel.nil (.object (slot .dictionary)) (.object (slot .array)) .zero
    (.empty Build.initialCapacity kernel.nil)

namespace HoldsFresh

variable {kernel before after : Kernel} {slot : ClassPart → Nat}

theorem extend {written : Value → Prop} (fresh : before.HoldsFresh slot)
    (keeps : before.Extends written after) (stays : ∀ part, ¬ written (.object (slot part))) :
    after.HoldsFresh slot where
  linked := (keeps.heap.fetch (Heap.names_of_fetch fresh.linked) (stays _) _).trans fresh.linked
  nameable := by
    obtain ⟨name, named⟩ := fresh.nameable
    exact ⟨name, (keeps.heap.fetch (Heap.names_of_fetch named) (stays _) _).trans named⟩
  holds := keeps.nil ▸ fresh.holds.extend keeps.heap (stays _) (stays _)

theorem holdsClass (fresh : kernel.HoldsFresh slot) {species : KernelClass}
    (stands : kernel.classes species = .object (slot .species)) :
    kernel.HoldsClass species (fun _ => none)
      { slot, table := .empty Build.initialCapacity kernel.nil } where
  stands := stands
  linked := fresh.linked
  nameable := fresh.nameable
  holds := ⟨.zero, fresh.holds, by rw [MethodTable.used_empty]; exact .zero⟩
  wide := by rw [MethodTable.size_empty]; decide
  load := .inl (by rw [MethodTable.used_empty, MethodTable.size_empty]; decide)
  answers selector method proper := by
    constructor
    · intro answers
      obtain ⟨_, absurd, _⟩ := (MethodTable.Copies.empty _ (.empty 0 kernel.nil) _ _ _ proper).mp answers
      exact absurd.elim
    · intro known
      obtain ⟨_, _, absurd⟩ := known
      cases absurd
  interned _ _ absurd := by cases absurd

end HoldsFresh

/-- Objects may have got another class, but nothing has been added. -/
structure Adopts (before after : Kernel) : Prop where
  keeps : before.Extends (fun _ => False) after
  size : after.heap.cells.size = before.heap.cells.size

theorem Adopts.trans {before middle after : Kernel} (first : before.Adopts middle)
    (second : middle.Adopts after) : before.Adopts after :=
  ⟨first.keeps.trans second.keeps fun _ _ => id, second.size.trans first.size⟩

theorem adopts_update (kernel : Kernel) (object species : Value) : kernel.Adopts
    { kernel with heap := kernel.heap.update object fun found => { found with species } } where
  keeps := ⟨.setSpecies .., rfl, rfl, rfl, rfl⟩
  size := by
    cases object with
    | small n => rfl
    | object slot => exact Array.size_modify ..

end Kernel

namespace Build

variable {kernel : Kernel}

/-! ## Classes -/

/-- The slots of a class that is defined when a heap has so many objects. -/
def slotsFrom (base : Nat) : ClassPart → Nat
  | .array => base
  | .dictionary => base + 1
  | .species => base + 2

theorem defineClass_ensures (unused : kernel.heap.free = []) (superclass : Value)
    (species : KernelClass) :
    Ensures (defineClass superclass species) kernel fun value after =>
      value = .object (kernel.heap.cells.size + 2) ∧
      after.heap.cells.size = kernel.heap.cells.size + 3 ∧
      kernel.Extends (fun _ => False) after ∧ after.HoldsFresh (slotsFrom kernel.heap.cells.size) := by
  refine .bindOk getNil_apply (.bind (emptyDictionary_ensures unused 5) ?_)
  intro dictionary middle made
  obtain ⟨rfl, middleSize, middleKeeps, holds⟩ := made
  refine .bindOk rfl (.mono (allocate_ensures (middleKeeps.heap.free.trans unused) _ _ _) ?_)
  intro value after adds
  obtain ⟨next, keeps, size, -⟩ := id adds
  rw [middleSize] at next size
  refine ⟨next, size, middleKeeps.trans keeps fun _ _ => id, ?_, ⟨kernel.nil, ?_⟩, ?_⟩
  · exact Heap.fetch_eq_ok_iff.mpr ⟨_, next ▸ adds.pointers, rfl⟩
  · exact Heap.fetch_eq_ok_iff.mpr ⟨_, next ▸ adds.pointers, rfl⟩
  · have same := keeps.nil.trans middleKeeps.nil
    exact same ▸ holds.extend keeps.heap id id

/-- Classes that are defined one after the other, and where they stand. -/
def numbered (base : Nat) : List KernelClass → List (KernelClass × Value)
  | [] => []
  | species :: rest => (species, .object (base + 2)) :: numbered (base + 3) rest

theorem defineSubclasses_ensures (unused : kernel.heap.free = []) (root : Value)
    (classes : List KernelClass) :
    Ensures (defineSubclasses root classes) kernel fun made after =>
      made = numbered kernel.heap.cells.size classes ∧
      after.heap.cells.size = kernel.heap.cells.size + 3 * classes.length ∧
      kernel.Extends (fun _ => False) after ∧
      ∀ index < classes.length,
        after.HoldsFresh (slotsFrom (kernel.heap.cells.size + 3 * index)) := by
  induction classes generalizing kernel with
  | nil => exact .pure ⟨rfl, rfl, .refl _ _, fun _ none => absurd none (Nat.not_lt_zero _)⟩
  | cons species rest ih =>
    refine .bind (defineClass_ensures unused root species) fun value middle defined => ?_
    obtain ⟨rfl, middleSize, middleKeeps, fresh⟩ := defined
    refine .bind (ih (middleKeeps.heap.free.trans unused)) fun made after followed => .pure ?_
    obtain ⟨rfl, size, keeps, others⟩ := followed
    rw [middleSize] at size others ⊢
    refine ⟨rfl, by rw [size, List.length_cons]; omega, middleKeeps.trans keeps fun _ _ => id, ?_⟩
    intro index inside
    cases index with
    | zero => exact fresh.extend keeps fun _ => id
    | succ index =>
      have := others index (Nat.lt_of_succ_lt_succ inside)
      rwa [show kernel.heap.cells.size + 3 * (index + 1) = kernel.heap.cells.size + 3 + 3 * index by
        omega]

theorem setClass_adopts (object species : Value) (kernel : Kernel) :
    Ensures (setClass object species) kernel fun _ after => kernel.Adopts after :=
  (Ensures.iff_of_ok (modify_apply _)).mpr (Kernel.adopts_update ..)

theorem adoptDictionary_adopts {slot : ClassPart → Nat} (fresh : kernel.HoldsFresh slot) :
    Ensures (adoptDictionary (.object (slot .species))) kernel fun _ after =>
      kernel.Adopts after := by
  refine .bindOk (fetch_of_ok fresh.linked) (.bindOk (fetch_of_ok fresh.holds.fetch_methods) ?_)
  refine .bindOk rfl (.bind (setClass_adopts ..) fun _ middle adopts => ?_)
  exact .bindOk rfl (.mono (setClass_adopts ..) fun _ _ follows => adopts.trans follows)

theorem adoptDictionaries_adopts (entries : List (KernelClass × Value))
    (fresh : ∀ entry ∈ entries, ∃ slot : ClassPart → Nat,
      entry.2 = .object (slot .species) ∧ kernel.HoldsFresh slot) :
    Ensures (entries.forM fun entry => adoptDictionary entry.2) kernel fun _ after =>
      kernel.Adopts after := by
  induction entries generalizing kernel with
  | nil => exact .pure ⟨.refl _ _, rfl⟩
  | cons first rest ih =>
    obtain ⟨slot, stands, here⟩ := fresh first (List.mem_cons_self ..)
    have adopted : Ensures (adoptDictionary first.2) kernel fun _ after => kernel.Adopts after :=
      stands ▸ adoptDictionary_adopts here
    refine .bind adopted fun _ middle adopts => ?_
    refine .mono (ih fun entry member => ?_) fun _ _ follows => adopts.trans follows
    obtain ⟨slot, stands, holds⟩ := fresh entry (List.mem_cons_of_mem _ member)
    exact ⟨slot, stands, holds.extend adopts.keeps fun _ => id⟩

/-! ## All classes -/

/-- The place of a class in the order in which dictionaries are made: the class
of all classes is made first, but gets its dictionary last. -/
def dictionaryOrder (species : KernelClass) : Nat :=
  if species = .metaclass then KernelClass.all.length else KernelClass.all.idxOf species

/-- Where a class stands at first, and its empty table. -/
def firstRecord (nil : Value) (species : KernelClass) : ClassRecord where
  slot
    | .species => 3 * KernelClass.all.idxOf species + 1
    | .dictionary => 3 * dictionaryOrder species
    | .array => 3 * dictionaryOrder species - 1
  table := .empty initialCapacity nil

theorem dictionaryOrder_pos (species : KernelClass) : 0 < dictionaryOrder species := by
  cases species <;> decide

theorem dictionaryOrder_injective : Function.Injective dictionaryOrder := by
  intro first second same
  have here := List.idxOf_lt_length_of_mem first.mem_all
  have there := List.idxOf_lt_length_of_mem second.mem_all
  unfold dictionaryOrder at same
  split at same <;> split at same
  · exact ‹first = _›.trans ‹second = _›.symm
  · omega
  · omega
  · exact (List.idxOf_inj first.mem_all).mp same

theorem firstRecord_apart (nil : Value) :
    Function.Injective2 fun species => (firstRecord nil species).slot := by
  intro first second part other same
  have here := dictionaryOrder_pos first
  have there := dictionaryOrder_pos second
  cases part <;> cases other <;> simp only [firstRecord] at same
  case species.species => exact ⟨(List.idxOf_inj first.mem_all).mp (by omega), rfl⟩
  case dictionary.dictionary => exact ⟨dictionaryOrder_injective (by omega), rfl⟩
  case array.array => exact ⟨dictionaryOrder_injective (by omega), rfl⟩
  all_goals omega

theorem firstRecord_slot (nil : Value) {species : KernelClass} (ordinary : species ≠ .metaclass) :
    (firstRecord nil species).slot = slotsFrom (3 * KernelClass.all.idxOf species - 1) := by
  have positive := dictionaryOrder_pos species
  have order : dictionaryOrder species = KernelClass.all.idxOf species := if_neg ordinary
  funext part
  cases part <;> simp only [firstRecord, slotsFrom] <;> omega

/-- Every class is found under the number that it was made with. -/
theorem lookup_made (species : KernelClass) :
    (((.metaclass, .object 1) :: (.object, .object 4)
        :: numbered 5 (KernelClass.all.drop 2)).lookup species).getD (.object 0)
      = Value.object (3 * KernelClass.all.idxOf species + 1) := by
  cases species <;> rfl

theorem made_numbered : ∀ entry ∈ (.object, .object 4) :: numbered 5 (KernelClass.all.drop 2),
    entry.1 ≠ .metaclass ∧ entry.2 = Value.object (3 * KernelClass.all.idxOf entry.1 + 1) := by
  decide

/-- A kernel with so many objects, none of which is a symbol, and with the class
of all classes, which has no fields yet. -/
structure Blank (kernel : Kernel) (size : Nat) : Prop where
  size : kernel.heap.cells.size = size
  unused : kernel.heap.free = []
  failure : kernel.failure = none
  symbols : kernel.symbols = []
  nil : kernel.nil = .object 0
  fieldless : kernel.heap.pointers (.object 1) = .ok #[]

namespace Blank

variable {before after : Kernel} {old new : Nat}

theorem extend (blank : Blank before old) (keeps : before.Extends (fun _ => False) after)
    (size : after.heap.cells.size = new) : Blank after new where
  size := size
  unused := keeps.heap.free.trans blank.unused
  failure := keeps.failure.trans blank.failure
  symbols := keeps.symbols.trans blank.symbols
  nil := keeps.nil.trans blank.nil
  fieldless := (keeps.heap.pointers _ (Heap.names_of_pointers blank.fieldless) id).trans
    blank.fieldless

theorem adopt (blank : Blank before old) (adopts : before.Adopts after) : Blank after old :=
  blank.extend adopts.keeps (adopts.size.trans blank.size)

theorem setClasses (blank : Blank kernel old) (classes : KernelClass → Value) :
    Blank { kernel with classes } old :=
  ⟨blank.size, blank.unused, blank.failure, blank.symbols, blank.nil, blank.fieldless⟩

end Blank

/-- Kernel classes with fresh dictionaries have no methods. -/
theorem recorded_of_fresh (unused : kernel.heap.free = []) (failure : kernel.failure = none)
    (symbols : kernel.symbols = []) (nil : kernel.heap.Names kernel.nil)
    (classes : ∀ species, kernel.classes species = .object ((firstRecord kernel.nil species).slot .species))
    (fresh : ∀ species, kernel.HoldsFresh (firstRecord kernel.nil species).slot) :
    kernel.Recorded kernel (fun _ _ => none) (firstRecord kernel.nil) where
  unused := unused
  failure := failure
  sameNil := rfl
  sameClasses := rfl
  nil := nil
  symbols name symbol found := by
    rw [symbols] at found
    cases found
  unique first second symbol found := by
    rw [symbols] at found
    cases found
  apart := firstRecord_apart kernel.nil
  classes species := (fresh species).holdsClass (classes species)

/-- The class of all classes gets its fields, and with them its dictionary, when
everything else is there. -/
theorem recorded_of_dictionary (blank : Blank kernel 76)
    (classes : ∀ species, kernel.classes species
      = .object (3 * KernelClass.all.idxOf species + 1))
    (fresh : ∀ species, species ≠ .metaclass →
      kernel.HoldsFresh (slotsFrom (3 * KernelClass.all.idxOf species - 1)))
    (last : kernel.heap.HoldsTable kernel.nil (.object 75) (.object 74) .zero
      (.empty initialCapacity kernel.nil)) {fields : Array Value}
    (links : fields[ClassField.methodDictionary]? = some (.object 75))
    {name : Value} (names : fields[ClassField.name]? = some name) {after : Kernel}
    (ends : after = { kernel with
      heap := kernel.heap.updateBody (.object 1) fun _ => .pointers fields }) :
    after.Recorded after (fun _ _ => none) (firstRecord after.nil) := by
  subst ends
  obtain ⟨owner, here, -⟩ := Heap.pointers_eq_ok_iff.mp blank.fieldless
  have keeps : kernel.Extends (fun value => value = .object 1)
      { kernel with heap := kernel.heap.updateBody (.object 1) fun _ => .pointers fields } :=
    ⟨.update _ _ fun _ => rfl, rfl, rfl, rfl, rfl⟩
  have written : (kernel.heap.updateBody (.object 1) fun _ => .pointers fields).pointers (.object 1)
      = .ok fields :=
    Heap.pointers_eq_ok_iff.mpr ⟨{ owner with body := .pointers fields },
      (Heap.get?_update_same ..).trans (congrArg (Option.map _) here), rfl⟩
  refine recorded_of_fresh (keeps.heap.free.trans blank.unused) blank.failure blank.symbols
    ⟨0, Nat.lt_of_lt_of_le (by rw [blank.size]; decide) keeps.heap.size, blank.nil⟩ classes
    fun species => ?_
  by_cases ordinary : species = .metaclass
  · subst ordinary
    exact ⟨Heap.fetch_eq_ok_iff.mpr ⟨fields, written, links⟩,
      ⟨name, Heap.fetch_eq_ok_iff.mpr ⟨fields, written, names⟩⟩,
      last.extend keeps.heap (by decide) (by decide)⟩
  · rw [firstRecord_slot _ ordinary]
    refine (fresh species ordinary).extend keeps fun part same => ?_
    have positive := dictionaryOrder_pos species
    rw [dictionaryOrder, if_neg ordinary] at positive
    cases part <;> simp only [slotsFrom, Value.object.injEq] at same <;> omega

/-- Every ordinary class is the root or one of the classes defined after it. -/
theorem fresh_of_defined (root : kernel.HoldsFresh (slotsFrom 2))
    (others : ∀ index < (KernelClass.all.drop 2).length,
      kernel.HoldsFresh (slotsFrom (5 + 3 * index)))
    {species : KernelClass} (ordinary : species ≠ .metaclass) :
    kernel.HoldsFresh (slotsFrom (3 * KernelClass.all.idxOf species - 1)) := by
  have positive := dictionaryOrder_pos species
  have inside := List.idxOf_lt_length_of_mem species.mem_all
  rw [dictionaryOrder, if_neg ordinary] at positive
  rcases Nat.eq_or_lt_of_le positive with first | later
  · rw [← first]
    exact root
  · have here := others (KernelClass.all.idxOf species - 2) (by rw [List.length_drop]; omega)
    rwa [show 3 * KernelClass.all.idxOf species - 1
      = 5 + 3 * (KernelClass.all.idxOf species - 2) by omega]

/-- Once nil and the class of all classes are there, the other classes follow. -/
theorem makeClasses_ensures (config : Config) :
    Ensures makeClasses { heap := .ofConfig config, config } fun _ after =>
      after.Recorded after (fun _ _ => none) (firstRecord after.nil) := by
  -- nil and the class of all classes
  refine .bind (allocate_ensures rfl _ _ _) fun nil started nilAdds => ?_
  refine .bindModify fun named naming => ?_
  have namedFree : named.heap.free = [] := by rw [naming]; exact nilAdds.keeps.heap.free
  have namedSize : named.heap.cells.size = 1 := by rw [naming]; exact nilAdds.size
  refine .bind (allocate_ensures namedFree _ _ _) fun metaclass based adds => ?_
  obtain ⟨next, keeps, size, -⟩ := id adds
  rw [namedSize] at next size
  subst next
  have blank : Blank based 2 :=
    ⟨size, keeps.heap.free.trans namedFree,
      keeps.failure.trans (by rw [naming]; exact nilAdds.keeps.failure),
      keeps.symbols.trans (by rw [naming]; exact nilAdds.keeps.symbols),
      keeps.nil.trans (by rw [naming]; exact nilAdds.next), adds.pointers⟩
  refine .bindModify fun titled titling => ?_
  replace blank : Blank titled 2 := by rw [titling]; exact blank.setClasses _
  -- the other classes
  refine .bind (setClass_adopts _ _ titled) fun _ adopted adopts => ?_
  replace blank := blank.adopt adopts
  refine .bind (defineClass_ensures blank.unused _ _) fun root rooted defined => ?_
  obtain ⟨rootNext, rootSize, rootKeeps, rootFresh⟩ := defined
  rw [blank.size] at rootNext rootSize rootFresh
  subst rootNext
  replace blank := blank.extend rootKeeps rootSize
  refine .bind (defineSubclasses_ensures blank.unused _ _) fun subclasses peopled followed => ?_
  obtain ⟨made, peopledSize, peopledKeeps, others⟩ := followed
  rw [blank.size] at made peopledSize others
  subst made
  replace blank := blank.extend peopledKeeps peopledSize
  have fresh {species : KernelClass} (ordinary : species ≠ .metaclass) :=
    fresh_of_defined (rootFresh.extend peopledKeeps fun _ => id) others ordinary
  refine .bindModify fun entered entering => ?_
  have classes (species : KernelClass) : entered.classes species
      = .object (3 * KernelClass.all.idxOf species + 1) := by
    rw [entering]
    exact lookup_made species
  replace blank : Blank entered 74 := by rw [entering]; exact blank.setClasses _
  replace fresh {species : KernelClass} (ordinary : species ≠ .metaclass) :
      entered.HoldsFresh (slotsFrom (3 * KernelClass.all.idxOf species - 1)) := by
    rw [entering]
    exact ⟨(fresh ordinary).linked, (fresh ordinary).nameable, (fresh ordinary).holds⟩
  -- the classes of what was made before them, and the last dictionary
  refine .bindOk rfl (.bind (setClass_adopts _ _ entered) fun _ settled settles => ?_)
  refine .bind (adoptDictionaries_adopts _ fun entry member => ?_) fun _ adopted adopts => ?_
  · obtain ⟨ordinary, stands⟩ := made_numbered entry member
    refine ⟨_, ?_, (fresh ordinary).extend settles.keeps fun _ => id⟩
    have positive := dictionaryOrder_pos entry.1
    rw [dictionaryOrder, if_neg ordinary] at positive
    rw [stands, slotsFrom]
    congr 1
    omega
  replace adopts := settles.trans adopts
  replace blank := blank.adopt adopts
  refine .bind (emptyDictionary_ensures blank.unused 5) fun dictionary dictated last => ?_
  obtain ⟨next, size, keeps, holds⟩ := last
  rw [blank.size] at next size holds
  subst next
  rw [← keeps.nil] at holds
  refine (Ensures.iff_of_ok (modify_apply _)).mpr ?_
  refine recorded_of_dictionary (blank.extend keeps size) (fun species => ?_)
    (fun species ordinary => ?_) holds rfl rfl rfl
  · rw [keeps.classes, adopts.keeps.classes, classes]
  · exact ((fresh ordinary).extend adopts.keeps fun _ => id).extend keeps fun _ => id

/-! ## How much is made -/

namespace Steady

variable {α : Type} {each : Nat}

theorem forM {step : α → Build Unit} (steady : ∀ entry, Steady each (step entry)) (entries : List α) :
    Steady (each * entries.length) (entries.forM step) := by
  induction entries with
  | nil => exact pure ()
  | cons first rest ih =>
    refine (bind (steady first) fun _ => ih).mono ?_
    rw [List.length_cons, Nat.mul_succ, Nat.add_comm]

theorem defineClass (superclass : Value) (species : KernelClass) :
    Steady 3 (defineClass superclass species) :=
  bind getNil fun _ => bind (emptyDictionary _) fun _ => bind (classAt _) fun _ => allocate _ _ _

theorem defineSubclasses (root : Value) (classes : List KernelClass) :
    Steady (3 * classes.length) (defineSubclasses root classes) := by
  induction classes with
  | nil => exact pure []
  | cons species rest ih =>
    refine (bind (defineClass root species) fun _ => bind ih fun _ => pure _).mono ?_
    rw [List.length_cons, Nat.mul_succ, Nat.add_zero, Nat.add_comm]

theorem adoptDictionary (species : Value) : Steady 0 (adoptDictionary species) :=
  bind (fetch _ _) fun _ => bind (fetch _ _) fun _ => bind (classAt _) fun _ =>
    bind (setClass _ _) fun _ => bind (classAt _) fun _ => setClass _ _

/-- Changes outside the heap. -/
theorem aside {change : Kernel → Kernel}
    (same : ∀ kernel, (change kernel).heap = kernel.heap ∧ (change kernel).failure = kernel.failure) :
    Steady 0 (modify change : Build Unit) :=
  changes fun kernel => ⟨(same kernel).1 ▸ .refl _ _, (same kernel).2⟩

theorem makeClasses : Steady 76 makeClasses := by
  have adopts (entries : List (KernelClass × Value)) :
      Steady 0 (entries.forM fun entry => Build.adoptDictionary entry.2) :=
    (forM (fun _ => adoptDictionary _) entries).mono (Nat.le_of_eq (Nat.zero_mul _))
  refine spend (allocate _ _ _) (by decide) fun _ => ?_
  refine spend (aside fun _ => ⟨rfl, rfl⟩) (by decide) fun _ => ?_
  refine spend (allocate _ _ _) (by decide) fun _ => ?_
  refine spend (aside fun _ => ⟨rfl, rfl⟩) (by decide) fun _ => ?_
  refine spend (setClass _ _) (by decide) fun _ => ?_
  refine spend (defineClass _ _) (by decide) fun _ => ?_
  refine spend (defineSubclasses _ _) (by decide) fun _ => ?_
  refine spend (aside fun _ => ⟨rfl, rfl⟩) (by decide) fun _ => ?_
  refine spend (classAt _) (by decide) fun _ => ?_
  refine spend (setClass _ _) (by decide) fun _ => ?_
  refine spend (adopts _) (by decide) fun _ => ?_
  refine spend (emptyDictionary _) (by decide) fun _ => ?_
  exact changes fun _ => ⟨Heap.grows_update .., rfl⟩

end Steady

/-! ## Everything else -/

/-- A step that makes at most so many objects and leaves the methods of all
classes as they are. -/
structure Keeps {α : Type} (count : Nat) (step : Build α) : Prop where
  steady : Steady count step
  ensures : ∀ {kernel origin : Kernel} {log records}, kernel.Recorded origin log records →
    Ensures step kernel fun _ after => after.Recorded origin log records

namespace Keeps

variable {α β : Type} {count first second each : Nat}

theorem pure (result : α) : Keeps 0 (pure result : Build α) := ⟨.pure _, id⟩

theorem mono {step : Build α} (keeps : Keeps first step) (fewer : first ≤ count) : Keeps count step :=
  ⟨keeps.steady.mono fewer, keeps.ensures⟩

theorem bind {step : Build α} {next : α → Build β} (keeps : Keeps first step)
    (follows : ∀ result, Keeps second (next result)) : Keeps (first + second) (step >>= next) :=
  ⟨.bind keeps.steady fun result => (follows result).steady, fun recorded =>
    .bind (keeps.ensures recorded) fun result _ => (follows result).ensures⟩

/-- A step takes its part of what may be made, what follows the rest. -/
theorem spend {step : Build α} {next : α → Build β} (keeps : Keeps first step)
    (enough : first ≤ count) (follows : ∀ result, Keeps (count - first) (next result)) :
    Keeps count (step >>= next) :=
  (bind keeps follows).mono (Nat.le_of_eq (Nat.add_sub_of_le enough))

theorem get : Keeps 0 (get : Build Kernel) := ⟨.get, id⟩

theorem getNil : Keeps 0 getNil := bind get fun _ => pure _

theorem classAt (species : KernelClass) : Keeps 0 (classAt species) := bind get fun _ => pure _

/-- Changes of what neither the classes nor the symbols depend on. -/
theorem aside {change : Kernel → Kernel}
    (same : ∀ kernel, (change kernel).heap = kernel.heap ∧ (change kernel).failure = kernel.failure ∧
      (change kernel).nil = kernel.nil ∧ (change kernel).classes = kernel.classes ∧
      (change kernel).symbols = kernel.symbols) :
    Keeps 0 (modify change : Build Unit) where
  steady := .aside fun kernel => ⟨(same kernel).1, (same kernel).2.1⟩
  ensures {kernel _ _ _} recorded := by
    obtain ⟨heap, failure, nil, classes, symbols⟩ := same kernel
    exact recorded.add ⟨heap ▸ .refl _ _, nil, classes, symbols, failure⟩

theorem allocate (species : Value) (format : Nat) (body : Body) :
    Keeps 1 (allocate species format body) :=
  ⟨.allocate _ _ _, fun recorded => .mono (allocate_ensures recorded.unused _ _ _) fun _ _ adds =>
    recorded.add adds.keeps⟩

theorem fields (species : Value) (values : Array Value) : Keeps 1 (fields species values) :=
  bind (classAt _) fun _ => allocate _ _ _

theorem intern (name : String) : Keeps 1 (intern name) :=
  ⟨.intern _, fun recorded => .mono (intern_ensures recorded name) fun _ _ interned => interned.1⟩

theorem method (header : MethodHeader) (literals : Array Value) (bytecode : Array UInt8) :
    Keeps 1 (method header literals bytecode) :=
  bind (classAt _) fun _ => allocate _ _ _

theorem collect {step : Nat → Build Value} (keeps : ∀ start, Keeps each (step start))
    (count start : Nat) : Keeps (each * count) (collect step count start) := by
  induction count generalizing start with
  | zero => exact pure []
  | succ count ih =>
    refine (bind (keeps start) fun _ => bind (ih (start + 1)) fun _ => pure _).mono ?_
    rw [Nat.mul_succ, Nat.add_zero, Nat.add_comm]

theorem forM {step : α → Build Unit} (keeps : ∀ entry, Keeps each (step entry)) (entries : List α) :
    Keeps (each * entries.length) (entries.forM step) := by
  induction entries with
  | nil => exact pure ()
  | cons first rest ih =>
    refine (bind (keeps first) fun _ => ih).mono ?_
    rw [List.length_cons, Nat.mul_succ, Nat.add_comm]

theorem mapM {step : α → Build β} (keeps : ∀ entry, Keeps each (step entry)) (entries : List α) :
    Keeps (each * entries.length) (entries.mapM step) := by
  induction entries with
  | nil => exact pure []
  | cons first rest ih =>
    rw [List.mapM_cons]
    refine (bind (keeps first) fun _ => bind ih fun _ => pure _).mono ?_
    rw [List.length_cons, Nat.mul_succ, Nat.add_zero, Nat.add_comm]

/-- The name of a class is not among the fields that say which methods it has. -/
theorem nameClass (species : KernelClass) (symbol : Value) :
    Keeps 0 (do Build.store (← Build.classAt species) ClassField.name symbol) where
  steady := .bind (.classAt _) fun _ => .store _ _ _
  ensures {kernel origin log records} recorded := by
    have stands := (recorded.classes species).stands
    obtain ⟨name, named⟩ := (recorded.classes species).nameable
    obtain ⟨fields, readable, held⟩ := Heap.fetch_eq_ok_iff.mp named
    rw [← stands] at readable
    refine .bindOk rfl ((Ensures.iff_of_ok (store_of_inside readable
      (Array.getElem?_eq_some_iff.mp held).1 symbol)).mpr ?_)
    have keeps : kernel.Extends (fun value => value = kernel.classes species)
        { kernel with
          heap := kernel.heap.setField (kernel.classes species) ClassField.name symbol } :=
      ⟨.setField .., rfl, rfl, rfl, rfl⟩
    refine recorded.extend keeps recorded.apart fun other => ?_
    have holds := recorded.classes other
    refine holds.extend keeps (Heap.fetch_setField_other (.inr (by decide))) ?_ ?_ ?_
    · obtain ⟨title, titled⟩ := holds.nameable
      by_cases same : kernel.classes species = (records other).part .species
      · rw [same]
        exact ⟨symbol, Heap.fetch_setField_over titled symbol⟩
      · exact ⟨title, (Heap.fetch_setField_other (.inl same)).trans titled⟩
    · rw [stands]
      exact recorded.part_ne (.inr (by decide))
    · rw [stands]
      exact recorded.part_ne (.inr (by decide))

theorem makeConstants : Keeps 27 makeConstants := by
  refine spend (classAt _) (by decide) fun _ => ?_
  refine spend (allocate _ _ _) (by decide) fun _ => ?_
  refine spend (classAt _) (by decide) fun _ => ?_
  refine spend (allocate _ _ _) (by decide) fun _ => ?_
  refine spend (aside fun _ => ⟨rfl, rfl, rfl, rfl, rfl⟩) (by decide) fun _ => ?_
  exact forM (fun _ => bind (intern _) fun _ => nameClass _ _) KernelClass.all

theorem process (priority : Nat) (context : Value) : Keeps 1 (process priority context) :=
  bind getNil fun _ => bind (classAt _) fun _ => fields _ _

theorem makeScheduler : Keeps 13 makeScheduler := by
  refine spend getNil (by decide) fun _ => ?_
  refine spend (collect (fun _ => bind (classAt _) fun _ => fields _ _) _ _) (by decide) fun _ => ?_
  refine spend (classAt _) (by decide) fun _ => ?_
  refine spend (fields _ _) (by decide) fun _ => ?_
  refine spend (process _ _) (by decide) fun _ => ?_
  refine spend (classAt _) (by decide) fun _ => ?_
  refine spend (fields _ _) (by decide) fun _ => ?_
  refine spend (intern _) (by decide) fun _ => ?_
  refine spend (aside fun _ => ⟨rfl, rfl, rfl, rfl, rfl⟩) (by decide) fun _ => ?_
  exact bind (classAt _) fun _ => fields _ _

theorem makeSpecialSelectors : Keeps 33 makeSpecialSelectors := by
  refine spend (mapM (fun _ => bind (intern _) fun _ => pure _) _) (by decide) fun _ => ?_
  exact bind (classAt _) fun _ => fields _ _

theorem makeCharacterTable : Keeps 257 makeCharacterTable := by
  refine spend (collect (fun _ => bind (classAt _) fun _ => fields _ _) _ _) (by decide) fun _ => ?_
  exact bind (classAt _) fun _ => fields _ _

theorem makeSpecials (scheduler selectors characters : Value) :
    Keeps 5 (makeSpecials scheduler selectors characters) := by
  refine spend (intern _) (by decide) fun _ => ?_
  refine spend (intern _) (by decide) fun _ => ?_
  refine spend (intern _) (by decide) fun _ => ?_
  refine spend get (by decide) fun _ => ?_
  exact spend (fields _ _) (by decide) fun _ => fields _ _

end Keeps

/-- The classes come first, and nothing after them adds methods. -/
theorem genesis_parts : ∃ rest : Unit → Build Unit,
    genesis = makeClasses >>= rest ∧ ∀ result, Keeps 335 (rest result) := by
  refine ⟨_, rfl, fun _ => ?_⟩
  refine .spend .makeConstants (by decide) fun _ => ?_
  refine .spend .makeScheduler (by decide) fun _ => ?_
  refine .spend .makeSpecialSelectors (by decide) fun _ => ?_
  refine .spend .makeCharacterTable (by decide) fun _ => ?_
  refine .spend (.makeSpecials _ _ _) (by decide) fun _ => ?_
  exact .aside fun _ => ⟨rfl, rfl, rfl, rfl, rfl⟩

theorem genesis_steady : Steady 411 genesis := by
  obtain ⟨rest, parts, keeps⟩ := genesis_parts
  rw [parts]
  exact .bind .makeClasses fun result => (keeps result).steady

/-- A kernel that has been made from nothing has no methods yet. -/
theorem genesis_ensures (config : Config) :
    Ensures genesis { heap := .ofConfig config, config } fun _ after =>
      ∃ records, after.Recorded after (fun _ _ => none) records := by
  obtain ⟨rest, parts, keeps⟩ := genesis_parts
  rw [parts]
  refine .bind (makeClasses_ensures config) fun result middle recorded => ?_
  exact .mono ((keeps result).ensures recorded) fun _ _ kept => ⟨_, kept.restart⟩

end Build

namespace Kernel

variable {config : Config} {kernel : Kernel}

/-- A kernel made with the sizes of a configuration has no methods yet. -/
theorem recorded_of_ofConfig (made : ofConfig config = .ok kernel) :
    ∃ records, kernel.Recorded kernel (fun _ _ => none) records := by
  have ensures := Build.genesis_ensures config
  rw [ofConfig] at made
  split at made
  · rename_i ends
    cases made
    exact (Build.Ensures.iff_of_ok ends).mp ensures
  · cases made

/-- A kernel takes 411 objects, and nothing else can keep it from being made. -/
theorem exists_ofConfig {rest : Nat} (room : 411 + rest < config.tableSize)
    (few : 411 + rest ≤ 2147483648) :
    ∃ kernel, ofConfig config = .ok kernel ∧ kernel.HasRoom rest := by
  have empty : HasRoom { heap := .ofConfig config, config } (411 + rest) :=
    ⟨by simpa [Heap.ofConfig, Heap.size] using room, by simpa [Heap.ofConfig] using few⟩
  have enough : HasRoom { heap := .ofConfig config, config } 411 :=
    empty.mono (Nat.le_add_right ..)
  obtain ⟨_, kernel, ends, -, precedes⟩ :=
    (Build.genesis_ensures config).ends_of_room Build.genesis_steady enough
  exact ⟨kernel, by rw [ofConfig, ends], empty.precedes precedes⟩

end Kernel

end Smalltalk
