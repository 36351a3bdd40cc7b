import Smalltalk.MethodDictionary
import Smalltalk.Proofs.Heap.Compaction

namespace Smalltalk

/-! What a successful access to the heap has found, and what a write leaves as
it was. -/

/-- Two computations that may fail succeed in a row when each of them does. -/
theorem bind_eq_ok_iff {ε α β : Type} {first : Except ε α} {next : α → Except ε β} {result : β} :
    (first >>= next) = .ok result ↔ ∃ middle, first = .ok middle ∧ next middle = .ok result := by
  cases first with
  | error error =>
    constructor
    · intro absurd
      cases absurd
    · intro ended
      rcases ended with ⟨_, absurd, _⟩
      cases absurd
  | ok middle =>
    constructor
    · exact fun found => ⟨middle, rfl, found⟩
    · intro ended
      rcases ended with ⟨_, ⟨⟩, found⟩
      exact found

namespace Heap

variable {heap : Heap}

/-! ## Reading -/

theorem object_eq_ok_iff {value : Value} {object : HeapObject} :
    heap.object value = .ok object ↔ heap.get? value = some object := by
  rw [Heap.object]
  cases heap.get? value <;> simp

theorem pointers_eq_ok_iff {value : Value} {fields : Array Value} :
    heap.pointers value = .ok fields ↔
      ∃ object, heap.get? value = some object ∧ object.pointers? = some fields := by
  rw [Heap.pointers, bind_eq_ok_iff]
  refine exists_congr fun object => and_congr object_eq_ok_iff ?_
  cases object.pointers? <;> simp

theorem fetch_eq_ok_iff {object value : Value} {index : Nat} :
    heap.fetch object index = .ok value ↔
      ∃ fields, heap.pointers object = .ok fields ∧ fields[index]? = some value := by
  rw [Heap.fetch, bind_eq_ok_iff]
  refine exists_congr fun fields => and_congr Iff.rfl ?_
  cases fields[index]? <;> simp

theorem mem_references_of_getElem? {object : HeapObject} {fields : Array Value} {index : Nat}
    {value : Value} (pointers : object.pointers? = some fields)
    (found : fields[index]? = some value) : value ∈ object.references := by
  simp [HeapObject.references, pointers, Array.mem_of_getElem? found]

/-- What a field holds is among the references of its object. -/
theorem mem_references_of_fetch {object value : Value} {index : Nat}
    (found : heap.fetch object index = .ok value) :
    ∃ owner, heap.get? object = some owner ∧ value ∈ owner.references := by
  rcases fetch_eq_ok_iff.mp found with ⟨fields, readable, inside⟩
  rcases pointers_eq_ok_iff.mp readable with ⟨owner, here, pointers⟩
  exact ⟨owner, here, mem_references_of_getElem? pointers inside⟩

theorem pointerCount_of_pointers {object : Value} {fields : Array Value}
    (readable : heap.pointers object = .ok fields) : heap.pointerCount object = fields.size := by
  rcases pointers_eq_ok_iff.mp readable with ⟨owner, here, pointers⟩
  rw [HeapObject.pointers?] at pointers
  simp [pointerCount, here, HeapObject.pointerCount, Body.pointerCount, pointers]

theorem lt_pointerCount_of_fetch {object value : Value} {index : Nat}
    (found : heap.fetch object index = .ok value) : index < heap.pointerCount object := by
  rcases fetch_eq_ok_iff.mp found with ⟨fields, readable, inside⟩
  rw [pointerCount_of_pointers readable]
  exact (Array.getElem?_eq_some_iff.mp inside).1

theorem exists_pointers_of_lt_pointerCount {object : Value} {index : Nat}
    (inside : index < heap.pointerCount object) : ∃ fields, heap.pointers object = .ok fields := by
  cases here : heap.get? object with
  | none => simp [pointerCount, here] at inside
  | some owner =>
    cases held : owner.pointers? with
    | none =>
      rw [HeapObject.pointers?] at held
      simp [pointerCount, here, HeapObject.pointerCount, Body.pointerCount, held] at inside
    | some fields => exact ⟨fields, pointers_eq_ok_iff.mpr ⟨owner, here, held⟩⟩

/-- What a method dictionary answers stands in its second array, or is a field
of nil when it has none. -/
theorem methodAt?_eq_some {dictionary selector nil method : Value}
    (found : heap.methodAt? dictionary selector nil = .ok (some method)) :
    ∃ owner methods place, heap.get? dictionary = some owner ∧
      (methods ∈ owner.references ∨ methods = nil) ∧
      heap.fetch methods place = .ok method := by
  simp only [methodAt?] at found
  split at found
  · cases found
  · rename_i fields readable
    rcases Option.bind_eq_some_iff.mp readable with ⟨owner, here, pointers⟩
    split at found
    · cases found
    · split at found
      · cases found
      · rename_i place _
        rcases bind_eq_ok_iff.mp found with ⟨value, fetched, same⟩
        cases same
        refine ⟨owner, _, place, here, ?_, fetched⟩
        cases methods : fields[DictionaryField.methods]? with
        | none => exact .inr rfl
        | some methods => exact .inl (mem_references_of_getElem? pointers ‹_›)

/-! ## Writing -/

theorem store_eq_ok_iff {after : Heap} {object value : Value} {index : Nat} :
    heap.store object index value = .ok after ↔
      (∃ fields, heap.pointers object = .ok fields ∧ index < fields.size) ∧
        after = heap.setField object index value := by
  rw [Heap.store, bind_eq_ok_iff]
  constructor
  · intro ended
    rcases ended with ⟨fields, readable, written⟩
    split at written
    · cases written
      exact ⟨⟨fields, readable, ‹_›⟩, rfl⟩
    · cases written
  · intro ended
    rcases ended with ⟨⟨fields, readable, inside⟩, rfl⟩
    exact ⟨fields, readable, if_pos inside⟩

theorem live_update_iff (value : Value) (change : HeapObject → HeapObject) (slot : Nat) :
    (heap.update value change).Live slot ↔ heap.Live slot := by
  have same := heap.get?_update_same value change
  by_cases equal : value = .object slot
  · subst equal
    rw [get?_object, get?_object] at same
    rw [Live, same, Option.isSome_map, Live]
  · have other := heap.get?_update_other equal change
    rw [get?_object, get?_object] at other
    rw [Live, other, Live]

theorem table_update (value : Value) (change : HeapObject → HeapObject) :
    (heap.update value change).table = heap.table := by
  cases value <;> rfl

theorem free_update (value : Value) (change : HeapObject → HeapObject) :
    (heap.update value change).free = heap.free := by
  cases value <;> rfl

theorem consistent_update (consistent : heap.Consistent) (value : Value)
    (change : HeapObject → HeapObject) : (heap.update value change).Consistent := by
  apply consistent.transfer (table_update value change) (free_update value change)
    (live_update_iff value change)
  intro slot empty
  cases value with
  | small n => exact empty
  | object other => simp [update, updateCell, Array.getElem?_modify, empty]

/-- After an update a cell holds what it held, or the changed object. -/
theorem cell?_update_eq_some {value : Value} {change : HeapObject → HeapObject} {slot : Nat}
    {object : HeapObject} (found : (heap.update value change).cell? slot = some object) :
    heap.cell? slot = some object ∨
      value = .object slot ∧ ∃ old, heap.cell? slot = some old ∧ object = change old := by
  by_cases equal : value = .object slot
  · subst equal
    have same := heap.get?_update_same (.object slot) change
    rw [get?_object, get?_object, found] at same
    rcases Option.map_eq_some_iff.mp same.symm with ⟨old, here, rfl⟩
    exact .inr ⟨rfl, old, here, rfl⟩
  · have other := heap.get?_update_other equal change
    rw [get?_object, get?_object, found] at other
    exact .inl other.symm

/-! ## Reading what was written -/

theorem size_cells_setField (object value : Value) (index : Nat) :
    (heap.setField object index value).cells.size = heap.cells.size := by
  cases object with
  | small n => rfl
  | object slot => exact Array.size_modify ..

/-- A field is neither the class of its object nor its hash. -/
theorem get?_setField (object value : Value) (index : Nat) (other : Value) :
    (heap.setField object index value).get? other = heap.get? other ∨
      ∃ owner body, heap.get? other = some owner ∧
        (heap.setField object index value).get? other = some { owner with body } := by
  by_cases same : object = other
  · subst same
    have written : (heap.setField object index value).get? object = _ :=
      heap.get?_update_same object _
    cases here : heap.get? object with
    | none => exact .inl (written.trans (by rw [here, Option.map_none]))
    | some owner => exact .inr ⟨owner, _, rfl, written.trans (by rw [here, Option.map_some])⟩
  · exact .inl (heap.get?_update_other same _)

theorem get?_setField_congr {after : Heap} {other : Value}
    (same : after.get? other = heap.get? other) (object : Value) (index : Nat) (value : Value) :
    (after.setField object index value).get? other
      = (heap.setField object index value).get? other := by
  rw [setField, setField, updateBody, updateBody]
  by_cases here : object = other
  · subst here
    rw [get?_update_same, get?_update_same, same]
  · rw [get?_update_other _ here, get?_update_other _ here, same]

/-- What is written to fields is no text. -/
theorem bytes?_setField (object : Value) (index : Nat) (value other : Value) :
    ((heap.setField object index value).get? other).bind HeapObject.bytes?
      = (heap.get? other).bind HeapObject.bytes? := by
  by_cases same : object = other
  · subst same
    rw [setField, updateBody, get?_update_same, Option.bind_map]
    exact congrArg (Option.bind _) (funext fun owner => Body.bytes?_mapPointers _ owner.body)
  · rw [setField, updateBody, get?_update_other _ same]

theorem hashOf_setField (object value : Value) (index : Nat) (other : Value) :
    (heap.setField object index value).hashOf other = heap.hashOf other := by
  rcases get?_setField object value index other with same | ⟨owner, body, here, there⟩
  · rw [hashOf, hashOf, same]
  · rw [hashOf, hashOf, here, there, Option.map_some, Option.map_some]

theorem species_setField (object value : Value) (index : Nat) (other : Value) :
    ((heap.setField object index value).get? other).map HeapObject.species
      = (heap.get? other).map HeapObject.species := by
  rcases get?_setField object value index other with same | ⟨owner, body, here, there⟩
  · rw [same]
  · rw [here, there, Option.map_some, Option.map_some]

theorem pointerCount_setField (object value : Value) (index : Nat) (other : Value) :
    (heap.setField object index value).pointerCount other = heap.pointerCount other := by
  by_cases same : object = other
  · subst same
    rw [pointerCount, show (heap.setField object index value).get? object = _ from
      heap.get?_update_same object _, pointerCount]
    cases heap.get? object with
    | none => rfl
    | some owner =>
      simp only [Option.map_some, HeapObject.pointerCount, Body.pointerCount,
        Body.pointers?_mapPointers]
      cases owner.body.pointers? <;> simp
  · rw [pointerCount, show (heap.setField object index value).get? other = _ from
      heap.get?_update_other same _, pointerCount]

theorem pointers_setField_same (object : Value) (index : Nat) (value : Value) :
    (heap.setField object index value).pointers object
      = (heap.pointers object).map (·.setIfInBounds index value) := by
  have same : (heap.setField object index value).get? object = _ :=
    heap.get?_update_same object _
  rw [Heap.pointers, Heap.object, same, Heap.pointers, Heap.object]
  cases heap.get? object with
  | none => rfl
  | some owner =>
    simp only [Option.map_some, bind, Except.bind, HeapObject.pointers?, Body.pointers?_mapPointers]
    cases owner.body.pointers? <;> rfl

theorem pointers_setField_other {object other value : Value} {index : Nat}
    (different : object ≠ other) :
    (heap.setField object index value).pointers other = heap.pointers other := by
  have same : (heap.setField object index value).get? other = heap.get? other :=
    heap.get?_update_other different _
  rw [Heap.pointers, Heap.object, same, Heap.pointers, Heap.object]

theorem fetch_setField_same {object : Value} {index : Nat} {fields : Array Value}
    (readable : heap.pointers object = .ok fields) (inside : index < fields.size)
    (value : Value) :
    (heap.setField object index value).fetch object index = .ok value := by
  refine fetch_eq_ok_iff.mpr ⟨fields.setIfInBounds index value, ?_, by simp [inside]⟩
  rw [pointers_setField_same, readable]
  rfl

theorem eq_of_fetch_setField_same {object value found : Value} {index : Nat}
    (fetched : (heap.setField object index value).fetch object index = .ok found) :
    found = value := by
  rcases fetch_eq_ok_iff.mp fetched with ⟨fields, readable, inside⟩
  rw [pointers_setField_same] at readable
  cases before : heap.pointers object with
  | error error => simp [before, Except.map] at readable
  | ok old =>
    simp only [before, Except.map, Except.ok.injEq] at readable
    rw [← readable, Array.getElem?_setIfInBounds_self] at inside
    split at inside
    · exact (Option.some.inj inside).symm
    · cases inside

theorem fetch_setField_other {object other value : Value} {index place : Nat}
    (different : object ≠ other ∨ index ≠ place) :
    (heap.setField object index value).fetch other place = heap.fetch other place := by
  by_cases same : object = other
  · subst same
    have apart : index ≠ place := different.resolve_left fun absurd => absurd rfl
    rw [Heap.fetch, pointers_setField_same, Heap.fetch]
    cases heap.pointers object with
    | error error => rfl
    | ok fields => simp [Except.map, bind, Except.bind, Array.getElem?_setIfInBounds_ne apart]
  · rw [Heap.fetch, pointers_setField_other same, Heap.fetch]

/-! ## Writing twice -/

section

variable {object value : Value} {index : Nat}

theorem update_eq_self {change : HeapObject → HeapObject}
    (same : ∀ owner, heap.get? object = some owner → change owner = owner) :
    heap.update object change = heap := by
  cases object with
  | small n => rfl
  | object slot =>
    have cells : heap.cells.modify slot (·.map change) = heap.cells := by
      refine Array.ext_getElem? fun place => ?_
      rw [Array.getElem?_modify]
      split
      · rename_i here
        subst here
        cases cell : heap.cells[slot]? with
        | none => rfl
        | some content =>
          cases content with
          | none => rfl
          | some owner =>
            have found : heap.get? (.object slot) = some owner := by
              simp [get?, Value.slot?, cell?, cell]
            simp [same owner found]
      · rfl
    rw [update, updateCell, cells]

theorem update_update (object : Value) (first second : HeapObject → HeapObject) :
    (heap.update object first).update object second = heap.update object (second ∘ first) := by
  cases object with
  | small n => rfl
  | object slot =>
    have cells : (heap.cells.modify slot (·.map first)).modify slot (·.map second)
        = heap.cells.modify slot (·.map (second ∘ first)) := by
      refine Array.ext_getElem? fun place => ?_
      simp only [Array.getElem?_modify]
      split
      · simp [Function.comp_def]
      · rfl
    rw [update, update, update, updateCell, updateCell, updateCell, cells]

/-- What is there already is written again. -/
theorem setField_of_fetch (found : heap.fetch object index = .ok value) :
    heap.setField object index value = heap := by
  rcases fetch_eq_ok_iff.mp found with ⟨fields, readable, held⟩
  rcases pointers_eq_ok_iff.mp readable with ⟨owner, here, pointers⟩
  refine update_eq_self fun other again => ?_
  cases here.symm.trans again
  have same : fields.setIfInBounds index value = fields := by
    rcases Array.getElem?_eq_some_iff.mp held with ⟨inside, rfl⟩
    refine Array.ext_getElem? fun place => ?_
    rw [Array.getElem?_setIfInBounds]
    split
    · rename_i here
      subst here
      simp [inside]
    · rfl
  obtain ⟨species, format, hash, body⟩ := owner
  cases body <;> cases pointers <;> simp [Body.mapPointers, same]

/-- What is written over is lost. -/
theorem setField_setField (object : Value) (index : Nat) (first second : Value) :
    (heap.setField object index first).setField object index second
      = heap.setField object index second := by
  rw [setField, setField, setField, updateBody, updateBody, updateBody, update_update]
  congr 1
  funext owner
  obtain ⟨species, format, hash, body⟩ := owner
  cases body <;> simp [Body.mapPointers]

theorem fetch_setField_over {old : Value} (found : heap.fetch object index = .ok old)
    (value : Value) : (heap.setField object index value).fetch object index = .ok value := by
  rcases fetch_eq_ok_iff.mp found with ⟨fields, readable, held⟩
  rcases Array.getElem?_eq_some_iff.mp held with ⟨inside, -⟩
  exact fetch_setField_same readable inside value

end

end Heap

end Smalltalk
