import Smalltalk.Proofs.Kernel.OpenTable
import Smalltalk.Proofs.Lookup.Kept

namespace Smalltalk

/-! What a search through a method dictionary comes to, whatever the dictionary looks like: it
may be full, have selectors twice, or have a number of places that is no power of two. The
places are taken in cyclic order. The first one that holds the selector decides, unless an
empty one comes before it; going through the beginning a second time finds nothing more. -/

namespace MethodDictionary

/-! ## Cyclic order -/

/-- The place at a distance from another one, going on around the end. -/
def placeAfter (capacity start distance : Nat) : Nat := (start + distance) % capacity

/-- All places in cyclic order. -/
def cycle (capacity start : Nat) : List Nat := (List.range capacity).map (placeAfter capacity start)

variable {capacity start : Nat}

theorem cycle_eq_append (inside : start < capacity) :
    cycle capacity start = List.range' start (capacity - start) ++ List.range start := by
  apply List.ext_getElem
  · simp only [cycle, List.length_map, List.length_range, List.length_append, List.length_range']
    omega
  · intro distance early late
    simp only [cycle, List.length_map, List.length_range] at early
    simp only [cycle, List.getElem_map, List.getElem_range, placeAfter]
    by_cases ahead : distance < capacity - start
    · rw [List.getElem_append_left (by simpa using ahead), List.getElem_range', Nat.one_mul]
      exact Nat.mod_eq_of_lt (by omega)
    · rw [List.getElem_append_right (by simpa using ahead), List.getElem_range,
        List.length_range', Nat.mod_eq_sub_mod (by omega), Nat.mod_eq_of_lt (by omega)]
      omega

theorem startOf_lt (hash : Nat) (positive : 0 < capacity) : startOf hash capacity < capacity := by
  rw [startOf]
  split <;> assumption

/-- A search visits all places in cyclic order, and those from its start on once more. -/
theorem probes_eq_append (hash : Nat) (positive : 0 < capacity) :
    probes hash capacity = cycle capacity (startOf hash capacity) ++
      List.range' (startOf hash capacity) (capacity - startOf hash capacity) := by
  have inside := startOf_lt hash positive
  have whole : List.range capacity = List.range (startOf hash capacity) ++
      List.range' (startOf hash capacity) (capacity - startOf hash capacity) := by
    rw [List.range_eq_range', List.range_eq_range']
    conv_lhs => rw [← Nat.add_sub_cancel' inside.le]
    rw [← List.range'_append_1, Nat.zero_add]
  rw [probes, cycle_eq_append inside, whole, List.append_assoc]

theorem length_probes_le (hash capacity : Nat) : (probes hash capacity).length ≤ 2 * capacity := by
  rw [probes, List.length_append, List.length_range', List.length_range]
  omega

/-- The size of the mask is the least power of two that leaves no place out. -/
theorem ceilingPowerOfTwo_least (n : Nat) :
    ∃ exponent, ceilingPowerOfTwo n = 2 ^ exponent ∧
      ∀ smaller < exponent, 2 ^ smaller < n := by
  rw [ceilingPowerOfTwo]
  split
  · exact ⟨0, rfl, fun smaller less => absurd less (Nat.not_lt_zero smaller)⟩
  · refine ⟨(n - 1).log2 + 1, by rw [Nat.shiftLeft_eq, Nat.one_mul], fun smaller less => ?_⟩
    have reached : 2 ^ (n - 1).log2 ≤ n - 1 := Nat.log2_self_le (by omega)
    have below : 2 ^ smaller ≤ 2 ^ (n - 1).log2 :=
      Nat.pow_le_pow_right (by decide) (Nat.le_of_lt_succ less)
    omega

/-! ## Searching -/

/-- A selector is met at a distance from a start: neither it nor an empty place comes before. -/
structure Meets (selectors : Array Value) (selector nil : Value) (start distance : Nat) : Prop where
  inside : distance < selectors.size
  held : selectors[placeAfter selectors.size start distance]? = some selector
  passed : ∀ earlier < distance, ∀ other,
    selectors[placeAfter selectors.size start earlier]? = some other →
      other ≠ selector ∧ other ≠ nil

variable {selectors : Array Value} {selector nil : Value} {places again : List Nat}

/-- Visiting places again changes nothing. -/
theorem search_append_again (inside : ∀ place ∈ places, place < selectors.size)
    (visited : ∀ place ∈ again, place ∈ places) :
    search selectors selector nil (places ++ again) = search selectors selector nil places := by
  let table : MethodTable := ⟨selectors, #[]⟩
  have once := @MethodTable.search_eq table nil selector places inside
  have twice := @MethodTable.search_eq table nil selector (places ++ again) fun place member =>
    (List.mem_append.mp member).elim (inside place) fun later => inside place (visited place later)
  change search table.selectors selector nil _ = search table.selectors selector nil _
  rw [once, twice]
  congr 1
  rw [MethodTable.vacancy?, List.find?_append, MethodTable.vacancy?]
  cases stops : List.find? (fun place => decide (table.selectors[place]? = some selector ∨
      table.selectors[place]? = some nil)) places with
  | some place => rfl
  | none =>
    rw [Option.none_or, List.find?_eq_none]
    exact fun place member => List.find?_eq_none.mp stops place (visited place member)

theorem search_cycle_eq_some_iff (inside : start < selectors.size) {place : Nat} :
    search selectors selector nil (cycle selectors.size start) = some place ↔
      ∃ distance, Meets selectors selector nil start distance ∧
        place = placeAfter selectors.size start distance := by
  let table : MethodTable := ⟨selectors, #[]⟩
  have bounded (distance : Nat) : placeAfter selectors.size start distance < selectors.size :=
    Nat.mod_lt _ (by omega)
  have within : ∀ place ∈ cycle selectors.size start, place < table.size := by
    intro place member
    rcases List.mem_map.mp member with ⟨distance, -, rfl⟩
    exact bounded distance
  have searched := @MethodTable.search_eq table nil selector _ within
  change search table.selectors selector nil _ = _ ↔ _
  rw [searched, Option.filter_eq_some_iff, MethodTable.vacancy?, cycle, List.find?_map,
    Option.map_eq_some_iff]
  simp only [List.find?_range_eq_some, Function.comp_apply, decide_eq_true_eq, List.mem_range,
    Bool.not_eq_true', decide_eq_false_iff_not, not_or]
  constructor
  · rintro ⟨⟨distance, ⟨-, short, passed⟩, rfl⟩, held⟩
    refine ⟨distance, ⟨short, held, fun earlier before other here => ?_⟩, rfl⟩
    rcases passed earlier before with ⟨elsewhere, used⟩
    exact ⟨fun same => elsewhere (same ▸ here), fun same => used (same ▸ here)⟩
  · rintro ⟨distance, meets, rfl⟩
    refine ⟨⟨distance, ⟨.inl meets.held, meets.inside, fun earlier before => ?_⟩, rfl⟩, meets.held⟩
    constructor
    · exact fun here => (meets.passed earlier before _ here).1 rfl
    · exact fun here => (meets.passed earlier before _ here).2 rfl

/-- What a search finds is where the selector is met. -/
theorem search_probes_eq_some_iff (hash : Nat) {place : Nat} :
    search selectors selector nil (probes hash selectors.size) = some place ↔
      ∃ distance, Meets selectors selector nil (startOf hash selectors.size) distance ∧
        place = placeAfter selectors.size (startOf hash selectors.size) distance := by
  by_cases positive : 0 < selectors.size
  · have inside := startOf_lt hash positive
    have all : ∀ place ∈ cycle selectors.size (startOf hash selectors.size),
        place < selectors.size := by
      intro place member
      rcases List.mem_map.mp member with ⟨distance, -, rfl⟩
      exact Nat.mod_lt _ positive
    rw [probes_eq_append hash positive, search_append_again all, search_cycle_eq_some_iff inside]
    intro place member
    rw [cycle_eq_append inside]
    exact List.mem_append_left _ member
  · have nowhere : selectors.size = 0 := by omega
    have unvisited : probes hash selectors.size = [] := by simp [nowhere, probes]
    rw [unvisited, search]
    constructor
    · intro found
      cases found
    · rintro ⟨distance, meets, -⟩
      exact absurd meets.inside (by omega)

example : search #[.object 1, .object 2, .object 1] (.object 2) (.object 0) (probes 2 3) = some 1 := by
  decide

end MethodDictionary

namespace Heap

open MethodDictionary

/-- The fields of an object; what has none is taken for one without fields. -/
def fields (heap : Heap) (object : Value) : Array Value :=
  ((heap.get? object).bind HeapObject.pointers?).getD #[]

/-- The places of a dictionary, which hold selectors or are empty. -/
def selectors (heap : Heap) (dictionary : Value) : Array Value :=
  (heap.fields dictionary).drop DictionaryField.selectors

/-- The place where the search for a selector starts. -/
def searchStart (heap : Heap) (dictionary selector : Value) : Nat :=
  startOf (heap.hashOf selector) (heap.selectors dictionary).size

/-- The place at a distance from the start of a search is the first that holds the selector, and
no empty place comes before it. -/
def MeetsAt (heap : Heap) (dictionary selector nil : Value) (distance place : Nat) : Prop :=
  Meets (heap.selectors dictionary) selector nil (heap.searchStart dictionary selector) distance ∧
    place = placeAfter (heap.selectors dictionary).size (heap.searchStart dictionary selector) distance

variable {heap : Heap} {dictionary selector nil method methods : Value}

theorem fields_eq (heap : Heap) (object : Value) :
    heap.fields object = (heap.pointers object).toOption.getD #[] := by
  rw [fields, toOption_pointers]

theorem getElem?_fields_eq_some_iff {object value : Value} {index : Nat} :
    (heap.fields object)[index]? = some value ↔ heap.fetch object index = .ok value := by
  rw [fields_eq, fetch_eq_ok_iff]
  cases heap.pointers object <;> simp [Except.toOption]

@[simp] theorem size_selectors (heap : Heap) (dictionary : Value) :
    (heap.selectors dictionary).size
      = (heap.fields dictionary).size - DictionaryField.selectors := by
  simp [selectors, Array.drop_eq_extract]

/-- What a dictionary answers for a selector is decided by the place that its search finds. -/
theorem methodAt?_eq (heap : Heap) (dictionary selector nil : Value) :
    heap.methodAt? dictionary selector nil =
      match search (heap.selectors dictionary) selector nil
        (probes (heap.hashOf selector) (heap.selectors dictionary).size) with
      | none => .ok none
      | some place =>
        (heap.fetch ((heap.fields dictionary)[DictionaryField.methods]?.getD nil) place).map some := by
  by_cases long : DictionaryField.selectors < (heap.fields dictionary).size
  · cases readable : heap.pointers dictionary with
    | error error => simp [fields_eq, readable, Except.toOption] at long
    | ok fields =>
      have same : heap.fields dictionary = fields := by
        rw [fields_eq, readable]
        rfl
      rcases methodAt?_of_long readable (same ▸ long) with ⟨methods, stored, answered⟩
      rw [← same] at answered
      rw [getElem?_fields_eq_some_iff.mpr stored]
      exact answered
  · have none : (heap.selectors dictionary).size = 0 := by
      rw [size_selectors]
      omega
    have unvisited : probes (heap.hashOf selector) (heap.selectors dictionary).size = [] := by
      simp [none, probes]
    rw [unvisited, search, methodAt?_of_short]
    intro fields readable
    simpa [fields_eq, readable, Except.toOption] using long

theorem search_eq_some_iff_meetsAt {place : Nat} :
    search (heap.selectors dictionary) selector nil
        (probes (heap.hashOf selector) (heap.selectors dictionary).size) = some place ↔
      ∃ distance, heap.MeetsAt dictionary selector nil distance place :=
  search_probes_eq_some_iff _

/-- Where a dictionary has a selector, it has a field for the array of methods, too. -/
theorem MeetsAt.exists_methods {distance place : Nat}
    (meets : heap.MeetsAt dictionary selector nil distance place) :
    ∃ methods, (heap.fields dictionary)[DictionaryField.methods]? = some methods := by
  have inside := meets.1.inside
  rw [size_selectors] at inside
  have early : DictionaryField.methods < (heap.fields dictionary).size := by
    simp only [DictionaryField.selectors, DictionaryField.methods] at inside ⊢
    omega
  exact ⟨_, Array.getElem?_eq_getElem early⟩

theorem MeetsAt.methodAt?_eq {distance place : Nat}
    (meets : heap.MeetsAt dictionary selector nil distance place)
    (stored : (heap.fields dictionary)[DictionaryField.methods]? = some methods) :
    heap.methodAt? dictionary selector nil = (heap.fetch methods place).map some := by
  rw [Heap.methodAt?_eq, search_eq_some_iff_meetsAt.mpr ⟨distance, meets⟩, stored]
  rfl

/-- A dictionary answers nothing when the selector is not met. -/
theorem methodAt?_eq_none_iff :
    heap.methodAt? dictionary selector nil = .ok none ↔
      ∀ distance place, ¬ heap.MeetsAt dictionary selector nil distance place := by
  constructor
  · intro nothing distance place meets
    rcases meets.exists_methods with ⟨methods, stored⟩
    rw [meets.methodAt?_eq stored] at nothing
    cases fetched : heap.fetch methods place <;> rw [fetched] at nothing <;> cases nothing
  · intro never
    have missing : search (heap.selectors dictionary) selector nil
        (probes (heap.hashOf selector) (heap.selectors dictionary).size) = none := by
      rw [Option.eq_none_iff_forall_ne_some]
      intro place found
      rcases search_eq_some_iff_meetsAt.mp found with ⟨distance, meets⟩
      exact never distance place meets
    rw [methodAt?_eq, missing]

/-- A dictionary that does not answer nothing has met the selector. -/
theorem exists_meetsAt (answers : heap.methodAt? dictionary selector nil ≠ .ok none) :
    ∃ distance place methods, heap.MeetsAt dictionary selector nil distance place ∧
      (heap.fields dictionary)[DictionaryField.methods]? = some methods ∧
      heap.methodAt? dictionary selector nil = (heap.fetch methods place).map some := by
  rw [Ne, methodAt?_eq_none_iff] at answers
  push Not at answers
  rcases answers with ⟨distance, place, meets⟩
  rcases meets.exists_methods with ⟨methods, stored⟩
  exact ⟨distance, place, methods, meets, stored, meets.methodAt?_eq stored⟩

theorem methodAt?_eq_some_iff :
    heap.methodAt? dictionary selector nil = .ok (some method) ↔
      ∃ distance place methods, heap.MeetsAt dictionary selector nil distance place ∧
        (heap.fields dictionary)[DictionaryField.methods]? = some methods ∧
        (heap.fields methods)[place]? = some method := by
  constructor
  · intro found
    rcases exists_meetsAt (by rw [found]; exact nofun) with
      ⟨distance, place, methods, meets, stored, answered⟩
    refine ⟨distance, place, methods, meets, stored, getElem?_fields_eq_some_iff.mpr ?_⟩
    rw [found] at answered
    cases fetched : heap.fetch methods place <;> rw [fetched] at answered <;> cases answered
    rfl
  · rintro ⟨distance, place, methods, meets, stored, held⟩
    rw [meets.methodAt?_eq stored, getElem?_fields_eq_some_iff.mp held]
    rfl

theorem methodAt?_fails_iff :
    (∃ error, heap.methodAt? dictionary selector nil = .error error) ↔
      ∃ distance place methods, heap.MeetsAt dictionary selector nil distance place ∧
        (heap.fields dictionary)[DictionaryField.methods]? = some methods ∧
        (heap.fields methods)[place]? = none := by
  constructor
  · rintro ⟨error, failed⟩
    rcases exists_meetsAt (by rw [failed]; exact nofun) with
      ⟨distance, place, methods, meets, stored, answered⟩
    refine ⟨distance, place, methods, meets, stored, ?_⟩
    rw [Option.eq_none_iff_forall_ne_some]
    intro method held
    rw [failed, getElem?_fields_eq_some_iff.mp held] at answered
    cases answered
  · rintro ⟨distance, place, methods, meets, stored, lacking⟩
    rw [meets.methodAt?_eq stored]
    cases fetched : heap.fetch methods place with
    | error error => exact ⟨error, rfl⟩
    | ok method =>
      rw [getElem?_fields_eq_some_iff.mpr fetched] at lacking
      cases lacking

/-- A search through any dictionary ends, after at most twice as many steps as there are places,
and stays inside the dictionary. It takes the places in cyclic order from the place that the
hash of the selector names under the least mask that leaves no place out, or from the first one
when that place is past the end. It answers the method for the first place with the selector, if
there is one and no empty place comes before it, and nothing otherwise. It fails only when the
array of methods has no entry for that place. -/
theorem dictionary_answers_first_in_cycle (heap : Heap) (dictionary selector nil : Value) :
    let hash := heap.hashOf selector
    let capacity := (heap.selectors dictionary).size
    ((probes hash capacity).length ≤ 2 * capacity ∧ ∀ place ∈ probes hash capacity,
      DictionaryField.selectors + place < (heap.fields dictionary).size) ∧
    (∃ exponent, capacity ≤ 2 ^ exponent ∧ (∀ smaller < exponent, 2 ^ smaller < capacity) ∧
      heap.searchStart dictionary selector =
        if hash % 2 ^ exponent < capacity then hash % 2 ^ exponent else 0) ∧
    (∀ method, heap.methodAt? dictionary selector nil = .ok (some method) ↔
      ∃ distance place methods, heap.MeetsAt dictionary selector nil distance place ∧
        (heap.fields dictionary)[DictionaryField.methods]? = some methods ∧
        (heap.fields methods)[place]? = some method) ∧
    (heap.methodAt? dictionary selector nil = .ok none ↔
      ∀ distance place, ¬ heap.MeetsAt dictionary selector nil distance place) ∧
    ((∃ error, heap.methodAt? dictionary selector nil = .error error) ↔
      ∃ distance place methods, heap.MeetsAt dictionary selector nil distance place ∧
        (heap.fields dictionary)[DictionaryField.methods]? = some methods ∧
        (heap.fields methods)[place]? = none) := by
  intro hash capacity
  refine ⟨⟨length_probes_le _ _, fun place member => ?_⟩, ?_, fun _ => methodAt?_eq_some_iff,
    methodAt?_eq_none_iff, methodAt?_fails_iff⟩
  · have inside : place < capacity := MethodTable.lt_of_mem_probes member
    simp only [capacity, size_selectors] at inside
    omega
  · rcases ceilingPowerOfTwo_least capacity with ⟨exponent, mask, least⟩
    refine ⟨exponent, mask ▸ le_ceilingPowerOfTwo _, least, ?_⟩
    rw [searchStart, startOf, mask]

/-- A heap whose last object is a dictionary of three places. None of them is empty, and two have
the same selector. -/
def fullDictionaryHeap : Heap :=
  let selector (hash : Nat) : HeapObject :=
    { species := .object 0, format := 1, hash, body := .pointers #[] }
  let fields (values : Array Value) : HeapObject :=
    { species := .object 0, format := 1, body := .pointers values }
  { cells := #[
      some (fields #[]), some (selector 3), some (selector 2),
      some (fields #[.object 10, .object 20, .object 30]),
      some (fields #[.object 0, .object 3, .object 1, .object 2, .object 1])]
    table := #[0, 1, 2, 3, 4]
    capacity := 8, limit := 8, growth := 0, attempts := 0 }

/-- A search that starts at the last place goes on at the first one. -/
theorem dictionary_answers_first_in_cycle_full :
    fullDictionaryHeap.methodAt? (.object 4) (.object 2) (.object 0) = .ok (some (.object 20)) := by
  have passed : ∀ earlier < 2,
      (fullDictionaryHeap.selectors (.object 4))[placeAfter 3 2 earlier]? = some (.object 1) := by
    decide
  refine ((dictionary_answers_first_in_cycle fullDictionaryHeap (.object 4) (.object 2)
    (.object 0)).2.2.1 _).mpr
    ⟨2, 1, .object 3, ⟨⟨by decide, by decide, fun earlier before other held => ?_⟩, by decide⟩,
      by decide, by decide⟩
  rw [← Option.some.inj ((passed earlier before).symm.trans held)]
  decide

end Heap

end Smalltalk
