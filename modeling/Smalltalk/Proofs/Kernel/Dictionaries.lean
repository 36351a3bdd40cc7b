import Smalltalk.Proofs.Kernel.Building
import Smalltalk.Proofs.Kernel.OpenTable

namespace Smalltalk

/-! The method dictionaries of a kernel under construction: what an insertion
and a growth make of the table that a dictionary holds. -/

/-- A tally counts the entries of a dictionary as far as a small integer can. -/
def Value.Tallies (tally : Value) (count : Nat) : Prop :=
  ∃ n, tally.int? = some n ∧ (count ≤ 1073741823 → n = count)

namespace Value.Tallies

variable {tally : Value} {count : Nat}

theorem zero : Value.zero.Tallies 0 := ⟨0, rfl, fun _ => rfl⟩

/-- The tally after one more entry. A count that is too large becomes zero. -/
theorem succ {n : Int} (counts : count ≤ 1073741823 → n = count) :
    (Value.ofInt (n + 1)).Tallies (count + 1) := by
  cases converted : SmallInt.ofInt? (n + 1) with
  | some small =>
    refine ⟨small.val, by simp [ofInt, converted, int?], fun fits => ?_⟩
    rw [SmallInt.ofInt?_eq_some.mp converted, counts (by omega)]
    rfl
  | none =>
    refine ⟨0, by simp [ofInt, converted]; rfl, fun fits => ?_⟩
    have := SmallInt.ofInt?_eq_none.mp converted
    rw [counts (by omega)] at this
    simp only [SmallInt.minimum, SmallInt.maximum] at this
    omega

end Value.Tallies

namespace Heap

/-- A dictionary and its method array hold a table; the dictionary has a tally. -/
structure HoldsTable (heap : Heap) (nil dictionary array tally : Value) (table : MethodTable) :
    Prop where
  fields : heap.pointers dictionary = .ok (#[tally, array] ++ table.selectors)
  methods : heap.pointers array = .ok table.methods
  apart : dictionary ≠ array
  sound : table.Sound heap.hashOf nil
  power : ∃ exponent, table.size = 2 ^ exponent
  named : ∀ (place : Nat) selector, table.selectors[place]? = some selector → selector ≠ nil →
    heap.Names selector

variable {heap before after : Heap} {nil dictionary array tally selector method : Value}
  {table : MethodTable} {place : Nat}

theorem size_fields (tally array : Value) (selectors : Array Value) :
    (#[tally, array] ++ selectors).size = DictionaryField.selectors + selectors.size :=
  Array.size_append

theorem getElem?_tally (tally array : Value) (selectors : Array Value) :
    (#[tally, array] ++ selectors)[DictionaryField.tally]? = some tally :=
  Array.getElem?_append_left (by simp [DictionaryField.tally])

theorem getElem?_methods (tally array : Value) (selectors : Array Value) :
    (#[tally, array] ++ selectors)[DictionaryField.methods]? = some array :=
  Array.getElem?_append_left (by simp [DictionaryField.methods])

theorem getElem?_behind (tally array : Value) (selectors : Array Value) (place : Nat) :
    (#[tally, array] ++ selectors)[DictionaryField.selectors + place]? = selectors[place]? := by
  rw [Array.getElem?_append_right (by simp [DictionaryField.selectors])]
  simp [DictionaryField.selectors]

theorem setIfInBounds_behind (tally array value : Value) (selectors : Array Value) (place : Nat) :
    (#[tally, array] ++ selectors).setIfInBounds (DictionaryField.selectors + place) value
      = #[tally, array] ++ selectors.setIfInBounds place value := by
  rw [Array.setIfInBounds_append_right (by simp [DictionaryField.selectors])]
  simp [DictionaryField.selectors]

theorem drop_selectors (tally array : Value) (selectors : Array Value) :
    (#[tally, array] ++ selectors).drop DictionaryField.selectors = selectors := by
  simp [DictionaryField.selectors]

namespace HoldsTable

section

variable (holds : heap.HoldsTable nil dictionary array tally table)

include holds

theorem names_dictionary : heap.Names dictionary := names_of_pointers holds.fields

theorem names_array : heap.Names array := names_of_pointers holds.methods

theorem size_pos : 0 < table.size := by
  obtain ⟨exponent, sized⟩ := holds.power
  rw [sized]
  exact Nat.two_pow_pos exponent

theorem pointerCount : heap.pointerCount dictionary - DictionaryField.selectors = table.size := by
  rw [pointerCount_of_pointers holds.fields, size_fields]
  exact Nat.add_sub_cancel_left ..

theorem fetch_tally : heap.fetch dictionary DictionaryField.tally = .ok tally :=
  fetch_eq_ok_iff.mpr ⟨_, holds.fields, getElem?_tally ..⟩

theorem fetch_methods : heap.fetch dictionary DictionaryField.methods = .ok array :=
  fetch_eq_ok_iff.mpr ⟨_, holds.fields, getElem?_methods ..⟩

theorem fetch_selector (held : table.selectors[place]? = some selector) :
    heap.fetch dictionary (DictionaryField.selectors + place) = .ok selector :=
  fetch_eq_ok_iff.mpr ⟨_, holds.fields, (getElem?_behind ..).trans held⟩

theorem fetch_method (stored : table.methods[place]? = some method) :
    heap.fetch array place = .ok method :=
  fetch_eq_ok_iff.mpr ⟨_, holds.methods, stored⟩

/-- The method that a dictionary answers is the one that its table has. -/
theorem methodAt?_of_answers (proper : selector ≠ nil) (answers : table.Answers selector method) :
    heap.methodAt? dictionary selector nil = .ok (some method) := by
  obtain ⟨owner, here, pointers⟩ := pointers_eq_ok_iff.mp holds.fields
  obtain ⟨place, searched, stored⟩ := holds.sound.search_of_answers proper answers
  have long : ¬ (#[tally, array] ++ table.selectors).size ≤ DictionaryField.selectors := by
    have positive : 0 < table.selectors.size := holds.size_pos
    rw [size_fields]
    omega
  rw [methodAt?, here, Option.bind_some, pointers]
  simp only [if_neg long, drop_selectors]
  rw [show table.selectors.size = table.size from rfl, searched]
  rw [getElem?_methods, Option.getD_some]
  simp only [holds.fetch_method stored]
  rfl

theorem methodAt?_of_not_answers (absent : ∀ method, ¬ table.Answers selector method) :
    heap.methodAt? dictionary selector nil = .ok none := by
  obtain ⟨owner, here, pointers⟩ := pointers_eq_ok_iff.mp holds.fields
  have searched := holds.sound.search_of_not_answers absent (heap.hashOf selector)
  rw [methodAt?, here, Option.bind_some, pointers]
  simp only [drop_selectors]
  rw [show table.selectors.size = table.size from rfl, searched]
  split <;> rfl

end

/-- What is written elsewhere leaves the table as it is. -/
theorem extend {written : Value → Prop} (holds : before.HoldsTable nil dictionary array tally table)
    (stays : before.Extends written after) (dictionaryStays : ¬ written dictionary)
    (arrayStays : ¬ written array) : after.HoldsTable nil dictionary array tally table where
  fields := (stays.pointers _ holds.names_dictionary dictionaryStays).trans holds.fields
  methods := (stays.pointers _ holds.names_array arrayStays).trans holds.methods
  apart := holds.apart
  sound := holds.sound.congr fun place selector held proper =>
    stays.hashes selector (holds.named place selector held proper)
  power := holds.power
  named place selector held proper := stays.names (holds.named place selector held proper)

theorem setTally (holds : heap.HoldsTable nil dictionary array tally table) (other : Value) :
    (heap.setField dictionary DictionaryField.tally other).HoldsTable nil dictionary array other
      table where
  fields := by
    rw [pointers_setField_same, holds.fields]
    simp [Except.map, DictionaryField.tally]
  methods := (pointers_setField_other holds.apart).trans holds.methods
  apart := holds.apart
  sound := holds.sound.congr fun _ value _ _ => hashOf_setField _ _ _ value
  power := holds.power
  named place selector held proper :=
    (Extends.setField ..).names (holds.named place selector held proper)

/-- The two writes that put a method under a selector. -/
theorem put (holds : heap.HoldsTable nil dictionary array tally table)
    (named : heap.Names selector)
    (ends : table.vacancy? nil selector
      (MethodDictionary.probes (heap.hashOf selector) table.size) = some place)
    (method : Value) :
    ((heap.setField dictionary (DictionaryField.selectors + place) selector).setField array place
      method).HoldsTable nil dictionary array tally (table.put place selector method) where
  fields := by
    rw [pointers_setField_other holds.apart.symm, pointers_setField_same, holds.fields,
      MethodTable.put, ← setIfInBounds_behind]
    rfl
  methods := by
    rw [pointers_setField_same, pointers_setField_other holds.apart, holds.methods]
    rfl
  apart := holds.apart
  sound := (holds.sound.put ends rfl method).congr fun _ value _ _ => by
    rw [hashOf_setField, hashOf_setField]
  power := by
    obtain ⟨exponent, sized⟩ := holds.power
    exact ⟨exponent, by rw [MethodTable.size_put, sized]⟩
  named other found held proper := by
    refine (Extends.setField ..).names ((Extends.setField ..).names ?_)
    by_cases same : place = other
    · subst same
      obtain rfl := Option.some.inj ((MethodTable.getElem?_put_same ends).symm.trans held)
      exact named
    · rw [MethodTable.getElem?_put_other same] at held
      exact holds.named other found held proper

end HoldsTable

end Heap

/-- Insertions have made a certain table of what a dictionary holds, and nothing
else has changed. -/
structure Kernel.Fills (before after : Kernel) (dictionary array : Value) (table : MethodTable) :
    Prop where
  keeps : before.Extends (fun value => value = dictionary ∨ value = array) after
  size : after.heap.cells.size = before.heap.cells.size
  holds : ∃ tally, after.heap.HoldsTable before.nil dictionary array tally table ∧
    tally.Tallies (table.used before.nil)

theorem Kernel.Fills.trans {before middle after : Kernel} {dictionary array : Value}
    {first second : MethodTable} (fills : before.Fills middle dictionary array first)
    (refills : middle.Fills after dictionary array second) :
    before.Fills after dictionary array second where
  keeps := fills.keeps.trans refills.keeps fun _ _ => id
  size := refills.size.trans fills.size
  holds := fills.keeps.nil ▸ refills.holds

namespace Build

variable {kernel : Kernel} {dictionary array tally selector method : Value} {table : MethodTable}
  {place : Nat}

theorem getNil_apply : getNil kernel = .ok kernel.nil kernel := rfl

/-! ## Insertion -/

theorem capacityOf_of_table
    (holds : kernel.heap.HoldsTable kernel.nil dictionary array tally table) :
    capacityOf dictionary kernel = .ok table.size kernel := by
  rw [capacityOf, bind_of_ok get_apply, holds.pointerCount]
  rfl

theorem fetchInt_of_tally {n : Int}
    (holds : kernel.heap.HoldsTable kernel.nil dictionary array tally table)
    (counted : tally.int? = some n) :
    fetchInt dictionary DictionaryField.tally kernel = .ok n kernel := by
  apply fetchInt_of_ok
  rw [Heap.fetchInt, holds.fetch_tally]
  simp [counted, bind, Except.bind]

theorem vacancy_of_table (holds : kernel.heap.HoldsTable kernel.nil dictionary array tally table)
    {places : List Nat} (inside : ∀ place ∈ places, place < table.size)
    (ends : table.vacancy? kernel.nil selector places = some place) :
    vacancy dictionary selector places kernel = .ok place kernel := by
  induction places with
  | nil => cases ends
  | cons first rest ih =>
    have here : first < table.selectors.size := inside first (List.mem_cons_self ..)
    have held : table.selectors[first]? = some table.selectors[first] :=
      Array.getElem?_eq_getElem here
    rw [vacancy, bind_of_ok (fetch_of_ok (holds.fetch_selector held)), bind_of_ok getNil_apply]
    rw [MethodTable.vacancy?, List.find?_cons] at ends
    by_cases stops : table.selectors[first] = selector ∨ table.selectors[first] = kernel.nil
    · rw [if_pos stops]
      simp only [held, Option.some.injEq, stops, decide_true] at ends
      cases ends
      rfl
    · rw [if_neg stops]
      simp only [held, Option.some.injEq, stops, decide_false] at ends
      exact ih (fun other member => inside other (List.mem_cons_of_mem _ member)) ends

/-- What an insertion does once the tally is right. -/
theorem enter_puts (holds : kernel.heap.HoldsTable kernel.nil dictionary array tally table)
    (named : kernel.heap.Names selector)
    (ends : table.vacancy? kernel.nil selector
      (MethodDictionary.probes (kernel.heap.hashOf selector) table.size) = some place)
    (method : Value) :
    ∃ after, (do
        store dictionary (DictionaryField.selectors + place) selector
        store (← fetch dictionary DictionaryField.methods) place method) kernel = .ok () after ∧
      kernel.Extends (fun value => value = dictionary ∨ value = array) after ∧
      after.heap.cells.size = kernel.heap.cells.size ∧
      after.heap.HoldsTable kernel.nil dictionary array tally (table.put place selector method) := by
  have inside : place < table.selectors.size := MethodTable.lt_of_vacancy ends
  have elsewhere : DictionaryField.selectors + place ≠ DictionaryField.methods := by
    simp only [DictionaryField.selectors, DictionaryField.methods]
    omega
  rw [bind_of_ok (store_of_inside holds.fields (by rw [Heap.size_fields]; omega) _)]
  set entered : Kernel := { kernel with
    heap := kernel.heap.setField dictionary (DictionaryField.selectors + place) selector }
  have methods : entered.heap.pointers array = .ok table.methods :=
    (Heap.pointers_setField_other holds.apart).trans holds.methods
  have fetched : entered.heap.fetch dictionary DictionaryField.methods = .ok array :=
    (Heap.fetch_setField_other (.inr elsewhere)).trans holds.fetch_methods
  rw [bind_of_ok (fetch_of_ok fetched),
    store_of_inside methods (by rw [holds.sound.paired]; exact inside)]
  refine ⟨_, rfl, ⟨?_, rfl, rfl, rfl, rfl⟩, ?_, holds.put named ends method⟩
  · exact ((Heap.Extends.setField ..).mono fun _ _ => .inl).trans (Heap.Extends.setField ..)
      fun _ _ => .inr
  · rw [Heap.size_cells_setField, Heap.size_cells_setField]

/-- An insertion puts the method at the first vacancy, and counts it when the
vacancy was empty. -/
theorem insertMethod_puts (holds : kernel.heap.HoldsTable kernel.nil dictionary array tally table)
    (tallies : tally.Tallies (table.used kernel.nil)) (named : kernel.heap.Names selector)
    (proper : selector ≠ kernel.nil)
    (ends : table.vacancy? kernel.nil selector
      (MethodDictionary.probes (kernel.heap.hashOf selector) table.size) = some place)
    (method : Value) :
    ∃ after, insertMethod dictionary selector method kernel = .ok () after ∧
      kernel.Fills after dictionary array (table.put place selector method) := by
  obtain ⟨exponent, sized⟩ := holds.power
  have visits := vacancy_of_table holds (fun _ => MethodTable.lt_of_mem_probes) ends
  rw [sized, ← MethodTable.insertion_probes] at visits
  rw [insertMethod, bind_of_ok (capacityOf_of_table holds), bind_of_ok get_apply, sized,
    bind_of_ok visits]
  rcases MethodTable.vacancy?_eq_some ends with held | vacant
  · rw [bind_of_ok (fetch_of_ok (holds.fetch_selector held)), bind_of_ok getNil_apply,
      if_neg proper]
    obtain ⟨after, enters, stays, size, holdsAfter⟩ := enter_puts holds named ends method
    exact ⟨after, enters, stays, size, tally, holdsAfter,
      by rwa [MethodTable.used_put_of_held held]⟩
  · obtain ⟨n, counted, counts⟩ := tallies
    rw [bind_of_ok (fetch_of_ok (holds.fetch_selector vacant)), bind_of_ok getNil_apply, if_pos rfl,
      bind_of_ok (fetchInt_of_tally holds counted),
      bind_of_ok (store_of_inside holds.fields
        (by rw [Heap.size_fields]; exact Nat.add_pos_left (by decide) _) _)]
    set tallied : Kernel :=
      { kernel with heap := kernel.heap.setField dictionary DictionaryField.tally (.ofInt (n + 1)) }
    have writes : kernel.Extends (fun value => value = dictionary ∨ value = array) tallied :=
      ⟨(Heap.Extends.setField ..).mono fun _ _ => .inl, rfl, rfl, rfl, rfl⟩
    have same : tallied.heap.hashOf selector = kernel.heap.hashOf selector :=
      Heap.hashOf_setField ..
    have holdsTallied : tallied.heap.HoldsTable tallied.nil dictionary array (.ofInt (n + 1)) table :=
      holds.setTally _
    obtain ⟨after, enters, stays, size, holdsAfter⟩ :=
      enter_puts holdsTallied (writes.heap.names named) (by rw [same]; exact ends) method
    refine ⟨after, enters, writes.trans stays fun _ _ => id,
      size.trans (Heap.size_cells_setField ..), .ofInt (n + 1), holdsAfter, ?_⟩
    rw [MethodTable.used_put_of_vacant vacant proper]
    exact .succ counts

/-! ## Growth -/

/-- An empty dictionary comes right after its method array. -/
theorem emptyDictionary_ensures (unused : kernel.heap.free = []) (exponent : Nat) :
    Ensures (emptyDictionary (2 ^ exponent)) kernel fun dictionary after =>
      dictionary = .object (kernel.heap.cells.size + 1) ∧
      after.heap.cells.size = kernel.heap.cells.size + 2 ∧
      kernel.Extends (fun _ => False) after ∧
      after.heap.HoldsTable kernel.nil dictionary (.object kernel.heap.cells.size) .zero
        (.empty (2 ^ exponent) kernel.nil) := by
  refine .bindOk getNil_apply (.bindOk rfl (.bind (allocate_ensures unused _ _ _) ?_))
  intro array middle arrayAdds
  obtain ⟨rfl, arrayKeeps, arraySize, -⟩ := id arrayAdds
  refine .bindOk rfl (.mono (allocate_ensures (arrayKeeps.heap.free.trans unused) _ _ _) ?_)
  intro dictionary after adds
  obtain ⟨next, keeps, size, -⟩ := id adds
  rw [arraySize] at next size
  refine ⟨next, size, arrayKeeps.trans keeps fun _ _ => id, ⟨adds.pointers, ?_, ?_, ?_, ?_, ?_⟩⟩
  · have named := Heap.names_of_pointers arrayAdds.pointers
    exact (keeps.heap.pointers _ named id).trans arrayAdds.pointers
  · rw [next]
    simp
  · exact MethodTable.sound_empty ..
  · exact ⟨exponent, MethodTable.size_empty ..⟩
  · intro place selector held proper
    rw [MethodTable.empty, Array.getElem?_replicate] at held
    split at held
    · exact absurd (Option.some.inj held).symm proper
    · cases held

/-- The entries of some places are inserted into another table, which has room
for them all. -/
theorem insertAll_copies {nil old oldArray oldTally : Value} {source : MethodTable}
    {copied : Nat → Prop} (places : List Nat) (nilStays : kernel.nil = nil)
    (sourceHolds : kernel.heap.HoldsTable nil old oldArray oldTally source)
    (holds : kernel.heap.HoldsTable nil dictionary array tally table)
    (tallies : tally.Tallies (table.used nil))
    (oldStays : ¬ (old = dictionary ∨ old = array))
    (oldArrayStays : ¬ (oldArray = dictionary ∨ oldArray = array))
    (inside : ∀ place ∈ places, place < source.size)
    (room : table.used nil + places.length < table.size)
    (copies : table.Copies source nil copied) :
    ∃ after filled, insertAll dictionary old oldArray places kernel = .ok () after ∧
      kernel.Fills after dictionary array filled ∧ filled.size = table.size ∧
      filled.used nil ≤ table.used nil + places.length ∧
      filled.Copies source nil fun place => copied place ∨ place ∈ places := by
  induction places generalizing kernel tally table copied with
  | nil =>
    exact ⟨kernel, table, rfl, ⟨.refl _ _, rfl, tally, nilStays ▸ holds, nilStays ▸ tallies⟩, rfl,
      Nat.le_refl _, by simpa using copies⟩
  | cons place rest ih =>
    subst nilStays
    rw [List.length_cons] at room
    have here : place < source.selectors.size := inside place (List.mem_cons_self ..)
    have insideRest := fun other member => inside other (List.mem_cons_of_mem place member)
    obtain ⟨selector, held⟩ : ∃ selector, source.selectors[place]? = some selector :=
      ⟨_, Array.getElem?_eq_getElem here⟩
    obtain ⟨method, stored⟩ : ∃ method, source.methods[place]? = some method :=
      ⟨_, Array.getElem?_eq_getElem (sourceHolds.sound.paired.symm ▸ here)⟩
    rw [insertAll, bind_of_ok (fetch_of_ok (sourceHolds.fetch_selector held)),
      bind_of_ok getNil_apply, List.length_cons]
    by_cases proper : selector ≠ kernel.nil
    · have vacant : table.used kernel.nil < table.size := by omega
      obtain ⟨free, ends⟩ :=
        MethodTable.exists_vacancy vacant selector (kernel.heap.hashOf selector)
      have taken : (table.put free selector method).used kernel.nil ≤ table.used kernel.nil + 1 :=
        MethodTable.used_put_le ends proper
      obtain ⟨middle, inserts, fills⟩ := insertMethod_puts holds tallies
        (sourceHolds.named place _ held proper) proper ends method
      obtain ⟨tally, holdsMiddle, talliesMiddle⟩ := fills.holds
      obtain ⟨after, filled, runs, refills, size, used, copiesAll⟩ :=
        ih fills.keeps.nil (sourceHolds.extend fills.keeps.heap oldStays oldArrayStays) holdsMiddle
          talliesMiddle insideRest (by rw [MethodTable.size_put]; omega)
          (copies.put holds.sound sourceHolds.sound held stored proper ends)
      rw [if_pos proper, bind_of_ok (fetch_of_ok (sourceHolds.fetch_method stored)),
        bind_of_ok inserts]
      exact ⟨after, filled, runs, fills.trans refills, size.trans (MethodTable.size_put ..),
        by omega, by simpa [or_assoc] using copiesAll⟩
    · rw [if_neg proper]
      obtain rfl := not_not.mp proper
      obtain ⟨after, filled, runs, fills, size, used, copiesAll⟩ :=
        ih rfl sourceHolds holds tallies insideRest (by omega) (copies.skip held)
      exact ⟨after, filled, runs, fills, size, by omega, by simpa [or_assoc] using copiesAll⟩

/-- A class gets a dictionary of twice the size with the same entries. -/
theorem growDictionary_ensures {species old oldArray oldTally : Value} {source : MethodTable}
    (unused : kernel.heap.free = [])
    (linked : kernel.heap.fetch species ClassField.methodDictionary = .ok old)
    (sourceHolds : kernel.heap.HoldsTable kernel.nil old oldArray oldTally source) :
    Ensures (growDictionary species old (source.size * 2)) kernel fun dictionary after =>
      dictionary = .object (kernel.heap.cells.size + 1) ∧
      after.heap.cells.size = kernel.heap.cells.size + 2 ∧
      kernel.Extends (fun value => value = species) after ∧
      after.heap.fetch species ClassField.methodDictionary = .ok dictionary ∧
      (∀ index, index ≠ ClassField.methodDictionary →
        after.heap.fetch species index = kernel.heap.fetch species index) ∧
      ∃ tally table,
        after.heap.HoldsTable kernel.nil dictionary (.object kernel.heap.cells.size) tally table ∧
        tally.Tallies (table.used kernel.nil) ∧ table.size = source.size * 2 ∧
        table.used kernel.nil ≤ source.size ∧
        ∀ selector method, selector ≠ kernel.nil →
          (table.Answers selector method ↔ source.Answers selector method) := by
  obtain ⟨exponent, sized⟩ := sourceHolds.power
  have doubled : source.size * 2 = 2 ^ (exponent + 1) := by rw [sized, Nat.pow_succ]
  have positive := sourceHolds.size_pos
  have speciesNamed := Heap.names_of_fetch linked
  rw [growDictionary, doubled]
  refine .bind (emptyDictionary_ensures unused _) fun dictionary middle made => ?_
  obtain ⟨rfl, size, keeps, holds⟩ := made
  have fresh {value : Value} (named : kernel.heap.Names value) :
      ¬ (value = .object (kernel.heap.cells.size + 1) ∨ value = .object kernel.heap.cells.size) :=
    not_or.mpr ⟨named.ne (Nat.le_succ _), named.ne (Nat.le_refl _)⟩
  have sourceMiddle := sourceHolds.extend keeps.heap id id
  have emptyUsed := MethodTable.used_empty (2 ^ (exponent + 1)) kernel.nil
  obtain ⟨filled, table, runs, fills, tableSize, used, copies⟩ :=
    insertAll_copies (List.range source.size) keeps.nil sourceMiddle holds
      (emptyUsed ▸ .zero) (fresh sourceHolds.names_dictionary)
      (fresh sourceHolds.names_array) (fun _ => List.mem_range.mp)
      (by rw [emptyUsed, MethodTable.size_empty, List.length_range]; omega)
      (MethodTable.Copies.empty _ source _)
  rw [emptyUsed, List.length_range, Nat.zero_add] at used
  obtain ⟨tally, filledHolds, tallies⟩ := fills.holds
  rw [keeps.nil] at filledHolds tallies
  rw [← keeps.nil] at sourceMiddle
  refine .bindOk (fetch_of_ok sourceMiddle.fetch_methods)
    (.bindOk (capacityOf_of_table sourceMiddle) (.bindOk runs ?_))
  have unlinked : kernel.Extends (fun _ => False) filled :=
    keeps.trans fills.keeps fun _ named touched => absurd touched (fresh named)
  obtain ⟨fields, readable, held⟩ := Heap.fetch_eq_ok_iff.mp
    ((unlinked.heap.fetch speciesNamed id _).trans linked)
  have inside := (Array.getElem?_eq_some_iff.mp held).1
  refine .bindOk (store_of_inside readable inside _) (.pure ?_)
  have stays := Heap.Extends.setField filled.heap species ClassField.methodDictionary
    (.object (kernel.heap.cells.size + 1))
  refine ⟨rfl, (Heap.size_cells_setField ..).trans (fills.size.trans size),
    (unlinked.mono fun _ _ => False.elim).trans ⟨stays, rfl, rfl, rfl, rfl⟩ fun _ _ => id,
    Heap.fetch_setField_same readable inside _, fun index other => ?_, tally, table, ?_, tallies,
    tableSize.trans (MethodTable.size_empty ..), used, fun selector method proper => ?_⟩
  · exact (Heap.fetch_setField_other (.inr other.symm)).trans
      (unlinked.heap.fetch speciesNamed id index)
  · exact filledHolds.extend stays (speciesNamed.ne (Nat.le_succ _)).symm
      (speciesNamed.ne (Nat.le_refl _)).symm
  · exact copies.answers_iff (fun place inside => .inr (List.mem_range.mpr inside)) proper

end Build

end Smalltalk
