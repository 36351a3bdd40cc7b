import Mathlib.Algebra.Group.Nat.Defs
import Mathlib.Data.List.Nodup
import Mathlib.Data.List.Perm.Subperm
import Smalltalk.MethodDictionary

namespace Smalltalk

/-! A method dictionary apart from the heap that it stands in: selectors and
methods at numbered places. A selector is put at the first of its probes that
holds it or is empty, and every selector in the table is found there again. -/

/-- The selectors and the methods of a method dictionary. -/
structure MethodTable where
  selectors : Array Value
  methods : Array Value

namespace MethodTable

/-- A table with nothing in it. -/
def empty (capacity : Nat) (nil : Value) : MethodTable :=
  ⟨Array.replicate capacity nil, Array.replicate capacity nil⟩

/-- The number of places. -/
def size (table : MethodTable) : Nat := table.selectors.size

/-- The first of some places that holds a selector or is empty. -/
def vacancy? (table : MethodTable) (nil selector : Value) (places : List Nat) : Option Nat :=
  places.find? fun place =>
    table.selectors[place]? = some selector ∨ table.selectors[place]? = some nil

/-- Put a method under a selector at a place. -/
def put (table : MethodTable) (place : Nat) (selector method : Value) : MethodTable :=
  { selectors := table.selectors.setIfInBounds place selector
    methods := table.methods.setIfInBounds place method }

/-- The number of places that are not empty. -/
def used (table : MethodTable) (nil : Value) : Nat := table.selectors.countP (· ≠ nil)

/-- The table has a method under a selector. -/
def Answers (table : MethodTable) (selector method : Value) : Prop :=
  ∃ place : Nat, table.selectors[place]? = some selector ∧ table.methods[place]? = some method

/-- Every selector stands where the search for it ends, so no probe before it is
empty. -/
structure Sound (table : MethodTable) (hash : Value → Nat) (nil : Value) : Prop where
  paired : table.methods.size = table.selectors.size
  found : ∀ place selector, table.selectors[place]? = some selector → selector ≠ nil →
    table.vacancy? nil selector (MethodDictionary.probes (hash selector) table.size) = some place

variable {table : MethodTable} {hash : Value → Nat} {nil selector method : Value} {place : Nat}

theorem sound_empty (capacity : Nat) (hash : Value → Nat) (nil : Value) :
    (empty capacity nil).Sound hash nil where
  paired := by simp [empty]
  found place selector held proper := by
    rw [empty, Array.getElem?_replicate] at held
    split at held
    · exact absurd (Option.some.inj held).symm proper
    · cases held

theorem Sound.congr {other : Value → Nat} (sound : table.Sound hash nil)
    (same : ∀ (place : Nat) selector, table.selectors[place]? = some selector → selector ≠ nil →
      other selector = hash selector) : table.Sound other nil where
  paired := sound.paired
  found place selector held proper := by
    rw [same place selector held proper]
    exact sound.found place selector held proper

@[simp] theorem size_empty (capacity : Nat) (nil : Value) : (empty capacity nil).size = capacity := by
  simp [empty, size]

@[simp] theorem size_put (table : MethodTable) (place : Nat) (selector method : Value) :
    (table.put place selector method).size = table.size := by
  simp [put, size]

/-! ## Probes -/

theorem lt_of_mem_probes {start capacity : Nat} {place : Nat}
    (visited : place ∈ MethodDictionary.probes start capacity) : place < capacity := by
  rw [MethodDictionary.probes, List.mem_append] at visited
  rcases visited with ahead | again
  · rw [List.mem_range'_1] at ahead
    omega
  · exact List.mem_range.mp again

theorem mem_probes {start capacity : Nat} (inside : place < capacity) :
    place ∈ MethodDictionary.probes start capacity :=
  List.mem_append_right _ (List.mem_range.mpr inside)

theorem ceilingPowerOfTwo_two_pow (exponent : Nat) :
    MethodDictionary.ceilingPowerOfTwo (2 ^ exponent) = 2 ^ exponent := by
  rw [MethodDictionary.ceilingPowerOfTwo]
  cases exponent with
  | zero => rfl
  | succ exponent =>
    have large : ¬ 2 ^ (exponent + 1) ≤ 1 := by
      have := Nat.one_lt_two_pow (Nat.succ_ne_zero exponent)
      omega
    rw [if_neg large, Nat.shiftLeft_eq, Nat.one_mul]
    congr 2
    exact (Nat.log2_eq_iff (by omega)).mpr ⟨by rw [Nat.pow_succ]; omega, by omega⟩

/-- When the number of places is a power of two, an insertion visits them as a
search does. -/
theorem insertion_probes (start exponent : Nat) :
    let first := start % MethodDictionary.ceilingPowerOfTwo (2 ^ exponent)
    first :: List.range' (first + 1) (2 ^ exponent - (first + 1)) ++ List.range (2 ^ exponent)
      = MethodDictionary.probes start (2 ^ exponent) := by
  intro first
  have inside : first < 2 ^ exponent := by
    rw [show first = start % 2 ^ exponent by rw [← ceilingPowerOfTwo_two_pow exponent]]
    exact Nat.mod_lt start (Nat.two_pow_pos exponent)
  have starts : MethodDictionary.startOf start (2 ^ exponent) = first := if_pos inside
  obtain ⟨rest, counted⟩ : ∃ rest, 2 ^ exponent - first = rest + 1 :=
    ⟨2 ^ exponent - (first + 1), by omega⟩
  rw [MethodDictionary.probes, starts, counted, List.range'_succ]
  congr 3
  omega

/-! ## Searching -/

theorem vacancy?_eq_some {places : List Nat}
    (ends : table.vacancy? nil selector places = some place) :
    table.selectors[place]? = some selector ∨ table.selectors[place]? = some nil := by
  simpa using List.find?_some ends

/-- As long as a place is empty, there is room for any selector. -/
theorem exists_vacancy (room : table.used nil < table.size) (selector : Value) (start : Nat) :
    ∃ place, table.vacancy? nil selector (MethodDictionary.probes start table.size)
      = some place := by
  have unfilled : ¬ ∀ candidate ∈ table.selectors, candidate ≠ nil := by
    intro filled
    have counted := Array.countP_eq_size.mpr fun candidate member =>
      decide_eq_true (filled candidate member)
    rw [used, counted, size] at room
    exact Nat.lt_irrefl _ room
  simp only [not_forall, not_not] at unfilled
  obtain ⟨_, member, rfl⟩ := unfilled
  obtain ⟨place, inside, held⟩ := Array.mem_iff_getElem.mp member
  refine Option.isSome_iff_exists.mp (List.find?_isSome.mpr ⟨place, mem_probes inside, ?_⟩)
  simp [inside, held]

/-- A search ends where an insertion would, and succeeds when the selector is
there. -/
theorem search_eq {places : List Nat} (inside : ∀ place ∈ places, place < table.size) :
    MethodDictionary.search table.selectors selector nil places
      = (table.vacancy? nil selector places).filter
          fun place => table.selectors[place]? = some selector := by
  induction places with
  | nil => rfl
  | cons place rest ih =>
    have here : place < table.selectors.size := inside place (List.mem_cons_self ..)
    have continues := ih fun other member => inside other (List.mem_cons_of_mem _ member)
    rw [MethodDictionary.search, vacancy?, List.find?_cons]
    by_cases same : table.selectors[place] = selector
    · simp [here, same, Option.filter]
    · by_cases vacant : table.selectors[place] = nil
      · have absent : nil ≠ selector := fun equal => same (vacant.trans equal)
        simp [here, vacant, absent, Option.filter]
      · simpa [here, same, vacant, vacancy?] using continues

namespace Sound

/-- A selector stands at one place only. -/
theorem unique (sound : table.Sound hash nil) {other : Nat} (proper : selector ≠ nil)
    (here : table.selectors[place]? = some selector)
    (there : table.selectors[other]? = some selector) : place = other :=
  Option.some.inj
    ((sound.found place selector here proper).symm.trans (sound.found other selector there proper))

theorem search_of_answers (sound : table.Sound hash nil) (proper : selector ≠ nil)
    (answers : table.Answers selector method) :
    ∃ place, MethodDictionary.search table.selectors selector nil
        (MethodDictionary.probes (hash selector) table.size) = some place ∧
      table.methods[place]? = some method := by
  obtain ⟨place, held, stored⟩ := answers
  refine ⟨place, ?_, stored⟩
  rw [search_eq fun _ => lt_of_mem_probes, sound.found place selector held proper]
  simp [held]

theorem search_of_not_answers (sound : table.Sound hash nil)
    (absent : ∀ method, ¬ table.Answers selector method) (start : Nat) :
    MethodDictionary.search table.selectors selector nil
      (MethodDictionary.probes start table.size) = none := by
  rw [search_eq fun _ => lt_of_mem_probes, Option.filter_eq_none_iff]
  intro place _ held
  have holds : table.selectors[place]? = some selector := of_decide_eq_true held
  have inside : place < table.methods.size := by
    rw [sound.paired]
    exact (Array.getElem?_eq_some_iff.mp holds).1
  exact absent _ ⟨place, holds, Array.getElem?_eq_getElem inside⟩

end Sound

/-! ## Putting -/

section

variable {start : Nat}
  (ends : table.vacancy? nil selector (MethodDictionary.probes start table.size) = some place)

include ends

theorem lt_of_vacancy : place < table.selectors.size :=
  lt_of_mem_probes (List.mem_of_find?_eq_some ends)

theorem getElem?_put_same : (table.put place selector method).selectors[place]? = some selector := by
  simp [put, lt_of_vacancy ends]

omit ends in
theorem getElem?_put_other {other : Nat} (different : place ≠ other) :
    (table.put place selector method).selectors[other]? = table.selectors[other]? := by
  simp [put, Array.getElem?_setIfInBounds_ne different]

/-- What stands in the table keeps its place when the first vacancy is filled:
the vacancy was not before it, or it would have ended there. -/
theorem Sound.put (sound : table.Sound hash nil) (starts : hash selector = start)
    (method : Value) :
    (table.put place selector method).Sound hash nil where
  paired := by simpa [MethodTable.put] using sound.paired
  found other found held distinct := by
    rw [size_put]
    by_cases same : place = other
    · -- the search for the new selector passes what it passed before
      subst same
      obtain rfl := Option.some.inj ((getElem?_put_same ends).symm.trans held)
      subst starts
      obtain ⟨-, before, after, split, passed⟩ := List.find?_eq_some_iff_append.mp ends
      refine List.find?_eq_some_iff_append.mpr
        ⟨by simp [getElem?_put_same ends], before, after, split, fun visited member => ?_⟩
      have elsewhere : place ≠ visited := by
        rintro rfl
        have := passed _ member
        rcases vacancy?_eq_some ends with holds | vacant <;> simp_all
      simpa [getElem?_put_other elsewhere] using passed visited member
    · rw [getElem?_put_other same] at held
      obtain ⟨-, before, after, split, passed⟩ :=
        List.find?_eq_some_iff_append.mp (sound.found other found held distinct)
      refine List.find?_eq_some_iff_append.mpr
        ⟨by simp [getElem?_put_other same, held], before, after, split, fun visited member => ?_⟩
      by_cases here : place = visited
      · -- a place that was passed was not empty, so it held the selector already
        subst here
        have occupied := passed place member
        rcases vacancy?_eq_some ends with holds | vacant
        · simpa [getElem?_put_same ends, holds] using occupied
        · simp [vacant] at occupied
      · simpa [getElem?_put_other here] using passed visited member

theorem Sound.answers_put_same (sound : table.Sound hash nil) (starts : hash selector = start)
    (proper : selector ≠ nil) {found : Value} :
    (table.put place selector method).Answers selector found ↔ found = method := by
  have inside : place < table.methods.size := by
    rw [sound.paired]
    exact lt_of_vacancy ends
  have stored : (table.put place selector method).methods[place]? = some method := by
    simp [MethodTable.put, inside]
  constructor
  · intro answers
    obtain ⟨other, held, here⟩ := answers
    obtain rfl := (sound.put ends starts method).unique proper held (getElem?_put_same ends)
    exact Option.some.inj (here.symm.trans stored)
  · rintro rfl
    exact ⟨place, getElem?_put_same ends, stored⟩

theorem answers_put_other {other found : Value} (different : other ≠ selector)
    (proper : other ≠ nil) :
    (table.put place selector method).Answers other found ↔ table.Answers other found := by
  refine exists_congr fun visited => ?_
  by_cases here : place = visited
  · subst here
    rw [getElem?_put_same ends]
    constructor
    · exact fun answers => absurd (Option.some.inj answers.1).symm different
    · intro answers
      rcases vacancy?_eq_some ends with holds | vacant
      · exact absurd (Option.some.inj (answers.1.symm.trans holds)) different
      · exact absurd (Option.some.inj (answers.1.symm.trans vacant)) proper
  · rw [getElem?_put_other here]
    simp [MethodTable.put, Array.getElem?_setIfInBounds_ne here]

omit ends in
/-- A method that takes the place of another one needs no room. -/
theorem used_put_of_held (held : table.selectors[place]? = some selector) :
    (table.put place selector method).used nil = table.used nil := by
  have same : table.selectors.setIfInBounds place selector = table.selectors := by
    obtain ⟨inside, rfl⟩ := Array.getElem?_eq_some_iff.mp held
    rw [Array.setIfInBounds, dif_pos inside, Array.set_getElem_self]
  rw [used, MethodTable.put, same, used]

omit ends in
theorem used_put_of_vacant (vacant : table.selectors[place]? = some nil)
    (proper : selector ≠ nil) :
    (table.put place selector method).used nil = table.used nil + 1 := by
  obtain ⟨inside, held⟩ := Array.getElem?_eq_some_iff.mp vacant
  have set : table.selectors.setIfInBounds place selector = table.selectors.set place selector := by
    rw [Array.setIfInBounds, dif_pos inside]
  rw [used, MethodTable.put, set, Array.countP_set inside]
  simp [held, proper, used]

end

/-! ## Copying -/

/-- A table has the entries that stand at certain places of another one. -/
def Copies (table source : MethodTable) (nil : Value) (places : Nat → Prop) : Prop :=
  ∀ selector method, selector ≠ nil → (table.Answers selector method ↔
    ∃ place : Nat, places place ∧ source.selectors[place]? = some selector ∧
      source.methods[place]? = some method)

namespace Copies

variable {source : MethodTable} {places : Nat → Prop} {done : Nat}

theorem empty (capacity : Nat) (source : MethodTable) (nil : Value) :
    (MethodTable.empty capacity nil).Copies source nil fun _ => False := by
  intro selector method proper
  constructor
  · intro answers
    obtain ⟨place, held, -⟩ := answers
    rw [MethodTable.empty, Array.getElem?_replicate] at held
    split at held
    · exact absurd (Option.some.inj held).symm proper
    · cases held
  · intro copied
    obtain ⟨_, absurd, _⟩ := copied
    exact absurd.elim

/-- An empty place has no entry. -/
theorem skip (copies : table.Copies source nil places) (vacant : source.selectors[done]? = some nil) :
    table.Copies source nil fun place => places place ∨ place = done := by
  intro selector method proper
  rw [copies selector method proper]
  refine exists_congr fun place => and_congr_left fun held => (or_iff_left ?_).symm
  rintro rfl
  exact proper (Option.some.inj (held.1.symm.trans vacant))

theorem put (copies : table.Copies source nil places) (sound : table.Sound hash nil)
    (sourceSound : source.Sound hash nil) (held : source.selectors[done]? = some selector)
    (stored : source.methods[done]? = some method) (proper : selector ≠ nil)
    (ends : table.vacancy? nil selector (MethodDictionary.probes (hash selector) table.size)
      = some place) :
    (table.put place selector method).Copies source nil
      fun place => places place ∨ place = done := by
  intro other found distinct
  by_cases same : other = selector
  · subst same
    rw [sound.answers_put_same ends rfl proper]
    constructor
    · rintro rfl
      exact ⟨done, .inr rfl, held, stored⟩
    · intro copied
      obtain ⟨place, -, here, there⟩ := copied
      obtain rfl := sourceSound.unique proper here held
      exact Option.some.inj (there.symm.trans stored)
  · rw [answers_put_other ends same distinct, copies other found distinct]
    refine exists_congr fun place => and_congr_left fun here => (or_iff_left ?_).symm
    rintro rfl
    exact same (Option.some.inj (here.1.symm.trans held))

/-- The entries of all places are all entries. -/
theorem answers_iff (copies : table.Copies source nil places)
    (everywhere : ∀ place < source.size, places place) (proper : selector ≠ nil) :
    table.Answers selector method ↔ source.Answers selector method := by
  rw [copies selector method proper]
  refine exists_congr fun place => and_iff_right_of_imp fun held => everywhere place ?_
  exact (Array.getElem?_eq_some_iff.mp held.1).1

end Copies

/-! ## Counting -/

/-- An insertion takes at most one place. -/
theorem used_put_le {start : Nat}
    (ends : table.vacancy? nil selector (MethodDictionary.probes start table.size) = some place)
    (proper : selector ≠ nil) :
    (table.put place selector method).used nil ≤ table.used nil + 1 := by
  rcases vacancy?_eq_some ends with held | vacant
  · rw [used_put_of_held held]
    exact Nat.le_succ _
  · exact Nat.le_of_eq (used_put_of_vacant vacant proper)

theorem used_empty (capacity : Nat) (nil : Value) : (empty capacity nil).used nil = 0 := by
  simp [used, empty]

/-- The selectors of a table are different objects, and nil is one more. -/
theorem Sound.used_lt (sound : table.Sound hash nil) {bound : Nat}
    (nilInside : ∃ slot, slot < bound ∧ nil = .object slot)
    (inside : ∀ (place : Nat) selector, table.selectors[place]? = some selector → selector ≠ nil →
      ∃ slot, slot < bound ∧ selector = .object slot) : table.used nil < bound := by
  have distinct : (table.selectors.toList.filter (· ≠ nil)).Nodup := by
    rw [List.Nodup, List.pairwise_filter, List.pairwise_iff_getElem]
    intro first second firstInside secondInside before proper _ equal
    have here : table.selectors[first]? = some table.selectors.toList[first] := by
      rw [← Array.getElem?_toList, List.getElem?_eq_getElem firstInside]
    have there : table.selectors[second]? = some table.selectors.toList[first] := by
      rw [equal, ← Array.getElem?_toList, List.getElem?_eq_getElem secondInside]
    have same := sound.unique (of_decide_eq_true proper) here there
    omega
  have slots : nil :: table.selectors.toList.filter (· ≠ nil)
      ⊆ (List.range bound).map Value.object := by
    intro value member
    rw [List.mem_map]
    rcases List.mem_cons.mp member with rfl | listed
    · obtain ⟨slot, lower, rfl⟩ := nilInside
      exact ⟨slot, List.mem_range.mpr lower, rfl⟩
    · obtain ⟨stands, proper⟩ := List.mem_filter.mp listed
      obtain ⟨place, here⟩ := Array.mem_iff_getElem?.mp (Array.mem_toList_iff.mp stands)
      obtain ⟨slot, lower, rfl⟩ := inside place value here (of_decide_eq_true proper)
      exact ⟨slot, List.mem_range.mpr lower, rfl⟩
  have withNil : (nil :: table.selectors.toList.filter (· ≠ nil)).Nodup :=
    List.nodup_cons.mpr ⟨by simp, distinct⟩
  have counted := withNil.length_le_of_subset slots
  rw [List.length_cons, List.length_map, List.length_range, ← List.countP_eq_length_filter] at counted
  rwa [used, ← Array.countP_toList]

end MethodTable

end Smalltalk
