import Smalltalk.Proofs.Heap.RegistrationOrder

namespace Smalltalk

/-! A walk through the instances of a class asks for the first one from the start of the table
on, then for the first one behind the position of the one before, and so on. It meets every
instance once, in the order in which they were registered, whatever position the heap remembers
from other walks. -/

namespace Heap

variable {heap before after : Heap} {species : Option Value}

/-! ## Positions -/

/-- What a list holds once has one position. -/
theorem position_unique {slots : List Nat} (nodup : slots.Nodup) {slot first second : Nat}
    (one : slots[first]? = some slot) (other : slots[second]? = some slot) : first = second := by
  apply (List.getElem?_inj (List.getElem?_eq_some_iff.mp one).1 nodup).mp
  rw [one, other]

/-- In a list that holds everything once, a search finds it where it is. -/
theorem findIdx?_eq_some_iff_of_nodup {slots : List Nat} (nodup : slots.Nodup)
    {slot position : Nat} :
    slots.findIdx? (· = slot) = some position ↔ slots[position]? = some slot := by
  rw [List.findIdx?_eq_some_iff_getElem]
  constructor
  · rintro ⟨inside, here, -⟩
    rw [List.getElem?_eq_getElem inside]
    simpa using here
  · intro here
    rcases List.getElem?_eq_some_iff.mp here with ⟨inside, same⟩
    refine ⟨inside, by simpa using same, ?_⟩
    intro other earlier again
    apply Nat.ne_of_gt earlier
    apply position_unique nodup here
    rw [List.getElem?_eq_getElem (Nat.lt_trans earlier inside)]
    simpa using again

/-- The position of an object does not depend on the one that the heap remembers. -/
theorem indexOf?_eq_some_iff (nodup : heap.table.toList.Nodup) {value : Value} {position : Nat} :
    heap.indexOf? value = some position ↔
      ∃ slot, value = .object slot ∧ heap.table[position]? = some slot := by
  cases value with
  | small bits => simp [indexOf?, Value.slot?]
  | object slot =>
    have searched : heap.indexOf? (.object slot) =
        if heap.table[heap.cursor]? = some slot then some heap.cursor
        else heap.table.toList.findIdx? (· = slot) := rfl
    simp only [Value.object.injEq, exists_eq_left', searched, ← Array.getElem?_toList]
    split
    · rename_i hint
      rw [Option.some.injEq]
      constructor
      · rintro rfl
        exact hint
      · exact position_unique nodup hint
    · exact findIdx?_eq_some_iff_of_nodup nodup

/-! ## The instances ahead -/

/-- The slots of the instances at or after a position of the table. -/
def instancesFrom (heap : Heap) (start : Nat) (species : Option Value) : List Nat :=
  (heap.table.toList.drop start).filter (heap.isInstance species)

theorem isInstance_iff {slot : Nat} (live : heap.Live slot) :
    heap.isInstance species slot ↔
      ∃ object, heap.cell? slot = some object ∧ ∀ wanted ∈ species, object.species = wanted := by
  rcases Option.isSome_iff_exists.mp live with ⟨object, found⟩
  cases species <;> simp [isInstance, found]

theorem nextInstance_of_nil {start : Nat} (none : heap.instancesFrom start species = []) :
    heap.nextInstance start species = (.none, heap) := by
  have missed : (heap.table.toList.drop start).findIdx? (heap.isInstance species) = .none := by
    rw [List.findIdx?_eq_none_iff]
    simpa [instancesFrom, List.filter_eq_nil_iff] using none
  rw [nextInstance, nextPosition?, missed]
  rfl

theorem nextInstance_of_cons {start slot : Nat} {rest : List Nat}
    (ahead : heap.instancesFrom start species = slot :: rest) :
    ∃ position, heap.nextInstance start species =
        (some (.object slot), { heap with cursor := position }) ∧
      heap.table[position]? = some slot ∧
      heap.instancesFrom (position + 1) species = rest := by
  rcases List.filter_eq_cons_iff.mp ahead with ⟨passed, onward, split, others, chosen, same⟩
  have first : (heap.table.toList.drop start).findIdx? (heap.isInstance species) =
      some passed.length := by
    rw [split, List.findIdx?_append, List.findIdx?_eq_none_iff.mpr (by simpa using others)]
    simp [List.findIdx?_cons, chosen]
  have here : heap.table[start + passed.length]? = some slot := by
    rw [← Array.getElem?_toList, ← List.getElem?_drop, split]
    simp
  have behind : heap.table.toList.drop (start + passed.length + 1) = onward := by
    rw [Nat.add_assoc, ← List.drop_drop, split]
    simp
  refine ⟨start + passed.length, ?_, here, ?_⟩
  · rw [nextInstance, nextPosition?, first]
    simp only [Option.map_some, here]
  · rw [instancesFrom, behind, same]

/-! ## Meanwhile -/

/-- Between two questions of a walk nothing is registered or collected, and every object stays
an instance of its class. -/
structure Quiet (before after : Heap) : Prop where
  table : after.table = before.table
  species : ∀ slot, (after.cell? slot).map (·.species) = (before.cell? slot).map (·.species)

theorem Quiet.refl (heap : Heap) : heap.Quiet heap := ⟨rfl, fun _ => rfl⟩

theorem Quiet.of_cursor (cursor : Nat) : heap.Quiet { heap with cursor } := ⟨rfl, fun _ => rfl⟩

theorem Quiet.trans {middle : Heap} (early : before.Quiet middle) (late : middle.Quiet after) :
    before.Quiet after :=
  ⟨late.table.trans early.table, fun slot => (late.species slot).trans (early.species slot)⟩

/-- A step of another walk may come between. -/
theorem quiet_nextInstance (start : Nat) (species : Option Value) :
    heap.Quiet (heap.nextInstance start species).2 := by
  rw [nextInstance]
  cases heap.nextPosition? start species with
  | none => exact .refl heap
  | some position => exact .of_cursor position

/-- A store to a field may come between. -/
theorem quiet_store {object value : Value} {index : Nat}
    (stored : heap.store object index value = .ok after) : heap.Quiet after := by
  rcases store_eq_ok_iff.mp stored with ⟨-, rfl⟩
  refine ⟨table_update object _, ?_⟩
  intro slot
  by_cases same : object = .object slot
  · rw [← get?_object, ← get?_object, ← same, setField, updateBody, get?_update_same,
      Option.map_map]
    rfl
  · rw [← get?_object, ← get?_object, setField, updateBody, get?_update_other heap same]

theorem Quiet.isInstance (quiet : before.Quiet after) :
    after.isInstance species = before.isInstance species := by
  have any (heap : Heap) (wanted : Value) (slot : Nat) :
      ((heap.cell? slot).any fun object => object.species = wanted) =
        ((heap.cell? slot).map (·.species)).any (· = wanted) := by
    rw [Option.any_map]
  funext slot
  cases species with
  | none => rfl
  | some wanted => simp only [Heap.isInstance, any, quiet.species slot]

theorem Quiet.instancesFrom (quiet : before.Quiet after) (start : Nat) :
    after.instancesFrom start species = before.instancesFrom start species := by
  rw [Heap.instancesFrom, Heap.instancesFrom, quiet.table, quiet.isInstance]

/-! ## The walk -/

/-- A walk from a position of the table meets these objects, one after the other, and ends. It
goes on from the position that the heap gives for the object it has met last, whatever has
quietly happened since. -/
def Visits (species : Option Value) : List Value → Heap → Nat → Prop
  | [], heap, start => (heap.nextInstance start species).1 = none
  | value :: values, heap, start =>
    (heap.nextInstance start species).1 = some value ∧
      ∀ later, (heap.nextInstance start species).2.Quiet later →
        ∃ position, later.indexOf? value = some position ∧
          Visits species values later (position + 1)

/-- A walk meets all the instances that are ahead of it. -/
theorem visits_instancesFrom (slots : List Nat) {start : Nat}
    (nodup : heap.table.toList.Nodup) (ahead : heap.instancesFrom start species = slots) :
    Visits species (slots.map .object) heap start := by
  induction slots generalizing heap start with
  | nil => rw [List.map_nil, Visits, nextInstance_of_nil ahead]
  | cons slot rest induction =>
    rcases nextInstance_of_cons ahead with ⟨position, found, here, onward⟩
    rw [List.map_cons, Visits, found]
    refine ⟨rfl, ?_⟩
    intro later quiet
    have unchanged := (Quiet.of_cursor position).trans quiet
    have listed : later.table.toList.Nodup := unchanged.table ▸ nodup
    refine ⟨position, ?_, ?_⟩
    · apply (indexOf?_eq_some_iff listed).mpr
      exact ⟨slot, rfl, unchanged.table ▸ here⟩
    · apply induction listed
      rw [unchanged.instancesFrom, onward]

theorem Visits.unique {first second : List Value} {start : Nat}
    (one : Visits species first heap start) (other : Visits species second heap start) :
    first = second := by
  induction first generalizing heap start second with
  | nil =>
    cases second with
    | nil => rfl
    | cons value values =>
      simp only [Visits] at one other
      rw [one] at other
      cases other.1
  | cons value values induction =>
    cases second with
    | nil =>
      simp only [Visits] at one other
      rw [other] at one
      cases one.1
    | cons again others =>
      simp only [Visits] at one other
      rcases one with ⟨found, onward⟩
      rcases other with ⟨same, further⟩
      rw [found, Option.some.injEq] at same
      rcases same
      rcases onward _ (.refl _) with ⟨position, index, left⟩
      rcases further _ (.refl _) with ⟨place, located, right⟩
      rw [index, Option.some.injEq] at located
      rcases located
      rw [induction left right]

/-- Enumeration is complete. After any calls of the heap, the position of every live object is
found, whatever position is remembered. A walk from the start for the instances of a class, or
for all objects, meets the live ones, each once, in the order of their registration, and ends;
steps of other walks and stores may come between its own. -/
theorem enumeration_complete {log : List Nat} (logged : heap.Logged log)
    (species : Option Value) :
    (∀ cursor value position, { heap with cursor }.indexOf? value = some position ↔
      ∃ slot, value = .object slot ∧ heap.table[position]? = some slot) ∧
    (∀ cursor slot, heap.Live slot → ({ heap with cursor }.indexOf? (.object slot)).isSome) ∧
    (∀ values, Visits species values heap 0 ↔
      values = (heap.instancesFrom 0 species).map .object) ∧
    (∀ slot, slot ∈ heap.instancesFrom 0 species ↔
      ∃ object, heap.cell? slot = some object ∧ ∀ wanted ∈ species, object.species = wanted) ∧
    (heap.instancesFrom 0 species).Nodup ∧
    ByRegistration log (heap.instancesFrom 0 species) := by
  rcases logged.byRegistration with ⟨consistent, listed⟩
  have within : (heap.instancesFrom 0 species).Sublist heap.table.toList := List.filter_sublist
  have position (cursor : Nat) (value : Value) (position : Nat) :
      { heap with cursor }.indexOf? value = some position ↔
        ∃ slot, value = .object slot ∧ heap.table[position]? = some slot := by
    apply indexOf?_eq_some_iff
    exact consistent.nodup
  refine ⟨position, ?_, ?_, ?_, consistent.nodup.sublist within, listed.sublist within⟩
  · intro cursor slot live
    rcases List.mem_iff_getElem?.mp (consistent.listed slot live) with ⟨place, here⟩
    rw [Array.getElem?_toList] at here
    rw [(position cursor (.object slot) place).mpr ⟨slot, rfl, here⟩]
    rfl
  · intro values
    have complete : Visits species ((heap.instancesFrom 0 species).map .object) heap 0 :=
      visits_instancesFrom _ consistent.nodup rfl
    constructor
    · exact fun visits => visits.unique complete
    · rintro rfl
      exact complete
  · intro slot
    rw [instancesFrom, List.drop_zero, List.mem_filter]
    constructor
    · rintro ⟨member, chosen⟩
      exact (isInstance_iff (consistent.live slot member)).mp chosen
    · intro instanced
      rcases instanced with ⟨object, found, same⟩
      have live : heap.Live slot := live_of_cell? found
      exact ⟨consistent.listed slot live, (isInstance_iff live).mpr ⟨object, found, same⟩⟩

/-- An object without fields. -/
def bareObject (species : Value) : HeapObject :=
  { species, format := Format.fixed, body := .pointers #[] }

/-- A new instance takes the first cell, which another object has left. A walk meets it behind
the older instance, although the position that an earlier walk has left is its own. -/
theorem enumeration_complete_reused :
    ∃ heap log, Logged heap log ∧ heap.cursor = 2 ∧ heap.table = #[1, 2, 0] ∧
      log = [0, 2, 1, 0] ∧ { heap with cursor := 7 }.indexOf? (.object 2) = some 1 ∧
      Visits (some (.object 1)) [.object 2, .object 0] heap 0 := by
  have other := (Logged.new .compact).call [Value.zero] (.register (bareObject .zero))
  have named := other.call [Value.object 0] (.register (bareObject .zero))
  have older := named.call [Value.object 0] (.register (bareObject (.object 1)))
  have left := older.call [Value.object 2] (.compact 0)
  have newer := left.call [Value.object 2] (.register (bareObject (.object 1)))
  have walked := newer.call [Value.zero] (.nextInstance 2 none)
  rcases enumeration_complete walked (some (.object 1)) with ⟨position, -, walk, -, -, -⟩
  refine ⟨_, _, walked, by decide +kernel, by decide +kernel, by decide +kernel, ?_, ?_⟩
  · exact (position 7 (.object 2) 1).mpr ⟨2, rfl, by decide +kernel⟩
  · exact (walk _).mpr (by decide +kernel)

end Heap

end Smalltalk
