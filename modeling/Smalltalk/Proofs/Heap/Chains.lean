import Mathlib.Data.List.Chain
import Mathlib.Data.List.Perm.Subperm
import Mathlib.Logic.Relation
import Smalltalk.Proofs.Heap.Access

namespace Smalltalk

/-! A heap has only so many cells: who follows references through more objects than that
has come back to one of them. -/

namespace Value

variable {follows : Value → Value → Prop} {start value : Value}

/-- Who follows a relation from a value on comes into a circle. -/
def EntersCircle (follows : Value → Value → Prop) (start : Value) : Prop :=
  ∃ value, Relation.ReflTransGen follows start value ∧ Relation.TransGen follows value value

theorem EntersCircle.of_reached (circle : value.EntersCircle follows)
    (reached : Relation.ReflTransGen follows start value) : start.EntersCircle follows := by
  rcases circle with ⟨around, further, leads⟩
  exact ⟨around, reached.trans further, leads⟩

theorem reached_of_mem {values : List Value} (chain : (start :: values).IsChain follows)
    (member : value ∈ start :: values) : Relation.ReflTransGen follows start value := by
  have ordered : (start :: values).Pairwise (Relation.ReflTransGen follows) :=
    (chain.imp fun _ _ => Relation.ReflTransGen.single).pairwise
  rcases List.mem_cons.mp member with rfl | inside
  · exact .refl
  · exact List.rel_of_pairwise_cons ordered inside

end Value

namespace Heap

variable {heap : Heap}

/-- Distinct objects whose slots are listed are no more than the list is long. -/
theorem length_le_of_listed {values : List Value} {slots : List Nat} (distinct : values.Nodup)
    (listed : ∀ value ∈ values, ∃ slot ∈ slots, value = .object slot) :
    values.length ≤ slots.length := by
  have counted : (values.filterMap Value.slot?).length = values.length := by
    rw [List.length_filterMap_eq_countP, List.countP_eq_length]
    intro value member
    rcases listed value member with ⟨slot, -, rfl⟩
    rfl
  have apart : (values.filterMap Value.slot?).Nodup := by
    apply distinct.filterMap
    intro first second slot one other
    cases first <;> cases second <;> simp_all [Value.slot?]
  have among : values.filterMap Value.slot? ⊆ slots := by
    intro slot member
    rcases List.mem_filterMap.mp member with ⟨value, inside, named⟩
    rcases listed value inside with ⟨other, here, rfl⟩
    cases named
    exact here
  exact counted ▸ (apart.subperm among).length_le

/-- Distinct objects that are there are no more than there are cells. -/
theorem length_le_of_nodup {values : List Value} (distinct : values.Nodup)
    (live : ∀ value ∈ values, ∃ slot, value = .object slot ∧ heap.Live slot) :
    values.length ≤ heap.cells.size := by
  have few : values.length ≤ (List.range heap.cells.size).length := by
    refine length_le_of_listed distinct fun value member => ?_
    rcases live value member with ⟨slot, rfl, here⟩
    exact ⟨slot, List.mem_range.mpr here.lt_size, rfl⟩
  rwa [List.length_range] at few

/-- What is read from is an object that is there. -/
theorem live_of_get? {value : Value} {object : HeapObject} (here : heap.get? value = some object) :
    ∃ slot, value = .object slot ∧ heap.Live slot := by
  cases value with
  | small n => cases here
  | object slot => exact ⟨slot, rfl, live_of_cell? here⟩

/-- A chain through more objects than there are cells comes into a circle. -/
theorem entersCircle_of_long {follows : Value → Value → Prop} {start : Value} {values : List Value}
    (chain : (start :: values).IsChain follows)
    (live : ∀ value ∈ start :: values, ∃ object, heap.get? value = some object)
    (long : heap.cells.size ≤ values.length) : start.EntersCircle follows := by
  by_contra acyclic
  have ordered : (start :: values).Pairwise (Relation.TransGen follows) :=
    (chain.imp fun _ _ => Relation.TransGen.single).pairwise
  have distinct : (start :: values).Nodup := by
    refine List.Pairwise.imp_of_mem ?_ ordered
    rintro first second member - leads rfl
    exact acyclic ⟨first, Value.reached_of_mem chain member, leads⟩
  have few := length_le_of_nodup distinct fun value member => by
    rcases live value member with ⟨object, here⟩
    exact live_of_get? here
  rw [List.length_cons] at few
  omega

end Heap

end Smalltalk
