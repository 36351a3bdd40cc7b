import Smalltalk.Machine.Lookup
import Smalltalk.Proofs.Heap.Chains
import Smalltalk.Proofs.Machine.Evaluation

namespace Smalltalk

/-! What the superclasses of a class answer for a selector, as a relation on the
heap that knows nothing of caches and counts no rounds. A walk through a chain of
superclasses that ends computes exactly it. -/

namespace Heap

/-- What the method dictionary of a class itself has for a selector. -/
def ownMethod (heap : Heap) (selector nil species : Value) :
    Except MemoryError (Option Value) := do
  heap.methodAt? (← heap.fetch species ClassField.methodDictionary) selector nil

/-- What the walk from a class finds for a selector: the method of the nearest
class that has one, nothing, or the error that keeps it from going on. -/
inductive Walks (heap : Heap) (selector nil : Value) :
    Value → Except MemoryError (Option Value) → Prop
  | ended : Walks heap selector nil nil (.ok none)
  | own {species method : Value} (proper : species ≠ nil)
      (found : heap.ownMethod selector nil species = .ok (some method)) :
      Walks heap selector nil species (.ok (some method))
  | unsearchable {species : Value} {error : MemoryError} (proper : species ≠ nil)
      (failed : heap.ownMethod selector nil species = .error error) :
      Walks heap selector nil species (.error error)
  | inherited {species above : Value} {answer : Except MemoryError (Option Value)}
      (proper : species ≠ nil) (missing : heap.ownMethod selector nil species = .ok none)
      (next : heap.fetch species ClassField.superclass = .ok above)
      (walks : Walks heap selector nil above answer) :
      Walks heap selector nil species answer
  | cutOff {species : Value} {error : MemoryError} (proper : species ≠ nil)
      (missing : heap.ownMethod selector nil species = .ok none)
      (failed : heap.fetch species ClassField.superclass = .error error) :
      Walks heap selector nil species (.error error)

/-- The classes from one up to the last of its superclasses. A class whose
superclass cannot be read is the last one, too. -/
inductive Lineage (heap : Heap) (nil : Value) : Value → List Value → Prop
  | ended : Lineage heap nil nil []
  | inherits {species above : Value} {rest : List Value} (proper : species ≠ nil)
      (next : heap.fetch species ClassField.superclass = .ok above)
      (lineage : Lineage heap nil above rest) : Lineage heap nil species (species :: rest)
  | cutOff {species : Value} {error : MemoryError} (proper : species ≠ nil)
      (failed : heap.fetch species ClassField.superclass = .error error) :
      Lineage heap nil species [species]

/-- Whether following the superclasses of a class comes to an end. -/
def HasLineage (heap : Heap) (nil species : Value) : Prop :=
  ∃ classes, heap.Lineage nil species classes

variable {heap : Heap} {selector nil species : Value}

/-! ## Walks -/

theorem Walks.unique {answer other : Except MemoryError (Option Value)}
    (walks : heap.Walks selector nil species answer)
    (again : heap.Walks selector nil species other) : other = answer := by
  induction walks with
  | ended => cases again <;> first | rfl | contradiction
  | own _ found => cases again <;> simp_all
  | unsearchable _ failed => cases again <;> simp_all
  | inherited _ missing next _ induction =>
    cases again with
    | ended => contradiction
    | own _ found => simp_all
    | unsearchable _ failed => simp_all
    | inherited _ _ other walks =>
      rw [next] at other
      cases other
      exact induction walks
    | cutOff _ _ failed => simp_all
  | cutOff _ missing failed => cases again <;> simp_all

/-! ## Lineages -/

namespace Lineage

variable {classes other : List Value}

theorem unique (lineage : heap.Lineage nil species classes)
    (again : heap.Lineage nil species other) : other = classes := by
  induction lineage generalizing other with
  | ended => cases again <;> first | rfl | contradiction
  | inherits _ next _ induction =>
    cases again with
    | ended => contradiction
    | inherits _ another rest =>
      rw [next] at another
      cases another
      rw [induction rest]
    | cutOff _ failed => simp_all
  | cutOff _ failed => cases again <;> simp_all

theorem of_mem (lineage : heap.Lineage nil species classes) {middle : Value}
    (member : middle ∈ classes) :
    ∃ rest, heap.Lineage nil middle rest ∧ rest.length ≤ classes.length := by
  induction lineage with
  | ended => cases member
  | @inherits species above rest proper next lineage induction =>
    rcases List.mem_cons.mp member with rfl | inside
    · exact ⟨_, .inherits proper next lineage, le_refl _⟩
    · rcases induction inside with ⟨later, again, bound⟩
      exact ⟨later, again, bound.trans (Nat.le_succ _)⟩
  | cutOff proper failed =>
    rcases List.mem_singleton.mp member with rfl
    exact ⟨_, .cutOff proper failed, le_refl _⟩

/-- No class is its own proper superclass, or the lineage would not end. -/
theorem nodup (lineage : heap.Lineage nil species classes) : classes.Nodup := by
  induction lineage with
  | ended => exact List.nodup_nil
  | @inherits species above rest proper next lineage induction =>
    refine List.nodup_cons.mpr ⟨fun member => ?_, induction⟩
    rcases lineage.of_mem member with ⟨later, again, bound⟩
    have same := (Lineage.inherits proper next lineage).unique again
    rw [same, List.length_cons] at bound
    omega
  | cutOff => exact List.nodup_singleton _

/-- All classes but the last are objects that are there. -/
theorem live (lineage : heap.Lineage nil species classes) :
    ∀ middle ∈ classes.dropLast, ∃ slot, middle = .object slot ∧ heap.Live slot := by
  induction lineage with
  | ended => simp
  | @inherits species above rest _ next _ induction =>
    intro middle member
    have either : middle = species ∨ middle ∈ rest.dropLast := by
      cases rest with
      | nil => simp at member
      | cons first later => simpa using member
    rcases either with rfl | inside
    · rcases mem_references_of_fetch next with ⟨owner, here, -⟩
      cases middle with
      | small n => cases here
      | object slot => exact ⟨slot, rfl, live_of_cell? here⟩
    · exact induction middle inside
  | cutOff => simp

/-- A lineage has at most one class more than the heap has cells. -/
theorem length_le (lineage : heap.Lineage nil species classes) :
    classes.length ≤ heap.cells.size + 1 := by
  have few := length_le_of_nodup (lineage.nodup.sublist (List.dropLast_sublist _)) lineage.live
  rw [List.length_dropLast] at few
  omega

end Lineage

end Heap

/-! ## The walk as a computation -/

namespace Machine

/-- The same machine with other counts of its method cache. -/
def withCacheCounts (machine : Machine) (counts : CacheCounts) : Machine :=
  { machine with registers.methodCache.counts := counts }

end Machine

namespace Run

variable {machine : Machine} {selector species : Value}

theorem methodFrom_nil (budget : Nat) :
    methodFrom selector budget machine.registers.specials.nil machine = .ok none machine := by
  rw [methodFrom, bind_ok getNil_apply, if_pos rfl, pure_apply]

/-- One round of the walk. -/
theorem methodFrom_proper (proper : species ≠ machine.registers.specials.nil) (budget : Nat) :
    let counted := machine.withCacheCounts
      machine.registers.methodCache.countDictionaryProbe.counts
    methodFrom selector (budget + 1) species machine =
      match machine.heap.ownMethod selector machine.registers.specials.nil species with
      | .error error => .error (.error (.memory error)) counted
      | .ok (some method) => .ok (some method) counted
      | .ok none => (fetch species ClassField.superclass >>= methodFrom selector budget) counted := by
  intro counted
  have start : (modifyRegisters fun registers =>
      { registers with methodCache := registers.methodCache.countDictionaryProbe }) machine
        = .ok () counted := rfl
  rw [methodFrom, Heap.ownMethod, bind_ok getNil_apply, if_neg proper]
  simp only []
  rw [bind_ok start]
  cases read : machine.heap.fetch species ClassField.methodDictionary with
  | error error =>
    have failed : counted.heap.fetch species ClassField.methodDictionary = .error error := read
    rw [bind_error (fetch_error failed)]
    rfl
  | ok dictionary =>
    have found : counted.heap.fetch species ClassField.methodDictionary = .ok dictionary := read
    rw [bind_ok (fetch_ok found)]
    simp only [bind, Except.bind]
    cases known : machine.heap.methodAt? dictionary selector machine.registers.specials.nil with
    | error error => exact bind_error (readHeap_error known)
    | ok method =>
      have searched : readHeap (·.methodAt? dictionary selector machine.registers.specials.nil)
          counted = .ok method counted := readHeap_ok known
      refine (bind_ok searched).trans ?_
      cases method <;> rfl

/-- Walking through a lineage finds what there is to find, and only counts. -/
theorem methodFrom_walks {nil : Value} {classes : List Value}
    (lineage : machine.heap.Lineage nil species classes)
    (none : machine.registers.specials.nil = nil) {budget : Nat}
    (enough : classes.length ≤ budget) :
    ∃ found counts, machine.heap.Walks selector nil species found ∧
      methodFrom selector budget species machine
        = ofMemory found (machine.withCacheCounts counts) := by
  generalize here : machine.heap = heap at lineage ⊢
  induction lineage generalizing budget machine with
  | ended =>
    subst none
    exact ⟨_, machine.registers.methodCache.counts, .ended, methodFrom_nil budget⟩
  | @inherits species above rest proper next lineage induction =>
    subst none here
    rcases Nat.exists_eq_add_of_lt enough with ⟨later, rfl⟩
    rw [methodFrom_proper proper]
    cases known : machine.heap.ownMethod selector machine.registers.specials.nil species with
    | error error => exact ⟨_, _, .unsearchable proper known, rfl⟩
    | ok method =>
      cases method with
      | some method => exact ⟨_, _, .own proper known, rfl⟩
      | none =>
        let counted := machine.withCacheCounts
          machine.registers.methodCache.countDictionaryProbe.counts
        have shorter : rest.length ≤ rest.length + later := Nat.le_add_right _ _
        rcases @induction counted rfl _ shorter rfl with ⟨found, counts, walks, ended⟩
        have first : fetch species ClassField.superclass counted = .ok above counted := fetch_ok next
        exact ⟨found, counts, .inherited proper known next walks, (bind_ok first).trans ended⟩
  | @cutOff species error proper failed =>
    subst none here
    rcases Nat.exists_eq_add_of_lt enough with ⟨later, rfl⟩
    rw [methodFrom_proper proper]
    cases known : machine.heap.ownMethod selector machine.registers.specials.nil species with
    | error error => exact ⟨_, _, .unsearchable proper known, rfl⟩
    | ok method =>
      cases method with
      | some method => exact ⟨_, _, .own proper known, rfl⟩
      | none => exact ⟨_, _, .cutOff proper known failed, bind_error (fetch_error failed)⟩

end Run

end Smalltalk
