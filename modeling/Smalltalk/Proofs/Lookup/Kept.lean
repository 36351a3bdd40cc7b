import Smalltalk.Proofs.Heap.Allocation
import Smalltalk.Proofs.Lookup.Walk

namespace Smalltalk

/-! A walk reads little of a class: its superclass, its method dictionary and the
methods in it. While that stays as it is, the walk finds the same. Collections
keep it for every class that survives them. -/

namespace Heap

/-- The class itself and its superclasses. -/
inductive Ancestor (heap : Heap) (species : Value) : Value → Prop
  | self : Ancestor heap species species
  | above {middle above : Value} (below : Ancestor heap species middle)
      (next : heap.fetch middle ClassField.superclass = .ok above) : Ancestor heap species above

/-- A class has the same superclass in two heaps, and the same method dictionary
with the same selectors and methods, whose headers are the same, too. -/
structure KeepsClass (before after : Heap) (species : Value) : Prop where
  superclass : after.fetch species ClassField.superclass
    = before.fetch species ClassField.superclass
  dictionary : after.fetch species ClassField.methodDictionary
    = before.fetch species ClassField.methodDictionary
  selectors : ∀ dictionary, before.fetch species ClassField.methodDictionary = .ok dictionary →
    after.pointers dictionary = before.pointers dictionary
  methods : ∀ dictionary methods,
    before.fetch species ClassField.methodDictionary = .ok dictionary →
    before.fetch dictionary DictionaryField.methods = .ok methods →
    after.pointers methods = before.pointers methods
  headers : ∀ dictionary methods place method,
    before.fetch species ClassField.methodDictionary = .ok dictionary →
    before.fetch dictionary DictionaryField.methods = .ok methods →
    before.fetch methods place = .ok method →
    after.methodHeader? method = before.methodHeader? method

variable {heap before after : Heap} {selector nil species : Value}

theorem Ancestor.of_above {above higher : Value} (ancestor : heap.Ancestor above higher)
    (next : heap.fetch species ClassField.superclass = .ok above) :
    heap.Ancestor species higher := by
  induction ancestor with
  | self => exact .above .self next
  | above _ further induction => exact .above induction further

theorem toOption_pointers (heap : Heap) (value : Value) :
    (heap.pointers value).toOption = (heap.get? value).bind HeapObject.pointers? := by
  rw [pointers, object]
  cases heap.get? value with
  | none => rfl
  | some object =>
    simp only [bind, Except.bind, Option.bind]
    cases object.pointers? <;> rfl

/-- What is too short to be a dictionary has no methods. -/
theorem methodAt?_of_short {dictionary : Value}
    (short : ∀ fields, heap.pointers dictionary = .ok fields →
      fields.size ≤ DictionaryField.selectors) :
    heap.methodAt? dictionary selector nil = .ok none := by
  rw [methodAt?, ← toOption_pointers]
  cases readable : heap.pointers dictionary with
  | error error => rfl
  | ok fields => exact if_pos (short fields readable)

/-- The methods of a dictionary stand in an array of their own. -/
theorem methodAt?_of_long {dictionary : Value} {fields : Array Value}
    (readable : heap.pointers dictionary = .ok fields)
    (long : DictionaryField.selectors < fields.size) :
    ∃ methods, heap.fetch dictionary DictionaryField.methods = .ok methods ∧
      heap.methodAt? dictionary selector nil =
        match MethodDictionary.search (fields.drop DictionaryField.selectors) selector nil
          (MethodDictionary.probes (heap.hashOf selector)
            (fields.drop DictionaryField.selectors).size) with
        | none => .ok none
        | some place => (heap.fetch methods place).map some := by
  have inside : DictionaryField.methods < fields.size := by
    simp only [DictionaryField.selectors, DictionaryField.methods] at long ⊢
    omega
  have held : fields[DictionaryField.methods]? = some fields[DictionaryField.methods] :=
    Array.getElem?_eq_getElem inside
  refine ⟨_, fetch_eq_ok_iff.mpr ⟨fields, readable, held⟩, ?_⟩
  rw [methodAt?, ← toOption_pointers, readable]
  simp only [Except.toOption, if_neg (Nat.not_le.mpr long), held, Option.getD_some]
  cases MethodDictionary.search (fields.drop DictionaryField.selectors) selector nil
      (MethodDictionary.probes (heap.hashOf selector)
        (fields.drop DictionaryField.selectors).size) with
  | none => rfl
  | some place => cases fetched : heap.fetch fields[DictionaryField.methods] place <;> simp [fetched] <;> rfl

/-- A method that a class itself has stands in the array of its dictionary. -/
theorem fetch_of_ownMethod {method : Value}
    (own : heap.ownMethod selector nil species = .ok (some method)) :
    ∃ dictionary methods place,
      heap.fetch species ClassField.methodDictionary = .ok dictionary ∧
      heap.fetch dictionary DictionaryField.methods = .ok methods ∧
      heap.fetch methods place = .ok method := by
  rcases bind_eq_ok_iff.mp own with ⟨dictionary, known, found⟩
  cases readable : heap.pointers dictionary with
  | error error =>
    rw [methodAt?_of_short (by simp [readable])] at found
    cases found
  | ok fields =>
    rcases Nat.lt_or_ge DictionaryField.selectors fields.size with long | short
    · rcases methodAt?_of_long readable long with ⟨methods, stored, same⟩
      rw [same] at found
      split at found
      · cases found
      · rename_i place _
        refine ⟨dictionary, methods, place, known, stored, ?_⟩
        cases fetched : heap.fetch methods place with
        | error error => simp [fetched, Except.map] at found
        | ok value => simpa [fetched, Except.map] using found
    · rw [methodAt?_of_short (by simpa [readable] using short)] at found
      cases found

/-- Of the hashes a dictionary needs that of the selector. -/
theorem KeepsClass.ownMethod_eq (kept : KeepsClass before after species)
    (hash : after.hashOf selector = before.hashOf selector) :
    after.ownMethod selector nil species = before.ownMethod selector nil species := by
  rw [ownMethod, ownMethod, kept.dictionary]
  cases known : before.fetch species ClassField.methodDictionary with
  | error error => rfl
  | ok dictionary =>
    change after.methodAt? dictionary selector nil = before.methodAt? dictionary selector nil
    have same := kept.selectors dictionary known
    by_cases long : ∃ fields, before.pointers dictionary = .ok fields ∧
        DictionaryField.selectors < fields.size
    · rcases long with ⟨fields, readable, long⟩
      rcases @methodAt?_of_long before selector nil _ _ readable long with
        ⟨methods, stored, first⟩
      rcases @methodAt?_of_long after selector nil _ _ (same.trans readable) long with
        ⟨others, again, second⟩
      have equal : others = methods := by
        rw [fetch, same] at again
        rw [fetch] at stored
        exact Except.ok.inj (again.symm.trans stored)
      have array := kept.methods dictionary methods known stored
      rw [first, second, equal, hash]
      simp only [fetch, array]
    · have short : ∀ fields, before.pointers dictionary = .ok fields →
          fields.size ≤ DictionaryField.selectors :=
        fun fields readable => Nat.not_lt.mp fun more => long ⟨fields, readable, more⟩
      rw [methodAt?_of_short short, methodAt?_of_short (same ▸ short)]

/-- Some classes are kept, and each that is not nil has its superclass among them. -/
structure KeepsLine (nil : Value) (before after : Heap) (line : Value → Prop) : Prop where
  keeps : ∀ {species}, line species → species ≠ nil → KeepsClass before after species
  next : ∀ {species above}, line species → species ≠ nil →
    before.fetch species ClassField.superclass = .ok above → line above

namespace KeepsLine

variable {line : Value → Prop}

theorem of_ancestors
    (kept : ∀ above, before.Ancestor species above → KeepsClass before after above) :
    KeepsLine nil before after (before.Ancestor species) where
  keeps ancestor _ := kept _ ancestor
  next ancestor _ next := .above ancestor next

/-- A walk along the line finds the same again. -/
theorem walks {answer : Except MemoryError (Option Value)}
    (kept : KeepsLine nil before after line) (inside : line species)
    (hash : after.hashOf selector = before.hashOf selector)
    (walks : before.Walks selector nil species answer) :
    after.Walks selector nil species answer := by
  induction walks with
  | ended => exact .ended
  | own proper found =>
    exact .own proper (((kept.keeps inside proper).ownMethod_eq hash).trans found)
  | unsearchable proper failed =>
    exact .unsearchable proper (((kept.keeps inside proper).ownMethod_eq hash).trans failed)
  | inherited proper missing next _ induction =>
    refine .inherited proper ?_ ?_ (induction (kept.next inside proper next))
    · exact ((kept.keeps inside proper).ownMethod_eq hash).trans missing
    · exact (kept.keeps inside proper).superclass.trans next
  | cutOff proper missing failed =>
    refine .cutOff proper ?_ ?_
    · exact ((kept.keeps inside proper).ownMethod_eq hash).trans missing
    · exact (kept.keeps inside proper).superclass.trans failed

/-- The method that a walk finds is in the dictionary of a class on its way. -/
theorem header_eq {method : Value} (kept : KeepsLine nil before after line)
    (inside : line species) (walks : before.Walks selector nil species (.ok (some method))) :
    after.methodHeader? method = before.methodHeader? method := by
  generalize found : (Except.ok (some method) : Except MemoryError (Option Value)) = answer at walks
  induction walks with
  | ended => cases found
  | unsearchable => cases found
  | cutOff => cases found
  | own proper own =>
    cases found
    rcases fetch_of_ownMethod own with ⟨dictionary, methods, place, known, stored, fetched⟩
    exact (kept.keeps inside proper).headers dictionary methods place method known stored fetched
  | inherited proper _ next _ induction => exact induction (kept.next inside proper next) found

end KeepsLine

theorem Walks.transfer {answer : Except MemoryError (Option Value)}
    (walks : before.Walks selector nil species answer)
    (kept : ∀ above, before.Ancestor species above → KeepsClass before after above)
    (hash : after.hashOf selector = before.hashOf selector) :
    after.Walks selector nil species answer :=
  (KeepsLine.of_ancestors kept).walks .self hash walks

theorem Walks.header_eq {method : Value}
    (walks : before.Walks selector nil species (.ok (some method)))
    (kept : ∀ above, before.Ancestor species above → KeepsClass before after above) :
    after.methodHeader? method = before.methodHeader? method :=
  (KeepsLine.of_ancestors kept).header_eq .self walks

end Heap

namespace Rooted.Survives

variable {ρ : Type} [RootSet ρ] {before after : Rooted ρ} {value object : Value} {index : Nat}

theorem get?_eq (survives : Rooted.Survives before after) (held : after.heap.Holds value) :
    after.heap.get? value = before.heap.get? value := by
  cases value with
  | small n => rfl
  | object slot => exact survives.cell slot held

theorem pointers_eq (survives : Rooted.Survives before after) (held : after.heap.Holds value) :
    after.heap.pointers value = before.heap.pointers value := by
  rw [Heap.pointers, Heap.pointers, Heap.object, Heap.object, survives.get?_eq held]

theorem fetch_eq (survives : Rooted.Survives before after) (held : after.heap.Holds object)
    (index : Nat) : after.heap.fetch object index = before.heap.fetch object index := by
  rw [Heap.fetch, Heap.fetch, survives.pointers_eq held]

/-- What a survivor refers to survives. -/
theorem holds_fetch (survives : Rooted.Survives before after) (closed : before.heap.Closed)
    (held : after.heap.Holds object) (found : before.heap.fetch object index = .ok value) :
    after.heap.Holds value := by
  rcases Heap.mem_references_of_fetch found with ⟨owner, here, member⟩
  cases object with
  | small n => cases here
  | object slot =>
    have kept : after.heap.cell? slot = some owner := (survives.cell slot held).trans here
    exact survives.closed slot owner kept value member (closed slot owner here value member)

theorem keepsClass (survives : Rooted.Survives before after) (closed : before.heap.Closed)
    (held : after.heap.Holds value) : Heap.KeepsClass before.heap after.heap value where
  superclass := survives.fetch_eq held _
  dictionary := survives.fetch_eq held _
  selectors dictionary known := survives.pointers_eq (survives.holds_fetch closed held known)
  methods dictionary methods known found := by
    have inside := survives.holds_fetch closed held known
    exact survives.pointers_eq (survives.holds_fetch closed inside found)
  headers dictionary methods place method known found fetched := by
    have inside := survives.holds_fetch closed held known
    have array := survives.holds_fetch closed inside found
    have method := survives.holds_fetch closed array fetched
    rw [Heap.methodHeader?, Heap.methodHeader?, Heap.object, Heap.object, survives.get?_eq method]

theorem holds_ancestor (survives : Rooted.Survives before after) (closed : before.heap.Closed)
    (held : after.heap.Holds value) {above : Value}
    (ancestor : before.heap.Ancestor value above) : after.heap.Holds above := by
  induction ancestor with
  | self => exact held
  | above _ next induction => exact survives.holds_fetch closed induction next

end Rooted.Survives

end Smalltalk
