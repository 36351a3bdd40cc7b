import Smalltalk.Proofs.Heap.Calls

namespace Smalltalk

/-! An exchange of identities replaces the references to some objects by references to
others, all at once and everywhere, and changes nothing else. -/

/-- The replacement of the sources by the targets, position by position, and in an exchange
of the targets by the sources. -/
structure Replaces (sources targets : List Value) (twoWay : Bool) (replace : Value → Value) :
    Prop where
  source : ∀ source target, (source, target) ∈ sources.zip targets → replace source = target
  target : twoWay = true →
    ∀ source target, (source, target) ∈ sources.zip targets → replace target = source
  other : ∀ value, value ∉ sources → (twoWay = true → value ∉ targets) → replace value = value

/-- Replace every reference of an object. -/
def HeapObject.replaceValues (replace : Value → Value) (object : HeapObject) : HeapObject :=
  { object with
    species := replace object.species
    body := object.body.mapPointers (·.map replace) }

/-- Redirecting reaches every value that a flush leaves. -/
class RenamableRootSet (ρ : Type) [RootSet ρ] : Prop extends LawfulRootSet ρ where
  values_flush_rename (redirect : Nat → Nat) (roots : ρ) :
    RootSet.values (RootSet.flush (RootSet.rename redirect roots)) =
      (RootSet.values (RootSet.flush roots)).map (Value.rename redirect)

instance : RenamableRootSet Unit where
  values_flush_rename _ _ := rfl

instance : RenamableRootSet (List Value) where
  values_flush_rename _ _ := rfl

instance : RenamableRootSet RootLists where
  values_flush_rename _ _ := by
    simp [RootSet.values, RootSet.flush, RootSet.rename]

instance {ρ : Type} [RootSet ρ] [RenamableRootSet ρ] : RenamableRootSet (PendingRoots ρ) where
  values_flush_rename redirect roots := by
    have held := RenamableRootSet.values_flush_rename redirect roots.roots
    exact (congrArg (· ++ _) held).trans List.map_append.symm

/-! ## Replacing -/

theorem exists_mem_zip_left {α β : Type} {left : List α} {right : List β}
    (sized : left.length = right.length) {a : α} (member : a ∈ left) :
    ∃ b, (a, b) ∈ left.zip right := by
  rcases List.getElem_of_mem member with ⟨index, bounded, rfl⟩
  refine ⟨right[index], ?_⟩
  rw [← List.getElem_zip (h := by rw [List.length_zip]; omega)]
  exact List.getElem_mem _

namespace Replaces

variable {sources targets : List Value} {replace : Value → Value}

/-- An exchange of the same values twice leaves every value where it was. -/
theorem replace_replace (replaces : Replaces sources targets true replace)
    (sized : sources.length = targets.length) (value : Value) :
    replace (replace value) = value := by
  by_cases origin : value ∈ sources
  · rcases exists_mem_zip_left sized origin with ⟨target, pair⟩
    rw [replaces.source _ _ pair, replaces.target rfl _ _ pair]
  · by_cases goal : value ∈ targets
    · rcases exists_mem_zip_left sized.symm goal with ⟨source, swapped⟩
      have pair : (source, value) ∈ sources.zip targets := by
        rw [← List.zip_swap]
        exact List.mem_map_of_mem swapped
      rw [replaces.target rfl _ _ pair, replaces.source _ _ pair]
    · have same := replaces.other value origin fun _ => goal
      rw [same, same]

/-- Where no target is a source, replacing the sources leaves none. -/
theorem replace_not_mem (replaces : Replaces sources targets false replace)
    (sized : sources.length = targets.length) (disjoint : ∀ target ∈ targets, target ∉ sources)
    (value : Value) : replace value ∉ sources := by
  by_cases origin : value ∈ sources
  · rcases exists_mem_zip_left sized origin with ⟨target, pair⟩
    rw [replaces.source _ _ pair]
    exact disjoint target (List.of_mem_zip pair).2
  · rw [replaces.other value origin fun both => absurd both Bool.false_ne_true]
    exact origin

end Replaces

namespace HeapObject

variable {replace : Value → Value}

theorem references_replaceValues (object : HeapObject) :
    (object.replaceValues replace).references = object.references.map replace := by
  cases object with
  | mk species format hash body =>
    cases body <;> simp [replaceValues, references, pointers?, Body.mapPointers, Body.pointers?]

theorem replaceValues_replaceValues (restores : ∀ value, replace (replace value) = value)
    (object : HeapObject) :
    (object.replaceValues replace).replaceValues replace = object := by
  have fields (values : Array Value) : (values.map replace).map replace = values := by
    rw [Array.map_map, show replace ∘ replace = id from funext restores, Array.map_id]
  cases object with
  | mk species format hash body =>
    cases body <;> simp [replaceValues, Body.mapPointers, restores, fields]

end HeapObject

namespace Redirection

variable {redirection : Redirection}

theorem apply_of_mem (once : (redirection.map Prod.fst).Nodup) {slot target : Nat}
    (member : (slot, target) ∈ redirection) : redirection.apply slot = target := by
  induction redirection with
  | nil => cases member
  | cons pair rest induction =>
    rcases pair with ⟨source, goal⟩
    rcases List.nodup_cons.mp once with ⟨new, later⟩
    rw [apply, List.lookup_cons]
    rcases List.mem_cons.mp member with same | after
    · cases same
      simp
    · have different : (slot == source) = false := by
        apply beq_false_of_ne
        rintro rfl
        exact new (List.mem_map.mpr ⟨_, after, rfl⟩)
      rw [different]
      exact induction later after

theorem apply_of_not_mem {slot : Nat} (absent : slot ∉ redirection.map Prod.fst) :
    redirection.apply slot = slot := by
  have unknown : redirection.lookup slot = none := by
    rw [List.lookup_eq_none_iff]
    intro pair member
    apply bne_iff_ne.mpr
    rintro rfl
    exact absent (List.mem_map_of_mem member)
  rw [apply, unknown, Option.getD_none]

end Redirection

namespace Heap

variable {heap : Heap}

/-- An accepted redirection replaces the sources by the targets. -/
theorem Exchangeable.replaces {origins goals : List Nat} {twoWay : Bool}
    (exchangeable : heap.Exchangeable origins goals twoWay) :
    Replaces (origins.map Value.object) (goals.map Value.object) twoWay
      (Value.rename (Redirection.apply
        (origins.zip goals ++ if twoWay then goals.zip origins else []))) := by
  have sized := exchangeable.length_eq
  have keys : (origins.zip goals ++ if twoWay then goals.zip origins else []).map Prod.fst
      = origins ++ if twoWay then goals else [] := by
    rw [List.map_append, List.map_fst_zip (by omega)]
    cases twoWay with
    | false => rfl
    | true => simp [List.map_fst_zip, sized]
  have once : ((origins.zip goals ++ if twoWay then goals.zip origins else []).map
      Prod.fst).Nodup := by
    rw [keys]
    cases twoWay with
    | false => simpa using exchangeable.sources_nodup
    | true =>
      refine List.nodup_append.mpr
        ⟨exchangeable.sources_nodup, exchangeable.targets_nodup rfl, ?_⟩
      rintro source origin target goal rfl
      exact exchangeable.disjoint source goal origin
  have named {source target : Value}
      (pair : (source, target) ∈ (origins.map Value.object).zip (goals.map Value.object)) :
      ∃ origin goal, source = .object origin ∧ target = .object goal ∧
        (origin, goal) ∈ origins.zip goals := by
    rw [List.zip_map] at pair
    rcases List.mem_map.mp pair with ⟨⟨origin, goal⟩, member, same⟩
    cases same
    exact ⟨origin, goal, rfl, rfl, member⟩
  refine { source := ?_, target := ?_, other := ?_ }
  · intro source target pair
    rcases named pair with ⟨origin, goal, rfl, rfl, member⟩
    rw [Value.rename_object, Redirection.apply_of_mem once (List.mem_append_left _ member)]
  · rintro rfl source target pair
    rcases named pair with ⟨origin, goal, rfl, rfl, member⟩
    have back : (goal, origin) ∈ goals.zip origins := by
      rw [← List.zip_swap]
      exact List.mem_map_of_mem member
    rw [Value.rename_object, Redirection.apply_of_mem once (List.mem_append_right _ back)]
  · intro value origin goal
    cases value with
    | small n => rfl
    | object slot =>
      rw [Value.rename_object, Redirection.apply_of_not_mem]
      rw [keys]
      intro member
      rcases List.mem_append.mp member with source | target
      · exact origin (List.mem_map_of_mem source)
      · cases twoWay with
        | false => cases target
        | true => exact goal rfl (List.mem_map_of_mem target)

/-- Whether a request is accepted depends only on which objects there are. -/
theorem Exchangeable.transfer {other : Heap} {origins goals : List Nat} {twoWay : Bool}
    (exchangeable : heap.Exchangeable origins goals twoWay)
    (live : ∀ slot, other.Live slot ↔ heap.Live slot) :
    other.Exchangeable origins goals twoWay :=
  { exchangeable with
    sources_live := fun slot member => (live slot).mpr (exchangeable.sources_live slot member)
    targets_live := fun slot member => (live slot).mpr (exchangeable.targets_live slot member) }

end Heap

namespace Rooted

variable {ρ : Type} [RootSet ρ]

/-- Every object and every root that a flush leaves has had its references replaced, and
nothing else has changed. -/
structure Substituted (replace : Value → Value) (before after : Rooted ρ) : Prop where
  heap : after.heap =
    { before.heap with
      cells := before.heap.cells.map (·.map (HeapObject.replaceValues replace)) }
  roots : after.rootValues = (RootSet.values (RootSet.flush before.roots)).map replace

/-- What no object and no root refers to. -/
def Unreferenced (rooted : Rooted ρ) (value : Value) : Prop :=
  (∀ slot object, rooted.heap.cell? slot = some object → value ∉ object.references) ∧
    value ∉ rooted.rootValues

theorem become_eq_ok_iff {sources targets : List Value} {twoWay : Bool}
    {before after : Rooted ρ} :
    before.become sources targets twoWay = .ok after ↔
      ∃ redirection, before.heap.redirection sources targets twoWay = .ok redirection ∧
        after = ⟨before.heap.rename redirection.apply,
          RootSet.flush (RootSet.rename redirection.apply before.roots)⟩ := by
  constructor
  · intro accepted
    rcases bind_eq_ok_iff.mp accepted with ⟨redirection, checked, same⟩
    cases same
    exact ⟨redirection, checked, rfl⟩
  · rintro ⟨redirection, checked, rfl⟩
    simp only [become, checked]
    rfl

namespace Substituted

variable {replace : Value → Value} {before middle after : Rooted ρ}

/-- A reference of an object that has been replaced is what a reference has been replaced
by. -/
theorem unreferenced (substituted : before.Substituted replace after) {value : Value}
    (gone : ∀ other, replace other ≠ value) : after.Unreferenced value := by
  constructor
  · intro slot object found member
    rw [substituted.heap, Heap.cell?, Array.getElem?_map] at found
    cases here : before.heap.cells[slot]? with
    | none =>
      rw [here] at found
      cases found
    | some cell =>
      cases cell with
      | none =>
        rw [here] at found
        cases found
      | some old =>
        rw [here] at found
        cases found
        rw [HeapObject.references_replaceValues] at member
        rcases List.mem_map.mp member with ⟨other, -, same⟩
        exact gone other same
  · intro member
    rw [substituted.roots] at member
    rcases List.mem_map.mp member with ⟨other, -, same⟩
    exact gone other same

/-- A replacement that takes itself back does so for a heap and for roots without caches. -/
theorem restores (early : before.Substituted replace middle)
    (late : middle.Substituted replace after)
    (flushed : RootSet.values (RootSet.flush middle.roots) = middle.rootValues)
    (involutive : ∀ value, replace (replace value) = value) :
    after.heap = before.heap ∧
      after.rootValues = RootSet.values (RootSet.flush before.roots) := by
  constructor
  · have twice : Option.map (HeapObject.replaceValues replace) ∘
        Option.map (HeapObject.replaceValues replace) = id := by
      funext cell
      cases cell with
      | none => rfl
      | some object =>
        exact congrArg some (HeapObject.replaceValues_replaceValues involutive object)
    rw [late.heap, early.heap]
    simp only [Array.map_map, twice, Array.map_id]
  · rw [late.roots, flushed, early.roots, List.map_map,
      show replace ∘ replace = id from funext involutive, List.map_id]

end Substituted

variable [RenamableRootSet ρ]

theorem substituted_rename {before : Rooted ρ} (tabled : before.heap.Tabled)
    (redirect : Nat → Nat) :
    before.Substituted (Value.rename redirect)
      ⟨before.heap.rename redirect,
        RootSet.flush (RootSet.rename redirect before.roots)⟩ where
  heap := Heap.rename_eq tabled redirect
  roots := RenamableRootSet.values_flush_rename redirect before.roots

/-- An exchange of identities that is accepted replaces the sources by the targets, and the
targets by the sources if it goes both ways, in every object and in every root, and changes
nothing else. In one direction nothing refers to a source any more; in both directions doing
it again restores every object and every root but the caches. One that is refused does
nothing. -/
theorem become_replaces (before : Rooted ρ) (tabled : before.heap.Tabled)
    (sources targets : List Value) (twoWay : Bool) :
    (∀ after, before.become sources targets twoWay = .ok after →
      (∃ replace, Replaces sources targets twoWay replace ∧ before.Substituted replace after) ∧
        (twoWay = false → ∀ source ∈ sources, after.Unreferenced source) ∧
        (twoWay = true → ∃ again, after.become sources targets true = .ok again ∧
          again.heap = before.heap ∧
          again.rootValues = RootSet.values (RootSet.flush before.roots))) ∧
      ∀ error, before.become sources targets twoWay = .error error →
        (HeapCall.become sources targets twoWay).perform before = before := by
  constructor
  · intro after accepted
    rcases become_eq_ok_iff.mp accepted with ⟨redirection, checked, rfl⟩
    rcases Heap.redirection_eq_ok_iff.mp checked with
      ⟨origins, goals, rfl, rfl, exchangeable, rfl⟩
    have replaces := exchangeable.replaces
    have substituted := substituted_rename tabled
      (Redirection.apply (origins.zip goals ++ if twoWay then goals.zip origins else []))
    have sized : (origins.map Value.object).length = (goals.map Value.object).length := by
      simpa using exchangeable.length_eq
    refine ⟨⟨_, replaces, substituted⟩, ?_, ?_⟩
    · rintro rfl source member
      have disjoint : ∀ target ∈ goals.map Value.object, target ∉ origins.map Value.object := by
        intro target goal origin
        rcases List.mem_map.mp goal with ⟨slot, there, rfl⟩
        rcases List.mem_map.mp origin with ⟨other, here, same⟩
        cases same
        exact exchangeable.disjoint slot there here
      apply substituted.unreferenced
      rintro other rfl
      exact replaces.replace_not_mem sized disjoint other member
    · rintro rfl
      have live := Heap.live_rename_iff tabled
        (Redirection.apply (origins.zip goals ++ if true then goals.zip origins else []))
      have again := Heap.redirection_eq_ok_iff.mpr
        ⟨origins, goals, rfl, rfl, exchangeable.transfer live, rfl⟩
      refine ⟨_, become_eq_ok_iff.mpr ⟨_, again, rfl⟩, ?_⟩
      exact substituted.restores (substituted_rename (Heap.tabled_rename tabled _) _)
        (LawfulRootSet.values_flush_flush _) (replaces.replace_replace sized)
  · intro error refused
    simp only [HeapCall.perform, refused]
    rfl

/-- Two objects, of which the second is the class of a third one that refers to both. The
roots hold the first and the third object, and for speed the second. -/
def couple : Rooted RootLists :=
  let plain : HeapObject := { species := .zero, format := Format.fixed, body := .pointers #[] }
  let holder : HeapObject :=
    { species := .object 1
      format := Format.fixed
      body := .pointers #[.object 0, .object 1, .zero] }
  { heap :=
      { cells := #[some plain, some plain, some holder]
        table := #[0, 1, 2]
        capacity := 3
        limit := 3
        growth := 1
        attempts := 1 }
    roots := { strong := [.object 0, .object 2], cached := [.object 1] } }

/-- Exchanged twice, the two objects are where they were. Replaced by the second one, the
first is out of sight. -/
theorem become_couple :
    couple.heap.Tabled ∧
      (∃ after again, couple.become [.object 0] [.object 1] true = .ok after ∧
        after.rootValues = [.object 1, .object 2] ∧
        after.become [.object 0] [.object 1] true = .ok again ∧ again.heap = couple.heap ∧
        again.rootValues = [.object 0, .object 2]) ∧
      ∃ after, couple.become [.object 0] [.object 1] false = .ok after ∧
        after.rootValues = [.object 1, .object 2] ∧ after.Unreferenced (.object 0) := by
  have consistent : couple.heap.Consistent := by decide +kernel
  have tabled := consistent.toTabled
  have exchangeable (twoWay : Bool) : couple.heap.Exchangeable [0] [1] twoWay :=
    ⟨rfl, by decide, by decide, by decide, by decide, fun _ => by decide⟩
  have both := become_eq_ok_iff.mpr
    ⟨_, Heap.redirection_eq_ok_iff.mpr ⟨[0], [1], rfl, rfl, exchangeable true, rfl⟩, rfl⟩
  have one := become_eq_ok_iff.mpr
    ⟨_, Heap.redirection_eq_ok_iff.mpr ⟨[0], [1], rfl, rfl, exchangeable false, rfl⟩, rfl⟩
  rcases ((become_replaces couple tabled _ _ true).1 _ both).2.2 rfl with
    ⟨again, returned, heap, roots⟩
  refine ⟨tabled, ⟨_, again, both, rfl, returned, heap, roots⟩, _, one, rfl, ?_⟩
  exact ((become_replaces couple tabled _ _ false).1 _ one).2.1 rfl (.object 0)
    (List.mem_singleton.mpr rfl)

end Rooted

end Smalltalk
