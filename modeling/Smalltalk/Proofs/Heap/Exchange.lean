import Mathlib.Data.List.Zip
import Smalltalk.Heap.Become
import Smalltalk.Proofs.Heap.Access

namespace Smalltalk

/-! Redirecting references moves no object: every cell keeps its object, whose
references now lead where the redirection says. A request that was accepted
leads only to objects that it named. -/

namespace Heap

/-! ## Redirecting the references of every object -/

theorem getElem?_foldl_modify {α : Type} (change : α → α) (cells : Array α) {entries : List Nat}
    (nodup : entries.Nodup) (slot : Nat) :
    (entries.foldl (fun cells slot => cells.modify slot change) cells)[slot]? =
      if slot ∈ entries then cells[slot]?.map change else cells[slot]? := by
  induction entries generalizing cells with
  | nil => rfl
  | cons first rest induction =>
    rcases List.nodup_cons.mp nodup with ⟨new, later⟩
    rw [List.foldl_cons, induction _ later]
    by_cases same : first = slot
    · subst same
      rw [if_neg new, if_pos (List.mem_cons_self ..), Array.getElem?_modify, if_pos rfl]
    · have different : slot ≠ first := fun equal => same equal.symm
      simp [Array.getElem?_modify, same, different]

theorem foldl_updateCell_eq (heap : Heap) (change : HeapObject → HeapObject)
    (entries : List Nat) :
    entries.foldl (fun heap slot => heap.updateCell slot change) heap =
      { heap with
        cells := entries.foldl (fun cells slot => cells.modify slot (·.map change)) heap.cells } := by
  induction entries generalizing heap with
  | nil => rfl
  | cons first rest induction =>
    rw [List.foldl_cons, induction]
    rfl

/-- Redirecting changes the objects, and nothing else of a heap. -/
theorem rename_eq {heap : Heap} (tabled : heap.Tabled) (redirect : Nat → Nat) :
    heap.rename redirect =
      { heap with cells := heap.cells.map (·.map (HeapObject.rename redirect)) } := by
  rw [rename, ← Array.foldl_toList, foldl_updateCell_eq]
  congr 1
  apply Array.ext_getElem?
  intro slot
  rw [getElem?_foldl_modify _ _ tabled.nodup, Array.getElem?_map]
  by_cases listed : slot ∈ heap.table.toList
  · rw [if_pos listed]
  · have dead : heap.cells[slot]?.join = none :=
      not_live_iff.mp fun live => listed (tabled.listed slot live)
    rw [if_neg listed]
    cases here : heap.cells[slot]? with
    | none => rfl
    | some cell =>
      rw [here] at dead
      rw [show cell = none from dead]
      rfl

theorem cell?_rename {heap : Heap} (tabled : heap.Tabled) (redirect : Nat → Nat) (slot : Nat) :
    (heap.rename redirect).cell? slot = (heap.cell? slot).map (·.rename redirect) := by
  rw [rename_eq tabled, cell?, cell?, Array.getElem?_map]
  cases heap.cells[slot]? <;> rfl

/-- A cell without an object stays one. -/
theorem empty_rename_iff {heap : Heap} (tabled : heap.Tabled) (redirect : Nat → Nat) (slot : Nat) :
    (heap.rename redirect).cells[slot]? = some none ↔ heap.cells[slot]? = some none := by
  rw [rename_eq tabled, Array.getElem?_map]
  cases heap.cells[slot]? <;> simp

theorem live_rename_iff {heap : Heap} (tabled : heap.Tabled) (redirect : Nat → Nat) (slot : Nat) :
    (heap.rename redirect).Live slot ↔ heap.Live slot := by
  rw [Live, cell?_rename tabled, Option.isSome_map, Live]

theorem tabled_rename {heap : Heap} (tabled : heap.Tabled) (redirect : Nat → Nat) :
    (heap.rename redirect).Tabled := by
  have same : (heap.rename redirect).table = heap.table := by rw [rename_eq tabled]
  exact
    { nodup := same ▸ tabled.nodup
      live := fun slot member =>
        (live_rename_iff tabled redirect slot).mpr (tabled.live slot (same ▸ member))
      listed := fun slot live =>
        same ▸ tabled.listed slot ((live_rename_iff tabled redirect slot).mp live) }

theorem consistent_rename {heap : Heap} (consistent : heap.Consistent) (redirect : Nat → Nat) :
    (heap.rename redirect).Consistent := by
  have tabled := consistent.toTabled
  have same : (heap.rename redirect).free = heap.free := by rw [rename_eq tabled]
  exact
    { toTabled := tabled_rename tabled redirect
      free_nodup := same ▸ consistent.free_nodup
      free_empty := fun slot member =>
        (empty_rename_iff tabled redirect slot).mpr
          (consistent.free_empty slot (same ▸ member)) }

/-- Whatever becomes of its references, an object has as many fields as before. -/
theorem pointerCount_rename {heap : Heap} (tabled : heap.Tabled) (redirect : Nat → Nat)
    (value : Value) : (heap.rename redirect).pointerCount value = heap.pointerCount value := by
  cases value with
  | small n => rfl
  | object slot =>
    have renamed : (heap.rename redirect).get? (.object slot)
        = (heap.get? (.object slot)).map (·.rename redirect) := cell?_rename tabled redirect slot
    rw [pointerCount, renamed, pointerCount]
    cases heap.get? (.object slot) with
    | none => rfl
    | some owner =>
      simp [HeapObject.pointerCount, Body.pointerCount, HeapObject.rename, Function.comp_def]

/-- A field holds what has replaced its value. -/
theorem fetch_rename {heap : Heap} (tabled : heap.Tabled) (redirect : Nat → Nat)
    (object : Value) (index : Nat) :
    (heap.rename redirect).fetch object index
      = (heap.fetch object index).map (Value.rename redirect) := by
  cases object with
  | small n => rfl
  | object slot =>
    have renamed : (heap.rename redirect).get? (.object slot)
        = (heap.get? (.object slot)).map (·.rename redirect) := cell?_rename tabled redirect slot
    rw [fetch, pointers, Heap.object, renamed, fetch, pointers, Heap.object]
    cases heap.get? (.object slot) with
    | none => rfl
    | some owner =>
      have fields : (owner.rename redirect).pointers?
          = owner.pointers?.map (·.map (Value.rename redirect)) := by
        rcases owner with ⟨species, format, hash, body⟩
        cases body <;> simp [HeapObject.rename, HeapObject.pointers?, Body.mapPointers,
          Body.pointers?]
      simp only [Option.map_some, bind, Except.bind, fields]
      cases owner.pointers? with
      | none => rfl
      | some values =>
        simp only [Option.map_some, Array.getElem?_map]
        cases values[index]? <;> rfl

/-! ## Accepted requests -/

theorem liveSlot?_eq_some_iff {heap : Heap} {value : Value} {slot : Nat} :
    heap.liveSlot? value = some slot ↔ value = .object slot ∧ heap.Live slot := by
  cases value with
  | small n => simp [liveSlot?, Value.slot?]
  | object other =>
    simp only [liveSlot?, Value.slot?, Option.filter_eq_some_iff, Option.some.injEq,
      Value.object.injEq, Live]

/-- What a request may name: objects, each source once and none of them as a target, and in
an exchange each target once. -/
structure Exchangeable (heap : Heap) (sources targets : List Nat) (twoWay : Bool) : Prop where
  length_eq : sources.length = targets.length
  sources_live : ∀ slot ∈ sources, heap.Live slot
  targets_live : ∀ slot ∈ targets, heap.Live slot
  disjoint : ∀ slot ∈ targets, slot ∉ sources
  sources_nodup : sources.Nodup
  targets_nodup : twoWay = true → targets.Nodup

theorem checkSources_eq_ok_iff {heap : Heap} {seen slots : List Nat} {sources : List Value} :
    heap.checkSources seen sources = .ok slots ↔
      ∃ named : List Nat, sources = named.map Value.object ∧ slots = seen.reverse ++ named ∧
        (∀ slot ∈ named, heap.Live slot ∧ slot ∉ seen) ∧ named.Nodup := by
  induction sources generalizing seen with
  | nil =>
    constructor
    · intro accepted
      cases accepted
      exact ⟨[], rfl, (List.append_nil _).symm, by simp, List.nodup_nil⟩
    · rintro ⟨named, same, rfl, -, -⟩
      rw [List.map_eq_nil_iff.mp same.symm, List.append_nil, checkSources]
  | cons source rest induction =>
    constructor
    · intro accepted
      simp only [checkSources] at accepted
      split at accepted
      · cases accepted
      · rename_i slot known
        rcases liveSlot?_eq_some_iff.mp known with ⟨rfl, live⟩
        split at accepted
        · cases accepted
        · rename_i new
          rcases induction.mp accepted with ⟨later, rfl, rfl, fresh, nodup⟩
          refine ⟨slot :: later, rfl, by simp, ?_, ?_⟩
          · intro other member
            rcases List.mem_cons.mp member with rfl | after
            · exact ⟨live, fun old => new (List.contains_iff_mem.mpr old)⟩
            · exact ⟨(fresh other after).1,
                fun old => (fresh other after).2 (List.mem_cons_of_mem _ old)⟩
          · exact List.nodup_cons.mpr
              ⟨fun after => (fresh slot after).2 (List.mem_cons_self ..), nodup⟩
    · rintro ⟨named, same, rfl, fresh, nodup⟩
      cases named with
      | nil => cases same
      | cons slot later =>
        cases same
        rcases List.nodup_cons.mp nodup with ⟨once, nodup⟩
        rcases fresh slot (List.mem_cons_self ..) with ⟨live, new⟩
        have known := liveSlot?_eq_some_iff.mpr ⟨rfl, live⟩
        have unseen : seen.contains slot = false := by simpa using new
        simp only [checkSources, known, unseen]
        refine induction.mpr ⟨later, rfl, by simp, fun other after => ?_, nodup⟩
        rcases fresh other (List.mem_cons_of_mem _ after) with ⟨alive, old⟩
        refine ⟨alive, fun member => ?_⟩
        rcases List.mem_cons.mp member with rfl | before
        · exact once after
        · exact old before

theorem checkTargets_eq_ok_iff {heap : Heap} {sources seen slots : List Nat} {twoWay : Bool}
    {targets : List Value} :
    heap.checkTargets sources twoWay seen targets = .ok slots ↔
      ∃ named : List Nat, targets = named.map Value.object ∧ slots = seen.reverse ++ named ∧
        (∀ slot ∈ named, heap.Live slot ∧ slot ∉ sources ∧ (twoWay = true → slot ∉ seen)) ∧
        (twoWay = true → named.Nodup) := by
  induction targets generalizing seen with
  | nil =>
    constructor
    · intro accepted
      cases accepted
      exact ⟨[], rfl, (List.append_nil _).symm, by simp, fun _ => List.nodup_nil⟩
    · rintro ⟨named, same, rfl, -, -⟩
      rw [List.map_eq_nil_iff.mp same.symm, List.append_nil, checkTargets]
  | cons target rest induction =>
    constructor
    · intro accepted
      simp only [checkTargets] at accepted
      split at accepted
      · cases accepted
      · rename_i slot known
        rcases liveSlot?_eq_some_iff.mp known with ⟨rfl, live⟩
        split at accepted
        · cases accepted
        · rename_i apart
          split at accepted
          · cases accepted
          · rename_i new
            rcases induction.mp accepted with ⟨later, rfl, rfl, fresh, nodup⟩
            refine ⟨slot :: later, rfl, by simp, ?_, fun both => ?_⟩
            · intro other member
              rcases List.mem_cons.mp member with rfl | after
              · exact ⟨live, fun source => apart (List.contains_iff_mem.mpr source),
                  fun both old => new ⟨both, List.contains_iff_mem.mpr old⟩⟩
              · rcases fresh other after with ⟨alive, outside, unseen⟩
                exact ⟨alive, outside, fun both old => unseen both (List.mem_cons_of_mem _ old)⟩
            · exact List.nodup_cons.mpr
                ⟨fun after => (fresh slot after).2.2 both (List.mem_cons_self ..), nodup both⟩
    · rintro ⟨named, same, rfl, fresh, nodup⟩
      cases named with
      | nil => cases same
      | cons slot later =>
        cases same
        rcases fresh slot (List.mem_cons_self ..) with ⟨live, outside, unseen⟩
        have known := liveSlot?_eq_some_iff.mpr ⟨rfl, live⟩
        have apart : ¬ sources.contains slot = true := by simpa using outside
        have new : ¬ (twoWay = true ∧ seen.contains slot = true) :=
          fun ⟨both, old⟩ => unseen both (List.contains_iff_mem.mp old)
        simp only [checkTargets, known]
        rw [if_neg apart, if_neg new]
        refine induction.mpr
          ⟨later, rfl, by simp, fun other after => ?_,
            fun both => (List.nodup_cons.mp (nodup both)).2⟩
        rcases fresh other (List.mem_cons_of_mem _ after) with ⟨alive, beyond, old⟩
        refine ⟨alive, beyond, fun both member => ?_⟩
        rcases List.mem_cons.mp member with rfl | before
        · exact (List.nodup_cons.mp (nodup both)).1 after
        · exact old both before

/-- A request is accepted if it names what it may, and then leads from the sources to the
targets, and in an exchange back. -/
theorem redirection_eq_ok_iff {heap : Heap} {sources targets : List Value} {twoWay : Bool}
    {redirection : Redirection} :
    heap.redirection sources targets twoWay = .ok redirection ↔
      ∃ origins goals : List Nat, sources = origins.map Value.object ∧
        targets = goals.map Value.object ∧ heap.Exchangeable origins goals twoWay ∧
        redirection = origins.zip goals ++ if twoWay then goals.zip origins else [] := by
  have inverse (origins goals : List Nat) :
      Redirection.inverse (origins.zip goals) = goals.zip origins := List.zip_swap origins goals
  constructor
  · intro accepted
    simp only [Heap.redirection] at accepted
    split at accepted
    · cases accepted
    · rename_i sized
      rcases bind_eq_ok_iff.mp accepted with ⟨origins, sourced, checked⟩
      rcases bind_eq_ok_iff.mp checked with ⟨goals, targeted, made⟩
      rcases checkSources_eq_ok_iff.mp sourced with ⟨_, rfl, rfl, origin, once⟩
      rcases checkTargets_eq_ok_iff.mp targeted with ⟨_, rfl, rfl, goal, distinct⟩
      refine ⟨_, _, rfl, rfl, ?_, ?_⟩
      · exact
          { length_eq := by simpa using sized
            sources_live := fun slot member => (origin slot member).1
            targets_live := fun slot member => (goal slot member).1
            disjoint := fun slot member => (goal slot member).2.1
            sources_nodup := once
            targets_nodup := distinct }
      · cases made
        cases twoWay with
        | false => simp
        | true => simp [inverse]
  · rintro ⟨origins, goals, rfl, rfl, exchangeable, rfl⟩
    have sourced : heap.checkSources [] (origins.map Value.object) = .ok origins :=
      checkSources_eq_ok_iff.mpr ⟨origins, rfl, rfl,
        fun slot member => ⟨exchangeable.sources_live slot member, List.not_mem_nil⟩,
        exchangeable.sources_nodup⟩
    have targeted : heap.checkTargets origins twoWay [] (goals.map Value.object) = .ok goals :=
      checkTargets_eq_ok_iff.mpr ⟨goals, rfl, rfl,
        fun slot member => ⟨exchangeable.targets_live slot member,
          exchangeable.disjoint slot member, fun _ => List.not_mem_nil⟩,
        exchangeable.targets_nodup⟩
    have sized : ¬ (origins.map Value.object).length ≠ (goals.map Value.object).length := by
      simpa using exchangeable.length_eq
    simp only [Heap.redirection]
    rw [if_neg sized, sourced]
    simp only [bind, Except.bind, pure, Except.pure]
    rw [targeted]
    cases twoWay with
    | false => simp
    | true => simp [inverse]

theorem mem_of_lookup {redirection : Redirection} {slot target : Nat}
    (found : redirection.lookup slot = some target) : (slot, target) ∈ redirection := by
  rcases List.lookup_eq_some_iff.mp found with ⟨before, after, rfl, -⟩
  simp

/-- An accepted redirection leads where it started or to an object that the
request named. -/
theorem redirection_apply {heap : Heap} {sources targets : List Value} {twoWay : Bool}
    {redirection : Redirection}
    (accepted : heap.redirection sources targets twoWay = .ok redirection)
    (slot : Nat) :
    redirection.apply slot = slot ∨
      Value.object (redirection.apply slot) ∈ sources ++ targets ∧
        heap.Live (redirection.apply slot) := by
  rcases redirection_eq_ok_iff.mp accepted with ⟨origins, goals, rfl, rfl, exchangeable, same⟩
  rw [Redirection.apply]
  cases found : redirection.lookup slot with
  | none => exact .inl rfl
  | some target =>
    right
    have member := mem_of_lookup found
    rw [same] at member
    rcases List.mem_append.mp member with forward | backward
    · have goal := (List.of_mem_zip forward).2
      exact ⟨List.mem_append_right _ (List.mem_map_of_mem goal),
        exchangeable.targets_live target goal⟩
    · cases twoWay with
      | false => cases backward
      | true =>
        have origin := (List.of_mem_zip backward).2
        exact ⟨List.mem_append_left _ (List.mem_map_of_mem origin),
          exchangeable.sources_live target origin⟩

end Heap

end Smalltalk
