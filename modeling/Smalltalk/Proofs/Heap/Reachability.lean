import Mathlib.Data.List.TakeWhile
import Smalltalk.Heap.Collection

namespace Smalltalk

/-! What can be reached from a list of slots, as a relation on the cells, and
that marking with a worklist computes exactly it. -/

namespace Heap

/-- Whether a cell holds an object. -/
def Live (heap : Heap) (slot : Nat) : Prop := (heap.cell? slot).isSome

instance (heap : Heap) (slot : Nat) : Decidable (heap.Live slot) :=
  inferInstanceAs (Decidable ((heap.cell? slot).isSome = true))

/-- A slot is reached when it is one of the seeds or named by a reached object.
Slots without an object are not reached and lead nowhere. -/
inductive Reaches (heap : Heap) (seeds : List Nat) : Nat → Prop
  | seed {slot : Nat} (member : slot ∈ seeds) (live : heap.Live slot) : Reaches heap seeds slot
  | step {slot next : Nat} {object : HeapObject} (reached : Reaches heap seeds slot)
      (found : heap.cell? slot = some object) (edge : next ∈ object.successors)
      (live : heap.Live next) : Reaches heap seeds next

theorem live_iff {heap : Heap} {slot : Nat} :
    heap.Live slot ↔ ∃ object, heap.cell? slot = some object :=
  Option.isSome_iff_exists

theorem live_of_cell? {heap : Heap} {slot : Nat} {object : HeapObject}
    (found : heap.cell? slot = some object) : heap.Live slot :=
  live_iff.mpr ⟨object, found⟩

theorem not_live_iff {heap : Heap} {slot : Nat} :
    ¬ heap.Live slot ↔ heap.cell? slot = none := by
  simp [Live]

theorem Live.lt_size {heap : Heap} {slot : Nat} (live : heap.Live slot) :
    slot < heap.cells.size := by
  by_contra outside
  have absent : heap.cells[slot]? = none := Array.getElem?_eq_none (by omega)
  simp [Live, cell?, absent] at live

theorem Reaches.live {heap : Heap} {seeds : List Nat} {slot : Nat}
    (reached : heap.Reaches seeds slot) : heap.Live slot := by
  cases reached with
  | seed _ live => exact live
  | step _ _ _ live => exact live

/-- More seeds reach more. -/
theorem Reaches.mono {heap : Heap} {seeds more : List Nat} {slot : Nat}
    (reached : heap.Reaches seeds slot) (subset : ∀ seed ∈ seeds, seed ∈ more) :
    heap.Reaches more slot := by
  induction reached with
  | seed member live => exact .seed (subset _ member) live
  | step _ found edge live induction => exact .step induction found edge live

/-- Seeds that are reached themselves reach nothing else. -/
theorem Reaches.trans {heap : Heap} {seeds more : List Nat} {slot : Nat}
    (reached : heap.Reaches seeds slot)
    (seeded : ∀ seed ∈ seeds, heap.Live seed → heap.Reaches more seed) :
    heap.Reaches more slot := by
  induction reached with
  | seed member live => exact seeded _ member live
  | step _ found edge live induction => exact .step induction found edge live

theorem reaches_append_iff {heap : Heap} {seeds more : List Nat} {slot : Nat} :
    heap.Reaches (seeds ++ more) slot ↔ heap.Reaches seeds slot ∨ heap.Reaches more slot := by
  constructor
  · intro reached
    induction reached with
    | seed member live =>
      exact (List.mem_append.mp member).imp (Reaches.seed · live) (Reaches.seed · live)
    | step _ found edge live induction =>
      exact induction.imp (Reaches.step · found edge live) (Reaches.step · found edge live)
  · intro either
    rcases either with reached | reached
    · exact reached.mono fun _ member => List.mem_append_left _ member
    · exact reached.mono fun _ member => List.mem_append_right _ member

/-- Reaching looks only at the cells it reaches, so it can be replayed in a heap
that agrees on them. -/
theorem Reaches.replay {heap other : Heap} {seeds : List Nat} {slot : Nat}
    (reached : heap.Reaches seeds slot)
    (agree : ∀ {slot}, heap.Reaches seeds slot → other.cell? slot = heap.cell? slot) :
    other.Reaches seeds slot := by
  have live : ∀ {slot}, heap.Reaches seeds slot → other.Live slot := by
    intro slot reached
    rw [Live, agree reached]
    exact reached.live
  induction reached with
  | seed member here => exact .seed member (live (.seed member here))
  | step before found edge here induction =>
    exact .step induction ((agree before).trans found) edge (live (.step before found edge here))

/-! ## Marking

Marks only grow. The worklist holds what has been seen but not marked, so what a
marked object refers to is marked or in the worklist. -/

theorem needsMark_iff {heap : Heap} {marks : Array Bool} {slot : Nat} :
    heap.needsMark marks slot = true ↔ heap.Live slot ∧ marks[slot]? = some false := by
  simp only [needsMark, Bool.and_eq_true, Bool.not_eq_true', Live]
  cases marks[slot]? with
  | none => simp
  | some mark => simp

/-- With as many marks as cells, an object that needs no mark has one. -/
theorem isMarked_of_not_needsMark {heap : Heap} {marks : Array Bool} {slot : Nat}
    (sized : marks.size = heap.cells.size) (live : heap.Live slot)
    (done : heap.needsMark marks slot = false) : isMarked marks slot = true := by
  have bounded : slot < marks.size := sized ▸ live.lt_size
  rw [isMarked, Array.getElem?_eq_getElem bounded]
  cases mark : marks[slot] with
  | true => rfl
  | false =>
    have needed : heap.needsMark marks slot = true :=
      needsMark_iff.mpr ⟨live, by rw [Array.getElem?_eq_getElem bounded, mark]⟩
    simp [needed] at done

theorem isMarked_set_iff {marks : Array Bool} {slot other : Nat} (bounded : slot < marks.size) :
    isMarked (marks.setIfInBounds slot true) other = true ↔
      other = slot ∨ isMarked marks other = true := by
  by_cases same : slot = other
  · subst same
    simp [isMarked, bounded]
  · have different : other ≠ slot := fun equal => same equal.symm
    simp [isMarked, same, different]

/-- The number of cells that have no mark bounds the rounds to come. -/
def unmarked (marks : Array Bool) : Nat := marks.toList.count false

theorem unmarked_set {marks : Array Bool} {slot : Nat} (unset : marks[slot]? = some false) :
    unmarked (marks.setIfInBounds slot true) + 1 = unmarked marks := by
  rcases Array.getElem?_eq_some_iff.mp unset with ⟨bounded, value⟩
  have inList : slot < marks.toList.length := by simpa using bounded
  have value' : marks.toList[slot] = false := by simpa using value
  have counted : 0 < marks.toList.count false :=
    List.count_pos_iff.mpr (List.mem_of_getElem value')
  have removed : (marks.setIfInBounds slot true).toList.count false
      = marks.toList.count false - 1 := by
    rw [Array.toList_setIfInBounds, List.count_set inList, value']
    rfl
  rw [unmarked, unmarked, removed]
  exact Nat.sub_add_cancel counted

theorem unmarked_pos {marks : Array Bool} {slot : Nat} (unset : marks[slot]? = some false) :
    0 < unmarked marks := by
  have := unmarked_set unset
  omega

/-- One round: either nothing in the worklist needs a mark, or its first slot
that does is marked and replaced by what its object refers to. -/
theorem markFrom_cases (heap : Heap) (budget : Nat) (pending : List Nat) (marks : Array Bool) :
    (heap.markFrom budget pending marks = marks ∧
        (budget = 0 ∨ ∀ slot ∈ pending, heap.needsMark marks slot = false)) ∨
      ∃ remaining slot object seen rest,
        budget = remaining + 1 ∧
        pending = seen ++ slot :: rest ∧
        (∀ other ∈ seen, heap.needsMark marks other = false) ∧
        heap.needsMark marks slot = true ∧
        heap.cell? slot = some object ∧
        heap.markFrom budget pending marks =
          heap.markFrom remaining (object.successors ++ rest) (marks.setIfInBounds slot true) := by
  cases budget with
  | zero => exact .inl ⟨rfl, .inl rfl⟩
  | succ remaining =>
    simp only [markFrom]
    cases dropped : pending.dropWhile fun slot => !heap.needsMark marks slot with
    | nil =>
      refine .inl ⟨rfl, .inr fun slot member => ?_⟩
      simpa using List.dropWhile_eq_nil_iff.mp dropped slot member
    | cons slot rest =>
      have needed : heap.needsMark marks slot = true := by
        have := List.head_dropWhile_not (fun slot => !heap.needsMark marks slot)
          (l := pending) (by simp [dropped])
        simpa [dropped] using this
      rcases live_iff.mp (needsMark_iff.mp needed).1 with ⟨object, found⟩
      refine .inr ⟨remaining, slot, object,
        pending.takeWhile fun slot => !heap.needsMark marks slot, rest, rfl, ?_, ?_, needed,
        found, ?_⟩
      · rw [← dropped, List.takeWhile_append_dropWhile]
      · intro other member
        simpa using List.mem_takeWhile_imp member
      · simp [found]

/-- Marking marks nothing but what satisfies a property that the seeds have and
that references pass on. -/
theorem markFrom_sound {heap : Heap} (Property : Nat → Prop)
    (passed : ∀ {slot next object}, Property slot → heap.cell? slot = some object →
      next ∈ object.successors → heap.Live next → Property next)
    {budget : Nat} {pending : List Nat} {marks : Array Bool}
    (sized : marks.size = heap.cells.size)
    (waiting : ∀ slot ∈ pending, heap.Live slot → Property slot)
    (marked : ∀ slot, isMarked marks slot = true → Property slot) :
    ∀ slot, isMarked (heap.markFrom budget pending marks) slot = true → Property slot := by
  induction budget generalizing pending marks with
  | zero => simpa [markFrom] using marked
  | succ budget induction =>
    rcases heap.markFrom_cases (budget + 1) pending marks with
      ⟨unchanged, -⟩ |
      ⟨remaining, slot, object, seen, rest, equal, split, -, needed, found, marking⟩
    · rwa [unchanged]
    · cases equal
      rw [marking]
      have here : Property slot :=
        waiting slot (by simp [split]) (live_of_cell? found)
      apply induction
      · simpa using sized
      · intro next member live
        rcases List.mem_append.mp member with edge | later
        · exact passed here found edge live
        · exact waiting next (by simp [split, later]) live
      · intro other set
        have bounded : slot < marks.size := sized ▸ (live_of_cell? found).lt_size
        rcases (isMarked_set_iff bounded).mp set with rfl | before
        · exact here
        · exact marked other before

/-- Marking marks the worklist, and everything that a marked object refers to. -/
theorem markFrom_complete {heap : Heap} (budget : Nat) (pending : List Nat) (marks : Array Bool)
    (sized : marks.size = heap.cells.size) (enough : unmarked marks ≤ budget)
    (known : ∀ {slot object next}, isMarked marks slot = true → heap.cell? slot = some object →
      next ∈ object.successors → heap.Live next → isMarked marks next = true ∨ next ∈ pending) :
    let result := heap.markFrom budget pending marks
    (∀ slot, isMarked marks slot = true → isMarked result slot = true) ∧
      (∀ slot ∈ pending, heap.Live slot → isMarked result slot = true) ∧
      ∀ {slot object next}, isMarked result slot = true → heap.cell? slot = some object →
        next ∈ object.successors → heap.Live next → isMarked result next = true := by
  induction budget generalizing pending marks with
  | zero =>
    have settled : ∀ slot, heap.Live slot → isMarked marks slot = true := by
      intro slot live
      apply isMarked_of_not_needsMark sized live
      cases needed : heap.needsMark marks slot with
      | false => rfl
      | true =>
        have := unmarked_pos (needsMark_iff.mp needed).2
        omega
    exact ⟨fun _ marked => marked, fun slot _ live => settled slot live,
      fun _ _ _ live => settled _ live⟩
  | succ budget induction =>
    rcases heap.markFrom_cases (budget + 1) pending marks with
      ⟨unchanged, exhausted | done⟩ |
        ⟨remaining, slot, object, seen, rest, equal, split, passed, needed, found, marking⟩
    · omega
    · rw [unchanged]
      have settled : ∀ slot ∈ pending, heap.Live slot → isMarked marks slot = true :=
        fun slot member live => isMarked_of_not_needsMark sized live (done slot member)
      refine ⟨fun _ marked => marked, settled, fun marked found edge live => ?_⟩
      exact (known marked found edge live).elim id fun member => settled _ member live
    · cases equal
      rw [marking]
      have unset := (needsMark_iff.mp needed).2
      have bounded : slot < marks.size := sized ▸ (live_of_cell? found).lt_size
      have fewer := unmarked_set unset
      have older : ∀ other, isMarked marks other = true →
          isMarked (marks.setIfInBounds slot true) other = true :=
        fun other marked => (isMarked_set_iff bounded).mpr (.inr marked)
      rcases induction (object.successors ++ rest)
        (marks.setIfInBounds slot true) (by simpa using sized) (by omega) (by
          intro other otherObject next marked otherFound edge live
          rcases (isMarked_set_iff bounded).mp marked with rfl | before
          · cases Option.some.inj (found.symm.trans otherFound)
            exact .inr (by simp [edge])
          · rcases known before otherFound edge live with done | member
            · exact .inl (older next done)
            · rw [split, List.mem_append, List.mem_cons] at member
              rcases member with early | rfl | later
              · exact .inl (older next (isMarked_of_not_needsMark sized live (passed next early)))
              · exact .inl ((isMarked_set_iff bounded).mpr (.inl rfl))
              · exact .inr (by simp [later])) with ⟨grown, reached, closed⟩
      refine ⟨fun other marked => grown other (older other marked), ?_, closed⟩
      intro other member live
      rw [split, List.mem_append, List.mem_cons] at member
      rcases member with early | rfl | later
      · exact grown other (older other (isMarked_of_not_needsMark sized live (passed other early)))
      · exact grown other ((isMarked_set_iff bounded).mpr (.inl rfl))
      · exact reached other (by simp [later]) live

/-- Marking from seeds marks exactly what they reach. -/
theorem isMarked_reachable_iff (heap : Heap) (seeds : List Nat) (slot : Nat) :
    isMarked (heap.reachable seeds) slot = true ↔ heap.Reaches seeds slot := by
  let blank := Array.replicate heap.cells.size false
  have none : ∀ slot, ¬ isMarked blank slot = true := by
    intro slot
    simp only [blank, isMarked, Array.getElem?_replicate]
    split <;> simp
  have sized : blank.size = heap.cells.size := by simp [blank]
  constructor
  · apply markFrom_sound (heap.Reaches seeds)
    · intro slot next object reached found edge live
      exact .step reached found edge live
    · exact sized
    · exact fun slot member live => .seed member live
    · exact fun slot marked => absurd marked (none slot)
  · intro reached
    rcases markFrom_complete heap.cells.size seeds blank sized
      (by simp [unmarked, blank])
      (fun marked => absurd marked (none _)) with ⟨-, started, closed⟩
    induction reached with
    | seed member live => exact started _ member live
    | step _ found edge live marked => exact closed marked found edge live

end Heap

end Smalltalk
