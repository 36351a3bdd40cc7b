import Smalltalk.Proofs.Heap.Compaction

namespace Smalltalk

/-! The first entries of the table, as many as are tenured, count as old. A
compaction that frees old entries leaves their number as it was, as long as the
table has that many entries left, so the first survivors among the young ones
take their places: they count as old from then on. -/

namespace Heap

/-- The entries that count as old. -/
def old (heap : Heap) : List Nat := heap.table.toList.take heap.tenured

/-- The entries behind them. -/
def young (heap : Heap) : List Nat := heap.table.toList.drop heap.tenured

@[simp] theorem old_append_young (heap : Heap) : heap.old ++ heap.young = heap.table.toList :=
  List.take_append_drop _ _

theorem length_old_le (heap : Heap) : heap.old.length ≤ heap.tenured := List.length_take_le _ _

/-- Young entries are there only behind as many old ones as are tenured. -/
theorem length_old_of_mem_young {heap : Heap} {slot : Nat} (member : slot ∈ heap.young) :
    heap.old.length = heap.tenured := by
  have bounded : heap.tenured < heap.table.toList.length := by
    by_contra outside
    rw [young, List.drop_eq_nil_of_le (not_lt.mp outside)] at member
    cases member
  rw [old, List.length_take, Nat.min_eq_left bounded.le]

theorem old_compact_eq_take (heap : Heap) (start : Nat) (roots : List Value) :
    (heap.compact start roots).old =
      (heap.compact start roots).table.toList.take heap.tenured := by
  have tenured : (heap.compact start roots).tenured =
      min heap.tenured (heap.compact start roots).table.toList.length := rfl
  rw [old, tenured, List.take_eq_take_iff]
  omega

section

variable {heap : Heap} (tabled : heap.Tabled) (start : Nat) (roots : List Value)

include tabled

/-- After a compaction the old entries are the old survivors, and behind them as
many young survivors as old entries were freed. -/
theorem old_compact :
    let Kept := heap.Reaches (heap.seeds start roots)
    (heap.compact start roots).old =
      heap.old.filter (fun slot => Kept slot) ++
        (heap.young.filter fun slot => Kept slot).take
          (heap.tenured - (heap.old.filter fun slot => Kept slot).length) := by
  intro Kept
  have fits : (heap.old.filter fun slot => Kept slot).length ≤ heap.tenured :=
    (List.length_filter_le _ _).trans heap.length_old_le
  rw [old_compact_eq_take, table_compact tabled, ← old_append_young heap, List.filter_append,
    List.take_append, List.take_of_length_le fits]

/-- So they are the old survivors exactly when no old entry was freed, or nothing
young was left to take its place. -/
theorem old_compact_eq_iff :
    let Kept := heap.Reaches (heap.seeds start roots)
    (heap.compact start roots).old = heap.old.filter (fun slot => Kept slot) ↔
      (∀ slot ∈ heap.old, Kept slot) ∨ ∀ slot ∈ heap.young, ¬ Kept slot := by
  intro Kept
  rw [old_compact tabled, List.append_right_eq_self, List.take_eq_nil_iff, List.filter_eq_nil_iff,
    Nat.sub_eq_zero_iff_le]
  simp only [decide_eq_true_iff]
  by_cases freed : ∀ slot ∈ heap.young, ¬ Kept slot
  · exact iff_of_true (.inr freed) (.inr freed)
  · obtain ⟨first, member, -⟩ : ∃ slot ∈ heap.young, Kept slot := by simpa using freed
    have full := length_old_of_mem_young member
    have all : heap.tenured ≤ (heap.old.filter fun slot => Kept slot).length ↔
        ∀ slot ∈ heap.old, Kept slot := by
      rw [← full, (List.length_filter_le _ _).ge_iff_eq, List.length_filter_eq_length_iff]
      simp
    rw [all]

/-- A collection among the young entries leaves the old ones as they are. -/
theorem old_partialCollect : (heap.partialCollect roots).old = heap.old := by
  let counted : Heap :=
    { heap with counts.partialCollections := heap.counts.partialCollections + 1 }
  have counts : counted.Tabled := ⟨tabled.nodup, tabled.live, tabled.listed⟩
  have kept : ∀ slot ∈ counted.old, counted.Reaches (counted.seeds counted.tenured roots) slot :=
    fun slot member => reaches_of_mem_take counts counted.tenured roots member
  calc (heap.partialCollect roots).old
      = counted.old.filter (fun slot => counted.Reaches (counted.seeds counted.tenured roots) slot)
          := (old_compact_eq_iff counts counted.tenured roots).mpr (.inl kept)
    _ = counted.old := by
        rw [List.filter_eq_self]
        exact fun slot member => decide_eq_true (kept slot member)

theorem tabled_partialCollect : (heap.partialCollect roots).Tabled := by
  let counted : Heap :=
    { heap with counts.partialCollections := heap.counts.partialCollections + 1 }
  have counts : counted.Tabled := ⟨tabled.nodup, tabled.live, tabled.listed⟩
  exact tabled_compact counts counted.tenured roots

end

/-- What counts as old is kept by every later collection among the young entries,
whatever is held from outside by then. -/
theorem live_partialCollects {heap : Heap} (tabled : heap.Tabled) {slot : Nat}
    (member : slot ∈ heap.old) (later : List (List Value)) :
    (later.foldl partialCollect heap).Live slot := by
  induction later generalizing heap with
  | nil => exact tabled.live slot (List.mem_of_mem_take member)
  | cons roots rest induction =>
    refine induction (tabled_partialCollect tabled roots) ?_
    rw [old_partialCollect tabled]
    exact member

end Heap

namespace Rooted

/-- What counts as old after a compaction: the old survivors, and in the places
of the freed old entries the first young survivors, as many as there are. So no
young object comes to count as old exactly when no old one was freed or no young
one survived; otherwise one does, and every later collection among the young
keeps it, whatever is held from outside. -/
theorem old_entries_after_compact {ρ : Type} [RootSet ρ] (rooted : Rooted ρ) (start : Nat)
    (tabled : rooted.heap.Tabled) :
    let heap := rooted.heap
    let swept := (rooted.compact start).heap
    let Kept := heap.Reaches (heap.seeds start rooted.rootValues)
    let survivors := heap.old.filter fun slot => Kept slot
    swept.old = survivors ++
        (heap.young.filter fun slot => Kept slot).take (heap.tenured - survivors.length) ∧
      (swept.old = survivors ↔
        (∀ slot ∈ heap.old, Kept slot) ∨ ∀ slot ∈ heap.young, ¬ Kept slot) ∧
      (heap.tenured ≤ start → swept.old = heap.old) ∧
      ∀ slot ∈ swept.old, ∀ later : List (List Value),
        (later.foldl Heap.partialCollect swept).Live slot := by
  intro heap swept Kept survivors
  have exact_iff := Heap.old_compact_eq_iff tabled start rooted.rootValues
  refine ⟨Heap.old_compact tabled start _, exact_iff, ?_, ?_⟩
  · intro early
    have kept : ∀ slot ∈ heap.old, Kept slot := fun slot member =>
      Heap.reaches_of_mem_take tabled start _ (List.take_subset_take_left _ early member)
    refine (exact_iff.mpr (.inl kept)).trans (List.filter_eq_self.mpr ?_)
    exact fun slot member => decide_eq_true (kept slot member)
  · intro slot member later
    exact Heap.live_partialCollects (Heap.tabled_compact tabled start _) member later

/-- Three objects, the second of which is the class of all of them. The first two
are old, and the second and the third are held from outside. -/
def sampleNursery : Rooted RootLists :=
  let leaf : Option HeapObject :=
    some { species := .object 1, format := 1, body := .pointers #[] }
  { heap :=
      { cells := #[leaf, leaf, leaf]
        table := #[0, 1, 2]
        capacity := 3
        limit := 3
        growth := 1
        attempts := 1
        tenured := 2 }
    roots := { strong := [.object 1, .object 2] } }

/-- In the sample a compaction of everything makes the young object old, and it
stays when nobody holds it any more. -/
theorem old_entries_sampleNursery :
    sampleNursery.heap.Tabled ∧ sampleNursery.heap.young = [2] ∧
      (sampleNursery.compact 0).heap.old = [1, 2] ∧
      ((sampleNursery.compact 0).heap.partialCollect []).Live 2 := by
  have tabled : sampleNursery.heap.Tabled := by
    refine ⟨by decide, by decide, fun slot live => ?_⟩
    have bounded : slot < 3 := live.lt_size
    have all : ∀ slot < 3, slot ∈ sampleNursery.heap.table.toList := by decide
    exact all slot bounded
  rcases old_entries_after_compact sampleNursery 0 tabled with ⟨entries, -, -, lasting⟩
  have old : (sampleNursery.compact 0).heap.old = [1, 2] := by
    rw [entries]
    decide
  refine ⟨tabled, rfl, old, ?_⟩
  have member : 2 ∈ (sampleNursery.compact 0).heap.old := by
    rw [old]
    decide
  exact lasting 2 member [[]]

end Rooted

end Smalltalk
