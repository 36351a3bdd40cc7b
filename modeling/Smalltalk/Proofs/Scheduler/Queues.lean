import Smalltalk.Machine.Scheduling
import Smalltalk.Proofs.Machine.Ensures

namespace Smalltalk

/-! A queue of processes lies in the heap as a chain of links. Adding a link to its
end and removing its first one write a few fields, and what these fields come to
hold makes the longer or the shorter queue. -/

namespace Heap

/-- Each link names the next one, and the last one names nil. -/
def Linked (heap : Heap) (nil : Value) : List Value → Prop
  | [] => True
  | link :: rest =>
    heap.fetch link ProcessField.nextLink = .ok (rest.head?.getD nil) ∧ heap.Linked nil rest

/-- A list is a chain from its first to its last link, and each link names the list
that it is in. -/
structure Queues (heap : Heap) (nil list : Value) (members : List Value) : Prop where
  first : heap.fetch list ListField.firstLink = .ok (members.head?.getD nil)
  last : heap.fetch list ListField.lastLink = .ok (members.getLast?.getD nil)
  linked : heap.Linked nil members
  named : ∀ link ∈ members, heap.fetch link ProcessField.myList = .ok list

instance (heap : Heap) (nil : Value) : (members : List Value) → Decidable (heap.Linked nil members)
  | [] => isTrue trivial
  | link :: rest =>
    have := instDecidableLinked heap nil rest
    inferInstanceAs (Decidable (heap.fetch link ProcessField.nextLink
      = .ok (rest.head?.getD nil) ∧ heap.Linked nil rest))

instance (heap : Heap) (nil list : Value) (members : List Value) :
    Decidable (heap.Queues nil list members) :=
  decidable_of_iff (heap.fetch list ListField.firstLink = .ok (members.head?.getD nil) ∧
    heap.fetch list ListField.lastLink = .ok (members.getLast?.getD nil) ∧
    heap.Linked nil members ∧
    ∀ link ∈ members, heap.fetch link ProcessField.myList = .ok list)
    ⟨fun ⟨first, last, linked, named⟩ => ⟨first, last, linked, named⟩,
      fun ⟨first, last, linked, named⟩ => ⟨first, last, linked, named⟩⟩

variable {before after : Heap} {nil list link : Value} {members : List Value}

theorem Linked.frame (linked : before.Linked nil members)
    (same : ∀ link ∈ members,
      after.fetch link ProcessField.nextLink = before.fetch link ProcessField.nextLink) :
    after.Linked nil members := by
  induction members with
  | nil => trivial
  | cons link rest induction =>
    refine ⟨(same link (List.mem_cons_self ..)).trans linked.1, induction linked.2 ?_⟩
    exact fun other member => same other (List.mem_cons_of_mem _ member)

/-- A chain is longer by a link when its last one names that link and nothing else
has changed. -/
theorem Linked.append (linked : before.Linked nil members) (nodup : members.Nodup)
    (same : ∀ other ∈ members, members.getLast? ≠ some other →
      after.fetch other ProcessField.nextLink = before.fetch other ProcessField.nextLink)
    (joined : ∀ last, members.getLast? = some last →
      after.fetch last ProcessField.nextLink = .ok link)
    (ended : after.fetch link ProcessField.nextLink = .ok nil) :
    after.Linked nil (members ++ [link]) := by
  induction members with
  | nil => exact ⟨ended, trivial⟩
  | cons first rest induction =>
    rcases List.nodup_cons.mp nodup with ⟨new, distinct⟩
    cases rest with
    | nil => exact ⟨joined first rfl, ended, trivial⟩
    | cons second rest =>
      have further : (first :: second :: rest).getLast? = (second :: rest).getLast? :=
        List.getLast?_cons_cons
      refine ⟨?_, induction linked.2 distinct (fun other member different => ?_) ?_⟩
      · refine (same first (List.mem_cons_self ..) fun isLast => ?_).trans linked.1
        rw [further] at isLast
        exact new (List.mem_of_getLast? isLast)
      · exact same other (List.mem_cons_of_mem _ member) (further ▸ different)
      · exact fun last isLast => joined last (further.trans isLast)

/-- Nothing changes in a queue unless one of its fields does. -/
theorem Queues.frame (queues : before.Queues nil list members)
    (first : after.fetch list ListField.firstLink = before.fetch list ListField.firstLink)
    (last : after.fetch list ListField.lastLink = before.fetch list ListField.lastLink)
    (linked : ∀ link ∈ members,
      after.fetch link ProcessField.nextLink = before.fetch link ProcessField.nextLink)
    (named : ∀ link ∈ members,
      after.fetch link ProcessField.myList = before.fetch link ProcessField.myList) :
    after.Queues nil list members where
  first := first.trans queues.first
  last := last.trans queues.last
  linked := queues.linked.frame linked
  named link member := (named link member).trans (queues.named link member)

/-! ## Adding a link -/

/-- The object whose first field names what stands at the end of a queue. -/
def joint (list : Value) (members : List Value) : Value := members.getLast?.getD list

theorem joint_eq (list : Value) (members : List Value) :
    joint list members = list ∧ members = [] ∨ joint list members ∈ members := by
  rw [joint]
  cases last : members.getLast? with
  | none => exact .inl ⟨rfl, List.getLast?_eq_none_iff.mp last⟩
  | some link => exact .inr (List.mem_of_getLast? last)

/-- A link has been put behind an object and is the last one of a list. -/
structure Joined (before after : Heap) (front link list : Value) : Prop where
  joins : after.fetch front ListField.firstLink = .ok link
  last : after.fetch list ListField.lastLink = .ok link
  named : after.fetch link ProcessField.myList = .ok list
  others : ∀ other place, (front ≠ other ∨ ListField.firstLink ≠ place) →
    (list ≠ other ∨ ListField.lastLink ≠ place) → (link ≠ other ∨ ProcessField.myList ≠ place) →
      after.fetch other place = before.fetch other place

theorem Queues.append (queues : before.Queues nil list members) (nodup : members.Nodup)
    (joined : before.Joined after (joint list members) link list) (outside : list ∉ members)
    (new : link ∉ members) (apart : link ≠ list)
    (ended : before.fetch link ProcessField.nextLink = .ok nil) :
    after.Queues nil list (members ++ [link]) := by
  have away : joint list members ≠ link := by
    rcases joint_eq list members with ⟨same, -⟩ | member
    · rw [same]
      exact apart.symm
    · exact fun same => new (same ▸ member)
  refine ⟨?_, ?_, ?_, ?_⟩
  · cases members with
    | nil => exact joined.joins
    | cons first rest =>
      have different : joint list (first :: rest) ≠ list := by
        rcases joint_eq list (first :: rest) with ⟨-, absurd⟩ | member
        · cases absurd
        · exact fun same => outside (same ▸ member)
      have kept := joined.others list ListField.firstLink (.inl different) (.inr (by decide))
        (.inr (by decide))
      exact kept.trans queues.first
  · rw [List.getLast?_concat]
    exact joined.last
  · refine queues.linked.append nodup (fun other member different => ?_) (fun last isLast => ?_) ?_
    · refine joined.others other ProcessField.nextLink (.inl fun same => ?_) (.inr (by decide))
        (.inr (by decide))
      rcases joint_eq list members with ⟨-, rfl⟩ | inside
      · cases member
      · rw [joint] at same
        cases last : members.getLast? with
        | none => exact absurd (List.getLast?_eq_none_iff.mp last ▸ member) List.not_mem_nil
        | some link =>
          rw [last, Option.getD_some] at same
          exact different (last.trans (congrArg some same))
    · have same : joint list members = last := by rw [joint, isLast, Option.getD_some]
      exact same ▸ joined.joins
    · have kept := joined.others link ProcessField.nextLink (.inl away) (.inr (by decide))
        (.inr (by decide))
      exact kept.trans ended
  · intro other member
    rcases List.mem_append.mp member with old | added
    · have away : link ≠ other := fun same => new (same ▸ old)
      have kept := joined.others other ProcessField.myList (.inr (by decide)) (.inr (by decide))
        (.inl away)
      exact kept.trans (queues.named other old)
    · rw [List.mem_singleton.mp added]
      exact joined.named

/-! ## Removing a link -/

/-- A list has been given other ends. -/
structure Ends (before after : Heap) (list head rear : Value) : Prop where
  first : after.fetch list ListField.firstLink = .ok head
  last : after.fetch list ListField.lastLink = .ok rear
  others : ∀ other place, list ≠ other → after.fetch other place = before.fetch other place

/-- A link has been taken out of a list, whose ends are others then. -/
structure Parted (before after : Heap) (nil list link head rear : Value) : Prop where
  first : after.fetch list ListField.firstLink = .ok head
  last : after.fetch list ListField.lastLink = .ok rear
  unlinked : after.fetch link ProcessField.nextLink = .ok nil
  others : ∀ other place, list ≠ other →
    (link ≠ other ∨ ProcessField.nextLink ≠ place ∧ ProcessField.myList ≠ place) →
      after.fetch other place = before.fetch other place

theorem Queues.tail (queues : before.Queues nil list (link :: members))
    (nodup : (link :: members).Nodup) (outside : list ∉ members)
    (parted : before.Parted after nil list link (members.head?.getD nil)
      (members.getLast?.getD nil)) :
    after.Queues nil list members := by
  have same (other : Value) (member : other ∈ members) (place : Nat) :
      after.fetch other place = before.fetch other place := by
    refine parted.others other place (fun same => outside (same ▸ member)) (.inl fun same => ?_)
    exact (List.nodup_cons.mp nodup).1 (same ▸ member)
  exact
    { first := parted.first
      last := parted.last
      linked := queues.linked.2.frame fun other member => same other member _
      named := fun other member =>
        (same other member _).trans (queues.named other (List.mem_cons_of_mem _ member)) }

/-- The first link is the last one only if there are no others. -/
theorem first_eq_last_iff (nil : Value) {members : List Value} (nodup : (link :: members).Nodup) :
    link = (link :: members).getLast?.getD nil ↔ members = [] := by
  cases members with
  | nil => simp
  | cons second rest =>
    rw [List.getLast?_cons_cons]
    cases last : (second :: rest).getLast? with
    | none => exact absurd (List.getLast?_eq_none_iff.mp last) (List.cons_ne_nil _ _)
    | some other =>
      refine iff_of_false (fun same => ?_) (List.cons_ne_nil _ _)
      exact (List.nodup_cons.mp nodup).1 (same ▸ List.mem_of_getLast? last)

end Heap

end Smalltalk
