import Mathlib.Data.Nat.Bitwise
import Smalltalk.Device.Input

namespace Smalltalk

/-! Whatever is asked of an input queue, and in whatever order, what it accepts comes out of it:
every accepted key is read once, in the order of the presses, and no more of them wait than the
limit allows. The two flags go past the keys. Each of them tells whether something happened
since the flag was last asked for. -/

/-- What devices and machine can do with an input queue. A wait that finds nothing goes on, while
others may use the queue, until it wakes. -/
inductive InputCall where
  | report (event : InputEvent)
  | peek
  | next
  | takeInterrupt
  | wait
  | wake
deriving DecidableEq

namespace InputCall

/-- The queue that a call leaves. -/
def perform (queue : InputQueue) : InputCall → InputQueue
  | report event => queue.receive event
  | peek => queue
  | next => queue.nextKey.2
  | takeInterrupt => queue.takeInterrupt.2
  | wait | wake => queue.takePending.2

/-- The queue after some calls, the latest of which comes first. -/
def after (limit : Nat) : List InputCall → InputQueue
  | [] => { limit }
  | call :: earlier => call.perform (after limit earlier)

/-- The modifier keys in force, which are those of the last report of them. -/
def modifiers : List InputCall → UInt32
  | [] => 0
  | report (.modifiers mask) :: _ => mask
  | _ :: earlier => modifiers earlier

/-- The keys that a call puts behind those that wait. -/
def added (queue : InputQueue) (call : InputCall) : List UInt32 :=
  (call.perform queue).keys.drop queue.keys.length

/-- The key that a call reads. -/
def read (queue : InputQueue) : InputCall → Option UInt32
  | next => queue.nextKey.1
  | _ => none

/-- The keys that a queue accepted, in the order of the presses. -/
def accepted (limit : Nat) : List InputCall → List UInt32
  | [] => []
  | call :: earlier => accepted limit earlier ++ call.added (after limit earlier)

/-- The keys that were read from a queue, in the order of the calls. -/
def taken (limit : Nat) : List InputCall → List UInt32
  | [] => []
  | call :: earlier => taken limit earlier ++ (call.read (after limit earlier)).toList

/-- The interrupt key is pressed after some calls. -/
def Interrupts (earlier : List InputCall) : InputCall → Prop
  | report (.key character) =>
    InputQueue.keyCode (modifiers earlier) character = InputQueue.interruptCode
  | _ => False

/-- A device reports something. -/
def Reports : InputCall → Prop
  | report _ => True
  | _ => False

/-- A call has happened, and none that ends its effect came after it. -/
inductive Since (happens : List InputCall → InputCall → Prop) (ends : InputCall → Prop) :
    List InputCall → Prop
  | now {earlier : List InputCall} {call : InputCall} (happened : happens earlier call) :
    Since happens ends (call :: earlier)
  | later {earlier : List InputCall} {call : InputCall} (before : Since happens ends earlier)
    (goesOn : ¬ends call) : Since happens ends (call :: earlier)

/-- The interrupt key was pressed since that was last asked. -/
abbrev InterruptedSince : List InputCall → Prop := Since Interrupts (· = takeInterrupt)

/-- A device reported something since the last wait. -/
abbrev ReportedSince : List InputCall → Prop :=
  Since (fun _ => Reports) fun call => call = wait ∨ call = wake

end InputCall

namespace InputQueue

variable {queue : InputQueue} {event : InputEvent}

/-- A key code has the character in its low byte and the modifiers above it. -/
theorem toNat_keyCode (modifiers character : UInt32) :
    (keyCode modifiers character).toNat =
      modifiers.toNat / 8 % 2 ^ 24 * 2 ^ 8 + character.toNat % 2 ^ 8 := by
  have low : character.toNat &&& 0xFF = character.toNat % 2 ^ 8 :=
    Nat.and_two_pow_sub_one_eq_mod _ 8
  have high : (modifiers.toNat >>> 3) <<< 8 % 2 ^ 32 = (modifiers.toNat / 8 % 2 ^ 24) <<< 8 := by
    rw [Nat.shiftRight_eq_div_pow, Nat.shiftLeft_eq, Nat.shiftLeft_eq,
      show 2 ^ 32 = 2 ^ 24 * 2 ^ 8 from rfl, Nat.mul_mod_mul_right]
  have apart : character.toNat % 2 ^ 8 < 2 ^ 8 := Nat.mod_lt _ (by decide)
  calc (keyCode modifiers character).toNat
      = (character.toNat &&& 0xFF) ||| (modifiers.toNat >>> 3) <<< 8 % 2 ^ 32 := by
        simp [keyCode]
    _ = (modifiers.toNat / 8 % 2 ^ 24) <<< 8 + character.toNat % 2 ^ 8 := by
        rw [low, high, Nat.or_comm, Nat.shiftLeft_add_eq_or_of_lt apart]
    _ = _ := by rw [Nat.shiftLeft_eq]

@[simp] theorem limit_receive : (queue.receive event).limit = queue.limit := by
  cases event <;> simp only [receive, enqueue]
  split
  · rfl
  · split <;> rfl

@[simp] theorem pending_receive : (queue.receive event).pending = true := rfl

theorem snapshot_receive_key (character : UInt32) :
    (queue.receive (.key character)).snapshot = queue.snapshot := by
  simp only [receive, enqueue]
  split
  · rfl
  · split <;> rfl

/-- A pressed key waits behind the others unless it interrupts or the queue is full. -/
theorem keys_receive_key (character : UInt32) :
    (queue.receive (.key character)).keys =
      let code := keyCode queue.snapshot.modifiers character
      queue.keys ++
        if code ≠ interruptCode ∧ queue.keys.length < queue.limit then [code] else [] := by
  simp only [receive, enqueue]
  grind

theorem interrupted_receive_key (character : UInt32) :
    (queue.receive (.key character)).interrupted = true ↔
      keyCode queue.snapshot.modifiers character = interruptCode ∨ queue.interrupted = true := by
  simp only [receive, enqueue]
  grind

end InputQueue

namespace InputCall

variable {limit : Nat} {calls earlier : List InputCall} {call : InputCall}
  {happens : List InputCall → InputCall → Prop} {ends : InputCall → Prop}

theorem not_since_nil : ¬Since happens ends [] := nofun

theorem since_cons_iff :
    Since happens ends (call :: earlier) ↔
      happens earlier call ∨ (¬ends call ∧ Since happens ends earlier) := by
  constructor
  · rintro (happened | ⟨before, goesOn⟩)
    · exact .inl happened
    · exact .inr ⟨goesOn, before⟩
  · rintro (happened | ⟨goesOn, before⟩)
    · exact .now happened
    · exact .later before goesOn

/-! ## One call -/

@[simp] theorem limit_perform (queue : InputQueue) (call : InputCall) :
    (call.perform queue).limit = queue.limit := by
  cases call with
  | report event => exact InputQueue.limit_receive
  | peek | next | takeInterrupt | wait | wake => rfl

/-- Only a press adds a key, if it does not interrupt and there is room. -/
theorem added_eq (queue : InputQueue) (call : InputCall) :
    call.added queue =
      match call with
      | report (.key character) =>
        let code := InputQueue.keyCode queue.snapshot.modifiers character
        if code ≠ InputQueue.interruptCode ∧ queue.keys.length < queue.limit then [code] else []
      | _ => [] := by
  rw [added]
  cases call with
  | report event =>
    cases event with
    | key character =>
      rw [perform, InputQueue.keys_receive_key]
      exact List.drop_left
    | moved | buttons | modifiers => exact List.drop_length
  | next => simp [perform, InputQueue.nextKey]
  | peek | takeInterrupt | wait | wake => exact List.drop_length

/-- A call takes keys from the front only, and adds keys behind the others only. -/
theorem keys_append_added (queue : InputQueue) (call : InputCall) :
    queue.keys ++ call.added queue = (call.read queue).toList ++ (call.perform queue).keys := by
  cases call with
  | report event =>
    cases event with
    | key character =>
      rw [added_eq, perform, InputQueue.keys_receive_key]
      rfl
    | moved | buttons | modifiers => simp [added_eq, read, perform, InputQueue.receive]
  | next => cases keys : queue.keys <;> simp [added_eq, read, perform, InputQueue.nextKey, keys]
  | peek | takeInterrupt | wait | wake =>
    simp [added_eq, read, perform, InputQueue.takeInterrupt, InputQueue.takePending]

theorem length_keys_perform_le (queue : InputQueue) (call : InputCall)
    (bounded : queue.keys.length ≤ queue.limit) :
    (call.perform queue).keys.length ≤ queue.limit := by
  have lengths := congrArg List.length (keys_append_added queue call)
  have added : queue.keys.length + (call.added queue).length ≤ queue.limit := by
    rw [added_eq]
    split
    · dsimp only
      split
      · next room => exact room.2
      · exact bounded
    · exact bounded
  simp only [List.length_append] at lengths
  omega

/-! ## Keys -/

@[simp] theorem limit_after (limit : Nat) (calls : List InputCall) :
    (after limit calls).limit = limit := by
  induction calls with
  | nil => rfl
  | cons call earlier induction => rw [after, limit_perform, induction]

theorem modifiers_after (limit : Nat) (calls : List InputCall) :
    (after limit calls).snapshot.modifiers = modifiers calls := by
  induction calls with
  | nil => rfl
  | cons call earlier induction =>
    cases call with
    | report event =>
      cases event with
      | key character => rw [after, perform, InputQueue.snapshot_receive_key]; exact induction
      | moved | buttons => exact induction
      | modifiers mask => rfl
    | peek | next | takeInterrupt | wait | wake => exact induction

theorem length_keys_after_le (limit : Nat) (calls : List InputCall) :
    (after limit calls).keys.length ≤ limit := by
  induction calls with
  | nil => exact limit.zero_le
  | cons call earlier induction =>
    have bounded := length_keys_perform_le (after limit earlier) call
    rw [limit_after] at bounded
    exact bounded induction

/-- What was read and what still waits are the keys that were accepted. -/
theorem accepted_eq_taken_append (limit : Nat) (calls : List InputCall) :
    accepted limit calls = taken limit calls ++ (after limit calls).keys := by
  induction calls with
  | nil => rfl
  | cons call earlier induction =>
    calc accepted limit (call :: earlier)
        = taken limit earlier ++ ((after limit earlier).keys ++ call.added (after limit earlier)) := by
          rw [accepted, induction, List.append_assoc]
      _ = taken limit (call :: earlier) ++ (after limit (call :: earlier)).keys := by
          rw [keys_append_added, taken, after, List.append_assoc]

/-- The number of keys that wait. -/
theorem length_accepted_sub (limit : Nat) (calls : List InputCall) :
    (accepted limit calls).length - (taken limit calls).length = (after limit calls).keys.length := by
  rw [accepted_eq_taken_append, List.length_append, Nat.add_sub_cancel_left]

/-- The oldest key that waits is the first accepted one that was not read. -/
theorem head?_keys_after (limit : Nat) (calls : List InputCall) :
    (after limit calls).keys.head? = (accepted limit calls)[(taken limit calls).length]? := by
  rw [accepted_eq_taken_append, List.getElem?_append_right (Nat.le_refl _), Nat.sub_self,
    List.head?_eq_getElem?]

theorem taken_append (later : List InputCall) (unread : ∀ call ∈ later, call ≠ next) :
    taken limit (later ++ calls) = taken limit calls := by
  induction later with
  | nil => rfl
  | cons call earlier induction =>
    have nothing : ∀ queue, call.read queue = none := by
      have other := unread call List.mem_cons_self
      cases call with
      | next => exact absurd rfl other
      | report | peek | takeInterrupt | wait | wake => exact fun _ => rfl
    rw [List.cons_append, taken, nothing, induction fun call member =>
      unread call (List.mem_cons_of_mem _ member)]
    exact List.append_nil _

theorem exists_accepted_append (limit : Nat) (later calls : List InputCall) :
    ∃ new, accepted limit (later ++ calls) = accepted limit calls ++ new := by
  induction later with
  | nil => exact ⟨[], (List.append_nil _).symm⟩
  | cons call earlier induction =>
    rcases induction with ⟨new, same⟩
    exact ⟨_, by rw [List.cons_append, accepted, same, List.append_assoc]⟩

/-- As long as nothing is read, what is accepted waits behind the rest. -/
theorem keys_after_append (later : List InputCall) (unread : ∀ call ∈ later, call ≠ next) :
    (after limit (later ++ calls)).keys = (after limit calls).keys ++
      (accepted limit (later ++ calls)).drop (accepted limit calls).length := by
  rcases exists_accepted_append limit later calls with ⟨new, same⟩
  have grown := accepted_eq_taken_append limit (later ++ calls)
  rw [same, taken_append later unread, accepted_eq_taken_append, List.append_assoc] at grown
  rw [same, List.drop_left]
  exact (List.append_cancel_left grown).symm

/-! ## Flags -/

theorem interrupted_after (limit : Nat) (calls : List InputCall) :
    (after limit calls).interrupted = true ↔ InterruptedSince calls := by
  induction calls with
  | nil => exact iff_of_false nofun not_since_nil
  | cons call earlier induction =>
    rw [InterruptedSince, since_cons_iff, ← InterruptedSince, ← induction]
    cases call with
    | report event =>
      cases event with
      | key character =>
        rw [after, perform, InputQueue.interrupted_receive_key, modifiers_after, Interrupts]
        simp
      | moved | buttons | modifiers => simp [after, perform, InputQueue.receive, Interrupts]
    | takeInterrupt => simp [after, perform, InputQueue.takeInterrupt, Interrupts]
    | peek | next | wait | wake =>
      simp [after, perform, InputQueue.nextKey, InputQueue.takePending, Interrupts]

theorem pending_after (limit : Nat) (calls : List InputCall) :
    (after limit calls).pending = true ↔ ReportedSince calls := by
  induction calls with
  | nil => exact iff_of_false nofun not_since_nil
  | cons call earlier induction =>
    rw [ReportedSince, since_cons_iff, ← ReportedSince, ← induction]
    cases call with
    | report event => simp [after, perform, Reports]
    | wait | wake => simp [after, perform, InputQueue.takePending, Reports]
    | peek | next | takeInterrupt =>
      simp [after, perform, InputQueue.nextKey, InputQueue.takeInterrupt, Reports]

/-! ## The queue -/

/-- Keys are read once each and in the order in which they were accepted, and no more of them wait
than the limit allows. A press is accepted when it does not interrupt and there is room for its
key. A key that is seen is the next one to be read; when none was seen, it is the first one that
is accepted later. The answers about interrupts and about waits are whether the interrupt key was
pressed, or anything was reported, since the last such answer. -/
theorem keys_first_in_first_out (limit : Nat) (calls : List InputCall) :
    let queue := after limit calls
    let unread := (accepted limit calls).length - (taken limit calls).length
    (taken limit calls <+: accepted limit calls ∧ unread ≤ limit ∧
      queue.nextKey.1 = (accepted limit calls)[(taken limit calls).length]?) ∧
    (∀ character,
      let code := InputQueue.keyCode (modifiers calls) character
      code.toNat = (modifiers calls).toNat / 8 % 2 ^ 24 * 2 ^ 8 + character.toNat % 2 ^ 8 ∧
      accepted limit (report (.key character) :: calls) = accepted limit calls ++
        if code ≠ InputQueue.interruptCode ∧ unread < limit then [code] else []) ∧
    (∀ call, (∀ character, call ≠ report (.key character)) →
      accepted limit (call :: calls) = accepted limit calls) ∧
    (∀ later : List InputCall, (∀ call ∈ later, call ≠ next) →
      let new := (accepted limit (later ++ calls)).drop (accepted limit calls).length
      (after limit (later ++ calls)).nextKey.1 = queue.peekKey.or new.head?) ∧
    (queue.takeInterrupt.1 = true ↔ InterruptedSince calls) ∧
    (queue.takePending.1 = true ↔ ReportedSince calls) := by
  intro queue unread
  have waiting : unread = queue.keys.length := length_accepted_sub limit calls
  refine ⟨⟨⟨queue.keys, (accepted_eq_taken_append limit calls).symm⟩,
    waiting ▸ length_keys_after_le limit calls, head?_keys_after limit calls⟩,
    fun character => ⟨InputQueue.toNat_keyCode _ _, ?_⟩, fun call other => ?_,
    fun later unreading => ?_, interrupted_after limit calls, pending_after limit calls⟩
  · rw [accepted, added_eq]
    dsimp only
    rw [modifiers_after, limit_after, waiting]
  · rw [accepted, added_eq]
    split
    · next character => exact absurd rfl (other character)
    · exact List.append_nil _
  · rw [InputQueue.nextKey, keys_after_append later unreading, List.head?_append]
    rfl

/-- Of two keys, the one that was seen first is read while the other one arrives. -/
theorem keys_first_in_first_out_two :
    (∀ call ∈ [report (.key 98)], call ≠ next) ∧
      (after 2 [report (.key 98), report (.key 97)]).nextKey.1 = some 97 :=
  ⟨by decide,
    (keys_first_in_first_out 2 [report (.key 97)]).2.2.2.1 [report (.key 98)] (by decide)⟩

/-- To have seen no key does not mean that none will be read next. -/
theorem none_seen_then_one_read :
    ¬∀ (limit : Nat) (calls later : List InputCall), (∀ call ∈ later, call ≠ next) →
      (after limit (later ++ calls)).nextKey.1 = (after limit calls).peekKey := by
  intro foretold
  have pressed := foretold 2 [] [report (.key 97)] (by decide)
  exact absurd pressed (by decide)

end InputCall

end Smalltalk
