import Smalltalk.Primitive.Allocation
import Smalltalk.Primitive.Arithmetic
import Smalltalk.Primitive.Control
import Smalltalk.Primitive.Devices
import Smalltalk.Primitive.Indexed
import Smalltalk.Primitive.System

namespace Smalltalk

/-! Methods name their primitive by number. A range of numbers stands for quick
primitives, which answer the receiver, a constant or a field; the others are
listed in a table. -/

/-- The numbered primitives. -/
inductive Primitive where
  | integer (operation : IntegerOperation)
  | compareIntegers (comparison : Comparison)
  | makePoint
  | asFloat
  | float (operation : FloatOperation)
  | compareFloats (comparison : Comparison)
  | truncated
  | elementAt (chars : Bool)
  | setElementAt (chars : Bool)
  | size
  | literalAt
  | literalAtPut
  | basicNew
  | basicNewWithSize
  | instanceVariableAt
  | instanceVariableAtPut
  | identityHash
  | someInstance
  | nextInstance
  | newMethod
  | blockCopy
  | blockValue
  | perform
  | performWithArguments
  | performInSuperclass
  | signal
  | wait
  | resume
  | suspend
  | yieldActive
  | relinquish
  | flushCaches
  | flushMethod
  | flushSelector
  | mousePoint
  | setMousePoint
  | mouseButtons
  | nextKey
  | peekKey
  | beCursor
  | beDisplay
  | forceDisplay
  | screenSize
  | replaceFromTo
  | identical
  | species
  | slotsLeft
  | quit
  | become (twoWay : Bool)
  | specialObjectsArray
  | fullCollection
  | partialCollection
  | millisecondClock
  | signalAt
  | secondsClock
  | someObject
  | nextObject
  | copy
deriving DecidableEq

namespace Primitive

/-- The primitives with their numbers and names. -/
def table : List (Nat × String × Primitive) :=
  [ (1, "add", .integer .add),
    (2, "subtract", .integer .subtract),
    (3, "less_than", .compareIntegers .lessThan),
    (4, "greater_than", .compareIntegers .greaterThan),
    (5, "less_or_equal", .compareIntegers .lessOrEqual),
    (6, "greater_or_equal", .compareIntegers .greaterOrEqual),
    (7, "equal", .compareIntegers .equal),
    (8, "not_equal", .compareIntegers .notEqual),
    (9, "multiply", .integer .multiply),
    (10, "divide", .integer .divide),
    (11, "modulo", .integer .modulo),
    (12, "div", .integer .div),
    (13, "quo", .integer .quo),
    (14, "bit_and", .integer .bitAnd),
    (15, "bit_or", .integer .bitOr),
    (16, "bit_xor", .integer .bitXor),
    (17, "bit_shift", .integer .bitShift),
    (18, "make_point", .makePoint),
    (40, "as_float", .asFloat),
    (41, "float_add", .float .add),
    (42, "float_subtract", .float .subtract),
    (43, "float_less_than", .compareFloats .lessThan),
    (44, "float_greater_than", .compareFloats .greaterThan),
    (45, "float_less_or_equal", .compareFloats .lessOrEqual),
    (46, "float_greater_or_equal", .compareFloats .greaterOrEqual),
    (47, "float_equal", .compareFloats .equal),
    (48, "float_not_equal", .compareFloats .notEqual),
    (49, "float_multiply", .float .multiply),
    (50, "float_divide", .float .divide),
    (51, "float_truncated", .truncated),
    (60, "at", .elementAt false),
    (61, "at_put", .setElementAt false),
    (62, "size", .size),
    (63, "string_at", .elementAt true),
    (64, "string_at_put", .setElementAt true),
    (68, "object_at", .literalAt),
    (69, "object_at_put", .literalAtPut),
    (70, "basic_new", .basicNew),
    (71, "basic_new_with_arg", .basicNewWithSize),
    (73, "inst_var_at", .instanceVariableAt),
    (74, "inst_var_at_put", .instanceVariableAtPut),
    (75, "as_oop", .identityHash),
    (77, "some_instance", .someInstance),
    (78, "next_instance", .nextInstance),
    (79, "new_method", .newMethod),
    (80, "block_copy", .blockCopy),
    (81, "block_value", .blockValue),
    (83, "perform", .perform),
    (84, "perform_with_arguments", .performWithArguments),
    (85, "signal", .signal),
    (86, "wait", .wait),
    (87, "resume", .resume),
    (88, "suspend", .suspend),
    (89, "flush_cache", .flushCaches),
    (90, "mouse_point", .mousePoint),
    (91, "cursor_location", .setMousePoint),
    (100, "perform_in_superclass", .performInSuperclass),
    (101, "be_cursor", .beCursor),
    (102, "be_display", .beDisplay),
    (105, "replace_from_to", .replaceFromTo),
    (106, "screen_size", .screenSize),
    (107, "mouse_buttons", .mouseButtons),
    (108, "keyboard_next", .nextKey),
    (109, "keyboard_peek", .peekKey),
    (110, "equivalent", .identical),
    (111, "class", .species),
    (112, "bytes_left", .slotsLeft),
    (113, "quit", .quit),
    (116, "flush_cache_by_method", .flushMethod),
    (119, "flush_cache_selective", .flushSelector),
    (127, "force_display_update", .forceDisplay),
    (128, "array_become", .become true),
    (129, "special_objects_oop", .specialObjectsArray),
    (130, "full_gc", .fullCollection),
    (131, "incremental_gc", .partialCollection),
    (135, "millisecond_clock", .millisecondClock),
    (136, "signal_at_milliseconds", .signalAt),
    (137, "seconds_clock", .secondsClock),
    (138, "some_object", .someObject),
    (139, "next_object", .nextObject),
    (148, "clone", .copy),
    (167, "yield", .yieldActive),
    (230, "relinquish_processor", .relinquish),
    (248, "array_become_one_way", .become false) ]

/-- The primitive with a number, if the table has it. -/
def ofNumber? (number : Nat) : Option Primitive := (table.lookup number).map Prod.snd

/-- The name of the primitive with a number. -/
def nameOf? (number : Nat) : Option String := (table.lookup number).map Prod.fst

/-- The numbers of the table are in increasing order, so none comes twice. -/
example : (table.map Prod.fst).Pairwise (· < ·) := by decide +kernel

/-- Run a primitive for a message with `count` arguments. -/
def run (send : Reply.Sender) : Primitive → (count : Nat) → Run Bool
  | integer operation, count => Reply.integerOperation operation count
  | compareIntegers comparison, count => Reply.integerComparison comparison count
  | makePoint, count => Reply.pointOf count
  | asFloat, count => Reply.asFloat count
  | float .divide, count => Reply.floatDivision count
  | float operation, count => Reply.floatOperation operation count
  | compareFloats comparison, count => Reply.floatComparison comparison count
  | truncated, count => Reply.truncated count
  | elementAt chars, count => Reply.elementAt chars count
  | setElementAt chars, count => Reply.setElementAt chars count
  | size, count => Reply.sizeOf count
  | literalAt, count => Reply.literalAt count
  | literalAtPut, count => Reply.setLiteralAt count
  | basicNew, count => Reply.basicNew count
  | basicNewWithSize, count => Reply.basicNewWithSize count
  | instanceVariableAt, count => Reply.instanceVariableAt count
  | instanceVariableAtPut, count => Reply.setInstanceVariableAt count
  | identityHash, count => Reply.identityHash count
  | someInstance, count => Reply.someInstance count
  | nextInstance, count => Reply.nextInstance count
  | newMethod, count => Reply.newMethod count
  | blockCopy, count => Reply.blockCopy count
  | blockValue, count => Reply.blockValue count
  | perform, count => Reply.perform send count
  | performWithArguments, count => Reply.performWithArguments send count
  | performInSuperclass, count => Reply.performInSuperclass send count
  | signal, count => Reply.signalSemaphore count
  | wait, count => Reply.waitSemaphore count
  | resume, count => Reply.resumeProcess count
  | suspend, count => Reply.suspendProcess count
  | yieldActive, _ => Reply.yieldActive
  | relinquish, count => Reply.relinquish count
  | flushCaches, _ => Reply.flushCaches
  | flushMethod, count => Reply.flushMethod count
  | flushSelector, count => Reply.flushSelector count
  | mousePoint, count => Reply.mousePoint count
  | setMousePoint, count => Reply.setMousePoint count
  | mouseButtons, count => Reply.mouseButtons count
  | nextKey, count => Reply.nextKey count
  | peekKey, count => Reply.peekKey count
  | beCursor, count => Reply.beCursor count
  | beDisplay, count => Reply.beDisplay count
  | forceDisplay, count => Reply.forceDisplay count
  | screenSize, count => Reply.screenSize count
  | replaceFromTo, count => Reply.replaceFromTo count
  | identical, count => Reply.identical count
  | species, count => Reply.species count
  | slotsLeft, count => Reply.slotsLeft count
  | quit, _ => Reply.quit
  | become twoWay, count => Reply.become twoWay count
  | specialObjectsArray, count => Reply.specialObjectsArray count
  | fullCollection, count => Reply.fullCollection count
  | partialCollection, count => Reply.partialCollection count
  | millisecondClock, count => Reply.millisecondClock count
  | signalAt, count => Reply.signalAt count
  | secondsClock, count => Reply.secondsClock count
  | someObject, count => Reply.someObject count
  | nextObject, count => Reply.nextObject count
  | copy, count => Reply.copy count

end Primitive

end Smalltalk
