namespace Smalltalk

/-! Where the machine finds things: the places of the special objects array and
the fields of the objects that the machine itself reads and writes. -/

/-! ## The special objects array -/

namespace Special

def nil : Nat := 0
def false : Nat := 1
def true : Nat := 2
def schedulerAssociation : Nat := 3
def bitmapClass : Nat := 4
def smallIntegerClass : Nat := 5
def stringClass : Nat := 6
def arrayClass : Nat := 7
def floatClass : Nat := 9
def methodContextClass : Nat := 10
def blockContextClass : Nat := 11
def pointClass : Nat := 12
def largePositiveIntegerClass : Nat := 13
def display : Nat := 14
def messageClass : Nat := 15
def compiledMethodClass : Nat := 16
def semaphoreClass : Nat := 18
def characterClass : Nat := 19
def doesNotUnderstand : Nat := 20
def cannotReturn : Nat := 21
def specialSelectors : Nat := 23
def characterTable : Nat := 24
def mustBeBoolean : Nat := 25
def byteArrayClass : Nat := 26
def processClass : Nat := 27
def compactClasses : Nat := 28
def timerSemaphore : Nat := 29
def interruptSemaphore : Nat := 30

/-- The number of places. -/
def count : Nat := 31

end Special

/-! ## Fields of classes, methods and messages -/

namespace ClassField

def superclass : Nat := 0
def methodDictionary : Nat := 1
def format : Nat := 2
def name : Nat := 6

/-- The number of fields. -/
def count : Nat := 7

end ClassField

namespace DictionaryField

def tally : Nat := 0
def methods : Nat := 1
/-- The first selector; its method is the first of the method array. -/
def selectors : Nat := 2

end DictionaryField

namespace MessageField

def selector : Nat := 0
def arguments : Nat := 1
def lookupClass : Nat := 2

end MessageField

namespace AssociationField

def key : Nat := 0
def value : Nat := 1

end AssociationField

/-! ## Fields of processes and the lists they wait in -/

namespace SchedulerField

def processLists : Nat := 0
def activeProcess : Nat := 1

end SchedulerField

namespace ProcessField

def nextLink : Nat := 0
def suspendedContext : Nat := 1
def priority : Nat := 2
def myList : Nat := 3

end ProcessField

namespace ListField

def firstLink : Nat := 0
def lastLink : Nat := 1

end ListField

namespace SemaphoreField

/-- Signals that came when nobody waited; a semaphore starts as a list. -/
def excessSignals : Nat := 2

end SemaphoreField

/-! ## Fields of contexts

A method context and a block context share their layout up to the frame. Where
the one has its method the other has its argument count, a small integer, which
tells them apart. -/

namespace ContextField

def sender : Nat := 0
def pc : Nat := 1
def stackPointer : Nat := 2
def method : Nat := 3
def receiver : Nat := 5
/-- The first temporary. -/
def frame : Nat := 6

end ContextField

namespace BlockField

def caller : Nat := 0
def argumentCount : Nat := 3
def initialPc : Nat := 4
def home : Nat := 5

end BlockField

/-! ## Fields of other objects -/

namespace PointField

def x : Nat := 0
def y : Nat := 1

end PointField

namespace CharacterField

def value : Nat := 0

end CharacterField

namespace FormField

def bits : Nat := 0
def width : Nat := 1
def height : Nat := 2
def depth : Nat := 3

end FormField

end Smalltalk
