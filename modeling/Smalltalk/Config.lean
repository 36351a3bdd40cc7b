namespace Smalltalk

/-! The sizes and rates that a virtual machine is started with. They are fixed
for its whole life, so they are checked once, before it starts. -/

/-- Sizes of the object table and the lookup caches, frame sizes, and the rates
of the interrupt feedback. -/
structure Config where
  methodCacheSize : Nat := 1024
  /-- Slots tried before an entry of the method cache is evicted. -/
  methodCacheProbes : Nat := 4
  atCacheSize : Nat := 32
  /-- Capacity of the object table at the start. -/
  tableSize : Nat := 500000
  /-- Capacity that the object table never exceeds. -/
  tableMaxSize : Nat := 1600000
  /-- Slots added when the object table grows. -/
  tableGrowSize : Nat := 10000
  /-- Collections attempted before the object table grows. -/
  compactionAttempts : Nat := 5
  smallFrameSize : Nat := 16
  largeFrameSize : Nat := 56
  /-- Lower bound of the interrupt countdown. -/
  interruptResetFloor : Int := 1000
  /-- Added to the countdown when checks come too often. -/
  interruptResetIncrement : Int := 10
  /-- Taken from the countdown when they do not. -/
  interruptResetDecrement : Int := 12
  /-- Wanted milliseconds between two interrupt checks. -/
  interruptTarget : Int := 3
  /-- Milliseconds between two polls for input. -/
  pollInterval : Int := 500
  /-- Keys kept before further ones are dropped. -/
  typeaheadLimit : Nat := 8
deriving DecidableEq, Inhabited

/-- Why a configuration is refused. -/
inductive ConfigError where
  | methodCacheSize
  | atCacheSize
  | methodCacheProbes
  | emptyTable
  | tableTooLarge
  | frameSizes
  | interruptResetFloor
deriving DecidableEq, Repr

namespace ConfigError

def message : ConfigError → String
  | methodCacheSize => "method_cache_size must be a power of two"
  | atCacheSize => "at_cache_size must be a power of two"
  | methodCacheProbes => "method_cache_probes must be > 0"
  | emptyTable => "table sizes must be > 0"
  | tableTooLarge => "table_size exceeds table_max_size"
  | frameSizes => "large_frame_size must be >= small_frame_size > 0"
  | interruptResetFloor => "interrupt_reset_floor must be > 0"

end ConfigError

namespace Config

/-- A configuration with a small object table. -/
def compact : Config :=
  { tableSize := 1024, tableMaxSize := 65536, tableGrowSize := 256 }

/-- Whether `n` is a power of two. -/
def isPowerOfTwo (n : Nat) : Bool := n ≠ 0 ∧ n &&& (n - 1) = 0

/-- Accept a configuration or name the first rule it breaks. -/
def validate (config : Config) : Except ConfigError Unit :=
  if !isPowerOfTwo config.methodCacheSize then
    .error .methodCacheSize
  else if !isPowerOfTwo config.atCacheSize then
    .error .atCacheSize
  else if config.methodCacheProbes = 0 then
    .error .methodCacheProbes
  else if config.tableSize = 0 ∨ config.tableGrowSize = 0 then
    .error .emptyTable
  else if config.tableMaxSize < config.tableSize then
    .error .tableTooLarge
  else if config.smallFrameSize = 0 ∨ config.largeFrameSize < config.smallFrameSize then
    .error .frameSizes
  else if config.interruptResetFloor ≤ 0 then
    .error .interruptResetFloor
  else
    .ok ()

example : (validate {}).isOk = true := by decide
example : (validate compact).isOk = true := by decide

end Config

end Smalltalk
