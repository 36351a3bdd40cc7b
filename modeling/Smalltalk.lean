import Smalltalk.AtCache
import Smalltalk.ByteSource
import Smalltalk.Bytecode
import Smalltalk.CommandLine
import Smalltalk.Compression.Crc32
import Smalltalk.Compression.Gzip
import Smalltalk.Compression.Huffman
import Smalltalk.Compression.Inflate
import Smalltalk.Config
import Smalltalk.Device.Input
import Smalltalk.Device.Screen
import Smalltalk.Error
import Smalltalk.Float64
import Smalltalk.Heap.Basic
import Smalltalk.Heap.Become
import Smalltalk.Heap.Collection
import Smalltalk.Heap.Enumeration
import Smalltalk.Heap.Instantiation
import Smalltalk.Heap.Registration
import Smalltalk.Heap.Roots
import Smalltalk.Image.Header
import Smalltalk.Image.Loader
import Smalltalk.Image.Record
import Smalltalk.Kernel.Builder
import Smalltalk.Kernel.Class
import Smalltalk.Kernel.Genesis
import Smalltalk.Layout
import Smalltalk.Machine.Activation
import Smalltalk.Machine.Basic
import Smalltalk.Machine.Context
import Smalltalk.Machine.Interrupts
import Smalltalk.Machine.Lookup
import Smalltalk.Machine.Scheduling
import Smalltalk.Machine.Send
import Smalltalk.Machine.Stack
import Smalltalk.Machine.Step
import Smalltalk.Main
import Smalltalk.MethodCache
import Smalltalk.MethodDictionary
import Smalltalk.Object.Basic
import Smalltalk.Object.ClassFormat
import Smalltalk.Object.Format
import Smalltalk.Object.MethodHeader
import Smalltalk.Primitive.Allocation
import Smalltalk.Primitive.Arithmetic
import Smalltalk.Primitive.Basic
import Smalltalk.Primitive.Control
import Smalltalk.Primitive.Devices
import Smalltalk.Primitive.Indexed
import Smalltalk.Primitive.System
import Smalltalk.Primitive.Table
import Smalltalk.SmallInt
import Smalltalk.Specials
import Smalltalk.Text.Hexadecimal
import Smalltalk.Text.Utf8
import Smalltalk.Timing
import Smalltalk.Value
import Smalltalk.Proofs.Arithmetic.Exactness
import Smalltalk.Proofs.Device.Typeahead
import Smalltalk.Proofs.Frame.Containment
import Smalltalk.Proofs.Frame.LocalReturn
import Smalltalk.Proofs.Frame.Reentry
import Smalltalk.Proofs.Frame.RoundTrip
import Smalltalk.Proofs.Frame.Unwind
import Smalltalk.Proofs.Heap.Calls
import Smalltalk.Proofs.Heap.Compaction
import Smalltalk.Proofs.Heap.Enumeration
import Smalltalk.Proofs.Heap.Pressure
import Smalltalk.Proofs.Heap.Skipping
import Smalltalk.Proofs.Heap.Substitution
import Smalltalk.Proofs.Heap.Tenure
import Smalltalk.Proofs.Image.Safety
import Smalltalk.Proofs.Image.Species
import Smalltalk.Proofs.Indexed.Fresh
import Smalltalk.Proofs.Indexed.Replacing
import Smalltalk.Proofs.Indexed.Storing
import Smalltalk.Proofs.Indexed.Transparency
import Smalltalk.Proofs.Kernel.Installed
import Smalltalk.Proofs.Lookup.Forgetting
import Smalltalk.Proofs.Lookup.History
import Smalltalk.Proofs.Lookup.Probing
import Smalltalk.Proofs.Lookup.Understanding
import Smalltalk.Proofs.Machine.Branches
import Smalltalk.Proofs.Machine.Endless
import Smalltalk.Proofs.Machine.Ends
import Smalltalk.Proofs.Machine.FreeContexts
import Smalltalk.Proofs.Machine.References
import Smalltalk.Proofs.Primitive.DirectSend
import Smalltalk.Proofs.Primitive.Failure
import Smalltalk.Proofs.Primitive.InlineArithmetic
import Smalltalk.Proofs.Primitive.Outcomes
import Smalltalk.Proofs.Scheduler.Alarm
import Smalltalk.Proofs.Scheduler.Conservation
import Smalltalk.Proofs.Scheduler.Feedback
import Smalltalk.Proofs.Scheduler.Handover
import Smalltalk.Proofs.Scheduler.Requests
import Smalltalk.Proofs.Scheduler.Resumption
