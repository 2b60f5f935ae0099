import Jvm.Arith
import Jvm.ArrayData
import Jvm.Assembler.Class
import Jvm.Bootstrap
import Jvm.ClassFile.Parser
import Jvm.Decimal.Notation
import Jvm.Instr
import Jvm.Machine.Breakpoints
import Jvm.Machine.Host
import Jvm.Machine.Inspect
import Jvm.Machine.Start
import Jvm.Slots.Fields
import Jvm.Slots.Frame
import Jvm.Symbol
import Jvm.Text.Utf16
import Jvm.Proofs.Heap.Collection
import Jvm.Proofs.Heap.Exhaustion
import Jvm.Proofs.Slots.Editing
import Jvm.Proofs.Slots.Frame
import Jvm.Proofs.Machine.Calls
import Jvm.Proofs.Machine.FrameChain
import Jvm.Proofs.Machine.Tiling
import Jvm.Proofs.Registry.Appending
import Jvm.Proofs.Registry.Types
import Jvm.Proofs.Registry.Naming
import Jvm.Proofs.Machine.Handlers
import Jvm.Proofs.Machine.Unwinding
import Jvm.Proofs.Machine.Initialization
import Jvm.Proofs.Machine.Frames
import Jvm.Proofs.Machine.OneWay
import Jvm.Proofs.Machine.Endings
import Jvm.Proofs.Assembler.Encodings
import Jvm.Proofs.Assembler.Extents
import Jvm.Proofs.Assembler.Labels
import Jvm.Proofs.Assembler.Moving
import Jvm.Proofs.Assembler.RoundTrip
import Jvm.Proofs.Registry.Requests
import Jvm.Proofs.ClassFile.Framing
import Jvm.Proofs.Registry.Lookups
import Jvm.Proofs.Machine.Denoting
import Jvm.Proofs.Heap.Shapes
import Jvm.Proofs.Machine.Changes
import Jvm.Proofs.Changing.Objects
import Jvm.Proofs.Changing.Constants
import Jvm.Proofs.Changing.Natives
import Jvm.Proofs.Changing.Instructions
import Jvm.Proofs.Changing.Slices
import Jvm.Proofs.Registry.Overlooking
import Jvm.Proofs.Machine.Overlooking
import Jvm.Proofs.Changing.Resolving
import Jvm.Proofs.Changing.Restoring
import Jvm.Proofs.Changing.Caching
import Jvm.Proofs.Locking.Guarding
import Jvm.Proofs.Locking.Taking
import Jvm.Proofs.Locking.Entering
import Jvm.Proofs.Locking.Spawning
import Jvm.Proofs.Locking.Instructions
import Jvm.Proofs.Locking.Interleaving
import Jvm.Proofs.Locking.Exclusion
import Jvm.Proofs.Registry.Recoding
import Jvm.Proofs.Veiling.Veil
import Jvm.Proofs.Veiling.Constants
import Jvm.Proofs.Veiling.Frames
import Jvm.Proofs.Veiling.Natives
import Jvm.Proofs.Veiling.Instructions
import Jvm.Proofs.Veiling.Steps
import Jvm.Proofs.Slicing.Steps
import Jvm.Proofs.Slicing.Budgets
import Jvm.Proofs.Parking.Slices
import Jvm.Proofs.Debugging.Driving
import Jvm.Proofs.Debugging.Shadowing
import Jvm.Proofs.Debugging.Patching
import Jvm.Proofs.Debugging.Stepping
import Jvm.Proofs.Debugging.Simulating
import Jvm.Proofs.Debugging.Accompanying
import Jvm.Proofs.Debugging.Transparency
import Jvm.Proofs.Text.Encoding
import Jvm.Proofs.ClassFile.Descriptors
import Jvm.Proofs.Heap.Interning
import Jvm.Proofs.Registry.Known
import Jvm.Proofs.Registry.Sorting
import Jvm.Proofs.Registry.Arrays
import Jvm.Proofs.Registry.Reaching
import Jvm.Proofs.Registry.Ordering
import Jvm.Proofs.Registry.Subtyping
import Jvm.Proofs.Registry.Tiles
import Jvm.Proofs.Registry.Laying
import Jvm.Proofs.Registry.Members
import Jvm.Proofs.Registry.Searching
import Jvm.Proofs.Registry.Placing
import Jvm.Proofs.Machine.Shaping
import Jvm.Proofs.Changing.Tracing
import Jvm.Proofs.Changing.Copying
import Jvm.Proofs.Typing.Elements
import Jvm.Proofs.Typing.Steps
import Jvm.Proofs.Typing.Writes
import Jvm.Proofs.Typing.Calls
import Jvm.Proofs.Typing.Runs
import Jvm.Proofs.Locking.Abiding
import Jvm.Proofs.Locking.Counting
import Jvm.Proofs.Locking.Retrying
import Jvm.Proofs.Machine.Finding
import Jvm.Proofs.Machine.Switches
import Jvm.Proofs.Heap.Strings
import Jvm.Proofs.Debugging.Reversing
import Jvm.Proofs.Debugging.Halting
