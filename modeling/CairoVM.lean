import CairoVM.Library.BitField
import CairoVM.Library.ShiftLoop
import CairoVM.Library.Machine
import CairoVM.Library.WriteOnce
import CairoVM.Library.Scan
import CairoVM.Library.Decimal
import CairoVM.Library.Lines
import CairoVM.Library.Failing
import CairoVM.Library.Heap
import CairoVM.Library.Triple
import CairoVM.Library.Computes
import CairoVM.Model.Collections
import CairoVM.Model.Relocatable
import CairoVM.Model.Memory
import CairoVM.Model.PrintMemory
import CairoVM.Model.Runner
import CairoVM.Model.Utils
import CairoVM.Model.Instruction
import CairoVM.Model.Decoder
import CairoVM.Model.Lambdaworks
import CairoVM.Model.FeltCalls
import CairoVM.Model.Parser
import CairoVM.Model.HeapCollections
import CairoVM.Model.HeapMemory
import CairoVM.Model.HeapRunner
import CairoVM.Model.HeapParser
import CairoVM.Memory.Refinement
import CairoVM.Memory.History
import CairoVM.Memory.Segments
import CairoVM.Memory.Load
import CairoVM.Memory.Replay
import CairoVM.Memory.Confluence
import CairoVM.Memory.Print
import CairoVM.Memory.Store
import CairoVM.Memory.Reachable
import CairoVM.Memory.PrintText
import CairoVM.Runner.Entrypoint
import CairoVM.Runner.Initialize
import CairoVM.Runner.CallFrame
import CairoVM.Runner.Frames
import CairoVM.Runner.Immutable
import CairoVM.Felt.Limbs
import CairoVM.Felt.Prime
import CairoVM.Felt.Arithmetic
import CairoVM.Felt.Expression
import CairoVM.Felt.Calls
import CairoVM.Codec.LittleEndian
import CairoVM.Codec.RoundTrip
import CairoVM.Codec.BigEndian
import CairoVM.Decoder.Fields
import CairoVM.Decoder.Grammar
import CairoVM.Decoder.Layout
import CairoVM.Parser.Data
import CairoVM.Parser.Outcome
import CairoVM.OnHeap.Chained
import CairoVM.OnHeap.Table
import CairoVM.OnHeap.Memory
import CairoVM.OnHeap.Runner
import CairoVM.OnHeap.FunctionCall
import CairoVM.OnHeap.Pool
import CairoVM.OnHeap.Parser
import CairoVM.OnHeap.ParserSession
