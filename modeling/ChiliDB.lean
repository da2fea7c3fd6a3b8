import ChiliDB.Lib.Effect
import ChiliDB.Lib.Fallible
import ChiliDB.Storage.Models.BufferPool
import ChiliDB.Storage.Models.Moves
import ChiliDB.Storage.Models.Mapping
import ChiliDB.Storage.Models.Pins
import ChiliDB.Storage.Models.Owners
import ChiliDB.Storage.Models.Unwritten
import ChiliDB.Storage.Models.Drain
import ChiliDB.Storage.Basic
import ChiliDB.Storage.Latch
import ChiliDB.Storage.Replacement
import ChiliDB.Storage.Store
import ChiliDB.Storage.Buffer
import ChiliDB.Storage.BufferLayout
import ChiliDB.Storage.BufferSpec
import ChiliDB.Storage.BufferCalls
import ChiliDB.Storage.BufferRuns
import ChiliDB.Lib.Bytes
import ChiliDB.Heapam.Page
import ChiliDB.Heapam.PagePacked
import ChiliDB.Heapam.PageOps
import ChiliDB.Heapam.Heap
import ChiliDB.Heapam.HeapSpec
import ChiliDB.Heapam.HeapOps
import ChiliDB.Heapam.HeapOpen
import ChiliDB.Heapam.HeapRuns
import ChiliDB.Heapam.Heaps
import ChiliDB.Heapam.CtidMap
import ChiliDB.Heapam.ScanExact
import ChiliDB.Storage.BufferPolicy
import ChiliDB.Storage.BufferReads
import ChiliDB.Storage.FlushAll
import ChiliDB.Heapam.Twin
import ChiliDB.Heapam.Reopen
import ChiliDB.Lib.Wire
import ChiliDB.Binder.Schema
import ChiliDB.Catalog.Codec
import ChiliDB.Catalog.CatalogSpec
import ChiliDB.Catalog.CatalogRuns
import ChiliDB.Catalog.HeapCatalog
import ChiliDB.Lib.Worklist
import ChiliDB.Peg.Grammar
import ChiliDB.Peg.Text
import ChiliDB.Peg.Semantics
import ChiliDB.Peg.Total
import ChiliDB.Peg.Parser
import ChiliDB.Peg.Agreement
import ChiliDB.Lib.Ieee
import ChiliDB.Parser.Ast
import ChiliDB.Binder.Ast
import ChiliDB.Binder.Context
import ChiliDB.Binder.Expression
import ChiliDB.Binder.Binding
import ChiliDB.Planner.DataFusion
import ChiliDB.Planner.ModifyTable
import ChiliDB.Planner.Planning
import ChiliDB.Binder.ExpressionSpec
import ChiliDB.Binder.BindingSpec
import ChiliDB.Binder.Nodes
import ChiliDB.Binder.Nullability
import ChiliDB.Binder.Phases
import ChiliDB.Planner.PlanningSpec
import ChiliDB.Planner.Sharing
import ChiliDB.Planner.Rebuild
import ChiliDB.Planner.Depth
import ChiliDB.Planner.Plannable
import ChiliDB.Planner.Meaning
import ChiliDB.Parser.Grammar
import ChiliDB.Peg.Calculus
import ChiliDB.Peg.Reading
import ChiliDB.Peg.Recoding
import ChiliDB.Peg.Trees
import ChiliDB.Parser.Transform
import ChiliDB.Parser.TransformSpec
import ChiliDB.Parser.Lexical
import ChiliDB.Parser.Leaves
import ChiliDB.Parser.Literals
import ChiliDB.Parser.LeafNodes
import ChiliDB.Parser.TransformTotal
import ChiliDB.Parser.Reserved
import ChiliDB.Parser.Congruence
import ChiliDB.Parser.Sql
import ChiliDB.Parser.CaseFold
import ChiliDB.Storage.FileStore
import ChiliDB.Storage.Clock
import ChiliDB.Storage.ClockPool
import ChiliDB.Heapam.PageContents
import ChiliDB.Heapam.PageSafety
import ChiliDB.Storage.Failures
import ChiliDB.Heapam.OpenExact
import ChiliDB.Catalog.RecordSize
import ChiliDB.Binder.CreateTable
import ChiliDB.Catalog.Declarations
import ChiliDB.Storage.Poison
import ChiliDB.Heapam.HeapPins
import ChiliDB.Catalog.OneFrame
import ChiliDB.Binder.Resolution
import ChiliDB.Binder.Integers
import ChiliDB.Binder.Insertion
import ChiliDB.Lib.Utf8
import ChiliDB.Parser.Numbers
import ChiliDB.Parser.Quotes
import ChiliDB.Catalog.Delimiting
import ChiliDB.Peg.Spans
import ChiliDB.Peg.Diagnostics
