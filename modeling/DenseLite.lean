import DenseLite.Infer.Capacity
import DenseLite.Infer.Failure
import DenseLite.Infer.Reserve
import DenseLite.Infer.Sizing
import DenseLite.Infer.Kernels
import DenseLite.SessionKV.Restore
import DenseLite.SessionKV.Binding
import DenseLite.SessionKV.Interleaving
import DenseLite.SessionKV.Switching
import DenseLite.Memory.Schema
import DenseLite.Memory.Isolation
import DenseLite.Settings.Paths
import DenseLite.Settings.Export
import DenseLite.Settings.Apply
import DenseLite.Settings.Concurrent
import DenseLite.Engine.Isolation
import DenseLite.Engine.Overlap
import DenseLite.Engine.Prompts
import DenseLite.Engine.Tracker
import DenseLite.Engine.Fallback
import DenseLite.Engine.Keys
import DenseLite.Engine.Lifecycle
import DenseLite.Gguf.Order
import DenseLite.Gguf.Readers
import DenseLite.Gguf.Bounds
import DenseLite.Models.Vram
import DenseLite.Models.Budget
import DenseLite.Vector.Ivf
import DenseLite.Vector.Packing
import DenseLite.Vector.Search
import DenseLite.Memory.VectorSync
import DenseLite.Memory.Cache
import DenseLite.Memory.Recall
import DenseLite.Memory.Forget
import DenseLite.Memory.Scope
import DenseLite.Memory.LastWrite
import DenseLite.Memory.Turns
import DenseLite.Memory.Keyword
import DenseLite.Memory.VectorQuery
import DenseLite.Engine.Windows
import DenseLite.Engine.Whole
import DenseLite.Engine.Compression
import DenseLite.Infer.Positions
import DenseLite.Infer.Forward
import DenseLite.Engine.Templates
import DenseLite.Engine.Fidelity
import DenseLite.Engine.Bodies
import DenseLite.Infer.Tokenizers
import DenseLite.Infer.Decoding
import DenseLite.SessionKV.FileNames
import DenseLite.SessionKV.Eviction
import DenseLite.Models.Resident
import DenseLite.CodeIndex.Indexer
import DenseLite.Registry.Limit
import DenseLite.Registry.Admission
import DenseLite.Registry.Bindings
import DenseLite.Search.Symbols
import DenseLite.Search.Memories
import DenseLite.Engine.Budgeter
import DenseLite.Engine.Offload
import DenseLite.Engine.ToolHistory
import DenseLite.Engine.Cooldowns
import DenseLite.Engine.ProviderSync
import DenseLite.Settings.ModelPaths
import DenseLite.Memory.Consolidate
import DenseLite.Lib.JsonUnique
import DenseLite.Lib.JsonWriting
import DenseLite.Lib.EventStream
import DenseLite.Engine.Events
import DenseLite.Lib.Outline
import DenseLite.CodeIndex.Outline
import DenseLite.CodeIndex.Queries
import DenseLite.Tray.Process
import DenseLite.Vector.Probe
import DenseLite.Lib.Defaults
import DenseLite.Settings.Shipped
import DenseLite.Lib.Raster
import DenseLite.Multimodal.Images
import DenseLite.Lib.JsonSize
import DenseLite.Engine.ModelList
import DenseLite.Models.KvCache
import DenseLite.Models.Registry
import DenseLite.Memory.Archives
