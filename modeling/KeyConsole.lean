import KeyConsole.CommandLine.EventToken
import KeyConsole.CommandLine.Invocation
import KeyConsole.CommandLine.Json
import KeyConsole.CommandLine.Running
import KeyConsole.CommandLine.Words
import KeyConsole.Console.Builtin
import KeyConsole.Console.Builtin.Lists
import KeyConsole.Console.Builtin.Numbers
import KeyConsole.Console.Call
import KeyConsole.Console.Completion
import KeyConsole.Console.Cursor
import KeyConsole.Console.Directory
import KeyConsole.Console.Fault
import KeyConsole.Console.Fuzzy
import KeyConsole.Console.Literal
import KeyConsole.Console.Parameter
import KeyConsole.Console.Pipeline
import KeyConsole.Console.Pipeline.Reading
import KeyConsole.Console.Program
import KeyConsole.Console.Reading
import KeyConsole.Console.Request
import KeyConsole.Console.Session
import KeyConsole.Console.Span
import KeyConsole.Console.Value
import KeyConsole.Console.ValueType
import KeyConsole.Decimal.FloatText
import KeyConsole.Decimal.IntText
import KeyConsole.Decimal.Reading
import KeyConsole.Decimal.Shortest
import KeyConsole.Dispatch.Binding
import KeyConsole.Dispatch.Context
import KeyConsole.Dispatch.Dispatcher
import KeyConsole.Dispatch.FiringOrder
import KeyConsole.Dispatch.Handler
import KeyConsole.Dispatch.Registry
import KeyConsole.Dispatch.Table
import KeyConsole.Keybinds.Document
import KeyConsole.Keybinds.Engine
import KeyConsole.Keybinds.File
import KeyConsole.Keybinds.Loading
import KeyConsole.Keybinds.Settings
import KeyConsole.Keyboard.Combo
import KeyConsole.Keyboard.Event
import KeyConsole.Keyboard.Key
import KeyConsole.Keyboard.KeyName
import KeyConsole.Main
import KeyConsole.Ordered.NameMap
import KeyConsole.Ordered.Sorting
import KeyConsole.Proofs.Console.Admission
import KeyConsole.Proofs.Console.AgreeingReadings
import KeyConsole.Proofs.Console.Canonical.Completeness
import KeyConsole.Proofs.Console.Canonical.ReadBack
import KeyConsole.Proofs.Console.Canonical.Script
import KeyConsole.Proofs.Console.Canonical.Tokens
import KeyConsole.Proofs.Console.Canonical.Values
import KeyConsole.Proofs.Console.CommandHeads
import KeyConsole.Proofs.Console.Conduct
import KeyConsole.Proofs.Console.Coverage
import KeyConsole.Proofs.Console.CursorHistory
import KeyConsole.Proofs.Console.Declarations
import KeyConsole.Proofs.Console.Descent
import KeyConsole.Proofs.Console.ExactNumbers
import KeyConsole.Proofs.Console.FailedRuns
import KeyConsole.Proofs.Console.FaultPlaces
import KeyConsole.Proofs.Console.Flow
import KeyConsole.Proofs.Console.GrammarRules
import KeyConsole.Proofs.Console.Handover
import KeyConsole.Proofs.Console.Holdings
import KeyConsole.Proofs.Console.Noninterference
import KeyConsole.Proofs.Console.OfferedCommands
import KeyConsole.Proofs.Console.Overloads
import KeyConsole.Proofs.Console.ParallelPipelines
import KeyConsole.Proofs.Console.ParallelReadings
import KeyConsole.Proofs.Console.Partition
import KeyConsole.Proofs.Console.Passage
import KeyConsole.Proofs.Console.Permissions
import KeyConsole.Proofs.Console.PipelineParts
import KeyConsole.Proofs.Console.ReadingRules
import KeyConsole.Proofs.Console.ReportedTypes
import KeyConsole.Proofs.Console.Resolution
import KeyConsole.Proofs.Console.Respelling
import KeyConsole.Proofs.Console.RunInduction
import KeyConsole.Proofs.Console.RunRules
import KeyConsole.Proofs.Console.SoundBuiltins
import KeyConsole.Proofs.Console.SourceText
import KeyConsole.Proofs.Console.SuggestedConversions
import KeyConsole.Proofs.Console.TypeSafety
import KeyConsole.Proofs.Console.Typing
import KeyConsole.Proofs.Console.VariableReads
import KeyConsole.Proofs.Console.WellTypedRuns
import KeyConsole.Proofs.Dispatch.CanonicalRegistrations
import KeyConsole.Proofs.Dispatch.ContextHistory
import KeyConsole.Proofs.Dispatch.ContextSwitch
import KeyConsole.Proofs.Dispatch.ContextTree
import KeyConsole.Proofs.Dispatch.Cycles
import KeyConsole.Proofs.Dispatch.Delivery
import KeyConsole.Proofs.Dispatch.Editing
import KeyConsole.Proofs.Dispatch.FiringOrders
import KeyConsole.Proofs.Dispatch.FreshOrders
import KeyConsole.Proofs.Dispatch.HeldBindings
import KeyConsole.Proofs.Dispatch.KeyEvents
import KeyConsole.Proofs.Dispatch.KeyTransitions
import KeyConsole.Proofs.Dispatch.Ledger
import KeyConsole.Proofs.Dispatch.Listing
import KeyConsole.Proofs.Dispatch.LostKeys
import KeyConsole.Proofs.Dispatch.ModifierOrder
import KeyConsole.Proofs.Dispatch.MostSpecific
import KeyConsole.Proofs.Dispatch.Neighbours
import KeyConsole.Proofs.Dispatch.Placement
import KeyConsole.Proofs.Dispatch.Queueing
import KeyConsole.Proofs.Dispatch.Releases
import KeyConsole.Proofs.Dispatch.Resets
import KeyConsole.Proofs.Dispatch.Selection
import KeyConsole.Proofs.Dispatch.TableHistory
import KeyConsole.Proofs.Dispatch.TableStates
import KeyConsole.Proofs.Dispatch.Toggles
import KeyConsole.Proofs.Dispatch.Transitions
import KeyConsole.Proofs.Keybinds.Alternation
import KeyConsole.Proofs.Keybinds.BindingIds
import KeyConsole.Proofs.Keybinds.EditingHistory
import KeyConsole.Proofs.Keybinds.FiredCombinations
import KeyConsole.Proofs.Keybinds.FullResets
import KeyConsole.Proofs.Keybinds.FunctionResets
import KeyConsole.Proofs.Keybinds.HeldReleases
import KeyConsole.Proofs.Keybinds.KeyReleases
import KeyConsole.Proofs.Keybinds.Layering
import KeyConsole.Proofs.Keybinds.NothingStuck
import KeyConsole.Proofs.Keybinds.Operation
import KeyConsole.Proofs.Keybinds.Presses
import KeyConsole.Proofs.Keybinds.QueuedCommands
import KeyConsole.Proofs.Keybinds.ReadableEntries
import KeyConsole.Proofs.Keybinds.SavedKeybinds
import KeyConsole.Proofs.Keybinds.UserLayer
import KeyConsole.Proofs.Keybinds.WrittenFile
import KeyConsole.Proofs.Keyboard.CanonicalPacking
import KeyConsole.Proofs.Keyboard.KeyNames
import KeyConsole.Proofs.Keyboard.Packing
import KeyConsole.Proofs.Keyboard.Specificity
import KeyConsole.Proofs.Ordered.NameMaps
import KeyConsole.Proofs.Ordered.StableInsertion
import KeyConsole.Proofs.Yaml.NumberText
import KeyConsole.Proofs.Yaml.TreeNodes
import KeyConsole.Text.Alphanumeric
import KeyConsole.Text.Blank
import KeyConsole.Text.Bytes
import KeyConsole.Text.Hidden
import KeyConsole.Text.Quoted
import KeyConsole.Text.Ranges
import KeyConsole.Yaml.Block
import KeyConsole.Yaml.Decoding
import KeyConsole.Yaml.Gap
import KeyConsole.Yaml.Layout
import KeyConsole.Yaml.Meaning
import KeyConsole.Yaml.Node
import KeyConsole.Yaml.Node.Reading
import KeyConsole.Yaml.Plain
import KeyConsole.Yaml.Property
import KeyConsole.Yaml.Quotes
import KeyConsole.Yaml.Source
import KeyConsole.Yaml.Tag
import KeyConsole.Yaml.Token
import KeyConsole.Yaml.Writing
