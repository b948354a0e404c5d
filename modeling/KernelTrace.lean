import KernelTrace.Actions
import KernelTrace.CommandLine.Help
import KernelTrace.CommandLine.Reading
import KernelTrace.CommandLine.Spec
import KernelTrace.Commands.Basic
import KernelTrace.Commands.Process
import KernelTrace.Commands.TraceSyscalls
import KernelTrace.Commands.Tracer
import KernelTrace.Config
import KernelTrace.Data.Pieces
import KernelTrace.Data.SortedMap
import KernelTrace.Failure
import KernelTrace.Files.Edit
import KernelTrace.Files.Lookup
import KernelTrace.Files.Operation
import KernelTrace.Files.Tree
import KernelTrace.Hooks.Dispatch
import KernelTrace.Hooks.Registry
import KernelTrace.Hooks.Script
import KernelTrace.Host.Machine
import KernelTrace.Host.Operation
import KernelTrace.Host.Programs
import KernelTrace.Instances
import KernelTrace.Log
import KernelTrace.Main
import KernelTrace.Mount.Resolution
import KernelTrace.Mount.Table
import KernelTrace.Os.Environment
import KernelTrace.Os.Error
import KernelTrace.Os.Signal
import KernelTrace.Path
import KernelTrace.Processes.Stat
import KernelTrace.Program
import KernelTrace.Rehearsal
import KernelTrace.Session
import KernelTrace.Shell.Arithmetic
import KernelTrace.Shell.Builtin
import KernelTrace.Shell.Condition
import KernelTrace.Shell.Evaluation
import KernelTrace.Shell.Expansion
import KernelTrace.Shell.Format
import KernelTrace.Shell.Pattern
import KernelTrace.Shell.Process
import KernelTrace.Shell.Reader
import KernelTrace.Shell.State
import KernelTrace.Shell.Syntax
import KernelTrace.Shell.Token
import KernelTrace.Stop
import KernelTrace.SystemCalls
import KernelTrace.Text.Blank
import KernelTrace.Text.Number
import KernelTrace.Text.Octets
import KernelTrace.Text.Utf8
import KernelTrace.Tools.Basic
import KernelTrace.Tools.Files
import KernelTrace.Tools.Lines
import KernelTrace.Tracing.Call
import KernelTrace.Tracing.ControlFiles
import KernelTrace.Tracing.Error
import KernelTrace.Tracing.EventSet
import KernelTrace.Tracing.InstanceName
import KernelTrace.Tracing.Recording
import KernelTrace.Tracing.Root
import KernelTrace.Proofs.EventSets
import KernelTrace.Proofs.Runs
import KernelTrace.Proofs.BindingCourse
import KernelTrace.Proofs.SessionCourse
import KernelTrace.Proofs.RecordingSteps
import KernelTrace.Proofs.SessionAtRest
import KernelTrace.Proofs.Interleaving
import KernelTrace.Proofs.SessionIsolation
import KernelTrace.Proofs.FileContents
import KernelTrace.Proofs.ControlFilesSteps
import KernelTrace.Proofs.SessionFiles
import KernelTrace.Proofs.TracingFilter
import KernelTrace.Proofs.TextPieces
import KernelTrace.Proofs.LossyText
import KernelTrace.Proofs.Numerals
import KernelTrace.Proofs.MountTable
import KernelTrace.Proofs.RootResolution
import KernelTrace.Proofs.RebasedMounts
import KernelTrace.Proofs.CommandReading
import KernelTrace.Proofs.HookArguments
import KernelTrace.Proofs.FirstOccurrences
import KernelTrace.Proofs.DispatchCourse
import KernelTrace.Proofs.HookNames
import KernelTrace.Proofs.StopPolls
import KernelTrace.Proofs.StopWaits
import KernelTrace.Proofs.Resets
import KernelTrace.Proofs.OwnedInstances
import KernelTrace.Proofs.SharedName
import KernelTrace.Proofs.PlainTrees
import KernelTrace.Proofs.PlainBinding
import KernelTrace.Proofs.InstancePaths
import KernelTrace.Proofs.SyscallsCourse
import KernelTrace.Proofs.Confinement
import KernelTrace.Proofs.Deeds
import KernelTrace.Proofs.HookDelivery
import KernelTrace.Proofs.HookReporting
import KernelTrace.Proofs.InheritedSettings
import KernelTrace.Proofs.SharedRoot
import KernelTrace.Proofs.Announcements
import KernelTrace.Proofs.SharedFiles
import KernelTrace.Proofs.SettingAnswers
import KernelTrace.Proofs.RecordedFiles
import KernelTrace.Proofs.PidFilters
import KernelTrace.Proofs.InstanceRemoval
import KernelTrace.Proofs.SessionResult
import KernelTrace.Proofs.FreshNames
import KernelTrace.Proofs.ChosenCalls
import KernelTrace.Proofs.LinkedPaths
import KernelTrace.Proofs.HookDirectory
import KernelTrace.Proofs.StatusLines
import KernelTrace.Proofs.RunningProcesses
import KernelTrace.Proofs.InsertedEvents
import KernelTrace.Proofs.EventSwitches
import KernelTrace.Proofs.OctalEscapes
