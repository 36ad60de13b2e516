import RouterCli.Application.BaseStation
import RouterCli.Application.Scripted
import RouterCli.Console.Replay
import RouterCli.Files.Tree
import RouterCli.Main
import RouterCli.Settings.Tool
import RouterCli.Shell.Process
import RouterCli.Proofs.Text.Words
import RouterCli.Proofs.Pattern.Compiled
import RouterCli.Proofs.Matching.Found
import RouterCli.Proofs.Matching.OnePass
import RouterCli.Proofs.Matching.Plain
import RouterCli.Proofs.Matching.Strict
import RouterCli.Proofs.Command.Installed
import RouterCli.Proofs.Command.Terminal
import RouterCli.Proofs.Command.Arguments
import RouterCli.Proofs.Command.ConfigLines
import RouterCli.Proofs.Console.Levels
import RouterCli.Proofs.Console.ReplayLog
import RouterCli.Proofs.Console.Offside
import RouterCli.Proofs.Console.OffsideReplay
import RouterCli.Proofs.Console.Shortcut
import RouterCli.Proofs.Console.Refusal
import RouterCli.Proofs.Console.Takes
import RouterCli.Proofs.Console.WritableHost
import RouterCli.Proofs.Console.RestoredHost
import RouterCli.Proofs.Matching.SpelledOut
import RouterCli.Proofs.Matching.FullyTyped
import RouterCli.Proofs.Matching.Strongest
import RouterCli.Proofs.Command.Lineage
import RouterCli.Proofs.Console.Ascent
import RouterCli.Proofs.Console.Departure
import RouterCli.Proofs.Matching.Addresses
import RouterCli.Proofs.Matching.Completed
import RouterCli.Proofs.Matching.EndOfCommand
import RouterCli.Proofs.Matching.Offered
import RouterCli.Proofs.Matching.Reordered
import RouterCli.Proofs.Matching.Visible
import RouterCli.Proofs.Command.Extended
import RouterCli.Proofs.Command.WellFormed
import RouterCli.Proofs.Shell.Work
import RouterCli.Proofs.Shell.Privilege
import RouterCli.Proofs.Console.Secrets
import RouterCli.Proofs.Settings.Accepted
import RouterCli.Proofs.Files.Disk
import RouterCli.Proofs.Files.FreshName
import RouterCli.Proofs.Shell.Unseen
import RouterCli.Proofs.Console.SafeSave
import RouterCli.Proofs.Log.Applied
import RouterCli.Proofs.Console.LogSettings
import RouterCli.Proofs.Log.Delivered
import RouterCli.Proofs.Console.Standing
import RouterCli.Proofs.Shell.Effects
import RouterCli.Proofs.Shell.Lines
import RouterCli.Proofs.Shell.Bounded
import RouterCli.Proofs.Shell.ReplacedWord
import RouterCli.Proofs.Shell.Printable
import RouterCli.Proofs.Shell.Lockout
import RouterCli.Proofs.Text.Runs
import RouterCli.Proofs.Address.DottedQuad
import RouterCli.Proofs.Address.HexGroups
import RouterCli.Proofs.Address.TypedHexGroups
import RouterCli.Proofs.Matching.Narrowing
import RouterCli.Proofs.Matching.CursorKeywords
import RouterCli.Proofs.Console.Nesting
import RouterCli.Proofs.Shell.Remembered
import RouterCli.Proofs.Pattern.Written
import RouterCli.Proofs.Pattern.Grouped
import RouterCli.Proofs.Console.BehindDo
import RouterCli.Proofs.Password.WellFormed
import RouterCli.Proofs.Shell.TerminalText
import RouterCli.Proofs.Shell.LineEndings
import RouterCli.Proofs.Pattern.Ranges
import RouterCli.Proofs.Pattern.Bytes
