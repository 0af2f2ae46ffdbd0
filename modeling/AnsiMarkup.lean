import AnsiMarkup.Main
import AnsiMarkup.Proofs.Markup.RoundTrip
import AnsiMarkup.Proofs.Rendering.Painting
import AnsiMarkup.Proofs.Markup.Conservation
import AnsiMarkup.Proofs.Markup.Strays
import AnsiMarkup.Proofs.Markup.SourceLines
import AnsiMarkup.Proofs.FlagTable.Codes
import AnsiMarkup.Proofs.Rendering.Parts
import AnsiMarkup.Proofs.Rendering.Tokens
import AnsiMarkup.Proofs.Rendering.Erasure
import AnsiMarkup.Proofs.Rendering.ActiveCodes
import AnsiMarkup.Proofs.Rendering.Nesting
import AnsiMarkup.Proofs.Rendering.Composition
import AnsiMarkup.Proofs.Rendering.Markers
import AnsiMarkup.Proofs.Json.Keys
import AnsiMarkup.Proofs.Command.AlwaysStyles
import AnsiMarkup.Proofs.Config.Conformance
import AnsiMarkup.Proofs.Command.Outcomes
import AnsiMarkup.Proofs.Command.Modes
import AnsiMarkup.Proofs.Json.RoundTrip
import AnsiMarkup.Proofs.Rendering.Calls
import AnsiMarkup.Proofs.Rendering.Dependence
import AnsiMarkup.Proofs.Rendering.Reruns
import AnsiMarkup.Proofs.Supply.Calls
import AnsiMarkup.Proofs.Markup.SpecifierLog
import AnsiMarkup.Proofs.Rendering.SpelledSlots
import AnsiMarkup.Proofs.Markup.LocalEscapes
import AnsiMarkup.Proofs.Palette.Leaves
import AnsiMarkup.Proofs.Markup.SpecifiedText
import AnsiMarkup.Proofs.FlagTable.Combinations
import AnsiMarkup.Proofs.FlagTable.Bits
import AnsiMarkup.Proofs.FlagTable.CodeTexts
import AnsiMarkup.Proofs.Command.FlagErrors
import AnsiMarkup.Proofs.Command.Input
import AnsiMarkup.Proofs.Position.Places
import AnsiMarkup.Proofs.Markup.LoopStates
import AnsiMarkup.Proofs.Ordinal.Spoken
import AnsiMarkup.Proofs.Command.Listing
