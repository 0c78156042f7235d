import ComponentMarkup.Main
import ComponentMarkup.Proofs.Files.PlacePath
import ComponentMarkup.Proofs.Markup.VoidElements
import ComponentMarkup.Proofs.Markup.TokenReading
import ComponentMarkup.Proofs.Markup.TagReading
import ComponentMarkup.Proofs.Markup.Shape
import ComponentMarkup.Proofs.Markup.PieceReading
import ComponentMarkup.Proofs.Markup.Rereading
import ComponentMarkup.Proofs.Markup.RoundTrip
import ComponentMarkup.Proofs.Markup.ParsedShape
import ComponentMarkup.Proofs.Markup.WrittenPieces
import ComponentMarkup.Proofs.Markup.DocumentOrder
import ComponentMarkup.Proofs.Loading.Equations
import ComponentMarkup.Proofs.Loading.ImportGraph
import ComponentMarkup.Proofs.Loading.Anew
import ComponentMarkup.Proofs.Loading.Cache
import ComponentMarkup.Proofs.Loading.LoadOrder
import ComponentMarkup.Proofs.Loading.OpenRoute
import ComponentMarkup.Proofs.Session.CompileAnew
import ComponentMarkup.Proofs.Expansion.Outcome
import ComponentMarkup.Proofs.Expansion.Slots
import ComponentMarkup.Proofs.Expansion.Vanishing
import ComponentMarkup.Proofs.Expansion.Passes
import ComponentMarkup.Proofs.Expansion.Scope
import ComponentMarkup.Proofs.Expansion.Failure
import ComponentMarkup.Proofs.Expansion.Forwarding
import ComponentMarkup.Proofs.Component.Causes
import ComponentMarkup.Proofs.Component.Made
import ComponentMarkup.Proofs.Component.Refusal
import ComponentMarkup.Proofs.Text.Runs
import ComponentMarkup.Proofs.Text.Searching
import ComponentMarkup.Proofs.Component.Numbering
import ComponentMarkup.Proofs.Component.Numerals
import ComponentMarkup.Proofs.Component.Draws
import ComponentMarkup.Proofs.Component.Naming
import ComponentMarkup.Proofs.Component.Placeholders
import ComponentMarkup.Proofs.Component.Arguments
import ComponentMarkup.Proofs.Component.Binding
import ComponentMarkup.Proofs.Component.HandedOn
import ComponentMarkup.Proofs.Session.ImportCycle
import ComponentMarkup.Proofs.Session.Stylesheets
import ComponentMarkup.Proofs.Session.Blame
import ComponentMarkup.Proofs.Session.Culprit
import ComponentMarkup.Proofs.Markup.NormalForm
import ComponentMarkup.Proofs.Markup.Openings
import ComponentMarkup.Proofs.Markup.Children
import ComponentMarkup.Proofs.Markup.RawText
import ComponentMarkup.Proofs.Markup.TagSpelling
import ComponentMarkup.Proofs.Text.Collapsing
import ComponentMarkup.Proofs.Markup.Minifying
import ComponentMarkup.Proofs.Markup.Writing
import ComponentMarkup.Proofs.Markup.Placement
import ComponentMarkup.Proofs.Expansion.AttributeNames
import ComponentMarkup.Proofs.Session.Configuration
import ComponentMarkup.Proofs.CommandLine.Runs
import ComponentMarkup.Proofs.Markup.Reproduction
import ComponentMarkup.Proofs.Markup.MinifyingTwice
import ComponentMarkup.Proofs.Component.Acceptance
import ComponentMarkup.Proofs.Loading.Malformed
import ComponentMarkup.Proofs.Markup.Enclosed
import ComponentMarkup.Proofs.Markup.ReadInside
import ComponentMarkup.Proofs.Component.InnerText
import ComponentMarkup.Proofs.Text.LowerCase
import ComponentMarkup.Proofs.Session.Alias
import ComponentMarkup.Proofs.Text.Occurrences
import ComponentMarkup.Proofs.Component.Identified
import ComponentMarkup.Proofs.Component.MaximalMunch
import ComponentMarkup.Proofs.Markup.Taking
import ComponentMarkup.Proofs.Text.LineTable
import ComponentMarkup.Proofs.Report.MarkedLine
import ComponentMarkup.Proofs.Text.ByteView
import ComponentMarkup.Proofs.Text.LineLookup
import ComponentMarkup.Proofs.Markup.TokenSpans
import ComponentMarkup.Proofs.Files.PathParts
import ComponentMarkup.Proofs.Watch.SnapshotMaps
import ComponentMarkup.Proofs.Watch.Ignoring
import ComponentMarkup.Proofs.Watch.Polling
