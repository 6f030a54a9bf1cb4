import InputDeck.Expr.Interpreter
import InputDeck.Number.Arithmetic
import InputDeck.Number.Layout
import InputDeck.Number.Numeral
import InputDeck.Settings
import InputDeck.Sorting
import InputDeck.Suit.Path
import InputDeck.Table
import InputDeck.Text.Blank
import InputDeck.Text.Cut
import InputDeck.Text.Lines
import InputDeck.Text.Quoted
import InputDeck.Value.Typed
import InputDeck.CardLine
import InputDeck.LogicalLine
import InputDeck.Suit.Header
import InputDeck.Slice
import InputDeck.Store.DeckText
import InputDeck.Store.Query
import InputDeck.Store.Vector
import InputDeck.Deck
import InputDeck.Transcript
import InputDeck.Proofs.Deck.Rollback
import InputDeck.Proofs.Deck.Behind
import InputDeck.Proofs.Deck.Rewriting
import InputDeck.Proofs.Compile.Agreement
import InputDeck.Proofs.Compile.Visibility
import InputDeck.Proofs.Deck.Incremental
import InputDeck.Proofs.Deck.EmptyText
import InputDeck.Proofs.Compile.DottedNames
import InputDeck.Proofs.Deck.OtherMarks
import InputDeck.Proofs.Deck.RawTexts
import InputDeck.Proofs.Compile.Views
import InputDeck.Proofs.Text.FirstLines
import InputDeck.Proofs.Compile.Failures
import InputDeck.Proofs.Deck.FirstSeen
import InputDeck.Proofs.Text.ClosedTexts
import InputDeck.Proofs.Compile.Isolation
import InputDeck.Proofs.Store.Commands
import InputDeck.Proofs.Slice.Faults
import InputDeck.Proofs.Deck.HeaderTails
import InputDeck.Proofs.Compile.SentAssignments
import InputDeck.Proofs.Compile.Lists
import InputDeck.Proofs.Compile.OpenTargets
import InputDeck.Proofs.Expr.Trees
import InputDeck.Proofs.Expr.Unambiguity
import InputDeck.Proofs.Expr.Kinds
import InputDeck.Proofs.Text.Groups
import InputDeck.Proofs.Text.StatementLines
import InputDeck.Proofs.Store.TakingOverTwice
import InputDeck.Proofs.Compile.ElementKeys
import InputDeck.Proofs.Store.Queries
import InputDeck.Proofs.Store.Elements
import InputDeck.Proofs.Deck.QuotedTexts
import InputDeck.Proofs.Deck.ListSections
import InputDeck.Proofs.Suit.PlaceNames
import InputDeck.Proofs.Suit.Segments
import InputDeck.Proofs.Suit.Entering
import InputDeck.Proofs.Number.Spellings
import InputDeck.Proofs.Expr.Words
import InputDeck.Proofs.Slice.BalancedSides
import InputDeck.Proofs.Text.QuotedSpans
import InputDeck.Proofs.Text.Pieces
import InputDeck.Proofs.Expr.Termination
