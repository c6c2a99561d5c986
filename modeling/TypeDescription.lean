import TypeDescription.Stream
import TypeDescription.Stream.Request
import TypeDescription.Term.Same
import TypeDescription.Term.Normal
import TypeDescription.Definition.Json
import TypeDescription.Error.Json
import TypeDescription.Unicode.Width
import TypeDescription.Diagnostic
import TypeDescription.File
import TypeDescription.FileTree
import TypeDescription.CommandLine
import TypeDescription.Main
import TypeDescription.Phrase.Spelling
import TypeDescription.Proofs.Cuts
import TypeDescription.Proofs.Concatenation
import TypeDescription.Proofs.Interruptions
import TypeDescription.Proofs.Phrases
import TypeDescription.Proofs.Spellings
import TypeDescription.Proofs.Derivations
import TypeDescription.Proofs.Lexemes
import TypeDescription.Proofs.Sharing
import TypeDescription.Proofs.Answers
import TypeDescription.Proofs.Completion
import TypeDescription.Proofs.Grammar
import TypeDescription.Proofs.Itemizing
import TypeDescription.Proofs.OldSpellings
import TypeDescription.Proofs.Blame
import TypeDescription.Proofs.Admission
import TypeDescription.Proofs.UpperCasing
import TypeDescription.Proofs.Places
import TypeDescription.Proofs.Coreferences
import TypeDescription.Proofs.CoreferenceSets
import TypeDescription.Proofs.Lines
import TypeDescription.Proofs.Encoding
import TypeDescription.Proofs.Enclosures
import TypeDescription.Proofs.Scanning
import TypeDescription.Proofs.Gatherings
import TypeDescription.Proofs.Tilings
import TypeDescription.Proofs.Spans
import TypeDescription.Proofs.Relexing
import TypeDescription.Proofs.Texts
import TypeDescription.Proofs.Chains
import TypeDescription.Proofs.ListCalls
import TypeDescription.Proofs.DiffLists
import TypeDescription.Proofs.Merging
import TypeDescription.Proofs.Normalizing
import TypeDescription.Proofs.Printing
import TypeDescription.Proofs.Writable
import TypeDescription.Proofs.TreeOrder
import TypeDescription.Proofs.Writing
import TypeDescription.Proofs.TokenTexts
import TypeDescription.Proofs.RoundTrip
import TypeDescription.Proofs.Rearrangement
import TypeDescription.Proofs.Comments
import TypeDescription.Proofs.JsonLexemes
import TypeDescription.Proofs.JsonTexts
import TypeDescription.Proofs.JsonEvents
import TypeDescription.Token.Pattern
import TypeDescription.Proofs.Patterns
import TypeDescription.Proofs.TokenTable
import TypeDescription.Proofs.Backslashes
import TypeDescription.Proofs.LeftmostMatches
import TypeDescription.Proofs.Faults
import TypeDescription.Proofs.LineEnds
import TypeDescription.Proofs.Notes
import TypeDescription.Proofs.TextLines
import TypeDescription.Proofs.Transparency
import TypeDescription.Proofs.NormalForm
import TypeDescription.Proofs.PathWrites
import TypeDescription.Proofs.DottedPaths
import TypeDescription.Proofs.Requests
import TypeDescription.Proofs.FlatViews
import TypeDescription.Proofs.Overtaking
import TypeDescription.Proofs.NormalLists
import TypeDescription.Proofs.WrittenTokens
import TypeDescription.Proofs.CarriageReturns
import TypeDescription.Proofs.WrittenLists
import TypeDescription.Coreference.Tracker
import TypeDescription.Proofs.Records
import TypeDescription.Proofs.Diagnostics
import TypeDescription.Proofs.Reports
import TypeDescription.Proofs.Respelling
import TypeDescription.Proofs.Invariants
import TypeDescription.Proofs.FeatureNames
import TypeDescription.Proofs.Summaries
import TypeDescription.Proofs.ByteSearch
import TypeDescription.Proofs.LineByLine
