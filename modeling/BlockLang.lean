import BlockLang.CommandLine.Run
import BlockLang.Editor.Session
import BlockLang.Grammar.Reference
import BlockLang.Main
import BlockLang.Proofs.Grammar.SyntaxErrors
import BlockLang.Proofs.Reading.Acceptance
import BlockLang.Scopes.Script
import BlockLang.TokenTable
import BlockLang.Proofs.Lexing.Tries
import BlockLang.Proofs.Lexing.MaximalMunch
import BlockLang.Proofs.Lexing.Segmentation
import BlockLang.Proofs.Reading.Expressions
import BlockLang.Proofs.Scoping.Log
import BlockLang.Proofs.Scoping.Account
import BlockLang.Proofs.Scoping.Use
import BlockLang.Proofs.Lexing.Printing
import BlockLang.Proofs.Run.Lookahead
import BlockLang.Proofs.Depth.Limit
import BlockLang.Proofs.Depth.Bound
import BlockLang.Proofs.Run.Causality
import BlockLang.Proofs.Truncation.Truncation
import BlockLang.Proofs.Renaming.Renaming
import BlockLang.Proofs.Reading.Omission
import BlockLang.Proofs.Trace.Indentation
import BlockLang.Proofs.Editor.Agreement
import BlockLang.Proofs.Editor.Hovering
import BlockLang.Proofs.Scoping.KnownTypes
import BlockLang.Proofs.CommandLine.Contract
import BlockLang.Proofs.Editor.Sessions
import BlockLang.Proofs.GrammarFile.Printing
import BlockLang.Proofs.Scoping.Atomic
import BlockLang.Proofs.Reading.Chains
import BlockLang.Proofs.Scoping.History
import BlockLang.Proofs.Fault.Localisation
import BlockLang.Proofs.Scoping.Blocks
import BlockLang.Proofs.Lexing.ListedOperators
import BlockLang.Proofs.Lexing.Progress
import BlockLang.Proofs.Report.Carets
import BlockLang.Proofs.Editor.Outlines
import BlockLang.Proofs.GrammarFile.Spans
import BlockLang.Proofs.Lexing.LiteralClasses
import BlockLang.Proofs.Editor.Help
import BlockLang.Proofs.Editor.Ranges
import BlockLang.Proofs.GrammarFile.QuotedOperators
import BlockLang.Proofs.GrammarFile.Tables
