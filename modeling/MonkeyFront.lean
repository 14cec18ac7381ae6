import MonkeyFront.Main
import MonkeyFront.Tree.Equality
import MonkeyFront.Parser.Call
import MonkeyFront.Scanner.Call
import MonkeyFront.Proofs.Text.OneLine
import MonkeyFront.Proofs.Scanner.LongestMatch
import MonkeyFront.Proofs.Scanner.Spelling
import MonkeyFront.Proofs.Scanner.Calls
import MonkeyFront.Proofs.Scanner.Spans
import MonkeyFront.Proofs.Scanner.Fusion
import MonkeyFront.Proofs.Scanner.Emission
import MonkeyFront.Proofs.Scanner.Queue
import MonkeyFront.Proofs.Cursor.Backup
import MonkeyFront.Proofs.Cursor.Bounds
import MonkeyFront.Proofs.Grammar.First
import MonkeyFront.Proofs.Grammar.Strata
import MonkeyFront.Proofs.Parser.Contract
import MonkeyFront.Proofs.Parser.Run
import MonkeyFront.Proofs.Parser.Soundness
import MonkeyFront.Proofs.Parser.Completeness
import MonkeyFront.Proofs.Parser.TooDeep
import MonkeyFront.Proofs.Parser.Accounting
import MonkeyFront.Proofs.Parser.Levels
import MonkeyFront.Proofs.Parser.Braces
import MonkeyFront.Proofs.Parser.Calls
import MonkeyFront.Proofs.Parser.SameTokens
import MonkeyFront.Proofs.Parser.OneRefusal
import MonkeyFront.Proofs.Parser.Integers
import MonkeyFront.Proofs.Parser.Semicolon
import MonkeyFront.Proofs.Parser.BlankSpace
import MonkeyFront.Proofs.Parser.Chain
import MonkeyFront.Proofs.Parser.Climbing
import MonkeyFront.Proofs.Parser.Logging
import MonkeyFront.Proofs.Parser.Messages
import MonkeyFront.Proofs.Parser.ClosingBrace
import MonkeyFront.Proofs.Parser.WellFormed
import MonkeyFront.Proofs.Parser.TokenOrder
import MonkeyFront.Proofs.Rendering.RoundTrip
import MonkeyFront.Proofs.Rendering.Unambiguous
import MonkeyFront.Proofs.Json.Layout
import MonkeyFront.Proofs.Tree.Record
import MonkeyFront.Proofs.Command.Identification
import MonkeyFront.Proofs.Command.DebugLog
import MonkeyFront.Proofs.Command.Outcome
import MonkeyFront.Proofs.Command.Lines
import MonkeyFront.Proofs.Command.Writing
import MonkeyFront.Proofs.Command.AllOrNothing
import MonkeyFront.Proofs.Session.Independence
