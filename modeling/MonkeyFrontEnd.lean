import MonkeyFrontEnd.Main
import MonkeyFrontEnd.Token.Lexer
import MonkeyFrontEnd.Tree.Equality
import MonkeyFrontEnd.Tree.MapTokens
import MonkeyFrontEnd.Tree.Outline
import MonkeyFrontEnd.Proofs.Frame
import MonkeyFrontEnd.Proofs.Lockstep
import MonkeyFrontEnd.Proofs.StateMap
import MonkeyFrontEnd.Proofs.Phrase
import MonkeyFrontEnd.Proofs.Quiet
import MonkeyFrontEnd.Proofs.Completeness
import MonkeyFrontEnd.Proofs.Soundness
import MonkeyFrontEnd.Proofs.Printing
import MonkeyFrontEnd.Proofs.Acceptance
import MonkeyFrontEnd.Proofs.Recovery
import MonkeyFrontEnd.Proofs.LexemeClasses
import MonkeyFrontEnd.Proofs.LongestMatch
import MonkeyFrontEnd.Proofs.Scanning
import MonkeyFrontEnd.Proofs.Layout
import MonkeyFrontEnd.Proofs.Lossless
import MonkeyFrontEnd.Proofs.Success
import MonkeyFrontEnd.Proofs.Consistency
import MonkeyFrontEnd.Proofs.KeptTokens
import MonkeyFrontEnd.Proofs.Blame
import MonkeyFrontEnd.Proofs.Truthful
import MonkeyFrontEnd.Proofs.Abreast
import MonkeyFrontEnd.Proofs.Interchange
import MonkeyFrontEnd.Proofs.Placement
import MonkeyFrontEnd.Proofs.Overrun
import MonkeyFrontEnd.Proofs.NestingLimit
import MonkeyFrontEnd.Proofs.Separation
import MonkeyFrontEnd.Proofs.Canonical
import MonkeyFrontEnd.Proofs.RoundTrip
import MonkeyFrontEnd.Proofs.Spacing
import MonkeyFrontEnd.Proofs.OpenExpressions
import MonkeyFrontEnd.Proofs.Height
import MonkeyFrontEnd.Proofs.Ends
import MonkeyFrontEnd.Proofs.BreakOff
import MonkeyFrontEnd.Proofs.Scans
import MonkeyFrontEnd.Proofs.Pending
import MonkeyFrontEnd.Proofs.Progress
import MonkeyFrontEnd.Proofs.Reports
import MonkeyFrontEnd.Proofs.Slices
import MonkeyFrontEnd.Proofs.LineBreaks
import MonkeyFrontEnd.Proofs.Transcript
import MonkeyFrontEnd.Proofs.LastToken
import MonkeyFrontEnd.Proofs.Chains
import MonkeyFrontEnd.Proofs.Numerals
import MonkeyFrontEnd.Proofs.Places
import MonkeyFrontEnd.Proofs.Caret
import MonkeyFrontEnd.Proofs.Comments
import MonkeyFrontEnd.Proofs.Depths
import MonkeyFrontEnd.Proofs.Tries
import MonkeyFrontEnd.Proofs.Gathering
import MonkeyFrontEnd.Proofs.Losses
import MonkeyFrontEnd.Proofs.EventLog
import MonkeyFrontEnd.Proofs.Unwinding
import MonkeyFrontEnd.Proofs.GivingUp
