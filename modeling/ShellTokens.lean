import ShellTokens.FirstWords.Pool
import ShellTokens.Main
import ShellTokens.Proofs.Cursor
import ShellTokens.Proofs.Text.Rune
import ShellTokens.Session.Host
import ShellTokens.Proofs.Scanner.Standing
import ShellTokens.Proofs.Scanner.Drain
import ShellTokens.Proofs.Scanner.Chunks
import ShellTokens.Proofs.Scanner.Reads
import ShellTokens.Proofs.Token.Written
import ShellTokens.Proofs.Scanner.RoundTrip
import ShellTokens.Proofs.Session.Outlook
import ShellTokens.Proofs.Session.Agrees
import ShellTokens.Proofs.Session.Ahead
import ShellTokens.Proofs.Scanner.Kinds
import ShellTokens.Proofs.Session.Record
import ShellTokens.Proofs.Session.Lossless
import ShellTokens.Proofs.Scanner.Boundary
import ShellTokens.Proofs.Scanner.Groups
import ShellTokens.Proofs.Session.Reachable
import ShellTokens.Proofs.Session.ReadOut
import ShellTokens.Proofs.Session.Foretold
import ShellTokens.Proofs.Session.Supplied
import ShellTokens.Proofs.Session.Signals
import ShellTokens.Proofs.Session.Settle
import ShellTokens.Proofs.Session.Script
import ShellTokens.Proofs.Session.Dead
import ShellTokens.Proofs.Session.Renewed
import ShellTokens.Proofs.Session.Interrupts
import ShellTokens.Proofs.Session.GivenUp
import ShellTokens.Proofs.Prompt.Keys
import ShellTokens.Proofs.Prompt.Told
import ShellTokens.Proofs.Session.OneAhead
import ShellTokens.Proofs.Prompt.Cancelled
import ShellTokens.Proofs.Prompt.Typed
import ShellTokens.Proofs.Text.Row
import ShellTokens.Proofs.Token.Spelled
import ShellTokens.Proofs.Scanner.UnderWay
import ShellTokens.Proofs.Scanner.Tiling
import ShellTokens.Proofs.Scanner.Reached
import ShellTokens.Proofs.Scanner.Ahead
import ShellTokens.Proofs.Scanner.Invisible
import ShellTokens.Proofs.Scanner.LineEnd
import ShellTokens.Proofs.Session.RunsOut
import ShellTokens.Proofs.Session.EndOfInput
import ShellTokens.Proofs.Token.Balanced
import ShellTokens.Proofs.FirstWords
import ShellTokens.Proofs.Scanner.GivenBack
import ShellTokens.Proofs.Session.Errors
import ShellTokens.Proofs.Text.Split
import ShellTokens.Proofs.Text.Begun
import ShellTokens.Proofs.Cursor.Tape
import ShellTokens.Proofs.Cursor.Reading
import ShellTokens.Proofs.Scanner.Parallel
import ShellTokens.Proofs.Scanner.StrayByte
import ShellTokens.Proofs.FirstWords.Log
import ShellTokens.Proofs.FirstWords.Holders
import ShellTokens.Proofs.Session.Pooled
import ShellTokens.Proofs.Cursor.Taken
import ShellTokens.Proofs.Scanner.Past
import ShellTokens.Proofs.Scanner.Represented
import ShellTokens.Proofs.Scanner.Bounded
