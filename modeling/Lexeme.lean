import Lexeme.Catalog
import Lexeme.Position
import Lexeme.Proofs.Layout
import Lexeme.Proofs.Pulls
import Lexeme.Session
import Lexeme.Proofs.Serving
import Lexeme.Proofs.Gathering
import Lexeme.Proofs.Advance
import Lexeme.Proofs.Run
import Lexeme.Proofs.Partition
import Lexeme.Proofs.Failures
import Lexeme.Proofs.Conservation
import Lexeme.Proofs.ReadErrors
import Lexeme.Proofs.Pieces
import Lexeme.Proofs.Encode
import Lexeme.Proofs.Reading
import Lexeme.Proofs.States
import Lexeme.Proofs.Interruptions
import Lexeme.Proofs.Splits
import Lexeme.Proofs.Isolation
import Lexeme.Proofs.Laziness
import Lexeme.Proofs.Concatenation
import Lexeme.Proofs.Consumption
import Lexeme.Proofs.RomanForms
import Lexeme.Proofs.Spellings
import Lexeme.Proofs.LastRead
import Lexeme.Proofs.Order
import Lexeme.Proofs.NumeralKinds
import Lexeme.Proofs.DigitLimit
import Lexeme.Proofs.MixedReads
import Lexeme.Proofs.Contexts
import Lexeme.Proofs.Lifting
import Lexeme.Proofs.Growth
import Lexeme.Proofs.Excerpts
