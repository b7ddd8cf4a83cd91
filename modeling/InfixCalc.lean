import InfixCalc.Json.Decode
import InfixCalc.Json.Read
import InfixCalc.Main
import InfixCalc.Program.Directory
import InfixCalc.Proofs.Performance
import InfixCalc.Proofs.Requests
import InfixCalc.Proofs.Oblivious
import InfixCalc.Proofs.RankPass
import InfixCalc.Proofs.Conservation
import InfixCalc.Proofs.Forest
import InfixCalc.Proofs.Grammar
import InfixCalc.Proofs.Traces
import InfixCalc.Proofs.Lockstep
import InfixCalc.Proofs.Agreement
import InfixCalc.Proofs.Failures
import InfixCalc.Proofs.Acceptance
import InfixCalc.Proofs.Rereading
import InfixCalc.Proofs.SourceLines
import InfixCalc.Proofs.Decoding
import InfixCalc.Proofs.JsonWriting
import InfixCalc.Proofs.ExactArithmetic
import InfixCalc.Proofs.Recovery
import InfixCalc.Proofs.Reductions
import InfixCalc.Proofs.Groups
import InfixCalc.Proofs.Printing
import InfixCalc.Proofs.Encoding
import InfixCalc.Proofs.Invocations
import InfixCalc.Proofs.ExitCode
import InfixCalc.Proofs.Sessions
import InfixCalc.Proofs.Conversation
import InfixCalc.Proofs.Respacing
import InfixCalc.Proofs.Contexts
import InfixCalc.Proofs.ReportTexts
import InfixCalc.Proofs.Answers
import InfixCalc.Proofs.NormalForm
import InfixCalc.Proofs.Terminator
import InfixCalc.Proofs.Replay
import InfixCalc.Proofs.Visits
import InfixCalc.Proofs.Outlines
import InfixCalc.Proofs.Padding
import InfixCalc.Proofs.Subtrees
import InfixCalc.Proofs.Places
import InfixCalc.Proofs.Leniency
import InfixCalc.Proofs.Machines
import InfixCalc.Proofs.Guards
