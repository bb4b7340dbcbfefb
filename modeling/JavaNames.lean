import JavaNames.Command.LogFormat
import JavaNames.Main
import JavaNames.Proofs.Analysis.Messages
import JavaNames.Proofs.Analysis.Outline
import JavaNames.Proofs.Binding.Lockstep
import JavaNames.Proofs.Command.ExitCode
import JavaNames.Proofs.Declaring.Enclosing
import JavaNames.Proofs.Declaring.Repeats
import JavaNames.Proofs.Declaring.SelfReference
import JavaNames.Proofs.Printing.Inverse
import JavaNames.Proofs.Progress.Unit
import JavaNames.Proofs.Reading.Balance
import JavaNames.Proofs.Report.Snippet
import JavaNames.Proofs.Silence.Unit
import JavaNames.Proofs.Token.Numeral
import JavaNames.Proofs.Token.Quoted
import JavaNames.Proofs.Token.Tiling
import JavaNames.Proofs.Written.Cast
import JavaNames.Proofs.Written.Foresight
import JavaNames.Proofs.Written.Modifiers
import JavaNames.Token.Bytewise
import JavaNames.Proofs.Token.Cut
import JavaNames.Proofs.Token.Bytewise
import JavaNames.Proofs.Reading.Typed
