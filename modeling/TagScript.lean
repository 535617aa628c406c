import TagScript.Main
import TagScript.Proofs.Arguments
import TagScript.Proofs.Arithmetic
import TagScript.Proofs.Builtins
import TagScript.Proofs.ByName
import TagScript.Proofs.CommandLine
import TagScript.Proofs.Confinement
import TagScript.Proofs.Conservativity
import TagScript.Proofs.Declaration
import TagScript.Proofs.Json.Layout
import TagScript.Proofs.Json.Writing
import TagScript.Proofs.Noninterference
import TagScript.Proofs.OperatorTree
import TagScript.Proofs.Permanence
import TagScript.Proofs.Postorder
import TagScript.Proofs.Program.Layout
import TagScript.Proofs.Program.Numbers
import TagScript.Proofs.Program.Rejection
import TagScript.Proofs.Registration
import TagScript.Proofs.Replacement
import TagScript.Proofs.ScopingModes
import TagScript.Proofs.Soundness
import TagScript.Proofs.TagFree
import TagScript.Value.Equality
