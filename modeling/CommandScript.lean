import CommandScript.Context.Handle
import CommandScript.Editor.Analysis
import CommandScript.Editor.Completion
import CommandScript.Proofs.Advancements.Recognition
import CommandScript.Proofs.Argument.BlockProperties
import CommandScript.Proofs.Argument.Bounds
import CommandScript.Proofs.Argument.Confined
import CommandScript.Proofs.Argument.Phrase
import CommandScript.Proofs.Argument.Predicates
import CommandScript.Proofs.Argument.Tags
import CommandScript.Proofs.Argument.Vector
import CommandScript.Proofs.Argument.Visible
import CommandScript.Proofs.Combinator.Nested
import CommandScript.Proofs.Editor
import CommandScript.Proofs.Editor.Completion
import CommandScript.Proofs.Editor.Locality
import CommandScript.Proofs.Grammar.Traversal
import CommandScript.Proofs.Number.Range
import CommandScript.Proofs.Shift.Relocation
import CommandScript.Proofs.Text.Anchored
import CommandScript.Proofs.Text.TopLevel
import CommandScript.Proofs.Token.Calls
import CommandScript.Proofs.Token.Reassembly
import CommandScript.Proofs.Token.Scan
import CommandScript.Proofs.Walk.Expansion
import CommandScript.Proofs.Walk.Outcome
import CommandScript.Proofs.Walk.Spacing
import CommandScript.Proofs.Walk.Visible
