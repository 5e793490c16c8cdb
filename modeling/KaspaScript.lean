import KaspaScript.Cli.Amount
import KaspaScript.Codegen.Assembly
import KaspaScript.Codegen.Compositional
import KaspaScript.Engine.Number
import KaspaScript.Ir.Continuation
import KaspaScript.Ir.References
import KaspaScript.Ir.Rendered
import KaspaScript.Ir.Bindings
import KaspaScript.Ir.Captured
import KaspaScript.Ir.Diagnostics
import KaspaScript.Kernel.Evidence
import KaspaScript.Meaning.Threshold
import KaspaScript.Native.Conserved
import KaspaScript.Native.Spend
import KaspaScript.Parser.Advance
import KaspaScript.Ir.Spans
import KaspaScript.Sdk.KeyOrder
import KaspaScript.Sdk.Locks
import KaspaScript.Sdk.Run
import KaspaScript.Sdk.Selection
import KaspaScript.Sdk.SpendTx
import KaspaScript.Meaning.Signers
import KaspaScript.Sdk.Satisfied
import KaspaScript.Semantic.Scoping
