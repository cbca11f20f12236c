import ShaderLang.Shader.Binary
import ShaderLang.Shader.Verify
import ShaderLang.Compile.Compiler
import ShaderLang.OutputPath
import ShaderLang.FileTree
import ShaderLang.CommandLine
import ShaderLang.Main
import ShaderLang.Source.Operation
import ShaderLang.Proofs.Grammar.Derivation
import ShaderLang.Proofs.Grammar.Sentence
import ShaderLang.Proofs.Grammar.Description
import ShaderLang.Proofs.Grammar.Arena
import ShaderLang.Proofs.Grammar.Reading
import ShaderLang.Proofs.Grammar.Rejection
import ShaderLang.Proofs.Grammar.Postorder
import ShaderLang.Proofs.Inheritance.Closure
import ShaderLang.Proofs.Inheritance.Walk
import ShaderLang.Proofs.Source.Locality
import ShaderLang.Proofs.Source.Move
import ShaderLang.Proofs.Source.Directive
import ShaderLang.Proofs.Source.Selection
import ShaderLang.Proofs.Source.Inclusion
import ShaderLang.Proofs.Source.Ending
import ShaderLang.Proofs.Source.Captured
import ShaderLang.Proofs.Grammar.Heading
import ShaderLang.Proofs.Document
import ShaderLang.Proofs.Variation.CrossProduct
import ShaderLang.Proofs.Render.Merge
import ShaderLang.Proofs.Render.Assembly
import ShaderLang.Proofs.Render.Sharing
import ShaderLang.Proofs.Compile.Binding
import ShaderLang.Proofs.Compile.Technique
import ShaderLang.Proofs.Compile.Origin
import ShaderLang.Proofs.Compile.Lineup
import ShaderLang.Proofs.Compile.Language
import ShaderLang.Proofs.Param.Growth
import ShaderLang.Proofs.Param.Strictness
import ShaderLang.Proofs.Param.Agreement
import ShaderLang.Proofs.Compile.Nesting
import ShaderLang.Proofs.Compile.Delivery
import ShaderLang.Proofs.Shader.Bytes
import ShaderLang.Proofs.Compile.Verified
import ShaderLang.Proofs.Source.Block
import ShaderLang.Proofs.Source.Branch
import ShaderLang.Proofs.Hlsl.Reflected
import ShaderLang.Proofs.Render.Code
import ShaderLang.Proofs.Text.Replace
import ShaderLang.Proofs.Hlsl.Attribute
import ShaderLang.Proofs.Hlsl.Cleaned
import ShaderLang.Proofs.Source.Edit
import ShaderLang.Proofs.Source.Restore
import ShaderLang.Proofs.Hlsl.WellFormed
import ShaderLang.Proofs.Param.Internal
import ShaderLang.Proofs.Text.Shift
import ShaderLang.Proofs.Hlsl.Header
import ShaderLang.Proofs.Compile.Detection
import ShaderLang.Proofs.Hlsl.Annotation
import ShaderLang.Proofs.Hlsl.Spelling
import ShaderLang.Proofs.Param.StructSize
import ShaderLang.Proofs.Hlsl.Variable
import ShaderLang.Proofs.Param.DefaultSize
import ShaderLang.Proofs.Number.Nearest
import ShaderLang.Proofs.Number.Decimal
import ShaderLang.Proofs.Text.Greedy
import ShaderLang.Proofs.Hlsl.Initializer
import ShaderLang.Proofs.Param.IntegerDefault
import ShaderLang.Proofs.Source.Spelling
import ShaderLang.Proofs.Number.Radix
import ShaderLang.Proofs.Source.Integer
import ShaderLang.Proofs.Source.Place
import ShaderLang.Proofs.Source.Turn
import ShaderLang.Proofs.Source.Accounting
import ShaderLang.Proofs.Source.Position
import ShaderLang.Proofs.Text.Joined
import ShaderLang.Proofs.Source.Condition
import ShaderLang.Proofs.OutputPath
import ShaderLang.Proofs.Render.Target
import ShaderLang.Proofs.Text.Group
import ShaderLang.Proofs.Hlsl.Scope
import ShaderLang.Proofs.Hlsl.Blanked
