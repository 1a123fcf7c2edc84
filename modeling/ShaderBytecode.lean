import ShaderBytecode.Bytes.Session
import ShaderBytecode.CommandLine.Perform
import ShaderBytecode.Main
import ShaderBytecode.Proofs.Container.Embedding
import ShaderBytecode.Proofs.Container.Rereading
import ShaderBytecode.Proofs.Container.Scan
import ShaderBytecode.Proofs.Glsl.BufferReads
import ShaderBytecode.Proofs.Glsl.Emission
import ShaderBytecode.Proofs.Glsl.Exits
import ShaderBytecode.Proofs.Glsl.NameIndependence
import ShaderBytecode.Proofs.Glsl.RawBuffers
import ShaderBytecode.Proofs.Glsl.RegisterDeclarations
import ShaderBytecode.Proofs.Glsl.Temporaries
import ShaderBytecode.Proofs.Glsl.TwoDestinations
import ShaderBytecode.Proofs.Glsl.UniformNames
import ShaderBytecode.Proofs.Program.Concatenation
import ShaderBytecode.Proofs.Program.LengthWord
import ShaderBytecode.Proofs.Program.OperationEncoding
import ShaderBytecode.Proofs.Uniform
import ShaderBytecode.Version
import ShaderBytecode.Proofs.Bytes.Records
import ShaderBytecode.Proofs.Resource.Records
import ShaderBytecode.Proofs.Resource.Decoding
import ShaderBytecode.Proofs.Resource.SharedCursor
import ShaderBytecode.Proofs.Resource.Expansion
import ShaderBytecode.Proofs.Container.Parts
import ShaderBytecode.Proofs.Signature.Encoding
import ShaderBytecode.Proofs.CommandLine.InMemory
import ShaderBytecode.Proofs.CommandLine.RoundTripCheck
import ShaderBytecode.Proofs.Glsl.MemberAccess
import ShaderBytecode.Proofs.CommandLine.ExtractedFolder
import ShaderBytecode.Proofs.Glsl.ProvidedInputs
import ShaderBytecode.Proofs.Glsl.LaneWise
import ShaderBytecode.Proofs.Glsl.Saturation
import ShaderBytecode.Proofs.Resource.OffsetResolution
import ShaderBytecode.Proofs.Program.OperandShape
import ShaderBytecode.Proofs.Glsl.TextureSlots
import ShaderBytecode.Proofs.Glsl.ShiftRange
import ShaderBytecode.Proofs.Bytes.Sessions
import ShaderBytecode.Proofs.Uniform.CallOrder
import ShaderBytecode.Proofs.Uniform.Defaults
import ShaderBytecode.Proofs.Uniform.InPlace
import ShaderBytecode.Proofs.Glsl.FloatLiterals
import ShaderBytecode.Proofs.Program.Traversal
import ShaderBytecode.Proofs.Bytes.Tables
import ShaderBytecode.Proofs.Uniform.Sizes
import ShaderBytecode.Proofs.CommandLine.BindingTable
