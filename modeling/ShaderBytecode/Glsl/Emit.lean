import ShaderBytecode.Glsl.Bindings
import ShaderBytecode.Glsl.Body

/-!
# Containers as shaders

A container is lowered as a whole. The body comes first, since only then it is known which constant
buffers are read as plain rows and need an array of rows besides their block.
-/

namespace ShaderBytecode
namespace Glsl

structure Options where
  bindings : BlockBindings
  /-- The version of the language that the shader asks for. -/
  version : Nat
deriving DecidableEq, Repr

/-- No bindings, and version 4.50. -/
def Options.standard : Options := ⟨⟨[]⟩, 450⟩

/-! ### Constant buffers -/

def bufferBlock? (bindings : BlockBindings) (b : ConstantBuffer) :
    Option UniformBlockDeclaration :=
  if b.kind = .constantBuffer ∨ b.kind = .textureBuffer then
    if b.vars.isEmpty then some (.empty b.name)
    else some (.block (bindings.get? b.name) (identifier b.name) (b.vars.map blockMember))
  else none

def maxBufferRows : Nat := 4096

def declaredRows? : Declaration → Option (UInt32 × Nat)
  | .constantBuffer operand _ =>
    match operand.indices with
    | slot :: count :: _ => some (slot.value.toUInt32, max count.value.toNat 1)
    | _ => none
  | _ => none

def declaredBuffers (program : Option Program) : List (UInt32 × Nat) :=
  (program.toList.flatMap Program.declarations).filterMap declaredRows?

/-- The number of rows of a constant buffer that is read as plain rows. -/
def rowsOfBuffer : Option ConstantBuffer → Nat
  | some b => max ((b.size.toNat + 15) / ConstantBuffer.rowBytes) 1
  | none => maxBufferRows

/-- The slots for which an array of rows is declared, each once and in ascending order, with the
numbers of rows: slots that the program declares and no definition covers, and slots that the body
reads as plain rows. -/
def rawBuffers (ctx : Context) (declared : List (UInt32 × Nat)) (rawSlots : List UInt32) :
    List (UInt32 × Nat) :=
  -- a slot that is both declared and read keeps the number of rows it is declared with
  let uncovered := declared.filter fun d => (ctx.bufferAt? d.1).isNone
  let raw := rawSlots.map fun slot => (slot, rowsOfBuffer (ctx.bufferAt? slot))
  let all := uncovered ++ raw
  let slots := ascending (all.map fun d => d.1.toNat)
  slots.filterMap fun slot => all.find? fun d => d.1.toNat = slot

/-- The computations of looking for the constant buffers at those slots. -/
def rawBufferSteps (ctx : Context) (declared : List (UInt32 × Nat)) (rawSlots : List UInt32) :
    List WordStep :=
  (declared.map (·.1) ++ rawSlots).flatMap ctx.bufferAtSteps

/-- The block of an array of rows. It has the binding of the block of the buffer, so that both show
the same contents. -/
def rawBlock (ctx : Context) (bindings : BlockBindings) (raw : UInt32 × Nat) :
    UniformBlockDeclaration :=
  let name := (Name.bufferRows raw.1).text
  .block ((ctx.bufferAt? raw.1).bind fun b => bindings.get? b.name) (name ++ "_block")
    [⟨.vec4, name, some raw.2, none⟩]

/-! ### Shaders -/

/-- The stage of a container: that of its program, or else of its resource definitions. -/
def stageOf (c : Container) : Option Stage :=
  (c.program.map (·.stage)).or (c.resources.map (·.stage))

def contextOf (c : Container) : Context where
  resources := c.resources
  inputType := signatureType c.inputSignature
  outputType := signatureType c.outputSignature
  textures := Texture.collect c.resources c.program

def bodyContextOf (c : Container) : BodyContext where
  context := contextOf c
  copies := epilogue (stageOf c) c.outputSignature
  usedTemps := usedTempCount c.program

def bodyOf (c : Container) : Traced (List Statement) :=
  body (bodyContextOf c)
    (prologue (stageOf c) (signatureType c.inputSignature) c.inputSignature) c.program

def shader (options : Options) (c : Container) : Shader :=
  let ctx := contextOf c
  let body := bodyOf c
  { version := options.version
    profile := c.program.map Program.profile
    blocks :=
      (c.resources.toList.flatMap (·.buffers)).filterMap (bufferBlock? options.bindings)
        ++ (rawBuffers ctx (declaredBuffers c.program) body.rawSlots).map
          (rawBlock ctx options.bindings)
    samplers := ctx.textures.map Texture.declaration
    immediateBuffer := c.program.bind Program.immediateBuffer?
    inputs := inputDeclarations (stageOf c) c.program c.inputSignature
      (usedRegisters c.program .input)
    outputs := outputDeclarations (stageOf c) c.outputSignature
      (usedRegisters c.program .output)
    body := body.value }

def emit (options : Options) (c : Container) : String := (shader options c).text

/-- The computations with words that emitting a container comes across. -/
def emitSteps (c : Container) : List WordStep :=
  let body := bodyOf c
  Texture.collectSteps c.resources c.program ++ body.steps
    ++ rawBufferSteps (contextOf c) (declaredBuffers c.program) body.rawSlots

/-- The text of the shader of a container, or the first computation that leaves its range. -/
def emit? (options : Options) (c : Container) : Except WordStep String :=
  -- the first sum or difference that leaves the words
  match (emitSteps c).find? fun s => !s.inRange with
  | some s => .error s
  | none => .ok (emit options c)

/-- The notices of lowering a container. -/
def emitNotices (c : Container) : List Notice := (bodyOf c).notices

end Glsl
end ShaderBytecode
