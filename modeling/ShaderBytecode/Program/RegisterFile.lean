/-!
# Register files

An operand names a file of registers, or stands for literal values. Every file has a number in the
program, a name, and the letters that a disassembler puts in front of a register number.
-/

namespace ShaderBytecode

inductive RegisterFile where
  | temp
  | input
  | output
  | indexableTemp
  | immediate32
  | immediate64
  | sampler
  | resource
  | constantBuffer
  | immediateConstantBuffer
  | label
  | inputPrimitiveId
  | outputDepth
  | null
  | rasterizer
  | outputCoverageMask
  | stream
  | functionBody
  | functionTable
  | interface
  | functionInput
  | functionOutput
  | outputControlPointId
  | inputForkInstanceId
  | inputJoinInstanceId
  | inputControlPoint
  | outputControlPoint
  | inputPatchConstant
  | inputDomainPoint
  | thisPointer
  | unorderedAccessView
  | threadGroupSharedMemory
  | inputThreadId
  | inputThreadGroupId
  | inputThreadIdInGroup
  | inputCoverageMask
  | inputThreadIdInGroupFlattened
  | inputGsInstanceId
  | outputDepthGreaterEqual
  | outputDepthLessEqual
  | cycleCounter
deriving DecidableEq, Repr

namespace RegisterFile

def all : List RegisterFile :=
  [temp, input, output, indexableTemp, immediate32, immediate64, sampler, resource,
    constantBuffer, immediateConstantBuffer, label, inputPrimitiveId, outputDepth, null,
    rasterizer, outputCoverageMask, stream, functionBody, functionTable, interface,
    functionInput, functionOutput, outputControlPointId, inputForkInstanceId,
    inputJoinInstanceId, inputControlPoint, outputControlPoint, inputPatchConstant,
    inputDomainPoint, thisPointer, unorderedAccessView, threadGroupSharedMemory, inputThreadId,
    inputThreadGroupId, inputThreadIdInGroup, inputCoverageMask, inputThreadIdInGroupFlattened,
    inputGsInstanceId, outputDepthGreaterEqual, outputDepthLessEqual, cycleCounter]

def name : RegisterFile → String
  | temp => "Temp"
  | input => "Input"
  | output => "Output"
  | indexableTemp => "IndexableTemp"
  | immediate32 => "Immediate32"
  | immediate64 => "Immediate64"
  | sampler => "Sampler"
  | resource => "Resource"
  | constantBuffer => "ConstantBuffer"
  | immediateConstantBuffer => "ImmediateConstantBuffer"
  | label => "Label"
  | inputPrimitiveId => "InputPrimitiveId"
  | outputDepth => "OutputDepth"
  | null => "Null"
  | rasterizer => "Rasterizer"
  | outputCoverageMask => "OutputCoverageMask"
  | stream => "Stream"
  | functionBody => "FunctionBody"
  | functionTable => "FunctionTable"
  | interface => "Interface"
  | functionInput => "FunctionInput"
  | functionOutput => "FunctionOutput"
  | outputControlPointId => "OutputControlPointId"
  | inputForkInstanceId => "InputForkInstanceId"
  | inputJoinInstanceId => "InputJoinInstanceId"
  | inputControlPoint => "InputControlPoint"
  | outputControlPoint => "OutputControlPoint"
  | inputPatchConstant => "InputPatchConstant"
  | inputDomainPoint => "InputDomainPoint"
  | thisPointer => "ThisPointer"
  | unorderedAccessView => "UnorderedAccessView"
  | threadGroupSharedMemory => "ThreadGroupSharedMemory"
  | inputThreadId => "InputThreadId"
  | inputThreadGroupId => "InputThreadGroupId"
  | inputThreadIdInGroup => "InputThreadIdInGroup"
  | inputCoverageMask => "InputCoverageMask"
  | inputThreadIdInGroupFlattened => "InputThreadIdInGroupFlattened"
  | inputGsInstanceId => "InputGsInstanceId"
  | outputDepthGreaterEqual => "OutputDepthGreaterEqual"
  | outputDepthLessEqual => "OutputDepthLessEqual"
  | cycleCounter => "CycleCounter"

/-- The letters in front of a register number. -/
def letters : RegisterFile → String
  | temp => "r"
  | input => "v"
  | output => "o"
  | indexableTemp => "x"
  | immediate32 => "l"
  | immediate64 => "d"
  | sampler => "s"
  | resource => "t"
  | constantBuffer => "cb"
  | immediateConstantBuffer => "icb"
  | label => "label"
  | inputPrimitiveId => "vPrim"
  | outputDepth => "oDepth"
  | null => "null"
  | rasterizer => "rasterizer"
  | outputCoverageMask => "oMask"
  | stream => "m"
  | functionBody => "fb"
  | functionTable => "ft"
  | interface => "fp"
  | functionInput => "fi"
  | functionOutput => "fo"
  | outputControlPointId => "vOutputControlPointID"
  | inputForkInstanceId => "vForkInstanceID"
  | inputJoinInstanceId => "vJoinInstanceID"
  | inputControlPoint => "vicp"
  | outputControlPoint => "vocp"
  | inputPatchConstant => "vpc"
  | inputDomainPoint => "vDomain"
  | thisPointer => "this"
  | unorderedAccessView => "u"
  | threadGroupSharedMemory => "g"
  | inputThreadId => "vThreadID"
  | inputThreadGroupId => "vThreadGroupID"
  | inputThreadIdInGroup => "vThreadIDInGroup"
  | inputCoverageMask => "vCoverage"
  | inputThreadIdInGroupFlattened => "vThreadIDInGroupFlattened"
  | inputGsInstanceId => "vGSInstanceID"
  | outputDepthGreaterEqual => "oDepthGE"
  | outputDepthLessEqual => "oDepthLE"
  | cycleCounter => "vCycleCounter"

def number : RegisterFile → Nat
  | temp => 0
  | input => 1
  | output => 2
  | indexableTemp => 3
  | immediate32 => 4
  | immediate64 => 5
  | sampler => 6
  | resource => 7
  | constantBuffer => 8
  | immediateConstantBuffer => 9
  | label => 10
  | inputPrimitiveId => 11
  | outputDepth => 12
  | null => 13
  | rasterizer => 14
  | outputCoverageMask => 15
  | stream => 16
  | functionBody => 17
  | functionTable => 18
  | interface => 19
  | functionInput => 20
  | functionOutput => 21
  | outputControlPointId => 22
  | inputForkInstanceId => 23
  | inputJoinInstanceId => 24
  | inputControlPoint => 25
  | outputControlPoint => 26
  | inputPatchConstant => 27
  | inputDomainPoint => 28
  | thisPointer => 29
  | unorderedAccessView => 30
  | threadGroupSharedMemory => 31
  | inputThreadId => 32
  | inputThreadGroupId => 33
  | inputThreadIdInGroup => 34
  | inputCoverageMask => 35
  | inputThreadIdInGroupFlattened => 36
  | inputGsInstanceId => 37
  | outputDepthGreaterEqual => 38
  | outputDepthLessEqual => 39
  | cycleCounter => 40

def ofNumber? (n : Nat) : Option RegisterFile := all.find? (·.number == n)

@[simp] theorem ofNumber?_number (f : RegisterFile) : ofNumber? f.number = some f := by
  cases f <;> rfl

end RegisterFile
end ShaderBytecode
