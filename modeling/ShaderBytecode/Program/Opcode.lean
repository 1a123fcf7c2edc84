/-!
# Opcodes

The instructions of shader models 4 and 5. Every opcode has a number in the program, a name, and the
mnemonic that a disassembler prints.

Registers hold bits without a type. It is the opcode that decides how the bits of its sources are
read and how the bits of its result are meant: `Opcode.resultType` and `Opcode.sourceType`.
-/

namespace ShaderBytecode

/-- How the bits of a register component are read. -/
inductive NumberType where
  | float
  | int
  | uint
  | double
deriving DecidableEq, Repr, Inhabited

def NumberType.name : NumberType → String
  | float => "Float"
  | int => "Int"
  | uint => "Uint"
  | double => "Double"

inductive Opcode where
  | add
  | bitAnd
  | breakOut
  | breakIf
  | call
  | callIf
  | caseLabel
  | continueOn
  | continueIf
  | cut
  | defaultLabel
  | derivRtx
  | derivRty
  | discard
  | div
  | dp2
  | dp3
  | dp4
  | elseBranch
  | emit
  | emitThenCut
  | endIf
  | endLoop
  | endSwitch
  | eq
  | exp
  | frc
  | ftoi
  | ftou
  | ge
  | iadd
  | beginIf
  | ieq
  | ige
  | ilt
  | imad
  | imax
  | imin
  | imul
  | ine
  | ineg
  | ishl
  | ishr
  | itof
  | label
  | ld
  | ldMs
  | log
  | beginLoop
  | lt
  | mad
  | min
  | max
  | customData
  | mov
  | movc
  | mul
  | ne
  | nop
  | bitNot
  | bitOr
  | resinfo
  | ret
  | retIf
  | roundNe
  | roundNi
  | roundPi
  | roundZ
  | rsq
  | sample
  | sampleC
  | sampleCLz
  | sampleL
  | sampleD
  | sampleB
  | sqrt
  | beginSwitch
  | sincos
  | udiv
  | ult
  | uge
  | umul
  | umad
  | umax
  | umin
  | ushr
  | utof
  | bitXor
  | dclResource
  | dclConstantBuffer
  | dclSampler
  | dclIndexRange
  | dclGsOutputPrimitiveTopology
  | dclGsInputPrimitive
  | dclMaxOutputVertexCount
  | dclInput
  | dclInputSgv
  | dclInputSiv
  | dclInputPs
  | dclInputPsSgv
  | dclInputPsSiv
  | dclOutput
  | dclOutputSgv
  | dclOutputSiv
  | dclTemps
  | dclIndexableTemp
  | dclGlobalFlags
  | lod
  | gather4
  | samplePos
  | sampleInfo
  | hsDecls
  | hsControlPointPhase
  | hsForkPhase
  | hsJoinPhase
  | emitStream
  | cutStream
  | emitThenCutStream
  | interfaceCall
  | bufinfo
  | derivRtxCoarse
  | derivRtxFine
  | derivRtyCoarse
  | derivRtyFine
  | gather4C
  | gather4Po
  | gather4PoC
  | rcp
  | f32tof16
  | f16tof32
  | uaddc
  | usubb
  | countbits
  | firstbitHi
  | firstbitLo
  | firstbitShi
  | ubfe
  | ibfe
  | bfi
  | bfrev
  | swapc
  | dclStream
  | dclFunctionBody
  | dclFunctionTable
  | dclInterface
  | dclInputControlPointCount
  | dclOutputControlPointCount
  | dclTessDomain
  | dclTessPartitioning
  | dclTessOutputPrimitive
  | dclHsMaxTessFactor
  | dclHsForkPhaseInstanceCount
  | dclHsJoinPhaseInstanceCount
  | dclThreadGroup
  | dclUavTyped
  | dclUavRaw
  | dclUavStructured
  | dclTgsmRaw
  | dclTgsmStructured
  | dclResourceRaw
  | dclResourceStructured
  | ldUavTyped
  | storeUavTyped
  | ldRaw
  | storeRaw
  | ldStructured
  | storeStructured
  | atomicAnd
  | atomicOr
  | atomicXor
  | atomicCmpStore
  | atomicIadd
  | atomicImax
  | atomicImin
  | atomicUmax
  | atomicUmin
  | immAtomicAlloc
  | immAtomicConsume
  | immAtomicIadd
  | immAtomicAnd
  | immAtomicOr
  | immAtomicXor
  | immAtomicExch
  | immAtomicCmpExch
  | immAtomicImax
  | immAtomicImin
  | immAtomicUmax
  | immAtomicUmin
  | sync
  | dadd
  | dmax
  | dmin
  | dmul
  | deq
  | dge
  | dlt
  | dne
  | dmov
  | dmovc
  | dtof
  | ftod
  | evalSnapped
  | evalSampleIndex
  | evalCentroid
  | dclGsInstanceCount
  | abort
  | debugBreak
  | ddiv
  | dfma
  | drcp
  | msad
  | dtoi
  | dtou
  | itod
  | utod
deriving DecidableEq, Repr

namespace Opcode

structure Entry where
  number : Nat
  name : String
  mnemonic : String

def entry : Opcode → Entry
  | add => ⟨0, "Add", "add"⟩
  | bitAnd => ⟨1, "And", "and"⟩
  | breakOut => ⟨2, "Break", "break"⟩
  | breakIf => ⟨3, "Breakc", "breakc"⟩
  | call => ⟨4, "Call", "call"⟩
  | callIf => ⟨5, "Callc", "callc"⟩
  | caseLabel => ⟨6, "Case", "case"⟩
  | continueOn => ⟨7, "Continue", "continue"⟩
  | continueIf => ⟨8, "Continuec", "continuec"⟩
  | cut => ⟨9, "Cut", "cut"⟩
  | defaultLabel => ⟨10, "Default", "default"⟩
  | derivRtx => ⟨11, "DerivRtx", "deriv_rtx"⟩
  | derivRty => ⟨12, "DerivRty", "deriv_rty"⟩
  | discard => ⟨13, "Discard", "discard"⟩
  | div => ⟨14, "Div", "div"⟩
  | dp2 => ⟨15, "Dp2", "dp2"⟩
  | dp3 => ⟨16, "Dp3", "dp3"⟩
  | dp4 => ⟨17, "Dp4", "dp4"⟩
  | elseBranch => ⟨18, "Else", "else"⟩
  | emit => ⟨19, "Emit", "emit"⟩
  | emitThenCut => ⟨20, "EmitThenCut", "emitthencut"⟩
  | endIf => ⟨21, "EndIf", "endif"⟩
  | endLoop => ⟨22, "EndLoop", "endloop"⟩
  | endSwitch => ⟨23, "EndSwitch", "endswitch"⟩
  | eq => ⟨24, "Eq", "eq"⟩
  | exp => ⟨25, "Exp", "exp"⟩
  | frc => ⟨26, "Frc", "frc"⟩
  | ftoi => ⟨27, "Ftoi", "ftoi"⟩
  | ftou => ⟨28, "Ftou", "ftou"⟩
  | ge => ⟨29, "Ge", "ge"⟩
  | iadd => ⟨30, "Iadd", "iadd"⟩
  | beginIf => ⟨31, "If", "if"⟩
  | ieq => ⟨32, "Ieq", "ieq"⟩
  | ige => ⟨33, "Ige", "ige"⟩
  | ilt => ⟨34, "Ilt", "ilt"⟩
  | imad => ⟨35, "Imad", "imad"⟩
  | imax => ⟨36, "Imax", "imax"⟩
  | imin => ⟨37, "Imin", "imin"⟩
  | imul => ⟨38, "Imul", "imul"⟩
  | ine => ⟨39, "Ine", "ine"⟩
  | ineg => ⟨40, "Ineg", "ineg"⟩
  | ishl => ⟨41, "Ishl", "ishl"⟩
  | ishr => ⟨42, "Ishr", "ishr"⟩
  | itof => ⟨43, "Itof", "itof"⟩
  | label => ⟨44, "Label", "label"⟩
  | ld => ⟨45, "Ld", "ld"⟩
  | ldMs => ⟨46, "LdMs", "ld_ms"⟩
  | log => ⟨47, "Log", "log"⟩
  | beginLoop => ⟨48, "Loop", "loop"⟩
  | lt => ⟨49, "Lt", "lt"⟩
  | mad => ⟨50, "Mad", "mad"⟩
  | min => ⟨51, "Min", "min"⟩
  | max => ⟨52, "Max", "max"⟩
  | customData => ⟨53, "CustomData", "customdata"⟩
  | mov => ⟨54, "Mov", "mov"⟩
  | movc => ⟨55, "Movc", "movc"⟩
  | mul => ⟨56, "Mul", "mul"⟩
  | ne => ⟨57, "Ne", "ne"⟩
  | nop => ⟨58, "Nop", "nop"⟩
  | bitNot => ⟨59, "Not", "not"⟩
  | bitOr => ⟨60, "Or", "or"⟩
  | resinfo => ⟨61, "Resinfo", "resinfo"⟩
  | ret => ⟨62, "Ret", "ret"⟩
  | retIf => ⟨63, "Retc", "retc"⟩
  | roundNe => ⟨64, "RoundNe", "round_ne"⟩
  | roundNi => ⟨65, "RoundNi", "round_ni"⟩
  | roundPi => ⟨66, "RoundPi", "round_pi"⟩
  | roundZ => ⟨67, "RoundZ", "round_z"⟩
  | rsq => ⟨68, "Rsq", "rsq"⟩
  | sample => ⟨69, "Sample", "sample"⟩
  | sampleC => ⟨70, "SampleC", "sample_c"⟩
  | sampleCLz => ⟨71, "SampleCLz", "sample_c_lz"⟩
  | sampleL => ⟨72, "SampleL", "sample_l"⟩
  | sampleD => ⟨73, "SampleD", "sample_d"⟩
  | sampleB => ⟨74, "SampleB", "sample_b"⟩
  | sqrt => ⟨75, "Sqrt", "sqrt"⟩
  | beginSwitch => ⟨76, "Switch", "switch"⟩
  | sincos => ⟨77, "Sincos", "sincos"⟩
  | udiv => ⟨78, "Udiv", "udiv"⟩
  | ult => ⟨79, "Ult", "ult"⟩
  | uge => ⟨80, "Uge", "uge"⟩
  | umul => ⟨81, "Umul", "umul"⟩
  | umad => ⟨82, "Umad", "umad"⟩
  | umax => ⟨83, "Umax", "umax"⟩
  | umin => ⟨84, "Umin", "umin"⟩
  | ushr => ⟨85, "Ushr", "ushr"⟩
  | utof => ⟨86, "Utof", "utof"⟩
  | bitXor => ⟨87, "Xor", "xor"⟩
  | dclResource => ⟨88, "DclResource", "dcl_resource"⟩
  | dclConstantBuffer => ⟨89, "DclConstantBuffer", "dcl_constantbuffer"⟩
  | dclSampler => ⟨90, "DclSampler", "dcl_sampler"⟩
  | dclIndexRange => ⟨91, "DclIndexRange", "dcl_indexrange"⟩
  | dclGsOutputPrimitiveTopology => ⟨92, "DclGsOutputPrimitiveTopology", "dcl_outputtopology"⟩
  | dclGsInputPrimitive => ⟨93, "DclGsInputPrimitive", "dcl_inputprimitive"⟩
  | dclMaxOutputVertexCount => ⟨94, "DclMaxOutputVertexCount", "dcl_maxout"⟩
  | dclInput => ⟨95, "DclInput", "dcl_input"⟩
  | dclInputSgv => ⟨96, "DclInputSgv", "dcl_input_sgv"⟩
  | dclInputSiv => ⟨97, "DclInputSiv", "dcl_input_siv"⟩
  | dclInputPs => ⟨98, "DclInputPs", "dcl_input_ps"⟩
  | dclInputPsSgv => ⟨99, "DclInputPsSgv", "dcl_input_ps_sgv"⟩
  | dclInputPsSiv => ⟨100, "DclInputPsSiv", "dcl_input_ps_siv"⟩
  | dclOutput => ⟨101, "DclOutput", "dcl_output"⟩
  | dclOutputSgv => ⟨102, "DclOutputSgv", "dcl_output_sgv"⟩
  | dclOutputSiv => ⟨103, "DclOutputSiv", "dcl_output_siv"⟩
  | dclTemps => ⟨104, "DclTemps", "dcl_temps"⟩
  | dclIndexableTemp => ⟨105, "DclIndexableTemp", "dcl_indexableTemp"⟩
  | dclGlobalFlags => ⟨106, "DclGlobalFlags", "dcl_globalFlags"⟩
  | lod => ⟨108, "Lod", "lod"⟩
  | gather4 => ⟨109, "Gather4", "gather4"⟩
  | samplePos => ⟨110, "SamplePos", "samplepos"⟩
  | sampleInfo => ⟨111, "SampleInfo", "sample_info"⟩
  | hsDecls => ⟨113, "HsDecls", "hs_decls"⟩
  | hsControlPointPhase => ⟨114, "HsControlPointPhase", "hs_control_point_phase"⟩
  | hsForkPhase => ⟨115, "HsForkPhase", "hs_fork_phase"⟩
  | hsJoinPhase => ⟨116, "HsJoinPhase", "hs_join_phase"⟩
  | emitStream => ⟨117, "EmitStream", "emit_stream"⟩
  | cutStream => ⟨118, "CutStream", "cut_stream"⟩
  | emitThenCutStream => ⟨119, "EmitThenCutStream", "emitthencut_stream"⟩
  | interfaceCall => ⟨120, "InterfaceCall", "fcall"⟩
  | bufinfo => ⟨121, "Bufinfo", "bufinfo"⟩
  | derivRtxCoarse => ⟨122, "DerivRtxCoarse", "deriv_rtx_coarse"⟩
  | derivRtxFine => ⟨123, "DerivRtxFine", "deriv_rtx_fine"⟩
  | derivRtyCoarse => ⟨124, "DerivRtyCoarse", "deriv_rty_coarse"⟩
  | derivRtyFine => ⟨125, "DerivRtyFine", "deriv_rty_fine"⟩
  | gather4C => ⟨126, "Gather4C", "gather4_c"⟩
  | gather4Po => ⟨127, "Gather4Po", "gather4_po"⟩
  | gather4PoC => ⟨128, "Gather4PoC", "gather4_po_c"⟩
  | rcp => ⟨129, "Rcp", "rcp"⟩
  | f32tof16 => ⟨130, "F32tof16", "f32tof16"⟩
  | f16tof32 => ⟨131, "F16tof32", "f16tof32"⟩
  | uaddc => ⟨132, "Uaddc", "uaddc"⟩
  | usubb => ⟨133, "Usubb", "usubb"⟩
  | countbits => ⟨134, "Countbits", "countbits"⟩
  | firstbitHi => ⟨135, "FirstbitHi", "firstbit_hi"⟩
  | firstbitLo => ⟨136, "FirstbitLo", "firstbit_lo"⟩
  | firstbitShi => ⟨137, "FirstbitShi", "firstbit_shi"⟩
  | ubfe => ⟨138, "Ubfe", "ubfe"⟩
  | ibfe => ⟨139, "Ibfe", "ibfe"⟩
  | bfi => ⟨140, "Bfi", "bfi"⟩
  | bfrev => ⟨141, "Bfrev", "bfrev"⟩
  | swapc => ⟨142, "Swapc", "swapc"⟩
  | dclStream => ⟨143, "DclStream", "dcl_stream"⟩
  | dclFunctionBody => ⟨144, "DclFunctionBody", "dcl_function_body"⟩
  | dclFunctionTable => ⟨145, "DclFunctionTable", "dcl_function_table"⟩
  | dclInterface => ⟨146, "DclInterface", "dcl_interface"⟩
  | dclInputControlPointCount => ⟨147, "DclInputControlPointCount", "dcl_input_control_point_count"⟩
  | dclOutputControlPointCount =>
    ⟨148, "DclOutputControlPointCount", "dcl_output_control_point_count"⟩
  | dclTessDomain => ⟨149, "DclTessDomain", "dcl_tessellator_domain"⟩
  | dclTessPartitioning => ⟨150, "DclTessPartitioning", "dcl_tessellator_partitioning"⟩
  | dclTessOutputPrimitive => ⟨151, "DclTessOutputPrimitive", "dcl_tessellator_output_primitive"⟩
  | dclHsMaxTessFactor => ⟨152, "DclHsMaxTessFactor", "dcl_hs_max_tessfactor"⟩
  | dclHsForkPhaseInstanceCount =>
    ⟨153, "DclHsForkPhaseInstanceCount", "dcl_hs_fork_phase_instance_count"⟩
  | dclHsJoinPhaseInstanceCount =>
    ⟨154, "DclHsJoinPhaseInstanceCount", "dcl_hs_join_phase_instance_count"⟩
  | dclThreadGroup => ⟨155, "DclThreadGroup", "dcl_thread_group"⟩
  | dclUavTyped => ⟨156, "DclUavTyped", "dcl_uav_typed"⟩
  | dclUavRaw => ⟨157, "DclUavRaw", "dcl_uav_raw"⟩
  | dclUavStructured => ⟨158, "DclUavStructured", "dcl_uav_structured"⟩
  | dclTgsmRaw => ⟨159, "DclTgsmRaw", "dcl_tgsm_raw"⟩
  | dclTgsmStructured => ⟨160, "DclTgsmStructured", "dcl_tgsm_structured"⟩
  | dclResourceRaw => ⟨161, "DclResourceRaw", "dcl_resource_raw"⟩
  | dclResourceStructured => ⟨162, "DclResourceStructured", "dcl_resource_structured"⟩
  | ldUavTyped => ⟨163, "LdUavTyped", "ld_uav_typed"⟩
  | storeUavTyped => ⟨164, "StoreUavTyped", "store_uav_typed"⟩
  | ldRaw => ⟨165, "LdRaw", "ld_raw"⟩
  | storeRaw => ⟨166, "StoreRaw", "store_raw"⟩
  | ldStructured => ⟨167, "LdStructured", "ld_structured"⟩
  | storeStructured => ⟨168, "StoreStructured", "store_structured"⟩
  | atomicAnd => ⟨169, "AtomicAnd", "atomic_and"⟩
  | atomicOr => ⟨170, "AtomicOr", "atomic_or"⟩
  | atomicXor => ⟨171, "AtomicXor", "atomic_xor"⟩
  | atomicCmpStore => ⟨172, "AtomicCmpStore", "atomic_cmp_store"⟩
  | atomicIadd => ⟨173, "AtomicIadd", "atomic_iadd"⟩
  | atomicImax => ⟨174, "AtomicImax", "atomic_imax"⟩
  | atomicImin => ⟨175, "AtomicImin", "atomic_imin"⟩
  | atomicUmax => ⟨176, "AtomicUmax", "atomic_umax"⟩
  | atomicUmin => ⟨177, "AtomicUmin", "atomic_umin"⟩
  | immAtomicAlloc => ⟨178, "ImmAtomicAlloc", "imm_atomic_alloc"⟩
  | immAtomicConsume => ⟨179, "ImmAtomicConsume", "imm_atomic_consume"⟩
  | immAtomicIadd => ⟨180, "ImmAtomicIadd", "imm_atomic_iadd"⟩
  | immAtomicAnd => ⟨181, "ImmAtomicAnd", "imm_atomic_and"⟩
  | immAtomicOr => ⟨182, "ImmAtomicOr", "imm_atomic_or"⟩
  | immAtomicXor => ⟨183, "ImmAtomicXor", "imm_atomic_xor"⟩
  | immAtomicExch => ⟨184, "ImmAtomicExch", "imm_atomic_exch"⟩
  | immAtomicCmpExch => ⟨185, "ImmAtomicCmpExch", "imm_atomic_cmp_exch"⟩
  | immAtomicImax => ⟨186, "ImmAtomicImax", "imm_atomic_imax"⟩
  | immAtomicImin => ⟨187, "ImmAtomicImin", "imm_atomic_imin"⟩
  | immAtomicUmax => ⟨188, "ImmAtomicUmax", "imm_atomic_umax"⟩
  | immAtomicUmin => ⟨189, "ImmAtomicUmin", "imm_atomic_umin"⟩
  | sync => ⟨190, "Sync", "sync"⟩
  | dadd => ⟨191, "Dadd", "dadd"⟩
  | dmax => ⟨192, "Dmax", "dmax"⟩
  | dmin => ⟨193, "Dmin", "dmin"⟩
  | dmul => ⟨194, "Dmul", "dmul"⟩
  | deq => ⟨195, "Deq", "deq"⟩
  | dge => ⟨196, "Dge", "dge"⟩
  | dlt => ⟨197, "Dlt", "dlt"⟩
  | dne => ⟨198, "Dne", "dne"⟩
  | dmov => ⟨199, "Dmov", "dmov"⟩
  | dmovc => ⟨200, "Dmovc", "dmovc"⟩
  | dtof => ⟨201, "Dtof", "dtof"⟩
  | ftod => ⟨202, "Ftod", "ftod"⟩
  | evalSnapped => ⟨203, "EvalSnapped", "eval_snapped"⟩
  | evalSampleIndex => ⟨204, "EvalSampleIndex", "eval_sample_index"⟩
  | evalCentroid => ⟨205, "EvalCentroid", "eval_centroid"⟩
  | dclGsInstanceCount => ⟨206, "DclGsInstanceCount", "dcl_gs_instance_count"⟩
  | abort => ⟨207, "Abort", "abort"⟩
  | debugBreak => ⟨208, "DebugBreak", "debug_break"⟩
  | ddiv => ⟨210, "Ddiv", "ddiv"⟩
  | dfma => ⟨211, "Dfma", "dfma"⟩
  | drcp => ⟨212, "Drcp", "drcp"⟩
  | msad => ⟨213, "Msad", "msad"⟩
  | dtoi => ⟨214, "Dtoi", "dtoi"⟩
  | dtou => ⟨215, "Dtou", "dtou"⟩
  | itod => ⟨216, "Itod", "itod"⟩
  | utod => ⟨217, "Utod", "utod"⟩

def number (o : Opcode) : Nat := o.entry.number

def name (o : Opcode) : String := o.entry.name

/-- The mnemonic that a disassembler prints. -/
def mnemonic (o : Opcode) : String := o.entry.mnemonic

/-- Every opcode, in ascending order of number. -/
def all : List Opcode :=
  [add, bitAnd, breakOut, breakIf, call, callIf, caseLabel, continueOn, continueIf, cut,
    defaultLabel, derivRtx, derivRty, discard, div, dp2, dp3, dp4, elseBranch, emit, emitThenCut,
    endIf, endLoop, endSwitch, eq, exp, frc, ftoi, ftou, ge, iadd, beginIf, ieq, ige, ilt, imad,
    imax, imin, imul, ine, ineg, ishl, ishr, itof, label, ld, ldMs, log, beginLoop, lt, mad, min,
    max, customData, mov, movc, mul, ne, nop, bitNot, bitOr, resinfo, ret, retIf, roundNe,
    roundNi, roundPi, roundZ, rsq, sample, sampleC, sampleCLz, sampleL, sampleD, sampleB, sqrt,
    beginSwitch, sincos, udiv, ult, uge, umul, umad, umax, umin, ushr, utof, bitXor, dclResource,
    dclConstantBuffer, dclSampler, dclIndexRange, dclGsOutputPrimitiveTopology,
    dclGsInputPrimitive, dclMaxOutputVertexCount, dclInput, dclInputSgv, dclInputSiv, dclInputPs,
    dclInputPsSgv, dclInputPsSiv, dclOutput, dclOutputSgv, dclOutputSiv, dclTemps,
    dclIndexableTemp, dclGlobalFlags, lod, gather4, samplePos, sampleInfo, hsDecls,
    hsControlPointPhase, hsForkPhase, hsJoinPhase, emitStream, cutStream, emitThenCutStream,
    interfaceCall, bufinfo, derivRtxCoarse, derivRtxFine, derivRtyCoarse, derivRtyFine, gather4C,
    gather4Po, gather4PoC, rcp, f32tof16, f16tof32, uaddc, usubb, countbits, firstbitHi,
    firstbitLo, firstbitShi, ubfe, ibfe, bfi, bfrev, swapc, dclStream, dclFunctionBody,
    dclFunctionTable, dclInterface, dclInputControlPointCount, dclOutputControlPointCount,
    dclTessDomain, dclTessPartitioning, dclTessOutputPrimitive, dclHsMaxTessFactor,
    dclHsForkPhaseInstanceCount, dclHsJoinPhaseInstanceCount, dclThreadGroup, dclUavTyped,
    dclUavRaw, dclUavStructured, dclTgsmRaw, dclTgsmStructured, dclResourceRaw,
    dclResourceStructured, ldUavTyped, storeUavTyped, ldRaw, storeRaw, ldStructured,
    storeStructured, atomicAnd, atomicOr, atomicXor, atomicCmpStore, atomicIadd, atomicImax,
    atomicImin, atomicUmax, atomicUmin, immAtomicAlloc, immAtomicConsume, immAtomicIadd,
    immAtomicAnd, immAtomicOr, immAtomicXor, immAtomicExch, immAtomicCmpExch, immAtomicImax,
    immAtomicImin, immAtomicUmax, immAtomicUmin, sync, dadd, dmax, dmin, dmul, deq, dge, dlt,
    dne, dmov, dmovc, dtof, ftod, evalSnapped, evalSampleIndex, evalCentroid, dclGsInstanceCount,
    abort, debugBreak, ddiv, dfma, drcp, msad, dtoi, dtou, itod, utod]

def ofNumber? (n : Nat) : Option Opcode := all.find? (·.number == n)

/-- An opcode that declares something and has a token layout of its own. -/
def isDeclaration (o : Opcode) : Bool :=
  (88 ≤ o.number && o.number ≤ 106) || (143 ≤ o.number && o.number ≤ 162)
    || o == dclGsInstanceCount

/-- How the bits of the result are meant. -/
def resultType : Opcode → NumberType
  | iadd | imad | imax | imin | imul | ineg | ishl | ishr | ibfe | atomicIadd | atomicImax
  | atomicImin | immAtomicIadd | immAtomicImax | immAtomicImin | ftoi | dtoi => .int
  | bitAnd | bitOr | bitXor | bitNot | ushr | umul | umad | umax | umin | udiv | ubfe | bfi
  | bfrev | countbits | firstbitHi | firstbitLo | uaddc | usubb | atomicAnd | atomicOr
  | atomicXor | atomicUmax | atomicUmin | immAtomicAnd | immAtomicOr | immAtomicXor
  | immAtomicExch | immAtomicUmax | immAtomicUmin | firstbitShi | eq | ne | lt | ge | ieq | ine
  | ilt | ige | ult | uge | ftou | deq | dge | dlt | dne | dtou => .uint
  | dadd | dmax | dmin | dmul | dmov | dmovc | ddiv | dfma | drcp | ftod | itod | utod => .double
  | _ => .float

/-- How the bits of the sources are read. -/
def sourceType : Opcode → NumberType
  | iadd | imad | imax | imin | imul | ineg | ishl | ishr | ibfe | atomicIadd | atomicImax
  | atomicImin | immAtomicIadd | immAtomicImax | immAtomicImin | firstbitShi | ieq | ine | ilt
  | ige | itof | itod => .int
  | bitAnd | bitOr | bitXor | bitNot | ushr | umul | umad | umax | umin | udiv | ubfe | bfi
  | bfrev | countbits | firstbitHi | firstbitLo | uaddc | usubb | atomicAnd | atomicOr
  | atomicXor | atomicUmax | atomicUmin | immAtomicAnd | immAtomicOr | immAtomicXor
  | immAtomicExch | immAtomicUmax | immAtomicUmin | ult | uge | utof | utod => .uint
  | dadd | dmax | dmin | dmul | dmov | dmovc | ddiv | dfma | drcp | deq | dge | dlt | dne
  | dtof | dtoi | dtou => .double
  | _ => .float

theorem ctorIdx_lt (o : Opcode) : o.ctorIdx < 215 := by
  cases o <;> exact Nat.le_of_ble_eq_true rfl

theorem ofNumber?_number_ofNat :
    ∀ i, i < 215 → ofNumber? (Opcode.ofNat i).number = some (Opcode.ofNat i) := by
  decide +kernel

/-- Every opcode is found by its number. -/
@[simp] theorem ofNumber?_number (o : Opcode) : ofNumber? o.number = some o := by
  have h := ofNumber?_number_ofNat o.ctorIdx (ctorIdx_lt o)
  rwa [Opcode.ofNat_ctorIdx] at h

end Opcode
end ShaderBytecode
