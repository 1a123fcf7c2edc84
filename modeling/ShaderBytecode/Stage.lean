import ShaderBytecode.Error

/-!
# Pipeline stages

A program is compiled for one stage of the graphics pipeline. The program itself and the resource
definitions beside it each record the stage, with numberings of their own.
-/

namespace ShaderBytecode

inductive Stage where
  | pixel
  | vertex
  | geometry
  | hull
  | domain
  | compute
deriving DecidableEq, Repr

namespace Stage

/-- Every stage, in the order of program codes. -/
def all : List Stage := [pixel, vertex, geometry, hull, domain, compute]

def programCode : Stage → UInt32
  | pixel => 0
  | vertex => 1
  | geometry => 2
  | hull => 3
  | domain => 4
  | compute => 5

def resourceCode : Stage → UInt16
  | pixel => 0xFFFF
  | vertex => 0xFFFE
  | geometry => 0x4753
  | hull => 0x4853
  | domain => 0x4453
  | compute => 0x4353

def name : Stage → String
  | pixel => "Pixel"
  | vertex => "Vertex"
  | geometry => "Geometry"
  | hull => "Hull"
  | domain => "Domain"
  | compute => "Compute"

/-- The two letters that stand for a stage in a profile. -/
def letters : Stage → String
  | pixel => "ps"
  | vertex => "vs"
  | geometry => "gs"
  | hull => "hs"
  | domain => "ds"
  | compute => "cs"

def ofProgramCode (code : UInt32) : Except DecodeError Stage :=
  match all.find? (·.programCode == code) with
  | some stage => .ok stage
  | none => .error (.unsupported .programType code.toNat)

def ofResourceCode (code : UInt16) : Except DecodeError Stage :=
  match all.find? (·.resourceCode == code) with
  | some stage => .ok stage
  | none => .error (.unsupported .resourceProgramType code.toNat)

@[simp] theorem ofProgramCode_programCode (s : Stage) : ofProgramCode s.programCode = .ok s := by
  cases s <;> rfl

@[simp] theorem ofResourceCode_resourceCode (s : Stage) :
    ofResourceCode s.resourceCode = .ok s := by
  cases s <;> rfl

end Stage
end ShaderBytecode
