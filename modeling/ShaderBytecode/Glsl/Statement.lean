import ShaderBytecode.Glsl.Expr

/-!
# Statements

What stands in the body of `main`. Most statements take one line; a conditional return takes
several, since it repeats the copies that are made before any return.
-/

namespace ShaderBytecode
namespace Glsl

structure Assignment where
  target : Expr
  value : Expr

def Assignment.text (a : Assignment) : String := s!"{a.target.text} = {a.value.text};"

/-- A statement, or a comment in the place of one. -/
inductive Statement where
  | comment (text : String)
  /-- A local variable. -/
  | declare (type : ValueType) (name : Name)
  /-- A local array. -/
  | declareArray (type : ValueType) (array : Name) (length : Nat)
  | assign (a : Assignment)
  /-- The product of two values in double width, of which the high half is assigned. -/
  | wideProduct (type : ValueType) (f : Function) (left right : Expr) (high : Assignment)
  /-- Give up the pixel if a condition holds. -/
  | discardIf (condition : Expr)
  /-- Make copies and return if a condition holds. -/
  | returnIf (condition : Expr) (copies : List Assignment)
  | leave
  /-- A comment in the place of an operation that has no form in GLSL. -/
  | unmapped (opcode : Opcode)

def indent : String := "    "

def Statement.lines : Statement → List String
  | comment text => ["// " ++ text]
  | declare type name => [s!"{type.text} {name.text};"]
  | declareArray type array length => [s!"{type.text} {array.text}[{length}];"]
  | assign a => [a.text]
  | wideProduct type f left right high =>
    [s!"\x7b {type.text} {Name.high.text}, {Name.low.text}; {f.text}({left.text}, {right.text}, "
      ++ s!"{Name.high.text}, {Name.low.text}); {high.text} \x7d"]
  | discardIf condition => [s!"if ({condition.text}) discard;"]
  | returnIf condition copies =>
    [s!"if ({condition.text}) \x7b"] ++ copies.map (fun a => indent ++ a.text)
      ++ [indent ++ "return;", "\x7d"]
  | leave => ["return;"]
  | unmapped opcode => [s!"// unimplemented: {opcode.mnemonic}"]

end Glsl
end ShaderBytecode
