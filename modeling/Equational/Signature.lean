import Equational.Error
import Equational.Term.Rendering

/-! # Signatures

    A signature names one sort, the sorts it depends on, and its operations. It
    **knows** its own sort and those it depends on, and uses no other.

    Two checks stand on it. An operation may be declared when its name is new
    and all its sorts are known. A term is well formed when it uses known sorts
    only and every application in the own sort has a declared operation with
    the declared number of arguments; applications in other sorts are left to
    the signatures of those sorts.
-/

namespace Equational

/-- An operation with the sorts of its arguments and of its result. -/
structure Operation where
  name : String
  argumentSorts : List String
  resultSort : String
deriving DecidableEq, Repr

namespace Operation

/-- The number of arguments. -/
def arity (operation : Operation) : Nat :=
  operation.argumentSorts.length

/-- The operation as it is declared, `push(Stack, Number) -> Stack`. -/
def text (operation : Operation) : String :=
  operation.name ++ "(" ++ commaSeparated operation.argumentSorts ++ ") -> " ++
    operation.resultSort

end Operation

/-- One sort, the sorts it depends on, and its operations in the order of their
    declaration. -/
structure Signature where
  name : String
  dependencies : List String
  operations : List Operation
deriving DecidableEq, Repr

namespace Signature

/-- Whether a sort is the own one or a dependency. -/
def knows (signature : Signature) (sort : String) : Bool :=
  sort == signature.name || signature.dependencies.contains sort

/-- The first operation of a name. -/
def operation? (signature : Signature) (name : String) : Option Operation :=
  signature.operations.find? fun operation => operation.name == name

/-- Whether a name is that of an operation without arguments. -/
def hasConstant (signature : Signature) (name : String) : Bool :=
  (signature.operation? name).any fun operation => operation.arity == 0

/-! ## Declaring operations -/

/-- Adds an operation, unless its name is taken or one of its sorts unknown. -/
def declare (signature : Signature) (operation : Operation) : Except SignatureError Signature :=
  if (signature.operation? operation.name).isSome then
    .error (.duplicateOperation operation.name)
  else
    -- the first unknown sort is reported, that of the result last
    match operation.argumentSorts.find? fun sort => !signature.knows sort with
    | some sort => .error (.unknownArgumentSort operation.name sort)
    | none =>
      if signature.knows operation.resultSort then
        .ok { signature with operations := signature.operations ++ [operation] }
      else .error (.unknownResultSort operation.name operation.resultSort)

/-- The signature of its parts, whose operations are declared one by one. -/
def build (name : String) (dependencies : List String) (operations : List Operation) :
    Except SignatureError Signature :=
  operations.foldlM declare ⟨name, dependencies, []⟩

/-! ## Checking terms -/

/-- Refuses a sort, used for some name, that the signature does not know. -/
def checkSort (signature : Signature) (sort name : String) : Except SignatureError Unit :=
  if signature.knows sort then .ok () else .error (.undeclaredSort sort name none)

/-- Refuses an application in the own sort that its declaration does not allow. -/
def checkApplication (signature : Signature) (operation sort : String) (count : Nat) :
    Except SignatureError Unit :=
  if sort = signature.name then
    match signature.operation? operation with
    | none => .error (.unknownOperation sort operation)
    | some declared =>
      if declared.arity = count then .ok ()
      else .error (.arityMismatch operation declared.arity count)
  -- what other sorts apply is not known here
  else .ok ()

mutual
/-- Checks a term from the top down and from left to right. -/
def checkTerm (signature : Signature) : Term → Except SignatureError Unit
  | .app operation sort arguments => do
    signature.checkSort sort operation
    signature.checkApplication operation sort arguments.length
    checkTerms signature arguments
  | .var name sort => signature.checkSort sort name
/-- The companion of `checkTerm` on argument lists. -/
def checkTerms (signature : Signature) : List Term → Except SignatureError Unit
  | [] => .ok ()
  | t :: ts => do
    checkTerm signature t
    checkTerms signature ts
end

end Signature

end Equational
