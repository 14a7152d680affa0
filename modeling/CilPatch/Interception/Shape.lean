/-
Shapes of methods, and which of them can be intercepted.

A wrapper holds one slot for each parameter, one for the instance of an instance method and one for a result. Open
generic methods and instance methods of value types cannot be wrapped, nor can methods that need too many slots.
-/
import CilPatch.Text

namespace CilPatch.Interception

/-- what is known of the type of a parameter, a result or an instance -/
structure TypeInfo where
  size : Nat
  /-- passed by reference: the storage of the caller is handed on -/
  byRef : Bool
  isVoid : Bool
  isValueType : Bool
  deriving DecidableEq, Repr

namespace TypeInfo

/-- nothing is known -/
def blank : TypeInfo := ⟨0, false, false, false⟩

def text (t : TypeInfo) : Text :=
  if t.isVoid then Text.ascii "(void)"
  else
    Text.ascii "(size=" ++ Text.decimal t.size ++ Text.ascii (if t.byRef then ", by ref" else "")
      ++ Text.ascii (if t.isValueType then ", value type" else "") ++ Text.ascii ")"

end TypeInfo

/-- what a method is declared on and the shape of its signature -/
structure MethodInfo where
  name : Text
  declaring : TypeInfo
  isStatic : Bool
  /-- a generic definition that has not been instantiated -/
  isGenericDefinition : Bool
  parameters : List TypeInfo
  returns : TypeInfo
  deriving DecidableEq, Repr

namespace MethodInfo

/-- the slots a wrapper needs: parameters, the instance if there is one, and the result unless it is void -/
def slots (m : MethodInfo) : Nat :=
  m.parameters.length + (if m.isStatic then 0 else 1) + (if m.returns.isVoid then 0 else 1)

def text (m : MethodInfo) : Text :=
  m.name ++ Text.ascii (if m.isStatic then " (static, params: " else " (instance, params: ")
    ++ Text.decimal m.parameters.length ++ Text.ascii ", returns: " ++ m.returns.text ++ Text.ascii ")"

end MethodInfo

/-- the most slots a wrapper can hold -/
def maxSlots : Nat := 16

/-- why a method cannot be wrapped at all -/
inductive Obstacle where
  | openGeneric
  | valueTypeInstance
  deriving DecidableEq, Repr

namespace Obstacle

def message : Obstacle → Text
  | openGeneric => Text.ascii "open generic method definition"
  | valueTypeInstance => Text.ascii "instance method on a value type"

end Obstacle

/-- why there is no wrapper -/
inductive WrapError where
  | noMethod
  | unsupported (method : Text) (obstacle : Obstacle)
  | tooManyParameters (method : Text) (slots : Nat)
  deriving DecidableEq, Repr

namespace WrapError

def message : WrapError → Text
  | noMethod => Text.ascii "Null method handle"
  | unsupported method obstacle =>
    Text.ascii "Cannot intercept: " ++ method ++ Text.ascii ": " ++ obstacle.message
  | tooManyParameters method slots =>
    Text.ascii "Cannot intercept: " ++ method ++ Text.ascii ": needs " ++ Text.decimal slots
      ++ Text.ascii " slots but at most " ++ Text.decimal maxSlots ++ Text.ascii " are supported"

end WrapError

namespace MethodInfo

/-- the reason why the method cannot be wrapped: the first that holds -/
def refusal? (m : MethodInfo) : Option WrapError :=
  if m.isGenericDefinition then some (.unsupported m.name .openGeneric)
  else if !m.isStatic && m.declaring.isValueType then some (.unsupported m.name .valueTypeInstance)
  else if maxSlots < m.slots then some (.tooManyParameters m.name m.slots)
  else none

end MethodInfo

end CilPatch.Interception
