import JniProbe.Lib.GoFormat
import JniProbe.SchemaTable

/-!
The JNI schema by slot index, and two classifications the tracer derives from
a function's name: its mode category and whether its return value feeds a
name cache.
-/

namespace JniProbe

open GoText GoFormat

def slotName (slot : Nat) : Bytes :=
  match jniSchema[slot]? with
  | some f => f.name
  | none =>
    match jniNames[slot]? with
    | some name => name
    | none => str "slot" ++ digits 10 slot

def slotRet (slot : Nat) : Bytes :=
  match jniSchema[slot]? with
  | some f => f.ret
  | none => str "void"

def slotArgs (slot : Nat) : List Bytes :=
  match jniSchema[slot]? with
  | some f => f.args
  | none => []

def category (name : Bytes) : Bytes :=
  if hasPrefix name (str "Call") && contains name (str "Method") then str "call"
  else if hasPrefix name (str "NewObject") || name == str "AllocObject" then str "new"
  else if ((hasPrefix name (str "Get") || hasPrefix name (str "Set")) &&
      hasSuffix name (str "Field")) || hasSuffix name (str "FieldID") then str "field"
  else if name == str "FindClass" || name == str "DefineClass" || name == str "GetSuperclass" ||
      name == str "IsAssignableFrom" || name == str "GetObjectClass" ||
      name == str "IsInstanceOf" then str "class"
  else if contains name (str "String") then str "string"
  else str "other"

/-- Slots whose return values are always captured, to feed the name caches. -/
def alwaysWatch (n : Bytes) : Bool :=
  [str "GetMethodID", str "GetStaticMethodID", str "GetFieldID", str "GetStaticFieldID",
    str "FindClass", str "GetObjectClass", str "NewObject", str "NewObjectV",
    str "NewObjectA", str "AllocObject", str "GetStringUTFChars", str "NewStringUTF"].contains n

end JniProbe
