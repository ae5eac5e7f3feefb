import Gauge.Script.Library.Base
import Gauge.Script.Library.Coroutine
import Gauge.Script.Library.Io
import Gauge.Script.Library.Math
import Gauge.Script.Library.Package
import Gauge.Script.Library.Sequence
import Gauge.Script.Library.Text
import Gauge.Script.Library.Utf8

/-!
The functions that come with the language: what each one does, and under which name it is found.
-/

namespace Gauge.Script.Builtin

def run (f : Builtin) (args : Args) : Native (Array Value) :=
  match f with
  | .base f => Base.run f args
  | .string f => Text.run f args
  | .table f => Sequence.run f args
  | .math f => Math.run f args
  | .utf8 f => Utf8.run f args
  | .coroutine f => Coroutine.run f args
  | .os f => Os.run f args
  | .io f => Io.run f args
  | .stream f => Io.runMethod f args
  | .package f => Package.run f args
  | .matches id => Text.nextMatch id
  | .resumes id => Coroutine.resumeOrRaise id args
  | .reads id => Io.read id #[] 0

def baseFunctions : List (String × BaseFunction) :=
  [("assert", .assert), ("collectgarbage", .collectgarbage), ("dofile", .dofile), ("error", .error),
   ("getmetatable", .getmetatable), ("ipairs", .ipairs), ("load", .load), ("loadfile", .loadfile),
   ("next", .next), ("pairs", .pairs), ("pcall", .pcall), ("print", .print),
   ("rawequal", .rawequal), ("rawget", .rawget), ("rawlen", .rawlen), ("rawset", .rawset),
   ("require", .require), ("select", .select), ("setmetatable", .setmetatable),
   ("tonumber", .tonumber), ("tostring", .tostring), ("type", .type), ("warn", .warn),
   ("xpcall", .xpcall)]

def stringFunctions : List (String × StringFunction) :=
  [("byte", .byte), ("char", .char), ("dump", .dump), ("find", .find), ("format", .format),
   ("gmatch", .gmatch), ("gsub", .gsub), ("len", .len), ("lower", .lower), ("match", .match),
   ("pack", .pack), ("packsize", .packsize), ("rep", .rep), ("reverse", .reverse), ("sub", .sub),
   ("unpack", .unpack), ("upper", .upper)]

def tableFunctions : List (String × TableFunction) :=
  [("concat", .concat), ("insert", .insert), ("move", .move), ("pack", .pack), ("remove", .remove),
   ("sort", .sort), ("unpack", .unpack)]

def mathFunctions : List (String × MathFunction) :=
  [("abs", .abs), ("acos", .acos), ("asin", .asin), ("atan", .atan), ("ceil", .ceil), ("cos", .cos),
   ("cosh", .cosh), ("deg", .deg), ("exp", .exp), ("floor", .floor), ("fmod", .fmod),
   ("frexp", .frexp), ("ldexp", .ldexp), ("log", .log), ("log10", .log10), ("max", .max),
   ("min", .min), ("modf", .modf), ("pow", .pow), ("rad", .rad), ("random", .random),
   ("randomseed", .randomseed), ("sin", .sin), ("sinh", .sinh), ("sqrt", .sqrt), ("tan", .tan),
   ("tanh", .tanh), ("tointeger", .tointeger), ("type", .type), ("ult", .ult)]

def utf8Functions : List (String × Utf8Function) :=
  [("char", .char), ("codepoint", .codepoint), ("codes", .codes), ("len", .len), ("offset", .offset)]

def coroutineFunctions : List (String × CoroutineFunction) :=
  [("close", .close), ("create", .create), ("isyieldable", .isyieldable), ("resume", .resume),
   ("running", .running), ("status", .status), ("wrap", .wrap), ("yield", .yield)]

def osFunctions : List (String × OsFunction) :=
  [("clock", .clock), ("date", .date), ("difftime", .difftime), ("execute", .execute),
   ("exit", .exit), ("getenv", .getenv), ("remove", .remove), ("rename", .rename),
   ("setlocale", .setlocale), ("time", .time), ("tmpname", .tmpname)]

def ioFunctions : List (String × IoFunction) :=
  [("close", .close), ("flush", .flush), ("input", .input), ("lines", .lines), ("open", .open),
   ("output", .output), ("popen", .popen), ("read", .read), ("tmpfile", .tmpfile), ("type", .type),
   ("write", .write)]

def streamMethods : List (String × StreamMethod) :=
  [("close", .close), ("flush", .flush), ("lines", .lines), ("read", .read), ("seek", .seek),
   ("setvbuf", .setvbuf), ("write", .write)]

def packageFunctions : List (String × PackageFunction) :=
  [("loadlib", .loadlib), ("searchpath", .searchpath)]

/-- The name in a list that a function has. -/
def nameIn {α : Type} [BEq α] (library : String) (functions : List (String × α)) (f : α) :
    Option String :=
  (functions.find? (·.2 == f)).map (library ++ ·.1)

/-- The name under which a function is found among the loaded packages. -/
def qualifiedName (f : Builtin) : Option String :=
  match f with
  | .base f => nameIn "" baseFunctions f
  | .string f => nameIn "string." stringFunctions f
  | .table f => nameIn "table." tableFunctions f
  | .math f => nameIn "math." mathFunctions f
  | .utf8 f => nameIn "utf8." utf8Functions f
  | .coroutine f => nameIn "coroutine." coroutineFunctions f
  | .os f => nameIn "os." osFunctions f
  | .io f => nameIn "io." ioFunctions f
  | .package f => nameIn "package." packageFunctions f
  | .stream _ | .matches _ | .resumes _ | .reads _ => none

end Gauge.Script.Builtin
