import Credence.Types.Container

namespace Credence

/-- The shape of a parameter or a result of a builtin. -/
inductive Shape where
  | any | int | float | complex | bool | str | bytes | none | list | dict | set | tuple
  | strList | bytesList | strTriple | bytesTriple | intPair
deriving DecidableEq

namespace Shape

def type : Shape → Ty
  | any => .any
  | int => .int
  | float => .float
  | complex => .complex
  | bool => .bool
  | str => .str
  | bytes => .bytes
  | none => .none
  | list => .listOf []
  | dict => .dictOf [] []
  | set => .setOf []
  | tuple => .tupleOf []
  | strList => .listOf [.str]
  | bytesList => .listOf [.bytes]
  | strTriple => .tupleOf [.str, .str, .str]
  | bytesTriple => .tupleOf [.bytes, .bytes, .bytes]
  | intPair => .tupleOf [.int, .int]

end Shape

abbrev SignatureTable := List (String × List Shape × Shape)

namespace Builtin

def ofShapes (name : String) (shapes : List Shape × Shape) : Ty :=
  .builtin ⟨name, shapes.1.map Shape.type, shapes.2.type⟩

def functions : SignatureTable :=
  [("__builtins__", [], .any), ("__package__", [], .any), ("__spec__", [], .any),
   ("__loader__", [], .any), ("__doc__", [], .str), ("__name__", [], .str),
   ("__file__", [], .str), ("__debug__", [], .bool), ("__import__", [], .any),
   ("__build_class__", [], .any), ("abs", [.any], .int), ("all", [.any], .bool),
   ("any", [.any], .bool), ("ascii", [.any], .str), ("bin", [.int], .str),
   ("bool", [.any], .bool), ("breakpoint", [], .none), ("bytearray", [.any], .bytes),
   ("bytes", [.any], .bytes), ("callable", [.any], .bool), ("chr", [.int], .str),
   ("classmethod", [.any], .any), ("compile", [.any], .any), ("complex", [.any], .complex),
   ("copyright", [], .any), ("credits", [], .any), ("delattr", [.any, .str], .none),
   ("dict", [.any], .dict), ("dir", [.any], .strList), ("divmod", [.any, .any], .tuple),
   ("enumerate", [.any], .list), ("eval", [.any], .any), ("exec", [.any], .none),
   ("exit", [.any], .any), ("filter", [.any, .any], .any), ("float", [.any], .float),
   ("format", [.any], .str), ("frozenset", [.any], .set), ("getattr", [.any], .any),
   ("globals", [], .dict), ("hasattr", [.any, .str], .bool), ("hash", [.any], .int),
   ("help", [.any], .any), ("hex", [.int], .str), ("id", [.any], .int), ("input", [.any], .str),
   ("int", [.any], .int), ("isinstance", [.any, .any], .bool),
   ("issubclass", [.any, .any], .bool), ("iter", [.any], .any), ("len", [.any], .int),
   ("license", [], .any), ("list", [.any], .list), ("locals", [], .dict),
   ("map", [.any, .any], .any), ("max", [.any], .int), ("memoryview", [.any], .any),
   ("min", [.any], .int), ("next", [.any], .any), ("object", [.any], .any), ("oct", [.int], .str),
   ("open", [.any], .any), ("ord", [.str], .int), ("pow", [.any, .any], .float),
   ("print", [.any], .none), ("property", [.any], .any), ("quit", [], .any),
   ("range", [.any], .list), ("repr", [.any], .str), ("reversed", [.any], .list),
   ("round", [.any], .int), ("set", [.any], .set), ("setattr", [.any, .str, .any], .none),
   ("slice", [.any], .any), ("sorted", [.any], .list), ("staticmethod", [.any], .any),
   ("str", [.any], .str), ("sum", [.any], .int), ("super", [.any], .any),
   ("tuple", [.any], .tuple), ("type", [.any], .any), ("vars", [.any], .dict),
   ("zip", [.any], .list)]

/-- Builtin names of which nothing is known but that they can be called; most are exceptions. -/
def vagueNames : List String :=
  ["NotImplemented", "Ellipsis", "ArithmeticError", "AssertionError", "AttributeError",
   "BaseException", "BlockingIOError", "BrokenPipeError", "BufferError", "BytesWarning",
   "ChildProcessError", "ConnectionAbortedError", "ConnectionError", "ConnectionRefusedError",
   "ConnectionResetError", "DeprecationWarning", "EOFError", "EnvironmentError", "Exception",
   "FileExistsError", "FileNotFoundError", "FloatingPointError", "FutureWarning",
   "GeneratorExit", "IOError", "ImportError", "ImportWarning", "IndentationError", "IndexError",
   "InterruptedError", "IsADirectoryError", "KeyError", "KeyboardInterrupt", "LookupError",
   "MemoryError", "ModuleNotFoundError", "NameError", "NotADirectoryError",
   "NotImplementedError", "OSError", "OverflowError", "PendingDeprecationWarning",
   "PermissionError", "ProcessLookupError", "RecursionError", "ReferenceError",
   "ResourceWarning", "RuntimeError", "RuntimeWarning", "StopAsyncIteration", "StopIteration",
   "SyntaxError", "SyntaxWarning", "SystemError", "SystemExit", "TabError", "TimeoutError",
   "TypeError", "UnboundLocalError", "UnicodeDecodeError", "UnicodeEncodeError", "UnicodeError",
   "UnicodeTranslateError", "UnicodeWarning", "UserWarning", "ValueError", "Warning",
   "ZeroDivisionError"]

def signatures : SignatureTable :=
  functions ++ vagueNames.map fun name => (name, [.any], .any)

def objectMethods : SignatureTable :=
  [("__eq__", [.any], .bool), ("__ne__", [.any], .bool), ("__hash__", [], .int),
   ("__repr__", [], .str), ("__str__", [], .str), ("__format__", [.str], .str),
   ("__sizeof__", [], .int), ("__bool__", [], .bool), ("__dir__", [], .strList),
   ("__reduce__", [], .any), ("__init__", [], .none), ("__new__", [], .any),
   ("__setattr__", [.str, .any], .none), ("__getattribute__", [.str], .any),
   ("__delattr__", [.str], .none)]

def intAttributes : SignatureTable :=
  [("real", [], .int), ("imag", [], .int), ("numerator", [], .int), ("denominator", [], .int)]

def intMethods : SignatureTable :=
  [("bit_length", [], .int), ("bit_count", [], .int), ("conjugate", [], .int),
   ("to_bytes", [.int, .str], .bytes), ("from_bytes", [.bytes, .str], .int),
   ("as_integer_ratio", [], .intPair), ("is_integer", [], .bool)]

def floatAttributes : SignatureTable :=
  [("real", [], .float), ("imag", [], .float)]

def floatMethods : SignatureTable :=
  [("is_integer", [], .bool), ("hex", [], .str), ("fromhex", [.str], .float),
   ("conjugate", [], .float), ("as_integer_ratio", [], .intPair)]

def complexMethods : SignatureTable :=
  [("conjugate", [], .complex)]

def strMethods : SignatureTable :=
  [("capitalize", [], .str), ("casefold", [], .str), ("center", [.int], .str),
   ("count", [.str], .int), ("encode", [], .bytes), ("endswith", [.any], .bool),
   ("expandtabs", [], .str), ("find", [.str], .int), ("format", [], .str),
   ("format_map", [.any], .str), ("index", [.str], .int), ("isalnum", [], .bool),
   ("isalpha", [], .bool), ("isascii", [], .bool), ("isdecimal", [], .bool),
   ("isdigit", [], .bool), ("isidentifier", [], .bool), ("islower", [], .bool),
   ("isnumeric", [], .bool), ("isprintable", [], .bool), ("isspace", [], .bool),
   ("istitle", [], .bool), ("isupper", [], .bool), ("join", [.any], .str),
   ("ljust", [.int], .str), ("lower", [], .str), ("lstrip", [], .str),
   ("maketrans", [.any], .dict), ("partition", [.str], .strTriple),
   ("removeprefix", [.str], .str), ("removesuffix", [.str], .str),
   ("replace", [.str, .str], .str), ("rfind", [.str], .int), ("rindex", [.str], .int),
   ("rjust", [.int], .str), ("rpartition", [.str], .strTriple), ("rsplit", [], .strList),
   ("rstrip", [], .str), ("split", [], .strList), ("splitlines", [], .strList),
   ("startswith", [.any], .bool), ("strip", [], .str), ("swapcase", [], .str),
   ("title", [], .str), ("translate", [.any], .str), ("upper", [], .str), ("zfill", [.int], .str)]

def bytesMethods : SignatureTable :=
  [("count", [.bytes], .int), ("decode", [], .str), ("endswith", [.any], .bool),
   ("find", [.bytes], .int), ("hex", [], .str), ("index", [.bytes], .int), ("isalnum", [], .bool),
   ("isalpha", [], .bool), ("isdigit", [], .bool), ("islower", [], .bool), ("isspace", [], .bool),
   ("isupper", [], .bool), ("join", [.any], .bytes), ("lower", [], .bytes),
   ("lstrip", [], .bytes), ("partition", [.bytes], .bytesTriple),
   ("replace", [.bytes, .bytes], .bytes), ("rsplit", [], .bytesList), ("rstrip", [], .bytes),
   ("split", [], .bytesList), ("splitlines", [], .bytesList), ("startswith", [.any], .bool),
   ("strip", [], .bytes), ("upper", [], .bytes)]

def sequenceMethods : SignatureTable :=
  [("__len__", [], .int), ("__contains__", [.any], .bool), ("__iter__", [], .any)]

end Builtin

end Credence
