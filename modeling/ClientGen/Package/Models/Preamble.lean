import ClientGen.Context
import ClientGen.Package.Names

/-!
# The start of the models module

The logger, the time that timestamps start from, and the classes that all errors of the service
extend.
-/

namespace ClientGen.Package

open Plan

/-- Does anything in the model have a timestamp, declared or of the prelude? -/
def hasTimestamp (m : Model) : Bool :=
  m.shapes.any Shape.isTimestamp ||
    (m.shapes.flatMap Shape.members).any fun member =>
      member.target.isPrelude && member.target.name == "Timestamp"

def serviceErrorClass (service : Shape) : Plan Step Unit :=
  define .classDef "ServiceError" "($T):" [Library.smithyException] do
    docs ("Base error for all errors in the " ++ service.id.name ++ " service.")
    line "pass" []

def apiErrorClass : Plan Step Unit := do
  line "@$T(kw_only=True)" [Library.dataclass]
  define .classDef "ApiError" "[T: str](ServiceError):" [] do
    docs "Base error for all api errors in the service."
    newline
    defineLine .value "code" ": T" []
    docs "A string code that identifies the error."
    newline
    defineLine .value "fault" ": $T[\"client\", \"server\"] | None = None" [Library.literal]
    docs ("Whether the client or server is at fault.\n\n" ++
      "If None, then there was not enough information to determine fault.")
    newline
    defineLine .value "message" ": str = $T(default=\"\")" [Library.field]
    newline
    block "def __post_init__(self) -> None:" [] (line "super().__init__(self.message)" [])

def unknownApiErrorClass : Plan Step Unit := do
  line "@$T(kw_only=True)" [Library.dataclass]
  define .classDef "UnknownApiError" "(ApiError[$T[\"Unknown\"]]):" [Library.literal] do
    docs "Error representing any unknown api errors."
    newline
    defineLine .value "code" ": $T[\"Unknown\"] = \"Unknown\"" [Library.literal]

/-- The time that timestamps start from. -/
def timestampConstant : Plan Step Unit := do
  defineLine .value "_DEFAULT_TIMESTAMP" " = $T(1970, 1, 1, tzinfo=$T)"
    [Library.datetime, Library.utc]
  separate

def preamble (cx : Context) : Plan Edit Unit :=
  edit (serviceError cx.package) do
    emit (.importModule "logging")
    defineLine .value "logger" " = logging.getLogger(__name__)" []
    separate
    onlyIf (hasTimestamp cx.model) timestampConstant
    scope .serviceErrors do
      serviceErrorClass cx.service
      separate
      apiErrorClass
      separate
      unknownApiErrorClass
      separate

end ClientGen.Package
